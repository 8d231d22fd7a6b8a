import Mathlib.Algebra.Group.Nat.Defs
import Mathlib.Tactic.Common

/-!
# Instants and their ISO 8601 text

A `Date` is an instant in milliseconds since the epoch, or no instant at all (JavaScript's
`Invalid Date`). `toISOString` writes it in the proleptic Gregorian calendar, years outside
`0 … 9999` with a sign and six digits, and `ofISOString` reads exactly those texts: **a date that is an
instant comes back as the same instant** (`ofISOString_toISOString`).

Years are counted from March, so that the leap day is the last day of its year; an *era* is the
400-year period the calendar repeats after.
-/

set_option autoImplicit false

namespace SubqlSolana.Lib

/-- An instant, in milliseconds since 1970-01-01T00:00:00.000Z; `none` is `Invalid Date`. -/
structure Date where
  time : Option Int
  deriving Repr, DecidableEq

namespace Date

/-- The largest instant a `Date` can hold, on both sides of the epoch. -/
def maxTime : Int := 8640000000000000

/-- `new Date(ms)`: what is out of range is not a date. -/
def ofTime (ms : Int) : Date := ⟨if -maxTime ≤ ms ∧ ms ≤ maxTime then some ms else none⟩

/-! ## The calendar -/

/-- Days since the epoch of a day of the calendar, months counted from 1. -/
def daysFromCivil (y m d : Int) : Int :=
  let y := if m ≤ 2 then y - 1 else y
  let yearOfEra := y % 400
  let dayOfYear := (153 * ((m + 9) % 12) + 2) / 5 + d - 1
  y / 400 * 146097 + (yearOfEra * 365 + yearOfEra / 4 - yearOfEra / 100 + dayOfYear) - 719468

/-- The day of the calendar, as year, month and day, of a number of days since the epoch. -/
def civilFromDays (days : Int) : Int × Int × Int :=
  let dayOfEra := (days + 719468) % 146097
  -- the last century of an era and the last year of a leap cycle are a day longer
  let century := min (dayOfEra / 36524) 3
  let dayOfCentury := dayOfEra - century * 36524
  let dayOfCycle := dayOfCentury % 1461
  let yearOfCycle := min (dayOfCycle / 365) 3
  let year := (days + 719468) / 146097 * 400 + century * 100 + dayOfCentury / 1461 * 4 + yearOfCycle
  let dayOfYear := dayOfCycle - yearOfCycle * 365
  let mp := (5 * dayOfYear + 2) / 153
  let m := if mp < 10 then mp + 3 else mp - 9
  (if m ≤ 2 then year + 1 else year, m, dayOfYear - (153 * mp + 2) / 5 + 1)

/-- The month, counted from March, of a day of a year that starts in March. -/
def marchMonth (dayOfYear : Int) : Int := (5 * dayOfYear + 2) / 153

theorem civilFromDays_spec (days : Int) : ∃ era century cycle year dayOfYear : Int,
    (0 ≤ century ∧ century ≤ 3) ∧ (0 ≤ cycle ∧ cycle ≤ 24) ∧ (0 ≤ year ∧ year ≤ 3) ∧
    (0 ≤ dayOfYear ∧ dayOfYear ≤ 365) ∧
    days + 719468 = era * 146097 + century * 36524 + cycle * 1461 + year * 365 + dayOfYear ∧
    civilFromDays days =
      (era * 400 + century * 100 + cycle * 4 + year + if marchMonth dayOfYear < 10 then 0 else 1,
        if marchMonth dayOfYear < 10 then marchMonth dayOfYear + 3 else marchMonth dayOfYear - 9,
        dayOfYear - (153 * marchMonth dayOfYear + 2) / 5 + 1) := by
  obtain ⟨century, hcentury⟩ : ∃ c, c = min ((days + 719468) % 146097 / 36524) 3 := ⟨_, rfl⟩
  obtain ⟨dayOfCentury, hdayOfCentury⟩ :
      ∃ d, d = (days + 719468) % 146097 - century * 36524 := ⟨_, rfl⟩
  obtain ⟨year, hyear⟩ : ∃ y, y = min (dayOfCentury % 1461 / 365) 3 := ⟨_, rfl⟩
  obtain ⟨dayOfYear, hdayOfYear⟩ : ∃ d, d = dayOfCentury % 1461 - year * 365 := ⟨_, rfl⟩
  have hc : 0 ≤ century ∧ century ≤ 3 ∧ 0 ≤ dayOfCentury ∧ dayOfCentury ≤ 36524 := by omega
  have hy : 0 ≤ year ∧ year ≤ 3 ∧ 0 ≤ dayOfYear ∧ dayOfYear ≤ 365 := by omega
  have hcycle : 0 ≤ dayOfCentury / 1461 ∧ dayOfCentury / 1461 ≤ 24 := by omega
  have hmonth : 0 ≤ marchMonth dayOfYear ∧ marchMonth dayOfYear ≤ 11 := by
    unfold marchMonth
    omega
  refine ⟨(days + 719468) / 146097, century, dayOfCentury / 1461, year, dayOfYear,
    ⟨hc.1, hc.2.1⟩, hcycle, ⟨hy.1, hy.2.1⟩, hy.2.2, by omega, ?_⟩
  unfold civilFromDays
  have hmarch : (5 * dayOfYear + 2) / 153 = marchMonth dayOfYear := rfl
  simp only [← hcentury, ← hdayOfCentury, ← hyear, ← hdayOfYear, hmarch]
  by_cases h : marchMonth dayOfYear < 10
  · have h2 : ¬marchMonth dayOfYear + 3 ≤ 2 := by omega
    simp only [if_pos h, if_neg h2, Int.add_zero]
  · have h2 : marchMonth dayOfYear - 9 ≤ 2 := by omega
    simp only [if_neg h, if_pos h2]

theorem daysFromCivil_civilFromDays (days : Int) :
    daysFromCivil (civilFromDays days).1 (civilFromDays days).2.1 (civilFromDays days).2.2 =
      days := by
  obtain ⟨era, century, cycle, year, dayOfYear, hcentury, hcycle, hyear, hday, hdays, hcivil⟩ :=
    civilFromDays_spec days
  have hmonth : 0 ≤ marchMonth dayOfYear ∧ marchMonth dayOfYear ≤ 11 := by
    unfold marchMonth
    omega
  rw [hcivil]
  unfold daysFromCivil
  generalize marchMonth dayOfYear = mp at hmonth ⊢
  by_cases h : mp < 10
  · have h2 : ¬mp + 3 ≤ 2 := by omega
    simp only [if_pos h, if_neg h2]
    have : (mp + 3 + 9) % 12 = mp := by omega
    rw [this]
    omega
  · have h2 : mp - 9 ≤ 2 := by omega
    simp only [if_neg h, if_pos h2]
    have : (mp - 9 + 9) % 12 = mp := by omega
    rw [this]
    omega

/-! ## The text -/

/-- A number with leading zeros, `width` digits long. -/
def digits : Nat → Nat → List Char
  | 0, _ => []
  | width + 1, n => digits width (n / 10) ++ [Nat.digitChar (n % 10)]

def yearChars (y : Int) : List Char :=
  if 0 ≤ y ∧ y ≤ 9999 then digits 4 y.toNat
  else (if y < 0 then '-' else '+') :: digits 6 y.natAbs

/-- `date.toISOString()`, which a date that is none does not have. -/
def toISOString (date : Date) : Option String :=
  date.time.map fun t =>
    let (y, m, d) := civilFromDays (t / 86400000)
    let ms := (t % 86400000).toNat
    String.ofList (yearChars y ++ '-' :: digits 2 m.toNat ++ '-' :: digits 2 d.toNat ++
      'T' :: digits 2 (ms / 3600000) ++ ':' :: digits 2 (ms / 60000 % 60) ++
      ':' :: digits 2 (ms / 1000 % 60) ++ '.' :: digits 3 (ms % 1000) ++ ['Z'])

/-- `width` digits, and the text after them. -/
def readDigits : Nat → Nat → List Char → Option (Nat × List Char)
  | 0, acc, cs => some (acc, cs)
  | width + 1, acc, c :: cs =>
    if c.isDigit then readDigits width (acc * 10 + (c.toNat - '0'.toNat)) cs else none
  | _ + 1, _, [] => none

def readChar (expected : Char) : List Char → Option (List Char)
  | c :: cs => if c = expected then some cs else none
  | [] => none

def readYear : List Char → Option (Int × List Char)
  | '+' :: cs => (readDigits 6 0 cs).map fun (y, cs) => ((y : Int), cs)
  | '-' :: cs => (readDigits 6 0 cs).map fun (y, cs) => (-(y : Int), cs)
  | cs => (readDigits 4 0 cs).map fun (y, cs) => ((y : Int), cs)

def readFields (cs : List Char) : Option Int := do
  let (y, cs) ← readYear cs
  let (m, cs) ← readDigits 2 0 (← readChar '-' cs)
  let (d, cs) ← readDigits 2 0 (← readChar '-' cs)
  let (hours, cs) ← readDigits 2 0 (← readChar 'T' cs)
  let (minutes, cs) ← readDigits 2 0 (← readChar ':' cs)
  let (seconds, cs) ← readDigits 2 0 (← readChar ':' cs)
  let (ms, cs) ← readDigits 3 0 (← readChar '.' cs)
  if cs = ['Z'] then
    some (daysFromCivil y m d * 86400000 + (hours * 3600000 + minutes * 60000 + seconds * 1000 + ms : Nat))
  else none

/-- `new Date(text)` on the texts `toISOString` writes; any other text is no date. -/
def ofISOString (text : String) : Date :=
  match readFields text.toList with
  | some t => ofTime t
  | none => ⟨none⟩

/-! ## Reading the text back -/

theorem readDigits_succ : ∀ (width acc : Nat) (cs : List Char),
    readDigits (width + 1) acc cs =
      (readDigits width acc cs).bind fun r => readDigits 1 r.1 r.2
  | 0, acc, cs => rfl
  | width + 1, acc, [] => rfl
  | width + 1, acc, c :: cs => by
    rw [readDigits, readDigits]
    by_cases h : c.isDigit = true
    · rw [if_pos h, if_pos h, readDigits_succ width]
    · rw [if_neg h, if_neg h, Option.bind_none]

theorem readDigits_one (acc n : Nat) (cs : List Char) (h : n < 10) :
    readDigits 1 acc (Nat.digitChar n :: cs) = some (acc * 10 + n, cs) := by
  have hdigit : ∀ n < 10, (Nat.digitChar n).isDigit = true ∧
      (Nat.digitChar n).toNat - '0'.toNat = n := by decide
  obtain ⟨hisDigit, hvalue⟩ := hdigit n h
  rw [readDigits, if_pos hisDigit, hvalue, readDigits]

/-- What `digits` writes is read back, in front of any other text. -/
theorem readDigits_digits (width n acc : Nat) (cs : List Char) (h : n < 10 ^ width) :
    readDigits width acc (digits width n ++ cs) = some (acc * 10 ^ width + n, cs) := by
  induction width generalizing n cs with
  | zero =>
    obtain rfl : n = 0 := by omega
    simp [readDigits, digits]
  | succ width ih =>
    have hhigh : n / 10 < 10 ^ width := by
      rw [Nat.pow_succ] at h
      omega
    rw [readDigits_succ, digits, List.append_assoc, ih (n / 10) _ hhigh, Option.bind_some,
      List.singleton_append, readDigits_one _ _ _ (Nat.mod_lt _ (by decide))]
    have hvalue : (acc * 10 ^ width + n / 10) * 10 + n % 10 = acc * 10 ^ (width + 1) + n := by
      rw [Nat.pow_succ, Nat.add_mul, Nat.mul_assoc]
      omega
    rw [hvalue]

theorem readYear_of_readDigits {cs rest : List Char} {y : Nat}
    (h : readDigits 4 0 cs = some (y, rest)) : readYear cs = some ((y : Int), rest) := by
  unfold readYear
  split
  · cases h
  · cases h
  · rw [h, Option.map_some]

theorem readYear_yearChars {y : Int} (h : y.natAbs < 1000000) (cs : List Char) :
    readYear (yearChars y ++ cs) = some (y, cs) := by
  unfold yearChars
  by_cases hfour : 0 ≤ y ∧ y ≤ 9999
  · rw [if_pos hfour]
    have hread := readDigits_digits 4 y.toNat 0 cs (by omega)
    rw [readYear_of_readDigits hread]
    congr 2
    omega
  · have hread := readDigits_digits 6 y.natAbs 0 cs (by omega)
    rw [if_neg hfour, List.cons_append]
    by_cases hneg : y < 0
    · have hvalue : -((0 * 10 ^ 6 + y.natAbs : Nat) : Int) = y := by omega
      rw [if_pos hneg, readYear, hread]
      exact congrArg (fun y => some (y, cs)) hvalue
    · have hvalue : ((0 * 10 ^ 6 + y.natAbs : Nat) : Int) = y := by omega
      rw [if_neg hneg, readYear, hread]
      exact congrArg (fun y => some (y, cs)) hvalue

/-! ## The round trip -/

/-- A date that is an instant in the range of dates. -/
def Valid (date : Date) : Prop := ∃ t, date.time = some t ∧ -maxTime ≤ t ∧ t ≤ maxTime

theorem ofTime_valid {t : Int} (hlow : -maxTime ≤ t) (hhigh : t ≤ maxTime) : (ofTime t).Valid :=
  ⟨t, if_pos ⟨hlow, hhigh⟩, hlow, hhigh⟩

theorem Valid.eq_ofTime {date : Date} {t : Int} (h : date.Valid) (ht : date.time = some t) :
    ofTime t = date := by
  obtain ⟨t', ht', hrange⟩ := h
  obtain rfl : t = t' := Option.some.inj (ht.symm.trans ht')
  rw [ofTime, if_pos hrange, ← ht]

/-- The fields of a day that a `Date` can hold fit into their digits. -/
theorem civilFromDays_bounds {days : Int} (hlow : -100000000 ≤ days) (hhigh : days ≤ 100000000) :
    (civilFromDays days).1.natAbs < 1000000 ∧
      (0 ≤ (civilFromDays days).2.1 ∧ (civilFromDays days).2.1 < 100) ∧
      (0 ≤ (civilFromDays days).2.2 ∧ (civilFromDays days).2.2 < 100) := by
  obtain ⟨era, century, cycle, year, dayOfYear, hcentury, hcycle, hyear, hday, hdays, hcivil⟩ :=
    civilFromDays_spec days
  rw [hcivil]
  have hmonth : 5 * dayOfYear + 2 = 153 * marchMonth dayOfYear + (5 * dayOfYear + 2) % 153 := by
    unfold marchMonth
    omega
  generalize marchMonth dayOfYear = mp at hmonth
  dsimp only
  refine ⟨?_, ?_, ?_⟩
  · split <;> omega
  · split <;> omega
  · omega

theorem readFields_of_parts {y : Int} {m d hours minutes seconds ms : Nat}
    (hy : y.natAbs < 1000000) (hm : m < 100) (hd : d < 100) (hh : hours < 100)
    (hmin : minutes < 100) (hs : seconds < 100) (hms : ms < 1000) :
    readFields (yearChars y ++ '-' :: digits 2 m ++ '-' :: digits 2 d ++ 'T' :: digits 2 hours ++
        ':' :: digits 2 minutes ++ ':' :: digits 2 seconds ++ '.' :: digits 3 ms ++ ['Z']) =
      some (daysFromCivil y m d * 86400000 +
        (hours * 3600000 + minutes * 60000 + seconds * 1000 + ms : Nat)) := by
  simp only [List.append_assoc, List.cons_append]
  unfold readFields
  rw [readYear_yearChars hy]
  simp only [readChar, if_true, readDigits_digits 2 _ _ _ hm, readDigits_digits 2 _ _ _ hd,
    readDigits_digits 2 _ _ _ hh, readDigits_digits 2 _ _ _ hmin, readDigits_digits 2 _ _ _ hs,
    readDigits_digits 3 _ _ _ hms, Option.bind_eq_bind, Option.bind_some, Nat.zero_mul, Nat.zero_add]

/-- **A valid date is read back from its text**, to the millisecond. -/
theorem ofISOString_toISOString {date : Date} (h : date.Valid) :
    date.toISOString.map ofISOString = some date := by
  obtain ⟨t, ht, hlow, hhigh⟩ := id h
  unfold maxTime at hlow hhigh
  have hday := daysFromCivil_civilFromDays (t / 86400000)
  have hdays : -100000000 ≤ t / 86400000 ∧ t / 86400000 ≤ 100000000 := by omega
  obtain ⟨hy, hm, hd⟩ := civilFromDays_bounds hdays.1 hdays.2
  unfold toISOString
  rw [ht, Option.map_some, Option.map_some]
  rcases hcivil : civilFromDays (t / 86400000) with ⟨y, m, d⟩
  rw [hcivil] at hday hy hm hd
  simp only at hday hy hm hd ⊢
  unfold ofISOString
  rw [String.toList_ofList, readFields_of_parts hy (by omega) (by omega) (by omega) (by omega)
    (by omega) (by omega)]
  have hm' : ((m.toNat : Nat) : Int) = m := Int.toNat_of_nonneg hm.1
  have hd' : ((d.toNat : Nat) : Int) = d := Int.toNat_of_nonneg hd.1
  rw [hm', hd', hday]
  have htime : t / 86400000 * 86400000 + (((t % 86400000).toNat / 3600000 * 3600000 +
      (t % 86400000).toNat / 60000 % 60 * 60000 + (t % 86400000).toNat / 1000 % 60 * 1000 +
      (t % 86400000).toNat % 1000 : Nat) : Int) = t := by
    omega
  rw [htime]
  exact congrArg some (h.eq_ofTime ht)

end Date

end SubqlSolana.Lib
