import Mathlib.Data.Nat.Digits.Lemmas

/-!
# Base58

A list of bytes is a number in base 256, and its text is the same number in base 58; the zeros in front
of a number are kept, one digit for each. So changing the base is undone by changing it back
(`convert_convert`), and a text of digits always means a list of bytes.
-/

set_option autoImplicit false

namespace SubqlSolana.Lib.Base58

/-! ## Changing the base -/

/-- The digits in base `b'` of the number with the digits `l` in base `b`, most significant first. -/
def convert (b b' : Nat) (l : List Nat) : List Nat :=
  List.replicate (l.takeWhile (· = 0)).length 0 ++
    (Nat.digits b' (Nat.ofDigits b (l.dropWhile (· = 0)).reverse)).reverse

theorem takeWhile_zero (l : List Nat) :
    l.takeWhile (· = 0) = List.replicate (l.takeWhile (· = 0)).length 0 := by
  apply List.eq_replicate_of_mem
  intro n hn
  simpa using List.all_eq_true.mp List.all_takeWhile n hn

/-- The digits of a number do not begin with a zero. -/
theorem head_digits_ne_zero (b n : Nat) : ∀ d ∈ (Nat.digits b n).reverse.head?, d ≠ 0 := by
  intro d hd
  rw [List.head?_reverse] at hd
  obtain ⟨hne, rfl⟩ := List.mem_getLast?_eq_getLast hd
  have hn : n ≠ 0 := by
    rintro rfl
    exact hne (Nat.digits_zero b)
  exact Nat.getLast_digit_ne_zero b hn

theorem split_zeros (z : Nat) {l : List Nat} (h : ∀ d ∈ l.head?, d ≠ 0) :
    (List.replicate z 0 ++ l).takeWhile (· = 0) = List.replicate z 0 ∧
      (List.replicate z 0 ++ l).dropWhile (· = 0) = l := by
  induction z with
  | zero =>
    cases l with
    | nil => exact ⟨rfl, rfl⟩
    | cons d l =>
      have hd : d ≠ 0 := h d rfl
      simp [hd]
  | succ z ih =>
    rw [List.replicate_succ, List.cons_append]
    simp only [List.takeWhile_cons, List.dropWhile_cons, decide_true, if_true]
    exact ⟨congrArg (0 :: ·) ih.1, ih.2⟩

theorem convert_lt {b b' : Nat} (hb' : 1 < b') (l : List Nat) : ∀ d ∈ convert b b' l, d < b' := by
  intro d hd
  rcases List.mem_append.mp hd with hd | hd
  · rw [List.eq_of_mem_replicate hd]
    omega
  · exact Nat.digits_lt_base hb' (List.mem_reverse.mp hd)

/-- **The digits come back.** -/
theorem convert_convert {b b' : Nat} (hb : 1 < b) {l : List Nat} (h : ∀ d ∈ l, d < b) :
    convert b' b (convert b b' l) = l := by
  obtain ⟨hzeros, hdigits⟩ := split_zeros (l.takeWhile (· = 0)).length
    (head_digits_ne_zero b' (Nat.ofDigits b (l.dropWhile (· = 0)).reverse))
  have hrest : Nat.digits b (Nat.ofDigits b (l.dropWhile (· = 0)).reverse) =
      (l.dropWhile (· = 0)).reverse := by
    apply Nat.digits_ofDigits b hb
    · intro d hd
      exact h d (List.dropWhile_subset _ (List.mem_reverse.mp hd))
    · intro hne
      rw [List.getLast_reverse]
      have hhead := List.head_dropWhile_not (· = 0) (l := l) (by simpa using hne)
      simpa using hhead
  unfold convert at hzeros hdigits ⊢
  rw [hzeros, hdigits, List.length_replicate, List.reverse_reverse, Nat.ofDigits_digits, hrest,
    List.reverse_reverse, ← takeWhile_zero, List.takeWhile_append_dropWhile]

/-! ## Texts -/

def alphabet : List Char := "123456789ABCDEFGHJKLMNPQRSTUVWXYZabcdefghijkmnopqrstuvwxyz".toList

def digit (n : Nat) : Char := alphabet.getD n '1'

def value (c : Char) : Option Nat := alphabet.findIdx? (· = c)

theorem value_digit : ∀ n < 58, value (digit n) = some n := by decide +kernel

theorem value_isSome_iff {c : Char} : (value c).isSome ↔ c ∈ alphabet := by
  rw [value, List.findIdx?_isSome]
  simp

/-- The digits of a text, if it has no other characters. -/
def values : List Char → Option (List Nat)
  | [] => some []
  | c :: text => do pure ((← value c) :: (← values text))

theorem values_digits {l : List Nat} (h : ∀ n ∈ l, n < 58) : values (l.map digit) = some l := by
  induction l with
  | nil => rfl
  | cons n l ih =>
    rw [List.map_cons, values, value_digit n (h n List.mem_cons_self),
      ih fun m hm => h m (List.mem_cons_of_mem _ hm)]
    rfl

theorem values_isSome_iff {text : List Char} : (values text).isSome ↔ ∀ c ∈ text, c ∈ alphabet := by
  induction text with
  | nil => simp [values]
  | cons c text ih =>
    rw [List.forall_mem_cons, ← value_isSome_iff, ← ih, values]
    cases value c <;> cases values text <;> simp

def encode (bytes : List UInt8) : String :=
  String.ofList ((convert 256 58 (bytes.map UInt8.toNat)).map digit)

def decode (text : String) : Except String (List UInt8) :=
  match values text.toList with
  | none => .error "Non-base58 character"
  | some l => .ok ((convert 58 256 l).map UInt8.ofNat)

theorem toNat_lt_of_mem {bytes : List UInt8} : ∀ n ∈ bytes.map UInt8.toNat, n < 256 := by
  intro n hn
  obtain ⟨byte, -, rfl⟩ := List.mem_map.mp hn
  exact byte.toNat_lt

theorem decode_encode (bytes : List UInt8) : decode (encode bytes) = .ok bytes := by
  unfold decode encode
  rw [String.toList_ofList, values_digits (convert_lt (by decide) _)]
  dsimp only
  rw [convert_convert (by decide) toNat_lt_of_mem, List.map_map]
  exact congrArg Except.ok ((List.map_congr_left fun _ _ => UInt8.ofNat_toNat).trans (List.map_id _))

/-- **A text is read exactly if it has no other characters than digits.** -/
theorem decode_isOk_iff {text : String} :
    (∃ bytes, decode text = .ok bytes) ↔ ∀ c ∈ text.toList, c ∈ alphabet := by
  rw [← values_isSome_iff, decode]
  cases values text.toList <;> simp

end SubqlSolana.Lib.Base58
