import Mathlib.Tactic.Common

/-!
# JSON texts of strings

`JSON.stringify` of a list of strings. The quotes, the backslash and the control characters are escaped,
each in its own way, and no escape begins another one. **Different lists have different texts**
(`stringify_inj`), so that a text can stand for the list.
-/

set_option autoImplicit false

namespace SubqlSolana.Lib.JsonText

/-! ## Characters -/

def hexDigit (n : Nat) : Char := ['0', '1', '2', '3', '4', '5', '6', '7', '8', '9', 'a', 'b', 'c', 'd',
  'e', 'f'].getD n '0'

/-- A character of a string, between the quotes. -/
def escape (c : Char) : List Char :=
  if c = '"' then ['\\', '"']
  else if c = '\\' then ['\\', '\\']
  else if c = '\x08' then ['\\', 'b']
  else if c = '\t' then ['\\', 't']
  else if c = '\n' then ['\\', 'n']
  else if c = '\x0c' then ['\\', 'f']
  else if c = '\r' then ['\\', 'r']
  else if c.toNat < 32 then ['\\', 'u', '0', '0', hexDigit (c.toNat / 16), hexDigit (c.toNat % 16)]
  else [c]

/-- The characters that have an escape. -/
def escaped : List Char := '"' :: '\\' :: (List.range 32).map Char.ofNat

theorem mem_escaped {c : Char} (h : c.toNat < 32) : c ∈ escaped := by
  refine List.mem_cons_of_mem _ (List.mem_cons_of_mem _ ?_)
  exact List.mem_map.mpr ⟨c.toNat, List.mem_range.mpr h, Char.ofNat_toNat c⟩

theorem escape_of_escaped : ∀ c ∈ escaped, (escape c).head? = some '\\' := by
  have hall : (escaped.all fun c => (escape c).head? = some '\\') = true := by decide
  intro c hc
  simpa using List.all_eq_true.mp hall c hc

theorem escape_of_not_escaped {c : Char} (h : c ∉ escaped) : escape c = [c] := by
  have hquote : c ≠ '"' := fun hc => h (hc ▸ by decide)
  have hslash : c ≠ '\\' := fun hc => h (hc ▸ by decide)
  have hcontrol : ¬c.toNat < 32 := fun hc => h (mem_escaped hc)
  have hne : ∀ d : Char, d.toNat < 32 → c ≠ d := by
    intro d hd hc
    exact hcontrol (hc ▸ hd)
  unfold escape
  rw [if_neg hquote, if_neg hslash, if_neg (hne _ (by decide)), if_neg (hne _ (by decide)),
    if_neg (hne _ (by decide)), if_neg (hne _ (by decide)), if_neg (hne _ (by decide)),
    if_neg hcontrol]

/-- No escape begins another one. -/
theorem eq_of_escape_begins : ∀ c ∈ escaped, ∀ c' ∈ escaped, escape c <+: escape c' → c = c' := by
  have hall : (escaped.all fun c => escaped.all fun c' =>
      !(escape c).isPrefixOf (escape c') || c = c') = true := by decide +kernel
  intro c hc c' hc' hbegins
  have hpair := List.all_eq_true.mp (List.all_eq_true.mp hall c hc) c' hc'
  simpa [List.isPrefixOf_iff_prefix.mpr hbegins] using hpair

theorem escape_ne_nil (c : Char) : escape c ≠ [] := by
  by_cases h : c ∈ escaped
  · intro hnil
    have hhead := escape_of_escaped c h
    rw [hnil] at hhead
    cases hhead
  · rw [escape_of_not_escaped h]
    exact List.cons_ne_nil _ _

theorem head_escape {c : Char} {a : Char} {rest : List Char} (h : escape c = a :: rest) :
    a ≠ '"' ∧ (a = '\\' ↔ c ∈ escaped) := by
  by_cases hc : c ∈ escaped
  · have hhead := escape_of_escaped c hc
    rw [h] at hhead
    cases hhead
    exact ⟨by decide, fun _ => hc, fun _ => rfl⟩
  · rw [escape_of_not_escaped hc] at h
    cases h
    refine ⟨?_, ?_, fun h => absurd h hc⟩
    · intro hquote
      exact hc (hquote ▸ by decide)
    · intro hslash
      exact hslash ▸ by decide

/-- The text says where the character ends. -/
theorem escape_append_inj {c c' : Char} {rest rest' : List Char}
    (h : escape c ++ rest = escape c' ++ rest') : c = c' ∧ rest = rest' := by
  have hsame : c = c' := by
    by_cases hc : c ∈ escaped
    · by_cases hc' : c' ∈ escaped
      · rcases List.append_eq_append_iff.mp h with ⟨more, hmore, -⟩ | ⟨more, hmore, -⟩
        · exact eq_of_escape_begins c hc c' hc' ⟨more, hmore.symm⟩
        · exact (eq_of_escape_begins c' hc' c hc ⟨more, hmore.symm⟩).symm
      · obtain ⟨a, more, hmore⟩ := List.exists_cons_of_ne_nil (escape_ne_nil c)
        rw [hmore, escape_of_not_escaped hc'] at h
        have hslash := (head_escape hmore).2.mpr hc
        have hhead : a = c' := (List.cons.inj h).1
        exact absurd (hhead ▸ hslash ▸ by decide) hc'
    · by_cases hc' : c' ∈ escaped
      · obtain ⟨a, more, hmore⟩ := List.exists_cons_of_ne_nil (escape_ne_nil c')
        rw [hmore, escape_of_not_escaped hc] at h
        have hslash := (head_escape hmore).2.mpr hc'
        have hhead : c = a := (List.cons.inj h).1
        exact absurd (hhead ▸ hslash ▸ by decide) hc
      · rw [escape_of_not_escaped hc, escape_of_not_escaped hc'] at h
        exact (List.cons.inj h).1
  subst hsame
  exact ⟨rfl, List.append_cancel_left h⟩

/-! ## Strings -/

def quote (s : String) : List Char := '"' :: s.toList.flatMap escape ++ ['"']

theorem escapes_append_inj {cs cs' rest rest' : List Char}
    (h : cs.flatMap escape ++ '"' :: rest = cs'.flatMap escape ++ '"' :: rest') :
    cs = cs' ∧ rest = rest' := by
  induction cs generalizing cs' with
  | nil =>
    cases cs' with
    | nil => exact ⟨rfl, (List.cons.inj h).2⟩
    | cons c cs' =>
      obtain ⟨a, more, hmore⟩ := List.exists_cons_of_ne_nil (escape_ne_nil c)
      rw [List.flatMap_cons, hmore] at h
      exact absurd (List.cons.inj h).1.symm (head_escape hmore).1
  | cons c cs ih =>
    cases cs' with
    | nil =>
      obtain ⟨a, more, hmore⟩ := List.exists_cons_of_ne_nil (escape_ne_nil c)
      rw [List.flatMap_cons, hmore] at h
      exact absurd (List.cons.inj h).1 (head_escape hmore).1
    | cons c' cs' =>
      simp only [List.flatMap_cons, List.append_assoc] at h
      obtain ⟨rfl, htail⟩ := escape_append_inj h
      obtain ⟨rfl, hrest⟩ := ih htail
      exact ⟨rfl, hrest⟩

theorem quote_append_inj {s s' : String} {rest rest' : List Char}
    (h : quote s ++ rest = quote s' ++ rest') : s = s' ∧ rest = rest' := by
  simp only [quote, List.cons_append, List.append_assoc, List.nil_append] at h
  obtain ⟨hchars, hrest⟩ := escapes_append_inj (List.cons.inj h).2
  exact ⟨String.toList_inj.mp hchars, hrest⟩

/-! ## Lists -/

/-- What comes after an element. -/
def stringifyRest : List String → List Char
  | [] => [']']
  | s :: rest => ',' :: (quote s ++ stringifyRest rest)

def stringify : List String → String
  | [] => "[]"
  | s :: rest => String.ofList ('[' :: (quote s ++ stringifyRest rest))

theorem stringifyRest_inj {ss ss' : List String} (h : stringifyRest ss = stringifyRest ss') :
    ss = ss' := by
  induction ss generalizing ss' with
  | nil =>
    cases ss' with
    | nil => rfl
    | cons s' ss' => exact absurd (List.cons.inj h).1 (by decide)
  | cons s ss ih =>
    cases ss' with
    | nil => exact absurd (List.cons.inj h).1 (by decide)
    | cons s' ss' =>
      obtain ⟨rfl, hrest⟩ := quote_append_inj (List.cons.inj h).2
      rw [ih hrest]

theorem stringify_nil_ne (s : String) (ss : List String) : stringify [] ≠ stringify (s :: ss) := by
  intro h
  have hchars : ['[', ']'] = '[' :: (quote s ++ stringifyRest ss) := by
    have hlist := congrArg String.toList h
    simpa [stringify] using hlist
  exact absurd (List.cons.inj (List.cons.inj hchars).2).1 (by decide)

/-- **Different lists have different texts.** -/
theorem stringify_inj {ss ss' : List String} : stringify ss = stringify ss' ↔ ss = ss' := by
  refine ⟨fun h => ?_, fun h => h ▸ rfl⟩
  cases ss with
  | nil =>
    cases ss' with
    | nil => rfl
    | cons s' ss' => exact absurd h (stringify_nil_ne s' ss')
  | cons s ss =>
    cases ss' with
    | nil => exact absurd h.symm (stringify_nil_ne s ss)
    | cons s' ss' =>
      have hchars := (List.cons.inj (String.ofList_injective h)).2
      obtain ⟨rfl, hrest⟩ := quote_append_inj hchars
      rw [stringifyRest_inj hrest]

example : stringify ["a\"b", "c\n"] = "[\"a\\\"b\",\"c\\n\"]" := by decide

end SubqlSolana.Lib.JsonText
