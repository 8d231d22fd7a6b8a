import SubqlSolana.Lib.Fallible

/-!
# Calls that leave a trace

A computation that writes things down one after another and may stop with an error: what it wrote up to
there stays written. `forM_eq_ok_iff` and `forM_eq_error` say what a loop has written when it is at its
end, and when it stopped in between.
-/

set_option autoImplicit false

namespace SubqlSolana.Lib

/-- The trace, and how it ended. -/
structure Traced (ω ε α : Type) where
  trace : List ω
  result : Except ε α

namespace Traced

variable {ω ε α β : Type}

instance : Monad (Traced ω ε) where
  pure a := ⟨[], .ok a⟩
  bind x f :=
    match x with
    | ⟨t, .ok a⟩ => ⟨t ++ (f a).trace, (f a).result⟩
    | ⟨t, .error e⟩ => ⟨t, .error e⟩

/-- A call that writes nothing. -/
def lift (x : Except ε α) : Traced ω ε α := ⟨[], x⟩

/-- Writes something, if that succeeds. -/
def write (w : ω) : Except ε Unit → Traced ω ε Unit
  | .ok _ => ⟨[w], .ok ()⟩
  | .error e => ⟨[], .error e⟩

theorem bind_ok (t : List ω) (a : α) (f : α → Traced ω ε β) :
    (⟨t, .ok a⟩ >>= f) = ⟨t ++ (f a).trace, (f a).result⟩ := rfl

theorem bind_error (t : List ω) (e : ε) (f : α → Traced ω ε β) :
    ((⟨t, .error e⟩ : Traced ω ε α) >>= f) = ⟨t, .error e⟩ := rfl

/-- A sequence returns if both parts do. -/
theorem bind_eq_ok {x : Traced ω ε α} {f : α → Traced ω ε β} {t : List ω} {b : β} :
    (x >>= f) = ⟨t, .ok b⟩ ↔
      ∃ t₁ a t₂, x = ⟨t₁, .ok a⟩ ∧ f a = ⟨t₂, .ok b⟩ ∧ t = t₁ ++ t₂ := by
  obtain ⟨t₁, a | a⟩ := x
  · rw [bind_error]
    constructor
    · rintro ⟨⟩
    · rintro ⟨_, _, _, ⟨⟩, -⟩
  · rw [bind_ok]
    constructor
    · intro h
      obtain ⟨rfl, hresult⟩ := Traced.mk.inj h
      exact ⟨t₁, a, _, rfl, by rw [← hresult], rfl⟩
    · rintro ⟨_, _, t₂, ⟨⟩, hf, rfl⟩
      rw [hf]

/-- It stops in the first part, or in the second one. -/
theorem bind_eq_error {x : Traced ω ε α} {f : α → Traced ω ε β} {t : List ω} {e : ε}
    (h : (x >>= f) = ⟨t, .error e⟩) :
    x = ⟨t, .error e⟩ ∨ ∃ t₁ a t₂, x = ⟨t₁, .ok a⟩ ∧ f a = ⟨t₂, .error e⟩ ∧ t = t₁ ++ t₂ := by
  obtain ⟨t₁, e' | a⟩ := x
  · rw [bind_error] at h
    cases h
    exact .inl rfl
  · rw [bind_ok] at h
    obtain ⟨rfl, hresult⟩ := Traced.mk.inj h
    exact .inr ⟨t₁, a, _, rfl, by rw [← hresult], rfl⟩

theorem lift_eq {x : Except ε α} {t : List ω} {result : Except ε α} :
    lift x = ⟨t, result⟩ ↔ x = result ∧ t = [] := by
  constructor
  · rintro ⟨⟩
    exact ⟨rfl, rfl⟩
  · rintro ⟨rfl, rfl⟩
    rfl

theorem write_eq_ok {w : ω} {done : Except ε Unit} {t : List ω} :
    write w done = ⟨t, .ok ()⟩ ↔ done = .ok () ∧ t = [w] := by
  cases done with
  | error e =>
    constructor
    · rintro ⟨⟩
    · rintro ⟨⟨⟩, -⟩
  | ok u =>
    constructor
    · rintro ⟨⟩
      exact ⟨rfl, rfl⟩
    · rintro ⟨-, rfl⟩
      rfl

theorem write_eq_error {w : ω} {done : Except ε Unit} {t : List ω} {e : ε}
    (h : write w done = ⟨t, .error e⟩) : done = .error e ∧ t = [] := by
  cases done <;> cases h
  exact ⟨rfl, rfl⟩

theorem forM_cons (f : α → Traced ω ε Unit) (a : α) (l : List α) :
    (a :: l).forM f = f a >>= fun _ => l.forM f := rfl

/-- **A loop that comes to its end** has written what each of its rounds writes. -/
theorem forM_eq_ok_iff {f : α → Traced ω ε Unit} {l : List α} {t : List ω} :
    l.forM f = ⟨t, .ok ()⟩ ↔
      ∃ ts, List.Forall₂ (fun a t => f a = ⟨t, .ok ()⟩) l ts ∧ t = ts.flatten := by
  induction l generalizing t with
  | nil =>
    constructor
    · rintro ⟨⟩
      exact ⟨[], .nil, rfl⟩
    · rintro ⟨_, ⟨⟩, rfl⟩
      rfl
  | cons a l ih =>
    rw [forM_cons, bind_eq_ok]
    constructor
    · rintro ⟨t₁, u, t₂, ha, hl, rfl⟩
      obtain ⟨ts, hall, rfl⟩ := ih.mp hl
      exact ⟨t₁ :: ts, .cons ha hall, rfl⟩
    · rintro ⟨_, hall, rfl⟩
      cases hall with
      | cons ha hall => exact ⟨_, (), _, ha, ih.mpr ⟨_, hall, rfl⟩, List.flatten_cons⟩

/-- **A loop that stops** has written what the rounds before wrote, and the beginning of one more. -/
theorem forM_eq_error {f : α → Traced ω ε Unit} {l : List α} {t : List ω} {e : ε}
    (h : l.forM f = ⟨t, .error e⟩) :
    ∃ before a after ts t', l = before ++ a :: after ∧
      List.Forall₂ (fun a t => f a = ⟨t, .ok ()⟩) before ts ∧ f a = ⟨t', .error e⟩ ∧
      t = ts.flatten ++ t' := by
  induction l generalizing t with
  | nil => cases h
  | cons a l ih =>
    rw [forM_cons] at h
    rcases bind_eq_error h with ha | ⟨t₁, u, t₂, ha, hl, rfl⟩
    · exact ⟨[], a, l, [], t, rfl, .nil, ha, rfl⟩
    · obtain ⟨before, b, after, ts, t', rfl, hall, hb, rfl⟩ := ih hl
      exact ⟨a :: before, b, after, t₁ :: ts, t', rfl, .cons ha hall, hb, by simp⟩

end Traced

end SubqlSolana.Lib
