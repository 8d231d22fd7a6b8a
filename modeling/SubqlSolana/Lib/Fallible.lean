import Mathlib.Data.List.Forall2

/-!
# Calls that may throw

`Except` as the result of a call. `bind_eq_ok` takes apart a sequence of calls that returned, one
call at a time; a loop of calls that all return does so itself (`mapM_ok`).
-/

set_option autoImplicit false

namespace SubqlSolana.Lib

variable {ε α β γ δ : Type}

theorem ok_bind (a : α) (f : α → Except ε β) : (Except.ok a >>= f) = f a := rfl

/-- A sequence of calls returns if each of them does. -/
theorem bind_eq_ok {x : Except ε α} {f : α → Except ε β} {b : β} :
    (x >>= f) = .ok b ↔ ∃ a, x = .ok a ∧ f a = .ok b := by
  cases x with
  | error e =>
    constructor
    · intro h
      cases h
    · rintro ⟨a, ha, -⟩
      cases ha
  | ok a => exact ⟨fun h => ⟨a, rfl, h⟩, fun ⟨_, ha, hb⟩ => Except.ok.inj ha ▸ hb⟩

theorem map_eq_ok {x : Except ε α} {f : α → β} {b : β} :
    x.map f = .ok b ↔ ∃ a, x = .ok a ∧ f a = b := by
  cases x <;> simp [Except.map]

theorem toOption_eq_some {x : Except ε α} {a : α} : x.toOption = some a ↔ x = .ok a := by
  cases x <;> simp [Except.toOption]

theorem mapM_ok {f : α → Except ε β} {as : List α} (h : ∀ a ∈ as, ∃ b, f a = .ok b) :
    ∃ bs, as.mapM f = .ok bs ∧ List.Forall₂ (fun a b => f a = .ok b) as bs := by
  induction as with
  | nil => exact ⟨[], rfl, .nil⟩
  | cons a as ih =>
    obtain ⟨b, hb⟩ := h a List.mem_cons_self
    obtain ⟨bs, hbs, hall⟩ := ih fun a' ha' => h a' (List.mem_cons_of_mem _ ha')
    refine ⟨b :: bs, ?_, .cons hb hall⟩
    rw [List.mapM_cons, hb, hbs]
    rfl

/-- A loop over images, each of which is gone through in the same way. -/
theorem mapM_map_ok {f : β → Except ε γ} {g : α → β} {r : α → γ} (h : ∀ a, f (g a) = .ok (r a))
    (as : List α) : (as.map g).mapM f = .ok (as.map r) := by
  induction as with
  | nil => rfl
  | cons a as ih =>
    rw [List.map_cons, List.mapM_cons, h, ok_bind, ih]
    rfl

/-- Two loops whose calls throw the same, and return what corresponds. -/
theorem mapM_map_eq {f : β → Except ε γ} {g : α → β} {f' : α → Except ε δ} {r : α → δ → γ}
    (h : ∀ a, f (g a) = (f' a).map (r a)) (as : List α) :
    (as.map g).mapM f = (as.mapM f').map (List.zipWith r as) := by
  induction as with
  | nil => rfl
  | cons a as ih =>
    rw [List.map_cons, List.mapM_cons, List.mapM_cons, h, ih]
    cases f' a with
    | error e => rfl
    | ok d => cases as.mapM f' <;> rfl

/-- A loop that returned has a result for each of its calls. -/
theorem forall₂_of_mapM {f : α → Except ε β} {as : List α} : ∀ {bs : List β},
    as.mapM f = .ok bs → List.Forall₂ (fun a b => f a = .ok b) as bs := by
  induction as with
  | nil =>
    intro bs h
    cases h
    exact .nil
  | cons a as ih =>
    intro bs h
    rw [List.mapM_cons] at h
    obtain ⟨b, hb, h⟩ := bind_eq_ok.mp h
    obtain ⟨rest, hrest, h⟩ := bind_eq_ok.mp h
    cases h
    exact .cons hb (ih hrest)

/-- The result at a position is that of the call at this position. -/
theorem getElem?_of_forall₂ {f : α → Except ε β} {as : List α} {bs : List β}
    (h : List.Forall₂ (fun a b => f a = .ok b) as bs) {i : Nat} {a : α} {b : β}
    (ha : as[i]? = some a) (hb : f a = .ok b) : bs[i]? = some b := by
  induction h generalizing i with
  | nil => cases ha
  | cons hfirst _ ih =>
    cases i with
    | zero =>
      cases ha
      rw [hb] at hfirst
      cases hfirst
      rfl
    | succ i => exact ih ha

theorem ok_of_mapM {f : α → Except ε β} {as : List α} {bs : List β} (h : as.mapM f = .ok bs) :
    ∀ a ∈ as, ∃ b, f a = .ok b := by
  intro a hmem
  obtain ⟨i, hi⟩ := List.mem_iff_get.mp hmem
  have hall := forall₂_of_mapM h
  exact ⟨_, hi ▸ hall.get i.isLt (hall.length_eq ▸ i.isLt)⟩

/-- Every element of one list has its counterpart in the other. -/
theorem exists_of_forall₂ {R : α → β → Prop} {as : List α} {bs : List β} (h : List.Forall₂ R as bs) :
    (∀ a ∈ as, ∃ b ∈ bs, R a b) ∧ ∀ b ∈ bs, ∃ a ∈ as, R a b := by
  induction h with
  | nil => exact ⟨by simp, by simp⟩
  | @cons a b as bs hab _ ih =>
    constructor
    · refine List.forall_mem_cons.mpr ⟨⟨b, List.mem_cons_self, hab⟩, fun a' ha' => ?_⟩
      obtain ⟨b', hb', hR⟩ := ih.1 a' ha'
      exact ⟨b', .tail _ hb', hR⟩
    · refine List.forall_mem_cons.mpr ⟨⟨a, List.mem_cons_self, hab⟩, fun b' hb' => ?_⟩
      obtain ⟨a', ha', hR⟩ := ih.2 b' hb'
      exact ⟨a', .tail _ ha', hR⟩

theorem exists_of_mapM {f : α → Except ε β} {as : List α} {bs : List β} (h : as.mapM f = .ok bs)
    {b : β} (hb : b ∈ bs) : ∃ a ∈ as, f a = .ok b :=
  (exists_of_forall₂ (forall₂_of_mapM h)).2 b hb

/-- A loop that collects returns nothing exactly if each of its calls does. -/
theorem flatten_mapM_eq_nil_iff {f : α → Except ε (List β)} {as : List α} :
    (∃ bs, as.mapM f = .ok bs ∧ bs.flatten = []) ↔ ∀ a ∈ as, f a = .ok [] := by
  constructor
  · intro h a hmem
    obtain ⟨bs, hbs, hnil⟩ := h
    obtain ⟨i, hi⟩ := List.getElem?_of_mem hmem
    obtain ⟨b, hb⟩ := ok_of_mapM hbs a hmem
    have hget := getElem?_of_forall₂ (forall₂_of_mapM hbs) hi hb
    rw [hb, List.flatten_eq_nil_iff.mp hnil b (List.mem_of_getElem? hget)]
  · intro h
    induction as with
    | nil => exact ⟨[], rfl, rfl⟩
    | cons a as ih =>
      obtain ⟨bs, hbs, hnil⟩ := ih fun a' hmem => h a' (.tail _ hmem)
      refine ⟨[] :: bs, ?_, hnil⟩
      rw [List.mapM_cons, h a List.mem_cons_self, hbs]
      rfl

end SubqlSolana.Lib
