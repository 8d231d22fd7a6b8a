import Mathlib.Data.Set.Basic

/-!
# Covering sets by conditions

A reader who wants the items of several sets asks a store for them by conditions, one condition for a
set at most, and gets what satisfies some condition. Each condition is wide enough for the set it was
made for. The question is what happens to a set that no condition was made for.

A *generic point* of a set is in no condition but those that contain the whole set. Where every such
set has one, the union of the conditions covers it only if a single condition does
(`covers_iff`), and that can be read off the conditions one by one.
-/

set_option autoImplicit false

namespace SubqlSolana.Lib

variable {H I : Type}

/-- What the conditions of `hs` let through. -/
def found (condition : H → Option (Set I)) (hs : List H) : Set I :=
  {i | ∃ h ∈ hs, ∃ c, condition h = some c ∧ i ∈ c}

def Covers (accepts : H → Set I) (condition : H → Option (Set I)) (hs : List H) : Prop :=
  ∀ h ∈ hs, accepts h ⊆ found condition hs

/-- `x` is in no condition of `hs` but those that contain all of `s`. -/
structure Generic (condition : H → Option (Set I)) (hs : List H) (s : Set I) (x : I) : Prop where
  mem : x ∈ s
  whole : ∀ h ∈ hs, ∀ c, condition h = some c → x ∈ c → s ⊆ c

theorem Generic.subset_found_iff {condition : H → Option (Set I)} {hs : List H} {s : Set I} {x : I}
    (hx : Generic condition hs s x) :
    s ⊆ found condition hs ↔ ∃ h ∈ hs, ∃ c, condition h = some c ∧ s ⊆ c := by
  constructor
  · intro hs'
    obtain ⟨h, hh, c, hc, hxc⟩ := hs' hx.mem
    exact ⟨h, hh, c, hc, hx.whole h hh c hc hxc⟩
  · rintro ⟨h, hh, c, hc, hsc⟩ i hi
    exact ⟨h, hh, c, hc, hsc hi⟩

/-- **What the conditions cover**: if each is wide enough for the set it was made for, they cover
everything as soon as one of them contains each set that none was made for, and not before. -/
theorem covers_iff {accepts : H → Set I} {condition : H → Option (Set I)} {hs : List H}
    (hown : ∀ h ∈ hs, ∀ c, condition h = some c → accepts h ⊆ c)
    (hgeneric : ∀ h ∈ hs, condition h = none → (accepts h).Nonempty →
      ∃ x, Generic condition hs (accepts h) x) :
    Covers accepts condition hs ↔ ∀ h ∈ hs, condition h = none → (accepts h).Nonempty →
      ∃ h' ∈ hs, ∃ c, condition h' = some c ∧ accepts h ⊆ c := by
  constructor
  · intro hcovers h hh hnone hne
    obtain ⟨x, hx⟩ := hgeneric h hh hnone hne
    exact hx.subset_found_iff.mp (hcovers h hh)
  · intro hsome h hh i hi
    cases hc : condition h with
    | some c => exact ⟨h, hh, c, hc, hown h hh c hc hi⟩
    | none =>
      obtain ⟨h', hh', c, hc', hsub⟩ := hsome h hh hc ⟨i, hi⟩
      exact ⟨h', hh', c, hc', hsub hi⟩

end SubqlSolana.Lib
