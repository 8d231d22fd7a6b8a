import Mathlib.Tactic.Common

/-!
# Runs of a machine

A machine that takes one operation after another. What the environment is assumed to do is a condition
on each operation in the state it meets (`Permitted`), so an assumption may speak of the state; and
`Permitted.invariant` is the only induction over runs there is.
-/

set_option autoImplicit false

namespace SubqlSolana.Lib

variable {σ ω : Type} {next : ω → σ → σ} {may : ω → σ → Prop}

/-- The state after all of `ops`. -/
def runAll (next : ω → σ → σ) (ops : List ω) (s : σ) : σ := ops.foldl (fun s op => next op s) s

@[simp] theorem runAll_nil (s : σ) : runAll next [] s = s := rfl

@[simp] theorem runAll_cons (op : ω) (ops : List ω) (s : σ) :
    runAll next (op :: ops) s = runAll next ops (next op s) := rfl

theorem runAll_append (ops ops' : List ω) (s : σ) :
    runAll next (ops ++ ops') s = runAll next ops' (runAll next ops s) :=
  List.foldl_append

/-- Every operation of the run is permitted in the state it meets. -/
inductive Permitted (next : ω → σ → σ) (may : ω → σ → Prop) : List ω → σ → Prop where
  | nil {s : σ} : Permitted next may [] s
  | cons {op : ω} {ops : List ω} {s : σ} (h : may op s)
      (hrest : Permitted next may ops (next op s)) : Permitted next may (op :: ops) s

namespace Permitted

/-- A run of two parts. -/
theorem append_iff {ops ops' : List ω} {s : σ} : Permitted next may (ops ++ ops') s ↔
    Permitted next may ops s ∧ Permitted next may ops' (runAll next ops s) := by
  induction ops generalizing s with
  | nil => exact ⟨fun h => ⟨.nil, h⟩, fun h => h.2⟩
  | cons op ops ih =>
    constructor
    · rintro (_ | ⟨h, hrest⟩)
      exact ⟨.cons h (ih.mp hrest).1, (ih.mp hrest).2⟩
    · rintro ⟨_ | ⟨h, hrest⟩, h'⟩
      exact .cons h (ih.mpr ⟨hrest, h'⟩)

theorem mono {may' : ω → σ → Prop} {ops : List ω} {s : σ} (h : Permitted next may ops s)
    (himp : ∀ op s, may op s → may' op s) : Permitted next may' ops s := by
  induction h with
  | nil => exact .nil
  | cons h _ ih => exact .cons (himp _ _ h) ih

/-- **An invariant of one permitted operation holds along every permitted run.** -/
theorem invariant {I : σ → Prop} (hstep : ∀ op s, I s → may op s → I (next op s)) {ops : List ω}
    {s : σ} (h : Permitted next may ops s) (hs : I s) : I (runAll next ops s) := by
  induction h with
  | nil => exact hs
  | cons h _ ih => exact ih (hstep _ _ hs h)

/-- What an invariant makes of the permission. -/
theorem of_invariant {may' : ω → σ → Prop} {I : σ → Prop}
    (hstep : ∀ op s, I s → may op s → I (next op s)) (himp : ∀ op s, I s → may op s → may' op s)
    {ops : List ω} {s : σ} (h : Permitted next may ops s) (hs : I s) :
    Permitted next may' ops s := by
  induction h with
  | nil => exact .nil
  | cons h _ ih => exact .cons (himp _ _ hs h) (ih (hstep _ _ hs h))

end Permitted

/-- An invariant that needs no assumption. -/
theorem runAll_invariant {I : σ → Prop} (hstep : ∀ op s, I s → I (next op s)) (ops : List ω) {s : σ}
    (hs : I s) : I (runAll next ops s) := by
  induction ops generalizing s with
  | nil => exact hs
  | cons op ops ih => exact ih (hstep op s hs)

end SubqlSolana.Lib
