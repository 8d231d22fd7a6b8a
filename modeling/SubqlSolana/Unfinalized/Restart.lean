import SubqlSolana.Unfinalized.Operations

/-!
# What a restart keeps

The tracked blocks above the finalized height are what still has to be verified. They are in the store,
and the check that `init` makes leaves them alone: it drops only what is at or below the finalized
height. But when the check finds no fork, `init` goes on to clear both lists, so nothing above the
finalized height survives a restart that does not rewind. `init_keeps_tail_iff` is that, for every run
before it.
-/

set_option autoImplicit false

namespace SubqlSolana

open Lib

/-- Every stored header above `finalized` is still tracked, in memory and in the store. -/
def KeepsTail (finalized : Header) (before after : State) : Prop :=
  ∀ b ∈ before.metadata.decoded, finalized.blockHeight < b.blockHeight →
    (∃ l, after.unfinalizedBlocks? = some l ∧ b ∈ l) ∧ b ∈ after.metadata.decoded

/-- An `init` that does not rewind leaves both lists empty. -/
theorem Env.Inits.clears {env : Env} {resets : List Reset} {w w' : State}
    (h : env.Inits resets w (.ok none) w') :
    w'.unfinalizedBlocks? = some [] ∧ w'.metadata.decoded = [] := by
  cases h with
  | loaded _ _ hvalidates =>
    generalize ho : (Outcome.ok none : Outcome Failure (Option Header)) = o at hvalidates
    cases hvalidates with
    | untracked hempty => exact ⟨congrArg some hempty, hempty⟩
    | failed | rewound | rewindFailed => cases ho
    | @cleared _ _ o _ _ hresets =>
      cases o with
      | fail e => cases ho
      | ok u =>
        rcases hresets with _ | ⟨-, ⟨⟩ | ⟨-, ⟨⟩⟩⟩
        exact ⟨rfl, rfl⟩

/-- **An `init` that does not rewind keeps what is above the finalized height exactly when there is no
such thing**, whatever header `F` the restart is told. -/
theorem init_keeps_tail_iff (ops : List Op) {env : Env} {resets : List Reset} (F : Header)
    (hinit : ((Op.init env resets).run
      (runAll Op.next ops (State.started State.emptyStore)).restarted).1 = .ok none) :
    let w := (runAll Op.next ops (State.started State.emptyStore)).restarted
    KeepsTail F w ((Op.init env resets).run w).2 ↔
      ∀ b ∈ w.metadata.decoded, b.blockHeight ≤ F.blockHeight := by
  intro w
  have hinits : env.Inits resets w _ ((Op.init env resets).run w).2 := init_sat env resets w 0
  obtain ⟨hmemory, hstore⟩ := (hinit ▸ hinits).clears
  constructor
  · intro hkeeps b hb
    by_contra hlt
    have hmem := (hkeeps b hb (by omega)).2
    rw [hstore] at hmem
    cases hmem
  · intro hle b hb hlt
    have := hle b hb
    omega

/-- Slot 100 is final, and slot 101 was tracked before the process died. -/
def restartAt101 : List Op :=
  [.init (.steady (.untimed 100 "a" "z") fun _ => .slotSkipped) [],
    .process (.steady (.untimed 100 "a" "z") fun _ => .slotSkipped) (some (.untimed 101 "b" "a")),
    .crash]

/-- Finality has reached slot 101 when the process comes back, so nothing is above it. -/
theorem init_keeps_tail_iff_finalized :
    let w := (runAll Op.next restartAt101 (State.started State.emptyStore)).restarted
    let env := Env.steady (.untimed 101 "b" "a") fun _ => .slotSkipped
    KeepsTail (.untimed 101 "b" "a") w ((Op.init env []).run w).2 := by
  refine (init_keeps_tail_iff restartAt101 (.untimed 101 "b" "a") rfl).mpr ?_
  decide

/-- **A restart forgets what is not final yet.** Finality is where it was, and slot 101 is no longer
tracked. -/
theorem restart_forgets_tail :
    ¬∀ (ops : List Op) (env : Env) (resets : List Reset) (F : Header),
      let w := (runAll Op.next ops (State.started State.emptyStore)).restarted
      (∀ n, env.getFinalizedHeader n = .ok F) → ((Op.init env resets).run w).1 = .ok none →
        KeepsTail F w ((Op.init env resets).run w).2 := by
  intro h
  have hkeeps := h restartAt101 (.steady (.untimed 100 "a" "z") fun _ => .slotSkipped) []
    (.untimed 100 "a" "z") (fun _ => rfl) rfl
  have hmem := (hkeeps (.untimed 101 "b" "a") (by decide) (by decide)).2
  revert hmem
  decide

end SubqlSolana
