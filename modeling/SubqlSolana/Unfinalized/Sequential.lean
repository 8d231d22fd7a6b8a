import SubqlSolana.Unfinalized.Operations

/-!
# Calls that run one at a time

When nothing is registered while a call is under way, the finalized header is one and the same
throughout it. The relations of `Unfinalized.Updates` then say where a call ends without mentioning
finality again.
-/

set_option autoImplicit false

namespace SubqlSolana

open Lib

variable {env : Env} {s s' : Live} {header : Option Header} {o : Outcome Failure (Option Header)}

/-- Nothing is registered while the operation is under way. -/
def Op.OneAtATime : Op → Prop
  | .init env _ => env.Sequential
  | .process env _ => env.Sequential
  | .reset env _ => env.Sequential
  | .registerFinalizedBlock _ => True
  | .crash => True

/-- The two ends of a call that found no fork and was not lost, and what it left in the store where it
was lost. -/
inductive Live.DeletedFrom (s : Live) : Outcome Failure (Option Header) → Live → Prop where
  | unpruned (h : s.checked.definedAndBelow s.finalized.blockHeight = false) :
      s.DeletedFrom (.ok none) (s.withChecked (.value s.finalized.blockHeight))
  | pruned (h : s.checked.definedAndBelow s.finalized.blockHeight = true) :
      s.DeletedFrom (.ok none) (s.pruned.saved.withChecked (.value s.finalized.blockHeight))
  | lost {s' : Live} (h : s'.metadata = s.metadata ∨ s'.metadata = s.pruned.metadata ∨
      s'.metadata = s.pruned.saved.metadata) : s.DeletedFrom (.fail .crash) s'

/-- The ends of a call that runs alone. -/
inductive Env.CallsAlone (env : Env) (s : Live) (header : Option Header) :
    Outcome Failure (Option Header) → Live → Prop where
  | failed {e : Failure} {s' : Live} (h : env.Finds s header (.fail e) s') :
      env.CallsAlone s header (.fail e) s'
  | searched {forked : Header} {s' : Live} {o : Outcome Failure (Option Header)}
      (hfin : s'.finalized = s.finalized) (h : env.Finds s header (.ok (some forked)) s')
      (hsearch : env.Searches s'.checked (verifiableBlocks s') forked o) :
      env.CallsAlone s header o s'
  | deleted {s₁ s' : Live} {o : Outcome Failure (Option Header)}
      (hfin : s₁.finalized = s.finalized) (h : env.Finds s header (.ok none) s₁)
      (hdeleted : s₁.DeletedFrom o s') : env.CallsAlone s header o s'

theorem Live.withFinalized_eq {s : Live} {F : Header} (h : F = s.finalized) :
    s.withFinalized F = s := by
  rw [h, Live.withFinalized_self]

theorem Env.Deletes.deletedFrom {o : Outcome Failure Unit} (h : env.Deletes s o s')
    (hseq : env.Sequential) : s.DeletedFrom (o.replace none) s' := by
  cases h with
  | unpruned h => exact .unpruned h
  | pruned h hadv =>
    obtain rfl := hseq.advance hadv
    exact .pruned h
  | lostBeforeBlocks => exact .lost (.inr (.inl rfl))
  | lostAfterBlocks => exact .lost (.inr (.inr rfl))

/-- What a lost process leaves of the store is there before it is lost, too. -/
theorem Live.DeletedFrom.lose {s s' : Live} (h : s.DeletedFrom o s') :
    s.DeletedFrom (.fail .crash) s' := by
  cases h with
  | unpruned => exact .lost (.inl rfl)
  | pruned => exact .lost (.inr (.inr rfl))
  | lost h => exact .lost h

theorem Env.Deletes.awaited {o : Outcome Failure Unit} (h : Awaited env (env.Deletes s) o s')
    (hseq : env.Sequential) : s.DeletedFrom (o.replace none) s' := by
  rcases h with ⟨h, hadv⟩ | h | ⟨h, -⟩
  · rw [Live.withFinalized_eq (hseq.advance hadv)]
    exact h.deletedFrom hseq
  · exact h.deletedFrom hseq
  · exact (h.deletedFrom hseq).lose

theorem Env.Calls.alone (h : env.Calls s header o s') (hseq : env.Sequential) :
    env.CallsAlone s header o s' := by
  have hfin := hseq.advance h.advance
  cases h.processes with
  | failed hfinds => exact .failed hfinds
  | @searched _ s₁ _ F hadv hfinds hsearch =>
    have hfin₁ := hseq.advance hadv
    rw [Live.withFinalized_eq (show F = s₁.finalized from hfin.trans hfin₁.symm)]
    exact .searched hfin₁ hfinds hsearch
  | pruned hadv hfinds hdeletes =>
    exact .deleted (hseq.advance hadv) hfinds (Env.Deletes.awaited hdeletes hseq)
  | pruneFailed hadv hfinds hdeletes =>
    exact .deleted (hseq.advance hadv) hfinds (Env.Deletes.awaited hdeletes hseq)

/-- The check compares with the finalized header that the call started with. -/
theorem Env.Finds.checks_of_none {s₁ : Live} (h : env.Finds s header (.ok none) s₁)
    (hseq : env.Sequential) (hfin : s₁.finalized = s.finalized) :
    env.RegistersHeader s header (.ok none) s₁ ∧ env.Checks s₁.blocks s.finalized (.ok none) := by
  cases h with
  | @checked _ s₂ F hadv hreg hchecks =>
    have hfin₂ := hseq.advance hadv
    rw [Live.withFinalized_eq (show F = s₂.finalized from hfin.trans hfin₂.symm)]
    exact ⟨hreg, hfin₂ ▸ hchecks⟩

end SubqlSolana
