import SubqlSolana.Unfinalized.Invariant
import SubqlSolana.Unfinalized.Sequential

/-!
# A rewind target for every fork

When the backward search meets no tracked block, the rewind target is the block at
`lastCheckedBlockHeight`, and there is none if that is `undefined`, `null` or `0`. A running service
always has one once it tracks a block (`fallback`): the first call that tracks a block cannot find a
fork, and it ends by setting the height.

A restarted service may not. The height is written to the store on one branch of
`deleteFinalizedBlock` only, and `init` itself resets it to `null`, so a process can die with tracked
blocks in the store and no height. `restart_loses_target` is such a run; `fork_yields_target` says that
an `init` over such a store is the only way to get there.
-/

set_option autoImplicit false

namespace SubqlSolana

open Lib

variable {env : Env} {s s' : Live} {o : Outcome Failure (Option Header)}

/-! ## Calls on an empty list -/

/-- Nothing that finality has reached: nothing to check. -/
theorem Env.Checks.of_unreached {l : List Header} {F : Header} (h : env.Checks l F o)
    (hl : ∀ b ∈ l, F.blockHeight < b.blockHeight) : o = .ok none ∨ o = .fail .crash := by
  have hnone : closestRecord l F.blockHeight = none :=
    List.find?_eq_none.mpr fun b hb => by
      have := hl b (List.mem_reverse.mp hb)
      simp only [decide_eq_true_eq]
      omega
  cases h with
  | untracked => exact .inl rfl
  | agrees hclosest | forked hclosest | failed hclosest =>
    rw [hnone] at hclosest
    cases hclosest
  | lost => exact .inr rfl

theorem Env.Fills.of_empty {l : List Header} {header : Header} (h : env.Fills [] header o l) :
    o = .ok none ∧ l = [] := by
  cases h with
  | untracked => exact ⟨rfl, rfl⟩
  | gap hlast | lost hlast => cases hlast

/-- The first header to be tracked has nothing to disagree with. -/
theorem Env.Registers.of_empty {header : Header} (h : env.Registers s header o s')
    (hempty : s.blocks = []) : (o = .ok none ∨ o = .fail .crash) ∧
      ∀ b ∈ s'.blocks, s.finalized.blockHeight < b.blockHeight := by
  cases h with
  | ignored => exact ⟨.inl rfl, by simp [hempty]⟩
  | notSequential _ hlast =>
    rw [hempty] at hlast
    cases hlast
  | gapFailed _ hfill | gapForked _ hfill =>
    rw [hempty] at hfill
    cases hfill.of_empty.1
  | forked _ hfill hlast _ =>
    rw [hempty] at hfill
    rw [hfill.of_empty.2] at hlast
    cases hlast
  | appended habove hfill _ ho =>
    rw [hempty] at hfill
    obtain ⟨-, rfl⟩ := hfill.of_empty
    exact ⟨ho.imp_right And.left, by simpa using habove⟩

theorem Env.Finds.of_empty {header : Option Header} (h : env.Finds s header o s')
    (hseq : env.Sequential) (hempty : s.blocks = []) : o = .ok none ∨ o = .fail .crash := by
  have hreg : ∀ {o s₁}, env.RegistersHeader s header o s₁ → (o = .ok none ∨ o = .fail .crash) ∧
      ∀ b ∈ s₁.blocks, s.finalized.blockHeight < b.blockHeight := by
    intro o s₁ hreg
    rcases hreg with _ | ⟨hreg, -⟩ | hreg | ⟨hreg, -⟩
    · exact ⟨.inl rfl, by simp [hempty]⟩
    · exact hreg.of_empty hempty
    · exact hreg.of_empty hempty
    · exact ⟨.inr rfl, (hreg.of_empty hempty).2⟩
  cases h with
  | failed h => exact (hreg h).1
  | registered h => rcases (hreg h).1 with h | h <;> cases h
  | checked hadv h hchecks =>
    refine hchecks.of_unreached ?_
    rw [hseq.advance hadv]
    exact (hreg h).2

/-! ## The search -/

/-- Why a search throws: a request did, or a header on the way has no parent hash. -/
def Env.Throws (env : Env) (e : Failure) : Prop :=
  (∃ slot, env.Reply slot (.fail e)) ∨ (∃ n, e = .error (env.negativeSlot n)) ∨
    e = .error noParentWhileSearching

theorem Env.Below.throws {slot : Nat} {e : Failure} (h : env.Below slot (.fail e)) :
    env.Throws e := by
  induction slot with
  | zero =>
    cases h with
    | outOfRange => exact .inr (.inl ⟨_, rfl⟩)
    | lost hcrash => exact .inl ⟨0, .lost hcrash⟩
  | succ slot ih =>
    cases h with
    | lost hcrash => exact .inl ⟨0, .lost hcrash⟩
    | skipped _ hbelow => exact ih hbelow
    | failed hreply _ => exact .inl ⟨slot, hreply⟩

/-- An outcome that names a rewind target, unless something threw on the way to it. -/
def Env.Targets (env : Env) (o : Outcome Failure (Option Header)) : Prop :=
  (∃ R, o = .ok (some R)) ∨ ∃ e, o = .fail e ∧ env.Throws e

/-- **With a height to fall back to, a search names a target.** -/
theorem Env.Searches.targets {checked : Nullish Nat} {blocks : List Header} {forked : Header}
    (h : env.Searches checked blocks forked o) (hchecked : checked.truthy?.isSome) :
    env.Targets o := by
  induction h with
  | matched => exact .inl ⟨_, rfl⟩
  | step _ _ _ ih => exact ih
  | failed _ hparent =>
    refine .inr ⟨_, rfl, ?_⟩
    cases hparent with
    | noParentHash => exact .inr (.inr rfl)
    | below _ hbelow => exact hbelow.throws
  | exhausted hnone =>
    rw [hnone] at hchecked
    cases hchecked
  | fallback => exact .inl ⟨_, rfl⟩
  | fallbackFailed _ hreply => exact .inr ⟨_, rfl, .inl ⟨_, hreply⟩⟩

/-! ## The invariant -/

theorem truthy?_value {n : Nat} (h : 0 < n) : (Nullish.value n).truthy?.isSome := by
  rw [Nullish.truthy?_eq_some.mpr ⟨rfl, h⟩]
  rfl

/-- There is a height to fall back to, or nothing that could turn out to be on a fork. -/
structure Guarded (s : Live) : Prop where
  finalized : 0 < s.finalized.blockHeight
  guard : s.checked.truthy?.isSome ∨ s.blocks = [] ∧ s.metadata.decoded = []

theorem Live.DeletedFrom.checked (h : s.DeletedFrom o s') :
    o = .fail .crash ∨ s'.checked = .value s.finalized.blockHeight := by
  cases h with
  | unpruned | pruned => exact .inr rfl
  | lost => exact .inl rfl

/-- The call cannot report a fork. -/
def Env.FindsNone (env : Env) (s : Live) (header : Option Header) : Prop :=
  ∀ {o s₁}, env.Finds s header o s₁ → o = .ok none ∨ o = .fail .crash

/-- A call that has a height to fall back to, or cannot report a fork, ends with a height to fall back
to, unless the process is lost. -/
theorem guarded_of_calls {header : Option Header} (hpos : 0 < s.finalized.blockHeight)
    (hguard : s.checked.truthy?.isSome ∨ env.FindsNone s header) (hseq : env.Sequential)
    (hcalls : env.Calls s header o s') (hfatal : fatal o = false) : Guarded s' := by
  refine ⟨hseq.advance hcalls.advance ▸ hpos, .inl ?_⟩
  -- where no height was set, there was one
  have hkept : ∀ {o s₁}, env.Finds s header o s₁ → o ≠ .ok none → o ≠ .fail .crash →
      s₁.checked.truthy?.isSome := by
    intro o s₁ hfinds hne hne'
    rcases hguard with htruthy | hnone
    · rw [hfinds.sameHeights.checked]
      exact htruthy
    · rcases hnone hfinds with h | h
      · exact absurd h hne
      · exact absurd h hne'
  cases hcalls.alone hseq with
  | failed hfinds =>
    refine hkept hfinds (by simp) fun hcrash => ?_
    rw [hcrash] at hfatal
    cases hfatal
  | searched _ hfinds _ => exact hkept hfinds (by simp) (by simp)
  | deleted hfin₁ _ hdeleted =>
    rcases hdeleted.checked with rfl | hchecked
    · cases hfatal
    · rw [hchecked]
      exact truthy?_value (hfin₁ ▸ hpos)

theorem Guarded.finds (h : Guarded s) (hseq : env.Sequential) (header : Option Header) :
    s.checked.truthy?.isSome ∨ env.FindsNone s header :=
  h.guard.imp_right fun hempty {_ _} hfinds => hfinds.of_empty hseq hempty.1

/-- What keeps a height to fall back to: an `init` finds one in the store, or it finds nothing there
that finality has reached; and no finalized height is zero. -/
structure KeepsHeight (env : Env) (w : State) : Prop where
  positive : ∀ {n F}, env.getFinalizedHeader n = .ok F → 0 < F.blockHeight
  height : w.metadata.lastFinalizedVerifiedHeight.truthy?.isSome ∨ w.metadata.decoded = [] ∨
    ∀ n, ∃ F, env.getFinalizedHeader n = .ok F ∧
      ∀ b ∈ w.metadata.decoded, F.blockHeight < b.blockHeight

/-- The check that such an `init` makes has a height to fall back to, or reports no fork. -/
theorem KeepsHeight.finds {w : State} {n : Nat} {F : Header} (h : KeepsHeight env w)
    (hseq : env.Sequential) (hreturned : env.getFinalizedHeader n = .ok F) :
    (Live.loaded w.metadata F).checked.truthy?.isSome ∨
      env.FindsNone (Live.loaded w.metadata F) none := by
  rcases h.height with htruthy | hempty | habove
  · exact .inl htruthy
  · exact .inr fun hfinds => hfinds.of_empty hseq hempty
  · refine .inr fun hfinds => ?_
    obtain ⟨F', hF', hlt⟩ := habove n
    obtain rfl : F = F' := Except.ok.inj (hreturned.symm.trans hF')
    cases hfinds with
    | failed hreg | registered hreg => cases hreg
    | checked _ hreg hchecks =>
      cases hreg
      exact hchecks.of_unreached hlt

def fallback : ServiceInvariant where
  live := Guarded
  store _ := True
  list _ := True
  schedule := Env.Sequential
  call _ _ _ := True
  init := KeepsHeight
  finality _ := True
  store_of_live _ := ⟨⟩
  list_of_live _ := ⟨⟩
  list_of_store _ := ⟨⟩
  list_nil := ⟨⟩
  empty := ⟨⟩
  cleared _ := ⟨⟩
  heightReset _ := ⟨⟩
  advanced h hseq hadv := by
    rw [Live.withFinalized_eq (hseq.advance hadv)]
    exact h
  registered h _ hlt := ⟨Nat.lt_trans h.finalized hlt, h.guard⟩
  done what h := by
    cases what with
    | unfinalizedBlocks => exact ⟨h.finalized, h.guard.imp_right fun _ => ⟨rfl, rfl⟩⟩
    | lastFinalizedVerifiedHeight => exact ⟨h.finalized, h.guard⟩
  processed h hseq _ hcalls :=
    ⟨⟨⟩, guarded_of_calls h.finalized (h.finds hseq _) hseq hcalls⟩
  loaded _ _ hinit hreturned hempty := ⟨hinit.positive hreturned, .inr ⟨hempty, hempty⟩⟩
  validated _ hseq hinit hreturned hcalls :=
    ⟨⟨⟩, guarded_of_calls (hinit.positive hreturned) (hinit.finds hseq hreturned) hseq hcalls⟩
  reloaded {env s n message} h _ hinit hanswer := by
    refine ⟨h.finalized, ?_⟩
    rcases hinit.height with htruthy | hempty | habove
    · exact .inl htruthy
    · exact .inr ⟨hempty, hempty⟩
    · obtain ⟨F, hF, -⟩ := habove n
      rw [hanswer] at hF
      cases hF

/-! ## Runs -/

/-- Calls one at a time, and `init` only where it keeps a height. -/
def FallbackKept : Op → State → Prop
  | .init env _, w => env.Sequential ∧ KeepsHeight env w
  | .process env _, _ => env.Sequential
  | .reset env _, _ => env.Sequential
  | _, _ => True

end SubqlSolana
