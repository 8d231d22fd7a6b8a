import SubqlSolana.Unfinalized.Invariant

/-!
# What is verified stays verified

`deleteFinalizedBlock` drops the tracked blocks that finality has passed, and stores the height up to
which it did: `lastFinalizedVerifiedHeight`. Nobody rewinds below that height as long as nothing at or
below it is tracked again, and the height to fall back to does not drop below it. Both are kept by every
operation, whatever the RPC answers and whenever finality moves, as long as no process is lost *inside* a
call (the height is written before the list is) and no `init` is told a finalized height that is below
the stored one.

**So a rewind never goes below the stored height, and the height only goes up**
(`verified_is_kept`).
-/

set_option autoImplicit false

namespace SubqlSolana

open Lib

variable {env : Env} {s s' : Live} {o : Outcome Failure (Option Header)} {n : Nat}

/-! ## Above a height -/

/-- Nothing is tracked up to this height, and nothing falls back below it. -/
structure Live.Above (n : Nat) (s : Live) : Prop where
  memory : ∀ b ∈ s.blocks, n < b.blockHeight
  store : ∀ b ∈ s.metadata.decoded, n < b.blockHeight
  checked : ∃ c, s.checked = .value c ∧ n ≤ c

theorem Live.Above.withFinalized (h : s.Above n) (F : Header) : (s.withFinalized F).Above n :=
  ⟨h.memory, h.store, h.checked⟩

/-- Headers keep their heights in the store. -/
theorem Live.above_saved (h : ∀ b ∈ s.blocks, n < b.blockHeight) :
    ∀ b ∈ s.saved.metadata.decoded, n < b.blockHeight := by
  intro b hb
  simp only [Live.saved_metadata, Metadata.decoded, Option.getD_some, List.map_map] at hb
  obtain ⟨b, hmem, rfl⟩ := List.mem_map.mp hb
  exact h b hmem

/-! ## A call -/

/-- What a backfill adds was asked for by its slot. -/
theorem Env.Backfills.above {remaining height : Nat} {l l' : List Header}
    (h : env.Backfills remaining height l o l') (hl : ∀ b ∈ l, n < b.blockHeight) (hn : n < height) :
    ∀ b ∈ l', n < b.blockHeight := by
  induction h with
  | done | forked | failed => exact hl
  | skipped _ _ ih => exact ih hl (Nat.lt_succ_of_lt hn)
  | pushed hreply _ _ ih =>
    refine ih (fun b hb => ?_) (Nat.lt_succ_of_lt hn)
    rcases List.mem_append.mp hb with hb | hb
    · exact hl b hb
    · rw [List.mem_singleton.mp hb, hreply.blockHeight]
      exact hn

/-- A gap begins above a tracked block. -/
theorem Env.Fills.above {l l' : List Header} {header : Header} (h : env.Fills l header o l')
    (hl : ∀ b ∈ l, n < b.blockHeight) : ∀ b ∈ l', n < b.blockHeight := by
  cases h with
  | untracked => exact hl
  | gap hlast _ hfill | lost hlast _ hfill =>
    exact hfill.above hl (Nat.lt_succ_of_lt (hl _ (List.mem_of_getLast? hlast)))

theorem Env.Registers.above {header : Header} (h : env.Registers s header o s') (hs : s.Above n)
    (hfin : n ≤ s.finalized.blockHeight) : s'.Above n := by
  cases h with
  | ignored | notSequential => exact hs
  | gapFailed _ hfill | gapForked _ hfill => exact ⟨hfill.above hs.memory, hs.store, hs.checked⟩
  | forked _ hfill => exact ⟨hfill.above hs.memory, hs.store, hs.checked⟩
  | @appended _ l F habove hfill _ _ =>
    have hmemory : ∀ b ∈ l ++ [header], n < b.blockHeight := by
      intro b hb
      rcases List.mem_append.mp hb with hb | hb
      · exact hfill.above hs.memory b hb
      · rw [List.mem_singleton.mp hb]
        exact Nat.lt_of_le_of_lt hfin habove
    exact ⟨hmemory, Live.above_saved (s := s.withBlocks (l ++ [header])) hmemory, hs.checked⟩

theorem Env.RegistersHeader.above {header : Option Header} (h : env.RegistersHeader s header o s')
    (hs : s.Above n) (hfin : n ≤ s.finalized.blockHeight) : s'.Above n := by
  rcases h with _ | ⟨hreg, -⟩ | hreg | ⟨hreg, -⟩
  · exact hs
  · exact (hreg.above hs hfin).withFinalized _
  · exact hreg.above hs hfin
  · exact hreg.above hs hfin

theorem Env.Finds.above {header : Option Header} (h : env.Finds s header o s') (hs : s.Above n)
    (hfin : n ≤ s.finalized.blockHeight) : s'.Above n := by
  cases h with
  | failed hreg | registered hreg => exact hreg.above hs hfin
  | checked _ hreg => exact (hreg.above hs hfin).withFinalized _

/-- A search stays above: it names a tracked block, or it asks for the height to fall back to. -/
theorem Env.Searches.above {checked : Nullish Nat} {blocks : List Header} {forked R : Header}
    (h : env.Searches checked blocks forked (.ok (some R))) (hblocks : ∀ b ∈ blocks, n < b.blockHeight)
    (hchecked : ∃ c, checked = .value c ∧ n ≤ c) : n ≤ R.blockHeight := by
  rcases h.source with ⟨hR, -⟩ | ⟨height, rfl, hreply⟩
  · exact Nat.le_of_lt (hblocks R hR)
  · obtain ⟨c, hc, hle⟩ := hchecked
    cases hc
    rw [hreply.blockHeight]
    exact hle

/-! ## The invariant -/

/-- The stored height, if there is one, is `least` or more, and so is the finalized height; and
everything is above the stored height. -/
structure Ratcheted (least : Nat) (s : Live) : Prop where
  finalized : least ≤ s.finalized.blockHeight
  stored : ∀ v, s.metadata.lastFinalizedVerifiedHeight = .value v →
    least ≤ v ∧ v ≤ s.finalized.blockHeight ∧ s.Above v

/-- What is left of it in the store. -/
def Metadata.Ratcheted (least : Nat) (m : Metadata) : Prop :=
  ∀ v, m.lastFinalizedVerifiedHeight = .value v → least ≤ v ∧ ∀ b ∈ m.decoded, v < b.blockHeight

namespace Ratcheted

variable {least : Nat}

theorem store (h : Ratcheted least s) : s.metadata.Ratcheted least :=
  fun v hv => ⟨(h.stored v hv).1, (h.stored v hv).2.2.store⟩

theorem withFinalized (h : Ratcheted least s) {F : Header}
    (hle : s.finalized.blockHeight ≤ F.blockHeight) : Ratcheted least (s.withFinalized F) where
  finalized := Nat.le_trans h.finalized hle
  stored v hv := by
    obtain ⟨hleast, hfin, habove⟩ := h.stored v hv
    exact ⟨hleast, Nat.le_trans hfin hle, habove.withFinalized F⟩

/-- A state that a call reaches before it deletes anything. -/
theorem finds (h : Ratcheted least s) {header : Option Header} (hfinds : env.Finds s header o s')
    (hadv : env.Advance s.finalized s'.finalized) : Ratcheted least s' where
  finalized := Nat.le_trans h.finalized hadv.le
  stored v hv := by
    rw [hfinds.sameHeights.stored] at hv
    obtain ⟨hleast, hfin, habove⟩ := h.stored v hv
    exact ⟨hleast, Nat.le_trans hfin hadv.le, hfinds.above habove hfin⟩

/-- Pruning stores the finalized height, after everything up to it has been dropped. -/
theorem deletes (h : Ratcheted least s) {o : Outcome Failure Unit} (hdeletes : env.Deletes s o s')
    (halive : ∀ n, env.crash n = false) : Ratcheted least s' := by
  cases hdeletes with
  | unpruned =>
    refine ⟨h.finalized, fun v hv => ?_⟩
    obtain ⟨hleast, hfin, habove⟩ := h.stored v hv
    exact ⟨hleast, hfin, habove.memory, habove.store, _, rfl, hfin⟩
  | @pruned F _ hadv =>
    refine ⟨Nat.le_trans h.finalized hadv.le, fun v hv => ?_⟩
    obtain rfl : s.finalized.blockHeight = v := by
      have hstored : Nullish.value s.finalized.blockHeight = .value v := hv
      simpa using hstored
    have hmemory : ∀ b ∈ s.pruned.blocks, s.finalized.blockHeight < b.blockHeight := fun b hb => by
      simpa using (List.mem_filter.mp hb).2
    exact ⟨h.finalized, hadv.le, hmemory, Live.above_saved hmemory, _, rfl, hadv.le⟩
  | lostBeforeBlocks _ hcrash | lostAfterBlocks _ hcrash =>
    rw [halive] at hcrash
    cases hcrash

theorem calls (h : Ratcheted least s) {header : Option Header} (hcalls : env.Calls s header o s')
    (halive : ∀ n, env.crash n = false) : Ratcheted least s' := by
  have hdeleted : ∀ {s₁ : Live} {o : Outcome Failure Unit} {s'' : Live}, Ratcheted least s₁ →
      Awaited env (env.Deletes s₁) o s'' → Ratcheted least s'' := by
    intro s₁ o s'' h₁ hawaited
    cases hawaited with
    | resumed hdeletes hadv => exact (h₁.deletes hdeletes halive).withFinalized hadv.le
    | failed hdeletes | lost hdeletes => exact h₁.deletes hdeletes halive
  have hadv := hcalls.advance
  cases hcalls.processes with
  | failed hfinds => exact h.finds hfinds hadv
  | @searched forked s₁ _ F hadv₁ hfinds _ =>
    have h₁ := h.finds hfinds hadv₁
    refine ⟨Nat.le_trans h.finalized hadv.le, fun v hv => ?_⟩
    obtain ⟨hleast, -, habove⟩ := h₁.stored v hv
    rw [Live.withFinalized_metadata, hfinds.sameHeights.stored] at hv
    exact ⟨hleast, Nat.le_trans (h.stored v hv).2.1 hadv.le, habove.withFinalized F⟩
  | pruned hadv₁ hfinds hawaited | pruneFailed hadv₁ hfinds hawaited =>
    exact hdeleted (h.finds hfinds hadv₁) hawaited

end Ratcheted

/-- No process is lost inside a call, and an `init` is told a finalized height that is neither below
`least` nor below the stored one. -/
def KeepsVerified (least : Nat) : Op → State → Prop
  | .init env _, w => (∀ n, env.crash n = false) ∧ ∀ n F, env.getFinalizedHeader n = .ok F →
      least ≤ F.blockHeight ∧ ∀ v, w.metadata.lastFinalizedVerifiedHeight = .value v → v ≤ F.blockHeight
  | .process env _, _ => ∀ n, env.crash n = false
  | .reset env _, _ => ∀ n, env.crash n = false
  | _, _ => True

/-- What `init` loads. -/
theorem Ratcheted.loaded {least : Nat} {m : Metadata} {F : Header} (h : m.Ratcheted least)
    (hleast : least ≤ F.blockHeight)
    (hF : ∀ v, m.lastFinalizedVerifiedHeight = .value v → v ≤ F.blockHeight) :
    Ratcheted least (Live.loaded m F) where
  finalized := hleast
  stored v hv := by
    obtain ⟨hv', hblocks⟩ := h v hv
    exact ⟨hv', hF v hv, hblocks, hblocks, v, hv, Nat.le_refl v⟩

def ratchet (least : Nat) : ServiceInvariant where
  live := Ratcheted least
  store := Metadata.Ratcheted least
  list _ := True
  schedule env := ∀ n, env.crash n = false
  call _ _ _ := True
  init env w := ∀ n F, env.getFinalizedHeader n = .ok F →
    least ≤ F.blockHeight ∧ ∀ v, w.metadata.lastFinalizedVerifiedHeight = .value v → v ≤ F.blockHeight
  finality _ := True
  store_of_live := Ratcheted.store
  list_of_live _ := ⟨⟩
  list_of_store _ := ⟨⟩
  list_nil := ⟨⟩
  empty v hv := by cases hv
  cleared h v hv := ⟨(h v hv).1, fun b hb => by cases hb⟩
  heightReset _ v hv := by cases hv
  advanced h _ hadv := h.withFinalized hadv.le
  registered h _ hlt := h.withFinalized (Nat.le_of_lt hlt)
  done what h := by
    refine ⟨by cases what <;> exact h.finalized, fun v hv => ?_⟩
    cases what with
    | unfinalizedBlocks =>
      obtain ⟨hleast, hfin, habove⟩ := h.stored v hv
      have hnone : ∀ b ∈ ([] : List Header), v < b.blockHeight := by simp
      exact ⟨hleast, hfin, hnone, hnone, habove.checked⟩
    | lastFinalizedVerifiedHeight => cases hv
  processed h halive _ hcalls := ⟨(h.calls hcalls halive).store, fun _ => h.calls hcalls halive⟩
  loaded h _ hinit hreturned _ := .loaded h (hinit _ _ hreturned).1 (hinit _ _ hreturned).2
  validated h halive hinit hreturned hcalls := by
    have hs' := (Ratcheted.loaded h (hinit _ _ hreturned).1 (hinit _ _ hreturned).2).calls hcalls halive
    exact ⟨hs'.store, fun _ => hs'⟩
  reloaded h _ _ _ := .loaded h.store h.finalized fun v hv => (h.stored v hv).2.1

theorem ratchet_may {least : Nat} {op : Op} {w : State} (h : KeepsVerified least op w) :
    (ratchet least).may op w := by
  cases op with
  | init => exact h
  | process => exact ⟨h, fun _ _ => ⟨⟩⟩
  | reset => exact h
  | registerFinalizedBlock | crash => exact ⟨⟩

/-- From a state with a stored height, that height is the least one. -/
theorem ratchet_holds {least v : Nat} {w : State} (h : (ratchet least).Holds w)
    (hv : w.metadata.lastFinalizedVerifiedHeight = .value v) : (ratchet v).Holds w where
  valid := h.valid
  store u hu := by
    rw [hv] at hu
    cases hu
    exact ⟨Nat.le_refl v, (h.store v hv).2⟩
  list _ _ := ⟨⟩
  live s hs := by
    subst hs
    obtain ⟨-, hfin, habove⟩ := (h.live s rfl).stored v hv
    refine ⟨hfin, fun u hu => ?_⟩
    have huv : s.metadata.lastFinalizedVerifiedHeight = .value v := hv
    rw [huv] at hu
    cases hu
    exact ⟨Nat.le_refl v, hfin, habove⟩

/-! ## Runs -/

/-- Nothing at or below a height is tracked, and no call names a rewind target below it. -/
def NeverRewoundBelow (v : Nat) (w : State) : Prop :=
  ∀ s : Live, w = s.node → (∀ b ∈ s.blocks, v < b.blockHeight) ∧
    ∀ env header R, (processUnfinalizedBlockHeader header env 0 s.node).1 = .ok (some R) →
      v ≤ R.blockHeight

theorem NeverRewoundBelow.of_above {v : Nat} (h : s.Above v) (hfin : v ≤ s.finalized.blockHeight) :
    NeverRewoundBelow v s.node := by
  rintro s' hs'
  obtain rfl := Live.node_inj hs'
  refine ⟨h.memory, fun env header R hR => ?_⟩
  rcases hrun : processUnfinalizedBlockHeader header env 0 s.node with ⟨o, n, w⟩
  rw [hrun] at hR
  obtain rfl : o = .ok (some R) := hR
  obtain ⟨s', -, -, hcalls⟩ := (processUnfinalizedBlockHeader_runs env header s).elim hrun
  cases hcalls.processes with
  | @searched forked s₁ _ F _ hfinds hsearch =>
    have h₁ := hfinds.above h hfin
    refine hsearch.above (fun b hb => h₁.memory b ?_) h₁.checked
    exact List.mem_of_mem_filter (List.mem_reverse.mp hb)

/-- **What is verified stays verified**: in a reachable state with a stored height, nothing is rewound
below that height, and in every later state with a stored height that one is no lower. -/
theorem verified_is_kept {ops : List Op}
    (hops : Permitted Op.next (KeepsVerified 0) ops (State.started State.emptyStore)) {v : Nat}
    (hv : (runAll Op.next ops (State.started State.emptyStore)).metadata.lastFinalizedVerifiedHeight =
      .value v) :
    let w := runAll Op.next ops (State.started State.emptyStore)
    NeverRewoundBelow v w ∧
      ∀ later, Permitted Op.next (KeepsVerified v) later w → ∀ v',
        (runAll Op.next later w).metadata.lastFinalizedVerifiedHeight = .value v' →
        v ≤ v' ∧ NeverRewoundBelow v' (runAll Op.next later w) := by
  intro w
  have hw : (ratchet 0).Holds w := (ratchet 0).reached (hops.mono fun _ _ => ratchet_may)
  have hnever : ∀ {least u : Nat} {w : State}, (ratchet least).Holds w →
      w.metadata.lastFinalizedVerifiedHeight = .value u → NeverRewoundBelow u w := by
    rintro least u w hw hu s rfl
    obtain ⟨-, hfin, habove⟩ := (hw.live s rfl).stored u hu
    exact NeverRewoundBelow.of_above habove hfin s rfl
  refine ⟨hnever hw hv, fun later hlater v' hv' => ?_⟩
  have hlater' : (ratchet v).Holds (runAll Op.next later w) :=
    (hlater.mono fun _ _ => ratchet_may).invariant (fun _ _ => ServiceInvariant.Holds.next)
      (ratchet_holds hw hv)
  exact ⟨(hlater'.store v' hv').1, hnever hlater' hv'⟩

namespace ForkAt103

/-- Slot 102 is skipped. Block `d` of slot 103 is tracked when finality reaches slot 104 on a chain that
has block `x` in slot 103. -/
def a : Header := .untimed 100 "a" "z"
def b : Header := .untimed 101 "b" "a"
def d : Header := .untimed 103 "d" "b"
def f : Header := .untimed 104 "f" "x"

def schedule (finalized : Header) : Env :=
  .steady finalized fun
    | 101 => .block ⟨91, 0, "b", 100, "a"⟩
    | 103 => .block ⟨92, 0, "x", 101, "b"⟩
    | _ => .slotSkipped

/-- `b` becomes final while it is tracked. -/
def verifies : List Op :=
  [.init (schedule a) [], .process (schedule a) (some b), .registerFinalizedBlock b,
    .process (schedule b) (some d)]

/-- What is left of it when `f` is final. -/
def tracked : Live := ⟨[d], f, .value 101, ⟨some [d.toJSON], .value 101⟩⟩

def back : Header := solanaBlockToHeader ⟨91, 0, "b", 100, "a"⟩ (some 101)

/-- The search finds nothing that matches, and goes back to the verified height. -/
theorem verified_is_kept_at101 :
    (processUnfinalizedBlockHeader none (schedule f) 0 tracked.node).1 = .ok (some back) ∧
      101 ≤ back.blockHeight := by
  have hops : Permitted Op.next (KeepsVerified 0) verifies (State.started State.emptyStore) := by
    refine .cons ⟨fun _ => rfl, fun n F hF => ⟨Nat.zero_le _, fun v hv => by cases hv⟩⟩ ?_
    exact .cons (fun _ => rfl) (.cons ⟨⟩ (.cons (fun _ => rfl) .nil))
  have hlater : Permitted Op.next (KeepsVerified 101) [.registerFinalizedBlock f]
      (runAll Op.next verifies (State.started State.emptyStore)) := .cons ⟨⟩ .nil
  have hrewound := ((verified_is_kept hops rfl).2 _ hlater 101 rfl).2 tracked rfl
  exact ⟨rfl, hrewound.2 (schedule f) none back rfl⟩

end ForkAt103

end SubqlSolana
