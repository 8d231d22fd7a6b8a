import SubqlSolana.Unfinalized.Pruning
import SubqlSolana.Unfinalized.Sequential

/-!
# Rewind targets

A rewind target is a block of the canonical chain at or below the finalized height, and so is every
block that is tracked at or below *it* (`rewind_target_is_safe`): rewinding drops every forked block.

When the backward search has met a tracked block, that is the branch argument of
`Unfinalized.Rooted` again. When it falls back to `lastCheckedBlockHeight`, it rests on an invariant:
everything tracked at or below that height has been verified (`Verified`), by the process at hand or,
through the store, by one before it.
-/

set_option autoImplicit false

namespace SubqlSolana

open Lib

variable {T : BlockTree String} {C : SlotChain Header} {env : Env} {s s' : Live}
  {header : Option Header} {o : Outcome Failure (Option Header)}

/-! ## The invariant -/

/-- A verified height: it is the slot of a block of the chain, finality has reached it, and every block of
`l` up to it is on the chain. -/
def VerifiedTo (C : SlotChain Header) (finalized : Header) (l : List Header) (height : Nullish Nat) :
    Prop :=
  ∀ n, height = .value n →
    (C.produced n).isSome ∧ n ≤ finalized.blockHeight ∧ ∀ b ∈ l, b.blockHeight ≤ n → C.Has b

/-- What is in the store is in memory too, if it is not known to be on the chain. -/
def Covered (C : SlotChain Header) (stored l : List Header) : Prop :=
  ∀ b ∈ stored, C.Has b ∨ ∃ b' ∈ l, b'.blockHeight = b.blockHeight ∧ b'.blockHash = b.blockHash

/-- What the store says has been verified. -/
def Metadata.Verified (C : SlotChain Header) (metadata : Metadata) : Prop :=
  ∀ n, metadata.lastFinalizedVerifiedHeight = .value n →
    (C.produced n).isSome ∧ ∀ b ∈ metadata.decoded, b.blockHeight ≤ n → C.Has b

/-- Both verified heights of a running service, and the store behind it. -/
structure Verified (C : SlotChain Header) (s : Live) : Prop where
  checked : VerifiedTo C s.finalized s.blocks s.checked
  stored : VerifiedTo C s.finalized s.blocks s.metadata.lastFinalizedVerifiedHeight
  covered : Covered C s.metadata.decoded s.blocks

theorem Lib.SlotChain.Has.of_hash {b b' : Header} (h : C.Has b') (hash : b'.blockHash = b.blockHash) :
    C.Has b := by
  obtain ⟨s, c, hc, hcb⟩ := h
  exact ⟨s, c, hc, hcb.trans hash⟩

/-- A stored block is on the chain if every tracked one up to its height is. -/
theorem Covered.has {stored l : List Header} {n : Nat} (h : Covered C stored l)
    (hl : ∀ b ∈ l, b.blockHeight ≤ n → C.Has b) {b : Header} (hb : b ∈ stored)
    (hle : b.blockHeight ≤ n) : C.Has b := by
  rcases h b hb with hhas | ⟨b', hb', hheight, hash⟩
  · exact hhas
  · exact (hl b' hb' (by omega)).of_hash hash

theorem Covered.mono {stored l l' : List Header} (h : Covered C stored l) (hsub : l ⊆ l') :
    Covered C stored l' :=
  fun b hb => (h b hb).imp_right fun ⟨b', hb', hsame⟩ => ⟨b', hsub hb', hsame⟩

/-- A list that was just written to the store. -/
theorem Covered.saved (s : Live) : Covered C s.saved.metadata.decoded s.blocks := by
  intro b hb
  simp only [Live.saved_metadata, Metadata.decoded, Option.getD_some, List.map_map] at hb
  obtain ⟨b', hb', rfl⟩ := List.mem_map.mp hb
  exact .inr ⟨b', hb', rfl, rfl⟩

theorem Verified.store (h : Verified C s) : s.metadata.Verified C :=
  fun n hn => ⟨(h.stored n hn).1, fun _ hb hle => h.covered.has (h.stored n hn).2.2 hb hle⟩

theorem VerifiedTo.registered {F F' : Header} {l : List Header} {height : Nullish Nat}
    (h : VerifiedTo C F l height) (hle : F.blockHeight ≤ F'.blockHeight) : VerifiedTo C F' l height :=
  fun n hn => ⟨(h n hn).1, Nat.le_trans (h n hn).2.1 hle, (h n hn).2.2⟩

/-- Verified heights survive headers that are on the chain, or above the finalized height. -/
theorem VerifiedTo.extended {F : Header} {l l' : List Header} {height : Nullish Nat}
    (h : VerifiedTo C F l height)
    (hl' : ∀ b ∈ l', b ∈ l ∨ (b.blockHeight ≤ F.blockHeight → C.Has b)) :
    VerifiedTo C F l' height := by
  intro n hn
  obtain ⟨hslot, hle, hl⟩ := h n hn
  refine ⟨hslot, hle, fun b hb hbn => ?_⟩
  rcases hl' b hb with hb | hhas
  · exact hl b hb hbn
  · exact hhas (by omega)

theorem Env.Registers.covered {header : Header} (h : env.Registers s header o s')
    (hs : Covered C s.metadata.decoded s.blocks) : Covered C s'.metadata.decoded s'.blocks := by
  cases h with
  | ignored | notSequential => exact hs
  | gapFailed _ hfill | gapForked _ hfill | forked _ hfill => exact hs.mono hfill.isPrefix.subset
  | appended => exact Covered.saved _

theorem Env.RegistersHeader.covered (h : env.RegistersHeader s header o s')
    (hs : Covered C s.metadata.decoded s.blocks) : Covered C s'.metadata.decoded s'.blocks := by
  rcases h with _ | ⟨h, -⟩ | h | ⟨h, -⟩
  · exact hs
  · exact h.covered hs
  · exact h.covered hs
  · exact h.covered hs

theorem Env.Finds.covered (h : env.Finds s header o s')
    (hs : Covered C s.metadata.decoded s.blocks) : Covered C s'.metadata.decoded s'.blocks := by
  cases h with
  | failed h | registered h => exact h.covered hs
  | checked _ h => exact h.covered hs

/-- Up to the question whether a fork was found, a call keeps what was verified. -/
theorem Verified.finds (h : Verified C s) (hhonest : env.HonestTo C s.finalized.blockHeight)
    (hfin : s'.finalized = s.finalized) (hfinds : env.Finds s header o s') : Verified C s' := by
  have hadded : ∀ b ∈ s'.blocks, b ∈ s.blocks ∨ (b.blockHeight ≤ s.finalized.blockHeight → C.Has b) := by
    intro b hb
    rcases hfinds.source.1 b hb with hb | hanswers | ⟨-, hlt⟩
    · exact .inl hb
    · exact .inr fun hle => hhonest.answers hle hanswers
    · exact .inr fun hle => absurd hle (by omega)
  refine ⟨?_, ?_, hfinds.covered h.covered⟩
  · rw [hfin, hfinds.sameHeights.checked]
    exact h.checked.extended hadded
  · rw [hfin, hfinds.sameHeights.stored]
    exact h.stored.extended hadded

/-- Pruning after a check that found no fork. -/
theorem Verified.deletedFrom (h : Verified C s) (hslot : (C.produced s.finalized.blockHeight).isSome)
    (hverified : ∀ b ∈ s.blocks, b.blockHeight ≤ s.finalized.blockHeight → C.Has b)
    (hdeleted : s.DeletedFrom o s') :
    s'.metadata.Verified C ∧ (fatal o = false → Verified C s') := by
  have hto : VerifiedTo C s.finalized s.blocks (.value s.finalized.blockHeight) := by
    rintro n ⟨⟩
    exact ⟨hslot, Nat.le_refl _, hverified⟩
  have hpruned : VerifiedTo C s.finalized s.pruned.blocks (.value s.finalized.blockHeight) :=
    hto.extended fun b hb => .inl (List.mem_of_mem_filter hb)
  cases hdeleted with
  | unpruned => exact ⟨h.store, fun _ => ⟨hto, h.stored, h.covered⟩⟩
  | pruned =>
    have hs' : Verified C (s.pruned.saved.withChecked (.value s.finalized.blockHeight)) :=
      ⟨hpruned, hpruned, Covered.saved _⟩
    exact ⟨hs'.store, fun _ => hs'⟩
  | lost hmetadata =>
    refine ⟨?_, fun hfatal => by cases hfatal⟩
    rcases hmetadata with hm | hm | hm <;> rw [hm]
    · exact h.store
    · -- the height is in the store, and the list there is the old one
      rintro n ⟨⟩
      exact ⟨hslot, fun b hb hle => h.covered.has hverified hb hle⟩
    · have hs' : Verified C s.pruned.saved := ⟨h.checked.extended fun b hb => .inl
        (List.mem_of_mem_filter hb), hpruned, Covered.saved _⟩
      exact hs'.store

/-! ## Runs -/

/-- A call that is one of many on one finalized chain. -/
theorem Verified.calls (hC : T.Contains C) (h : Verified C s) (hkeeps : (rooted hC).Keeps s)
    (hF : OnChain T C s.finalized) (hseq : env.Sequential) (hin : env.InTree T C)
    (hheader : ∀ h ∈ header, T.Mem h) (hhonest : env.HonestTo C s.finalized.blockHeight)
    (hcalls : env.Calls s header o s') :
    s'.metadata.Verified C ∧ (fatal o = false → Verified C s') := by
  have hfin := hseq.advance hcalls.advance
  cases hcalls.alone hseq with
  | failed hfinds =>
    have hs' := h.finds hhonest hfin hfinds
    exact ⟨hs'.store, fun _ => hs'⟩
  | searched _ hfinds _ =>
    have hs' := h.finds hhonest hfin hfinds
    exact ⟨hs'.store, fun _ => hs'⟩
  | @deleted s₁ _ _ hfin₁ hfinds hdeleted =>
    have hslot := hF.produced hC
    refine (h.finds hhonest hfin₁ hfinds).deletedFrom (hfin₁ ▸ hslot) (fun b hb hle => ?_) hdeleted
    obtain ⟨hreg, hchecks⟩ := hfinds.checks_of_none hseq hfin₁
    have hkeeps₁ := hkeeps.registersHeader (rooted_admits hC hin) hF hheader hreg
    exact verified_of_checks hC hkeeps₁.memory hF.has hhonest hchecks hb (hfin₁ ▸ hle)

/-- A finalized header that is not below what has been verified before. -/
def NotReverted (metadata : Metadata) (finalized : Header) : Prop :=
  ∀ height, metadata.lastFinalizedVerifiedHeight = .value height → height ≤ finalized.blockHeight

theorem Verified.loaded {metadata : Metadata} {F : Header} (h : metadata.Verified C)
    (hle : NotReverted metadata F) : Verified C (Live.loaded metadata F) where
  checked n hn := ⟨(h n hn).1, hle n hn, (h n hn).2⟩
  stored n hn := ⟨(h n hn).1, hle n hn, (h n hn).2⟩
  covered b hb := .inr ⟨b, hb, rfl, rfl⟩

def verified (hC : T.Contains C) : ServiceInvariant where
  live s := ((rooted hC).Keeps s ∧ OnChain T C s.finalized) ∧ Verified C s
  store m := Rooted T C m.decoded ∧ m.Verified C
  list := Rooted T C
  schedule env := env.Sequential ∧ env.InTree T C
  call env header s := (∀ h ∈ header, T.Mem h) ∧ env.HonestTo C s.finalized.blockHeight
  init env w := ∀ {n F}, env.getFinalizedHeader n = .ok F →
    env.HonestTo C F.blockHeight ∧ NotReverted w.metadata F
  finality := OnChain T C
  store_of_live h := ⟨h.1.1.store, h.2.store⟩
  list_of_live h := h.1.1.memory
  list_of_store h := h.1
  list_nil := (rooted hC).nil
  empty := ⟨(rooted hC).nil, fun _ hn => by cases hn⟩
  cleared h := ⟨(rooted hC).nil, fun n hn => ⟨(h.2 n hn).1, fun _ hb => by cases hb⟩⟩
  heightReset h := ⟨h.1, fun _ hn => by cases hn⟩
  advanced h henv hadv := by
    rw [Live.withFinalized_eq (henv.1.advance hadv)]
    exact h
  registered h hF hlt :=
    ⟨⟨h.1.1.withFinalized _, hF⟩, h.2.checked.registered (Nat.le_of_lt hlt),
      h.2.stored.registered (Nat.le_of_lt hlt), h.2.covered⟩
  done {s} what h := by
    refine ⟨(rooted hC).service.done what h.1, ?_⟩
    cases what with
    | unfinalizedBlocks =>
      have hnone : ∀ b ∈ ([] : List Header),
          b ∈ s.blocks ∨ (b.blockHeight ≤ s.finalized.blockHeight → C.Has b) := by simp
      exact ⟨h.2.checked.extended hnone, h.2.stored.extended hnone, fun _ hb => by cases hb⟩
    | lastFinalizedVerifiedHeight => exact ⟨h.2.checked, fun _ hn => (by cases hn), h.2.covered⟩
  processed h henv hcall hcalls := by
    have hrooted := (rooted hC).service.processed h.1 (rooted_admits hC henv.2) hcall.1 hcalls
    have hverified := h.2.calls hC h.1.1 h.1.2 henv.1 henv.2 hcall.1 hcall.2 hcalls
    exact ⟨⟨hrooted.1, hverified.1⟩, fun hfatal => ⟨hrooted.2 hfatal, hverified.2 hfatal⟩⟩
  loaded h henv hinit hreturned _ :=
    ⟨⟨.loaded h.1 _, henv.2.returned hreturned⟩, .loaded h.2 (hinit hreturned).2⟩
  validated h henv hinit hreturned hcalls := by
    obtain ⟨hhonest, hle⟩ := hinit hreturned
    have hrooted := (rooted hC).service.validated h.1 (rooted_admits hC henv.2) ⟨⟩ hreturned hcalls
    have hverified := (Verified.loaded h.2 hle).calls hC (.loaded h.1 _) (henv.2.returned hreturned)
      henv.1 henv.2 (by simp) hhonest hcalls
    exact ⟨⟨hrooted.1, hverified.1⟩, fun hfatal => ⟨hrooted.2 hfatal, hverified.2 hfatal⟩⟩
  reloaded h _ _ _ :=
    ⟨⟨.loaded h.1.1.store _, h.1.2⟩, .loaded h.2.store fun n hn => (h.2.stored n hn).2.1⟩

/-- Calls one at a time, on a finalized chain `C` that never reverts: every finalized header is on it,
`init` is told none that is below what has been verified, and up to the finalized height the RPC
answers with the blocks of `C`. -/
def OneFinalizedChain (T : BlockTree String) (C : SlotChain Header) : Op → State → Prop
  | .init env _, w => env.Sequential ∧ env.InTree T C ∧ ∀ {n F}, env.getFinalizedHeader n = .ok F →
      env.HonestTo C F.blockHeight ∧ NotReverted w.metadata F
  | .process env header, w => env.Sequential ∧ env.InTree T C ∧ (∀ h ∈ header, T.Mem h) ∧
      ∀ s : Live, w = s.node → env.HonestTo C s.finalized.blockHeight
  | .registerFinalizedBlock header, _ => OnChain T C header
  | .reset env _, _ => env.Sequential ∧ env.InTree T C
  | .crash, _ => True

theorem verified_may (hC : T.Contains C) {op : Op} {w : State} (h : OneFinalizedChain T C op w) :
    (verified hC).may op w := by
  cases op with
  | init => exact ⟨⟨h.1, h.2.1⟩, h.2.2⟩
  | process => exact ⟨⟨h.1, h.2.1⟩, fun s hs => ⟨h.2.2.1, h.2.2.2 s hs⟩⟩
  | registerFinalizedBlock | reset | crash => exact h

/-- The services that a call may meet in `w`: the one that is running, or the one that `init` loads and
checks. -/
def MeetsVerified (T : BlockTree String) (C : SlotChain Header) (w : State) (s : Live) : Prop :=
  w = s.node ∨ ∃ F, OnChain T C F ∧ NotReverted w.metadata F ∧ s = Live.loaded w.metadata F

theorem MeetsVerified.live (hC : T.Contains C) {ops : List Op}
    (hops : Permitted Op.next (OneFinalizedChain T C) ops (State.started State.emptyStore))
    (hs : MeetsVerified T C (runAll Op.next ops (State.started State.emptyStore)) s) :
    (verified hC).live s := by
  have hw := (verified hC).reached (hops.mono fun _ _ => verified_may hC)
  rcases hs with hs | ⟨F, hF, hle, rfl⟩
  · exact hw.live s hs
  · exact ⟨⟨.loaded hw.store.1 F, hF⟩, .loaded hw.store.2 hle⟩

/-! ## The target -/

/-- The canonical chain at a call: it passes through the finalized header, and goes back as far as the
finalized chain `C₀` does. -/
structure Extends (T : BlockTree String) (C₀ C : SlotChain Header) (finalized : Header) : Prop where
  contains : T.Contains C
  has : C.Has finalized
  starts : ∀ {n : Nat}, C₀.StartsBelow n → C.StartsBelow n

/-- What rewinding to `R` relies on. -/
structure SafeTarget (C : SlotChain Header) (finalized : Header) (tracked : List Header) (R : Header) :
    Prop where
  has : C.Has R
  le : R.blockHeight ≤ finalized.blockHeight
  /-- What the rewind keeps. -/
  below : ∀ b ∈ tracked, b.blockHeight ≤ R.blockHeight → C.Has b

variable {C₀ : SlotChain Header}

theorem Rooted.extends {F : Header} {l : List Header} (h : Rooted T C₀ l) (hC : Extends T C₀ C F) :
    Rooted T C l :=
  ⟨h.linked, h.mem, fun b hb => hC.starts (h.floor b hb)⟩

/-- A tracked block that has been verified is on the canonical chain, too. -/
theorem Extends.has_of_verified {F b : Header} {l : List Header} (h : Extends T C₀ C F)
    (hC₀ : T.Contains C₀) (hF : OnChain T C₀ F) (hl : Rooted T C₀ l) (hb : b ∈ l) (hhas : C₀.Has b)
    (hle : b.blockHeight ≤ F.blockHeight) : C.Has b :=
  BlockTree.has_of_common hC₀ h.contains hF.mem hF.has h.has (hl.mem b hb) hhas
    (h.starts (hl.floor b hb)) hle

/-- Rewinding to a tracked block is safe if a header of the chain is that block, or a child of it. -/
theorem SafeTarget.of_tracked {F R checking : Header} {l : List Header} (hC : Extends T C₀ C F)
    (hl : Rooted T C₀ l) (hR : R ∈ l) (hle : R.blockHeight ≤ F.blockHeight)
    (hchecking : OnChain T C checking)
    (hmatch : R.blockHash = checking.blockHash ∨ R.blockHash = checking.parentHash) :
    SafeTarget C F l R := by
  have hhas : C.Has R := by
    rcases hmatch with hash | hparent
    · exact hchecking.has.of_hash hash.symm
    · exact BlockTree.has_of_parent hC.contains (hl.mem R hR) hchecking.mem
        (hC.starts (hl.floor R hR)) hparent.symm hchecking.has
  refine ⟨hhas, hle, fun b hb hbR => ?_⟩
  exact (hl.extends hC).has_of_le hC.contains hR hhas hb hbR

/-- **A rewind target is safe**, however the fork was found and however the target was: it is on the
canonical chain `C` of the call, finality has reached it, and everything that is tracked at or below it
is on `C`. -/
theorem rewind_target_is_safe (hC₀ : T.Contains C₀) {ops : List Op}
    (hops : Permitted Op.next (OneFinalizedChain T C₀) ops (State.started State.emptyStore))
    (hs : MeetsVerified T C₀ (runAll Op.next ops (State.started State.emptyStore)) s)
    (hseq : env.Sequential) (hin : env.InTree T C₀) (hC : Extends T C₀ C s.finalized)
    (hheader : ∀ h ∈ header, OnChain T C h)
    (hanswers : ∀ {n slot : Nat} {h : Header}, env.headerReply n slot = .ok h → C.Has h)
    {n n' : Nat} {R : Header}
    (hcall : processUnfinalizedBlockHeader header env n s.node = (.ok (some R), n', s'.node)) :
    SafeTarget C s.finalized s'.blocks R := by
  obtain ⟨⟨hkeeps, hF⟩, hverified⟩ := hs.live hC₀ hops
  obtain ⟨s'', hs'', -, hcalls⟩ := (processUnfinalizedBlockHeader_runs env header s).elim hcall
  obtain rfl := Live.node_inj hs''
  have hrooted : Rooted T C₀ s'.blocks :=
    (hkeeps.processes (rooted_admits hC₀ hin) hF (fun h hh => (hheader h hh).mem)
      hcalls.processes).memory
  have hanswered : ∀ {b}, env.Answers b → OnChain T C b := by
    rintro b (⟨hanswer⟩ | _ | _)
    exact ⟨hin.answers hanswer, hanswers hanswer⟩
  generalize ho : Outcome.ok (some R) = o at hcalls
  cases hcalls.alone hseq with
  | failed => cases ho
  | deleted _ _ hdeleted => subst ho; cases hdeleted
  | @searched forked _ _ hfin hfinds hsearch =>
    subst ho
    have hforked : OnChain T C forked := by
      rcases hfinds.source.2 forked rfl with hpassed | hanswer | hadv
      · exact hheader forked hpassed
      · exact hanswered hanswer
      · rw [hseq.advance hadv]
        exact ⟨hF.mem, hC.has⟩
    rcases hsearch.source with ⟨hmem, checking, hchecking, hmatch⟩ | ⟨height, hchecked, hreply⟩
    · -- the search met a tracked block
      obtain ⟨hR, hle⟩ : R ∈ s'.blocks ∧ R.blockHeight ≤ s'.finalized.blockHeight := by
        simpa using List.mem_filter.mp (List.mem_reverse.mp hmem)
      have hon : OnChain T C checking := by
        rcases hchecking with rfl | hanswer
        · exact hforked
        · exact hanswered hanswer
      exact .of_tracked hC hrooted hR (hfin ▸ hle) hon hmatch
    · -- it fell back to the verified height
      obtain ⟨-, hle, hbelow⟩ := hverified.checked height (hfinds.sameHeights.checked ▸ hchecked)
      have hR := hreply.blockHeight
      refine ⟨(hanswered hreply.answers).has, hR ▸ hle, fun b hb hbR => ?_⟩
      rcases hfinds.source.1 b hb with hb | hanswer | ⟨hpassed, -⟩
      · exact hC.has_of_verified hC₀ hF hkeeps.memory hb (hbelow b hb (hR ▸ hbR)) (by omega)
      · exact (hanswered hanswer).has
      · exact (hheader b hpassed).has

namespace ForkAt101

/-- The blocks of the finalized chain, as the RPC has them. -/
def getBlock : Nat → GetBlockReply BaseSolanaBlock
  | 100 => .block ⟨90, 0, "a", 99, "z"⟩
  | 102 => .block ⟨91, 0, "d", 100, "a"⟩
  | _ => .slotSkipped

theorem getBlock_onChain {F : Header} {n slot : Nat} {h : Header}
    (hanswer : (Env.steady F getBlock).headerReply n slot = .ok h) : OnChain tree chain h := by
  simp only [Env.headerReply, Env.steady, getBlock] at hanswer
  split at hanswer <;> cases hanswer
  · exact onChain_a
  · exact onChain_d

end ForkAt101

/-- `d` comes while `x` is tracked and finality is at slot 100: the search falls back to that slot. -/
theorem rewind_target_is_safe_at100 :
    SafeTarget ForkAt101.chain ForkAt101.a [ForkAt101.x] ForkAt101.a := by
  have ha := Env.skipped_inTree ForkAt101.onChain_a
  have hops : Permitted Op.next (OneFinalizedChain ForkAt101.tree ForkAt101.chain) ForkAt101.ops
      (State.started State.emptyStore) := by
    refine .cons ⟨Env.steady_sequential _ _, ha, fun _ => ⟨Env.skipped_honestTo _ _ _, ?_⟩⟩
      (.cons ⟨Env.steady_sequential _ _, ha, ?_, fun _ _ => Env.skipped_honestTo _ _ _⟩ .nil)
    · rintro height ⟨⟩
    · rintro h ⟨⟩
      exact rfl
  have hcall : processUnfinalizedBlockHeader (some ForkAt101.d) (.steady ForkAt101.a ForkAt101.getBlock) 0
      ForkAt101.tracking.node = (.ok (some ForkAt101.a), 2, ForkAt101.tracking.node) := rfl
  refine rewind_target_is_safe ForkAt101.tree_contains hops (.inl rfl) (Env.steady_sequential _ _)
    ⟨fun h => (ForkAt101.getBlock_onChain h).mem, ?_, ?_⟩
    ⟨ForkAt101.tree_contains, ForkAt101.onChain_a.has, id⟩ ?_
    (fun h => (ForkAt101.getBlock_onChain h).has) hcall
  · rintro n F ⟨⟩
  · rintro n F ⟨⟩
    exact ForkAt101.onChain_a
  · rintro h ⟨⟩
    exact ForkAt101.onChain_d

end SubqlSolana
