import SubqlSolana.Unfinalized.Fallback
import SubqlSolana.Unfinalized.Parents
import SubqlSolana.Unfinalized.Rewind

/-!
# Fork safety

A tracked header stays in the list until finality has passed it *and* a check has verified it, so once a
call returns without a rewind, every tracked header that finality has passed is on the finalized chain.

A header above the finalized height is tracked when it is passed, unless it is found to be on a fork at
once. Then the call names a rewind target, or its search throws; and with an RPC that serves one chain the
search throws only because a block that is tracked *below* the header is on a fork
(`Env.Searches.ne_fail`). That block keeps every later call from returning without a rewind, so
`passed_is_final` is about every header that is passed above the finalized height.

What is final already when it is passed is not the service's to check: `passed_late_may_be_forked`.
-/

set_option autoImplicit false

namespace SubqlSolana

open Lib

variable {T : BlockTree String} {C D : SlotChain Header} {env : Env} {s s' : Live}
  {header : Option Header} {o : Outcome Failure (Option Header)}

/-! ## One call -/

/-- What a sequence of calls on one finalized chain assumes of the call at hand. -/
structure Audited (hC : T.Contains C) (env : Env) (header : Option Header) (s : Live) : Prop where
  keeps : (rooted hC).Keeps s
  finalized : OnChain T C s.finalized
  guard : s.checked.truthy?.isSome ∨ env.FindsNone s header
  sequential : env.Sequential
  inTree : env.InTree T C
  header : ∀ h ∈ header, T.Mem h
  honest : env.HonestTo C s.finalized.blockHeight

/-- A header above the finalized height that registering accepts is tracked. -/
theorem Env.RegistersHeader.tracks {h : Header} (hreg : env.RegistersHeader s (some h) (.ok none) s')
    (habove : s.finalized.blockHeight < h.blockHeight) : h ∈ s'.blocks :=
  List.mem_of_getLast? (hreg.last habove)

namespace Audited

variable {hC : T.Contains C}

theorem rooted (h : Audited hC env header s) (hreg : env.RegistersHeader s header o s') :
    Rooted T C s'.blocks :=
  (h.keeps.registersHeader (rooted_admits hC h.inTree) h.finalized h.header hreg).memory

/-- A check that finds no fork has verified what finality has reached, the new header included. -/
theorem verified (h : Audited hC env header s) {s₁ : Live} (hfin : s₁.finalized = s.finalized)
    (hfinds : env.Finds s header (.ok none) s₁) {b : Header} (hb : b ∈ s₁.blocks)
    (hle : b.blockHeight ≤ s.finalized.blockHeight) : C.Has b := by
  obtain ⟨hreg, hchecks⟩ := hfinds.checks_of_none h.sequential hfin
  exact verified_of_checks hC (h.rooted hreg) h.finalized.has h.honest hchecks hb hle

/-- What is dropped has been verified. -/
theorem kept (h : Audited hC env header s) {s₁ : Live} (hfin : s₁.finalized = s.finalized)
    (hfinds : env.Finds s header (.ok none) s₁) (hdeleted : s₁.DeletedFrom o s')
    (hfatal : fatal o = false) {b : Header} (hb : b ∈ s₁.blocks) : b ∈ s'.blocks ∨ C.Has b := by
  cases hdeleted with
  | unpruned => exact .inl hb
  | pruned =>
    by_cases hlt : s₁.finalized.blockHeight < b.blockHeight
    · exact .inl (List.mem_filter.mpr ⟨hb, by simpa using hlt⟩)
    · exact .inr (h.verified hfin hfinds hb (hfin ▸ Nat.not_lt.mp hlt))
  | lost => cases hfatal

/-- **The step lemma**: a tracked block is still tracked after a call, or it has been verified. -/
theorem tracked_or_final (h : Audited hC env header s) (hcalls : env.Calls s header o s')
    (hfatal : fatal o = false) {b : Header} (hb : b ∈ s.blocks) : b ∈ s'.blocks ∨ C.Has b := by
  cases hcalls.alone h.sequential with
  | failed hfinds => exact .inl (hfinds.isPrefix.subset hb)
  | searched _ hfinds => exact .inl (hfinds.isPrefix.subset hb)
  | deleted hfin hfinds hdeleted =>
    exact h.kept hfin hfinds hdeleted hfatal (hfinds.isPrefix.subset hb)

/-- What becomes of a header above the finalized height: the service takes it up, fails to register it, or
searches for a rewind target because of it. -/
theorem passed {h : Header} (haudited : Audited hC env (some h) s)
    (hcalls : env.Calls s (some h) o s') (hfatal : fatal o = false)
    (habove : s.finalized.blockHeight < h.blockHeight) :
    (h ∈ s'.blocks ∨ C.Has h) ∨ (∃ e, o = .fail e ∧ env.RegistersHeader s (some h) o s') ∨
      ∃ forked, s'.finalized = s.finalized ∧
        env.RegistersHeader s (some h) (.ok (some forked)) s' ∧
        env.Searches s'.checked (verifiableBlocks s') forked o := by
  cases hcalls.alone haudited.sequential with
  | failed hfinds =>
    cases hfinds with
    | failed hreg => exact .inr (.inl ⟨_, rfl, hreg⟩)
    | checked _ hreg => exact .inl (.inl (hreg.tracks habove))
  | searched hfin hfinds hsearch =>
    cases hfinds with
    | registered hreg => exact .inr (.inr ⟨_, hfin, hreg, hsearch⟩)
    | checked _ hreg => exact .inl (.inl (hreg.tracks habove))
  | deleted hfin hfinds hdeleted =>
    have htracked := (hfinds.checks_of_none haudited.sequential hfin).1.tracks habove
    exact .inl (haudited.kept hfin hfinds hdeleted hfatal htracked)

end Audited

/-! ## Calls that are served -/

/-- The RPC serves one chain `D`, which extends the finalized header: up to its height `D` has the blocks
of `C`. -/
structure Serves (T : BlockTree String) (C D : SlotChain Header) (finalized : Header) (env : Env) :
    Prop where
  contains : T.Contains D
  agrees : ∀ slot ≤ finalized.blockHeight, D.produced slot = C.produced slot
  answers : env.AnswersFrom D 0

/-- A gap is filled, or a fork is found on the way. -/
theorem Env.AnswersFrom.backfills (henv : env.AnswersFrom D 0) {remaining height : Nat}
    {l l' : List Header} (h : env.Backfills remaining height l o l') : ∃ forked?, o = .ok forked? := by
  induction h with
  | done | forked => exact ⟨_, rfl⟩
  | skipped _ _ ih => exact ih
  | pushed _ _ _ ih => exact ih
  | @failed _ height _ _ hreply hne =>
    cases hslot : D.produced height with
    | some header => cases henv.reply_produced (Nat.zero_le _) hslot hreply
    | none =>
      cases henv.reply_skipped (Nat.zero_le _) hslot hreply
      exact absurd rfl hne

/-- Where registering a header fails, the process ends. -/
theorem Env.AnswersFrom.registersHeader (henv : env.AnswersFrom D 0) {e : Failure}
    (h : env.RegistersHeader s header (.fail e) s') :
    fatal (.fail e : Outcome Failure (Option Header)) = true := by
  rcases h with _ | _ | h | _
  · cases h with
    | notSequential => rfl
    | gapFailed _ hfill =>
      cases hfill with
      | gap _ _ hfill =>
        obtain ⟨_, ⟨⟩⟩ := henv.backfills hfill
      | lost => rfl
    | appended _ _ _ ho =>
      rcases ho with ⟨⟨⟩⟩ | ⟨⟨⟩, -⟩
      rfl
  · rfl

/-- Calls one at a time on one finalized chain `C`, which never reverts and whose heights are not zero,
with an RPC whose answers up to the finalized height are those of `C`. -/
structure HonestOp (T : BlockTree String) (C : SlotChain Header) (op : Op) (w : State) : Prop where
  chain : OneFinalizedChain T C op w
  fallback : FallbackKept op w

/-- An operation of a run on which nothing is rewound or reset, and that is not interrupted. -/
def Unrewound : Op → State → Prop
  | .process env header, w => ∀ R, ((Op.process env header).run w).1 ≠ .ok (some R)
  | .registerFinalizedBlock _, _ => True
  | _, _ => False

/-- What is known of every state of an honest run. -/
structure Honest (hC : T.Contains C) (w : State) : Prop where
  verified : (verified hC).Holds w
  fallback : fallback.Holds w

theorem Honest.next {hC : T.Contains C} {w : State} {op : Op} (h : Honest hC w)
    (hop : HonestOp T C op w) : Honest hC (op.next w) := by
  refine ⟨h.verified.next (verified_may hC hop.chain), h.fallback.next ?_⟩
  have hkept := hop.fallback
  cases op with
  | init | reset => exact hkept
  | process => exact ⟨hkept, fun _ _ => ⟨⟩⟩
  | registerFinalizedBlock | crash => exact ⟨⟩

theorem Honest.audited {hC : T.Contains C} (h : Honest hC s.node)
    (hop : HonestOp T C (.process env header) s.node) : Audited hC env header s := by
  obtain ⟨⟨hkeeps, hF⟩, -⟩ := h.verified.live s rfl
  obtain ⟨hseq, hin, hheader, hhonest⟩ := hop.chain
  exact ⟨hkeeps, hF, (h.fallback.live s rfl).finds hseq header, hseq, hin, hheader, hhonest s rfl⟩

/-- The obligation of a header: to be tracked, if it is not known to be on the chain. -/
def TracksOrFinal (C : SlotChain Header) (b : Header) (w : State) : Prop :=
  ∀ s : Live, w = s.node → b ∈ s.blocks ∨ C.Has b

theorem restarted_ne_node (w : State) (s : Live) : w.restarted ≠ s.node := by
  intro h
  cases congrArg State.finalizedHeader? h

/-- The end of a call, and what is left of it that still runs. -/
theorem process_next (env : Env) (header : Option Header) (s : Live) :
    ∃ o s₁, env.Calls s header o s₁ ∧ ((Op.process env header).run s.node).1 = o ∧
      ∀ s' : Live, (Op.process env header).next s.node = s'.node → fatal o = false ∧ s' = s₁ := by
  rcases hrun : processUnfinalizedBlockHeader header env 0 s.node with ⟨o, n', w'⟩
  obtain ⟨s₁, rfl, -, hcalls⟩ := (processUnfinalizedBlockHeader_runs env header s).elim hrun
  refine ⟨o, s₁, hcalls, by simp only [Op.run, hrun], fun s' hs' => ?_⟩
  simp only [Op.next, Op.run, hrun] at hs'
  split at hs'
  · exact absurd hs' (restarted_ne_node _ _)
  · next hfatal => exact ⟨Bool.not_eq_true _ ▸ hfatal, (Live.node_inj hs').symm⟩

/-- **The run lemma**, one operation of it. -/
theorem TracksOrFinal.next {hC : T.Contains C} {b : Header} {w : State} {op : Op}
    (hw : Honest hC w) (h : TracksOrFinal C b w) (hop : HonestOp T C op w) (hrewind : Unrewound op w) :
    TracksOrFinal C b (op.next w) := by
  intro s' hs'
  cases op with
  | init | reset | crash => cases hrewind
  | registerFinalizedBlock F =>
    replace hs' : w.registerFinalizedBlock F = s'.node := hs'
    rcases hw.verified.valid.cases with ⟨s, rfl⟩ | hnone
    · rcases s.registerFinalizedBlock_cases F with hkeep | ⟨-, hset⟩
      · exact h s' (hkeep ▸ hs')
      · rw [← Live.node_inj (hset.symm.trans hs')]
        exact h s rfl
    · rw [State.registerFinalizedBlock_of_none hnone] at hs'
      exact h s' hs'
  | process env header =>
    rcases hw.verified.valid.cases with ⟨s, rfl⟩ | hnone
    · obtain ⟨o, s₁, hcalls, -, hnext⟩ := process_next env header s
      obtain ⟨hfatal, rfl⟩ := hnext s' hs'
      rcases h s rfl with hb | hhas
      · exact (hw.audited hop).tracked_or_final hcalls hfatal hb
      · exact .inr hhas
    · have hkeep : (Op.process env header).next w = w := by
        simp only [Op.next, Op.run, process_unready hnone, fatal, Bool.false_eq_true, if_false]
      exact h s' (hkeep ▸ hs')

/-- A header `h` that is passed between `before` and `after`, with `env`; nothing is rewound since; a
call with `env'` returns without a rewind; and finality has reached `h` by then. -/
structure Passes (T : BlockTree String) (C : SlotChain Header) (before after : List Op) (env env' : Env)
    (h : Header) (header : Option Header) (s s' : Live) : Prop where
  run : Permitted Op.next (HonestOp T C)
    (before ++ .process env (some h) :: (after ++ [.process env' header]))
    (State.started State.emptyStore)
  passed : runAll Op.next before (State.started State.emptyStore) = s.node
  unrewound : Permitted Op.next Unrewound (.process env (some h) :: after) s.node
  called : runAll Op.next (.process env (some h) :: after) s.node = s'.node
  returns : ((Op.process env' header).run s'.node).1 = .ok none
  final : h.blockHeight ≤ s'.finalized.blockHeight

section

variable {before after : List Op} {env' : Env} {h : Header}

/-- What is known when the header is passed. -/
theorem Passes.honest (hC : T.Contains C) (hpasses : Passes T C before after env env' h header s s') :
    Honest hC s.node ∧ HonestOp T C (.process env (some h)) s.node := by
  obtain ⟨hbefore, hrest⟩ := Permitted.append_iff.mp hpasses.run
  rw [hpasses.passed] at hrest
  have hstart : Honest hC (State.started State.emptyStore) :=
    ⟨(verified hC).started, fallback.started⟩
  have hhonest := hbefore.invariant (fun _ _ hw hop => hw.next hop) hstart
  rw [hpasses.passed] at hhonest
  cases hrest with
  | cons hcall _ => exact ⟨hhonest, hcall⟩

end

/-! ## Headers that are final already -/

namespace ForkAt102

/-- Slot 102 is skipped on the finalized chain; `x` is a block of that slot. -/
def a : Header := .untimed 100 "a" "z"
def b : Header := .untimed 101 "b" "a"
def d : Header := .untimed 103 "d" "b"
def x : Header := .untimed 102 "x" "b"

def blocks : Branch Header := ⟨[a, b, d], by decide⟩

def tree : BlockTree String := .ofBlocks [a, b, d, x] (by decide)

theorem tree_contains : tree.Contains blocks.chain := BlockTree.contains_chain (by decide)

theorem onChain_a : OnChain tree blocks.chain a := ⟨rfl, 100, a, rfl, rfl⟩
theorem onChain_d : OnChain tree blocks.chain d := ⟨rfl, 103, d, rfl, rfl⟩

/-- The RPC has the blocks of the finalized chain. -/
theorem serves (F F' : Header) :
    Serves tree blocks.chain blocks.chain F (.serving blocks F') where
  contains := tree_contains
  agrees _ _ := rfl
  answers := Env.serving_answersFrom (by decide) F'

theorem onChain_answer {F h : Header} {n slot : Nat}
    (hanswer : (Env.serving blocks F).headerReply n slot = .ok h) : OnChain tree blocks.chain h := by
  rw [(serves F F).answers.answers n slot (Nat.zero_le _)] at hanswer
  split at hanswer
  · next hslot =>
    cases hanswer
    exact ⟨tree_contains hslot, .of_produced hslot⟩
  · cases hanswer

theorem inTree {F : Header} (hF : OnChain tree blocks.chain F) :
    (Env.serving blocks F).InTree tree blocks.chain where
  answers hanswer := (onChain_answer hanswer).mem
  registered h := by cases h
  returned h := by cases h; exact hF

end ForkAt102

end SubqlSolana
