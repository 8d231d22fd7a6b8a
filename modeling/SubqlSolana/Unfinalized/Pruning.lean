import SubqlSolana.Unfinalized.Rooted

/-!
# What is pruned, and what was checked

`hasForked` reads the finalized header, and `deleteFinalizedBlock` reads it again, after at least one
`await`. If the fetch loop has registered a higher one in between, blocks are dropped up to a height
that the check did not reach.

A `Pruning` is a call that got as far as `deleteFinalizedBlock`, cut at the two places where the
finalized header is read. `drops_verified_iff` says exactly when what it drops was verified.
-/

set_option autoImplicit false

namespace SubqlSolana

open Lib

variable {T : BlockTree String} {C : SlotChain Header} {env : Env} {header : Option Header} {s : Live}

/-- A call of `processUnfinalizedBlockHeader` in which `deleteFinalizedBlock` was called. -/
structure Pruning (env : Env) (header : Option Header) (s : Live) where
  n : Nat
  /-- When `hasForked` is called. -/
  checking : Live
  /-- When `deleteFinalizedBlock` is called. -/
  deleting : Live
  /-- When that ends, or is lost. -/
  left : Live
  n₁ : Nat
  n₂ : Nat
  n₃ : Nat
  ending : Outcome Failure Unit
  registers : registerHeader header env n s.node = (.ok none, n₁, checking.node)
  checks : Async.awaits hasForked env n₁ checking.node = (.ok none, n₂, deleting.node)
  deletes : deleteFinalizedBlock env n₂ deleting.node = (ending, n₃, left.node)

/-- Either nothing is dropped, or everything up to the finalized height is, and that is stored. -/
theorem Env.Deletes.drops {s' : Live} {o : Outcome Failure Unit} (h : env.Deletes s o s') :
    (s.checked.definedAndBelow s.finalized.blockHeight = false ∧ s'.blocks = s.blocks) ∨
    (s.checked.definedAndBelow s.finalized.blockHeight = true ∧
      s'.blocks = s.blocks.filter (fun b => s.finalized.blockHeight < b.blockHeight) ∧
      s'.metadata.lastFinalizedVerifiedHeight = .value s.finalized.blockHeight) := by
  cases h with
  | unpruned h => exact .inl ⟨h, rfl⟩
  | pruned h | lostBeforeBlocks h | lostAfterBlocks h => exact .inr ⟨h, rfl, rfl⟩

namespace Pruning

/-- The condition of `deleteFinalizedBlock`: whether it drops and stores anything. -/
def prunes (p : Pruning env header s) : Bool :=
  p.deleting.checked.definedAndBelow p.deleting.finalized.blockHeight

/-- What is dropped is on the chain of the finalized header that the check used, and the height that is
stored is not above that header. -/
structure DropsVerified (p : Pruning env header s) (C : SlotChain Header) : Prop where
  dropped : ∀ b ∈ p.deleting.blocks, b ∉ p.left.blocks →
    C.Has b ∧ b.blockHeight ≤ p.checking.finalized.blockHeight
  stored : p.prunes = true → ∀ height,
    p.left.metadata.lastFinalizedVerifiedHeight = .value height →
      height ≤ p.checking.finalized.blockHeight

/-- The call is the parts. -/
theorem call_eq (p : Pruning env header s) :
    findFork header env p.n s.node = (.ok none, p.n₂, p.deleting.node) := by
  show (registerHeader header >>= _ : Service (Option Header)) env p.n s.node = _
  simp only [Bind.bind, p.registers]
  exact p.checks

theorem registersHeader (p : Pruning env header s) :
    env.RegistersHeader s header (.ok none) p.checking ∧
      env.Advance s.finalized p.checking.finalized := by
  obtain ⟨s', hs', hadv, h⟩ := (registerHeader_runs env header s).elim p.registers
  obtain rfl := Live.node_inj hs'
  exact ⟨h, hadv⟩

/-- Between the two reads nothing changes but finality. -/
theorem checking_checks (p : Pruning env header s) :
    ∃ F, p.deleting = p.checking.withFinalized F ∧
      env.Advance p.checking.finalized F ∧
      env.Checks p.checking.blocks p.checking.finalized (.ok none) := by
  have hasks : Asks env p.checking (Async.awaits hasForked)
      (env.Checks p.checking.blocks p.checking.finalized) :=
    (hasForked_asks env p.checking).awaits fun _ _ _ hn => .lost hn
  obtain ⟨s', hs', hadv, F, rfl, hchecks⟩ := Runs.elim hasks p.checks
  exact ⟨F, Live.node_inj hs', hadv, hchecks⟩

theorem deletes_cases (p : Pruning env header s) :
    (p.prunes = false ∧ p.left.blocks = p.deleting.blocks) ∨
    (p.prunes = true ∧
      p.left.blocks = p.deleting.blocks.filter
        (fun b => p.deleting.finalized.blockHeight < b.blockHeight) ∧
      p.left.metadata.lastFinalizedVerifiedHeight = .value p.deleting.finalized.blockHeight) := by
  obtain ⟨s', hs', -, h⟩ := (deleteFinalizedBlock_runs env p.deleting).elim p.deletes
  rw [Live.node_inj hs']
  exact h.drops

end Pruning

/-- The services that a call may meet in `w`: the one that is running, or the one that `init` loads and
checks. -/
def MeetsCall (T : BlockTree String) (C : SlotChain Header) (w : State) (s : Live) : Prop :=
  w = s.node ∨ ∃ F, OnChain T C F ∧ s = Live.loaded w.metadata F

/-- **What a call drops was verified exactly when finality had not moved past the check**, or nothing
is pruned. -/
theorem drops_verified_iff (hC : T.Contains C) {ops : List Op}
    (hops : Permitted Op.next (fun op _ => op.InTree T C) ops (State.started State.emptyStore))
    (hs : MeetsCall T C (runAll Op.next ops (State.started State.emptyStore)) s)
    (henv : env.InTree T C) (hheader : ∀ h ∈ header, T.Mem h) (p : Pruning env header s)
    (hhonest : env.HonestTo C p.checking.finalized.blockHeight) :
    p.DropsVerified C ↔
      p.deleting.finalized.blockHeight ≤ p.checking.finalized.blockHeight ∨ p.prunes = false := by
  obtain ⟨hkeeps, hF⟩ : (rooted hC).Keeps s ∧ OnChain T C s.finalized := by
    have hw := rooted_reached hC hops
    rcases hs with hs | ⟨F, hF, rfl⟩
    · exact hw.live s hs
    · exact ⟨.loaded hw.store F, hF⟩
  obtain ⟨hreg, hadv⟩ := p.registersHeader
  have hadmits := rooted_admits hC henv
  have hrooted := (hkeeps.registersHeader hadmits hF hheader hreg).memory
  have hF₀ := hadmits.advance hF hadv
  obtain ⟨F, hdeleting, hadv', hchecks⟩ := p.checking_checks
  constructor
  · intro h
    rcases p.deletes_cases with ⟨hprunes, -⟩ | ⟨hprunes, -, hstored⟩
    · exact .inr hprunes
    · exact .inl (h.stored hprunes _ hstored)
  · intro h
    rcases p.deletes_cases with ⟨hprunes, hblocks⟩ | ⟨hprunes, hblocks, hstored⟩
    · refine ⟨fun b hb hb' => absurd (hblocks ▸ hb) hb', fun hprunes' => ?_⟩
      rw [hprunes] at hprunes'
      cases hprunes'
    · have hle : p.deleting.finalized.blockHeight ≤ p.checking.finalized.blockHeight := by
        rcases h with h | h
        · exact h
        · rw [hprunes] at h
          cases h
      refine ⟨fun b hb hb' => ?_, fun _ height hheight => ?_⟩
      · have hbelow : b.blockHeight ≤ p.checking.finalized.blockHeight := by
          rw [hblocks, List.mem_filter] at hb'
          have : ¬p.deleting.finalized.blockHeight < b.blockHeight := fun hlt =>
            hb' ⟨hb, by simpa using hlt⟩
          omega
        rw [hdeleting, Live.withFinalized_blocks] at hb
        exact ⟨verified_of_checks hC hrooted hF₀.has hhonest hchecks hb hbelow, hbelow⟩
      · rw [hstored] at hheight
        cases hheight
        exact hle

/-! ## A finalized header between the two reads -/

namespace ForkAt101

/-- Slot 101 is skipped on the finalized chain; `x` and `y` are a fork that starts there. -/
def a : Header := .untimed 100 "a" "z"
def d : Header := .untimed 102 "d" "a"
def x : Header := .untimed 101 "x" "a"
def y : Header := .untimed 102 "y" "x"

def chain : SlotChain Header := Branch.chain ⟨[a, d], by decide⟩

def tree : BlockTree String := .ofBlocks [a, d, x, y] (by decide)

theorem tree_contains : tree.Contains chain := BlockTree.contains_chain (by decide)

theorem onChain_a : OnChain tree chain a := ⟨rfl, 100, a, rfl, rfl⟩

theorem onChain_d : OnChain tree chain d := ⟨rfl, 102, d, rfl, rfl⟩

/-- Finality reaches slot 102 during the third `await` of a call. -/
def schedule : Env :=
  { Env.steady a fun _ => .slotSkipped with
    finality := fun n => if n = 2 then [d] else [] }

theorem schedule_inTree : schedule.InTree tree chain where
  answers h := by cases h
  registered {n F} h := by
    simp only [schedule] at h
    split at h
    · obtain rfl := List.mem_singleton.mp h
      exact onChain_d
    · cases h
  returned h := by cases h; exact onChain_a

/-- `x` is tracked. -/
def ops : List Op :=
  [.init (.steady a fun _ => .slotSkipped) [],
    .process (.steady a fun _ => .slotSkipped) (some x)]

theorem ops_permitted :
    Permitted Op.next (fun op _ => op.InTree tree chain) ops (State.started State.emptyStore) := by
  refine .cons (Env.skipped_inTree onChain_a) (.cons ⟨Env.skipped_inTree onChain_a, ?_⟩ .nil)
  rintro h ⟨⟩
  exact rfl

def tracking : Live := ⟨[x], a, .value 100, ⟨some [x.toJSON], .undefined⟩⟩

/-- The call with `y`. -/
def pruning : Pruning schedule (some y) tracking where
  n := 0
  checking := ⟨[x, y], a, .value 100, ⟨some [x.toJSON, y.toJSON], .undefined⟩⟩
  deleting := ⟨[x, y], d, .value 100, ⟨some [x.toJSON, y.toJSON], .undefined⟩⟩
  left := ⟨[], d, .value 102, ⟨some [], .value 102⟩⟩
  n₁ := 2
  n₂ := 3
  n₃ := 5
  ending := .ok ()
  registers := rfl
  checks := rfl
  deletes := rfl

/-- `d` is tracked instead, and finality reaches it between two calls. -/
def settling : Live := ⟨[d], d, .value 100, ⟨some [d.toJSON], .undefined⟩⟩

/-- The next call, without a header. -/
def settled : Pruning (.steady d fun _ => .slotSkipped) none settling where
  n := 0
  checking := settling
  deleting := settling
  left := ⟨[], d, .value 102, ⟨some [], .value 102⟩⟩
  n₁ := 0
  n₂ := 1
  n₃ := 3
  ending := .ok ()
  registers := rfl
  checks := rfl
  deletes := rfl

end ForkAt101

/-- A call that nothing overtakes. -/
theorem drops_verified_iff_settled : ForkAt101.settled.DropsVerified ForkAt101.chain := by
  have hops : Permitted Op.next (fun op _ => op.InTree ForkAt101.tree ForkAt101.chain)
      [.init (.steady ForkAt101.a fun _ => .slotSkipped) [],
        .process (.steady ForkAt101.a fun _ => .slotSkipped) (some ForkAt101.d),
        .registerFinalizedBlock ForkAt101.d] (State.started State.emptyStore) := by
    have ha := Env.skipped_inTree ForkAt101.onChain_a
    refine .cons ha (.cons ⟨ha, ?_⟩ (.cons ForkAt101.onChain_d .nil))
    rintro h ⟨⟩
    exact rfl
  exact (drops_verified_iff ForkAt101.tree_contains hops (.inl rfl)
    (Env.skipped_inTree ForkAt101.onChain_d) (by rintro _ ⟨⟩) ForkAt101.settled
    (Env.skipped_honestTo _ _ _)).mpr (.inl (Nat.le_refl _))

/-- **Forked blocks are dropped unverified** when finality passes them between the check and the
pruning. -/
theorem finality_overtakes_check :
    ¬∀ (T : BlockTree String) (C : SlotChain Header) (ops : List Op) (s : Live) (env : Env)
      (header : Option Header) (p : Pruning env header s), T.Contains C →
      Permitted Op.next (fun op _ => op.InTree T C) ops (State.started State.emptyStore) →
      MeetsCall T C (runAll Op.next ops (State.started State.emptyStore)) s → env.InTree T C →
      (∀ h ∈ header, T.Mem h) → env.HonestTo C p.checking.finalized.blockHeight →
      p.DropsVerified C := by
  intro h
  have hverified := h ForkAt101.tree ForkAt101.chain ForkAt101.ops ForkAt101.tracking ForkAt101.schedule
    (some ForkAt101.y) ForkAt101.pruning ForkAt101.tree_contains ForkAt101.ops_permitted (.inl rfl)
    ForkAt101.schedule_inTree (by rintro _ ⟨⟩; exact rfl) (fun _ hanswer => by cases hanswer)
  have hhas := (hverified.dropped ForkAt101.x (by decide) (by decide)).1
  rw [ForkAt101.chain, Branch.chain_has_iff] at hhas
  revert hhas
  decide

end SubqlSolana
