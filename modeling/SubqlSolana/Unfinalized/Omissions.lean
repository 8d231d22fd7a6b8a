import SubqlSolana.Unfinalized.Recovery

/-!
# What an RPC leaves out

A slot that the RPC has no block for is taken for a skipped one, and so is a slot that has left its
retention window: "this is ambiguous in general (could be a genuine archival gap)" (`api.solana.ts`). So a
backfill may pass over a block that the chain has.

It is noticed. Here the RPC never answers with a block of another chain, but it may have no answer for
any slot at any time: it throws, returns nothing, or says *skipped*. Nothing is assumed of finality, and
the process may die anywhere. Still **what is tracked, and what the store has, is a contiguous piece of
the chain**, because the next header does not fit a list with a block missing; and a header that does not
fit is reported only if the slot of a block was taken for a skipped one (`nothing_is_left_out`).
-/

set_option autoImplicit false

namespace SubqlSolana

open Lib

variable {C : SlotChain Header} {env : Env} {o : Outcome Failure (Option Header)}

/-! ## Answers that are missing -/

/-- A block that the RPC answers with is the chain's. -/
def Env.OnlyFrom (C : SlotChain Header) (env : Env) : Prop :=
  ∀ n slot block, env.getBlock n slot = .block block →
    C.produced slot = some (solanaBlockToHeader block (some slot))

/-- The chain has a block in the slot, and at some time the RPC says that it was skipped, or has none. -/
def Env.PassesOver (C : SlotChain Header) (env : Env) (slot : Nat) : Prop :=
  (C.produced slot).isSome ∧ ∃ n, env.getBlock n slot = .null ∨
    isSkippedSlotError env.treatLongTermStorageSkipAsSkipped (env.getBlock n slot) = true

theorem unavailable_iff {treat : Bool} {slot : Nat} {reply : GetBlockReply BaseSolanaBlock} :
    getHeaderByHeight treat slot reply = .error .blockUnavailable ↔
      reply = .null ∨ isSkippedSlotError treat reply = true := by
  cases reply <;> cases treat <;> simp [getHeaderByHeight, isSkippedSlotError]

namespace Env.OnlyFrom

theorem produced (h : env.OnlyFrom C) {slot : Nat} {header : Header}
    (hreply : env.Reply slot (.ok header)) : C.produced slot = some header := by
  cases hreply with
  | header hanswer =>
    obtain ⟨block, hblock, rfl⟩ := block_of_getHeaderByHeight hanswer
    exact h _ slot block hblock

theorem ofChain (h : env.OnlyFrom C) {slot : Nat} {header : Header}
    (hreply : env.Reply slot (.ok header)) : OfChain C header := by
  rw [OfChain, hreply.blockHeight]
  exact h.produced hreply

/-- What is passed over as skipped was skipped, or else a block is missed. -/
theorem skipped {slot : Nat} (hreply : env.Reply slot (.fail .blockUnavailable)) :
    C.produced slot = none ∨ env.PassesOver C slot := by
  cases hslot : C.produced slot with
  | none => exact .inl rfl
  | some header =>
    cases hreply with
    | error hanswer => exact .inr ⟨by rw [hslot]; rfl, _, unavailable_iff.mp hanswer⟩

/-! ## Backfills -/

/-- As long as nothing is passed over, the last tracked block is the parent of what comes next. -/
theorem backfills (h : env.OnlyFrom C) {remaining height stop : Nat} {l l' : List Header}
    (hfill : env.Backfills remaining height l o l') (hstop : height + remaining = stop)
    (hl : ∀ last ∈ l.getLast?, below C.produced height = some last) :
    (∃ slot, height ≤ slot ∧ slot < stop ∧ env.PassesOver C slot) ∨
      ((∀ forked, o ≠ .ok (some forked)) ∧
        (o = .ok none → ∀ last ∈ l'.getLast?, below C.produced stop = some last)) := by
  have hlater : ∀ {height : Nat},
      (∃ slot, height + 1 ≤ slot ∧ slot < stop ∧ env.PassesOver C slot) →
      ∃ slot, height ≤ slot ∧ slot < stop ∧ env.PassesOver C slot := by
    rintro height ⟨slot, hle, hpasses⟩
    exact ⟨slot, Nat.le_of_succ_le hle, hpasses⟩
  induction hfill with
  | done =>
    subst hstop
    exact .inr ⟨by simp, fun _ => hl⟩
  | @skipped remaining height l l' o hreply _ ih =>
    rcases skipped hreply with hskip | hpasses
    · have hnext : ∀ last ∈ l.getLast?, below C.produced (height + 1) = some last := by
        intro last hlast
        rw [below, hskip, Option.none_or]
        exact hl last hlast
      exact (ih (by omega) hnext).imp_left hlater
    · exact .inl ⟨height, Nat.le_refl _, by omega, hpasses⟩
  | @pushed remaining height l l' header o hreply _ _ ih =>
    have hnext : ∀ last ∈ (l ++ [header]).getLast?, below C.produced (height + 1) = some last := by
      intro last hlast
      obtain rfl : header = last := by simpa using hlast
      rw [below, h.produced hreply, Option.some_or]
    exact (ih (by omega) hnext).imp_left hlater
  | forked hreply hlast hne => exact absurd (C.linked (h.produced hreply) (hl _ hlast)) hne
  | failed => exact .inr ⟨by simp, by simp⟩

theorem fills (h : env.OnlyFrom C) {l l' : List Header} (hl : ∀ b ∈ l, OfChain C b)
    {header : Header} (hfill : env.Fills l header o l') :
    (∃ slot, (∀ last ∈ l.getLast?, last.blockHeight < slot) ∧ slot < header.blockHeight ∧
      env.PassesOver C slot) ∨
      ((∀ forked, o ≠ .ok (some forked)) ∧ (o = .ok none →
        ∀ last ∈ l'.getLast?, below C.produced header.blockHeight = some last)) := by
  cases hfill with
  | untracked hnone => exact .inr ⟨by simp, by simp [hnone]⟩
  | @gap last l' o hlast hlt hfill =>
    have hbelow : ∀ b ∈ l.getLast?, below C.produced (last.blockHeight + 1) = some b := by
      intro b hb
      obtain rfl : last = b := Option.some.inj (hlast.symm.trans hb)
      have hown : C.produced last.blockHeight = some last := hl last (List.mem_of_getLast? hlast)
      rw [below, hown, Option.some_or]
    refine (h.backfills hfill (by omega) hbelow).imp_left ?_
    rintro ⟨slot, hle, hlt, hpasses⟩
    refine ⟨slot, fun b hb => ?_, hlt, hpasses⟩
    obtain rfl : last = b := Option.some.inj (hlast.symm.trans hb)
    exact hle
  | lost => exact .inr ⟨by simp, by simp⟩

/-- A header of the chain is reported as a fork only if a block in front of it was passed over. -/
theorem registers (h : env.OnlyFrom C) {s s' : Live} (hs : ∀ b ∈ s.blocks, OfChain C b)
    {header forked : Header} (hheader : OfChain C header)
    (hreg : env.Registers s header (.ok (some forked)) s') :
    ∃ slot, (∀ last ∈ s.blocks.getLast?, last.blockHeight < slot) ∧ slot < header.blockHeight ∧
      env.PassesOver C slot := by
  cases hreg with
  | gapForked _ hfill =>
    rcases h.fills hs hfill with hpasses | ⟨hnot, -⟩
    · exact hpasses
    · exact absurd rfl (hnot forked)
  | forked _ hfill hlast hne =>
    rcases h.fills hs hfill with hpasses | ⟨-, hbelow⟩
    · exact hpasses
    · exact absurd (C.linked hheader (hbelow rfl _ hlast)) hne
  | appended _ _ _ ho =>
    rcases ho with ho | ⟨ho, -⟩
    · cases ho
    · cases ho

end Env.OnlyFrom

/-! ## The invariant -/

/-- To be a contiguous piece of a chain. -/
def piecesOf (hdistinct : C.HashesDistinct) (hdates : HasDates C) : ListInvariant where
  holds := C.Contiguous
  header := OfChain C
  finalized _ := True
  nil := .nil
  above n h := h.above n
  revive h := by
    rw [revive_map_toJSON fun b hb => hdates (h.produced b hb)]
    exact h
  first _ hheader _ := SlotChain.contiguous_singleton hheader
  push hl hlast hlinked hheader :=
    have hown := hl.produced _ (List.mem_of_getLast? hlast)
    hl.append hlast (hdistinct.below_of_linked hown hheader hlinked) hheader

/-- Blocks come from the chain, and so do the headers that are passed. -/
def Op.AnsweredFrom (C : SlotChain Header) : Op → State → Prop
  | .init env _, _ => env.OnlyFrom C
  | .process env header, _ => env.OnlyFrom C ∧ ∀ h ∈ header, OfChain C h
  | .reset env _, _ => env.OnlyFrom C
  | _, _ => True

section

variable {hdistinct : C.HashesDistinct} {hdates : HasDates C}

theorem piecesOf_admits (h : env.OnlyFrom C) : (piecesOf hdistinct hdates).Admits env where
  answers hanswer := h.ofChain (.header hanswer)
  registered _ := ⟨⟩
  returned _ := ⟨⟩

theorem piecesOf_may {op : Op} {w : State} (h : op.AnsweredFrom C w) :
    (piecesOf hdistinct hdates).service.may op w := by
  cases op with
  | init => exact ⟨piecesOf_admits h, ⟨⟩⟩
  | process => exact ⟨piecesOf_admits h.1, fun _ _ => h.2⟩
  | reset => exact piecesOf_admits h
  | registerFinalizedBlock | crash => exact ⟨⟩

/-- What a call names to rewind to was tracked, or is an answer. -/
theorem ListInvariant.Keeps.target {s s' : Live} (h : (piecesOf hdistinct hdates).Keeps s)
    (henv : env.OnlyFrom C) {header : Option Header} (hheader : ∀ h ∈ header, OfChain C h) {R : Header}
    (hcalls : env.Calls s header (.ok (some R)) s') : OfChain C R := by
  cases hcalls.processes with
  | searched _ hfinds hsearch =>
    have hfound := h.finds (piecesOf_admits henv) ⟨⟩ hheader hfinds
    rcases hsearch.source with ⟨hR, -⟩ | ⟨_, -, hreply⟩
    · exact hfound.memory.produced R (List.mem_of_mem_filter (List.mem_reverse.mp hR))
    · exact henv.ofChain hreply

end

/-! ## Runs -/

/-- What becomes of a header of the chain, and of any call. -/
structure NoticesOmissions (C : SlotChain Header) (s : Live) : Prop where
  registered : ∀ env n header, env.OnlyFrom C → OfChain C header →
    ∃ s' : Live, (registerUnfinalizedBlock header env n s.node).2.2 = s'.node ∧
      C.Contiguous s'.blocks ∧
      ((registerUnfinalizedBlock header env n s.node).1 = .ok none →
        s.finalized.blockHeight < header.blockHeight → s'.blocks.getLast? = some header) ∧
      ∀ forked, (registerUnfinalizedBlock header env n s.node).1 = .ok (some forked) →
        ∃ slot, (∀ last ∈ s.blocks.getLast?, last.blockHeight < slot) ∧ slot < header.blockHeight ∧
          env.PassesOver C slot
  target : ∀ env n header R, env.OnlyFrom C → (∀ h ∈ header, OfChain C h) →
    (processUnfinalizedBlockHeader header env n s.node).1 = .ok (some R) → OfChain C R

theorem NoticesOmissions.of_keeps {hdistinct : C.HashesDistinct} {hdates : HasDates C} {s : Live}
    (h : (piecesOf hdistinct hdates).Keeps s) : NoticesOmissions C s where
  registered env n header henv hheader := by
    obtain ⟨s', hs', -, hreg⟩ := registerUnfinalizedBlock_runs env header s n
    have hkeeps := h.registers (piecesOf_admits henv) ⟨⟩ hheader hreg
    refine ⟨s', hs', hkeeps.memory, fun hnone habove => ?_, fun forked hforked => ?_⟩
    · rw [hnone] at hreg
      exact hreg.last habove
    · rw [hforked] at hreg
      exact henv.registers h.memory.produced hheader hreg
  target env n header R henv hheader hR := by
    obtain ⟨s', -, -, hcalls⟩ := processUnfinalizedBlockHeader_runs env header s n
    rw [hR] at hcalls
    exact h.target henv hheader hcalls

/-- **Nothing is left out of what is tracked, whatever the RPC leaves out.** -/
theorem nothing_is_left_out (hdistinct : C.HashesDistinct) (hdates : HasDates C) {ops : List Op}
    (hops : Permitted Op.next (Op.AnsweredFrom C) ops (State.started State.emptyStore)) :
    let w := runAll Op.next ops (State.started State.emptyStore)
    (∀ l ∈ w.unfinalizedBlocks?, C.Contiguous l) ∧ C.Contiguous w.metadata.decoded ∧
      ∀ s : Live, w = s.node → NoticesOmissions C s := by
  intro w
  have hw : (piecesOf hdistinct hdates).service.Holds w :=
    ServiceInvariant.reached (hops.mono fun _ _ => piecesOf_may)
  exact ⟨hw.list, hw.store, fun s hs => .of_keeps (hw.live s hs).1⟩

namespace MissingAt101

open SkippedAt102 (a b d)

/-- Slot 102 is skipped, and slot 101 is not. -/
def blocks : Branch Header := ⟨[.untimed 99 "z" "y", a, b, d], by decide⟩

/-- Slot 101 is no longer retained. -/
def gap : Env := .steady (.untimed 99 "z" "y") fun
  | 99 => .block ⟨0, 0, "z", 0, "y"⟩
  | 100 => .block ⟨0, 0, "a", 0, "z"⟩
  | 101 => .longTermStorageSlotSkipped
  | 103 => .block ⟨0, 0, "d", 0, "b"⟩
  | _ => .slotSkipped

theorem onlyFrom : gap.OnlyFrom blocks.chain := by
  intro n slot block hblock
  simp only [gap, Env.steady] at hblock
  split at hblock
  · cases hblock
    rfl
  · cases hblock
    rfl
  · cases hblock
  · cases hblock
    rfl
  · cases hblock

theorem hashesDistinct : blocks.chain.HashesDistinct := by
  have hall : ∀ x ∈ blocks.blocks, ∀ y ∈ blocks.blocks, x.blockHash = y.blockHash → x = y := by
    decide
  intro s t x y hx hy
  exact hall x (Branch.mem_of_produced hx) y (Branch.mem_of_produced hy)

theorem hasDates : HasDates blocks.chain := by
  intro slot header h
  have hmem := Branch.mem_of_produced h
  simp only [blocks, List.mem_cons, List.not_mem_nil, or_false] at hmem
  rcases hmem with rfl | rfl | rfl | rfl <;> exact Date.ofTime_valid (by decide) (by decide)

def tracked : Live := ⟨[a], .untimed 99 "z" "y", .value 99, ⟨some [a.toJSON], .undefined⟩⟩

/-- Block `b` is passed over, and so `d` does not fit. -/
theorem nothing_is_left_out_at103 :
    (registerUnfinalizedBlock d gap 0 tracked.node).1 = .ok (some d) ∧
      ∃ slot, 100 < slot ∧ slot < 103 ∧ gap.PassesOver blocks.chain slot := by
  have hops : Permitted Op.next (Op.AnsweredFrom blocks.chain)
      [.init gap [], .process gap (some a)] (State.started State.emptyStore) := by
    refine .cons onlyFrom (.cons ⟨onlyFrom, ?_⟩ .nil)
    rintro _ ⟨⟩
    rfl
  have hnotices := (nothing_is_left_out hashesDistinct hasDates hops).2.2 tracked rfl
  obtain ⟨-, -, -, -, hforked⟩ := hnotices.registered gap 0 d onlyFrom rfl
  obtain ⟨slot, habove, hbelow, hpasses⟩ := hforked d rfl
  exact ⟨rfl, slot, habove a rfl, hbelow, hpasses⟩

end MissingAt101

end SubqlSolana
