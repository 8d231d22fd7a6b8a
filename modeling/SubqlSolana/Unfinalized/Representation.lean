import SubqlSolana.Unfinalized.ListInvariant

/-!
# The tracked list is a branch

Against an RPC that may answer anything at any time, with finality moving and the process dying at any
`await`, the list in memory and the list the store decodes to are always branches: heights increase,
and every header is the child of the one before it. A header that would break that is never appended,
and `Disposition` says what becomes of it instead.
-/

set_option autoImplicit false

namespace SubqlSolana

open Lib

/-- To be a branch, with nothing assumed of any header. -/
def branches : ListInvariant where
  holds l := l.IsChain Linked
  header _ := True
  finalized _ := True
  nil := .nil
  above n h := (Branch.above ⟨_, h⟩ n).linked
  revive h := by
    rw [List.map_map, List.isChain_map]
    exact h.imp fun _ _ hlinked => hlinked
  first _ _ _ := .singleton _
  push hl hlast hlinked _ := by
    refine isChain_append_singleton.mpr ⟨hl, fun last hmem => ?_⟩
    obtain rfl := Option.some.inj (hlast.symm.trans hmem)
    exact hlinked

theorem branches_admits (env : Env) : branches.Admits env := ⟨fun _ => ⟨⟩, fun _ => ⟨⟩, fun _ => ⟨⟩⟩

/-- Both lists of every state that is reached are branches. -/
theorem branches_reached (ops : List Op) :
    branches.service.Holds (runAll Op.next ops (State.started State.emptyStore)) := by
  refine runAll_invariant (fun op w h => h.next ?_) ops branches.service.started
  cases op with
  | init env _ => exact ⟨branches_admits env, ⟨⟩⟩
  | process env _ => exact ⟨branches_admits env, fun _ _ _ _ => ⟨⟩⟩
  | reset env _ => exact branches_admits env
  | registerFinalizedBlock | crash => exact ⟨⟩

/-! ## What becomes of a header -/

/-- What `registerUnfinalizedBlock` may do with a header, given the list `l` and the finalized height:
the outcome, and the list it leaves. The headers `t` are those of the gap. -/
inductive Disposition (env : Env) (finalized : Nat) (l : List Header) (header : Header) :
    Outcome Failure (Option Header) → List Header → Prop where
  | appended {t : List Header} {o : Outcome Failure (Option Header)}
      (hlinked : (l ++ t ++ [header]).IsChain Linked)
      (ho : o = .ok none ∨ o = .fail .crash) : Disposition env finalized l header o (l ++ t ++ [header])
  | ignored (h : header.blockHeight ≤ finalized) : Disposition env finalized l header (.ok none) l
  /-- A fork is reported at the header, or at the one of the gap, that does not fit. -/
  | reported {t : List Header} {forked : Header}
      (hbreaks : ¬(l ++ t ++ [forked]).IsChain Linked) :
      Disposition env finalized l header (.ok (some forked)) (l ++ t)
  | stopped {message : String} (hbreaks : ¬(l ++ [header]).IsChain Linked) :
      Disposition env finalized l header (.fail (.exit message)) l
  /-- The gap could not be filled: the RPC threw, or the process is gone. -/
  | unanswered {t : List Header} {slot : Nat} {e : Failure} (h : env.Reply slot (.fail e)) :
      Disposition env finalized l header (.fail e) (l ++ t)

theorem not_isChain_of_parentHash {l : List Header} {header last : Header}
    (hlast : l.getLast? = some last) (hne : header.parentHash ≠ last.blockHash) :
    ¬(l ++ [header]).IsChain Linked := fun h =>
  hne (linked_iff.mp ((isChain_append_singleton.mp h).2 last hlast)).2

/-- Why a backfill stops early. -/
theorem Env.Backfills.stops {env : Env} {remaining height : Nat} {l l' : List Header}
    {o : Outcome Failure (Option Header)} (h : env.Backfills remaining height l o l') :
    (∀ forked, o = .ok (some forked) → ¬(l' ++ [forked]).IsChain Linked) ∧
      ∀ e, o = .fail e → ∃ slot, env.Reply slot (.fail e) := by
  induction h with
  | done => exact ⟨fun _ h => (by cases h), fun _ h => (by cases h)⟩
  | skipped _ _ ih | pushed _ _ _ ih => exact ih
  | forked _ hlast hne =>
    refine ⟨fun _ h => ?_, fun _ h => (by cases h)⟩
    cases h
    exact not_isChain_of_parentHash hlast hne
  | failed hreply _ =>
    refine ⟨fun _ h => (by cases h), fun _ h => ?_⟩
    cases h
    exact ⟨_, hreply⟩

theorem Env.Fills.stops {env : Env} {l l' : List Header} {header : Header}
    {o : Outcome Failure (Option Header)} (h : env.Fills l header o l') :
    (∀ forked, o = .ok (some forked) → ¬(l' ++ [forked]).IsChain Linked) ∧
      ∀ e, o = .fail e → ∃ slot, env.Reply slot (.fail e) := by
  cases h with
  | untracked => exact ⟨fun _ h => (by cases h), fun _ h => (by cases h)⟩
  | gap _ _ hfill => exact hfill.stops
  | lost _ _ _ hcrash =>
    refine ⟨fun _ h => (by cases h), fun _ h => ?_⟩
    cases h
    exact ⟨0, .lost hcrash⟩

/-- Every way of registering a header is one of the dispositions. -/
theorem Env.Registers.disposition {env : Env} {s s' : Live} {header : Header}
    {o : Outcome Failure (Option Header)} (h : env.Registers s header o s')
    (hs : s.blocks.IsChain Linked) :
    Disposition env s.finalized.blockHeight s.blocks header o s'.blocks := by
  cases h with
  | ignored h => exact .ignored h
  | @notSequential last _ hlast hle =>
    refine .stopped fun hchain => ?_
    have := (linked_iff.mp ((isChain_append_singleton.mp hchain).2 last hlast)).1
    omega
  | @gapFailed e l _ _ hfill =>
    obtain ⟨-, -, t, rfl⟩ := branches.fills (branches_admits env) hfill hs
    obtain ⟨slot, hreply⟩ := hfill.stops.2 e rfl
    exact .unanswered hreply
  | @gapForked forked l _ _ hfill =>
    obtain ⟨-, -, t, rfl⟩ := branches.fills (branches_admits env) hfill hs
    exact .reported (hfill.stops.1 forked rfl)
  | @forked last l _ _ hfill hlast hne =>
    obtain ⟨-, -, t, rfl⟩ := branches.fills (branches_admits env) hfill hs
    exact .reported (not_isChain_of_parentHash hlast hne)
  | @appended _ l _ _ hfill hlink ho =>
    obtain ⟨hl, hlast, t, rfl⟩ := branches.fills (branches_admits env) hfill hs
    refine .appended (isChain_append_singleton.mpr ⟨hl, fun last hmem => ?_⟩) (ho.imp_right And.left)
    exact linked_iff.mpr ⟨hlast last hmem, hlink last hmem⟩

/-- **In every reachable state the tracked list and the stored one are branches**, and a header that
does not continue the branch is ignored, reported or stops the process, and is not appended. -/
theorem tracked_lists_are_branches (ops : List Op) :
    let w := runAll Op.next ops (State.started State.emptyStore)
    (∀ l ∈ w.unfinalizedBlocks?, l.IsChain Linked) ∧ w.metadata.decoded.IsChain Linked ∧
      ∀ (s : Live) (env : Env) (n : Nat) (header : Header), w = s.node →
        ∃ s' : Live, (registerUnfinalizedBlock header env n w).2.2 = s'.node ∧
          Disposition env s.finalized.blockHeight s.blocks header
            (registerUnfinalizedBlock header env n w).1 s'.blocks := by
  intro w
  have hw : branches.service.Holds w := branches_reached ops
  refine ⟨hw.list, hw.store, ?_⟩
  intro s env n header hnode
  rw [hnode]
  obtain ⟨s', hs', -, h⟩ := registerUnfinalizedBlock_runs env header s n
  exact ⟨s', hs', h.disposition (hw.live s hnode).1.memory⟩

/-- Slot 6 is tracked, and slot 7 comes with another parent. -/
theorem tracked_lists_are_branches_mismatch :
    let env := Env.steady (.untimed 5 "e" "d") fun _ => .slotSkipped
    let s : Live := ⟨[.untimed 6 "f" "e"], .untimed 5 "e" "d", .value 5,
      ⟨some [(Header.untimed 6 "f" "e").toJSON], .undefined⟩⟩
    ∃ s' : Live, (registerUnfinalizedBlock (.untimed 7 "g" "x") env 0 s.node).2.2 = s'.node ∧
      Disposition env 5 s.blocks (.untimed 7 "g" "x")
        (registerUnfinalizedBlock (.untimed 7 "g" "x") env 0 s.node).1 s'.blocks := by
  intro env s
  exact (tracked_lists_are_branches
    [.init env [], .process env (some (.untimed 6 "f" "e"))]).2.2 s env 0 (.untimed 7 "g" "x") rfl

end SubqlSolana
