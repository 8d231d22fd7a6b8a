import SubqlSolana.Unfinalized.Service

/-!
# The logic of a running service

Once `init` has assigned them, no field of the service is ever unassigned again, so a running service
is a `Live`: the same state with the assertions of the getters discharged. `Runs` is the program logic
of `Lib.Async` over it. It adds the one fact that holds of every piece of code of the service without
a proof of its own: whatever happens at its `await`s, the finalized header changes only to a *higher*
one that the fetch loop registered (`Env.Advance`).

What an `await` may change is therefore written once, as `withFinalized`, and everything the
specifications do not mention is untouched by construction.
-/

set_option autoImplicit false

namespace SubqlSolana

open Lib

/-- The service after `init` assigned its fields. -/
structure Live where
  blocks : List Header
  finalized : Header
  checked : Nullish Nat
  metadata : Metadata
  deriving Repr, DecidableEq

namespace Live

def node (s : Live) : State := ⟨some s.blocks, some s.finalized, s.checked, s.metadata⟩

theorem node_inj {s s' : Live} (h : s.node = s'.node) : s = s' := by
  cases s
  cases s'
  cases h
  rfl

/-- What an `await` may do: finality moves, nothing else does. -/
def withFinalized (s : Live) (finalized : Header) : Live := { s with finalized }

/-- The list is extended, in memory only. -/
def withBlocks (s : Live) (blocks : List Header) : Live := { s with blocks }

/-- The list as it is in memory is written to the store. -/
def saved (s : Live) : Live :=
  { s with metadata := { s.metadata with
      unfinalizedBlocks := some (s.blocks.map Header.toJSON) } }

@[simp] theorem withFinalized_blocks (s : Live) (F : Header) :
    (s.withFinalized F).blocks = s.blocks := rfl
@[simp] theorem withFinalized_finalized (s : Live) (F : Header) :
    (s.withFinalized F).finalized = F := rfl
@[simp] theorem withFinalized_checked (s : Live) (F : Header) :
    (s.withFinalized F).checked = s.checked := rfl
@[simp] theorem withFinalized_metadata (s : Live) (F : Header) :
    (s.withFinalized F).metadata = s.metadata := rfl
@[simp] theorem withFinalized_self (s : Live) : s.withFinalized s.finalized = s := rfl
@[simp] theorem withFinalized_withFinalized (s : Live) (F G : Header) :
    (s.withFinalized F).withFinalized G = s.withFinalized G := rfl

@[simp] theorem withBlocks_blocks (s : Live) (l : List Header) : (s.withBlocks l).blocks = l := rfl
@[simp] theorem withBlocks_finalized (s : Live) (l : List Header) :
    (s.withBlocks l).finalized = s.finalized := rfl
@[simp] theorem withBlocks_checked (s : Live) (l : List Header) :
    (s.withBlocks l).checked = s.checked := rfl
@[simp] theorem withBlocks_metadata (s : Live) (l : List Header) :
    (s.withBlocks l).metadata = s.metadata := rfl
@[simp] theorem withBlocks_self (s : Live) : s.withBlocks s.blocks = s := rfl
@[simp] theorem withBlocks_withBlocks (s : Live) (l l' : List Header) :
    (s.withBlocks l).withBlocks l' = s.withBlocks l' := rfl
@[simp] theorem withFinalized_withBlocks (s : Live) (F : Header) (l : List Header) :
    (s.withFinalized F).withBlocks l = (s.withBlocks l).withFinalized F := rfl

@[simp] theorem saved_blocks (s : Live) : s.saved.blocks = s.blocks := rfl
@[simp] theorem saved_finalized (s : Live) : s.saved.finalized = s.finalized := rfl
@[simp] theorem saved_checked (s : Live) : s.saved.checked = s.checked := rfl
@[simp] theorem saved_metadata (s : Live) : s.saved.metadata =
    { s.metadata with unfinalizedBlocks := some (s.blocks.map Header.toJSON) } := rfl

end Live

/-! ## What happens at an `await` -/

/-- Finality between two points of a call: the header is the same, or a higher one was registered. -/
inductive Env.Advance (env : Env) (F : Header) : Header → Prop where
  | same : env.Advance F F
  | moved {F' : Header} {n : Nat} (hmem : F' ∈ env.finality n)
      (hlt : F.blockHeight < F'.blockHeight) : env.Advance F F'

theorem Env.Advance.le {env : Env} {F F' : Header} (h : env.Advance F F') :
    F.blockHeight ≤ F'.blockHeight := by
  cases h with
  | same => exact Nat.le_refl _
  | moved _ hlt => exact Nat.le_of_lt hlt

theorem Env.Advance.trans {env : Env} {F F' F'' : Header} (h : env.Advance F F')
    (h' : env.Advance F' F'') : env.Advance F F'' := by
  cases h' with
  | same => exact h
  | moved hmem hlt => exact .moved hmem (Nat.lt_of_le_of_lt h.le hlt)

/-- Calls run one at a time: nothing is registered while one is under way. -/
def Env.Sequential (env : Env) : Prop := ∀ n, env.finality n = []

theorem Env.Sequential.advance {env : Env} (h : env.Sequential) {F F' : Header}
    (hadv : env.Advance F F') : F' = F := by
  cases hadv with
  | same => rfl
  | moved hmem _ =>
    rw [h] at hmem
    cases hmem

theorem Live.registerFinalizedBlock_cases (s : Live) (header : Header) :
    s.node.registerFinalizedBlock header = s.node ∨
      s.finalized.blockHeight < header.blockHeight ∧
        s.node.registerFinalizedBlock header = (s.withFinalized header).node := by
  by_cases hle : s.finalized.blockHeight ≥ header.blockHeight
  · apply Or.inl
    simp only [State.registerFinalizedBlock, Live.node, if_pos hle]
  · refine .inr ⟨by omega, ?_⟩
    simp only [State.registerFinalizedBlock, Live.node, if_neg hle, Live.withFinalized]

/-- Before `init`, a registration is ignored. -/
theorem State.registerFinalizedBlock_of_none {w : State} (h : w.finalizedHeader? = none)
    (header : Header) : w.registerFinalizedBlock header = w := by
  unfold State.registerFinalizedBlock
  rw [h]

/-- The registrations made during one `await` end in one header. -/
theorem foldl_registerFinalizedBlock (headers : List Header) (s : Live) :
    ∃ F, headers.foldl (fun w header => w.registerFinalizedBlock header) s.node =
        (s.withFinalized F).node ∧
      (F = s.finalized ∨ F ∈ headers ∧ s.finalized.blockHeight < F.blockHeight) := by
  induction headers generalizing s with
  | nil => exact ⟨s.finalized, rfl, .inl rfl⟩
  | cons header headers ih =>
    rw [List.foldl_cons]
    rcases s.registerFinalizedBlock_cases header with hkeep | ⟨hlt, hset⟩
    · rw [hkeep]
      obtain ⟨F, hF, hF'⟩ := ih s
      refine ⟨F, hF, hF'.imp_right fun h => ⟨?_, h.2⟩⟩
      exact List.mem_cons_of_mem _ h.1
    · rw [hset]
      obtain ⟨F, hF, hF'⟩ := ih (s.withFinalized header)
      refine ⟨F, hF, .inr ?_⟩
      rcases hF' with rfl | ⟨hmem, hlt'⟩
      · exact ⟨List.mem_cons_self, hlt⟩
      · exact ⟨List.mem_cons_of_mem _ hmem, Nat.lt_trans hlt hlt'⟩

/-! ## Triples -/

/-- Run from the running service `s`, `m` leaves a running service, with an outcome that `Q` accepts. -/
def Runs {α : Type} (env : Env) (s : Live) (m : Service α) (Q : Outcome Failure α → Live → Prop) :
    Prop :=
  Async.Sat env s.node m fun o w =>
    ∃ s' : Live, w = s'.node ∧ env.Advance s.finalized s'.finalized ∧ Q o s'

namespace Runs

variable {α β : Type} {env : Env} {s : Live} {m : Service α} {Q R : Outcome Failure α → Live → Prop}

/-- The way back to a concrete run. -/
theorem elim (h : Runs env s m Q) {n n' : Nat} {o : Outcome Failure α} {w : State}
    (hrun : m env n s.node = (o, n', w)) :
    ∃ s' : Live, w = s'.node ∧ env.Advance s.finalized s'.finalized ∧ Q o s' :=
  Async.Sat.of_run h hrun

theorem mono (h : Runs env s m Q) (himp : ∀ o s', Q o s' → R o s') : Runs env s m R :=
  Async.Sat.mono h fun _ _ ⟨s', hw, hadv, hQ⟩ => ⟨s', hw, hadv, himp _ _ hQ⟩

/-- Where finality stands at the end is part of what every run establishes. -/
theorem advance (h : Runs env s m Q) :
    Runs env s m fun o s' => env.Advance s.finalized s'.finalized ∧ Q o s' :=
  Async.Sat.mono h fun _ _ ⟨s', hw, hadv, hQ⟩ => ⟨s', hw, hadv, hadv, hQ⟩

theorem pure {a : α} (h : Q (.ok a) s) : Runs env s (Pure.pure a) Q :=
  Async.Sat.pure ⟨s, rfl, .same, h⟩

theorem throw {e : Failure} (h : Q (.fail e) s) : Runs env s (MonadExcept.throw e) Q :=
  Async.Sat.throw ⟨s, rfl, .same, h⟩

theorem bind {f : α → Service β} {Q : Outcome Failure β → Live → Prop} (hm : Runs env s m R)
    (hok : ∀ a s', R (.ok a) s' → Runs env s' (f a) Q)
    (hfail : ∀ e s', R (.fail e) s' → Q (.fail e) s') : Runs env s (m >>= f) Q := by
  refine Async.Sat.bind hm ?_ ?_
  · rintro a w ⟨s', rfl, hadv, hR⟩
    refine Async.Sat.mono (hok a s' hR) ?_
    rintro o w ⟨s'', rfl, hadv', hQ⟩
    exact ⟨s'', rfl, hadv.trans hadv', hQ⟩
  · rintro e w ⟨s', rfl, hadv, hR⟩
    exact ⟨s', rfl, hadv, hfail e s' hR⟩

theorem tryCatch {handler : Failure → Service α} (hm : Runs env s m R)
    (hok : ∀ a s', R (.ok a) s' → Q (.ok a) s')
    (hfail : ∀ e s', R (.fail e) s' → Runs env s' (handler e) Q) :
    Runs env s (MonadExcept.tryCatch m handler) Q := by
  refine Async.Sat.tryCatch hm ?_ ?_
  · rintro a w ⟨s', rfl, hadv, hR⟩
    exact ⟨s', rfl, hadv, hok a s' hR⟩
  · rintro e w ⟨s', rfl, hadv, hR⟩
    refine Async.Sat.mono (hfail e s' hR) ?_
    rintro o w ⟨s'', rfl, hadv', hQ⟩
    exact ⟨s'', rfl, hadv.trans hadv', hQ⟩

/-- The getters run on a running service without failing. -/
theorem unfinalizedBlocks {f : List Header → Service α} (h : Runs env s (f s.blocks) Q) :
    Runs env s (SubqlSolana.unfinalizedBlocks >>= f) Q := h

theorem finalizedHeader {f : Header → Service α} (h : Runs env s (f s.finalized) Q) :
    Runs env s (SubqlSolana.finalizedHeader >>= f) Q := h

theorem finalizedBlockNumber {f : Nat → Service α} (h : Runs env s (f s.finalized.blockHeight) Q) :
    Runs env s (SubqlSolana.finalizedBlockNumber >>= f) Q := h

theorem read {f : State → Service α} (h : Runs env s (f s.node) Q) :
    Runs env s (Async.read >>= f) Q := h

/-- An assignment that keeps the finalized header. -/
theorem update {g : State → State} (s' : Live) {Q : Outcome Failure Unit → Live → Prop}
    (hg : g s.node = s'.node) (hfin : s'.finalized = s.finalized) (h : Q (.ok ()) s') :
    Runs env s (Async.update g) Q :=
  Async.Sat.update ⟨s', hg, hfin ▸ .same, h⟩

theorem reply {ask : Env → Nat → α} (h : ∀ n, Q (.ok (ask env n)) s) :
    Runs env s (Async.reply ask) Q :=
  Async.Sat.reply fun n => ⟨s, rfl, .same, h n⟩

theorem yield {Q : Outcome Failure Unit → Live → Prop}
    (hok : ∀ F, env.Advance s.finalized F → Q (.ok ()) (s.withFinalized F))
    (hlost : ∀ n, env.crash n = true → Q (.fail .crash) s) : Runs env s Async.yield Q := by
  refine Async.Sat.yield ?_ ?_
  · intro n _
    obtain ⟨F, hF, hF'⟩ := foldl_registerFinalizedBlock (env.finality n) s
    have hadv : env.Advance s.finalized F := by
      rcases hF' with rfl | ⟨hmem, hlt⟩
      · exact .same
      · exact .moved hmem hlt
    exact ⟨s.withFinalized F, hF, hadv, hok F hadv⟩
  · intro n e he
    simp only [EventLoop.lost] at he
    split at he
    · rename_i hcrash
      cases he
      exact ⟨s, rfl, .same, hlost n hcrash⟩
    · cases he

end Runs

/-- What is true when the caller of an awaited function is resumed, given what was true when the
function ended. -/
inductive Awaited {α : Type} (env : Env) (Q : Outcome Failure α → Live → Prop) :
    Outcome Failure α → Live → Prop where
  | resumed {a : α} {s : Live} {F : Header} (h : Q (.ok a) s) (hadv : env.Advance s.finalized F) :
      Awaited env Q (.ok a) (s.withFinalized F)
  | failed {e : Failure} {s : Live} (h : Q (.fail e) s) : Awaited env Q (.fail e) s
  | lost {a : α} {s : Live} {n : Nat} (h : Q (.ok a) s) (hcrash : env.crash n = true) :
      Awaited env Q (.fail .crash) s

theorem Runs.awaits {α : Type} {env : Env} {s : Live} {m : Service α}
    {Q : Outcome Failure α → Live → Prop} (hm : Runs env s m Q) :
    Runs env s (Async.awaits m) (Awaited env Q) := by
  refine hm.bind ?_ fun e s' h => .failed h
  intro a s' hQ
  refine Runs.bind (R := fun o s'' => (o = .ok () ∧ ∃ F, env.Advance s'.finalized F ∧
      s'' = s'.withFinalized F) ∨ (o = .fail .crash ∧ s'' = s' ∧ ∃ n, env.crash n = true))
    (Runs.yield (fun F hadv => .inl ⟨rfl, F, hadv, rfl⟩) fun n hn => .inr ⟨rfl, rfl, n, hn⟩) ?_ ?_
  · rintro - s'' (⟨-, F, hadv, rfl⟩ | ⟨⟨⟩, -⟩)
    exact Runs.pure (.resumed hQ hadv)
  · rintro e s'' (⟨⟨⟩, -⟩ | ⟨⟨⟩, rfl, n, hn⟩)
    exact .lost hQ hn

end SubqlSolana
