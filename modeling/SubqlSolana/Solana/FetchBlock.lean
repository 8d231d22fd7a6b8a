import SubqlSolana.Lib.Fallible
import SubqlSolana.Solana.Api
import SubqlSolana.Solana.Block

/-!
# Fetching a block

`SolanaApi.fetchBlock` (`solana/api.solana.ts`) knows the slot it asked for and puts it into the
header. A worker (`indexer/worker/worker.service.ts`) is given the block without its header later on,
and remembers the slot of every block object that it has fetched. The objects are told apart by
identity, so a `WeakMap` of them is a function of addresses.
-/

set_option autoImplicit false

namespace SubqlSolana

open Lib

/-- The header is made when it is asked for; nothing that it is made of changes in between. -/
def formatBlockUtil (block : SolanaBlock) (slot : Option Nat) : IBlock SolanaBlock where
  block := block
  getHeader := solanaBlockToHeader block.toBaseSolanaBlock slot

/-- `SolanaApi.fetchBlock`, on the reply to its one request. An error is passed on; the text of one that
tells of rate limits is another. -/
def fetchBlock (treatLongTermStorageSkipAsSkipped : Bool) (blockNumber : Nat)
    (reply : GetBlockReply RawSolanaBlock) : Except Failure (IBlock SolanaBlock) :=
  if isSkippedSlotError treatLongTermStorageSkipAsSkipped reply then .error .blockUnavailable
  else
    match reply with
    | .block rawBlock =>
      match transformBlock rawBlock with
      | .ok block => .ok (formatBlockUtil block (some blockNumber))
      | .error message => .error (.error message)
    | .error message => .error (.error message)
    | .longTermStorageSlotSkipped => .error (.error longTermStorageMessage)
    -- no block for that slot
    | _ => .error .blockUnavailable

theorem toBaseSolanaBlock_of_transformBlock {raw : RawSolanaBlock} {block : SolanaBlock}
    (h : transformBlock raw = .ok block) : block.toBaseSolanaBlock = raw.toBaseSolanaBlock := by
  obtain ⟨transactions, -, hblock⟩ := bind_eq_ok.mp h
  cases hblock
  rfl

theorem fetchBlock_eq_ok {treat : Bool} {slot : Nat} {raw : RawSolanaBlock}
    {fetched : IBlock SolanaBlock} (h : fetchBlock treat slot (.block raw) = .ok fetched) :
    ∃ block, transformBlock raw = .ok block ∧ fetched = formatBlockUtil block (some slot) := by
  simp only [fetchBlock, isSkippedSlotError, Bool.false_eq_true, if_false] at h
  cases hblock : transformBlock raw with
  | error message =>
    rw [hblock] at h
    cases h
  | ok block =>
    rw [hblock] at h
    cases h
    exact ⟨block, rfl, rfl⟩

theorem getHeader_of_fetchBlock {treat : Bool} {slot : Nat} {raw : RawSolanaBlock}
    {fetched : IBlock SolanaBlock} (h : fetchBlock treat slot (.block raw) = .ok fetched) :
    fetched.getHeader = solanaBlockToHeader raw.toBaseSolanaBlock (some slot) := by
  obtain ⟨block, hblock, rfl⟩ := fetchBlock_eq_ok h
  exact congrArg (solanaBlockToHeader · _) (toBaseSolanaBlock_of_transformBlock hblock)

/-! ## Workers -/

/-- An object and where it is. -/
structure Ref (B : Type) where
  address : Nat
  value : B

/-- The objects a worker has made so far, and the slots it remembers for them. -/
structure WorkerService where
  allocated : Nat
  blockSlots : Nat → Option Nat

/-- `fetchChainBlock`: the block is a new object. -/
def WorkerService.fetchChainBlock (worker : WorkerService) (heights : Nat)
    (fetched : IBlock SolanaBlock) : Ref SolanaBlock × WorkerService :=
  (⟨worker.allocated, fetched.block⟩,
    { allocated := worker.allocated + 1
      blockSlots := fun address =>
        if address = worker.allocated then some heights else worker.blockSlots address })

def WorkerService.toBlockResponse (worker : WorkerService) (block : Ref SolanaBlock) : Header :=
  solanaBlockToHeader block.value.toBaseSolanaBlock (worker.blockSlots block.address)

/-- The same worker, some fetches later. -/
inductive WorkerService.Later : WorkerService → WorkerService → Prop where
  | refl (worker : WorkerService) : Later worker worker
  | fetch {worker later : WorkerService} (heights : Nat) (fetched : IBlock SolanaBlock)
    (h : Later worker later) : Later worker (later.fetchChainBlock heights fetched).2

theorem WorkerService.Later.frame {worker later : WorkerService} (h : Later worker later) :
    worker.allocated ≤ later.allocated ∧
    ∀ address < worker.allocated, later.blockSlots address = worker.blockSlots address := by
  induction h with
  | refl => exact ⟨le_refl _, fun _ _ => rfl⟩
  | @fetch later heights fetched h ih =>
    refine ⟨Nat.le_succ_of_le ih.1, fun address hlt => ?_⟩
    have hne : address ≠ later.allocated := by have := ih.1; omega
    exact (if_neg hne).trans (ih.2 address hlt)

/-- **A worker answers with the header of the block**, whatever it has fetched since. -/
theorem toBlockResponse_eq_getHeader {treat : Bool} {slot : Nat} {raw : RawSolanaBlock}
    {fetched : IBlock SolanaBlock} (h : fetchBlock treat slot (.block raw) = .ok fetched)
    (worker : WorkerService) {later : WorkerService}
    (hlater : WorkerService.Later (worker.fetchChainBlock slot fetched).2 later) :
    later.toBlockResponse (worker.fetchChainBlock slot fetched).1 = fetched.getHeader := by
  obtain ⟨block, -, rfl⟩ := fetchBlock_eq_ok h
  have hslot : later.blockSlots worker.allocated = some slot :=
    (hlater.frame.2 worker.allocated (Nat.lt_succ_self _)).trans (if_pos rfl)
  exact congrArg (solanaBlockToHeader block.toBaseSolanaBlock) hslot

end SubqlSolana
