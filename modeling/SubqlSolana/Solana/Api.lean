import SubqlSolana.Solana.Header

/-!
# Fetching a header

`solana/api.solana.ts`, the header requests. The RPC throws for a slot without a block; whether the
error means *skipped* or *failed* is decided here, and everything above sees only three answers: a
header, `BlockUnavailableError`, or another error.
-/

set_option autoImplicit false

namespace SubqlSolana

/-- Why a call did not return. The first two are JavaScript exceptions; after the last two there is no
process left to catch anything. -/
inductive Failure where
  /-- `BlockUnavailableError`. -/
  | blockUnavailable
  | error (message : String)
  /-- `exitWithError`. -/
  | exit (message : String)
  /-- The process died at an `await`. -/
  | crash
  deriving Repr, DecidableEq

/-- The client's answer to `getBlock`, with as much of a block as was asked for. -/
inductive GetBlockReply (B : Type) where
  | block (block : B)
  | null
  /-- `SOLANA_ERROR__JSON_RPC__SERVER_ERROR_SLOT_SKIPPED`. -/
  | slotSkipped
  /-- `SOLANA_ERROR__JSON_RPC__SERVER_ERROR_LONG_TERM_STORAGE_SLOT_SKIPPED`. -/
  | longTermStorageSlotSkipped
  | error (message : String)
  deriving Repr, DecidableEq

/-- A genuine skip and an archival gap look the same once a slot is out of local retention; the second
is taken for a skip unless that is switched off. -/
def isSkippedSlotError {B : Type} (treatLongTermStorageSkipAsSkipped : Bool) :
    GetBlockReply B → Bool
  | .slotSkipped => true
  | .longTermStorageSlotSkipped => treatLongTermStorageSkipAsSkipped
  | _ => false

def longTermStorageMessage : String := "Slot was skipped, or missing in long-term storage"

/-- `SolanaApi.getHeaderByHeight`, on the reply to its one request. -/
def getHeaderByHeight (treatLongTermStorageSkipAsSkipped : Bool) (slot : Nat)
    (reply : GetBlockReply BaseSolanaBlock) : Except Failure Header :=
  if isSkippedSlotError treatLongTermStorageSkipAsSkipped reply then .error .blockUnavailable
  else
    match reply with
    | .block block => .ok (solanaBlockToHeader block (some slot))
    | .error message => .error (.error message)
    | .longTermStorageSlotSkipped => .error (.error longTermStorageMessage)
    -- no block for that slot
    | _ => .error .blockUnavailable

/-- A header is made of a block, for the slot that was asked for. -/
theorem block_of_getHeaderByHeight {treat : Bool} {slot : Nat}
    {reply : GetBlockReply BaseSolanaBlock} {header : Header}
    (h : getHeaderByHeight treat slot reply = .ok header) :
    ∃ block, reply = .block block ∧ header = solanaBlockToHeader block (some slot) := by
  unfold getHeaderByHeight at h
  split at h
  · cases h
  · split at h <;> cases h
    exact ⟨_, rfl, rfl⟩

theorem blockHeight_of_getHeaderByHeight {treat : Bool} {slot : Nat}
    {reply : GetBlockReply BaseSolanaBlock} {header : Header}
    (h : getHeaderByHeight treat slot reply = .ok header) : header.blockHeight = slot := by
  obtain ⟨block, -, rfl⟩ := block_of_getHeaderByHeight h
  rfl

end SubqlSolana
