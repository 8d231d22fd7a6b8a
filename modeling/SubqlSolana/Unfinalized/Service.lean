import SubqlSolana.Lib.Async
import SubqlSolana.Lib.Nullish
import SubqlSolana.Solana.Api

/-!
# `UnfinalizedBlocksService`

`indexer/unfinalizedBlocks.service.ts`, function by function and under its names.

The service keeps the headers of the indexed blocks that are not final yet, checks them against the
finalized chain whenever finality has moved, and reports the header to rewind to when a block it
tracked turns out to be on a fork. It is called by one caller at a time, except for
`registerFinalizedBlock`, which the fetch loop calls on its own: that one runs *inside* another call,
at any of its `await`s, and is what `others` does below.

Heights are `Nat`. A slot is a `u64`, so the request for slot `-1` that a loop over parents makes after
slot `0` comes back as an error (`requestBelowZero`), with a text of the RPC's own.
-/

set_option autoImplicit false

namespace SubqlSolana

open Lib

/-! ## State -/

/-- The two records the service keeps in the metadata store. -/
structure Metadata where
  /-- Under `unfinalizedBlocks`: the parsed JSON text, `none` before the first write. -/
  unfinalizedBlocks : Option (List StoredHeader)
  /-- Under `lastFinalizedVerifiedHeight`. -/
  lastFinalizedVerifiedHeight : Nullish Nat
  deriving Repr, DecidableEq

/-- The fields of the service, `none` before `init` assigns them, and the store. -/
structure State where
  unfinalizedBlocks? : Option (List Header)
  finalizedHeader? : Option Header
  lastCheckedBlockHeight : Nullish Nat
  metadata : Metadata
  deriving Repr, DecidableEq

namespace State

/-- A service that has just been constructed over a store. -/
def started (metadata : Metadata) : State := ⟨none, none, .undefined, metadata⟩

def emptyStore : Metadata := ⟨none, .undefined⟩

/-- What is left of a process that died: the store, read by the next one. -/
def restarted (s : State) : State := started s.metadata

/-- `registerFinalizedBlock`. Before `init` the getter's assertion throws to the fetch loop. -/
def registerFinalizedBlock (header : Header) (s : State) : State :=
  match s.finalizedHeader? with
  | none => s
  | some finalized =>
    if finalized.blockHeight ≥ header.blockHeight then s
    else { s with finalizedHeader? := some header }

end State

/-- Everything a call meets from outside, indexed by the number of `await`s it has passed. -/
structure Env where
  /-- The RPC's reply to `getBlock` for a slot. -/
  getBlock : Nat → Nat → GetBlockReply BaseSolanaBlock
  /-- Its error for slot `-1`. -/
  negativeSlot : Nat → String
  treatLongTermStorageSkipAsSkipped : Bool
  /-- The answer of `getFinalizedHeader`. -/
  getFinalizedHeader : Nat → Except String Header
  /-- The `registerFinalizedBlock` calls that run while the `await` is pending. -/
  finality : Nat → List Header
  /-- Whether the process dies while the `await` is pending. -/
  crash : Nat → Bool

/-- The answer to `getHeaderForHeight`. -/
def Env.headerReply (env : Env) (n slot : Nat) : Except Failure Header :=
  getHeaderByHeight env.treatLongTermStorageSkipAsSkipped slot (env.getBlock n slot)

instance : EventLoop Env State Failure where
  lost env n := if env.crash n then some .crash else none
  others env n s := (env.finality n).foldl (fun s header => s.registerFinalizedBlock header) s

abbrev Service (α : Type) : Type := Async Env State Failure α

/-! ## Getters -/

def notInitialized : String := "Unfinalized blocks service has not been initialized"

def unfinalizedBlocks : Service (List Header) := do
  match (← Async.read).unfinalizedBlocks? with
  | some blocks => pure blocks
  | none => throw (.error notInitialized)

def finalizedHeader : Service Header := do
  match (← Async.read).finalizedHeader? with
  | some header => pure header
  | none => throw (.error notInitialized)

def finalizedBlockNumber : Service Nat := do
  pure (← finalizedHeader).blockHeight

def setUnfinalizedBlocks (blocks : List Header) : Service Unit :=
  Async.update fun s => { s with unfinalizedBlocks? := some blocks }

/-- `this.unfinalizedBlocks.push(header)`. -/
def pushUnfinalizedBlock (header : Header) : Service Unit := do
  setUnfinalizedBlocks ((← unfinalizedBlocks) ++ [header])

/-! ## The store -/

def saveUnfinalizedBlocks (blocks : List Header) : Service Unit :=
  Async.update fun s =>
    { s with metadata := { s.metadata with unfinalizedBlocks := some (blocks.map Header.toJSON) } }

def saveLastFinalizedVerifiedHeight (height : Nat) : Service Unit :=
  Async.update fun s =>
    { s with metadata := { s.metadata with lastFinalizedVerifiedHeight := .value height } }

/-- The store first, the field after it. -/
def resetUnfinalizedBlocks : Service Unit := do
  Async.awaits (saveUnfinalizedBlocks [])
  setUnfinalizedBlocks []

def resetLastFinalizedVerifiedHeight : Service Unit :=
  Async.update fun s =>
    { s with metadata := { s.metadata with lastFinalizedVerifiedHeight := .null } }

/-- The list a metadata record decodes to. -/
def Metadata.decoded (metadata : Metadata) : List Header :=
  (metadata.unfinalizedBlocks.getD []).map StoredHeader.revive

def getMetadataUnfinalizedBlocks : Service (List Header) :=
  Async.awaits do pure (← Async.read).metadata.decoded

def getLastFinalizedVerifiedHeight : Service (Nullish Nat) := do
  pure (← Async.read).metadata.lastFinalizedVerifiedHeight

/-! ## Requests -/

def getHeaderForHeight (slot : Nat) : Service Header := do
  match ← Async.awaits (Async.reply fun env n => env.headerReply n slot) with
  | .ok header => pure header
  | .error e => throw e

/-- `getHeaderForHeight(-1)`. -/
def requestBelowZero {α : Type} : Service α := do
  let message ← Async.awaits (Async.reply fun env n => env.negativeSlot n)
  throw (.error message)

/-- `header.blockHeight - 1`, as the slot of the next request. -/
def previousSlot : Nat → Service Nat
  | 0 => requestBelowZero
  | height + 1 => pure height

/-- The block of the slot, or of the nearest produced slot below it. -/
def getParentHeaderByHeight : Nat → Service Header
  | 0 =>
    try getHeaderForHeight 0
    catch
      | .blockUnavailable => requestBelowZero
      | e => throw e
  | height + 1 =>
    try getHeaderForHeight (height + 1)
    catch
      | .blockUnavailable => getParentHeaderByHeight height
      | e => throw e

/-- `assert(header.parentHash, message)`: an empty string is falsy too. -/
def assertParentHash (header : Header) (message : String) : Service Unit :=
  if header.parentHash = "" then throw (.error message) else pure ()

/-- Both loops over parents step down like this: Solana has no lookup by hash. -/
def stepToParent (header : Header) (message : String) : Service Header := do
  assertParentHash header message
  let slot ← previousSlot header.blockHeight
  Async.awaits (getParentHeaderByHeight slot)

/-! ## Registering a block -/

/-- The slots `height, …, height + remaining - 1` of the gap. -/
def backfillLoop : Nat → Nat → Service (Option Header)
  | 0, _ => pure none
  | remaining + 1, height => do
    let header? ←
      try
        let header ← getHeaderForHeight height
        pure (some header)
      catch
        | .blockUnavailable => pure none
        | e => throw e
    match header? with
    | none => backfillLoop remaining (height + 1)
    | some header =>
      let previousHeader := (← unfinalizedBlocks).getLast?
      if previousHeader.any fun previous => header.parentHash != previous.blockHash then
        pure (some header)
      else
        pushUnfinalizedBlock header
        backfillLoop remaining (height + 1)

def backfillSkippedSlots (startHeight endHeight : Nat) : Service (Option Header) :=
  backfillLoop (endHeight + 1 - startHeight) startHeight

def notSequential (lastUnfinalizedHeight height : Nat) : String :=
  s!"Unfinalized block is not sequential, lastUnfinalizedBlock='{lastUnfinalizedHeight}', newUnfinalizedBlock='{height}'"

/-- The two statements that both appending branches end with. -/
def pushAndSave (header : Header) : Service (Option Header) := do
  pushUnfinalizedBlock header
  Async.awaits (saveUnfinalizedBlocks (← unfinalizedBlocks))
  pure none

/-- What `registerUnfinalizedBlock` does once there is no gap left in front of the header. -/
def registerChild (header : Header) : Service (Option Header) := do
  let latestUnfinalized := (← unfinalizedBlocks).getLast?
  if latestUnfinalized.any fun latest => header.parentHash != latest.blockHash then
    pure (some header)
  else pushAndSave header

def registerUnfinalizedBlock (header : Header) : Service (Option Header) := do
  if header.blockHeight ≤ (← finalizedBlockNumber) then pure none
  else
    match (← unfinalizedBlocks).getLast? with
    | none => pushAndSave header
    | some lastUnfinalized =>
      if lastUnfinalized.blockHeight ≥ header.blockHeight then
        throw (.exit (notSequential lastUnfinalized.blockHeight header.blockHeight))
      else if lastUnfinalized.blockHeight + 1 ≠ header.blockHeight then
        match ← Async.awaits
          (backfillSkippedSlots (lastUnfinalized.blockHeight + 1) (header.blockHeight - 1)) with
        | some forkedHeader => pure (some forkedHeader)
        | none => registerChild header
      else registerChild header

/-! ## Checking the tracked blocks -/

def unfinalizedThreshold : Nat := 200

def getClosestRecord (blockHeight : Nat) : Service (Option Header) := do
  pure ((← unfinalizedBlocks).reverse.find? fun header => header.blockHeight ≤ blockHeight)

def noParentWhileIterating : String :=
  "When iterate back parent hashes to find matching height, we expect parentHash to be exist"

/-- Back through the parents until the height matches. Every round lowers the height, so the height of
the header it starts with is fuel enough. -/
def iterateBack (height : Nat) : Nat → Header → Service Header
  | 0, header =>
    if height = header.blockHeight then pure header
    else stepToParent header noParentWhileIterating
  | fuel + 1, header =>
    if height = header.blockHeight then pure header
    else do
      let parent ← stepToParent header noParentWhileIterating
      iterateBack height fuel parent

/-- Checks the tracked blocks for a fork, and returns the header where it happened. -/
def hasForked : Service (Option Header) := do
  match ← getClosestRecord (← finalizedBlockNumber) with
  -- no unfinalized blocks
  | none => pure none
  | some lastVerifiableBlock =>
    let header ← finalizedHeader
    if lastVerifiableBlock.blockHeight = header.blockHeight then
      if lastVerifiableBlock.blockHash ≠ header.blockHash then pure (some header) else pure none
    else
      let header ←
        if header.blockHeight - lastVerifiableBlock.blockHeight > unfinalizedThreshold then
          getHeaderForHeight lastVerifiableBlock.blockHeight
        else iterateBack lastVerifiableBlock.blockHeight header.blockHeight header
      if header.blockHash ≠ lastVerifiableBlock.blockHash then pure (some header) else pure none

def noParentWhileSearching : String := "Expect checking header parentHash to be exist"

/-- The loop over the verifiable blocks, highest first, and what follows it. -/
def searchCorrectBlock : List Header → Header → Service (Option Header)
  | [], _ => do
    match (← Async.read).lastCheckedBlockHeight.truthy? with
    | none => pure none
    | some height =>
      let header ← getHeaderForHeight height
      pure (some header)
  | bestHeader :: rest, checkingHeader =>
    if bestHeader.blockHash = checkingHeader.blockHash ∨
        bestHeader.blockHash = checkingHeader.parentHash then
      pure (some bestHeader)
    else do
      let parent ← stepToParent checkingHeader noParentWhileSearching
      searchCorrectBlock rest parent

def getLastCorrectFinalizedBlock (forkedHeader : Header) : Service (Option Header) := do
  let blocks ← unfinalizedBlocks
  let number ← finalizedBlockNumber
  searchCorrectBlock (blocks.filter fun header => header.blockHeight ≤ number).reverse forkedHeader

/-! ## Dropping what is final -/

/-- Removes any record up to and including a height. -/
def removeFinalized (blockHeight : Nat) : Service Unit := do
  setUnfinalizedBlocks ((← unfinalizedBlocks).filter fun header => blockHeight < header.blockHeight)

/-- The body of the `if` of `deleteFinalizedBlock`: the getter is read again for each statement. -/
def pruneFinalized : Service Unit := do
  removeFinalized (← finalizedBlockNumber)
  Async.awaits (saveLastFinalizedVerifiedHeight (← finalizedBlockNumber))
  Async.awaits (saveUnfinalizedBlocks (← unfinalizedBlocks))

def deleteFinalizedBlock : Service Unit := do
  if (← Async.read).lastCheckedBlockHeight.definedAndBelow (← finalizedBlockNumber) then
    pruneFinalized
  let number ← finalizedBlockNumber
  Async.update fun s => { s with lastCheckedBlockHeight := .value number }

/-! ## The two entry points -/

/-- `if (header) forkedHeader = await this.registerUnfinalizedBlock(header)`. -/
def registerHeader : Option Header → Service (Option Header)
  | some header => Async.awaits (registerUnfinalizedBlock header)
  | none => pure none

/-- The header on which a fork was found, by registering the new one or by checking the old ones. -/
def findFork (header : Option Header) : Service (Option Header) := do
  match ← registerHeader header with
  | some forkedHeader => pure (some forkedHeader)
  | none => Async.awaits hasForked

def processUnfinalizedBlockHeader (header : Option Header) : Service (Option Header) := do
  match ← findFork header with
  | none =>
    -- remove blocks that are now confirmed finalized
    Async.awaits deleteFinalizedBlock
    pure none
  -- get the last unfinalized block that is now finalized
  | some forkedHeader => getLastCorrectFinalizedBlock forkedHeader

def processUnfinalizedBlocks {B : Type} (block : Option (IBlock B)) : Service (Option Header) :=
  processUnfinalizedBlockHeader (block.map IBlock.getHeader)

def getFinalizedHeader : Service Header := do
  match ← Async.awaits (Async.reply fun env n => env.getFinalizedHeader n) with
  | .ok header => pure header
  | .error message => throw (.error message)

/-- The three assignments of `init`. -/
def load : Service Unit := do
  let blocks ← Async.awaits getMetadataUnfinalizedBlocks
  Async.update fun s => { s with unfinalizedBlocks? := some blocks }
  let height ← Async.awaits getLastFinalizedVerifiedHeight
  Async.update fun s => { s with lastCheckedBlockHeight := height }
  let header ← getFinalizedHeader
  Async.update fun s => { s with finalizedHeader? := some header }

/-- The rest of it. -/
def validate (reindex : Header → Service Unit) : Service (Option Header) := do
  if (← unfinalizedBlocks).length = 0 then pure none
  else
    -- validate any previously unfinalized blocks
    match ← Async.awaits (processUnfinalizedBlocks (B := BaseSolanaBlock) none) with
    | some rewindHeight =>
      Async.awaits (reindex rewindHeight)
      pure (some rewindHeight)
    | none =>
      Async.awaits resetUnfinalizedBlocks
      Async.awaits resetLastFinalizedVerifiedHeight
      pure none

def init (reindex : Header → Service Unit) : Service (Option Header) := do
  load
  validate reindex

end SubqlSolana
