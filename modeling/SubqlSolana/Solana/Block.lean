import SubqlSolana.Solana.Header
import SubqlSolana.Solana.Logs

/-!
# Blocks and what is in them

`transformBlock` (`solana/block.solana.ts`): a raw block becomes one whose instructions know their
transaction and whose logs are attributed. A block of a dictionary comes with its logs attributed
already, and that is how the two are told apart.

`SolanaTransaction.items` is the order in which the indexer walks a transaction (`indexBlockData` of
`indexer/indexer.manager.ts`). The accounts of an instruction are indices into the keys of its
transaction, with those loaded from lookup tables at the end (`solana/utils.solana.ts`).
-/

set_option autoImplicit false

namespace SubqlSolana

/-! ## Raw blocks -/

structure RawInstruction where
  accounts : List Nat
  /-- In base58. -/
  data : String
  programIdIndex : Nat
  deriving Repr, DecidableEq

structure InnerInstructions (I : Type) where
  /-- Of the outer instruction. -/
  index : Nat
  instructions : List I
  deriving Repr, DecidableEq

structure LoadedAddresses where
  writable : List String
  readonly : List String
  deriving Repr, DecidableEq

structure DictionaryLog where
  message : String
  logIndex : JsNumber
  programId : String
  kind : LogType
  deriving Repr, DecidableEq

structure RawMeta where
  err : Option String
  loadedAddresses : LoadedAddresses
  innerInstructions : Option (List (InnerInstructions RawInstruction))
  logMessages : Option (List String)
  /-- In a block of a dictionary, instead of `logMessages`. -/
  logs : Option (List DictionaryLog)
  deriving Repr, DecidableEq

structure TransactionForFullJson where
  signatures : List String
  accountKeys : List String
  instructions : List RawInstruction
  «meta» : Option RawMeta
  deriving Repr, DecidableEq

structure RawSolanaBlock extends BaseSolanaBlock where
  transactions : List TransactionForFullJson
  deriving Repr, DecidableEq

/-! ## Blocks as handlers see them -/

structure SolanaInstruction extends RawInstruction where
  index : List Nat
  transaction : TransactionForFullJson
  deriving Repr, DecidableEq

structure TransactionMeta where
  err : Option String
  loadedAddresses : LoadedAddresses
  innerInstructions : List (InnerInstructions SolanaInstruction)
  logs : Option (List SolanaLogMessage)
  deriving Repr, DecidableEq

structure SolanaTransaction where
  signatures : List String
  accountKeys : List String
  instructions : List SolanaInstruction
  «meta» : Option TransactionMeta
  deriving Repr, DecidableEq

structure SolanaBlock extends BaseSolanaBlock where
  transactions : List SolanaTransaction
  deriving Repr, DecidableEq

def wrapInstruction (index : List Nat) (instruction : RawInstruction)
    (transaction : TransactionForFullJson) : SolanaInstruction :=
  { instruction with index, transaction }

def wrapDictionaryLogs (logs : List DictionaryLog) : List SolanaLogMessage :=
  logs.map fun l =>
    { message := l.message, programId := some l.programId, logIndex := l.logIndex, type := l.kind,
      decodedMessage := if l.kind ∈ [.other, .data] then .decodeLog else .null }

def transformMeta (tx : TransactionForFullJson) (raw : RawMeta) : Except String TransactionMeta := do
  let innerInstructions := (raw.innerInstructions.getD []).map fun inner =>
    { index := inner.index,
      instructions := inner.instructions.mapIdx fun innerIndex instruction =>
        wrapInstruction [inner.index, innerIndex] instruction tx : InnerInstructions _ }
  let logs ← match raw.logs with
    | some logs => pure (some (wrapDictionaryLogs logs))
    | none => wrapLogs raw.logMessages
  pure { err := raw.err, loadedAddresses := raw.loadedAddresses, innerInstructions, logs }

/-- What the new error says; the one from below is its cause. -/
def failedToTransform (tx : TransactionForFullJson) : String :=
  "Failed to transform transaction: " ++ tx.signatures.head?.getD "undefined"

def wrapTransaction (tx : TransactionForFullJson) («meta» : Option TransactionMeta) :
    SolanaTransaction :=
  { signatures := tx.signatures, accountKeys := tx.accountKeys, «meta»,
    instructions := tx.instructions.mapIdx fun index instruction =>
      wrapInstruction [index] instruction tx }

def transformTransaction (tx : TransactionForFullJson) : Except String SolanaTransaction :=
  match tx.meta with
  | none => .ok (wrapTransaction tx none)
  | some raw =>
    match transformMeta tx raw with
    | .ok «meta» => .ok (wrapTransaction tx (some «meta»))
    | .error _ => .error (failedToTransform tx)

def transformBlock (block : RawSolanaBlock) : Except String SolanaBlock := do
  let transactions ← block.transactions.mapM transformTransaction
  pure { block.toBaseSolanaBlock with transactions }

/-! ## One transaction

Wrapping the logs is all that can throw. -/

def RawMeta.wrappedLogs (raw : RawMeta) : Except String (Option (List SolanaLogMessage)) :=
  match raw.logs with
  | some logs => .ok (some (wrapDictionaryLogs logs))
  | none => wrapLogs raw.logMessages

/-- The inner instructions of a group, with their paths. -/
def wrapGroup (tx : TransactionForFullJson) (inner : InnerInstructions RawInstruction) :
    InnerInstructions SolanaInstruction where
  index := inner.index
  instructions := inner.instructions.mapIdx fun innerIndex instruction =>
    wrapInstruction [inner.index, innerIndex] instruction tx

def wrapMeta (tx : TransactionForFullJson) (raw : RawMeta) (logs : Option (List SolanaLogMessage)) :
    TransactionMeta where
  err := raw.err
  loadedAddresses := raw.loadedAddresses
  innerInstructions := (raw.innerInstructions.getD []).map (wrapGroup tx)
  logs := logs

theorem transformMeta_eq (tx : TransactionForFullJson) (raw : RawMeta) :
    transformMeta tx raw = raw.wrappedLogs.map (wrapMeta tx raw) := by
  unfold transformMeta RawMeta.wrappedLogs
  cases raw.logs with
  | some logs => rfl
  | none => cases wrapLogs raw.logMessages <;> rfl

section

variable {tx : TransactionForFullJson} {raw : RawMeta}

theorem transformTransaction_of_none (hmeta : tx.meta = none) :
    transformTransaction tx = .ok (wrapTransaction tx none) := by
  simp only [transformTransaction, hmeta]

theorem transformTransaction_of_meta {m : TransactionMeta} (hmeta : tx.meta = some raw)
    (h : transformMeta tx raw = .ok m) :
    transformTransaction tx = .ok (wrapTransaction tx (some m)) := by
  simp only [transformTransaction, hmeta, h]

theorem transformTransaction_failed {e : String} (hmeta : tx.meta = some raw)
    (h : transformMeta tx raw = .error e) :
    transformTransaction tx = .error (failedToTransform tx) := by
  simp only [transformTransaction, hmeta, h]

theorem transformTransaction_of_logs {logs : Option (List SolanaLogMessage)}
    (hmeta : tx.meta = some raw) (hlogs : raw.wrappedLogs = .ok logs) :
    transformTransaction tx = .ok (wrapTransaction tx (some (wrapMeta tx raw logs))) := by
  refine transformTransaction_of_meta hmeta ?_
  rw [transformMeta_eq, hlogs]
  rfl

end

/-! ## Items -/

/-- What a handler can be called with, blocks aside. -/
inductive Item where
  | transaction (tx : SolanaTransaction)
  | instruction (instruction : SolanaInstruction)
  | log (log : SolanaLogMessage)

/-- Inner instructions come after their outer one. -/
def SolanaTransaction.innerInstructions (tx : SolanaTransaction) (idx : Nat) :
    List SolanaInstruction :=
  match tx.meta with
  | none => []
  | some m => (m.innerInstructions.filter fun inner => inner.index = idx).flatMap (·.instructions)

def SolanaTransaction.logs (tx : SolanaTransaction) : List SolanaLogMessage :=
  (tx.meta.bind TransactionMeta.logs).getD []

def SolanaTransaction.items (tx : SolanaTransaction) : List Item :=
  [.transaction tx] ++
  (tx.instructions.mapIdx fun idx instruction =>
    (instruction :: tx.innerInstructions idx).map Item.instruction).flatten ++
  tx.logs.map Item.log

def SolanaBlock.items (block : SolanaBlock) : List Item :=
  block.transactions.flatMap SolanaTransaction.items

/-! ## Accounts -/

def allAccounts (transaction : TransactionForFullJson) : List String :=
  match transaction.meta with
  | none => transaction.accountKeys
  | some m =>
    transaction.accountKeys ++ m.loadedAddresses.writable ++ m.loadedAddresses.readonly

def getAccountByIndex (instruction : SolanaInstruction) (index : Nat) : Option String :=
  (allAccounts instruction.transaction)[index]?

def getProgramId (instruction : SolanaInstruction) : Option String :=
  getAccountByIndex instruction instruction.programIdIndex

/-- An account that the message names itself is not moved by those from lookup tables. -/
theorem getAccountByIndex_of_accountKeys {instruction : SolanaInstruction} {index : Nat}
    {account : String} (h : instruction.transaction.accountKeys[index]? = some account) :
    getAccountByIndex instruction index = some account := by
  have hlt : index < instruction.transaction.accountKeys.length :=
    (List.getElem?_eq_some_iff.mp h).1
  unfold getAccountByIndex allAccounts
  cases instruction.transaction.meta with
  | none => exact h
  | some m =>
    show (_ ++ _ ++ _)[index]? = _
    rw [List.append_assoc, List.getElem?_append_left hlt]
    exact h

end SubqlSolana
