import SubqlSolana.Dictionary.Paging
import SubqlSolana.Dictionary.ParsedLogs

/-!
# Blocks of the known types

`parseBlock` is here twice: on values of any type (`Dictionary.ParseBlock`), and on blocks of the types
that the rest of the development works with (`Dictionary.Paging`). **They are the same function**
(`parseBlock_json`): on a block of the known types, written as JSON, the one returns what the other
does, written as a value, and throws what it throws.

A type is written as a tree once, for both. What the leaves are is a parameter: an integer of the JSON
is a `number`, and behind the transformer one that is not at an allowed key path is a `bigint`.
-/

set_option autoImplicit false

namespace SubqlSolana

open Lib

/-! ## Trees -/

/-- What the leaves of a tree are. -/
structure Leaves (L : Type) where
  null : L
  string : String → L
  /-- An integer at an allowed key path. -/
  kept : Int → L
  /-- Any other integer. -/
  upcast : Int → L

/-- Of the JSON. -/
def Leaves.json : Leaves JsonScalar where
  null := .null
  string := .string
  kept n := .number (.integer n)
  upcast n := .number (.integer n)

/-- Of what the transformer makes of it. -/
def Leaves.js : Leaves (JsScalar Untyped.Getter) where
  null := .null
  string := .string
  kept n := .number (.integer n)
  upcast := .bigint

section

variable {L : Type} (leaves : Leaves L)

def stringTree (s : String) : JsonTree L := .leaf (leaves.string s)

def keptTree (n : Nat) : JsonTree L := .leaf (leaves.kept n)

/-- An array, or `null`. -/
def arrayTree {α : Type} (tree : α → JsonTree L) : Option (List α) → JsonTree L
  | none => .leaf leaves.null
  | some items => .array (items.map tree)

def RawInstruction.tree (instruction : RawInstruction) : JsonTree L :=
  .object [("accounts", .array (instruction.accounts.map (keptTree leaves))),
    ("data", stringTree leaves instruction.data),
    ("programIdIndex", keptTree leaves instruction.programIdIndex)]

def InnerInstructions.tree (inner : InnerInstructions RawInstruction) : JsonTree L :=
  .object [("index", keptTree leaves inner.index),
    ("instructions", .array (inner.instructions.map (RawInstruction.tree leaves)))]

def LoadedAddresses.tree (addresses : LoadedAddresses) : JsonTree L :=
  .object [("writable", .array (addresses.writable.map (stringTree leaves))),
    ("readonly", .array (addresses.readonly.map (stringTree leaves)))]

def DictionaryLog.tree (log : DictionaryLog) : JsonTree L :=
  .object [("message", stringTree leaves log.message),
    ("logIndex", .leaf (leaves.upcast log.logIndex.value)),
    ("programId", stringTree leaves log.programId),
    ("kind", stringTree leaves (Untyped.kindOf log.kind))]

/-- Only in a block of a dictionary there are `logs`. -/
def RawMeta.tree (raw : RawMeta) : JsonTree L :=
  .object ([("err", raw.err.elim (.leaf leaves.null) (stringTree leaves)),
    ("loadedAddresses", raw.loadedAddresses.tree leaves),
    ("innerInstructions", arrayTree leaves (InnerInstructions.tree leaves) raw.innerInstructions),
    ("logMessages", arrayTree leaves (stringTree leaves) raw.logMessages)] ++
    raw.logs.toList.map fun logs => ("logs", .array (logs.map (DictionaryLog.tree leaves))))

def TransactionForFullJson.tree (tx : TransactionForFullJson) : JsonTree L :=
  .object [("transaction", .object [("signatures", .array (tx.signatures.map (stringTree leaves))),
      ("message", .object [("accountKeys", .array (tx.accountKeys.map (stringTree leaves))),
        ("instructions", .array (tx.instructions.map (RawInstruction.tree leaves)))])]),
    ("meta", tx.meta.elim (.leaf leaves.null) (RawMeta.tree leaves))]

def BaseSolanaBlock.fields (block : BaseSolanaBlock) : List (String × JsonTree L) :=
  [("blockHeight", .leaf (leaves.upcast block.blockHeight)),
    ("blockTime", .leaf (leaves.upcast block.blockTime)),
    ("blockhash", stringTree leaves block.blockhash),
    ("parentSlot", .leaf (leaves.upcast block.parentSlot)),
    ("previousBlockhash", stringTree leaves block.previousBlockhash)]

def RawSolanaBlock.tree (block : RawSolanaBlock) : JsonTree L :=
  .object (block.toBaseSolanaBlock.fields leaves ++
    [("transactions", .array (block.transactions.map (TransactionForFullJson.tree leaves)))])

end

/-! ## What handlers get, as a value -/

open Untyped (Value)

def BaseSolanaBlock.value (block : BaseSolanaBlock) : Value := .object (block.fields .js)

def SolanaInstruction.value (baseBlock : Value) (instruction : SolanaInstruction) : Value :=
  .object [("accounts", .array (instruction.accounts.map (keptTree .js))),
    ("data", stringTree .js instruction.data),
    ("programIdIndex", keptTree .js instruction.programIdIndex),
    ("index", .array (instruction.index.map (keptTree .js))),
    ("transaction", instruction.transaction.tree .js), ("block", baseBlock),
    ("decodedData", .leaf (.getter .decodedData))]

def InnerInstructions.value (baseBlock : Value) (inner : InnerInstructions SolanaInstruction) : Value :=
  .object [("index", keptTree .js inner.index),
    ("instructions", .array (inner.instructions.map (SolanaInstruction.value baseBlock)))]

/-- The lines are still those of the raw transaction. -/
def TransactionMeta.value (baseBlock : Value) (logMessages : Option (List String))
    (m : TransactionMeta) : Value :=
  .object [("err", m.err.elim (.leaf Leaves.js.null) (stringTree .js)),
    ("loadedAddresses", m.loadedAddresses.tree .js),
    ("innerInstructions", .array (m.innerInstructions.map (InnerInstructions.value baseBlock))),
    ("logMessages", arrayTree .js (stringTree .js) logMessages),
    ("logs", arrayTree .js Untyped.logValue m.logs)]

def SolanaTransaction.value (baseBlock : Value) (raw : TransactionForFullJson)
    (tx : SolanaTransaction) : Value :=
  .object [("transaction", .object [("signatures", .array (tx.signatures.map (stringTree .js))),
      ("message", .object [("accountKeys", .array (tx.accountKeys.map (stringTree .js))),
        ("instructions", .array (tx.instructions.map (SolanaInstruction.value baseBlock)))])]),
    ("meta", tx.meta.elim (.leaf Leaves.js.null)
      (TransactionMeta.value baseBlock (raw.meta.bind RawMeta.logMessages))),
    ("block", baseBlock)]

def SolanaBlock.value (raw : RawSolanaBlock) (block : SolanaBlock) : Value :=
  .object (block.toBaseSolanaBlock.fields .js ++
    [("transactions", .array (List.zipWith (SolanaTransaction.value block.toBaseSolanaBlock.value)
      raw.transactions block.transactions))])

/-! ## Behind the transformer -/

/-- The paths of the positions in an instruction, and of the index of a group of inner ones, are allowed
as in `@solana/rpc-api`. -/
structure Untyped.RpcTransformers.KeepsPositions (rpc : Untyped.RpcTransformers) : Prop where
  innerIndex : [.key "index"] ∈ rpc.innerInstructionsConfigs
  innerAccounts :
    [.key "instructions", .wildcard, .key "accounts", .wildcard] ∈ rpc.innerInstructionsConfigs
  innerProgramIdIndex :
    [.key "instructions", .wildcard, .key "programIdIndex"] ∈ rpc.innerInstructionsConfigs
  accounts : [.key "instructions", .wildcard, .key "accounts", .wildcard] ∈ rpc.messageConfig
  programIdIndex : [.key "instructions", .wildcard, .key "programIdIndex"] ∈ rpc.messageConfig

section

variable {allowed : List AllowedPath} {path : KeyPath}

theorem null_upcast : upcastScalar allowed path Leaves.json.null = Leaves.js.null := rfl

theorem stringTree_upcast (s : String) :
    (stringTree .json s).mapLeaves (upcastScalar allowed) path = stringTree .js s := rfl

theorem keptTree_upcast (h : isAllowed allowed path = true) (n : Nat) :
    (keptTree .json n).mapLeaves (upcastScalar allowed) path = keptTree .js n := by
  simp [keptTree, Leaves.json, Leaves.js, JsonTree.mapLeaves, upcastScalar, h]

theorem upcastScalar_upcast (h : isAllowed allowed path = false) (n : Int) :
    upcastScalar allowed path (Leaves.json.upcast n) = Leaves.js.upcast n := by
  simp [Leaves.json, Leaves.js, upcastScalar, h]

/-- The integers of an instruction at this path stay numbers. -/
structure KeepsInstruction (allowed : List AllowedPath) (path : KeyPath) : Prop where
  accounts : ∀ j, isAllowed allowed (path ++ [.key "accounts"] ++ [.index j]) = true
  programIdIndex : isAllowed allowed (path ++ [.key "programIdIndex"]) = true

theorem RawInstruction.tree_upcast (h : KeepsInstruction allowed path) (instruction : RawInstruction) :
    (instruction.tree .json).mapLeaves (upcastScalar allowed) path = instruction.tree .js := by
  simp only [tree, JsonTree.mapLeaves, JsonTree.mapFields, stringTree_upcast,
    JsonTree.mapItems_map _ fun n j => keptTree_upcast (h.accounts j) n,
    keptTree_upcast h.programIdIndex]

/-- The integers of a group of inner instructions at this path stay numbers. -/
structure KeepsInner (allowed : List AllowedPath) (path : KeyPath) : Prop where
  index : isAllowed allowed (path ++ [.key "index"]) = true
  instructions : ∀ j, KeepsInstruction allowed (path ++ [.key "instructions"] ++ [.index j])

theorem InnerInstructions.tree_upcast (h : KeepsInner allowed path)
    (inner : InnerInstructions RawInstruction) :
    (inner.tree .json).mapLeaves (upcastScalar allowed) path = inner.tree .js := by
  simp only [tree, JsonTree.mapLeaves, JsonTree.mapFields, keptTree_upcast h.index,
    JsonTree.mapItems_map _ fun instruction j =>
      RawInstruction.tree_upcast (h.instructions j) instruction]

theorem LoadedAddresses.tree_upcast (addresses : LoadedAddresses) :
    (addresses.tree .json).mapLeaves (upcastScalar allowed) path = addresses.tree .js := by
  simp only [tree, JsonTree.mapLeaves, JsonTree.mapFields,
    JsonTree.mapItems_map _ fun s _ => stringTree_upcast s]

theorem DictionaryLog.tree_upcast (h : isAllowed allowed (path ++ [.key "logIndex"]) = false)
    (log : DictionaryLog) :
    (log.tree .json).mapLeaves (upcastScalar allowed) path = log.tree .js := by
  simp only [tree, JsonTree.mapLeaves, JsonTree.mapFields, stringTree_upcast,
    upcastScalar_upcast h]

theorem arrayTree_upcast {α : Type} {tree : α → Json} {tree' : α → Value}
    (h : ∀ a j, (tree a).mapLeaves (upcastScalar allowed) (path ++ [.index j]) = tree' a)
    (items : Option (List α)) :
    (arrayTree .json tree items).mapLeaves (upcastScalar allowed) path = arrayTree .js tree' items := by
  cases items with
  | none => rfl
  | some items => simp only [arrayTree, JsonTree.mapLeaves, JsonTree.mapItems_map _ h]

/-- Of the integers in `meta`, those of inner instructions stay numbers, and the index of a log does not. -/
structure KeepsMeta (allowed : List AllowedPath) (path : KeyPath) : Prop where
  inner : ∀ j, KeepsInner allowed (path ++ [.key "innerInstructions"] ++ [.index j])
  logIndex : ∀ j, isAllowed allowed
    (path ++ [.key "logs"] ++ [.index j] ++ [.key "logIndex"]) = false

theorem RawMeta.tree_upcast (h : KeepsMeta allowed path) (raw : RawMeta) :
    (raw.tree .json).mapLeaves (upcastScalar allowed) path = raw.tree .js := by
  have hinner := fun inner j => InnerInstructions.tree_upcast (h.inner j) inner
  have hlogs := fun log j => DictionaryLog.tree_upcast (h.logIndex j) log
  have hlines : ∀ (s : String) j, (stringTree .json s).mapLeaves (upcastScalar allowed)
      (path ++ [.key "logMessages"] ++ [.index j]) = stringTree .js s := fun s _ => rfl
  obtain ⟨err, loadedAddresses, innerInstructions, logMessages, logs⟩ := raw
  cases err <;> cases logs <;>
    simp only [tree, Option.elim, Option.toList, List.map_cons, List.map_nil, List.cons_append,
      List.nil_append, JsonTree.mapLeaves, JsonTree.mapFields, LoadedAddresses.tree_upcast,
      stringTree_upcast, arrayTree_upcast hinner, arrayTree_upcast hlines,
      null_upcast, JsonTree.mapItems_map _ hlogs]

structure KeepsTransaction (allowed : List AllowedPath) (path : KeyPath) : Prop where
  instructions : ∀ j, KeepsInstruction allowed
    (path ++ [.key "transaction"] ++ [.key "message"] ++ [.key "instructions"] ++ [.index j])
  «meta» : KeepsMeta allowed (path ++ [.key "meta"])

theorem TransactionForFullJson.tree_upcast (h : KeepsTransaction allowed path)
    (tx : TransactionForFullJson) :
    (tx.tree .json).mapLeaves (upcastScalar allowed) path = tx.tree .js := by
  have hinstructions := fun instruction j => RawInstruction.tree_upcast (h.instructions j) instruction
  obtain ⟨signatures, accountKeys, instructions, raw⟩ := tx
  cases raw <;>
    simp only [tree, Option.elim, JsonTree.mapLeaves, JsonTree.mapFields,
      JsonTree.mapItems_map _ fun s _ => stringTree_upcast s, JsonTree.mapItems_map _ hinstructions,
      null_upcast, RawMeta.tree_upcast h.meta]

end

section

variable {rpc : Untyped.RpcTransformers}

theorem isAllowed_inner {c : AllowedPath} (hc : c ∈ rpc.innerInstructionsConfigs) {path : KeyPath}
    (h : AllowedPath.covers ([.key "transactions", .wildcard, .key "meta", .key "innerInstructions",
      .wildcard] ++ c) path = true) :
    isAllowed (Untyped.allowedNumericKeyPaths rpc) path = true := by
  refine List.any_eq_true.mpr ⟨_, ?_, h⟩
  simp only [Untyped.allowedNumericKeyPaths, List.mem_append, List.mem_map]
  exact .inl (.inl (.inr ⟨c, hc, rfl⟩))

theorem isAllowed_message {c : AllowedPath} (hc : c ∈ rpc.messageConfig) {path : KeyPath}
    (h : AllowedPath.covers ([.key "transactions", .wildcard, .key "transaction", .key "message"] ++ c)
      path = true) :
    isAllowed (Untyped.allowedNumericKeyPaths rpc) path = true := by
  refine List.any_eq_true.mpr ⟨_, ?_, h⟩
  simp only [Untyped.allowedNumericKeyPaths, List.mem_append, List.mem_map]
  exact .inl (.inr ⟨c, hc, rfl⟩)

theorem keepsTransaction (hkeeps : rpc.KeepsPositions) (i : Nat) :
    KeepsTransaction (Untyped.allowedNumericKeyPaths rpc)
      ([] ++ [.key "transactions"] ++ [.index i]) where
  instructions _ :=
    { accounts := fun _ => isAllowed_message hkeeps.accounts rfl
      programIdIndex := isAllowed_message hkeeps.programIdIndex rfl }
  «meta» :=
    { inner := fun _ =>
        { index := isAllowed_inner hkeeps.innerIndex rfl
          instructions := fun _ =>
            { accounts := fun _ => isAllowed_inner hkeeps.innerAccounts rfl
              programIdIndex := isAllowed_inner hkeeps.innerProgramIdIndex rfl } }
      logIndex := fun j => Untyped.logIndex_not_allowed rpc i j }

theorem RawSolanaBlock.tree_upcast (hkeeps : rpc.KeepsPositions) (block : RawSolanaBlock) :
    (block.tree .json).mapLeaves (upcastScalar (Untyped.allowedNumericKeyPaths rpc)) [] =
      block.tree .js := by
  have htransactions := fun tx i => TransactionForFullJson.tree_upcast (keepsTransaction hkeeps i) tx
  have hother : ∀ name, name ≠ "transactions" → name ≠ "rewards" →
      isAllowed (Untyped.allowedNumericKeyPaths rpc) ([] ++ [.key name]) = false := by
    intro name hname hname'
    simp [isAllowed, Untyped.allowedNumericKeyPaths, AllowedPath.covers, AllowedPathPart.covers,
      hname.symm, hname'.symm]
  have hheight := hother "blockHeight" (by decide) (by decide)
  have htime := hother "blockTime" (by decide) (by decide)
  have hslot := hother "parentSlot" (by decide) (by decide)
  simp only [tree, BaseSolanaBlock.fields, List.cons_append, List.nil_append]
  simp only [JsonTree.mapLeaves, JsonTree.mapFields, stringTree_upcast,
    JsonTree.mapItems_map _ htransactions, upcastScalar_upcast hheight, upcastScalar_upcast htime,
    upcastScalar_upcast hslot]

end

/-! ## `transformBlock` -/

section

variable (baseBlock : Value)

theorem wrapInstruction_value (index : List Nat) (instruction : RawInstruction)
    (tx : TransactionForFullJson) :
    Untyped.wrapInstruction (index.map (keptTree .js)) (instruction.tree .js) (tx.tree .js) baseBlock =
      (wrapInstruction index instruction tx).value baseBlock := rfl

/-- The instructions of an array, whatever index each of them gets. -/
theorem mapIdx_wrapInstruction_value (index : Nat → List Nat) (instructions : List RawInstruction)
    (tx : TransactionForFullJson) :
    ((instructions.map (RawInstruction.tree .js)).mapIdx fun i instruction =>
        Untyped.wrapInstruction ((index i).map (keptTree .js)) instruction (tx.tree .js) baseBlock) =
      (instructions.mapIdx fun i instruction => wrapInstruction (index i) instruction tx).map
        (SolanaInstruction.value baseBlock) := by
  refine List.ext_getElem? fun i => ?_
  simp only [List.getElem?_mapIdx, List.getElem?_map, Option.map_map]
  exact Option.map_congr fun instruction _ =>
    wrapInstruction_value baseBlock (index i) instruction tx

theorem transformInner_value (tx : TransactionForFullJson) (inner : InnerInstructions RawInstruction) :
    Untyped.transformInner (tx.tree .js) baseBlock (inner.tree .js) =
      .ok ((wrapGroup tx inner).value baseBlock) := by
  have hinstructions := mapIdx_wrapInstruction_value baseBlock (fun i => [inner.index, i])
    inner.instructions tx
  show Except.ok (JsonTree.object [("index", keptTree .js inner.index), ("instructions",
    .array ((inner.instructions.map (RawInstruction.tree .js)).mapIdx _))]) = _
  exact congrArg (fun instructions => Except.ok (JsonTree.object [("index", keptTree .js inner.index),
    ("instructions", .array instructions)])) hinstructions

theorem logMessages_value (logMessages : Option (List String)) :
    Untyped.logMessages (arrayTree .js (stringTree .js) logMessages) = .ok logMessages := by
  cases logMessages with
  | none => rfl
  | some lines =>
    have hline : ∀ line, Untyped.logText (stringTree .js line) = .ok line := fun line => rfl
    simp only [arrayTree, Untyped.logMessages, mapM_map_ok hline, List.map_id']
    rfl

/-- Entries and lines are wrapped alike on both sides. -/
theorem metaLogs_value (raw : RawMeta) :
    Untyped.metaLogs (raw.tree .js) =
      raw.upcast.wrappedLogs.map (arrayTree .js Untyped.logValue) := by
  obtain ⟨err, loadedAddresses, innerInstructions, logMessages, _ | logs⟩ := raw
  · have hnone : JsValue.get "logs" (RawMeta.tree .js
        ⟨err, loadedAddresses, innerInstructions, logMessages, none⟩) = .ok JsValue.undefined := rfl
    have hlines : JsValue.get "logMessages" (RawMeta.tree .js
        ⟨err, loadedAddresses, innerInstructions, logMessages, none⟩) =
          .ok (arrayTree .js (stringTree .js) logMessages) := rfl
    simp only [Untyped.metaLogs, hnone, hlines, ok_bind, logMessages_value, JsValue.truthy,
      JsValue.undefined, Bool.false_eq_true, if_false, RawMeta.wrappedLogs, RawMeta.upcast,
      Option.map_none]
    rcases wrapLogs logMessages with error | _ | wrapped <;> rfl
  · have hlogs : Untyped.metaLogs (RawMeta.tree .js
        ⟨err, loadedAddresses, innerInstructions, logMessages, some logs⟩) =
        Untyped.wrapDictionaryLogs (.array (logs.map (DictionaryLog.tree .js))) := rfl
    have htree : logs.map (DictionaryLog.tree .js) =
        (logs.map DictionaryLog.upcast).map Untyped.dictionaryLogValue := by
      rw [List.map_map]
      rfl
    rw [hlogs, htree, Untyped.wrapDictionaryLogs_typed]
    rfl

theorem transformMeta_value (tx : TransactionForFullJson) (raw : RawMeta) :
    Untyped.transformMeta (tx.tree .js) baseBlock (raw.tree .js) =
      (transformMeta tx raw.upcast).map (TransactionMeta.value baseBlock raw.logMessages) := by
  have hget : JsValue.get "innerInstructions" (raw.tree .js) =
      .ok (arrayTree .js (InnerInstructions.tree .js) raw.innerInstructions) := rfl
  have hitems : JsValue.items (JsValue.coalesce
      (arrayTree .js (InnerInstructions.tree .js) raw.innerInstructions) (.array [])) =
        .ok ((raw.innerInstructions.getD []).map (InnerInstructions.tree .js)) := by
    cases raw.innerInstructions <;> rfl
  have hinner : ((raw.innerInstructions.getD []).map (InnerInstructions.tree .js)).mapM
      (Untyped.transformInner (tx.tree .js) baseBlock) =
        .ok (((raw.innerInstructions.getD []).map (wrapGroup tx)).map
          (InnerInstructions.value baseBlock)) := by
    rw [List.map_map]
    exact mapM_map_ok (transformInner_value baseBlock tx) _
  unfold Untyped.transformMeta
  rw [hget, ok_bind, hitems, ok_bind, hinner, ok_bind, metaLogs_value, transformMeta_eq]
  cases raw.upcast.wrappedLogs with
  | error e => rfl
  | ok logs =>
    obtain ⟨err, loadedAddresses, innerInstructions, logMessages, _ | entries⟩ := raw <;> rfl

/-! ### One transaction -/

theorem TransactionForFullJson.tree_of_upcast (tx : TransactionForFullJson) :
    tx.upcast.tree .js = tx.tree .js := by
  obtain ⟨signatures, accountKeys, instructions, _ | ⟨err, loadedAddresses, innerInstructions,
    logMessages, _ | logs⟩⟩ := tx
  · rfl
  · rfl
  · have hlogs : (logs.map DictionaryLog.upcast).map (DictionaryLog.tree .js) =
        logs.map (DictionaryLog.tree .js) := by
      rw [List.map_map]
      rfl
    simp only [tree, upcast, RawMeta.upcast, Option.map_some, Option.elim, RawMeta.tree, Option.toList,
      List.map_cons, List.map_nil, hlogs]

theorem wrapMeta_value (tx : TransactionForFullJson) (raw : Option RawMeta) :
    Untyped.wrapMeta (tx.tree .js) baseBlock (raw.elim (.leaf Leaves.js.null) (RawMeta.tree .js)) =
      match raw with
      | none => .ok JsValue.null
      | some raw => (transformMeta tx raw.upcast).map (TransactionMeta.value baseBlock raw.logMessages) := by
  cases raw with
  | none => rfl
  | some raw => exact transformMeta_value baseBlock tx raw

theorem firstSignature_value (raw : TransactionForFullJson) :
    Untyped.firstSignature (raw.tree .js) = .ok (raw.signatures.head?.getD "undefined") := by
  obtain ⟨_ | ⟨signature, signatures⟩, accountKeys, instructions, raw⟩ := raw <;> rfl

theorem wrapTransaction_value (raw : TransactionForFullJson) :
    Untyped.wrapTransaction baseBlock (raw.tree .js) =
      match raw.meta with
      | none => .ok ((wrapTransaction raw.upcast none).value baseBlock raw)
      | some m => (transformMeta raw.upcast m.upcast).map fun «meta» =>
          (wrapTransaction raw.upcast (some «meta»)).value baseBlock raw := by
  have hwrapped := mapIdx_wrapInstruction_value baseBlock (fun i => [i]) raw.instructions raw.upcast
  have hmeta := wrapMeta_value baseBlock raw.upcast raw.meta
  rw [raw.tree_of_upcast] at hwrapped hmeta
  have hchain : Untyped.wrapTransaction baseBlock (raw.tree .js) = (do
      let «meta» ← Untyped.wrapMeta (raw.tree .js) baseBlock
        (raw.meta.elim (.leaf Leaves.js.null) (RawMeta.tree .js))
      pure (.object [("transaction", .object
          [("signatures", .array (raw.signatures.map (stringTree .js))),
          ("message", .object [("accountKeys", .array (raw.accountKeys.map (stringTree .js))),
            ("instructions", .array ((raw.instructions.map (RawInstruction.tree .js)).mapIdx
              fun i instruction => Untyped.wrapInstruction ([i].map (keptTree .js)) instruction
                (raw.tree .js) baseBlock))])]),
        ("meta", «meta»), ("block", baseBlock)])) := rfl
  rw [hchain, hmeta, hwrapped]
  obtain ⟨signatures, accountKeys, instructions, _ | m⟩ := raw
  · rfl
  · show ((transformMeta _ m.upcast).map _ >>= _) = (transformMeta _ m.upcast).map _
    cases transformMeta _ m.upcast <;> rfl

theorem transformTransaction_value (raw : TransactionForFullJson) :
    Untyped.transformTransaction baseBlock (raw.tree .js) =
      (transformTransaction raw.upcast).map (SolanaTransaction.value baseBlock raw) := by
  have hupcast : raw.upcast.meta = raw.meta.map RawMeta.upcast := rfl
  rw [Untyped.transformTransaction, wrapTransaction_value, firstSignature_value]
  cases hmeta : raw.meta with
  | none =>
    rw [hmeta] at hupcast
    rw [transformTransaction_of_none hupcast]
    rfl
  | some m =>
    rw [hmeta] at hupcast
    simp only [transformTransaction, hupcast, Option.map_some]
    cases transformMeta raw.upcast m.upcast <;> rfl

end

/-! ## The block -/

theorem transformBlock_value (raw : RawSolanaBlock) :
    Untyped.transformBlock (raw.tree .js) = (transformBlock raw.upcast).map (SolanaBlock.value raw) := by
  have htransactions := mapM_map_eq
    (transformTransaction_value raw.toBaseSolanaBlock.value) raw.transactions
  have huntyped : Untyped.transformBlock (raw.tree .js) = (do
      let transformed ← (raw.transactions.map (TransactionForFullJson.tree .js)).mapM
        (Untyped.transformTransaction raw.toBaseSolanaBlock.value)
      pure (.object (raw.toBaseSolanaBlock.fields .js ++ [("transactions", .array transformed)]))) :=
    rfl
  have htyped : transformBlock raw.upcast = (do
      let transactions ← raw.transactions.mapM fun tx => transformTransaction tx.upcast
      pure { raw.toBaseSolanaBlock with transactions }) := by
    unfold transformBlock RawSolanaBlock.upcast
    rw [List.mapM_map]
    rfl
  rw [huntyped, htyped, htransactions]
  cases raw.transactions.mapM fun tx => transformTransaction tx.upcast <;> rfl

/-- **The two are the same function.** -/
theorem parseBlock_json {rpc : Untyped.RpcTransformers} (hrpc : rpc.Upcasts)
    (hkeeps : rpc.KeepsPositions) (block : RawSolanaBlock) :
    Untyped.parseBlock rpc (block.tree .json) = (parseBlock block).map (SolanaBlock.value block) := by
  rw [Untyped.parseBlock_eq hrpc, Untyped.upcastAt, block.tree_upcast hkeeps]
  exact transformBlock_value block

example : Untyped.LoneLog.transformers.KeepsPositions :=
  ⟨by decide, by decide, by decide, by decide, by decide⟩

end SubqlSolana
