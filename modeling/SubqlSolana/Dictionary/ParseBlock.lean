import SubqlSolana.Lib.Fallible
import SubqlSolana.Lib.JsonTree
import SubqlSolana.Solana.Block

/-!
# Blocks of a dictionary

`parseBlock` (`indexer/dictionary/v2/solanaDictionaryV2.ts`): the block that a dictionary answers is
JSON of no known type. A transformer of `@solana/rpc-transformers` makes a `bigint` of its integers,
those at the allowed key paths excepted, and then `transformBlock` (`solana/block.solana.ts`) wraps it.
So `transformBlock` is here once more, on values of any type.

The logs of a dictionary are wrapped already, but come without their getters: `Carries` says when an
entry of a dictionary stands for one of `wrapLogs`. **What the getter of an entry is for follows from
its type** (`wrapLoop_entries`), so that it can be added again.
-/

set_option autoImplicit false

namespace SubqlSolana

open Lib

namespace Untyped

/-! ## `transformBlock` -/

/-- The getters that `transformBlock` adds. -/
inductive Getter where
  /-- `decoder.decodeInstruction(this)`. -/
  | decodedData
  | decodedMessage (promise : DecodedMessage)
  deriving Repr, DecidableEq

abbrev Value : Type := JsValue Getter

def wrapInstruction (index : List Value) (instruction tx baseBlock : Value) : Value :=
  instruction.spread [("index", .array index), ("transaction", tx), ("block", baseBlock),
    ("decodedData", .leaf (.getter .decodedData))]

def kindOf : LogType → String
  | .log => "log"
  | .data => "data"
  | .other => "other"

def numberValue : JsNumber → Value
  | .number n => JsValue.integer n
  | .bigint n => .leaf (.bigint n)

/-- An entry of `wrapLogs` or `wrapDictionaryLogs`. -/
def logValue (log : SolanaLogMessage) : Value :=
  .object [("message", JsValue.string log.message),
    ("programId", log.programId.elim JsValue.undefined JsValue.string),
    ("logIndex", numberValue log.logIndex), ("type", JsValue.string (kindOf log.type)),
    ("decodedMessage", .leaf (.getter (.decodedMessage log.decodedMessage)))]

/-- `['other', 'data'].includes(l.kind)`. -/
def decodedMessageOf : Value → DecodedMessage
  | .leaf (.string kind) => if kind ∈ ["other", "data"] then .decodeLog else .null
  | _ => .null

/-- One entry of the loop. -/
def wrapDictionaryLog (l : Value) : Except String Value := do
  let message ← l.get "message"
  let programId ← l.get "programId"
  let logIndex ← l.get "logIndex"
  let kind ← l.get "kind"
  pure (.object [("message", message), ("programId", programId), ("logIndex", logIndex),
    ("type", kind), ("decodedMessage", .leaf (.getter (.decodedMessage (decodedMessageOf kind))))])

def wrapDictionaryLogs (logs : Value) : Except String Value := do
  let logs ← logs.items
  pure (.array (← logs.mapM wrapDictionaryLog))

def logText : Value → Except String String
  | .leaf (.string log) => .ok log
  | .leaf .undefined => .error (JsValue.cannotRead "undefined" "startsWith")
  | .leaf .null => .error (JsValue.cannotRead "null" "startsWith")
  | _ => .error "log.startsWith is not a function"

/-- The messages of a block that is no dictionary's are `null`, or an array of texts. -/
def logMessages : Value → Except String (Option (List String))
  | .leaf .null => .ok none
  | .array items => (items.mapM logText).map some
  | _ => .error "Cannot convert undefined or null to object"

/-- Dictionary blocks have `logs` instead of `logMessages`. -/
def metaLogs (raw : Value) : Except String Value := do
  let logs ← raw.get "logs"
  if logs.truthy then wrapDictionaryLogs logs
  else
    match ← wrapLogs (← logMessages (← raw.get "logMessages")) with
    | none => pure JsValue.null
    | some logs => pure (.array (logs.map logValue))

def transformInner (tx baseBlock innerInstruction : Value) : Except String Value := do
  let instructions ← (← innerInstruction.get "instructions").items
  let index ← innerInstruction.get "index"
  pure (innerInstruction.spread [("instructions", .array (instructions.mapIdx
    fun innerIndex instruction =>
      wrapInstruction [index, JsValue.integer innerIndex] instruction tx baseBlock))])

def transformMeta (tx baseBlock raw : Value) : Except String Value := do
  let innerInstructions ← ((← raw.get "innerInstructions").coalesce (.array [])).items
  let wrapped ← innerInstructions.mapM (transformInner tx baseBlock)
  let logs ← metaLogs raw
  pure (raw.spread [("innerInstructions", .array wrapped), ("logs", logs)])

/-- `meta` of the transformed transaction. -/
def wrapMeta (tx baseBlock raw : Value) : Except String Value :=
  if raw.truthy then transformMeta tx baseBlock raw else .ok JsValue.null

def wrapTransaction (baseBlock tx : Value) : Except String Value := do
  let transaction ← tx.get "transaction"
  let message ← transaction.get "message"
  let instructions ← (← message.get "instructions").items
  let wrapped := instructions.mapIdx fun index instruction =>
    wrapInstruction [JsValue.integer index] instruction tx baseBlock
  let raw ← tx.get "meta"
  let «meta» ← wrapMeta tx baseBlock raw
  pure (tx.spread [("block", baseBlock),
    ("transaction",
      transaction.spread [("message", message.spread [("instructions", .array wrapped)])]),
    ("meta", «meta»)])

/-- `tx.transaction.signatures[0]`, in the text of the error. -/
def firstSignature (tx : Value) : Except String String := do
  match ← (← tx.get "transaction").get "signatures" with
  | .leaf .undefined => throw (JsValue.cannotRead "undefined" "0")
  | .leaf .null => throw (JsValue.cannotRead "null" "0")
  | .array (.leaf (.string signature) :: _) => pure signature
  | _ => pure "undefined"

def transformTransaction (baseBlock tx : Value) : Except String Value :=
  match wrapTransaction baseBlock tx with
  | .ok wrapped => .ok wrapped
  | .error _ => do throw ("Failed to transform transaction: " ++ (← firstSignature tx))

def transformBlock (block : Value) : Except String Value := do
  let transactions ← block.get "transactions"
  let baseBlock : Value := .object (block.fields.filter fun field => field.1 ≠ "transactions")
  let transformed ← (← transactions.items).mapM (transformTransaction baseBlock)
  pure (baseBlock.spread [("transactions", .array transformed)])

/-! ## `parseBlock` -/

/-- `@solana/rpc-transformers`. -/
structure RpcTransformers where
  /-- The transformer, with the allowed key paths of each method, of a response to a method. -/
  getDefaultResponseTransformerForSolanaRpc :
    List (String × List AllowedPath) → Json → String → Value
  innerInstructionsConfigs : List AllowedPath
  messageConfig : List AllowedPath

/-- What is assumed of the transformer: it takes the result, every integer whose key path is not allowed
becomes a `bigint`, and all else stays. -/
structure RpcTransformers.Upcasts (rpc : RpcTransformers) : Prop where
  upcasts : ∀ (methodName : String) (allowed : List AllowedPath) (result : Json),
    rpc.getDefaultResponseTransformerForSolanaRpc [(methodName, allowed)]
      (.object [("result", result)]) methodName = upcast allowed result

def allowedNumericKeyPaths (rpc : RpcTransformers) : List AllowedPath :=
  [[.key "transactions", .wildcard, .key "meta", .key "preTokenBalances", .wildcard,
      .key "accountIndex"],
    [.key "transactions", .wildcard, .key "meta", .key "preTokenBalances", .wildcard,
      .key "uiTokenAmount", .key "decimals"],
    [.key "transactions", .wildcard, .key "meta", .key "postTokenBalances", .wildcard,
      .key "accountIndex"],
    [.key "transactions", .wildcard, .key "meta", .key "postTokenBalances", .wildcard,
      .key "uiTokenAmount", .key "decimals"],
    [.key "transactions", .wildcard, .key "meta", .key "rewards", .wildcard, .key "commission"]] ++
  (rpc.innerInstructionsConfigs.map fun c =>
    [.key "transactions", .wildcard, .key "meta", .key "innerInstructions", .wildcard] ++ c) ++
  (rpc.messageConfig.map fun c =>
    [.key "transactions", .wildcard, .key "transaction", .key "message"] ++ c) ++
  [[.key "rewards", .wildcard, .key "commission"]]

def parseBlock (rpc : RpcTransformers) (block : Json) : Except String Value :=
  let methodName := "parseBlock"
  let rpcBlock := rpc.getDefaultResponseTransformerForSolanaRpc
    [(methodName, allowedNumericKeyPaths rpc)] (.object [("result", block)]) methodName
  transformBlock rpcBlock

/-! ## What a dictionary answers -/

structure IsMeta (raw : Json) : Prop where
  object : ∃ fields, raw = .object fields
  innerInstructions : raw.at? [.key "innerInstructions"] = none ∨
    raw.at? [.key "innerInstructions"] = some (.leaf .null) ∨
    ∃ inner, raw.at? [.key "innerInstructions"] = some (.array inner) ∧
      ∀ t ∈ inner, ∃ instructions, t.at? [.key "instructions"] = some (.array instructions)
  logs : ∃ entries, raw.at? [.key "logs"] = some (.array entries) ∧
    ∀ entry ∈ entries, ∃ fields, entry = .object fields

structure IsTransaction (tx : Json) : Prop where
  object : ∃ fields, tx = .object fields
  instructions : ∃ transaction message instructions,
    tx.at? [.key "transaction"] = some transaction ∧
    transaction.at? [.key "message"] = some message ∧
    message.at? [.key "instructions"] = some (.array instructions)
  «meta» : tx.at? [.key "meta"] = none ∨ tx.at? [.key "meta"] = some (.leaf .null) ∨
    ∃ raw, tx.at? [.key "meta"] = some raw ∧ IsMeta raw

/-- The properties that are read are there, and are arrays or objects as they should be. -/
def IsDictionaryBlock (block : Json) : Prop :=
  ∃ transactions, block.at? [.key "transactions"] = some (.array transactions) ∧
    ∀ tx ∈ transactions, IsTransaction tx

/-- An entry as JSON, with `kind` for `type`. A program that is `undefined` is left out. -/
structure Carries (entry : Json) (log : SolanaLogMessage) : Prop where
  message : entry.at? [.key "message"] = some (.leaf (.string log.message))
  logIndex : ∃ n : Nat, log.logIndex = .number n ∧
    entry.at? [.key "logIndex"] = some (.leaf (.number (.integer n)))
  programId : entry.at? [.key "programId"] = log.programId.map fun id => .leaf (.string id)
  kind : entry.at? [.key "kind"] = some (.leaf (.string (kindOf log.type)))

/-- Where the logs of a transaction are. -/
def logsPath (i : Nat) : KeyPath := [.key "transactions", .index i, .key "meta", .key "logs"]

/-! ## The entries of `wrapLogs` -/

def entryKeywords : List String := ["Program log:", "Program data:", "Program return:"]

/-- A line that `wrapLogs` makes an entry of. -/
def makesEntry (log : String) : Bool := entryKeywords.any fun keyword => log.startsWith keyword

/-- The other lines add nothing. -/
theorem wrapLog_of_no_entry {idx : Nat} {path path' : List String} {log : String}
    {entries : List SolanaLogMessage} (hno : makesEntry log = false)
    (h : wrapLog idx path log = .ok (entries, path')) : entries = [] := by
  simp only [makesEntry, entryKeywords, List.any_cons, List.any_nil, Bool.or_false,
    Bool.or_eq_false_iff] at hno
  obtain ⟨hlog, hdata, hreturn⟩ := hno
  rw [wrapLog, if_neg (ne_true_of_eq_false hlog), if_neg (ne_true_of_eq_false hdata),
    if_neg (ne_true_of_eq_false hreturn)] at h
  by_cases hconsumption : log.startsWith "Program consumption:" = true
  · rw [if_pos hconsumption] at h
    exact (congrArg Prod.fst (Except.ok.inj h)).symm
  · rw [if_neg hconsumption] at h
    by_cases hprogram : log.startsWith "Program" = true
    · rw [if_pos hprogram] at h
      rcases hwords : words log with _ | ⟨_, _ | ⟨program, _ | ⟨mode, following⟩⟩⟩
      · rw [hwords] at h
        cases h
      · rw [hwords] at h
        cases h
      · rw [hwords] at h
        cases h
      · rw [hwords] at h
        obtain ⟨path'', -, hpath⟩ := map_eq_ok.mp h
        exact (congrArg Prod.fst hpath).symm
    · rw [if_neg hprogram] at h
      exact (congrArg Prod.fst (Except.ok.inj h)).symm

/-- What the promise of an entry is for follows from its type. -/
def OwnPromise (log : SolanaLogMessage) : Prop :=
  decodedMessageOf (JsValue.string (kindOf log.type)) = log.decodedMessage

theorem ownPromise_null {message : String} {programId : Option String} {logIndex : JsNumber}
    {type : LogType} (h : type = .log) : OwnPromise ⟨message, programId, logIndex, type, .null⟩ := by
  simp [OwnPromise, decodedMessageOf, JsValue.string, kindOf, h]

theorem ownPromise_decodeLog {message : String} {programId : Option String} {logIndex : JsNumber}
    {type : LogType} (h : type ≠ .log) :
    OwnPromise ⟨message, programId, logIndex, type, .decodeLog⟩ := by
  cases type <;> simp [OwnPromise, decodedMessageOf, JsValue.string, kindOf] at h ⊢

theorem wrapLog_of_entry (idx : Nat) (path : List String) {log : String}
    (hentry : makesEntry log = true) :
    ∃ entry, wrapLog idx path log = .ok ([entry], path) ∧ OwnPromise entry := by
  by_cases hlog : log.startsWith "Program log:" = true
  · refine ⟨⟨log, path.getLast?, .number idx, .log, .null⟩, ?_, ownPromise_null rfl⟩
    rw [wrapLog, if_pos hlog]
  by_cases hdata : log.startsWith "Program data:" = true
  · refine ⟨⟨log, path.getLast?, .number idx, .data, .decodeLog⟩, ?_, ownPromise_decodeLog (by decide)⟩
    rw [wrapLog, if_neg hlog, if_pos hdata]
  have hreturn : log.startsWith "Program return:" = true := by
    simpa [makesEntry, entryKeywords, hlog, hdata] using hentry
  refine ⟨⟨log, path.getLast?, .number idx, .other, .decodeLog⟩, ?_, ownPromise_decodeLog (by decide)⟩
  rw [wrapLog, if_neg hlog, if_neg hdata, if_pos hreturn]

/-- The loop: an entry for each line that makes one, and each with its promise. -/
theorem wrapLoop_entries {lines : List String} : ∀ {idx : Nat} {path : List String}
    {entries : List SolanaLogMessage}, wrapLoop idx path lines = .ok entries →
    (entries = [] ↔ ∀ line ∈ lines, makesEntry line = false) ∧
      ∀ entry ∈ entries, OwnPromise entry := by
  induction lines with
  | nil =>
    intro idx path entries h
    cases h
    simp
  | cons line lines ih =>
    intro idx path entries h
    obtain ⟨⟨first, path'⟩, hfirst, h⟩ := bind_eq_ok.mp h
    obtain ⟨following, hfollowing, h⟩ := bind_eq_ok.mp h
    cases h
    obtain ⟨hnil, hown⟩ := ih hfollowing
    cases hentry : makesEntry line with
    | true =>
      obtain ⟨entry, hwrap, hpromise⟩ := wrapLog_of_entry idx path hentry
      rw [hwrap] at hfirst
      cases hfirst
      constructor
      · simp [hentry]
      · intro other hother
        rcases List.mem_cons.mp hother with rfl | hother
        · exact hpromise
        · exact hown other hother
    | false =>
      rw [wrapLog_of_no_entry hentry hfirst, List.nil_append]
      exact ⟨by simp [hentry, hnil], hown⟩

end Untyped

end SubqlSolana
