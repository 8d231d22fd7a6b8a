import SubqlSolana.Dictionary.ParseBlock

/-!
# The logs of a parsed block

What `parseBlock` makes of the logs of a dictionary. No allowed key path covers their `logIndex`, so
that it is upcast, and the wrapper takes it as it is. **It reaches the handlers as a `bigint`; in
everything else the entries are those of `wrapLogs`** (`parseBlock_logs`), and so the two agree exactly
if there are no entries (`parseBlock_agrees_iff`).
-/

set_option autoImplicit false

namespace SubqlSolana.Untyped

open Lib

/-! ## One entry -/

section

variable {allowed : List AllowedPath} {path : KeyPath}

/-- A value of the response, after the transformer. -/
def upcastAt (allowed : List AllowedPath) (path : KeyPath) (t : Json) : Value :=
  t.mapLeaves (upcastScalar allowed) path

theorem wrapDictionaryLog_carries {entry : Json} {log : SolanaLogMessage} (h : Carries entry log)
    (hown : OwnPromise log) (hindex : isAllowed allowed (path ++ [.key "logIndex"]) = false) :
    wrapDictionaryLog (upcastAt allowed path entry) = .ok (logValue log.upcast) := by
  have hobject : ∃ fields, entry = .object fields := by
    have hmessage := h.message
    cases entry with
    | object fields => exact ⟨fields, rfl⟩
    | _ => cases hmessage
  have hmessage : JsValue.get "message" (upcastAt allowed path entry) =
      .ok (JsValue.string log.message) := JsValue.get_mapLeaves _ path h.message
  have hkind : JsValue.get "kind" (upcastAt allowed path entry) =
      .ok (JsValue.string (kindOf log.type)) := JsValue.get_mapLeaves _ path h.kind
  have hlogIndex : JsValue.get "logIndex" (upcastAt allowed path entry) =
      .ok (numberValue log.logIndex.upcast) := by
    obtain ⟨n, hn, hleaf⟩ := h.logIndex
    refine (JsValue.get_mapLeaves _ path hleaf).trans ?_
    simp only [JsonTree.mapLeaves, upcastScalar, hindex, hn]
    rfl
  have hprogramId : JsValue.get "programId" (upcastAt allowed path entry) =
      .ok (log.programId.elim JsValue.undefined JsValue.string) := by
    have hprogramId := h.programId
    cases hid : log.programId with
    | none =>
      rw [hid] at hprogramId
      obtain ⟨fields, rfl⟩ := hobject
      exact JsValue.get_mapLeaves_none _ path hprogramId
    | some id =>
      rw [hid] at hprogramId
      exact JsValue.get_mapLeaves _ path hprogramId
  simp only [wrapDictionaryLog, hmessage, hprogramId, hlogIndex, hkind, ok_bind]
  rw [hown]
  rfl

/-- Nothing goes wrong with an entry that is an object. -/
theorem wrapDictionaryLog_isOk (fields : List (String × Value)) :
    ∃ entry, wrapDictionaryLog (.object fields) = .ok entry := ⟨_, rfl⟩

/-- The indices of an array do not matter here. -/
theorem mapM_mapItems {g : Value → Except String Value} {items : List Json} {results : List Value}
    (h : List.Forall₂ (fun t result => ∀ j, g (upcastAt allowed (path ++ [.index j]) t) = .ok result)
      items results) (k : Nat) :
    (JsonTree.mapItems (upcastScalar allowed) path k items).mapM g = .ok results := by
  induction h generalizing k with
  | nil => rfl
  | cons hfirst _ ih =>
    have hfirst := hfirst k
    unfold upcastAt at hfirst
    rw [JsonTree.mapItems, List.mapM_cons, hfirst, ok_bind, ih (k + 1), ok_bind]
    rfl

/-- A loop over an array whose elements all go well. -/
theorem mapM_mapItems_isOk (allowed : List AllowedPath) (path : KeyPath)
    {g : Value → Except String Value} {items : List Json}
    (h : ∀ t ∈ items, ∀ path, ∃ result, g (upcastAt allowed path t) = .ok result) (k : Nat) :
    ∃ results, (JsonTree.mapItems (upcastScalar allowed) path k items).mapM g = .ok results ∧
      List.Forall₂ (fun t result => g t = .ok result)
        (JsonTree.mapItems (upcastScalar allowed) path k items) results := by
  apply mapM_ok
  intro t' ht'
  obtain ⟨j, t, ht, rfl⟩ := JsonTree.mem_mapItems _ ht'
  exact h t ht _

/-! ## One transaction -/

variable {raw tx : Json}

theorem metaLogs_eq {entries : List Json} {results : List Value}
    (hentries : raw.at? [.key "logs"] = some (.array entries))
    (hresults : (JsonTree.mapItems (upcastScalar allowed) (path ++ [.key "logs"]) 0 entries).mapM
      wrapDictionaryLog = .ok results) :
    metaLogs (upcastAt allowed path raw) = .ok (.array results) := by
  have hlogs : JsValue.get "logs" (upcastAt allowed path raw) =
      .ok (.array (JsonTree.mapItems (upcastScalar allowed) (path ++ [.key "logs"]) 0 entries)) :=
    JsValue.get_mapLeaves _ path hentries
  simp only [metaLogs, hlogs, ok_bind, JsValue.truthy, if_true, wrapDictionaryLogs, JsValue.items,
    hresults]
  rfl

theorem metaLogs_isOk (allowed : List AllowedPath) (path : KeyPath) (h : IsMeta raw) :
    ∃ logs, metaLogs (upcastAt allowed path raw) = .ok logs := by
  obtain ⟨entries, hentries, hobjects⟩ := h.logs
  have hone : ∀ t ∈ entries, ∀ path,
      ∃ entry, wrapDictionaryLog (upcastAt allowed path t) = .ok entry := by
    intro t ht path
    obtain ⟨fields, rfl⟩ := hobjects t ht
    exact wrapDictionaryLog_isOk _
  obtain ⟨results, hresults, -⟩ := mapM_mapItems_isOk allowed (path ++ [.key "logs"]) hone 0
  exact ⟨_, metaLogs_eq hentries hresults⟩

theorem wrapDictionaryLogs_carry {entries : List Json} {logs : List SolanaLogMessage}
    (hcarries : List.Forall₂ Carries entries logs) (hown : ∀ log ∈ logs, OwnPromise log)
    (hindex : ∀ j, isAllowed allowed (path ++ [.index j] ++ [.key "logIndex"]) = false) :
    List.Forall₂ (fun t result =>
        ∀ j, wrapDictionaryLog (upcastAt allowed (path ++ [.index j]) t) = .ok result)
      entries (logs.map fun log => logValue log.upcast) := by
  induction hcarries with
  | nil => exact .nil
  | cons hfirst _ ih =>
    refine .cons (fun j => ?_) (ih fun log hlog => hown log (List.mem_cons_of_mem _ hlog))
    exact wrapDictionaryLog_carries hfirst (hown _ List.mem_cons_self) (hindex j)

theorem metaLogs_carries {entries : List Json} {logs : List SolanaLogMessage}
    (hentries : raw.at? [.key "logs"] = some (.array entries))
    (hcarries : List.Forall₂ Carries entries logs) (hown : ∀ log ∈ logs, OwnPromise log)
    (hindex : ∀ j, isAllowed allowed
      (path ++ [.key "logs"] ++ [.index j] ++ [.key "logIndex"]) = false) :
    metaLogs (upcastAt allowed path raw) = .ok (.array (logs.map fun log => logValue log.upcast)) :=
  metaLogs_eq hentries (mapM_mapItems (wrapDictionaryLogs_carry hcarries hown hindex) 0)

/-- A property of a value of the response. -/
theorem at?_upcastAt (allowed : List AllowedPath) (path : KeyPath) {t t' : Json} {path' : KeyPath}
    (h : t.at? path' = some t') :
    (upcastAt allowed path t).at? path' = some (upcastAt allowed (path ++ path') t') := by
  unfold upcastAt
  rw [JsonTree.at?_mapLeaves, h]
  rfl

theorem transformInner_isOk {t : Json} {items : List Json} (tx baseBlock : Value)
    (h : t.at? [.key "instructions"] = some (.array items)) :
    ∃ inner, transformInner tx baseBlock (upcastAt allowed path t) = .ok inner := by
  have hat := at?_upcastAt allowed path h
  have hinstructions := JsValue.get_eq_of_at? hat
  obtain ⟨index, hindex⟩ := JsValue.get_isOk_of_at? hat "index"
  exact ⟨_, bind_eq_ok.mpr ⟨_, hinstructions, bind_eq_ok.mpr ⟨_, rfl,
    bind_eq_ok.mpr ⟨index, hindex, rfl⟩⟩⟩⟩

/-- The inner instructions of a transaction that may have none. -/
theorem innerInstructions_isOk (allowed : List AllowedPath) (path : KeyPath) (h : IsMeta raw)
    (tx baseBlock : Value) :
    ∃ inner items wrapped, JsValue.get "innerInstructions" (upcastAt allowed path raw) = .ok inner ∧
      (inner.coalesce (.array [])).items = .ok items ∧
      items.mapM (transformInner tx baseBlock) = .ok wrapped := by
  rcases h.innerInstructions with hnone | hnull | ⟨inner, hinner, hall⟩
  · obtain ⟨fields, rfl⟩ := h.object
    exact ⟨_, _, _, JsValue.get_mapLeaves_none _ path hnone, rfl, rfl⟩
  · exact ⟨_, _, _, JsValue.get_mapLeaves _ path hnull, rfl, rfl⟩
  · have hone : ∀ t ∈ inner, ∀ path,
        ∃ wrapped, transformInner tx baseBlock (upcastAt allowed path t) = .ok wrapped := by
      intro t ht path
      obtain ⟨instructions, hinstructions⟩ := hall t ht
      exact transformInner_isOk tx baseBlock hinstructions
    obtain ⟨wrapped, hwrapped, -⟩ :=
      mapM_mapItems_isOk allowed (path ++ [.key "innerInstructions"]) hone 0
    have hitems := JsValue.items_mapLeaves (upcastScalar (G := Getter) allowed)
      (path ++ [.key "innerInstructions"]) inner
    exact ⟨_, _, wrapped, JsValue.get_mapLeaves _ path hinner, hitems, hwrapped⟩

/-- `meta` has the logs that come out of `metaLogs`. -/
theorem transformMeta_logs (h : IsMeta raw) {logs : Value} (tx baseBlock : Value)
    (hlogs : metaLogs (upcastAt allowed path raw) = .ok logs) :
    ∃ m, transformMeta tx baseBlock (upcastAt allowed path raw) = .ok m ∧
      m.at? [.key "logs"] = some logs := by
  obtain ⟨inner, items, wrapped, hinner, hitems, hwrapped⟩ :=
    innerInstructions_isOk allowed path h tx baseBlock
  refine ⟨_, bind_eq_ok.mpr ⟨inner, hinner, bind_eq_ok.mpr ⟨items, hitems,
    bind_eq_ok.mpr ⟨wrapped, hwrapped, bind_eq_ok.mpr ⟨logs, hlogs, rfl⟩⟩⟩⟩, ?_⟩
  exact (JsValue.at?_spread_last _ [_] _ _ _).trans (JsonTree.at?_nil _)

/-- A transaction has logs, and this is what comes out of `metaLogs` for them. -/
def LogsOf (allowed : List AllowedPath) (path : KeyPath) (tx : Json) (logs : Value) : Prop :=
  ∃ rawMeta entries, tx.at? [.key "meta"] = some rawMeta ∧
    rawMeta.at? [.key "logs"] = some entries ∧
    metaLogs (upcastAt allowed (path ++ [.key "meta"]) rawMeta) = .ok logs

/-- A transaction without `meta` has no logs. -/
theorem wrapMeta_logs (allowed : List AllowedPath) (path : KeyPath) (h : IsTransaction tx)
    (txValue baseBlock : Value) :
    ∃ raw m, JsValue.get "meta" (upcastAt allowed path tx) = .ok raw ∧
      wrapMeta txValue baseBlock raw = .ok m ∧
      ∀ logs, LogsOf allowed path tx logs → m.at? [.key "logs"] = some logs := by
  rcases h.meta with hnone | hnull | ⟨rawMeta, hmeta, hshape⟩
  · obtain ⟨fields, rfl⟩ := h.object
    refine ⟨_, _, JsValue.get_mapLeaves_none _ path hnone, rfl, ?_⟩
    rintro logs ⟨rawMeta, entries, hmeta, -⟩
    rw [hnone] at hmeta
    cases hmeta
  · refine ⟨_, _, JsValue.get_mapLeaves _ path hnull, rfl, ?_⟩
    rintro logs ⟨rawMeta, entries, hmeta, hentries, -⟩
    rw [hnull] at hmeta
    cases hmeta
    cases hentries
  · obtain ⟨logs, hlogs⟩ := metaLogs_isOk allowed (path ++ [.key "meta"]) hshape
    obtain ⟨m, hm, hmlogs⟩ := transformMeta_logs hshape txValue baseBlock hlogs
    obtain ⟨fields, rfl⟩ := hshape.object
    refine ⟨_, m, JsValue.get_mapLeaves _ path hmeta, hm, ?_⟩
    rintro logs' ⟨rawMeta', entries, hmeta', -, hlogs'⟩
    rw [hmeta] at hmeta'
    cases hmeta'
    rw [hlogs] at hlogs'
    cases hlogs'
    exact hmlogs

theorem transformTransaction_logs (allowed : List AllowedPath) (path : KeyPath)
    (h : IsTransaction tx) (baseBlock : Value) :
    ∃ wrapped, transformTransaction baseBlock (upcastAt allowed path tx) = .ok wrapped ∧
      ∀ logs, LogsOf allowed path tx logs →
        wrapped.at? [.key "meta", .key "logs"] = some logs := by
  obtain ⟨transaction, message, instructions, htransaction, hmessage, hinstructions⟩ :=
    h.instructions
  obtain ⟨raw, m, hraw, hm, hlogs⟩ :=
    wrapMeta_logs allowed path h (upcastAt allowed path tx) baseBlock
  have hwrapped : wrapTransaction baseBlock (upcastAt allowed path tx) = .ok _ :=
    bind_eq_ok.mpr ⟨_, JsValue.get_mapLeaves _ path htransaction,
      bind_eq_ok.mpr ⟨_, JsValue.get_mapLeaves _ _ hmessage,
      bind_eq_ok.mpr ⟨_, JsValue.get_mapLeaves _ _ hinstructions,
      bind_eq_ok.mpr ⟨_, JsValue.items_mapLeaves _ _ _,
      bind_eq_ok.mpr ⟨raw, hraw, bind_eq_ok.mpr ⟨m, hm, rfl⟩⟩⟩⟩⟩⟩
  refine ⟨_, by rw [transformTransaction, hwrapped], fun logs hown => ?_⟩
  rw [← hlogs logs hown]
  exact JsValue.at?_spread_last _ [_, _] _ _ _

end

/-! ## The block -/

theorem logIndex_not_allowed (rpc : RpcTransformers) (i j : Nat) :
    isAllowed (allowedNumericKeyPaths rpc) (logsPath i ++ [.index j] ++ [.key "logIndex"]) = false := by
  simp [isAllowed, allowedNumericKeyPaths, logsPath, AllowedPath.covers, AllowedPathPart.covers]

theorem parseBlock_eq {rpc : RpcTransformers} (hrpc : rpc.Upcasts) (block : Json) :
    parseBlock rpc block = transformBlock (upcastAt (allowedNumericKeyPaths rpc) [] block) :=
  congrArg transformBlock (hrpc.upcasts _ _ _)

/-- Every transaction of the block has the logs that come out of `metaLogs`. -/
theorem transformBlock_logs {allowed : List AllowedPath} {block : Json} {transactions : List Json}
    (htransactions : block.at? [.key "transactions"] = some (.array transactions))
    (hall : ∀ tx ∈ transactions, IsTransaction tx) :
    ∃ result, transformBlock (upcastAt allowed [] block) = .ok result ∧
      ∀ (i : Nat) tx logs, transactions[i]? = some tx →
        LogsOf allowed [.key "transactions", .index i] tx logs →
        result.at? (logsPath i) = some logs := by
  let baseBlock : Value :=
    .object ((JsValue.fields (upcastAt allowed [] block)).filter fun field => field.1 ≠ "transactions")
  have hone : ∀ tx ∈ transactions, ∀ path,
      ∃ wrapped, transformTransaction baseBlock (upcastAt allowed path tx) = .ok wrapped := by
    intro tx hmem path
    obtain ⟨wrapped, hwrapped, -⟩ := transformTransaction_logs allowed path (hall tx hmem) baseBlock
    exact ⟨wrapped, hwrapped⟩
  obtain ⟨transformed, htransformed, heach⟩ :=
    mapM_mapItems_isOk allowed [.key "transactions"] hone 0
  refine ⟨_, bind_eq_ok.mpr ⟨_, JsValue.get_mapLeaves _ [] htransactions,
    bind_eq_ok.mpr ⟨_, JsValue.items_mapLeaves _ _ _,
    bind_eq_ok.mpr ⟨transformed, htransformed, rfl⟩⟩⟩, fun i tx logs htx hlogs => ?_⟩
  obtain ⟨wrapped, hwrapped, hwlogs⟩ := transformTransaction_logs allowed
    [.key "transactions", .index i] (hall tx (List.mem_of_getElem? htx)) baseBlock
  have hi : transformed[i]? = some wrapped := by
    refine getElem?_of_forall₂ heach ?_ hwrapped
    rw [JsonTree.getElem?_mapItems, htx, Nat.zero_add]
    rfl
  refine (JsValue.at?_spread_last _ [] _ _ _).trans ?_
  rw [JsonTree.at?_index, hi]
  exact hwlogs logs hlogs

/-- Where the logs of a transaction are read from. -/
theorem at?_logsPath {block logs : Json} {transactions : List Json} {i : Nat}
    (htransactions : block.at? [.key "transactions"] = some (.array transactions))
    (h : block.at? (logsPath i) = some logs) :
    ∃ tx rawMeta, transactions[i]? = some tx ∧ tx.at? [.key "meta"] = some rawMeta ∧
      rawMeta.at? [.key "logs"] = some logs := by
  rw [logsPath, JsonTree.at?_cons, htransactions, Option.bind_some, JsonTree.at?_index] at h
  obtain ⟨tx, htx, h⟩ := Option.bind_eq_some_iff.mp h
  rw [JsonTree.at?_cons] at h
  obtain ⟨rawMeta, hmeta, h⟩ := Option.bind_eq_some_iff.mp h
  exact ⟨tx, rawMeta, htx, hmeta, h⟩

/-- An array of lines is wrapped by the loop. -/
theorem wrapLoop_of_wrapLogs {L : List String} {logs : List SolanaLogMessage}
    (h : wrapLogs (some L) = .ok (some logs)) : wrapLoop 0 [] L = .ok logs := by
  obtain ⟨logs', hloop, hsome⟩ := map_eq_ok.mp h
  cases hsome
  exact hloop

section

variable {rpc : RpcTransformers} {block : Json} {L : List String} {logs : List SolanaLogMessage}
  {i : Nat} {entries : List Json}

/-- **The parsed logs**: the entries of `wrapLogs`, with a `bigint` for the index. -/
theorem parseBlock_logs (hrpc : rpc.Upcasts) (hblock : IsDictionaryBlock block)
    (hlogs : wrapLogs (some L) = .ok (some logs))
    (hentries : block.at? (logsPath i) = some (.array entries))
    (hcarries : List.Forall₂ Carries entries logs) :
    ∃ result, parseBlock rpc block = .ok result ∧
      result.at? (logsPath i) = some (.array (logs.map fun log => logValue log.upcast)) := by
  obtain ⟨transactions, htransactions, hall⟩ := hblock
  obtain ⟨tx, rawMeta, htx, hmeta, hraw⟩ := at?_logsPath htransactions hentries
  obtain ⟨result, hresult, heach⟩ := transformBlock_logs htransactions hall
  have hown := (wrapLoop_entries (wrapLoop_of_wrapLogs hlogs)).2
  refine ⟨result, (parseBlock_eq hrpc block).trans hresult, ?_⟩
  apply heach i tx _ htx
  exact ⟨rawMeta, _, hmeta, hraw, metaLogs_carries hraw hcarries hown (logIndex_not_allowed rpc i)⟩

/-- A `bigint` is no number. -/
theorem Carries.upcast_ne {entry : Json} {log : SolanaLogMessage} (h : Carries entry log) :
    logValue log.upcast ≠ logValue log := by
  obtain ⟨n, hn, -⟩ := h.logIndex
  simp [logValue, SolanaLogMessage.upcast, hn, numberValue, JsNumber.upcast, JsValue.integer]

theorem map_upcast_iff (hcarries : List.Forall₂ Carries entries logs) :
    (logs.map fun log => logValue log.upcast) = logs.map logValue ↔ logs = [] := by
  cases hcarries with
  | nil => simp
  | cons hcarries _ => simp [hcarries.upcast_ne]

/-- **When the logs of a dictionary are those of `wrapLogs`**: if there are none. -/
theorem parseBlock_agrees_iff (hrpc : rpc.Upcasts) (hblock : IsDictionaryBlock block)
    (hlogs : wrapLogs (some L) = .ok (some logs))
    (hentries : block.at? (logsPath i) = some (.array entries))
    (hcarries : List.Forall₂ Carries entries logs) :
    (∃ result, parseBlock rpc block = .ok result ∧
      result.at? (logsPath i) = some (.array (logs.map logValue))) ↔
      ∀ line ∈ L, makesEntry line = false := by
  obtain ⟨result, hresult, hparsed⟩ := parseBlock_logs hrpc hblock hlogs hentries hcarries
  rw [← (wrapLoop_entries (wrapLoop_of_wrapLogs hlogs)).1, ← map_upcast_iff hcarries]
  constructor
  · rintro ⟨result', hresult', hagrees⟩
    rw [hresult] at hresult'
    cases hresult'
    rw [hparsed] at hagrees
    exact JsonTree.array.inj (Option.some.inj hagrees)
  · intro hsame
    exact ⟨result, hresult, hsame ▸ hparsed⟩

end

/-! ## Entries of the known type -/

/-- An entry as a value, without the transformer. -/
def dictionaryLogValue (l : DictionaryLog) : Value :=
  .object [("message", JsValue.string l.message), ("logIndex", numberValue l.logIndex),
    ("programId", JsValue.string l.programId), ("kind", JsValue.string (kindOf l.kind))]

/-- The wrapper for entries whose `logIndex` is a number is this one on their values. -/
theorem wrapDictionaryLogs_typed (logs : List DictionaryLog) :
    wrapDictionaryLogs (.array (logs.map dictionaryLogValue)) =
      .ok (.array ((SubqlSolana.wrapDictionaryLogs logs).map logValue)) := by
  have hone : ∀ l : DictionaryLog, wrapDictionaryLog (dictionaryLogValue l) =
      .ok (logValue ⟨l.message, some l.programId, l.logIndex, l.kind,
        if l.kind ∈ [.other, .data] then .decodeLog else .null⟩) := by
    rintro ⟨message, logIndex, programId, kind⟩
    cases kind <;> rfl
  simp only [wrapDictionaryLogs, JsValue.items, ok_bind, mapM_map_ok hone, SubqlSolana.wrapDictionaryLogs,
    List.map_map]
  rfl

/-! ## One log line -/

namespace LoneLog

/-- The transformers, with the paths of instructions and messages. -/
def transformers : RpcTransformers where
  getDefaultResponseTransformerForSolanaRpc configs response methodName :=
    match response.at? [.key "result"] with
    | some result => upcast ((configs.lookup methodName).getD []) result
    | none => JsValue.undefined
  innerInstructionsConfigs := [[.key "index"],
    [.key "instructions", .wildcard, .key "accounts", .wildcard],
    [.key "instructions", .wildcard, .key "programIdIndex"]]
  messageConfig := [[.key "instructions", .wildcard, .key "accounts", .wildcard],
    [.key "instructions", .wildcard, .key "programIdIndex"]]

theorem upcasts : transformers.Upcasts where
  upcasts methodName allowed result := by
    simp [transformers]

/-- `Program Token invoke [1]`, and a log line. -/
def events : List Printed :=
  [.opens (⟨"Token", by decide, by decide⟩, 1), .leaf (.log " Hello")]

def lines : List String := events.map printedText

def log : SolanaLogMessage := ⟨"Program log: Hello", some "Token", .number 1, .log, .null⟩

def entry : Json :=
  .object [("message", .leaf (.string "Program log: Hello")), ("logIndex", .leaf (.number (.integer 1))),
    ("programId", .leaf (.string "Token")), ("kind", .leaf (.string "log"))]

def transaction : Json :=
  .object [("transaction", .object [("message", .object [("instructions", .array [])])]),
    ("meta", .object [("logs", .array [entry])])]

def block : Json :=
  .object [("blockhash", .leaf (.string "hash")), ("transactions", .array [transaction])]

theorem wrapped : wrapLogs (some lines) = .ok (some [log]) :=
  congrArg (Except.map some) (wrapLoop_printed events 0 [])

theorem isDictionaryBlock : IsDictionaryBlock block := by
  refine ⟨[transaction], rfl, fun tx hmem => ?_⟩
  rw [List.mem_singleton.mp hmem]
  refine ⟨⟨_, rfl⟩, ⟨_, _, _, rfl, rfl, rfl⟩, .inr (.inr ⟨_, rfl, ⟨_, rfl⟩, .inl rfl, _, rfl, ?_⟩)⟩
  intro e he
  rw [List.mem_singleton.mp he]
  exact ⟨_, rfl⟩

theorem carries : List.Forall₂ Carries [entry] [log] := .cons ⟨rfl, ⟨1, rfl, rfl⟩, rfl, rfl⟩ .nil

theorem parseBlock_agrees_iff_lone :
    (∃ result, parseBlock transformers block = .ok result ∧
      result.at? (logsPath 0) = some (.array [logValue log])) ↔
      ∀ line ∈ lines, makesEntry line = false :=
  parseBlock_agrees_iff upcasts isDictionaryBlock wrapped rfl carries

/-- **The index of a log is not the same number**: it is a `bigint`. -/
theorem index_is_upcast :
    ¬∀ (rpc : RpcTransformers) (block : Json) (L : List String) (logs : List SolanaLogMessage)
      (i : Nat) (entries : List Json), rpc.Upcasts → IsDictionaryBlock block →
      wrapLogs (some L) = .ok (some logs) → block.at? (logsPath i) = some (.array entries) →
      List.Forall₂ Carries entries logs →
      ∃ result, parseBlock rpc block = .ok result ∧
        result.at? (logsPath i) = some (.array (logs.map logValue)) := by
  intro h
  obtain ⟨result, hresult, hagrees⟩ :=
    h transformers block lines [log] 0 [entry] upcasts isDictionaryBlock wrapped rfl carries
  have hentries : block.at? (logsPath 0) = some (.array [entry]) := rfl
  obtain ⟨result', hresult', hparsed⟩ :=
    parseBlock_logs upcasts isDictionaryBlock wrapped hentries carries
  rw [hresult] at hresult'
  cases hresult'
  rw [hparsed] at hagrees
  have hsame := (map_upcast_iff carries).mp (JsonTree.array.inj (Option.some.inj hagrees))
  cases hsame

end LoneLog

end SubqlSolana.Untyped
