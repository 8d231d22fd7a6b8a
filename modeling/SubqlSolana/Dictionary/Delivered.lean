import SubqlSolana.Dictionary.Paging
import SubqlSolana.Indexer.Dispatch

/-!
# Transactions as a dictionary delivers them

A dictionary attributes the logs of a transaction itself: `meta` has `logs` instead of `logMessages`, and
their `logIndex` comes out of `parseBlock` as a `bigint`. So a handler is not called with quite the same
things as without a dictionary. `plain` is what both have in common: **they differ in the type of these
indices, and in the logs of the raw transaction that an instruction comes with**, and in nothing else
(`DictionaryForm.transformTransaction`).
-/

set_option autoImplicit false

namespace SubqlSolana

open Lib

/-! ## What both have in common -/

def SolanaLogMessage.plain (log : SolanaLogMessage) : SolanaLogMessage :=
  { log with logIndex := .number log.logIndex.value }

/-- Without the logs, in whichever form they are. -/
def RawMeta.plain (raw : RawMeta) : RawMeta := { raw with logMessages := none, logs := none }

def TransactionForFullJson.plain (tx : TransactionForFullJson) : TransactionForFullJson :=
  { tx with «meta» := tx.meta.map RawMeta.plain }

def SolanaInstruction.plain (instruction : SolanaInstruction) : SolanaInstruction :=
  { instruction with transaction := instruction.transaction.plain }

def InnerInstructions.plain (inner : InnerInstructions SolanaInstruction) :
    InnerInstructions SolanaInstruction :=
  { inner with instructions := inner.instructions.map SolanaInstruction.plain }

def TransactionMeta.plain (m : TransactionMeta) : TransactionMeta :=
  { m with
    innerInstructions := m.innerInstructions.map InnerInstructions.plain
    logs := m.logs.map (List.map SolanaLogMessage.plain) }

def SolanaTransaction.plain (tx : SolanaTransaction) : SolanaTransaction :=
  { tx with
    instructions := tx.instructions.map SolanaInstruction.plain
    «meta» := tx.meta.map TransactionMeta.plain }

def Item.plain : Item → Item
  | transaction tx => .transaction tx.plain
  | instruction i => .instruction i.plain
  | log l => .log l.plain

def HandlerData.plain : HandlerData → HandlerData
  | block b => .block b
  | item i => .item i.plain

def DataCall.plain {D : Type} (call : DataCall D) : DataCall D := { call with data := call.data.plain }

/-! ## The two forms -/

/-- A transaction as the RPC answers it, and as a dictionary does. Where the RPC has lines, the dictionary
has the entries that `wrapLogs` makes of them. -/
inductive DictionaryForm (raw : TransactionForFullJson) : TransactionForFullJson → Prop where
  | unlogged (h : ∀ m, raw.meta = some m → m.logMessages = none ∧ m.logs = none) :
    DictionaryForm raw raw
  | logged {m : RawMeta} {logs : List DictionaryLog} (hmeta : raw.meta = some m)
    (hnone : m.logs = none)
    (hlogs : wrapLogs m.logMessages = .ok (some (wrapDictionaryLogs logs))) :
    DictionaryForm raw { raw with «meta» := some { m with logMessages := none, logs := some logs } }

/-- There is nothing to upcast. -/
theorem TransactionForFullJson.upcast_of_unlogged {raw : TransactionForFullJson}
    (h : ∀ m, raw.meta = some m → m.logs = none) : raw.upcast = raw := by
  obtain ⟨signatures, accountKeys, instructions, _ | m⟩ := raw
  · rfl
  · obtain ⟨err, loadedAddresses, innerInstructions, logMessages, logs⟩ := m
    obtain rfl : logs = none := h _ rfl
    rfl

section

variable {raw raw' : TransactionForFullJson}

/-- A wrapped instruction shows of its transaction what both forms have in common. -/
theorem wrapInstruction_plain (h : raw'.plain = raw.plain) (index : List Nat)
    (instruction : RawInstruction) :
    (wrapInstruction index instruction raw').plain = (wrapInstruction index instruction raw).plain :=
  congrArg (SolanaInstruction.mk instruction index) h

theorem mapIdx_wrapInstruction_plain (h : raw'.plain = raw.plain) (index : Nat → List Nat)
    (instructions : List RawInstruction) :
    (instructions.mapIdx fun i instruction => wrapInstruction (index i) instruction raw').map
        SolanaInstruction.plain =
      (instructions.mapIdx fun i instruction => wrapInstruction (index i) instruction raw).map
        SolanaInstruction.plain := by
  refine List.ext_getElem? fun i => ?_
  simp only [List.getElem?_map, List.getElem?_mapIdx, Option.map_map]
  exact Option.map_congr fun instruction _ => wrapInstruction_plain h (index i) instruction

theorem wrapMeta_plain (h : raw'.plain = raw.plain) {m m' : RawMeta} (hm : m'.plain = m.plain)
    {logs logs' : Option (List SolanaLogMessage)}
    (hlogs : logs'.map (List.map SolanaLogMessage.plain) = logs.map (List.map SolanaLogMessage.plain)) :
    (wrapMeta raw' m' logs').plain = (wrapMeta raw m logs).plain := by
  obtain ⟨err, loadedAddresses, innerInstructions, logMessages, rawLogs⟩ := m
  obtain ⟨err', loadedAddresses', innerInstructions', logMessages', rawLogs'⟩ := m'
  obtain ⟨rfl, rfl, rfl, -⟩ := RawMeta.mk.inj hm
  have hinner : ∀ inner, (wrapGroup raw' inner).plain = (wrapGroup raw inner).plain := fun inner =>
    congrArg (InnerInstructions.mk inner.index)
      (mapIdx_wrapInstruction_plain h (fun i => [inner.index, i]) inner.instructions)
  simp only [wrapMeta, TransactionMeta.plain, List.map_map, hlogs, TransactionMeta.mk.injEq, true_and,
    and_true]
  exact List.map_congr_left fun inner _ => hinner inner

theorem wrapTransaction_plain (h : raw'.plain = raw.plain) {m m' : Option TransactionMeta}
    (hmeta : m'.map TransactionMeta.plain = m.map TransactionMeta.plain) :
    (wrapTransaction raw' m').plain = (wrapTransaction raw m).plain := by
  obtain ⟨signatures, accountKeys, instructions, rawMeta⟩ := raw
  obtain ⟨signatures', accountKeys', instructions', rawMeta'⟩ := raw'
  obtain ⟨rfl, rfl, rfl, -⟩ := TransactionForFullJson.mk.inj h
  have hinstructions := mapIdx_wrapInstruction_plain h (fun i => [i]) instructions'
  simp only [wrapTransaction, SolanaTransaction.plain, hinstructions, hmeta]

end

/-- The entries of a dictionary are the same after the transformer, their indices aside. -/
theorem wrapDictionaryLogs_upcast (logs : List DictionaryLog) :
    (wrapDictionaryLogs (logs.map DictionaryLog.upcast)).map SolanaLogMessage.plain =
      (wrapDictionaryLogs logs).map SolanaLogMessage.plain := by
  unfold wrapDictionaryLogs
  rw [List.map_map, List.map_map, List.map_map]
  rfl

/-- **In whichever form a transaction comes**, it is wrapped to the same. -/
theorem DictionaryForm.transformTransaction {raw raw' : TransactionForFullJson}
    (h : DictionaryForm raw raw') {tx : SolanaTransaction}
    (htx : SubqlSolana.transformTransaction raw = .ok tx) :
    ∃ tx', SubqlSolana.transformTransaction raw'.upcast = .ok tx' ∧ tx'.plain = tx.plain := by
  cases h with
  | unlogged h =>
    rw [TransactionForFullJson.upcast_of_unlogged fun m hm => (h m hm).2]
    exact ⟨tx, htx, rfl⟩
  | @logged m logs hmeta hnone hlogs =>
    have hwrapped : m.wrappedLogs = .ok (some (wrapDictionaryLogs logs)) := by
      rw [RawMeta.wrappedLogs, hnone]
      exact hlogs
    rw [transformTransaction_of_logs hmeta hwrapped] at htx
    obtain rfl := Except.ok.inj htx
    refine ⟨_, transformTransaction_of_logs rfl rfl, ?_⟩
    have hplain : TransactionForFullJson.plain (TransactionForFullJson.upcast
        { raw with «meta» := some { m with logMessages := none, logs := some logs } }) = raw.plain := by
      unfold TransactionForFullJson.plain TransactionForFullJson.upcast
      rw [hmeta]
      rfl
    have hlogs := congrArg some (wrapDictionaryLogs_upcast logs)
    exact wrapTransaction_plain hplain (congrArg some (wrapMeta_plain hplain rfl hlogs))

/-! ## Calls -/

theorem SolanaTransaction.innerInstructions_plain (tx : SolanaTransaction) (idx : Nat) :
    tx.plain.innerInstructions idx = (tx.innerInstructions idx).map SolanaInstruction.plain := by
  obtain ⟨signatures, accountKeys, instructions, _ | m⟩ := tx
  · rfl
  · simp only [innerInstructions, plain, Option.map_some, TransactionMeta.plain, List.filter_map,
      List.flatMap_map, List.map_flatMap]
    rfl

theorem SolanaTransaction.executed_plain (tx : SolanaTransaction) :
    tx.plain.executed = tx.executed.map SolanaInstruction.plain := by
  have hmapped : ∀ f : Nat → List SolanaInstruction,
      (tx.instructions.map SolanaInstruction.plain).mapIdx (fun idx instruction =>
          instruction :: (f idx).map SolanaInstruction.plain) =
        (tx.instructions.mapIdx fun idx instruction => instruction :: f idx).map
          (List.map SolanaInstruction.plain) := by
    intro f
    refine List.ext_getElem? fun idx => ?_
    simp only [List.getElem?_map, List.getElem?_mapIdx, Option.map_map]
    rfl
  unfold executed
  simp only [innerInstructions_plain, List.map_flatten]
  exact congrArg List.flatten (hmapped tx.innerInstructions)

theorem SolanaTransaction.logs_plain (tx : SolanaTransaction) :
    tx.plain.logs = tx.logs.map SolanaLogMessage.plain := by
  obtain ⟨signatures, accountKeys, instructions, _ | m⟩ := tx
  · rfl
  · obtain ⟨err, loadedAddresses, innerInstructions, _ | logs⟩ := m <;> rfl

theorem SolanaTransaction.items_plain (tx : SolanaTransaction) :
    tx.plain.items = tx.items.map Item.plain := by
  rw [items_eq, items_eq, executed_plain, logs_plain]
  simp only [List.map_append, List.map_cons, List.map_map]
  rfl

theorem Item.kind_plain (item : Item) : item.plain.kind = item.kind := by
  cases item <;> rfl

/-- The calls for the items of a transaction. -/
def SolanaTransaction.itemCalls {D : Type} (tx : SolanaTransaction) (dataSources : List D) :
    List (DataCall D) :=
  tx.items.flatMap fun item => callsWith dataSources item.kind (.item item)

theorem SolanaTransaction.itemCalls_plain {D : Type} (tx : SolanaTransaction) (dataSources : List D) :
    tx.plain.itemCalls dataSources = (tx.itemCalls dataSources).map DataCall.plain := by
  unfold itemCalls
  rw [items_plain, List.flatMap_map, List.map_flatMap]
  congr 1
  funext item
  simp only [callsWith, Item.kind_plain, List.map_map]
  rfl

section

variable {m : Type → Type} {D : Type}

/-- It makes no difference in which form a transaction came: no handler asks what an index is, or for the
logs of the raw transaction. -/
def FormBlind (indexData : DataCall D → m Unit) : Prop :=
  ∀ call, indexData call.plain = indexData call

variable [Monad m] [LawfulMonad m] {indexData : DataCall D → m Unit}

theorem FormBlind.forM_itemCalls (hblind : FormBlind indexData) (dataSources : List D)
    {tx tx' : SolanaTransaction} (h : tx'.plain = tx.plain) :
    (tx'.itemCalls dataSources).forM indexData = (tx.itemCalls dataSources).forM indexData := by
  have hplain : ∀ tx : SolanaTransaction, (tx.plain.itemCalls dataSources).forM indexData =
      (tx.itemCalls dataSources).forM indexData := by
    intro tx
    have hsame : (fun call => indexData (DataCall.plain call)) = indexData := funext hblind
    rw [tx.itemCalls_plain, List.forM_eq_forM, List.forM_map, hsame]
  rw [← hplain tx', h, hplain tx]

end

end SubqlSolana
