import SubqlSolana.Indexer.Dispatch
import SubqlSolana.Solana.UnknownLines

/-!
# The order of execution

An instruction has the path to it for an index: `[3]` is the fourth instruction of the transaction, and
`[3, 1]` the second one that it calls. Whatever order the groups of inner instructions are given in, the
indexer goes through all instructions of a transaction in the order of their paths, which is the order
in which they were executed, and the path of each leads back to it (`executionOrder_of_wrapped`).

So a block whose groups are as the RPC gives them (one for an instruction, and for none that is not
there) is handed to every data source completely and in order, **exactly if `transformBlock` comes
through it**, which is to say that none of its log lines makes it throw (`dispatchesAll_iff`).
-/

set_option autoImplicit false

namespace SubqlSolana

open Lib

/-! ## Paths -/

def TransactionForFullJson.groups (tx : TransactionForFullJson) :
    List (InnerInstructions RawInstruction) :=
  (tx.meta.bind RawMeta.innerInstructions).getD []

/-- The instruction that a path leads to. -/
def follow {I : Type} (instructions : List I) (groups : List (InnerInstructions I)) :
    List Nat → Option I
  | [i] => instructions[i]?
  | [i, j] => (groups.find? fun inner => inner.index = i).bind fun inner => inner.instructions[j]?
  | _ => none

/-- There is one group at most for an instruction, and none for one that is not there. -/
structure TransactionForFullJson.WellGrouped (tx : TransactionForFullJson) : Prop where
  nodup : (tx.groups.map InnerInstructions.index).Nodup
  inRange : ∀ inner ∈ tx.groups, inner.index < tx.instructions.length

instance (tx : TransactionForFullJson) : Decidable tx.WellGrouped :=
  decidable_of_iff (_ ∧ _) ⟨fun h => ⟨h.1, h.2⟩, fun h => ⟨h.1, h.2⟩⟩

/-! ## What is expected -/

/-- The instructions of a transaction are gone through completely and in order. -/
structure ExecutionOrder (raw : TransactionForFullJson) (tx : SolanaTransaction) : Prop where
  /-- Every top-level and every inner instruction, once. -/
  complete : tx.executed.Perm (tx.instructions ++ tx.groups.flatMap (·.instructions))
  raw_complete : (tx.executed.map SolanaInstruction.toRawInstruction).Perm
    (raw.instructions ++ raw.groups.flatMap (·.instructions))
  increasing : tx.executed.Pairwise fun a b => a.index < b.index
  leads_back : ∀ instruction ∈ tx.executed,
    follow tx.instructions tx.groups instruction.index = some instruction
  raw_leads_back : ∀ instruction ∈ tx.executed,
    follow raw.instructions raw.groups instruction.index = some instruction.toRawInstruction

/-- What the calls for the data source at a position hand over, and as what. -/
def handedTo {D : Type} (i : Nat) (calls : List (DataCall (D × Nat))) :
    List (SolanaHandlerKind × HandlerData) :=
  (calls.filter fun call => call.ds.2 = i).map fun call => (call.kind, call.data)

/-- A transaction, its instructions, and then its logs. -/
def SolanaTransaction.handed (tx : SolanaTransaction) : List (SolanaHandlerKind × HandlerData) :=
  (.transaction, .item (.transaction tx)) ::
    tx.executed.map (fun instruction => (.instruction, .item (.instruction instruction))) ++
    tx.logs.map fun log => (.log, .item (.log log))

/-- The block is indexed by these calls, and every data source gets all of it, in order. Data sources
are told apart by their positions. -/
structure Dispatches {D : Type} (raw : RawSolanaBlock) (block : SolanaBlock) (dataSources : List D)
    (calls : List (DataCall (D × Nat))) : Prop where
  runs : ∀ {m : Type → Type} [Monad m] [LawfulMonad m] (indexData : DataCall (D × Nat) → m Unit),
    indexBlockData indexData block dataSources.zipIdx = calls.forM indexData
  handed : ∀ i < dataSources.length, handedTo i calls =
    (.block, .block block) :: block.transactions.flatMap SolanaTransaction.handed
  transactions : List.Forall₂ ExecutionOrder raw.transactions block.transactions

/-- The block is transformed, and then it is indexed. -/
def DispatchesAll {D : Type} (raw : RawSolanaBlock) (dataSources : List D) : Prop :=
  ∃ block calls, transformBlock raw = .ok block ∧ Dispatches raw block dataSources calls

/-! ## Transformed transactions -/

/-- What `transformTransaction` makes of the instructions. -/
structure Wrapped (raw : TransactionForFullJson) (tx : SolanaTransaction) : Prop where
  instructions : tx.instructions = raw.instructions.mapIdx fun index instruction =>
    wrapInstruction [index] instruction raw
  groups : tx.groups = raw.groups.map (wrapGroup raw)

variable {raw : TransactionForFullJson} {tx : SolanaTransaction}

theorem innerInstructions_of_transformMeta {rawMeta : RawMeta} {m : TransactionMeta}
    (h : transformMeta raw rawMeta = .ok m) :
    m.innerInstructions = (rawMeta.innerInstructions.getD []).map (wrapGroup raw) := by
  rw [transformMeta_eq] at h
  obtain ⟨logs, -, rfl⟩ := map_eq_ok.mp h
  rfl

theorem wrapped_of_transformTransaction (h : transformTransaction raw = .ok tx) :
    Wrapped raw tx := by
  cases hmeta : raw.meta with
  | none =>
    rw [transformTransaction_of_none hmeta] at h
    cases h
    refine ⟨rfl, ?_⟩
    simp only [SolanaTransaction.groups, TransactionForFullJson.groups, hmeta]
    rfl
  | some rawMeta =>
    cases htransform : transformMeta raw rawMeta with
    | error message =>
      rw [transformTransaction_failed hmeta htransform] at h
      cases h
    | ok m =>
      rw [transformTransaction_of_meta hmeta htransform] at h
      cases h
      refine ⟨rfl, ?_⟩
      simp only [SolanaTransaction.groups, TransactionForFullJson.groups, hmeta]
      exact innerInstructions_of_transformMeta htransform

namespace Wrapped

/-- A path leads to the same instruction before and after. -/
theorem follow_eq (h : Wrapped raw tx) (path : List Nat) :
    follow tx.instructions tx.groups path =
      (follow raw.instructions raw.groups path).map fun instruction =>
        wrapInstruction path instruction raw := by
  unfold follow
  split
  · rw [h.instructions, List.getElem?_mapIdx]
  · next i j =>
    rw [h.groups, List.find?_map]
    show ((raw.groups.find? fun inner => inner.index = i).map _).bind _ = _
    cases hfind : raw.groups.find? fun inner => inner.index = i with
    | none => rfl
    | some inner =>
      have hindex : inner.index = i := by simpa using List.find?_some hfind
      simp [wrapGroup, hindex]
  · rfl

/-- An instruction that is found at a path has the path for an index. -/
theorem of_follow (h : Wrapped raw tx) {path : List Nat} {instruction : SolanaInstruction}
    (hfollow : follow tx.instructions tx.groups path = some instruction) :
    instruction.index = path ∧
      follow raw.instructions raw.groups path = some instruction.toRawInstruction := by
  rw [h.follow_eq] at hfollow
  obtain ⟨rawInstruction, hraw, rfl⟩ := Option.map_eq_some_iff.mp hfollow
  exact ⟨rfl, hraw⟩

theorem length_eq (h : Wrapped raw tx) : tx.instructions.length = raw.instructions.length := by
  rw [h.instructions, List.length_mapIdx]

theorem wellGrouped (h : Wrapped raw tx) (hraw : raw.WellGrouped) :
    (tx.groups.map InnerInstructions.index).Nodup ∧
      ∀ inner ∈ tx.groups, inner.index < tx.instructions.length := by
  rw [h.groups, h.length_eq, List.map_map]
  refine ⟨hraw.nodup, fun inner hinner => ?_⟩
  obtain ⟨rawInner, hmem, rfl⟩ := List.mem_map.mp hinner
  exact hraw.inRange rawInner hmem

end Wrapped

/-- Without their paths, the instructions are those from before. -/
theorem map_toRawInstruction (path : Nat → List Nat) (l : List RawInstruction) :
    (l.mapIdx fun i instruction => wrapInstruction (path i) instruction raw).map
      SolanaInstruction.toRawInstruction = l := by
  rw [List.mapIdx_eq_zipIdx_map, List.map_map]
  exact List.zipIdx_map_fst 0 l

/-! ## The order -/

/-- The inner instructions of a position are what the paths of two through it lead to. -/
theorem getElem?_innerInstructions (hnodup : (tx.groups.map InnerInstructions.index).Nodup)
    (i j : Nat) : (tx.innerInstructions i)[j]? = follow tx.instructions tx.groups [i, j] := by
  rw [tx.innerInstructions_eq, filter_key_of_nodup hnodup, follow]
  cases tx.groups.find? fun inner => inner.index = i <;> simp

/-- The instructions of a position: each is at a path that begins with it, and these are in order. -/
structure AtPosition (tx : SolanaTransaction) (i : Nat) (l : List SolanaInstruction) : Prop where
  below : ∀ instruction ∈ l, ∃ path,
    follow tx.instructions tx.groups (i :: path) = some instruction
  increasing : l.Pairwise fun a b => a.index < b.index

theorem atPosition (h : Wrapped raw tx) (hnodup : (tx.groups.map InnerInstructions.index).Nodup)
    {i : Nat} {instruction : SolanaInstruction} (hi : tx.instructions[i]? = some instruction) :
    AtPosition tx i (instruction :: tx.innerInstructions i) := by
  have houter : follow tx.instructions tx.groups [i] = some instruction := hi
  have hinner : ∀ j inner, (tx.innerInstructions i)[j]? = some inner →
      follow tx.instructions tx.groups [i, j] = some inner := by
    intro j inner hj
    rw [← getElem?_innerInstructions hnodup, hj]
  have hindex : ∀ j (hj : j < (tx.innerInstructions i).length),
      (tx.innerInstructions i)[j].index = [i, j] := fun j hj =>
    (h.of_follow (hinner j _ (List.getElem?_eq_getElem hj))).1
  constructor
  · intro other hother
    rcases List.mem_cons.mp hother with rfl | hmem
    · exact ⟨[], houter⟩
    · obtain ⟨j, hj⟩ := List.mem_iff_getElem?.mp hmem
      exact ⟨[j], hinner j other hj⟩
  · rw [List.pairwise_cons, List.pairwise_iff_getElem]
    constructor
    · intro inner hmem
      obtain ⟨j, hj, rfl⟩ := List.mem_iff_getElem.mp hmem
      rw [(h.of_follow houter).1, hindex j hj]
      simp
    · intro j j' hj hj' hlt
      rw [hindex j hj, hindex j' hj']
      simp [List.cons_lt_cons_iff, hlt]

theorem mem_executed {instruction : SolanaInstruction} (h : instruction ∈ tx.executed) :
    ∃ i outer, tx.instructions[i]? = some outer ∧
      instruction ∈ outer :: tx.innerInstructions i := by
  obtain ⟨l, hl, hmem⟩ := List.mem_flatten.mp h
  obtain ⟨i, hi, rfl⟩ := List.mem_mapIdx.mp hl
  exact ⟨i, _, List.getElem?_eq_getElem hi, hmem⟩

/-- **All instructions, in the order of their paths.** -/
theorem executionOrder_of_wrapped (h : Wrapped raw tx) (hraw : raw.WellGrouped) :
    ExecutionOrder raw tx := by
  obtain ⟨hnodup, hrange⟩ := h.wellGrouped hraw
  have hcomplete : tx.executed.Perm (tx.instructions ++ tx.groups.flatMap (·.instructions)) := by
    have hinner : ((List.range tx.instructions.length).flatMap tx.innerInstructions).Perm
        (tx.groups.flatMap (·.instructions)) := by
      rw [funext tx.innerInstructions_eq, ← List.flatMap_assoc]
      exact (flatMap_filter_perm hrange).flatMap_right _
    exact (flatten_mapIdx_cons_perm _ _).trans (hinner.append_left _)
  have hfollow : ∀ instruction ∈ tx.executed, ∃ path,
      follow tx.instructions tx.groups path = some instruction := by
    intro instruction hmem
    obtain ⟨i, outer, hi, hmem⟩ := mem_executed hmem
    obtain ⟨path, hpath⟩ := (atPosition h hnodup hi).below instruction hmem
    exact ⟨i :: path, hpath⟩
  refine ⟨hcomplete, ?_, ?_, ?_, ?_⟩
  · have hraw := hcomplete.map SolanaInstruction.toRawInstruction
    rw [List.map_append, List.map_flatMap, h.instructions, h.groups, List.flatMap_map,
      map_toRawInstruction] at hraw
    simpa only [wrapGroup, map_toRawInstruction] using hraw
  · unfold SolanaTransaction.executed
    rw [List.pairwise_flatten, List.pairwise_iff_getElem]
    constructor
    · intro l hl
      obtain ⟨i, hi, rfl⟩ := List.mem_mapIdx.mp hl
      exact (atPosition h hnodup (List.getElem?_eq_getElem hi)).increasing
    · intro i j hi hj hlt a ha b hb
      rw [List.getElem_mapIdx] at ha hb
      rw [List.length_mapIdx] at hi hj
      obtain ⟨path, hpath⟩ := (atPosition h hnodup (List.getElem?_eq_getElem hi)).below a ha
      obtain ⟨path', hpath'⟩ := (atPosition h hnodup (List.getElem?_eq_getElem hj)).below b hb
      rw [(h.of_follow hpath).1, (h.of_follow hpath').1]
      exact List.cons_lt_cons_iff.mpr (.inl hlt)
  · intro instruction hmem
    obtain ⟨path, hpath⟩ := hfollow instruction hmem
    rw [(h.of_follow hpath).1, hpath]
  · intro instruction hmem
    obtain ⟨path, hpath⟩ := hfollow instruction hmem
    rw [(h.of_follow hpath).1, (h.of_follow hpath).2]

/-! ## Data sources -/

theorem handedTo_append {D : Type} (i : Nat) (calls calls' : List (DataCall (D × Nat))) :
    handedTo i (calls ++ calls') = handedTo i calls ++ handedTo i calls' := by
  unfold handedTo
  rw [List.filter_append, List.map_append]

theorem handedTo_flatMap {D α : Type} (i : Nat) (l : List α) (f : α → List (DataCall (D × Nat))) :
    handedTo i (l.flatMap f) = l.flatMap fun a => handedTo i (f a) := by
  unfold handedTo
  rw [List.filter_flatMap, List.map_flatMap]

/-- One thing for every data source is one thing for each. -/
theorem handedTo_callsWith {D : Type} (dataSources : List D) {i : Nat} (hi : i < dataSources.length)
    (kind : SolanaHandlerKind) (data : HandlerData) :
    handedTo i (callsWith dataSources.zipIdx kind data) = [(kind, data)] := by
  unfold handedTo callsWith
  rw [List.filter_map, List.map_map]
  show ((dataSources.zipIdx.filter fun ds => ds.2 = i).map _) = _
  rw [filter_zipIdx hi]
  rfl

theorem handedTo_items {D : Type} (dataSources : List D) {i : Nat} (hi : i < dataSources.length)
    (items : List Item) :
    handedTo i (items.flatMap fun item =>
      callsWith dataSources.zipIdx item.kind (.item item)) =
      items.map fun item => (item.kind, .item item) := by
  rw [handedTo_flatMap, List.map_eq_flatMap]
  simp only [handedTo_callsWith _ hi]

theorem SolanaTransaction.map_items (tx : SolanaTransaction) :
    (tx.items.map fun item => (item.kind, HandlerData.item item)) = tx.handed := by
  rw [tx.items_eq, List.cons_append, List.map_cons, List.map_append, List.map_map, List.map_map]
  rfl

theorem dispatches {D : Type} {raw : RawSolanaBlock} {block : SolanaBlock}
    (h : transformBlock raw = .ok block) (hgroups : ∀ tx ∈ raw.transactions, tx.WellGrouped)
    (dataSources : List D) :
    Dispatches raw block dataSources (block.calls dataSources.zipIdx) where
  runs indexData := indexBlockData_eq_forM indexData _ block
  handed i hi := by
    unfold SolanaBlock.calls SolanaBlock.items
    rw [handedTo_append, handedTo_callsWith _ hi, handedTo_items _ hi, List.singleton_append,
      List.map_flatMap]
    simp only [SolanaTransaction.map_items]
  transactions := by
    have hall := (List.forall₂_and_left _ _).mpr ⟨hgroups, forall₂_of_transformBlock h⟩
    exact hall.imp fun tx tx' htx =>
      executionOrder_of_wrapped (wrapped_of_transformTransaction htx.2) htx.1

/-- **When a block is handed to the handlers completely and in order.** -/
theorem dispatchesAll_iff {D : Type} {raw : RawSolanaBlock}
    (hgroups : ∀ tx ∈ raw.transactions, tx.WellGrouped) (dataSources : List D) :
    DispatchesAll raw dataSources ↔
      ∀ tx ∈ raw.transactions, ∀ log ∈ tx.lines, misleading log = false := by
  rw [← transformBlock_isOk_iff]
  constructor
  · rintro ⟨block, -, hblock, -⟩
    exact ⟨block, hblock⟩
  · rintro ⟨block, hblock⟩
    exact ⟨block, _, hblock, dispatches hblock hgroups dataSources⟩

/-! ## Groups that are out of order -/

namespace OutOfOrder

def instruction (data : String) : RawInstruction := ⟨[], data, 0⟩

/-- Two instructions that call others; the groups are given the wrong way around. -/
def transaction (logMessages : Option (List String)) : TransactionForFullJson where
  signatures := ["signature"]
  accountKeys := ["T0ken"]
  instructions := [instruction "a", instruction "b"]
  «meta» := some
    { err := none
      loadedAddresses := ⟨[], []⟩
      innerInstructions := some
        [⟨1, [instruction "b0"]⟩, ⟨0, [instruction "a0", instruction "a1"]⟩]
      logMessages
      logs := none }

def block (logMessages : Option (List String)) : RawSolanaBlock :=
  ⟨⟨7, 0, "hash", 6, "parent"⟩, [transaction logMessages]⟩

theorem wellGrouped (logMessages : Option (List String)) :
    ∀ tx ∈ (block logMessages).transactions, tx.WellGrouped := by
  intro tx hmem
  obtain rfl := List.mem_singleton.mp hmem
  exact ⟨by simp [transaction, TransactionForFullJson.groups],
    by simp [transaction, TransactionForFullJson.groups]⟩

example : ((transformTransaction (transaction none)).toOption.map fun tx =>
    tx.executed.map SolanaInstruction.index) = some [[0], [0, 0], [0, 1], [1], [1, 0]] := by decide

/-- Two data sources get all of the block. -/
theorem dispatchesAll_block : DispatchesAll (block none) ["first", "second"] := by
  refine (dispatchesAll_iff (wellGrouped none) _).mpr fun tx hmem log hlog => ?_
  obtain rfl := List.mem_singleton.mp hmem
  cases hlog

/-- **With a line that `wrapLogs` does not know, nothing of the block is handed over.** -/
theorem not_dispatchesAll_line :
    ¬∀ (D : Type) (raw : RawSolanaBlock), (∀ tx ∈ raw.transactions, tx.WellGrouped) →
      ∀ dataSources : List D, DispatchesAll raw dataSources := by
  intro h
  obtain ⟨transformed, -, hok, -⟩ := h String (block (some [FailedToComplete.line])) (wellGrouped _)
    ["first"]
  have hline := transformBlock_isOk_iff.mp ⟨transformed, hok⟩ _ List.mem_cons_self
    FailedToComplete.line List.mem_cons_self
  rw [FailedToComplete.line_misleading] at hline
  cases hline

end OutOfOrder

end SubqlSolana
