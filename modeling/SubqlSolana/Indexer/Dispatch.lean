import SubqlSolana.Lib.Grouping
import SubqlSolana.Solana.Handlers

/-!
# Handing a block to the handlers

`indexBlockData` (`indexer/indexer.manager.ts`) goes through a block: the block itself, and then, one
transaction after another, the transaction, its instructions, and its logs. The instructions that an
instruction calls come after it; they are found in groups, under the text of its position. Each thing is
handed to every data source before the next one.

All of this awaits one call of `indexData` after another, so it is one loop over a list of calls
(`indexBlockData_eq_forM`), whatever a call does: it may write, throw, or take its time.
-/

set_option autoImplicit false

namespace SubqlSolana

open Lib

/-! ## The loops -/

/-- What a handler is called with. -/
inductive HandlerData where
  | block (block : SolanaBlock)
  | item (item : Item)

/-- The arguments of `indexData`, `getVM` aside. -/
structure DataCall (D : Type) where
  kind : SolanaHandlerKind
  data : HandlerData
  ds : D

/-- `tx.meta?.innerInstructions`. -/
def SolanaTransaction.groups (tx : SolanaTransaction) : List (InnerInstructions SolanaInstruction) :=
  (tx.meta.map TransactionMeta.innerInstructions).getD []

section

variable {m : Type → Type} [Monad m] {D : Type} (indexData : DataCall D → m Unit)

def indexBlockContent (block : SolanaBlock) (dataSources : List D) : m Unit :=
  dataSources.forM fun ds => indexData ⟨.block, .block block, ds⟩

def indexTransaction (tx : SolanaTransaction) (dataSources : List D) : m Unit :=
  dataSources.forM fun ds => indexData ⟨.transaction, .item (.transaction tx), ds⟩

def indexInstruction (instruction : SolanaInstruction) (dataSources : List D) : m Unit :=
  dataSources.forM fun ds => indexData ⟨.instruction, .item (.instruction instruction), ds⟩

def indexLog (log : SolanaLogMessage) (dataSources : List D) : m Unit :=
  dataSources.forM fun ds => indexData ⟨.log, .item (.log log), ds⟩

def indexBlockData (block : SolanaBlock) (dataSources : List D) : m Unit := do
  indexBlockContent indexData block dataSources
  block.transactions.forM fun tx => do
    indexTransaction indexData tx dataSources
    -- there is probably only one item per group but that could change based on the data structure
    let innerInstructions := groupBy (fun inner => toString inner.index) tx.groups
    (objectEntries tx.instructions).forM fun (idx, instruction) => do
      indexInstruction indexData instruction dataSources
      ((innerInstructions idx).getD []).forM fun innerInstructions1 =>
        innerInstructions1.instructions.forM fun innerInstruction =>
          indexInstruction indexData innerInstruction dataSources
    tx.logs.forM fun log => indexLog indexData log dataSources

end

/-! ## The calls -/

def Item.kind : Item → SolanaHandlerKind
  | transaction _ => .transaction
  | instruction _ => .instruction
  | log _ => .log

/-- The instructions of a transaction as they are gone through. -/
def SolanaTransaction.executed (tx : SolanaTransaction) : List SolanaInstruction :=
  (tx.instructions.mapIdx fun idx instruction => instruction :: tx.innerInstructions idx).flatten

/-- One thing, for every data source. -/
def callsWith {D : Type} (dataSources : List D) (kind : SolanaHandlerKind) (data : HandlerData) :
    List (DataCall D) :=
  dataSources.map fun ds => ⟨kind, data, ds⟩

def SolanaBlock.calls {D : Type} (block : SolanaBlock) (dataSources : List D) :
    List (DataCall D) :=
  callsWith dataSources .block (.block block) ++
    block.items.flatMap fun item => callsWith dataSources item.kind (.item item)

theorem SolanaTransaction.innerInstructions_eq (tx : SolanaTransaction) (idx : Nat) :
    tx.innerInstructions idx =
      (tx.groups.filter fun inner => inner.index = idx).flatMap (·.instructions) := by
  unfold innerInstructions groups
  cases tx.meta <;> rfl

theorem SolanaTransaction.items_eq (tx : SolanaTransaction) :
    tx.items = .transaction tx :: tx.executed.map .instruction ++ tx.logs.map .log := by
  have hmap : ∀ lists : List (List SolanaInstruction),
      (lists.map fun l => l.map Item.instruction).flatten = lists.flatten.map .instruction :=
    fun lists => List.map_flatten.symm
  unfold items executed
  rw [← hmap, List.singleton_append, List.cons_append, List.mapIdx_eq_zipIdx_map,
    List.mapIdx_eq_zipIdx_map, List.map_map]
  rfl

section

variable {m : Type → Type} [Monad m] [LawfulMonad m] {D : Type} (indexData : DataCall D → m Unit)
  (dataSources : List D)

theorem forM_callsWith (kind : SolanaHandlerKind) (data : HandlerData) :
    (callsWith dataSources kind data).forM indexData =
      dataSources.forM fun ds => indexData ⟨kind, data, ds⟩ := List.forM_map

theorem forM_objectEntries {α : Type} (l : List α) (f : String × α → m Unit) :
    (objectEntries l).forM f = (l.mapIdx fun i a => f (toString i, a)).forM id := by
  unfold objectEntries
  rw [List.mapIdx_eq_zipIdx_map, List.mapIdx_eq_zipIdx_map]
  simp only [List.forM_eq_forM, List.forM_map, id]

/-- The instructions that an instruction calls are those of its position. -/
theorem forM_innerInstructions (tx : SolanaTransaction) (idx : Nat) :
    ((groupBy (fun inner => toString inner.index) tx.groups (toString idx)).getD []).forM
        (fun inner => inner.instructions.forM fun innerInstruction =>
          indexInstruction indexData innerInstruction dataSources) =
      (tx.innerInstructions idx).forM fun innerInstruction =>
        indexInstruction indexData innerInstruction dataSources := by
  simp only [groupBy_getD, toString_inj]
  rw [tx.innerInstructions_eq, forM_flatMap]

theorem forM_executed (tx : SolanaTransaction) :
    ((objectEntries tx.instructions).forM fun (idx, instruction) => do
      indexInstruction indexData instruction dataSources
      ((groupBy (fun inner => toString inner.index) tx.groups idx).getD []).forM fun inner =>
        inner.instructions.forM fun innerInstruction =>
          indexInstruction indexData innerInstruction dataSources) =
      tx.executed.forM fun instruction => indexInstruction indexData instruction dataSources := by
  rw [forM_objectEntries]
  simp only [forM_innerInstructions]
  unfold SolanaTransaction.executed
  rw [← List.flatMap_id, forM_flatMap, List.mapIdx_eq_zipIdx_map, List.mapIdx_eq_zipIdx_map]
  simp only [List.forM_eq_forM, List.forM_map, id, List.forM_cons]

theorem forM_items (tx : SolanaTransaction) :
    ((tx.items.flatMap fun item => callsWith dataSources item.kind (.item item)).forM indexData) =
      (do
        indexTransaction indexData tx dataSources
        tx.executed.forM fun instruction => indexInstruction indexData instruction dataSources
        tx.logs.forM fun log => indexLog indexData log dataSources) := by
  rw [forM_flatMap, tx.items_eq]
  simp only [forM_callsWith]
  simp only [List.forM_eq_forM, List.cons_append, List.forM_cons, List.forM_append, List.forM_map]
  rfl

/-- **One call after another.** -/
theorem indexBlockData_eq_forM (block : SolanaBlock) :
    indexBlockData indexData block dataSources = (block.calls dataSources).forM indexData := by
  have hcontent := forM_callsWith indexData dataSources .block (.block block)
  have htransactions : ((block.items.flatMap fun item =>
      callsWith dataSources item.kind (.item item)).forM indexData) =
      block.transactions.forM fun tx =>
        (tx.items.flatMap fun item => callsWith dataSources item.kind (.item item)).forM
          indexData := by
    rw [SolanaBlock.items, List.flatMap_assoc, forM_flatMap]
  simp only [forM_items] at htransactions
  unfold indexBlockData SolanaBlock.calls
  simp only [forM_executed]
  rw [← htransactions]
  show (do indexBlockContent indexData block dataSources; _) = _
  rw [indexBlockContent, ← hcontent]
  simp only [List.forM_eq_forM, List.forM_append]

end

end SubqlSolana
