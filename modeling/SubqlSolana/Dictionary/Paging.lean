import SubqlSolana.Lib.Paging
import SubqlSolana.Solana.FetchBlock

/-!
# Paging through a dictionary

`getData` and `convertResponseBlocks` (`indexer/dictionary/v2/solanaDictionaryV2.ts`). A page of blocks
comes without the slots of its blocks, and `formatBlockUtil` is called without one: the height in the
header of such a block is `parentSlot + 1`, and so is the height from which the next page is asked
for.

The client and the dictionary are not part of the repository: the dictionary answers with the first
blocks in the range, and the client asks again from behind the last height, until it is past the end
of the range. `deliversEachOnce_iff` says when that works: **exactly if no block in the range follows
a skipped slot**.
-/

set_option autoImplicit false

namespace SubqlSolana

open Lib

/-! ## The dictionary -/

/-- A block that the dictionary holds. Its logs are attributed. -/
structure DictionaryBlock where
  slot : Nat
  raw : RawSolanaBlock
  parentSlot_lt : raw.parentSlot < slot
  attributed : ∀ tx ∈ raw.transactions, ∀ m, tx.meta = some m → m.logs ≠ none

/-- The matching blocks, in the order of their slots. -/
structure Dictionary where
  blocks : List DictionaryBlock
  ascending : blocks.Pairwise fun a b => a.slot < b.slot

/-- What the dictionary answers to a request. -/
def Dictionary.answer (dictionary : Dictionary) (startBlock endBlock limit : Nat) :
    List DictionaryBlock :=
  page DictionaryBlock.slot startBlock endBlock limit dictionary.blocks

/-! ## `getData` -/

structure DictionaryResponse where
  batchBlocks : List (IBlock SolanaBlock)
  lastBufferedHeight : Option Nat

/-- What the transformer of `@solana/rpc-transformers` changes: the indices of logs. All other numbers of
a block are a `number` or a `bigint` as they are when they come from the RPC (`parseBlock_json`). -/
def DictionaryLog.upcast (log : DictionaryLog) : DictionaryLog :=
  { log with logIndex := log.logIndex.upcast }

def RawMeta.upcast (raw : RawMeta) : RawMeta :=
  { raw with logs := raw.logs.map (List.map DictionaryLog.upcast) }

def TransactionForFullJson.upcast (tx : TransactionForFullJson) : TransactionForFullJson :=
  { tx with «meta» := tx.meta.map RawMeta.upcast }

def RawSolanaBlock.upcast (block : RawSolanaBlock) : RawSolanaBlock :=
  { block with transactions := block.transactions.map TransactionForFullJson.upcast }

def parseBlock (block : RawSolanaBlock) : Except String SolanaBlock := transformBlock block.upcast

def convertResponseBlocks (blocks : Option (List RawSolanaBlock)) :
    Except String DictionaryResponse := do
  let blocks ← (blocks.getD []).mapM fun b => do
    let block ← parseBlock b
    pure (formatBlockUtil block none)
  match blocks.getLast? with
  | none => pure { batchBlocks := [], lastBufferedHeight := none }
  | some last =>
    pure { batchBlocks := blocks, lastBufferedHeight := some last.getHeader.blockHeight }

def Dictionary.getData (dictionary : Dictionary) (startBlock endBlock limit : Nat) :
    Except String DictionaryResponse :=
  convertResponseBlocks
    (some ((dictionary.answer startBlock endBlock limit).map DictionaryBlock.raw))

/-! ## The client -/

/-- Every block of a range with what the client gets for it, with at most so many requests. It is
`none` if the client is not done then, or if a request throws. -/
def Dictionary.deliver (dictionary : Dictionary) (endBlock limit : Nat) :
    Nat → Nat → Option (List (DictionaryBlock × IBlock SolanaBlock))
  | fuel, startBlock =>
    if endBlock < startBlock then some []
    else
      match fuel with
      | 0 => none
      | fuel + 1 =>
        match dictionary.getData startBlock endBlock limit with
        | .error _ => none
        | .ok response =>
          (deliver dictionary endBlock limit fuel (response.lastBufferedHeight.getD endBlock + 1)).map
            fun rest =>
              (dictionary.answer startBlock endBlock limit).zip response.batchBlocks ++ rest

/-- Its header has its own slot, and is the one it has on the RPC path and in a worker. -/
structure OwnHeader (block : DictionaryBlock) (delivered : IBlock SolanaBlock) : Prop where
  height : delivered.getHeader.blockHeight = block.slot
  rpc : ∀ treat raw fetched, raw.toBaseSolanaBlock = block.raw.toBaseSolanaBlock →
    fetchBlock treat block.slot (.block raw) = .ok fetched →
    fetched.getHeader = delivered.getHeader ∧
    ∀ (worker later : WorkerService),
      WorkerService.Later (worker.fetchChainBlock block.slot fetched).2 later →
      later.toBlockResponse (worker.fetchChainBlock block.slot fetched).1 = delivered.getHeader

/-- **Paging delivers each block exactly once, under its own slot**: after some number of requests the
client is done, and has got each block in the range once, each with its own header. -/
def DeliversEachOnce (dictionary : Dictionary) (startBlock endBlock limit : Nat) : Prop :=
  ∃ fuel delivered, dictionary.deliver endBlock limit fuel startBlock = some delivered ∧
    (delivered.map Prod.fst).Perm
      (inRange DictionaryBlock.slot startBlock endBlock dictionary.blocks) ∧
    ∀ d ∈ delivered, OwnHeader d.1 d.2

/-! ## One page -/

/-- The height by which the client goes on after a block. -/
def DictionaryBlock.cursor (block : DictionaryBlock) : Nat := block.raw.parentSlot + 1

theorem DictionaryBlock.cursor_le_slot (block : DictionaryBlock) : block.cursor ≤ block.slot :=
  block.parentSlot_lt

theorem transformTransaction_ok {tx : TransactionForFullJson}
    (h : ∀ m, tx.meta = some m → m.logs ≠ none) : ∃ t, transformTransaction tx.upcast = .ok t := by
  cases hmeta : tx.meta with
  | none => exact ⟨_, transformTransaction_of_none (congrArg (Option.map RawMeta.upcast) hmeta)⟩
  | some m =>
    obtain ⟨logs, hlogs⟩ := Option.ne_none_iff_exists'.mp (h m hmeta)
    have hwrapped : m.upcast.wrappedLogs =
        .ok (some (wrapDictionaryLogs (logs.map DictionaryLog.upcast))) := by
      simp only [RawMeta.wrappedLogs, RawMeta.upcast, hlogs, Option.map_some]
    exact ⟨_, transformTransaction_of_logs (congrArg (Option.map RawMeta.upcast) hmeta) hwrapped⟩

/-- A block whose logs are attributed is never refused. -/
theorem parseBlock_ok (block : DictionaryBlock) : ∃ b, parseBlock block.raw = .ok b ∧
    b.toBaseSolanaBlock = block.raw.toBaseSolanaBlock := by
  have hall : ∀ tx ∈ block.raw.upcast.transactions, ∃ t, transformTransaction tx = .ok t := by
    intro tx htx
    obtain ⟨raw, hraw, rfl⟩ := List.mem_map.mp htx
    exact transformTransaction_ok (block.attributed raw hraw)
  obtain ⟨transactions, htransactions, -⟩ := mapM_ok hall
  have hblock : parseBlock block.raw = .ok ⟨block.raw.toBaseSolanaBlock, transactions⟩ := by
    unfold parseBlock transformBlock
    rw [htransactions]
    rfl
  exact ⟨_, hblock, rfl⟩

theorem forall₂_getLast? {α β : Type} {R : α → β → Prop} {as : List α} {bs : List β}
    (h : List.Forall₂ R as bs) : (as.getLast? = none ∧ bs.getLast? = none) ∨
    ∃ a b, as.getLast? = some a ∧ bs.getLast? = some b ∧ R a b := by
  have hreverse := List.forall₂_reverse_iff.mpr h
  rw [List.getLast?_eq_head?_reverse, List.getLast?_eq_head?_reverse]
  generalize as.reverse = as, bs.reverse = bs at hreverse
  cases hreverse with
  | nil => exact .inl ⟨rfl, rfl⟩
  | cons hab _ => exact .inr ⟨_, _, rfl, rfl, hab⟩

/-- The block has the header that it gets when nobody knows its slot. -/
def SlotUnknown (block : DictionaryBlock) (delivered : IBlock SolanaBlock) : Prop :=
  delivered.getHeader = solanaBlockToHeader block.raw.toBaseSolanaBlock none

theorem convertResponseBlocks_ok (blocks : List DictionaryBlock) : ∃ response,
    convertResponseBlocks (some (blocks.map DictionaryBlock.raw)) = .ok response ∧
    List.Forall₂ SlotUnknown blocks response.batchBlocks ∧
    response.lastBufferedHeight = blocks.getLast?.map DictionaryBlock.cursor := by
  have hone : ∀ raw ∈ blocks.map DictionaryBlock.raw, ∃ b,
      (do let block ← parseBlock raw; pure (formatBlockUtil block none) : Except String _) =
        .ok b := by
    intro raw hraw
    obtain ⟨block, -, rfl⟩ := List.mem_map.mp hraw
    obtain ⟨b, hb, -⟩ := parseBlock_ok block
    exact ⟨_, bind_eq_ok.mpr ⟨b, hb, rfl⟩⟩
  obtain ⟨batch, hbatch, hall⟩ := mapM_ok hone
  have hheaders : List.Forall₂ SlotUnknown blocks batch := by
    refine (List.forall₂_map_left_iff.mp hall).imp fun block delivered hdelivered => ?_
    obtain ⟨b, hb, hd⟩ := bind_eq_ok.mp hdelivered
    cases hd
    have hb : transformBlock block.raw.upcast = .ok b := hb
    have hbase := toBaseSolanaBlock_of_transformBlock hb
    exact congrArg (solanaBlockToHeader · none) hbase
  rcases forall₂_getLast? hheaders with ⟨hnone, hnone'⟩ | ⟨block, delivered, hsome, hsome', hlast⟩
  · rw [List.getLast?_eq_none_iff] at hnone hnone'
    subst hnone hnone'
    exact ⟨_, bind_eq_ok.mpr ⟨[], hbatch, rfl⟩, .nil, rfl⟩
  · refine ⟨⟨batch, some delivered.getHeader.blockHeight⟩,
      bind_eq_ok.mpr ⟨batch, hbatch, ?_⟩, hheaders, ?_⟩
    · rw [hsome']
      rfl
    · rw [hsome, Option.map_some, hlast]
      rfl

theorem getData_ok (dictionary : Dictionary) (startBlock endBlock limit : Nat) : ∃ response,
    dictionary.getData startBlock endBlock limit = .ok response ∧
    List.Forall₂ SlotUnknown (dictionary.answer startBlock endBlock limit) response.batchBlocks ∧
    response.lastBufferedHeight =
      (dictionary.answer startBlock endBlock limit).getLast?.map DictionaryBlock.cursor :=
  convertResponseBlocks_ok _

/-! ## All pages -/

theorem Dictionary.deliver_done (dictionary : Dictionary) {startBlock endBlock : Nat} (limit fuel : Nat)
    (h : endBlock < startBlock) : dictionary.deliver endBlock limit fuel startBlock = some [] := by
  cases fuel <;> rw [deliver, if_pos h]

/-- Which blocks the client gets does not depend on anything in them but their cursors. -/
theorem deliver_map_fst (dictionary : Dictionary) (endBlock limit : Nat) : ∀ fuel startBlock,
    (dictionary.deliver endBlock limit fuel startBlock).map (List.map Prod.fst) =
      pageThrough DictionaryBlock.slot DictionaryBlock.cursor endBlock limit dictionary.blocks fuel
        startBlock := by
  intro fuel
  induction fuel with
  | zero =>
    intro startBlock
    rw [Dictionary.deliver, pageThrough]
    split <;> rfl
  | succ fuel ih =>
    intro startBlock
    rw [Dictionary.deliver, pageThrough]
    split
    · rfl
    · obtain ⟨response, hresponse, hheaders, hbuffered⟩ :=
        getData_ok dictionary startBlock endBlock limit
      simp only [hresponse, hbuffered]
      have hpage : ((dictionary.answer startBlock endBlock limit).zip response.batchBlocks).map
          Prod.fst = dictionary.answer startBlock endBlock limit :=
        List.map_fst_zip hheaders.length_eq.le
      unfold Dictionary.answer at hpage ⊢
      cases hlast : (page DictionaryBlock.slot startBlock endBlock limit
          dictionary.blocks).getLast? with
      | none =>
        rw [List.getLast?_eq_none_iff] at hlast
        simp [hlast, dictionary.deliver_done limit fuel (Nat.lt_succ_self endBlock)]
      | some last =>
        simp only [Option.map_some, Option.getD_some, Option.map_map]
        rw [← ih, Option.map_map]
        congr 1
        funext rest
        simp [hpage]

theorem deliver_slotUnknown (dictionary : Dictionary) (endBlock limit : Nat) :
    ∀ {fuel startBlock delivered},
      dictionary.deliver endBlock limit fuel startBlock = some delivered →
      ∀ d ∈ delivered, SlotUnknown d.1 d.2 := by
  intro fuel
  induction fuel with
  | zero =>
    intro startBlock delivered h
    rw [Dictionary.deliver] at h
    split at h <;> cases h
    simp
  | succ fuel ih =>
    intro startBlock delivered h
    rw [Dictionary.deliver] at h
    split at h
    · cases h
      simp
    · obtain ⟨response, hresponse, hheaders, -⟩ := getData_ok dictionary startBlock endBlock limit
      simp only [hresponse] at h
      obtain ⟨rest, hrest, rfl⟩ := Option.map_eq_some_iff.mp h
      intro d hd
      rcases List.mem_append.mp hd with hd | hd
      · exact List.forall₂_zip hheaders hd
      · exact ih hrest d hd

theorem ownHeader_iff {block : DictionaryBlock} {delivered : IBlock SolanaBlock}
    (h : SlotUnknown block delivered) : OwnHeader block delivered ↔ block.cursor = block.slot := by
  have hheight : delivered.getHeader.blockHeight = block.cursor := congrArg Header.blockHeight h
  refine ⟨fun hown => hheight.symm.trans hown.height, fun hslot => ⟨hheight.trans hslot, ?_⟩⟩
  intro treat raw fetched hbase hfetched
  have hheader : fetched.getHeader = delivered.getHeader := by
    rw [getHeader_of_fetchBlock hfetched, hbase, h]
    exact congrArg (Header.mk · _ _ _) hslot.symm
  refine ⟨hheader, fun worker later hlater => ?_⟩
  rw [toBlockResponse_eq_getHeader hfetched worker hlater, hheader]

/-- **Exactly when paging works**: if no block in the range follows a skipped slot. -/
theorem deliversEachOnce_iff (dictionary : Dictionary) (startBlock endBlock limit : Nat)
    (hlimit : 1 ≤ limit) :
    DeliversEachOnce dictionary startBlock endBlock limit ↔
      ∀ block ∈ dictionary.blocks, startBlock ≤ block.slot → block.slot ≤ endBlock →
        block.raw.parentSlot + 1 = block.slot := by
  constructor
  · rintro ⟨fuel, delivered, hdelivered, hperm, hown⟩ block hblock hstart hend
    have hin := hperm.mem_iff.mpr (mem_inRange.mpr ⟨hblock, hstart, hend⟩)
    obtain ⟨d, hd, rfl⟩ := List.mem_map.mp hin
    exact (ownHeader_iff (deliver_slotUnknown dictionary endBlock limit hdelivered d hd)).mp (hown d hd)
  · intro hslots
    have hcursor : ∀ block ∈ inRange DictionaryBlock.slot startBlock endBlock dictionary.blocks,
        block.cursor = block.slot := fun block hblock => by
      obtain ⟨hmem, hstart, hend⟩ := mem_inRange.mp hblock
      exact hslots block hmem hstart hend
    have hpages := pageThrough_eq dictionary.ascending hlimit
      (show endBlock < startBlock + (endBlock + 1) by omega) hcursor
    rw [← deliver_map_fst] at hpages
    obtain ⟨delivered, hdelivered, hfst⟩ := Option.map_eq_some_iff.mp hpages
    refine ⟨endBlock + 1, delivered, hdelivered, hfst ▸ List.Perm.refl _, fun d hd => ?_⟩
    refine (ownHeader_iff (deliver_slotUnknown dictionary endBlock limit hdelivered d hd)).mpr ?_
    exact hcursor d.1 (hfst ▸ List.mem_map_of_mem hd)

/-- **A skipped slot before the last block of a range**: the client never gets past that block. -/
theorem deliver_eq_none {dictionary : Dictionary} {endBlock limit : Nat} (hlimit : 1 ≤ limit)
    {last : DictionaryBlock} (hmem : last ∈ dictionary.blocks) (hend : last.slot ≤ endBlock)
    (hlast : ∀ block ∈ dictionary.blocks, block.slot ≤ endBlock →
      block = last ∨ block.slot < last.slot)
    (hskipped : last.raw.parentSlot + 1 < last.slot) {fuel startBlock : Nat}
    (hstart : startBlock ≤ last.slot) :
    dictionary.deliver endBlock limit fuel startBlock = none := by
  have hpages : pageThrough DictionaryBlock.slot DictionaryBlock.cursor endBlock limit
      dictionary.blocks fuel startBlock = none :=
    pageThrough_eq_none hlimit hmem hend hskipped hlast (fun block _ => block.cursor_le_slot) hstart
  rw [← deliver_map_fst, Option.map_eq_none_iff] at hpages
  exact hpages

/-! ## Slots 6 to 9 are skipped -/

namespace SkippedBefore10

/-- Nothing is skipped between these. -/
def consecutive : Dictionary where
  blocks :=
    [⟨5, ⟨⟨4, 0, "e", 4, "d"⟩, []⟩, by decide, by simp⟩,
      ⟨6, ⟨⟨5, 0, "f", 5, "e"⟩, []⟩, by decide, by simp⟩]
  ascending := by simp

theorem consecutive_deliversEachOnce : 1 ≤ 1 ∧ DeliversEachOnce consecutive 5 9 1 :=
  ⟨by decide, (deliversEachOnce_iff consecutive 5 9 1 (by decide)).mpr (by simp [consecutive])⟩

def block : DictionaryBlock where
  slot := 10
  raw := ⟨⟨8, 0, "hash", 5, "parent"⟩, []⟩
  parentSlot_lt := by decide
  attributed := by simp

def dictionary : Dictionary := ⟨[block], List.pairwise_singleton _ _⟩

theorem not_deliversEachOnce : ¬DeliversEachOnce dictionary 10 20 200 := by
  rintro ⟨fuel, delivered, hdelivered, -⟩
  have hnone : dictionary.deliver 20 200 fuel 10 = none :=
    deliver_eq_none (by decide) (List.mem_singleton.mpr rfl) (by decide)
      (fun b hb _ => .inl (List.mem_singleton.mp hb)) (by decide) (by decide)
  rw [hnone] at hdelivered
  cases hdelivered

end SkippedBefore10

end SubqlSolana
