import SubqlSolana.Solana.FetchBlock
import SubqlSolana.Solana.Handlers

/-!
# The modulo filter

A block handler may be run on every N-th block only. Two places read this: the fetcher schedules the
heights that N divides, and these are the heights of headers, which are slots; and
`filterBlocksProcessor` (`solana/utils.solana.ts`) looks at the field `blockHeight` of the block itself,
in which the RPC counts the blocks beneath it. **The two numbers are apart by the slots that were skipped
before the block.**

So both read the same exactly if N divides the number of skipped slots, or neither of the two heights
(`moduloAgrees_iff`), and they read the same for every N exactly if no slot was skipped
(`FetchedBlock.agrees_always_iff`). Dictionaries are asked for nothing more: a block handler with a
modulo adds no condition.
-/

set_option autoImplicit false

namespace SubqlSolana

open Lib

/-! ## The filter -/

/-- `filterBlockTimestamp` is node-core's: does the block, at this time, pass the timestamps of the
filter? -/
def filterBlocksProcessor (filterBlockTimestamp : Int → Option HandlerFilter → Bool)
    (block : SolanaBlock) (filter : Option HandlerFilter) : Bool :=
  if (filter.bind (·.modulo.truthy?)).any fun modulo => block.blockHeight % modulo ≠ 0 then false
  -- multiply to add MS
  else if !filterBlockTimestamp (block.blockTime * 1000) filter then false
  else true

/-- The filter has no timestamps, neither as they are written nor as node-core schedules them. -/
def HandlerFilter.WithoutTimestamps (filter : HandlerFilter) : Prop :=
  "timestamp" ∉ filter.others ∧ "cronSchedule" ∉ filter.others

instance (filter : HandlerFilter) : Decidable filter.WithoutTimestamps :=
  inferInstanceAs (Decidable (_ ∧ _))

/-- All that node-core looks at are timestamps. -/
def ChecksTimestamps (filterBlockTimestamp : Int → Option HandlerFilter → Bool) : Prop :=
  ∀ time filter, filter.WithoutTimestamps → filterBlockTimestamp time (some filter) = true

/-- A block that was fetched for a slot. -/
structure FetchedBlock where
  slot : Nat
  raw : RawSolanaBlock
  block : IBlock SolanaBlock
  treatLongTermStorageSkipAsSkipped : Bool
  fetched : fetchBlock treatLongTermStorageSkipAsSkipped slot (.block raw) = .ok block
  /-- There are no more blocks beneath it than slots. -/
  blockHeight_le : raw.blockHeight ≤ slot

/-- The slots that were skipped before the block. -/
def FetchedBlock.skipped (b : FetchedBlock) : Nat := b.slot - b.raw.blockHeight

/-- The modulo divides the number of skipped slots, or neither of the heights. -/
def FetchedBlock.Aligned (modulo : Nat) (b : FetchedBlock) : Prop :=
  modulo ∣ b.skipped ∨ ¬modulo ∣ b.slot ∧ ¬modulo ∣ b.raw.blockHeight

section

variable (filterBlockTimestamp : Int → Option HandlerFilter → Bool) (filter : HandlerFilter)
  (modulo : Nat)

/-- Among these blocks, those on which the handler runs. -/
def handledBlocks (blocks : List FetchedBlock) : List FetchedBlock :=
  blocks.filter fun b => filterBlocksProcessor filterBlockTimestamp b.block.block (some filter)

/-- Among these blocks, those that are scheduled for the handler. -/
def scheduledBlocks (blocks : List FetchedBlock) : List FetchedBlock :=
  blocks.filter fun b => modulo ∣ b.block.getHeader.blockHeight

/-- The filter and the scheduler agree on these blocks. -/
structure ModuloAgrees (blocks : List FetchedBlock) : Prop where
  accepts_iff : ∀ b ∈ blocks,
    filterBlocksProcessor filterBlockTimestamp b.block.block (some filter) = true ↔
      modulo ∣ b.block.getHeader.blockHeight
  handled_eq : handledBlocks filterBlockTimestamp filter blocks = scheduledBlocks modulo blocks

end

/-! ## Two heights -/

namespace FetchedBlock

variable (b : FetchedBlock)

@[simp] theorem getHeader_blockHeight : b.block.getHeader.blockHeight = b.slot := by
  rw [getHeader_of_fetchBlock b.fetched, solanaBlockToHeader_blockHeight]

@[simp] theorem block_blockHeight : b.block.block.blockHeight = b.raw.blockHeight := by
  obtain ⟨block, hblock, heq⟩ := fetchBlock_eq_ok b.fetched
  rw [heq]
  exact congrArg BaseSolanaBlock.blockHeight (toBaseSolanaBlock_of_transformBlock hblock)

theorem aligned_iff (modulo : Nat) :
    b.Aligned modulo ↔ (modulo ∣ b.raw.blockHeight ↔ modulo ∣ b.slot) := by
  have hslot : b.slot = b.skipped + b.raw.blockHeight := (Nat.sub_add_cancel b.blockHeight_le).symm
  unfold Aligned
  by_cases hheight : modulo ∣ b.raw.blockHeight
  · simp only [hheight, not_true, and_false, or_false, true_iff]
    rw [hslot]
    exact (Nat.dvd_add_left hheight).symm
  · simp only [hheight, not_false_iff, and_true, false_iff, or_iff_right_iff_imp]
    intro hskipped hdvd
    rw [hslot] at hdvd
    exact hheight ((Nat.dvd_add_right hskipped).mp hdvd)

/-- For every number to divide both heights or none, they have to be the same. -/
theorem aligned_always_iff : (∀ modulo > 0, b.Aligned modulo) ↔ b.skipped = 0 := by
  have hle := b.blockHeight_le
  simp only [aligned_iff]
  constructor
  · intro h
    have hself := (h (b.slot + 1) (Nat.succ_pos _)).mp
    have hslot := fun hpos : b.slot > 0 => (h b.slot hpos).mpr (Nat.dvd_refl _)
    rcases Nat.eq_zero_or_pos b.raw.blockHeight with hzero | hpos
    · rw [hzero] at hself
      have hnone : b.slot = 0 :=
        Nat.eq_zero_of_dvd_of_lt (hself (Nat.dvd_zero _)) (Nat.lt_succ_self _)
      rw [skipped, hnone, Nat.zero_sub]
    · have heq : b.slot ≤ b.raw.blockHeight :=
        Nat.le_of_dvd hpos (hslot (Nat.lt_of_lt_of_le hpos hle))
      exact Nat.sub_eq_zero_of_le heq
  · intro h modulo _
    rw [Nat.le_antisymm hle (Nat.sub_eq_zero_iff_le.mp h)]

end FetchedBlock

section

variable {filterBlockTimestamp : Int → Option HandlerFilter → Bool} {filter : HandlerFilter}
  {modulo : Nat}

/-- What the processor decides, if the filter has a modulo and no timestamps. -/
theorem filterBlocksProcessor_eq_true_iff
    (htimestamps : ChecksTimestamps filterBlockTimestamp) (hmodulo : filter.modulo = .value modulo)
    (hpos : 0 < modulo) (hwithout : filter.WithoutTimestamps) {block : SolanaBlock} :
    filterBlocksProcessor filterBlockTimestamp block (some filter) = true ↔
      modulo ∣ block.blockHeight := by
  have htruthy : filter.modulo.truthy? = some modulo := Nullish.truthy?_eq_some.mpr ⟨hmodulo, hpos⟩
  simp only [filterBlocksProcessor, Option.bind_some, htruthy, Option.any_some,
    htimestamps _ filter hwithout, Nat.dvd_iff_mod_eq_zero]
  by_cases hmod : block.blockHeight % modulo = 0 <;> simp [hmod]

/-- **When the filter and the scheduler agree**: on every block, N divides the number of the slots that
were skipped before it, or neither of its heights. -/
theorem moduloAgrees_iff
    (htimestamps : ChecksTimestamps filterBlockTimestamp) (hmodulo : filter.modulo = .value modulo)
    (hpos : 0 < modulo) (hwithout : filter.WithoutTimestamps) (blocks : List FetchedBlock) :
    ModuloAgrees filterBlockTimestamp filter modulo blocks ↔ ∀ b ∈ blocks, b.Aligned modulo := by
  have haccepts : ∀ b : FetchedBlock,
      (filterBlocksProcessor filterBlockTimestamp b.block.block (some filter) = true ↔
        modulo ∣ b.block.getHeader.blockHeight) ↔ b.Aligned modulo := by
    intro b
    rw [filterBlocksProcessor_eq_true_iff htimestamps hmodulo hpos hwithout, b.aligned_iff,
      b.block_blockHeight, b.getHeader_blockHeight]
  constructor
  · intro h b hb
    exact (haccepts b).mp (h.accepts_iff b hb)
  · intro h
    have hall := fun b hb => (haccepts b).mpr (h b hb)
    refine ⟨hall, List.filter_congr fun b hb => ?_⟩
    rw [Bool.eq_iff_iff, decide_eq_true_iff]
    exact hall b hb

/-- They agree on a block for every N exactly if no slot was skipped before it. -/
theorem FetchedBlock.agrees_always_iff (b : FetchedBlock)
    (htimestamps : ChecksTimestamps filterBlockTimestamp) (hwithout : filter.WithoutTimestamps) :
    (∀ modulo > 0,
      ModuloAgrees filterBlockTimestamp { filter with modulo := .value modulo } modulo [b]) ↔
      b.skipped = 0 := by
  rw [← b.aligned_always_iff]
  refine forall₂_congr fun modulo hpos => ?_
  have hwithout' : { filter with modulo := .value modulo : HandlerFilter }.WithoutTimestamps := hwithout
  rw [moduloAgrees_iff htimestamps rfl hpos hwithout', List.forall_mem_singleton]

end

/-! ## A skipped slot -/

namespace SkippedTwo

/-- `filterBlockTimestamp`, for filters that have no timestamps. -/
def anyTime (_ : Int) (_ : Option HandlerFilter) : Bool := true

/-- A block without transactions. -/
def empty (blockHeight parentSlot : Nat) : RawSolanaBlock :=
  { blockHeight, blockTime := 0, blockhash := "hash", parentSlot, previousBlockhash := "parent",
    transactions := [] }

/-- The block of a slot, with so many beneath it. -/
def fetchedAt (slot blockHeight parentSlot : Nat) (h : blockHeight ≤ slot) : FetchedBlock where
  slot := slot
  raw := empty blockHeight parentSlot
  block := formatBlockUtil
    { (empty blockHeight parentSlot).toBaseSolanaBlock with transactions := [] } (some slot)
  treatLongTermStorageSkipAsSkipped := false
  fetched := rfl
  blockHeight_le := h

/-- Slot 3. Slot 2 was skipped, so this is the block with two beneath it. -/
def third : FetchedBlock := fetchedAt 3 2 1 (by decide)

/-- Of a chain that skips slot 6, and four slots more before slot 15. -/
def fifth : FetchedBlock := fetchedAt 5 5 4 (by decide)

def seventh : FetchedBlock := fetchedAt 7 6 5 (by decide)

def fifteenth : FetchedBlock := fetchedAt 15 10 10 (by decide)

def every (modulo : Nat) : HandlerFilter := { modulo := .value modulo }

/-- The handler runs on slots 5 and 15, and these are scheduled for it. -/
theorem moduloAgrees_five :
    ModuloAgrees anyTime (every 5) 5 [fifth, seventh, fifteenth] ∧
      handledBlocks anyTime (every 5) [fifth, seventh, fifteenth] = [fifth, fifteenth] := by
  have haligned : ∀ b ∈ [fifth, seventh, fifteenth], b.Aligned 5 := by
    intro b hb
    simp only [List.mem_cons, List.not_mem_nil, or_false] at hb
    rcases hb with rfl | rfl | rfl
    · exact .inl (by decide)
    · exact .inr (by decide)
    · exact .inl (by decide)
  exact ⟨(moduloAgrees_iff (fun _ _ _ => rfl) rfl (by decide) (by decide) _).mpr haligned, rfl⟩

/-- **Slot 3 is scheduled for a handler that runs on every third block, and the handler does not run.** -/
theorem third_is_not_handled :
    ¬∀ (filterBlockTimestamp : Int → Option HandlerFilter → Bool) (filter : HandlerFilter)
      (modulo : Nat) (blocks : List FetchedBlock),
      ChecksTimestamps filterBlockTimestamp → filter.modulo = .value modulo → 0 < modulo →
      filter.WithoutTimestamps →
      ModuloAgrees filterBlockTimestamp filter modulo blocks := by
  intro h
  have hagrees := h anyTime (every 3) 3 [third] (fun _ _ _ => rfl) rfl (by decide) (by decide)
  have hscheduled : 3 ∣ third.block.getHeader.blockHeight := Nat.dvd_refl 3
  have haccepted := (hagrees.accepts_iff third List.mem_cons_self).mpr hscheduled
  revert haccepted
  decide

end SkippedTwo

end SubqlSolana
