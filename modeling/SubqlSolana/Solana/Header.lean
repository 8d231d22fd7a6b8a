import SubqlSolana.Lib.IsoDate
import SubqlSolana.Lib.SlotChain

/-!
# Block headers

The header the indexer works with, how it is made of a block the RPC returned
(`solana/block.solana.ts`), and how a list of headers is kept in the metadata store
(`JSON.stringify` and back, `indexer/unfinalizedBlocks.service.ts`).

The height of a Solana header is a *slot*. A block does not know its own slot, only its parent's, so
the slot comes from whoever asked for the block.
-/

set_option autoImplicit false

namespace SubqlSolana

open Lib

/-- The fields of a block that its header is made of. -/
structure BaseSolanaBlock where
  blockHeight : Nat
  blockTime : Int
  blockhash : String
  parentSlot : Nat
  previousBlockhash : String
  deriving Repr, DecidableEq

structure Header where
  blockHeight : Nat
  blockHash : String
  parentHash : String
  timestamp : Date
  deriving Repr, DecidableEq

instance : SlotBlock Header String where
  slot := Header.blockHeight
  hash := Header.blockHash
  parent := Header.parentHash

theorem linked_iff {a b : Header} :
    Linked a b ↔ a.blockHeight < b.blockHeight ∧ b.parentHash = a.blockHash := Iff.rfl

/-- Falling back to `parentSlot + 1` is wrong when the previous slot was skipped. -/
def solanaBlockToHeader (block : BaseSolanaBlock) (slot : Option Nat) : Header where
  blockHeight := slot.getD (block.parentSlot + 1)
  blockHash := block.blockhash
  parentHash := block.previousBlockhash
  timestamp := Date.ofTime (block.blockTime * 1000)

@[simp] theorem solanaBlockToHeader_blockHeight (block : BaseSolanaBlock) (slot : Nat) :
    (solanaBlockToHeader block (some slot)).blockHeight = slot := rfl

/-- A header whose time does not matter. -/
def Header.untimed (blockHeight : Nat) (blockHash parentHash : String) : Header :=
  ⟨blockHeight, blockHash, parentHash, Date.ofTime 0⟩

/-- A block as the indexer passes it on, with its header. -/
structure IBlock (B : Type) where
  block : B
  getHeader : Header

/-! ## Headers as JSON

Every field but the timestamp is its own JSON value. A date is written as its ISO text, and one that
is no date as `null`. -/

/-- A header as it stands in a JSON document. -/
structure StoredHeader where
  blockHeight : Nat
  blockHash : String
  parentHash : String
  timestamp : Option String
  deriving Repr, DecidableEq

/-- `JSON.stringify`, field by field. -/
def Header.toJSON (header : Header) : StoredHeader where
  blockHeight := header.blockHeight
  blockHash := header.blockHash
  parentHash := header.parentHash
  timestamp := header.timestamp.toISOString

/-- `{...header, timestamp: new Date(timestamp)}`; `new Date(null)` is the epoch. -/
def StoredHeader.revive (stored : StoredHeader) : Header where
  blockHeight := stored.blockHeight
  blockHash := stored.blockHash
  parentHash := stored.parentHash
  timestamp := stored.timestamp.elim (Date.ofTime 0) Date.ofISOString

end SubqlSolana
