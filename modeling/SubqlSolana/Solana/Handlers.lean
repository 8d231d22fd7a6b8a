import SubqlSolana.Lib.Fallible
import SubqlSolana.Lib.Nullish
import SubqlSolana.Solana.Block

/-!
# Handlers and their filters

The filters of `solana/utils.solana.ts`, by which the indexer decides whether to call a handler with
an item, and the discriminators they look for (`solana/decoder.ts`). A handler without a filter is
called with everything of its kind.

`updateDynamicDs` (`blockchain.service.ts`) makes a data source of a template: it spreads the
arguments over the filter of every handler, also of one that has none. **No data source that it
makes has a handler without a filter** (`filter_of_updateDynamicDs`).
-/

set_option autoImplicit false

namespace SubqlSolana

open Lib

/-! ## Filters -/

/-- The properties of a filter object, whatever the kind of its handler. An entry of `accounts` that
is `none` is `null` or `undefined`. -/
structure HandlerFilter where
  signerAccountKey : Nullish String := .undefined
  programId : Nullish String := .undefined
  accounts : Nullish (List (Option (List String))) := .undefined
  discriminator : Nullish String := .undefined
  includeFailed : Nullish Bool := .undefined
  modulo : Nullish Nat := .undefined
  /-- The names of all other properties that are not `undefined`. -/
  others : List String := []
  deriving Repr, DecidableEq

/-- `Object.values(filter).filter((v) => v !== undefined).length`. -/
def HandlerFilter.hasValue (filter : HandlerFilter) : Bool :=
  filter.signerAccountKey.isDefined || filter.programId.isDefined || filter.accounts.isDefined ||
  filter.discriminator.isDefined || filter.includeFailed.isDefined || filter.modulo.isDefined ||
  !filter.others.isEmpty

inductive SolanaHandlerKind where
  | block
  | transaction
  | instruction
  | log
  deriving Repr, DecidableEq

structure Handler where
  kind : SolanaHandlerKind
  filter : Option HandlerFilter
  deriving Repr, DecidableEq

structure Mapping where
  handlers : List Handler
  deriving Repr, DecidableEq

structure SubqlRuntimeDatasource where
  mapping : Mapping
  deriving Repr, DecidableEq

/-! ## Discriminators -/

/-- An IDL, as far as discriminators are concerned: what `findInstructionDiscriminatorByName` finds
in its root. Parsing it may throw. -/
structure Idl where
  findInstructionDiscriminatorByName : String → Except String (Option (List UInt8))

/-- The loaded IDLs, and what the decoder calls. -/
structure SolanaDecoder where
  idls : String → Option Idl
  isHex : String → Bool
  bs58decode : String → Except String (List UInt8)

def hexValue (c : Char) : Option Nat :=
  if '0' ≤ c ∧ c ≤ '9' then some (c.toNat - '0'.toNat)
  else if 'a' ≤ c ∧ c ≤ 'f' then some (c.toNat - 'a'.toNat + 10)
  else if 'A' ≤ c ∧ c ≤ 'F' then some (c.toNat - 'A'.toNat + 10)
  else none

/-- `Buffer.from(text, 'hex')` stops where the text is no longer hexadecimal. -/
def bytesOfHex : List Char → List UInt8
  | a :: b :: rest =>
    match hexValue a, hexValue b with
    | some x, some y => UInt8.ofNat (16 * x + y) :: bytesOfHex rest
    | _, _ => []
  | _ => []

/-- `text.replace('0x', '')`, which replaces one occurrence. -/
def without0x : List Char → List Char
  | '0' :: 'x' :: rest => rest
  | c :: rest => c :: without0x rest
  | [] => []

/-- `SolanaDecoder.parseDiscriminator`, without the decorator that memoizes it. -/
def SolanaDecoder.parseDiscriminator (decoder : SolanaDecoder) (input programId : String) :
    Except String (List UInt8) :=
  if decoder.isHex input then .ok (bytesOfHex (without0x input.toList))
  else
    match decoder.idls programId with
    | none => .error s!"Unable to find IDL for program {programId}"
    | some idl => do
      match ← idl.findInstructionDiscriminatorByName input with
      | some discriminator => pure discriminator
      | none => decoder.bs58decode input

/-! ## Filtering -/

/-- The accounts whose keys stand where the signatures stand. -/
def signers (signatures accountKeys : List String) : List String :=
  accountKeys.take signatures.length

def filterTransactionsProcessor (transaction : SolanaTransaction) (filter : Option HandlerFilter) :
    Bool :=
  match filter with
  | none => true
  | some filter =>
    match filter.signerAccountKey.text? with
    | none => true
    | some key => (signers transaction.signatures transaction.accountKeys).contains key

/-- The loop over `filter.accounts`; `resolve i` is the account at position `i`. -/
def accountsMatch (resolve : Nat → Option String) (accounts : List (Option (List String))) : Bool :=
  accounts.zipIdx.all fun (filterAccounts, i) =>
    match filterAccounts with
    | none => true
    | some allowed => (resolve i).any fun account => allowed.contains account

/-- `instruction.transaction.meta?.err`, as a condition. -/
def SolanaInstruction.failed (instruction : SolanaInstruction) : Bool :=
  (instruction.transaction.meta.bind RawMeta.err).isSome

/-- Only keys that the message names itself are looked at for the accounts. -/
def filterInstructionsProcessor (decoder : SolanaDecoder) (instruction : SolanaInstruction)
    (filter : Option HandlerFilter) : Except String Bool :=
  match filter with
  | none => .ok true
  | some filter =>
    let programId := getProgramId instruction
    if !filter.includeFailed.isTrue && instruction.failed then .ok false
    else if filter.programId.text?.any fun id => some id ≠ programId then .ok false
    else if !filter.accounts.toOption.all (accountsMatch fun i =>
        instruction.accounts[i]?.bind (instruction.transaction.accountKeys[·]?)) then .ok false
    else
      match filter.discriminator.text? with
      | none => .ok true
      | some input => do
        let discriminator ← decoder.parseDiscriminator input (programId.getD "undefined")
        let data ← decoder.bs58decode instruction.data
        pure (discriminator.isPrefixOf data)

def filterLogsProcessor (log : SolanaLogMessage) (filter : Option HandlerFilter) : Bool :=
  match filter with
  | none => true
  | some filter => !filter.programId.text?.any fun id => some id ≠ log.programId

/-- The plain filter path: would the handler be called with this item? -/
def Handler.accepts (decoder : SolanaDecoder) (handler : Handler) : Item → Bool
  | .transaction tx =>
    handler.kind = .transaction && filterTransactionsProcessor tx handler.filter
  | .instruction instruction =>
    handler.kind = .instruction &&
      (filterInstructionsProcessor decoder instruction handler.filter).toOption = some true
  | .log log => handler.kind = .log && filterLogsProcessor log handler.filter

/-! ## Data sources from templates -/

/-- Arguments of a template. A property that is not there leaves the filter's own; one that is
`undefined` does not. -/
structure TemplateArgs where
  signerAccountKey : Option (Nullish String) := none
  programId : Option (Nullish String) := none
  accounts : Option (Nullish (List (Option (List String)))) := none
  discriminator : Option (Nullish String) := none
  includeFailed : Option (Nullish Bool) := none
  modulo : Option (Nullish Nat) := none
  /-- All other properties, and whether they are defined. -/
  others : List (String × Bool) := []
  deriving Repr, DecidableEq

/-- `{...filter, ...args}`. -/
def HandlerFilter.spread (filter : HandlerFilter) (args : TemplateArgs) : HandlerFilter where
  signerAccountKey := args.signerAccountKey.getD filter.signerAccountKey
  programId := args.programId.getD filter.programId
  accounts := args.accounts.getD filter.accounts
  discriminator := args.discriminator.getD filter.discriminator
  includeFailed := args.includeFailed.getD filter.includeFailed
  modulo := args.modulo.getD filter.modulo
  others := (filter.others.filter fun name => name ∉ args.others.map Prod.fst) ++
    (args.others.filter Prod.snd).map Prod.fst

/-- `...undefined` spreads nothing. -/
def Handler.spread (handler : Handler) (args : Option TemplateArgs) : Handler :=
  { handler with filter := some ((handler.filter.getD {}).spread (args.getD {})) }

/-- `validateSync` is the validator's, on the decorators of the data source. -/
def updateDynamicDs (validateSync : SubqlRuntimeDatasource → List String)
    (args : Option TemplateArgs) (dsObj : SubqlRuntimeDatasource) :
    Except String SubqlRuntimeDatasource :=
  let ds : SubqlRuntimeDatasource := ⟨⟨dsObj.mapping.handlers.map fun h => h.spread args⟩⟩
  let errors := validateSync ds
  if errors.isEmpty then .ok ds
  else .error ("Dynamic ds is invalid\n" ++ String.intercalate "\n" errors)

theorem filter_of_updateDynamicDs {validateSync : SubqlRuntimeDatasource → List String}
    {args : Option TemplateArgs} {dsObj ds : SubqlRuntimeDatasource}
    (h : updateDynamicDs validateSync args dsObj = .ok ds) :
    ∀ handler ∈ ds.mapping.handlers, handler.filter ≠ none := by
  simp only [updateDynamicDs] at h
  split at h <;> cases h
  intro handler hh
  obtain ⟨own, -, rfl⟩ := List.mem_map.mp hh
  exact Option.some_ne_none _

end SubqlSolana
