import SubqlSolana.Lib.Decorated
import SubqlSolana.Solana.Handlers

/-!
# The classes of a project

`project/models.ts` declares the classes that a manifest is made into, with the decorators by which its
data sources are validated (`project/versioned/v1_0_0/model.ts`). The classes that `BlockFilter` and the
data sources extend are in `@subql/common`.

The handlers of a mapping are made instances of the class of their kind by a callback of the mapping's
own. The decorators of `kind` name groups; without groups of its own, `validateSync` goes by all of them.
-/

set_option autoImplicit false

namespace SubqlSolana

open Lib

inductive ModelClass where
  | blockFilter
  | transactionFilter
  | instructionFilter
  | logFilter
  | blockHandler
  | transactionHandler
  | instructionHandler
  | logHandler
  | solanaMapping
  | runtimeDataSource
  | fileReference
  deriving Repr, DecidableEq

/-- The properties that are inherited from `@subql/common`. -/
structure CommonModels where
  baseDataSource : List (Property ModelClass)
  blockFilterImpl : List (Property ModelClass)

def SolanaHandlerKind.text : SolanaHandlerKind → String
  | block => "solana/BlockHandler"
  | transaction => "solana/TransactionHandler"
  | instruction => "solana/InstructionHandler"
  | log => "solana/LogHandler"

def SolanaHandlerKind.texts : List String :=
  [block.text, transaction.text, instruction.text, log.text]

/-! ## Filters -/

namespace Models

def transactionFilter : List (Property ModelClass) :=
  [{ name := "signerAccountKey", decorators := [.isOptional, .isString] }]

def programId : Property ModelClass where
  name := "programId"
  decorators :=
    [.validateIf fun o => (o.lookup "discriminator").isSome,
      .isDefined "programId is required if discriminator is set", .isString]

def instructionFilter : List (Property ModelClass) :=
  [programId,
   { name := "discriminator", decorators := [.isOptional, .isString] },
   { name := "accounts", decorators := [.isOptional, .isArray] },
   { name := "includeFalied", decorators := [.isOptional, .isBoolean] }]

def logFilter : List (Property ModelClass) :=
  [{ name := "programId", decorators := [.isOptional, .isString] }]

/-! ## Handlers -/

/-- What all handlers have, with a filter of this class. -/
def handler (filter : ModelClass) (decorators : List (Decorator ModelClass)) :
    List (Property ModelClass) :=
  [{ name := "filter", conversion := .type filter, decorators },
   { name := "kind", decorators := [.isEnum SolanaHandlerKind.texts] },
   { name := "handler", decorators := [.isString] }]

def blockHandler : List (Property ModelClass) := handler .blockFilter [.isObject, .isOptional]

def transactionHandler : List (Property ModelClass) :=
  handler .transactionFilter [.isOptional, .validateNested]

def instructionHandler : List (Property ModelClass) :=
  handler .instructionFilter [.isOptional, .validateNested]

def logHandler : List (Property ModelClass) := handler .logFilter [.isOptional, .validateNested]

/-- `handler.kind`, if it is a text. -/
def kindOf : Json → Option String
  | .object fields =>
    match fields.lookup "kind" with
    | some (.leaf (.string kind)) => some kind
    | _ => none
  | _ => none

/-- The `switch` of the callback, for one handler. -/
def handlerOfKind (plainToClass : ModelClass → Json → Except String (Instance ModelClass))
    (handler : Json) : Except String (Instance ModelClass) :=
  match kindOf handler with
  | some "solana/LogHandler" => plainToClass .logHandler handler
  | some "solana/InstructionHandler" => plainToClass .instructionHandler handler
  | some "solana/TransactionHandler" => plainToClass .transactionHandler handler
  | some "solana/BlockHandler" => plainToClass .blockHandler handler
  | kind => .error ("handler " ++ kind.getD "undefined" ++ " not supported")

/-- The callback of `@Transform`, on the handlers of a mapping. -/
def transformHandlers (plainToClass : ModelClass → Json → Except String (Instance ModelClass)) :
    Json → Except String (Instance ModelClass)
  | .array handlers => do pure (.array (← handlers.mapM (handlerOfKind plainToClass)))
  | _ => .error "handlers.map is not a function"

/-! ## Data sources -/

def solanaMapping : List (Property ModelClass) :=
  [{ name := "handlers", conversion := .transform transformHandlers,
     decorators := [.isArray, .validateNested] },
   { name := "file", decorators := [.isString] }]

def fileReference : List (Property ModelClass) := [{ name := "file", decorators := [.isString] }]

def mapping : Property ModelClass where
  name := "mapping"
  conversion := .type .solanaMapping
  decorators := [.validateNested]

/-- The properties of a data source besides its mapping. -/
def otherProperties (common : CommonModels) : List (Property ModelClass) :=
  [{ name := "kind", decorators := [.isEnum ["solana/Runtime"]] },
   { name := "assets", conversion := .mapOf .fileReference,
     decorators := [.validateNested, .isOptional] }] ++ common.baseDataSource

def runtimeDataSource (common : CommonModels) : List (Property ModelClass) :=
  mapping :: otherProperties common

/-- The decorated properties of each class. -/
def properties (common : CommonModels) : ModelClass → List (Property ModelClass)
  | .blockFilter => common.blockFilterImpl
  | .transactionFilter => transactionFilter
  | .instructionFilter => instructionFilter
  | .logFilter => logFilter
  | .blockHandler => blockHandler
  | .transactionHandler => transactionHandler
  | .instructionHandler => instructionHandler
  | .logHandler => logHandler
  | .solanaMapping => solanaMapping
  | .runtimeDataSource => runtimeDataSource common
  | .fileReference => fileReference

end Models

/-! ## Validating -/

section

variable (validateSync : Instance ModelClass → List String × Instance ModelClass)

/-- What is thrown, if anything, and the object afterwards. -/
def validateObject (object : Instance ModelClass) (errorMessage : String) :
    Except String Unit × Instance ModelClass :=
  match validateSync object with
  | ([], after) => (.ok (), after)
  | (errors, after) => (.error (errorMessage ++ "\n" ++ String.intercalate "\n" errors), after)

namespace SolanaRuntimeDataSourceImpl

def validate (object : Instance ModelClass) : Except String Unit × Instance ModelClass :=
  validateObject validateSync object "failed to validate runtime datasource."

/-- It returns exactly if there are no errors. -/
theorem validate_eq_ok_iff {object after : Instance ModelClass} :
    validate validateSync object = (.ok (), after) ↔ validateSync object = ([], after) := by
  unfold validate validateObject
  split
  · next heq => rw [heq]; simp
  · next errors after' hne heq =>
    rw [heq]
    simp only [Prod.mk.injEq, reduceCtorEq, false_and, false_iff, not_and]
    exact fun hnil => absurd hnil hne

end SolanaRuntimeDataSourceImpl

end

end SubqlSolana
