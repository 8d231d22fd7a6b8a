import Mathlib.Data.List.TakeWhile
import SubqlSolana.Solana.Handlers

/-!
# What the dictionary is asked for

`buildDictionaryV2QueryEntry` (`indexer/dictionary/v2/solanaDictionaryV2.ts`) turns the handlers of a
project into conditions, so that the dictionary returns only blocks with something for a handler in
them. An empty entry means that the dictionary is not used.

The service that answers is not part of the repository. `finds` is what an entry means to it: the
conditions of a kind are alternatives, the fields of a condition all have to hold, and a field that is
absent holds of everything.
-/

set_option autoImplicit false

namespace SubqlSolana

open Lib

/-! ## Entries -/

structure SolanaDictionaryLogConditions where
  programIds : Option (List String) := none
  deriving Repr, DecidableEq

structure SolanaDictionaryTxConditions where
  signerAccountKeys : Option (List String) := none
  deriving Repr, DecidableEq

structure SolanaDictionaryInstructionConditions where
  programIds : Option (List String) := none
  accounts : Option (List (Option (List String))) := none
  /-- In hexadecimal, after `0x`. -/
  discriminators : Option (List String) := none
  isCommitted : Option Bool := none
  deriving Repr, DecidableEq

structure SolanaDictionaryV2QueryEntry where
  logs : Option (List SolanaDictionaryLogConditions) := none
  instructions : Option (List SolanaDictionaryInstructionConditions) := none
  transactions : Option (List SolanaDictionaryTxConditions) := none
  deriving Repr, DecidableEq

/-! ## Conditions of filters -/

def txFilterToDictionaryCondition (filter : HandlerFilter) : SolanaDictionaryTxConditions where
  signerAccountKeys := filter.signerAccountKey.text?.map fun key => [key]

def hexDigits (byte : UInt8) : List Char :=
  [Nat.digitChar (byte.toNat / 16), Nat.digitChar (byte.toNat % 16)]

/-- `buffer.toString('hex')`. -/
def toHex (bytes : List UInt8) : String := String.ofList (bytes.flatMap hexDigits)

def programIdRequired : String :=
  "programId is required to be set when a discriminator is provided"

def discriminatorsOf (decoder : SolanaDecoder) (filter : HandlerFilter) :
    Except String (Option (List String)) :=
  match filter.discriminator.text? with
  | none => .ok none
  | some input =>
    match filter.programId.text? with
    | none => .error programIdRequired
    | some programId => do
      let disc ← decoder.parseDiscriminator input programId
      pure (some ["0x" ++ toHex disc])

def instructionFilterToDictionaryCondition (decoder : SolanaDecoder) (filter : HandlerFilter) :
    Except String SolanaDictionaryInstructionConditions := do
  let discriminators ← discriminatorsOf decoder filter
  pure
    { accounts := filter.accounts.toOption
      programIds := filter.programId.text?.map fun id => [id]
      discriminators
      isCommitted := if filter.includeFailed.isTrue then none else some true }

def logFilterToDictionaryCondition (filter : HandlerFilter) : SolanaDictionaryLogConditions where
  programIds := filter.programId.text?.map fun id => [id]

/-! ## The entry -/

/-- One handler. `none` is `return {}`. -/
def addHandler (decoder : SolanaDecoder) (conditions : SolanaDictionaryV2QueryEntry)
    (handler : Handler) : Except String (Option SolanaDictionaryV2QueryEntry) :=
  match handler.filter with
  | none => .ok none
  | some filter =>
    match handler.kind with
    | .block => .ok (if filter.modulo = .undefined then none else some conditions)
    | .transaction =>
      if filter.hasValue then
        .ok (some { conditions with
          transactions :=
            some (conditions.transactions.getD [] ++ [txFilterToDictionaryCondition filter]) })
      else .ok (some conditions)
    | .instruction =>
      if filter.hasValue then do
        let condition ← instructionFilterToDictionaryCondition decoder filter
        pure (some { conditions with
          instructions := some (conditions.instructions.getD [] ++ [condition]) })
      else .ok (some conditions)
    | .log =>
      if filter.hasValue then
        .ok (some { conditions with
          logs := some (conditions.logs.getD [] ++ [logFilterToDictionaryCondition filter]) })
      else .ok (some conditions)

def addHandlers (decoder : SolanaDecoder) (conditions : SolanaDictionaryV2QueryEntry) :
    List Handler → Except String (Option SolanaDictionaryV2QueryEntry)
  | [] => .ok (some conditions)
  | handler :: handlers => do
    match ← addHandler decoder conditions handler with
    | none => pure none
    | some conditions => addHandlers decoder conditions handlers

def addDataSources (decoder : SolanaDecoder) (conditions : SolanaDictionaryV2QueryEntry) :
    List SubqlRuntimeDatasource → Except String (Option SolanaDictionaryV2QueryEntry)
  | [] => .ok (some conditions)
  | ds :: dataSources => do
    match ← addHandlers decoder conditions ds.mapping.handlers with
    | none => pure none
    | some conditions => addDataSources decoder conditions dataSources

/-- `uniqBy` with `JSON.stringify`, which tells two conditions of a kind apart if they differ. An empty
list is deleted. -/
def sanitiseConditions {C : Type} [DecidableEq C] (conditions : Option (List C)) : Option (List C) :=
  match conditions with
  | none | some [] => none
  | some conditions => some conditions.eraseDups

def sanitiseDictionaryConditions (dictionaryConditions : SolanaDictionaryV2QueryEntry) :
    SolanaDictionaryV2QueryEntry where
  logs := sanitiseConditions dictionaryConditions.logs
  instructions := sanitiseConditions dictionaryConditions.instructions
  transactions := sanitiseConditions dictionaryConditions.transactions

def buildDictionaryV2QueryEntry (decoder : SolanaDecoder)
    (dataSources : List SubqlRuntimeDatasource) : Except String SolanaDictionaryV2QueryEntry := do
  match ← addDataSources decoder { logs := some [], transactions := some [] } dataSources with
  | none => pure {}
  | some conditions => pure (sanitiseDictionaryConditions conditions)

/-! ## What an entry finds -/

/-- A field with a list of alternatives; one that is absent holds of everything. -/
def anyOf (allowed : Option (List String)) (holds : String → Bool) : Bool :=
  allowed.all fun allowed => allowed.any holds

def SolanaDictionaryTxConditions.finds (condition : SolanaDictionaryTxConditions)
    (tx : SolanaTransaction) : Bool :=
  anyOf condition.signerAccountKeys (signers tx.signatures tx.accountKeys).contains

def SolanaDictionaryLogConditions.finds (condition : SolanaDictionaryLogConditions)
    (log : SolanaLogMessage) : Bool :=
  anyOf condition.programIds fun id => log.programId = some id

/-- The account at a position of an instruction, with those from lookup tables resolved. -/
def SolanaInstruction.resolve (instruction : SolanaInstruction) (i : Nat) : Option String :=
  instruction.accounts[i]?.bind (getAccountByIndex instruction)

/-- A prefix of the bytes is one of their digits, two for each byte. -/
def startsWithDiscriminator (data : List UInt8) (discriminator : String) : Bool :=
  ("0x" ++ toHex data).startsWith discriminator

def SolanaDictionaryInstructionConditions.finds (decoder : SolanaDecoder)
    (condition : SolanaDictionaryInstructionConditions) (instruction : SolanaInstruction) : Bool :=
  anyOf condition.programIds (fun id => getProgramId instruction = some id) &&
  condition.accounts.all (accountsMatch instruction.resolve) &&
  anyOf condition.discriminators (fun discriminator =>
    (decoder.bs58decode instruction.data).toOption.any fun data =>
      startsWithDiscriminator data discriminator) &&
  condition.isCommitted.all fun isCommitted => isCommitted = !instruction.failed

/-- A condition of any kind. -/
inductive Condition where
  | log (condition : SolanaDictionaryLogConditions)
  | instruction (condition : SolanaDictionaryInstructionConditions)
  | transaction (condition : SolanaDictionaryTxConditions)
  deriving Repr, DecidableEq

def Condition.finds (decoder : SolanaDecoder) : Condition → Item → Bool
  | log condition, .log l => condition.finds l
  | instruction condition, .instruction i => condition.finds decoder i
  | transaction condition, .transaction tx => condition.finds tx
  | _, _ => false

/-- The conditions of an entry, of all kinds. -/
def SolanaDictionaryV2QueryEntry.conditions (entry : SolanaDictionaryV2QueryEntry) :
    List Condition :=
  (entry.logs.getD []).map .log ++ (entry.instructions.getD []).map .instruction ++
    (entry.transactions.getD []).map .transaction

/-- Some condition of the item's kind holds of it. -/
def SolanaDictionaryV2QueryEntry.finds (decoder : SolanaDecoder)
    (entry : SolanaDictionaryV2QueryEntry) (item : Item) : Bool :=
  entry.conditions.any fun condition => condition.finds decoder item

/-! ## The loop -/

/-- The builder stops here and returns `{}`: no filter, or a block handler for every block. -/
def Handler.givesUp : Handler → Bool
  | ⟨_, none⟩ => true
  | ⟨.block, some filter⟩ => filter.modulo = .undefined
  | _ => false

/-- A discriminator comes with a program, under which the decoder finds its bytes. -/
def HandlerFilter.Resolves (decoder : SolanaDecoder) (filter : HandlerFilter) : Prop :=
  ∀ input, filter.discriminator.text? = some input → ∃ programId disc,
    filter.programId.text? = some programId ∧
    decoder.parseDiscriminator input programId = .ok disc

def Handler.Resolves (decoder : SolanaDecoder) (handler : Handler) : Prop :=
  ∀ filter, handler = ⟨.instruction, some filter⟩ → filter.Resolves decoder

/-- What a handler contributes to the entry: nothing, if its filter is `{}`. -/
def Handler.condition (decoder : SolanaDecoder) : Handler → Option Condition
  | ⟨.transaction, some filter⟩ =>
    if filter.hasValue then some (.transaction (txFilterToDictionaryCondition filter)) else none
  | ⟨.instruction, some filter⟩ =>
    if filter.hasValue then
      (instructionFilterToDictionaryCondition decoder filter).toOption.map .instruction
    else none
  | ⟨.log, some filter⟩ =>
    if filter.hasValue then some (.log (logFilterToDictionaryCondition filter)) else none
  | _ => none

theorem HandlerFilter.hasValue_of_discriminator {filter : HandlerFilter} {input : String}
    (h : filter.discriminator.text? = some input) : filter.hasValue = true := by
  simp [hasValue, Nullish.isDefined_of_text? h]

theorem discriminatorsOf_ok {decoder : SolanaDecoder} {filter : HandlerFilter}
    (h : filter.Resolves decoder) :
    ∃ discriminators, discriminatorsOf decoder filter = .ok discriminators := by
  unfold discriminatorsOf
  cases hinput : filter.discriminator.text? with
  | none => exact ⟨_, rfl⟩
  | some input =>
    obtain ⟨programId, disc, hprogram, hdisc⟩ := h input hinput
    rw [hprogram]
    simp only [hdisc]
    exact ⟨_, rfl⟩

theorem discriminatorsOf_error {decoder : SolanaDecoder} {filter : HandlerFilter}
    (h : ¬filter.Resolves decoder) : ∃ e, discriminatorsOf decoder filter = .error e := by
  unfold discriminatorsOf
  cases hinput : filter.discriminator.text? with
  | none => exact absurd (fun input hsome => by rw [hinput] at hsome; cases hsome) h
  | some input =>
    cases hprogram : filter.programId.text? with
    | none => exact ⟨_, rfl⟩
    | some programId =>
      cases hdisc : decoder.parseDiscriminator input programId with
      | error e =>
        refine ⟨e, ?_⟩
        show (decoder.parseDiscriminator input programId >>= _) = _
        rw [hdisc]
        rfl
      | ok disc =>
        refine absurd (fun input' hsome => ?_) h
        obtain rfl : input = input' := Option.some.inj (hinput.symm.trans hsome)
        exact ⟨programId, disc, hprogram, hdisc⟩

variable {decoder : SolanaDecoder}

/-- The condition of a filter that resolves. -/
theorem instructionFilterToDictionaryCondition_ok {filter : HandlerFilter}
    (h : filter.Resolves decoder) :
    ∃ condition, instructionFilterToDictionaryCondition decoder filter = .ok condition := by
  obtain ⟨discriminators, hd⟩ := discriminatorsOf_ok h
  unfold instructionFilterToDictionaryCondition
  rw [hd]
  exact ⟨_, rfl⟩

theorem instructionFilterToDictionaryCondition_error {filter : HandlerFilter}
    (h : ¬filter.Resolves decoder) :
    ∃ e, instructionFilterToDictionaryCondition decoder filter = .error e := by
  obtain ⟨e, he⟩ := discriminatorsOf_error h
  unfold instructionFilterToDictionaryCondition
  rw [he]
  exact ⟨e, rfl⟩

/-- Which condition a handler contributed. -/
inductive Contributed (decoder : SolanaDecoder) : Handler → Condition → Prop where
  | transaction (filter : HandlerFilter) (h : filter.hasValue = true) :
    Contributed decoder ⟨.transaction, some filter⟩
      (.transaction (txFilterToDictionaryCondition filter))
  | log (filter : HandlerFilter) (h : filter.hasValue = true) :
    Contributed decoder ⟨.log, some filter⟩ (.log (logFilterToDictionaryCondition filter))
  | instruction (filter : HandlerFilter) (h : filter.hasValue = true)
    (own : SolanaDictionaryInstructionConditions)
    (hown : instructionFilterToDictionaryCondition decoder filter = .ok own) :
    Contributed decoder ⟨.instruction, some filter⟩ (.instruction own)

theorem condition_contributed {handler : Handler} {c : Condition}
    (h : handler.condition decoder = some c) : Contributed decoder handler c := by
  obtain ⟨kind, _ | filter⟩ := handler
  · cases kind <;> cases h
  cases hvalue : filter.hasValue with
  | false => cases kind <;> simp [Handler.condition, hvalue] at h
  | true =>
    cases kind with
    | block => cases h
    | transaction =>
      obtain rfl : _ = c := by simpa [Handler.condition, hvalue] using h
      exact .transaction filter hvalue
    | log =>
      obtain rfl : _ = c := by simpa [Handler.condition, hvalue] using h
      exact .log filter hvalue
    | instruction =>
      simp only [Handler.condition, hvalue, if_true, Option.map_eq_some_iff] at h
      obtain ⟨own, hown, rfl⟩ := h
      exact .instruction filter hvalue own (toOption_eq_some.mp hown)

/-- A handler of a kind that can contribute does so, unless its filter is `{}`. -/
theorem exists_condition {kind : SolanaHandlerKind} {filter : HandlerFilter} (hkind : kind ≠ .block)
    (hvalue : filter.hasValue = true) (h : (Handler.mk kind (some filter)).Resolves decoder) :
    ∃ c, (Handler.mk kind (some filter)).condition decoder = some c := by
  cases kind with
  | block => exact absurd rfl hkind
  | transaction => exact ⟨_, if_pos hvalue⟩
  | log => exact ⟨_, if_pos hvalue⟩
  | instruction =>
    obtain ⟨own, hown⟩ := instructionFilterToDictionaryCondition_ok (h filter rfl)
    exact ⟨.instruction own, by simp [Handler.condition, hvalue, hown, Except.toOption]⟩

/-- What a handler does to the conditions gathered so far. -/
inductive Handled (decoder : SolanaDecoder) (conditions : SolanaDictionaryV2QueryEntry)
    (handler : Handler) : Except String (Option SolanaDictionaryV2QueryEntry) → Prop where
  | gaveUp (h : handler.givesUp = true) : Handled decoder conditions handler (.ok none)
  | threw (e : String) (hstays : handler.givesUp = false) (h : ¬handler.Resolves decoder) :
    Handled decoder conditions handler (.error e)
  | added (next : SolanaDictionaryV2QueryEntry) (hstays : handler.givesUp = false)
    (h : handler.Resolves decoder)
    (hmem : ∀ c, c ∈ next.conditions ↔ c ∈ conditions.conditions ∨ handler.condition decoder = some c) :
    Handled decoder conditions handler (.ok (some next))

section
variable (conditions : SolanaDictionaryV2QueryEntry) (c : Condition)

theorem mem_add_transaction (x : SolanaDictionaryTxConditions) :
    c ∈ ({ conditions with transactions := some (conditions.transactions.getD [] ++ [x]) } :
      SolanaDictionaryV2QueryEntry).conditions ↔ c ∈ conditions.conditions ∨ .transaction x = c := by
  simp [SolanaDictionaryV2QueryEntry.conditions, or_assoc, eq_comm]

theorem mem_add_instruction (x : SolanaDictionaryInstructionConditions) :
    c ∈ ({ conditions with instructions := some (conditions.instructions.getD [] ++ [x]) } :
      SolanaDictionaryV2QueryEntry).conditions ↔ c ∈ conditions.conditions ∨ .instruction x = c := by
  simp [SolanaDictionaryV2QueryEntry.conditions, or_comm, or_left_comm, eq_comm]

theorem mem_add_log (x : SolanaDictionaryLogConditions) :
    c ∈ ({ conditions with logs := some (conditions.logs.getD [] ++ [x]) } :
      SolanaDictionaryV2QueryEntry).conditions ↔ c ∈ conditions.conditions ∨ .log x = c := by
  simp [SolanaDictionaryV2QueryEntry.conditions, or_comm, or_left_comm, eq_comm]

end

variable (decoder) in
theorem addHandler_handled (conditions : SolanaDictionaryV2QueryEntry) (handler : Handler) :
    Handled decoder conditions handler (addHandler decoder conditions handler) := by
  obtain ⟨kind, filter | filter⟩ := handler
  · exact .gaveUp rfl
  cases kind with
  | block =>
    by_cases hmodulo : filter.modulo = .undefined
    · simp only [addHandler, if_pos hmodulo]
      exact .gaveUp (decide_eq_true hmodulo)
    · simp only [addHandler, if_neg hmodulo]
      exact .added _ (decide_eq_false hmodulo) (fun _ h => by cases h) (by simp [Handler.condition])
  | transaction =>
    by_cases hvalue : filter.hasValue
    · simp only [addHandler, if_pos hvalue]
      refine .added _ rfl (fun _ h => by cases h) fun c => ?_
      rw [mem_add_transaction]
      simp [Handler.condition, hvalue]
    · simp only [addHandler, if_neg hvalue]
      exact .added _ rfl (fun _ h => by cases h) (by simp [Handler.condition, hvalue])
  | log =>
    by_cases hvalue : filter.hasValue
    · simp only [addHandler, if_pos hvalue]
      refine .added _ rfl (fun _ h => by cases h) fun c => ?_
      rw [mem_add_log]
      simp [Handler.condition, hvalue]
    · simp only [addHandler, if_neg hvalue]
      exact .added _ rfl (fun _ h => by cases h) (by simp [Handler.condition, hvalue])
  | instruction =>
    by_cases hresolves : filter.Resolves decoder
    · have hres : (Handler.mk .instruction (some filter)).Resolves decoder := by
        rintro _ ⟨⟩
        exact hresolves
      obtain ⟨condition, hcondition⟩ := instructionFilterToDictionaryCondition_ok hresolves
      by_cases hvalue : filter.hasValue
      · simp only [addHandler, if_pos hvalue, hcondition]
        refine .added _ rfl hres fun c => ?_
        rw [mem_add_instruction]
        simp [Handler.condition, hvalue, hcondition, Except.toOption]
      · simp only [addHandler, if_neg hvalue]
        exact .added _ rfl hres (by simp [Handler.condition, hvalue])
    · obtain ⟨e, he⟩ := instructionFilterToDictionaryCondition_error hresolves
      have hvalue : filter.hasValue = true := by
        by_contra hnone
        exact hresolves fun input h => absurd (HandlerFilter.hasValue_of_discriminator h) hnone
      simp only [addHandler, if_pos hvalue, he]
      exact .threw e rfl fun h => hresolves (h _ rfl)

/-- The handlers that come before the first one that makes the builder give up. -/
def reached (handlers : List Handler) : List Handler := handlers.takeWhile fun h => !h.givesUp

/-- What the handlers do to the conditions gathered so far. -/
inductive Gathered (decoder : SolanaDecoder) (conditions : SolanaDictionaryV2QueryEntry)
    (handlers : List Handler) : Except String (Option SolanaDictionaryV2QueryEntry) → Prop where
  | gaveUp (h : ∃ handler ∈ handlers, handler.givesUp = true)
    (hresolves : ∀ handler ∈ reached handlers, handler.Resolves decoder) :
    Gathered decoder conditions handlers (.ok none)
  | threw (e : String) (h : ¬∀ handler ∈ reached handlers, handler.Resolves decoder) :
    Gathered decoder conditions handlers (.error e)
  | added (next : SolanaDictionaryV2QueryEntry)
    (hstays : ∀ handler ∈ handlers, handler.givesUp = false)
    (hresolves : ∀ handler ∈ handlers, handler.Resolves decoder)
    (hmem : ∀ c, c ∈ next.conditions ↔
      c ∈ conditions.conditions ∨ ∃ handler ∈ handlers, handler.condition decoder = some c) :
    Gathered decoder conditions handlers (.ok (some next))

theorem reached_cons_stays {handler : Handler} (h : handler.givesUp = false)
    (handlers : List Handler) : reached (handler :: handlers) = handler :: reached handlers := by
  simp [reached, h]

theorem reached_cons_givesUp {handler : Handler} (h : handler.givesUp = true)
    (handlers : List Handler) : reached (handler :: handlers) = [] := by
  simp [reached, h]

theorem reached_of_stays {handlers : List Handler}
    (h : ∀ handler ∈ handlers, handler.givesUp = false) : reached handlers = handlers :=
  List.takeWhile_eq_self_iff.mpr fun handler hh => by simp [h handler hh]

variable (decoder) in
theorem addHandlers_gathered (handlers : List Handler) : ∀ conditions,
    Gathered decoder conditions handlers (addHandlers decoder conditions handlers) := by
  induction handlers with
  | nil => exact fun conditions => .added _ (by simp) (by simp) (by simp)
  | cons handler handlers ih =>
    intro conditions
    have hone := addHandler_handled decoder conditions handler
    generalize hresult : addHandler decoder conditions handler = result at hone
    have hrest : addHandlers decoder conditions (handler :: handlers) = result >>= _ :=
      congrArg (· >>= _) hresult
    rw [hrest]
    cases hone with
    | gaveUp h =>
      refine .gaveUp ⟨handler, List.mem_cons_self, h⟩ fun h' hh' => ?_
      rw [reached_cons_givesUp h] at hh'
      cases hh'
    | threw e hstays h =>
      refine .threw e fun hall => h (hall handler ?_)
      rw [reached_cons_stays hstays]
      exact List.mem_cons_self
    | added next hstays h hmem =>
      have hreached : (∀ h' ∈ reached (handler :: handlers), h'.Resolves decoder) ↔
          ∀ h' ∈ reached handlers, h'.Resolves decoder := by
        rw [reached_cons_stays hstays, List.forall_mem_cons]
        exact and_iff_right h
      show Gathered decoder conditions _ (addHandlers decoder next handlers)
      generalize addHandlers decoder next handlers = result, ih next = hfollowing
      cases hfollowing with
      | gaveUp hsome hresolves =>
        obtain ⟨h', hh', hup⟩ := hsome
        exact .gaveUp ⟨h', List.mem_cons_of_mem _ hh', hup⟩ (hreached.mpr hresolves)
      | threw e hnot => exact .threw e fun hall => hnot (hreached.mp hall)
      | added last hstays' hresolves hmem' =>
        refine .added last (List.forall_mem_cons.mpr ⟨hstays, hstays'⟩)
          (List.forall_mem_cons.mpr ⟨h, hresolves⟩) fun c => ?_
        rw [hmem', hmem, or_assoc]
        exact or_congr_right (by simp only [List.mem_cons, exists_eq_or_imp])

/-- Nested loops are one loop over all handlers. -/
theorem addHandlers_append (conditions : SolanaDictionaryV2QueryEntry)
    (handlers following : List Handler) :
    addHandlers decoder conditions (handlers ++ following) = (do
      match ← addHandlers decoder conditions handlers with
      | none => pure none
      | some conditions => addHandlers decoder conditions following) := by
  induction handlers generalizing conditions with
  | nil => rfl
  | cons handler handlers ih =>
    simp only [List.cons_append, addHandlers, bind_assoc]
    refine congrArg _ (funext fun result => ?_)
    cases result with
    | none => rfl
    | some next => exact ih next

def handlersOf (dataSources : List SubqlRuntimeDatasource) : List Handler :=
  dataSources.flatMap fun ds => ds.mapping.handlers

theorem addDataSources_eq (dataSources : List SubqlRuntimeDatasource) : ∀ conditions,
    addDataSources decoder conditions dataSources =
      addHandlers decoder conditions (handlersOf dataSources) := by
  induction dataSources with
  | nil => exact fun _ => rfl
  | cons ds dataSources ih =>
    intro conditions
    rw [handlersOf, List.flatMap_cons, addHandlers_append]
    refine congrArg _ (funext fun result => ?_)
    cases result with
    | none => rfl
    | some next => exact ih next

/-! ## The whole entry -/

theorem mem_sanitiseConditions {C : Type} [DecidableEq C] (conditions : Option (List C)) (c : C) :
    c ∈ (sanitiseConditions conditions).getD [] ↔ c ∈ conditions.getD [] := by
  rcases conditions with _ | _ | ⟨d, conditions⟩
  · rfl
  · rfl
  · exact List.mem_eraseDups

theorem sanitiseConditions_eq_none {C : Type} [DecidableEq C] (conditions : Option (List C)) :
    sanitiseConditions conditions = none ↔ conditions.getD [] = [] := by
  rcases conditions with _ | _ | ⟨d, conditions⟩ <;> simp [sanitiseConditions]

theorem mem_sanitise (entry : SolanaDictionaryV2QueryEntry) (c : Condition) :
    c ∈ (sanitiseDictionaryConditions entry).conditions ↔ c ∈ entry.conditions := by
  simp [sanitiseDictionaryConditions, SolanaDictionaryV2QueryEntry.conditions,
    mem_sanitiseConditions]

theorem sanitise_eq_empty (entry : SolanaDictionaryV2QueryEntry) :
    sanitiseDictionaryConditions entry = {} ↔ entry.conditions = [] := by
  simp [sanitiseDictionaryConditions, SolanaDictionaryV2QueryEntry.conditions,
    sanitiseConditions_eq_none]

/-- **What the builder returns**: the conditions of all handlers, unless it gives up or throws first. -/
theorem buildDictionaryV2QueryEntry_cases (decoder : SolanaDecoder)
    (dataSources : List SubqlRuntimeDatasource) :
    (¬(∀ h ∈ reached (handlersOf dataSources), h.Resolves decoder) ∧
      ∃ e, buildDictionaryV2QueryEntry decoder dataSources = .error e) ∨
    ((∀ h ∈ reached (handlersOf dataSources), h.Resolves decoder) ∧
      (∃ h ∈ handlersOf dataSources, h.givesUp = true) ∧
      buildDictionaryV2QueryEntry decoder dataSources = .ok {}) ∨
    ((∀ h ∈ reached (handlersOf dataSources), h.Resolves decoder) ∧
      (∀ h ∈ handlersOf dataSources, h.givesUp = false) ∧
      ∃ entry, buildDictionaryV2QueryEntry decoder dataSources = .ok entry ∧
        (entry = {} ↔ entry.conditions = []) ∧
        ∀ c, c ∈ entry.conditions ↔ ∃ h ∈ handlersOf dataSources, h.condition decoder = some c) := by
  have hall := addHandlers_gathered decoder (handlersOf dataSources)
    { logs := some [], transactions := some [] }
  unfold buildDictionaryV2QueryEntry
  rw [addDataSources_eq]
  generalize addHandlers decoder _ (handlersOf dataSources) = result at hall
  cases hall with
  | gaveUp h hresolves => exact .inr (.inl ⟨hresolves, h, rfl⟩)
  | threw e h => exact .inl ⟨h, e, rfl⟩
  | added next hstays hresolves hmem =>
    refine .inr (.inr ⟨by rwa [reached_of_stays hstays], hstays, _, rfl, ?_, fun c => ?_⟩)
    · rw [sanitise_eq_empty, List.eq_nil_iff_forall_not_mem, List.eq_nil_iff_forall_not_mem]
      exact forall_congr' fun c => not_congr (mem_sanitise next c).symm
    · rw [mem_sanitise, hmem]
      exact or_iff_right (by simp [SolanaDictionaryV2QueryEntry.conditions])

end SubqlSolana
