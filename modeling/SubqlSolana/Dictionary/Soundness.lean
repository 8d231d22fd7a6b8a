import SubqlSolana.Dictionary.QueryEntry
import SubqlSolana.Solana.InstructionFilter

/-!
# A condition finds what its filter accepts

The in-process filters and the conditions for the dictionary describe the same filter twice.
`finds_of_accepts` is the direction that matters: **whatever a handler is called with satisfies the
condition that the handler contributed**, if it contributed one. The other direction does not hold
for the accounts, which the dictionary resolves and the filter does not.

A filter without a restriction contributes a condition that finds everything
(`finds_of_unrestricted`), but only if it has a property that is not `undefined`.
-/

set_option autoImplicit false

namespace SubqlSolana

open Lib

variable {decoder : SolanaDecoder} {filter : HandlerFilter}

/-! ## Transactions and logs -/

theorem finds_of_filterTransactionsProcessor {tx : SolanaTransaction}
    (h : filterTransactionsProcessor tx (some filter) = true) :
    (txFilterToDictionaryCondition filter).finds tx = true := by
  unfold filterTransactionsProcessor at h
  unfold txFilterToDictionaryCondition SolanaDictionaryTxConditions.finds
  cases hkey : filter.signerAccountKey.text? with
  | none => rfl
  | some key =>
    simp only [hkey] at h
    simpa [anyOf] using h

theorem finds_of_filterLogsProcessor {log : SolanaLogMessage}
    (h : filterLogsProcessor log (some filter) = true) :
    (logFilterToDictionaryCondition filter).finds log = true := by
  unfold filterLogsProcessor at h
  unfold logFilterToDictionaryCondition SolanaDictionaryLogConditions.finds
  cases hid : filter.programId.text? with
  | none => rfl
  | some id =>
    simp only [hid] at h
    simpa [anyOf, eq_comm] using h

/-! ## Instructions -/

theorem accountsMatch_mono {resolve resolve' : Nat → Option String}
    {accounts : List (Option (List String))}
    (hresolve : ∀ i account, resolve i = some account → resolve' i = some account)
    (h : accountsMatch resolve accounts = true) : accountsMatch resolve' accounts = true := by
  unfold accountsMatch at h ⊢
  rw [List.all_eq_true] at h ⊢
  rintro ⟨filterAccounts, i⟩ hmem
  cases filterAccounts with
  | none => rfl
  | some allowed =>
    have hi : (resolve i).any (fun account => allowed.contains account) = true := h _ hmem
    show (resolve' i).any (fun account => allowed.contains account) = true
    cases haccount : resolve i with
    | none =>
      rw [haccount] at hi
      cases hi
    | some account =>
      rw [hresolve i account haccount]
      rwa [haccount] at hi

/-- What it takes for an instruction to be accepted. -/
structure AcceptedInstruction (decoder : SolanaDecoder) (filter : HandlerFilter)
    (instruction : SolanaInstruction) : Prop where
  committed : filter.includeFailed.isTrue = true ∨ instruction.failed = false
  program : ∀ id, filter.programId.text? = some id → getProgramId instruction = some id
  accounts : filter.accounts.toOption.all (accountsMatch fun i =>
    instruction.accounts[i]?.bind (instruction.transaction.accountKeys[·]?)) = true
  discriminator : ∀ input, filter.discriminator.text? = some input → ∃ disc data,
    decoder.parseDiscriminator input ((getProgramId instruction).getD "undefined") = .ok disc ∧
    decoder.bs58decode instruction.data = .ok data ∧ disc <+: data

theorem filterInstructionsProcessor_eq_true {instruction : SolanaInstruction}
    (h : filterInstructionsProcessor decoder instruction (some filter) = .ok true) :
    AcceptedInstruction decoder filter instruction := by
  have haccepts := filterInstructionsProcessor_eq_true_iff.mp h
  exact ⟨haccepts.committed, haccepts.program, (all_accountsMatch_iff _ _).mpr haccepts.accounts,
    haccepts.discriminator⟩

theorem startsWithDiscriminator_of_prefix {disc data : List UInt8} (h : disc <+: data) :
    startsWithDiscriminator data ("0x" ++ toHex disc) = true := by
  obtain ⟨rest, rfl⟩ := h
  unfold startsWithDiscriminator
  rw [String.startsWith_string_iff]
  simp [toHex, List.flatMap_append]

/-- The discriminator that the filter asks for, in hexadecimal, is one that the data begins with. -/
theorem AcceptedInstruction.finds_discriminator {instruction : SolanaInstruction}
    (h : AcceptedInstruction decoder filter instruction) {discriminators : Option (List String)}
    (hds : discriminatorsOf decoder filter = .ok discriminators) :
    (anyOf discriminators fun discriminator =>
      (decoder.bs58decode instruction.data).toOption.any fun data =>
        startsWithDiscriminator data discriminator) = true := by
  unfold discriminatorsOf at hds
  cases hinput : filter.discriminator.text? with
  | none =>
    rw [hinput] at hds
    cases hds
    rfl
  | some input =>
    rw [hinput] at hds
    cases hid : filter.programId.text? with
    | none =>
      rw [hid] at hds
      cases hds
    | some id =>
      obtain ⟨disc, data, hdisc, hdata, hprefix⟩ := h.discriminator input hinput
      rw [h.program id hid] at hdisc
      simp only [hid, Option.getD_some] at hds hdisc
      rw [hdisc] at hds
      cases hds
      simp [anyOf, hdata, Except.toOption, startsWithDiscriminator_of_prefix hprefix]

theorem finds_of_filterInstructionsProcessor {instruction : SolanaInstruction}
    {condition : SolanaDictionaryInstructionConditions}
    (h : filterInstructionsProcessor decoder instruction (some filter) = .ok true)
    (hc : instructionFilterToDictionaryCondition decoder filter = .ok condition) :
    condition.finds decoder instruction = true := by
  have haccepted := filterInstructionsProcessor_eq_true h
  obtain ⟨discriminators, hds, hc⟩ := bind_eq_ok.mp hc
  cases hc
  simp only [SolanaDictionaryInstructionConditions.finds, Bool.and_eq_true]
  refine ⟨⟨⟨?_, ?_⟩, ?_⟩, ?_⟩
  · cases hid : filter.programId.text? with
    | none => rfl
    | some id => simp [anyOf, haccepted.program id hid]
  · cases haccounts : filter.accounts.toOption with
    | none => rfl
    | some accounts =>
      have hall := haccepted.accounts
      rw [haccounts, Option.all_some] at hall
      refine accountsMatch_mono (fun i account hi => ?_) hall
      obtain ⟨index, hindex, hkey⟩ := Option.bind_eq_some_iff.mp hi
      exact Option.bind_eq_some_iff.mpr ⟨index, hindex, getAccountByIndex_of_accountKeys hkey⟩
  · exact haccepted.finds_discriminator hds
  · rcases haccepted.committed with hfailed | hok
    · simp [hfailed]
    · cases filter.includeFailed.isTrue <;> simp [hok]

/-! ## Handlers -/

theorem accepts_transaction_iff {handler : Handler} {tx : SolanaTransaction} :
    handler.accepts decoder (.transaction tx) = true ↔
      handler.kind = .transaction ∧ filterTransactionsProcessor tx handler.filter = true := by
  simp only [Handler.accepts, Bool.and_eq_true, decide_eq_true_eq]

theorem accepts_log_iff {handler : Handler} {log : SolanaLogMessage} :
    handler.accepts decoder (.log log) = true ↔
      handler.kind = .log ∧ filterLogsProcessor log handler.filter = true := by
  simp only [Handler.accepts, Bool.and_eq_true, decide_eq_true_eq]

theorem accepts_instruction_iff {handler : Handler} {instruction : SolanaInstruction} :
    handler.accepts decoder (.instruction instruction) = true ↔ handler.kind = .instruction ∧
      filterInstructionsProcessor decoder instruction handler.filter = .ok true := by
  simp only [Handler.accepts, Bool.and_eq_true, decide_eq_true_eq, toOption_eq_some]

/-- **The condition of a handler finds whatever the handler accepts.** -/
theorem finds_of_accepts {handler : Handler} {condition : Condition} {item : Item}
    (hcondition : handler.condition decoder = some condition)
    (haccepts : handler.accepts decoder item = true) : condition.finds decoder item = true := by
  cases condition_contributed hcondition with
  | transaction filter _ =>
    cases item with
    | transaction tx => exact finds_of_filterTransactionsProcessor (accepts_transaction_iff.mp haccepts).2
    | instruction _ => simp [Handler.accepts] at haccepts
    | log _ => simp [Handler.accepts] at haccepts
  | log filter _ =>
    cases item with
    | transaction _ => simp [Handler.accepts] at haccepts
    | instruction _ => simp [Handler.accepts] at haccepts
    | log l => exact finds_of_filterLogsProcessor (accepts_log_iff.mp haccepts).2
  | instruction filter _ own hown =>
    cases item with
    | transaction _ => simp [Handler.accepts] at haccepts
    | log _ => simp [Handler.accepts] at haccepts
    | instruction i =>
      exact finds_of_filterInstructionsProcessor (accepts_instruction_iff.mp haccepts).2 hown

end SubqlSolana
