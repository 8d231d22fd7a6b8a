import SubqlSolana.Solana.Handlers

/-!
# What an instruction filter means

`SolanaInstructionFilter` says of `accounts` that an entry is matched against the account at its
position, and `getAccountByIndex` says which account that is: the keys of the message come first,
those that the transaction loads from lookup tables after them. `FilterMeaning` is the filter read
that way; `AcceptedInstruction` is what `filterInstructionsProcessor` goes by, and it resolves the
accounts in the keys of the message alone.

An accepted instruction therefore always has the meaning (`FilterMeaning.of_accepted`), and
`filterInstructionsProcessor_decides_iff` says when the converse holds: **the processor decides the
meaning unless the instruction has it and a filtered position is an account from a lookup table**.
-/

set_option autoImplicit false

namespace SubqlSolana

open Lib

/-! ## The two readings -/

/-- `filter.accounts[i]`, if there is an entry that is not `null`. -/
def HandlerFilter.allowedAt (filter : HandlerFilter) (i : Nat) : Option (List String) :=
  (filter.accounts.toOption.bind (·[i]?)).join

/-- What the two readings share, given the account at each position. -/
structure Accepts (resolve : Nat → Option String) (decoder : SolanaDecoder) (filter : HandlerFilter)
    (instruction : SolanaInstruction) : Prop where
  committed : filter.includeFailed.isTrue = true ∨ instruction.failed = false
  program : ∀ id, filter.programId.text? = some id → getProgramId instruction = some id
  accounts : ∀ i allowed, filter.allowedAt i = some allowed →
    ∃ account, resolve i = some account ∧ account ∈ allowed
  discriminator : ∀ input, filter.discriminator.text? = some input → ∃ disc data,
    decoder.parseDiscriminator input ((getProgramId instruction).getD "undefined") = .ok disc ∧
    decoder.bs58decode instruction.data = .ok data ∧ disc <+: data

/-- The account at a position, as `getAccountByIndex` resolves it. -/
def SolanaInstruction.account (instruction : SolanaInstruction) (i : Nat) : Option String :=
  instruction.accounts[i]?.bind (getAccountByIndex instruction)

/-- The account at a position, if the message names it itself. -/
def SolanaInstruction.staticAccount (instruction : SolanaInstruction) (i : Nat) : Option String :=
  instruction.accounts[i]?.bind (instruction.transaction.accountKeys[·]?)

/-- The account at a position is loaded from a lookup table. -/
def SolanaInstruction.LooksUp (instruction : SolanaInstruction) (i : Nat) : Prop :=
  ∃ index, instruction.accounts[i]? = some index ∧
    instruction.transaction.accountKeys.length ≤ index

/-- The meaning of a filter. -/
def FilterMeaning (decoder : SolanaDecoder) (filter : HandlerFilter)
    (instruction : SolanaInstruction) : Prop :=
  Accepts instruction.account decoder filter instruction

variable {decoder : SolanaDecoder} {filter : HandlerFilter} {instruction : SolanaInstruction}

/-! ## The loop over the accounts -/

theorem accountsMatch_iff {resolve : Nat → Option String} {accounts : List (Option (List String))} :
    accountsMatch resolve accounts = true ↔ ∀ i allowed, accounts[i]? = some (some allowed) →
      ∃ account, resolve i = some account ∧ account ∈ allowed := by
  unfold accountsMatch
  rw [List.all_eq_true]
  apply Iff.intro
  · intro h i allowed hi
    have hmem : (some allowed, i) ∈ accounts.zipIdx := List.mem_zipIdx_iff_getElem?.mpr hi
    simpa [Option.any_eq_true] using h _ hmem
  · intro h entry hmem
    obtain ⟨filterAccounts, i⟩ := entry
    cases filterAccounts with
    | none => rfl
    | some allowed =>
      have hi := h i allowed (List.mem_zipIdx_iff_getElem?.mp hmem)
      simpa [Option.any_eq_true] using hi

theorem all_accountsMatch_iff (filter : HandlerFilter) (resolve : Nat → Option String) :
    filter.accounts.toOption.all (accountsMatch resolve) = true ↔
      ∀ i allowed, filter.allowedAt i = some allowed →
        ∃ account, resolve i = some account ∧ account ∈ allowed := by
  unfold HandlerFilter.allowedAt
  cases filter.accounts.toOption with
  | none => simp
  | some accounts =>
    rw [Option.all_some, accountsMatch_iff]
    simp [Option.join_eq_some_iff]

/-! ## The processor -/

/-- The first check is passed. -/
theorem passes_failed_iff : (!filter.includeFailed.isTrue && instruction.failed) = false ↔
    filter.includeFailed.isTrue = true ∨ instruction.failed = false := by
  cases filter.includeFailed.isTrue <;> simp

/-- The second check is passed. -/
theorem passes_program_iff :
    (filter.programId.text?.any fun id => some id ≠ getProgramId instruction) = false ↔
      ∀ id, filter.programId.text? = some id → getProgramId instruction = some id := by
  cases filter.programId.text? with
  | none => simp
  | some id =>
    rw [Option.any_some, decide_eq_false_iff_not, not_not]
    exact ⟨fun h _ hid => Option.some.inj hid ▸ h.symm, fun h => (h id rfl).symm⟩

/-- **What the processor computes**: the filter, read with the keys of the message alone. -/
theorem filterInstructionsProcessor_eq_true_iff :
    filterInstructionsProcessor decoder instruction (some filter) = .ok true ↔
      Accepts instruction.staticAccount decoder filter instruction := by
  have haccounts := all_accountsMatch_iff filter instruction.staticAccount
  apply Iff.intro
  · intro h
    simp only [filterInstructionsProcessor] at h
    split at h
    · cases h
    · next hc =>
      split at h
      · cases h
      · next hp =>
        split at h
        · cases h
        · next ha =>
          rw [Bool.not_eq_true] at hc hp
          rw [Bool.not_eq_true, Bool.not_eq_false'] at ha
          refine ⟨passes_failed_iff.mp hc, passes_program_iff.mp hp, haccounts.mp ha, ?_⟩
          intro input hinput
          rw [hinput] at h
          obtain ⟨disc, hdisc, h⟩ := bind_eq_ok.mp h
          obtain ⟨data, hdata, h⟩ := bind_eq_ok.mp h
          exact ⟨disc, data, hdisc, hdata, List.isPrefixOf_iff_prefix.mp (Except.ok.inj h)⟩
  · intro h
    have hc := passes_failed_iff.mpr h.committed
    have hp := passes_program_iff.mpr h.program
    have ha : filter.accounts.toOption.all (accountsMatch fun i =>
        instruction.accounts[i]?.bind (instruction.transaction.accountKeys[·]?)) = true :=
      haccounts.mpr h.accounts
    simp only [filterInstructionsProcessor]
    rw [if_neg (ne_true_of_eq_false hc), if_neg (ne_true_of_eq_false hp), if_neg (by simp [ha])]
    cases hinput : filter.discriminator.text? with
    | none => rfl
    | some input =>
      obtain ⟨disc, data, hdisc, hdata, hprefix⟩ := h.discriminator input hinput
      simp only [hdisc, hdata]
      exact congrArg Except.ok (List.isPrefixOf_iff_prefix.mpr hprefix)

/-! ## Lookup tables -/

theorem SolanaInstruction.account_of_static {i : Nat} {account : String}
    (h : instruction.staticAccount i = some account) : instruction.account i = some account := by
  obtain ⟨index, hindex, hkey⟩ := Option.bind_eq_some_iff.mp h
  exact Option.bind_eq_some_iff.mpr ⟨index, hindex, getAccountByIndex_of_accountKeys hkey⟩

/-- An account that is not looked up is one that the message names. -/
theorem SolanaInstruction.static_of_account {i : Nat} {account : String}
    (h : instruction.account i = some account) (hstatic : ¬instruction.LooksUp i) :
    instruction.staticAccount i = some account := by
  obtain ⟨index, hindex, haccount⟩ := Option.bind_eq_some_iff.mp h
  have hlt : index < instruction.transaction.accountKeys.length := by
    by_contra hge
    exact hstatic ⟨index, hindex, not_lt.mp hge⟩
  have hkey := List.getElem?_eq_getElem hlt
  rw [getAccountByIndex_of_accountKeys hkey] at haccount
  exact Option.bind_eq_some_iff.mpr ⟨index, hindex, hkey.trans haccount⟩

theorem SolanaInstruction.static_of_looksUp {i : Nat} (h : instruction.LooksUp i) :
    instruction.staticAccount i = none := by
  obtain ⟨index, hindex, hle⟩ := h
  rw [staticAccount, hindex, Option.bind_some]
  exact List.getElem?_eq_none hle

theorem FilterMeaning.of_accepted
    (h : Accepts instruction.staticAccount decoder filter instruction) :
    FilterMeaning decoder filter instruction where
  committed := h.committed
  program := h.program
  accounts i allowed hi := by
    obtain ⟨account, haccount, hmem⟩ := h.accounts i allowed hi
    exact ⟨account, SolanaInstruction.account_of_static haccount, hmem⟩
  discriminator := h.discriminator

/-- **When the processor decides the meaning of a filter.** -/
theorem filterInstructionsProcessor_decides_iff (decoder : SolanaDecoder) (filter : HandlerFilter)
    (instruction : SolanaInstruction) :
    (filterInstructionsProcessor decoder instruction (some filter) = .ok true ↔
        FilterMeaning decoder filter instruction) ↔
      ((∃ i allowed, filter.allowedAt i = some allowed ∧ instruction.LooksUp i) →
        ¬FilterMeaning decoder filter instruction) := by
  rw [filterInstructionsProcessor_eq_true_iff]
  apply Iff.intro
  · intro hdecides hlooksUp hmeaning
    obtain ⟨i, allowed, hi, hup⟩ := hlooksUp
    obtain ⟨account, haccount, -⟩ := (hdecides.mpr hmeaning).accounts i allowed hi
    rw [SolanaInstruction.static_of_looksUp hup] at haccount
    cases haccount
  · intro hcondition
    apply Iff.intro FilterMeaning.of_accepted
    intro hmeaning
    refine { hmeaning with accounts := fun i allowed hi => ?_ }
    obtain ⟨account, haccount, hmem⟩ := hmeaning.accounts i allowed hi
    have hstatic : ¬instruction.LooksUp i := fun hup => hcondition ⟨i, allowed, hi, hup⟩ hmeaning
    exact ⟨account, SolanaInstruction.static_of_account haccount hstatic, hmem⟩

namespace LookupTable

def poolAccount : String := "6fuLRV8aLJF96MaNi44bLJUhaSJu1yzc588kHM4DfG2W"

/-- The message names the payer and the program; the pool comes from a lookup table. -/
def transaction : TransactionForFullJson where
  signatures := ["signature"]
  accountKeys := ["payer", "675kPX9MHTjS2zt1qfr1NYHuzeLXfQM9H24wFSUt1Mp8"]
  instructions := [⟨[0, 2], "", 1⟩]
  «meta» := some ⟨none, ⟨[poolAccount], []⟩, none, none, none⟩

def swap : SolanaInstruction := wrapInstruction [0] ⟨[0, 2], "", 1⟩ transaction

def withoutIdls : SolanaDecoder :=
  ⟨fun _ => none, fun _ => false, fun _ => .error "Non-base58 character"⟩

def poolFilter : HandlerFilter := { accounts := .value [none, some [poolAccount]] }

/-- The second account of the instruction is the pool, and the filter for it is not met. -/
theorem pool_is_not_found :
    filterInstructionsProcessor withoutIdls swap (some poolFilter) = .ok false ∧
      FilterMeaning withoutIdls poolFilter swap := by
  apply And.intro (by decide)
  refine ⟨.inr rfl, fun _ hid => ?_, (all_accountsMatch_iff _ _).mp (by decide), fun _ hinput => ?_⟩
  · cases hid
  · cases hinput

end LookupTable

end SubqlSolana
