import Mathlib.Algebra.Order.BigOperators.Group.List
import Mathlib.Algebra.Order.Group.Nat
import SubqlSolana.Dictionary.Soundness
import SubqlSolana.Lib.Coverage

/-!
# What a dictionary query hides

A handler whose filter is `{}` is called with everything of its kind, and contributes nothing to the
query. If nobody contributes, the entry is empty and the dictionary is not used; but as soon as some
other handler contributes, the blocks that only the first one wants are not found any more.
`hidesNothing_iff` says when that happens: a query hides nothing exactly if **the builder gives up, or
nobody contributes, or every kind with an empty filter also has a filter that restricts nothing and
is not empty**.

That a restriction anywhere is one too many is seen at a single block, of a program nobody mentions
(`exists_fresh_items`). Its items are generic: a condition that finds one of them finds everything
of that kind.
-/

set_option autoImplicit false

namespace SubqlSolana

open Lib

/-- It is in some block. -/
def Item.Occurs (item : Item) : Prop :=
  ∃ raw block, transformBlock raw = .ok block ∧ item ∈ block.items

/-- **A query hides nothing**: for every item of a block that some handler accepts, the entry is empty
or has a condition of its kind that it satisfies. -/
def HidesNothing (decoder : SolanaDecoder) (dataSources : List SubqlRuntimeDatasource) : Prop :=
  ∀ raw block, transformBlock raw = .ok block → ∀ item ∈ block.items,
    (∃ ds ∈ dataSources, ∃ handler ∈ ds.mapping.handlers, handler.accepts decoder item = true) →
    ∃ entry, buildDictionaryV2QueryEntry decoder dataSources = .ok entry ∧
      (entry = {} ∨ entry.finds decoder item = true)

/-! ## Handlers that want everything -/

/-- Everything that a handler of a kind is called with if its filter has no restriction. -/
def Wanted (kind : SolanaHandlerKind) : Item → Prop
  | .transaction _ => kind = .transaction
  | .instruction instruction => kind = .instruction ∧ instruction.failed = false
  | .log _ => kind = .log

/-- No property of the filter restricts a handler of the kind. -/
def HandlerFilter.Unrestricted (filter : HandlerFilter) : SolanaHandlerKind → Prop
  | .block => False
  | .transaction => filter.signerAccountKey.text? = none
  | .instruction => filter.programId.text? = none ∧ filter.discriminator.text? = none ∧
      ∀ accounts, filter.accounts.toOption = some accounts → ∀ allowed ∈ accounts, allowed = none
  | .log => filter.programId.text? = none

/-- Its filter is `{}`. -/
def Handler.Vacuous (handler : Handler) : Prop :=
  handler.kind ≠ .block ∧ ∃ filter, handler.filter = some filter ∧ filter.hasValue = false

/-- Its filter is not `{}`, but restricts nothing. -/
def Handler.AsksForAll (handler : Handler) : Prop :=
  ∃ filter, handler.filter = some filter ∧ filter.hasValue = true ∧
    filter.Unrestricted handler.kind

/-- Nobody contributes a condition. -/
def Silent (handlers : List Handler) : Prop :=
  ∀ handler ∈ handlers, handler.kind = .block ∨
    ∀ filter, handler.filter = some filter → filter.hasValue = false

/-- Where a handler with an empty filter stands, another one asks for everything. -/
def Compensated (handlers : List Handler) : Prop :=
  ∀ handler ∈ handlers, handler.Vacuous →
    ∃ other ∈ handlers, other.kind = handler.kind ∧ other.AsksForAll

/-- The builder does not throw, and what it returns is good enough. -/
def Answerable (decoder : SolanaDecoder) (handlers : List Handler) : Prop :=
  (∀ handler ∈ reached handlers, handler.Resolves decoder) ∧
  ((∃ handler ∈ handlers, handler.givesUp = true) ∨ Silent handlers ∨ Compensated handlers)

variable {decoder : SolanaDecoder}

theorem HandlerFilter.undefined_of_not_hasValue {filter : HandlerFilter}
    (h : filter.hasValue = false) :
    filter.signerAccountKey = .undefined ∧ filter.programId = .undefined ∧
    filter.accounts = .undefined ∧ filter.discriminator = .undefined ∧
    filter.includeFailed = .undefined := by
  have hall : ∀ {α : Type} {x : Nullish α}, x.isDefined = false → x = .undefined := by
    intro α x hx
    cases x with
    | undefined => rfl
    | _ => cases hx
  simp only [hasValue, Bool.or_eq_false_iff] at h
  obtain ⟨⟨⟨⟨⟨⟨hkey, hprogram⟩, haccounts⟩, hdisc⟩, hflag⟩, -⟩, -⟩ := h
  exact ⟨hall hkey, hall hprogram, hall haccounts, hall hdisc, hall hflag⟩

/-- A handler with an empty filter accepts everything. -/
theorem accepts_of_wanted {kind : SolanaHandlerKind} {filter : HandlerFilter}
    (h : filter.hasValue = false) {item : Item} (hwanted : Wanted kind item) :
    (Handler.mk kind (some filter)).accepts decoder item = true := by
  obtain ⟨hkey, hprogram, haccounts, hdisc, hflag⟩ := filter.undefined_of_not_hasValue h
  cases item with
  | transaction tx =>
    refine accepts_transaction_iff.mpr ⟨hwanted, ?_⟩
    simp [filterTransactionsProcessor, hkey, Nullish.text?]
  | log l =>
    refine accepts_log_iff.mpr ⟨hwanted, ?_⟩
    simp [filterLogsProcessor, hprogram, Nullish.text?]
  | instruction i =>
    refine accepts_instruction_iff.mpr ⟨hwanted.1, ?_⟩
    simp [filterInstructionsProcessor, hprogram, haccounts, hdisc, hflag, hwanted.2,
      Nullish.text?, Nullish.toOption]

theorem wanted_of_accepts {kind : SolanaHandlerKind} {filter : HandlerFilter}
    (h : filter.hasValue = false) {item : Item}
    (haccepts : (Handler.mk kind (some filter)).accepts decoder item = true) :
    Wanted kind item := by
  obtain ⟨-, -, -, -, hflag⟩ := filter.undefined_of_not_hasValue h
  cases item with
  | transaction tx => exact (accepts_transaction_iff.mp haccepts).1
  | log l => exact (accepts_log_iff.mp haccepts).1
  | instruction i =>
    obtain ⟨hkind, hfilter⟩ := accepts_instruction_iff.mp haccepts
    refine ⟨hkind, (filterInstructionsProcessor_eq_true hfilter).committed.resolve_left ?_⟩
    simp [hflag, Nullish.isTrue]

/-! ## A program nobody mentions -/

/-- An address of a given length. -/
def longAddress (n : Nat) : Address where
  text := String.ofList (List.replicate n 'a')
  noSpace := by simp
  noColon := by simp

theorem exists_fresh (texts : List String) : ∃ address : Address, address.text ∉ texts := by
  refine ⟨longAddress ((texts.map String.length).sum + 1), fun hmem => ?_⟩
  have hle : (longAddress ((texts.map String.length).sum + 1)).text.length ≤
      (texts.map String.length).sum :=
    List.single_le_sum (fun _ _ => Nat.zero_le _) _ (List.mem_map.mpr ⟨_, hmem, rfl⟩)
  have hlength : (longAddress ((texts.map String.length).sum + 1)).text.length =
      (texts.map String.length).sum + 1 := by simp [longAddress]
  omega

/-- It calls one program and prints one line there. -/
def loneTrace (program : Address) : Trace :=
  .group (program, 1) (.leaf (.log " done") .done) .success .done

def loneTransaction (program : Address) : TransactionForFullJson where
  signatures := ["signature"]
  accountKeys := [program.text]
  instructions := [⟨[], "", 0⟩]
  «meta» := some
    { err := none, loadedAddresses := ⟨[], []⟩, innerInstructions := none,
      logMessages := some ((loneTrace program).events.map printedText), logs := none }

def loneBlock (program : Address) : RawSolanaBlock :=
  ⟨⟨0, 0, "", 0, ""⟩, [loneTransaction program]⟩

/-- A transaction, an instruction and a log that belong to a program, and to nothing else. -/
structure LoneItem (program : String) (item : Item) : Prop where
  occurs : item.Occurs
  signer : ∀ tx, item = .transaction tx → signers tx.signatures tx.accountKeys = [program]
  instruction : ∀ i, item = .instruction i →
    getProgramId i = some program ∧ i.accounts = [] ∧ i.failed = false
  log : ∀ l, item = .log l → l.programId = some program

theorem transform_loneTransaction (program : Address) : ∃ tx,
    transformTransaction (loneTransaction program) = .ok tx ∧
    tx.signatures = ["signature"] ∧ tx.accountKeys = [program.text] ∧
    tx.instructions = [wrapInstruction [0] ⟨[], "", 0⟩ (loneTransaction program)] ∧
    tx.logs = [⟨(Line.log " done").text, some program.text, .number 1, .log, .null⟩] := by
  have hlogs := wrapLoop_printed (loneTrace program).events 0 []
  rw [Nesting.tops_events] at hlogs
  exact ⟨_, transformTransaction_of_logs rfl (congrArg (Except.map some) hlogs), rfl, rfl, rfl, rfl⟩

theorem exists_loneItem (program : Address) {kind : SolanaHandlerKind} (hkind : kind ≠ .block) :
    ∃ item, LoneItem program.text item ∧ Wanted kind item := by
  obtain ⟨tx, htx, hsignatures, hkeys, hinstructions, hlogs⟩ := transform_loneTransaction program
  have hblock : transformBlock (loneBlock program) =
      .ok ⟨(loneBlock program).toBaseSolanaBlock, [tx]⟩ := by
    simp only [transformBlock, loneBlock, List.mapM_cons, List.mapM_nil, htx]
    rfl
  have hmem : ∀ item ∈ tx.items, item.Occurs := fun item hitem =>
    ⟨_, _, hblock, by simpa [SolanaBlock.items] using hitem⟩
  cases kind with
  | block => exact absurd rfl hkind
  | transaction =>
    refine ⟨.transaction tx, ⟨hmem _ (by simp [SolanaTransaction.items]), ?_, ?_, ?_⟩, rfl⟩
    · rintro _ ⟨⟩
      simp [signers, hsignatures, hkeys]
    · rintro _ ⟨⟩
    · rintro _ ⟨⟩
  | instruction =>
    refine ⟨.instruction (wrapInstruction [0] ⟨[], "", 0⟩ (loneTransaction program)),
      ⟨hmem _ (by simp [SolanaTransaction.items, hinstructions]), ?_, ?_, ?_⟩, rfl, rfl⟩
    · rintro _ ⟨⟩
    · rintro _ ⟨⟩
      exact ⟨rfl, rfl, rfl⟩
    · rintro _ ⟨⟩
  | log =>
    refine ⟨.log ⟨(Line.log " done").text, some program.text, .number 1, .log, .null⟩,
      ⟨hmem _ (by simp [SolanaTransaction.items, hlogs]), ?_, ?_, ?_⟩, rfl⟩
    · rintro _ ⟨⟩
    · rintro _ ⟨⟩
    · rintro _ ⟨⟩
      rfl

/-! ## What its items tell -/

/-- The addresses that a condition names, those of single accounts aside. -/
def Condition.mentioned : Condition → List String
  | transaction condition => condition.signerAccountKeys.getD []
  | log condition => condition.programIds.getD []
  | instruction condition => condition.programIds.getD []

theorem accountsMatch_of_none {resolve : Nat → Option String} {accounts : List (Option (List String))}
    (h : ∀ allowed ∈ accounts, allowed = none) : accountsMatch resolve accounts = true := by
  unfold accountsMatch
  rw [List.all_eq_true]
  rintro ⟨allowed, i⟩ hmem
  rw [h allowed (List.mem_of_getElem? (List.mk_mem_zipIdx_iff_getElem?.mp hmem))]

/-- An instruction without accounts matches no position that asks for one. -/
theorem none_of_accountsMatch {resolve : Nat → Option String}
    {accounts : List (Option (List String))} (hresolve : ∀ i, resolve i = none)
    (h : accountsMatch resolve accounts = true) : ∀ allowed ∈ accounts, allowed = none := by
  intro allowed hmem
  obtain ⟨i, hi⟩ := List.mem_iff_getElem?.mp hmem
  cases allowed with
  | none => rfl
  | some allowed =>
    have hat : (resolve i).any (fun account => allowed.contains account) = true :=
      List.all_eq_true.mp h _ (List.mk_mem_zipIdx_iff_getElem?.mpr hi)
    rw [hresolve i] at hat
    cases hat

/-- The condition of a filter that restricts nothing finds everything. -/
theorem finds_of_wanted {handler : Handler} {c : Condition} {item : Item}
    (hc : handler.condition decoder = some c) (hall : handler.AsksForAll)
    (hwanted : Wanted handler.kind item) : c.finds decoder item = true := by
  obtain ⟨filter, hfilter, -, hunrestricted⟩ := hall
  cases condition_contributed hc with
  | transaction own _ =>
    cases hfilter
    have hkey : filter.signerAccountKey.text? = none := hunrestricted
    cases item with
    | transaction tx =>
      simp [Condition.finds, SolanaDictionaryTxConditions.finds, txFilterToDictionaryCondition, hkey,
        anyOf]
    | instruction _ => cases hwanted.1
    | log _ => cases hwanted
  | log own _ =>
    cases hfilter
    have hprogram : filter.programId.text? = none := hunrestricted
    cases item with
    | transaction tx => cases hwanted
    | instruction _ => cases hwanted.1
    | log l =>
      simp [Condition.finds, SolanaDictionaryLogConditions.finds, logFilterToDictionaryCondition,
        hprogram, anyOf]
  | instruction own _ condition hcondition =>
    cases hfilter
    obtain ⟨hprogram, hdisc, haccounts⟩ := hunrestricted
    obtain ⟨discriminators, hds, hcondition⟩ := bind_eq_ok.mp hcondition
    cases hcondition
    have hnone : discriminators = none := by
      simp only [discriminatorsOf, hdisc] at hds
      exact (Except.ok.inj hds).symm
    cases item with
    | transaction tx => cases hwanted
    | log l => cases hwanted
    | instruction i =>
      simp only [Condition.finds, SolanaDictionaryInstructionConditions.finds, Bool.and_eq_true,
        hprogram, hnone, Option.map_none]
      refine ⟨⟨⟨rfl, ?_⟩, rfl⟩, ?_⟩
      · cases hlist : filter.accounts.toOption with
        | none => rfl
        | some accounts => exact accountsMatch_of_none (haccounts accounts hlist)
      · cases filter.includeFailed.isTrue <;> simp [hwanted.2]

/-- A field with one alternative, which is not the one that holds, does not hold. -/
theorem eq_none_of_anyOf {alternative : Option String} {program : String} {holds : String → Bool}
    (hfinds : anyOf (alternative.map fun id => [id]) holds = true)
    (hholds : ∀ id, holds id = true → id = program)
    (hfresh : program ∉ (alternative.map fun id => [id]).getD []) : alternative = none := by
  cases alternative with
  | none => rfl
  | some id =>
    have hid : holds id = true := by simpa [anyOf] using hfinds
    rw [hholds id hid] at hfresh
    simp at hfresh

/-- A condition that finds an item of a program it does not name restricts nothing. -/
theorem asksForAll_of_finds {handler : Handler} {c : Condition} {program : String} {item : Item}
    {kind : SolanaHandlerKind} (hc : handler.condition decoder = some c)
    (hlone : LoneItem program item) (hwanted : Wanted kind item) (hfresh : program ∉ c.mentioned)
    (hfinds : c.finds decoder item = true) : handler.kind = kind ∧ handler.AsksForAll := by
  cases condition_contributed hc with
  | transaction own hvalue =>
    cases item with
    | instruction _ => cases hfinds
    | log _ => cases hfinds
    | transaction tx =>
      have hnone : own.signerAccountKey.text? = none := by
        refine eq_none_of_anyOf hfinds (fun key hkey => ?_) hfresh
        simpa [hlone.signer tx rfl] using hkey
      exact ⟨Eq.symm hwanted, own, rfl, hvalue, hnone⟩
  | log own hvalue =>
    cases item with
    | instruction _ => cases hfinds
    | transaction _ => cases hfinds
    | log l =>
      have hnone : own.programId.text? = none := by
        refine eq_none_of_anyOf hfinds (fun id hid => ?_) hfresh
        rw [hlone.log l rfl] at hid
        exact (Option.some.inj (of_decide_eq_true hid)).symm
      exact ⟨Eq.symm hwanted, own, rfl, hvalue, hnone⟩
  | instruction own hvalue condition hcondition =>
    obtain ⟨discriminators, hds, hcondition⟩ := bind_eq_ok.mp hcondition
    cases hcondition
    cases item with
    | transaction _ => cases hfinds
    | log _ => cases hfinds
    | instruction i =>
      obtain ⟨hprogram, haccounts, -⟩ := hlone.instruction i rfl
      simp only [Condition.finds, SolanaDictionaryInstructionConditions.finds,
        Bool.and_eq_true] at hfinds
      obtain ⟨⟨⟨hprograms, hpositions⟩, -⟩, -⟩ := hfinds
      have hnone : own.programId.text? = none := by
        refine eq_none_of_anyOf hprograms (fun id hid => ?_) hfresh
        rw [hprogram] at hid
        exact (Option.some.inj (of_decide_eq_true hid)).symm
      refine ⟨Eq.symm hwanted.1, own, rfl, hvalue, hnone, ?_, fun accounts hlist => ?_⟩
      · cases hinput : own.discriminator.text? with
        | none => rfl
        | some input =>
          simp only [discriminatorsOf, hinput, hnone] at hds
          cases hds
      · rw [hlist, Option.all_some] at hpositions
        refine none_of_accountsMatch (fun i => ?_) hpositions
        simp [SolanaInstruction.resolve, haccounts]

/-! ## Exactly when nothing is hidden -/

/-- What a handler accepts, in all blocks there may be. -/
def Handler.acceptedItems (decoder : SolanaDecoder) (handler : Handler) : Set Item :=
  {item | item.Occurs ∧ handler.accepts decoder item = true}

def Handler.foundItems (decoder : SolanaDecoder) (handler : Handler) : Option (Set Item) :=
  (handler.condition decoder).map fun c => {item | c.finds decoder item = true}

theorem foundItems_eq_some {handler : Handler} {s : Set Item} :
    handler.foundItems decoder = some s ↔
      ∃ c, handler.condition decoder = some c ∧ {item | c.finds decoder item = true} = s :=
  Option.map_eq_some_iff

theorem Handler.Vacuous.condition {handler : Handler} (h : handler.Vacuous) :
    handler.condition decoder = none := by
  rw [Option.eq_none_iff_forall_ne_some]
  intro c hc
  obtain ⟨-, filter, hfilter, hvalue⟩ := h
  cases condition_contributed hc <;> cases hfilter <;> simp_all

/-- The item of a program that no condition names. -/
theorem exists_generic (handlers : List Handler) {handler : Handler} (hvacuous : handler.Vacuous) :
    ∃ item, item ∈ handler.acceptedItems decoder ∧ ∀ other ∈ handlers, ∀ c,
      other.condition decoder = some c → c.finds decoder item = true →
      other.kind = handler.kind ∧ other.AsksForAll := by
  obtain ⟨kind, _⟩ := handler
  obtain ⟨hkind, filter, rfl, hvalue⟩ := hvacuous
  let mentioned := handlers.flatMap fun h =>
    ((h.condition decoder).map Condition.mentioned).getD []
  obtain ⟨program, hfresh⟩ := exists_fresh mentioned
  obtain ⟨item, hlone, hwanted⟩ := exists_loneItem program hkind
  refine ⟨item, ⟨hlone.occurs, accepts_of_wanted hvalue hwanted⟩, fun other hother c hc hfinds => ?_⟩
  refine asksForAll_of_finds hc hlone hwanted (fun hmentioned => hfresh ?_) hfinds
  exact List.mem_flatMap.mpr ⟨other, hother, by rw [hc]; exact hmentioned⟩

/-- Whatever a handler with an empty filter accepts, another one that asks for everything finds. -/
theorem acceptedItems_subset {handler other : Handler} {c : Condition} (hvacuous : handler.Vacuous)
    (hkind : other.kind = handler.kind) (hall : other.AsksForAll)
    (hc : other.condition decoder = some c) :
    handler.acceptedItems decoder ⊆ {item | c.finds decoder item = true} := by
  rintro item ⟨-, haccepts⟩
  obtain ⟨kind, _⟩ := handler
  obtain ⟨-, filter, rfl, hvalue⟩ := hvacuous
  exact finds_of_wanted hc hall (hkind ▸ wanted_of_accepts hvalue haccepts)

section
variable {handlers : List Handler} (hstays : ∀ handler ∈ handlers, handler.givesUp = false)
  (hresolves : ∀ handler ∈ handlers, handler.Resolves decoder)

include hstays hresolves

/-- Whoever contributes nothing and accepts something has an empty filter. -/
theorem vacuous_of_foundItems_eq_none {handler : Handler} (hmem : handler ∈ handlers)
    (hnone : handler.foundItems decoder = none) (haccepts : (handler.acceptedItems decoder).Nonempty) :
    handler.Vacuous := by
  obtain ⟨kind, filter⟩ := handler
  have hkind : kind ≠ .block := by
    rintro rfl
    obtain ⟨item, -, hitem⟩ := haccepts
    cases item <;> simp [Handler.accepts] at hitem
  cases filter with
  | none => cases hstays _ hmem
  | some filter =>
    refine ⟨hkind, filter, rfl, ?_⟩
    by_contra hvalue
    obtain ⟨c, hc⟩ := exists_condition hkind (by simpa using hvalue) (hresolves _ hmem)
    rw [Handler.foundItems, hc] at hnone
    cases hnone

theorem covers_iff_compensated :
    Covers (Handler.acceptedItems decoder) (Handler.foundItems decoder) handlers ↔
      Compensated handlers := by
  have hown : ∀ handler ∈ handlers, ∀ s, handler.foundItems decoder = some s →
      handler.acceptedItems decoder ⊆ s := by
    intro handler _ s hs item hitem
    obtain ⟨c, hc, rfl⟩ := foundItems_eq_some.mp hs
    exact finds_of_accepts hc hitem.2
  have hgeneric : ∀ handler ∈ handlers, handler.foundItems decoder = none →
      (handler.acceptedItems decoder).Nonempty →
      ∃ item, Generic (Handler.foundItems decoder) handlers (handler.acceptedItems decoder) item := by
    intro handler hmem hnone haccepts
    have hvacuous := vacuous_of_foundItems_eq_none hstays hresolves hmem hnone haccepts
    obtain ⟨item, hitem, hwhole⟩ := exists_generic handlers hvacuous
    refine ⟨item, hitem, fun other hother s hs hin => ?_⟩
    obtain ⟨c, hc, rfl⟩ := foundItems_eq_some.mp hs
    obtain ⟨hkind, hall⟩ := hwhole other hother c hc hin
    exact acceptedItems_subset hvacuous hkind hall hc
  rw [covers_iff hown hgeneric]
  constructor
  · intro hsome handler hmem hvacuous
    obtain ⟨item, hitem, hwhole⟩ := exists_generic handlers hvacuous
    have hnone : handler.foundItems decoder = none := by
      rw [Handler.foundItems, hvacuous.condition, Option.map_none]
    obtain ⟨other, hother, s, hs, hsub⟩ := hsome handler hmem hnone ⟨item, hitem⟩
    obtain ⟨c, hc, rfl⟩ := foundItems_eq_some.mp hs
    exact ⟨other, hother, hwhole other hother c hc (hsub hitem)⟩
  · intro hcompensated handler hmem hnone haccepts
    have hvacuous := vacuous_of_foundItems_eq_none hstays hresolves hmem hnone haccepts
    obtain ⟨other, hother, hkind, hall⟩ := hcompensated handler hmem hvacuous
    obtain ⟨c, hc⟩ : ∃ c, other.condition decoder = some c := by
      obtain ⟨kind, _⟩ := other
      obtain ⟨filter, rfl, hvalue, -⟩ := hall
      exact exists_condition (fun h => hvacuous.1 (hkind.symm.trans h)) hvalue (hresolves _ hother)
    exact ⟨other, hother, _, foundItems_eq_some.mpr ⟨c, hc, rfl⟩,
      acceptedItems_subset hvacuous hkind hall hc⟩

end

theorem finds_iff_mem_found {entry : SolanaDictionaryV2QueryEntry} {handlers : List Handler}
    (hmem : ∀ c, c ∈ entry.conditions ↔ ∃ h ∈ handlers, h.condition decoder = some c) (item : Item) :
    entry.finds decoder item = true ↔ item ∈ found (Handler.foundItems decoder) handlers := by
  unfold SolanaDictionaryV2QueryEntry.finds
  rw [List.any_eq_true]
  constructor
  · rintro ⟨c, hc, hfinds⟩
    obtain ⟨handler, hh, hcondition⟩ := (hmem c).mp hc
    exact ⟨handler, hh, _, foundItems_eq_some.mpr ⟨c, hcondition, rfl⟩, hfinds⟩
  · rintro ⟨handler, hh, s, hs, hin⟩
    obtain ⟨c, hcondition, rfl⟩ := foundItems_eq_some.mp hs
    exact ⟨c, (hmem c).mpr ⟨handler, hh, hcondition⟩, hin⟩

/-- Nobody contributes if every filter is empty. -/
theorem silent_iff {handlers : List Handler} (hstays : ∀ h ∈ handlers, h.givesUp = false)
    (hresolves : ∀ h ∈ handlers, h.Resolves decoder) :
    Silent handlers ↔ ∀ h ∈ handlers, h.condition decoder = none := by
  refine forall₂_congr fun handler hh => ?_
  obtain ⟨kind, _ | filter⟩ := handler
  · exact absurd (hstays _ hh) Bool.noConfusion
  constructor
  · intro hsilent
    rw [Option.eq_none_iff_forall_ne_some]
    intro c hc
    rcases hsilent with hkind | hvalue
    · cases condition_contributed hc <;> cases hkind
    · cases condition_contributed hc <;> simp_all
  · intro hnone
    by_contra hnot
    obtain ⟨hkind, hvalue⟩ := not_or.mp hnot
    obtain ⟨c, hc⟩ := exists_condition hkind (by simpa using hvalue) (hresolves _ hh)
    rw [hnone] at hc
    cases hc

theorem hidesNothing_iff_items {dataSources : List SubqlRuntimeDatasource} :
    HidesNothing decoder dataSources ↔ ∀ handler ∈ handlersOf dataSources,
      ∀ item ∈ handler.acceptedItems decoder, ∃ entry,
        buildDictionaryV2QueryEntry decoder dataSources = .ok entry ∧
        (entry = {} ∨ entry.finds decoder item = true) := by
  constructor
  · rintro h handler hmem item ⟨⟨raw, block, hblock, hitem⟩, haccepts⟩
    obtain ⟨ds, hds, hhandler⟩ := List.mem_flatMap.mp hmem
    exact h raw block hblock item hitem ⟨ds, hds, handler, hhandler, haccepts⟩
  · rintro h raw block hblock item hitem ⟨ds, hds, handler, hhandler, haccepts⟩
    exact h handler (List.mem_flatMap.mpr ⟨ds, hds, hhandler⟩) item
      ⟨⟨raw, block, hblock, hitem⟩, haccepts⟩

/-- **Exactly when a query hides nothing**: if nothing is accepted anyway, or if the builder does not
throw and either gives up, or has nothing to ask for, or has every empty filter covered. -/
theorem hidesNothing_iff (decoder : SolanaDecoder) (dataSources : List SubqlRuntimeDatasource) :
    HidesNothing decoder dataSources ↔
      (∀ handler ∈ handlersOf dataSources, handler.acceptedItems decoder = ∅) ∨
      Answerable decoder (handlersOf dataSources) := by
  rw [hidesNothing_iff_items]
  rcases buildDictionaryV2QueryEntry_cases decoder dataSources with
    ⟨hthrows, e, he⟩ | ⟨hresolves, hup, hempty⟩ | ⟨hresolves, hstays, entry, hentry, hnone, hmem⟩
  · -- it throws, and only if nothing is accepted there is nothing to hide
    constructor
    · intro h
      refine .inl fun handler hh => Set.eq_empty_iff_forall_notMem.mpr fun item hitem => ?_
      obtain ⟨entry, hentry, -⟩ := h handler hh item hitem
      rw [he] at hentry
      cases hentry
    · rintro (hidle | ⟨hresolves, -⟩)
      · intro handler hh item hitem
        rw [hidle handler hh] at hitem
        cases hitem
      · exact absurd hresolves hthrows
  · exact ⟨fun _ => .inr ⟨hresolves, .inl hup⟩, fun _ _ _ _ _ => ⟨{}, hempty, .inl rfl⟩⟩
  · have hall : ∀ handler ∈ handlersOf dataSources, handler.Resolves decoder := by
      rwa [reached_of_stays hstays] at hresolves
    have hsilent : entry = {} ↔ Silent (handlersOf dataSources) := by
      rw [hnone, silent_iff hstays hall, List.eq_nil_iff_forall_not_mem]
      simp only [hmem, not_exists, not_and, Option.eq_none_iff_forall_ne_some]
      exact ⟨fun h handler hh c => h c handler hh, fun h c handler hh => h handler hh c⟩
    have hfinds := finds_iff_mem_found hmem
    constructor
    · intro h
      refine .inr ⟨hresolves, .inr (or_iff_not_imp_left.mpr fun hspeaks => ?_)⟩
      refine (covers_iff_compensated hstays hall).mp fun handler hh item hitem => ?_
      obtain ⟨entry', hentry', hgood⟩ := h handler hh item hitem
      obtain rfl : entry = entry' := Except.ok.inj (hentry.symm.trans hentry')
      exact (hfinds item).mp (hgood.resolve_left fun hempty => hspeaks (hsilent.mp hempty))
    · rintro (hidle | ⟨-, ⟨handler, hh, hup⟩ | hquiet | hcompensated⟩) handler' hh' item hitem
      · rw [hidle handler' hh'] at hitem
        cases hitem
      · rw [hstays handler hh] at hup
        cases hup
      · exact ⟨entry, hentry, .inl (hsilent.mpr hquiet)⟩
      · exact ⟨entry, hentry, .inr ((hfinds item).mpr
          ((covers_iff_compensated hstays hall).mpr hcompensated handler' hh' hitem))⟩

/-! ## A template without a filter

A project with a handler for the transactions of one signer, and a template whose handler is for all
transactions. Once a data source is made of the template, without arguments, the query still asks for
the one signer only. -/

namespace EmptyFilter

def withoutIdls : SolanaDecoder := ⟨fun _ => none, fun _ => true, fun _ => .ok []⟩

def project : SubqlRuntimeDatasource :=
  ⟨⟨[⟨.transaction, some { signerAccountKey := .value "alice" }⟩]⟩⟩

def template : SubqlRuntimeDatasource := ⟨⟨[⟨.transaction, none⟩]⟩⟩

def fromTemplate : SubqlRuntimeDatasource := ⟨⟨[⟨.transaction, some {}⟩]⟩⟩

def transaction : TransactionForFullJson := ⟨["signature"], ["bob"], [], none⟩

def block : RawSolanaBlock := ⟨⟨7, 0, "hash", 6, "parent"⟩, [transaction]⟩

theorem entry_eq : buildDictionaryV2QueryEntry withoutIdls [project, fromTemplate] =
    .ok { transactions := some [⟨some ["alice"]⟩] } := by decide

theorem template_is_hidden :
    updateDynamicDs (fun _ => []) (some {}) template = .ok fromTemplate ∧
    ¬HidesNothing withoutIdls [project, fromTemplate] := by
  refine ⟨rfl, fun h => ?_⟩
  have hitem : Item.transaction (wrapTransaction transaction none) ∈
      (SolanaBlock.mk block.toBaseSolanaBlock [wrapTransaction transaction none]).items := by
    simp [SolanaBlock.items, SolanaTransaction.items]
  obtain ⟨entry, hentry, hgood⟩ :=
    h block _ rfl _ hitem ⟨fromTemplate, by simp, _, List.mem_singleton.mpr rfl, rfl⟩
  rw [entry_eq] at hentry
  cases hentry
  revert hgood
  decide

end EmptyFilter

end SubqlSolana
