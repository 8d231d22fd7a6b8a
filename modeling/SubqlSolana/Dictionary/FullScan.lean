import SubqlSolana.Dictionary.Coverage
import SubqlSolana.Dictionary.Delivered
import SubqlSolana.Dictionary.ParsedLogs
import SubqlSolana.Lib.Thinned

/-!
# Indexing with a dictionary, and without

Without a dictionary the indexer fetches every block of the chain. With one, it gets the blocks in
which the query finds something, and of these perhaps only the transactions in which it does, each in the
dictionary's form. What comes of it should be the same: **the same calls, in the same order, with the
same outcome** (`indexes_all`), whatever the handlers do, as long as they do not ask in which form a
transaction came (`FormBlind`).

A filter `{}` contributes no condition, and so it has to be made up for by a handler that asks for
everything (`Carried`). Here it may also be one for all transactions, whatever the kind of the empty
filter: a transaction comes with its instructions and logs.

Handlers of blocks are left out: a block that is cut down is not the block that they would be called
with. `indexData` is the base class's; what is relied on is that it does nothing where no handler
accepts (`SkipsRejected`).
-/

set_option autoImplicit false

namespace SubqlSolana

open Lib

/-! ## What is indexed -/

/-- The filters of `getFilterTypeMap` (`indexer/indexer.manager.ts`), blocks aside. -/
def filterTypeMap (decoder : SolanaDecoder) (filter : Option HandlerFilter) :
    Item → Except String Bool
  | .transaction tx => .ok (filterTransactionsProcessor tx filter)
  | .instruction instruction => filterInstructionsProcessor decoder instruction filter
  | .log log => .ok (filterLogsProcessor log filter)

/-- Every filter that is asked says no. -/
def SubqlRuntimeDatasource.Rejects (decoder : SolanaDecoder) (ds : SubqlRuntimeDatasource)
    (item : Item) : Prop :=
  ∀ handler ∈ ds.mapping.handlers, handler.kind = item.kind →
    filterTypeMap decoder handler.filter item = .ok false

section

variable {m : Type → Type} [Monad m]

/-- `indexData` calls handlers of a kind that accept what it is given. If there are none, it does
nothing. -/
structure SkipsRejected (decoder : SolanaDecoder)
    (indexData : DataCall SubqlRuntimeDatasource → m Unit) : Prop where
  item : ∀ (ds : SubqlRuntimeDatasource) (item : Item), ds.Rejects decoder item →
    indexData ⟨item.kind, .item item, ds⟩ = pure ()
  block : ∀ (ds : SubqlRuntimeDatasource) (block : SolanaBlock),
    (∀ handler ∈ ds.mapping.handlers, handler.kind ≠ .block) →
    indexData ⟨.block, .block block, ds⟩ = pure ()

/-- One block after another. -/
def indexBlocks (indexData : DataCall SubqlRuntimeDatasource → m Unit)
    (dataSources : List SubqlRuntimeDatasource) (blocks : List SolanaBlock) : m Unit :=
  blocks.forM fun block => indexBlockData indexData block dataSources

end

/-! ## What is fetched -/

/-- The query finds something in the transaction. -/
def Relevant (decoder : SolanaDecoder) (entry : SolanaDictionaryV2QueryEntry)
    (raw : TransactionForFullJson) : Prop :=
  ∃ tx, transformTransaction raw = .ok tx ∧ ∃ item ∈ tx.items, entry.finds decoder item = true

/-- A block with some of its transactions, all those among them in which something is found. They come in
the dictionary's form. -/
structure CutDown (decoder : SolanaDecoder) (entry : SolanaDictionaryV2QueryEntry)
    (block delivered : RawSolanaBlock) : Prop where
  header : delivered.toBaseSolanaBlock = block.toBaseSolanaBlock
  transactions : Thinned (fun raw => ¬Relevant decoder entry raw) DictionaryForm block.transactions
    delivered.transactions

/-- What is fetched of a chain for a query: everything, if it is empty. -/
def Fetched (decoder : SolanaDecoder) (entry : SolanaDictionaryV2QueryEntry)
    (chain delivered : List RawSolanaBlock) : Prop :=
  if entry = {} then delivered = chain
  else Thinned (fun block => ∀ raw ∈ block.transactions, ¬Relevant decoder entry raw)
    (CutDown decoder entry) chain delivered

/-- How a block is read: without a query there is no dictionary, and the block is the RPC's. -/
def readBlock (entry : SolanaDictionaryV2QueryEntry) (block : RawSolanaBlock) :
    Except String SolanaBlock :=
  if entry = {} then transformBlock block else parseBlock block

/-- A block that can be indexed: none of its log lines makes it throw, and instruction data is base58. -/
structure Readable (decoder : SolanaDecoder) (block : RawSolanaBlock) : Prop where
  transforms : ∀ raw ∈ block.transactions, ∃ tx, transformTransaction raw = .ok tx
  data : ∀ raw ∈ block.transactions, ∀ tx, transformTransaction raw = .ok tx →
    ∀ instruction ∈ tx.executed, ∃ data, decoder.bs58decode instruction.data = .ok data

/-- Where a handler with an empty filter stands, another one asks for everything of its kind, or for all
transactions. -/
def Carried (handlers : List Handler) : Prop :=
  ∀ handler ∈ handlers, handler.Vacuous →
    ∃ other ∈ handlers, (other.kind = handler.kind ∨ other.kind = .transaction) ∧ other.AsksForAll

/-- The query is empty, or finds enough. -/
def Sufficient (handlers : List Handler) : Prop :=
  (∃ handler ∈ handlers, handler.givesUp = true) ∨ Silent handlers ∨
    (Carried handlers ∧ ∀ handler ∈ handlers, handler.kind ≠ .block)

/-! ## What is not found is rejected -/

section

variable {decoder : SolanaDecoder}

/-- A filter with a discriminator that resolves does not throw at data that is base58. -/
theorem filterInstructionsProcessor_returns {filter : HandlerFilter} {instruction : SolanaInstruction}
    (hresolves : filter.Resolves decoder)
    (hdata : ∃ data, decoder.bs58decode instruction.data = .ok data) :
    ∃ accepts, filterInstructionsProcessor decoder instruction (some filter) = .ok accepts := by
  simp only [filterInstructionsProcessor]
  split
  · exact ⟨_, rfl⟩
  split
  · exact ⟨_, rfl⟩
  next hprogram =>
    split
    · exact ⟨_, rfl⟩
    cases hinput : filter.discriminator.text? with
    | none => exact ⟨_, rfl⟩
    | some input =>
      obtain ⟨id, disc, hid, hdisc⟩ := hresolves input hinput
      obtain ⟨data, hdata⟩ := hdata
      -- the program of the instruction is the filter's
      have hown : getProgramId instruction = some id :=
        passes_program_iff.mp (by simpa using hprogram) id hid
      simp only [hown, Option.getD_some, hdisc, hdata]
      exact ⟨_, rfl⟩

theorem filterTypeMap_returns {handler : Handler} {item : Item} (hkind : handler.kind = item.kind)
    (hresolves : handler.Resolves decoder)
    (hdata : ∀ instruction, item = .instruction instruction →
      ∃ data, decoder.bs58decode instruction.data = .ok data) :
    ∃ accepts, filterTypeMap decoder handler.filter item = .ok accepts := by
  cases item with
  | transaction tx => exact ⟨_, rfl⟩
  | log log => exact ⟨_, rfl⟩
  | instruction instruction =>
    obtain ⟨kind, _ | filter⟩ := handler
    · exact ⟨true, rfl⟩
    · cases hkind
      exact filterInstructionsProcessor_returns (hresolves filter rfl) (hdata instruction rfl)

theorem accepts_iff {handler : Handler} {item : Item} : handler.accepts decoder item = true ↔
    handler.kind = item.kind ∧ filterTypeMap decoder handler.filter item = .ok true := by
  cases item with
  | transaction tx => simp [accepts_transaction_iff, filterTypeMap, Item.kind]
  | log log => simp [accepts_log_iff, filterTypeMap, Item.kind]
  | instruction instruction => simp [accepts_instruction_iff, filterTypeMap, Item.kind]

/-- What all handlers of a data source answer to, and none accepts. -/
theorem rejects_of_not_accepts {ds : SubqlRuntimeDatasource} {item : Item}
    (hresolves : ∀ handler ∈ ds.mapping.handlers, handler.Resolves decoder)
    (hdata : ∀ instruction, item = .instruction instruction →
      ∃ data, decoder.bs58decode instruction.data = .ok data)
    (hnot : ∀ handler ∈ ds.mapping.handlers, ¬handler.accepts decoder item = true) :
    ds.Rejects decoder item := by
  intro handler hmem hkind
  obtain ⟨accepts, haccepts⟩ := filterTypeMap_returns hkind (hresolves handler hmem) hdata
  cases accepts with
  | false => exact haccepts
  | true => exact absurd (accepts_iff.mpr ⟨hkind, haccepts⟩) (hnot handler hmem)

/-! ## What is accepted is found -/

/-- The transaction that an item comes from, as an item itself. -/
theorem transaction_mem_items (tx : SolanaTransaction) : .transaction tx ∈ tx.items := by
  simp [SolanaTransaction.items]

theorem mem_items_instruction {tx : SolanaTransaction} {instruction : SolanaInstruction}
    (h : .instruction instruction ∈ tx.items) : instruction ∈ tx.executed := by
  rw [tx.items_eq] at h
  simpa using h

/-- A handler that keeps its kind's items, and none of them by a condition of its own, has an empty
filter. -/
theorem Handler.Vacuous.of_accepts {handler : Handler} {item : Item}
    (hstays : handler.givesUp = false) (hresolves : handler.Resolves decoder)
    (haccepts : handler.accepts decoder item = true) (hnone : handler.condition decoder = none) :
    handler.Vacuous := by
  obtain ⟨kind, _ | filter⟩ := handler
  · cases hstays
  have hkind : kind ≠ .block := by
    rintro rfl
    cases item <;> simp [Handler.accepts] at haccepts
  refine ⟨hkind, filter, rfl, ?_⟩
  by_contra hvalue
  obtain ⟨c, hsome⟩ := exists_condition hkind (by simpa using hvalue) hresolves
  rw [hsome] at hnone
  cases hnone

/-- What stands in for an empty filter finds what is accepted with it, or the transaction. -/
theorem Carried.exists_found {handlers : List Handler} (hcarried : Carried handlers)
    (hresolves : ∀ handler ∈ handlers, handler.Resolves decoder) {tx : SolanaTransaction}
    {item : Item} (hitem : item ∈ tx.items) {handler : Handler} (hhandler : handler ∈ handlers)
    (hvacuous : handler.Vacuous) (haccepts : handler.accepts decoder item = true) :
    ∃ other ∈ handlers, ∃ c, other.condition decoder = some c ∧
      ∃ found ∈ tx.items, c.finds decoder found = true := by
  obtain ⟨other, hother, hfor, hall⟩ := hcarried handler hhandler hvacuous
  obtain ⟨kind, filter⟩ := handler
  obtain ⟨hkind, filter, rfl, hvalue⟩ := hvacuous
  obtain ⟨c, hc⟩ : ∃ c, other.condition decoder = some c := by
    obtain ⟨otherKind, _⟩ := other
    obtain ⟨otherFilter, rfl, hvalue', -⟩ := hall
    refine exists_condition ?_ hvalue' (hresolves _ hother)
    rintro rfl
    rcases hfor with hsame | htransaction
    · exact hkind hsame.symm
    · cases htransaction
  refine ⟨other, hother, c, hc, ?_⟩
  rcases hfor with hsame | htransaction
  · have hwanted : Wanted other.kind item := by
      rw [hsame]
      exact wanted_of_accepts hvalue haccepts
    exact ⟨item, hitem, finds_of_wanted hc hall hwanted⟩
  · have hwanted : Wanted other.kind (.transaction tx) := htransaction
    exact ⟨_, transaction_mem_items tx, finds_of_wanted hc hall hwanted⟩

/-- **What a handler accepts makes the transaction relevant**, whether it contributed a condition or
not. -/
theorem exists_found {dataSources : List SubqlRuntimeDatasource}
    {entry : SolanaDictionaryV2QueryEntry}
    (hstays : ∀ handler ∈ handlersOf dataSources, handler.givesUp = false)
    (hresolves : ∀ handler ∈ handlersOf dataSources, handler.Resolves decoder)
    (hmem : ∀ c, c ∈ entry.conditions ↔
      ∃ handler ∈ handlersOf dataSources, handler.condition decoder = some c)
    (hcarried : Carried (handlersOf dataSources)) {tx : SolanaTransaction} {item : Item}
    (hitem : item ∈ tx.items) {handler : Handler} (hhandler : handler ∈ handlersOf dataSources)
    (haccepts : handler.accepts decoder item = true) :
    ∃ found ∈ tx.items, entry.finds decoder found = true := by
  obtain ⟨other, hother, c, hc, found, hfound, hfinds⟩ : ∃ other ∈ handlersOf dataSources,
      ∃ c, other.condition decoder = some c ∧ ∃ found ∈ tx.items, c.finds decoder found = true := by
    cases hc : handler.condition decoder with
    | some c => exact ⟨handler, hhandler, c, hc, item, hitem, finds_of_accepts hc haccepts⟩
    | none =>
      have hvacuous :=
        Handler.Vacuous.of_accepts (hstays _ hhandler) (hresolves _ hhandler) haccepts hc
      exact hcarried.exists_found hresolves hitem hhandler hvacuous haccepts
  exact ⟨found, hfound, List.any_eq_true.mpr ⟨c, (hmem c).mpr ⟨other, hother, hc⟩, hfinds⟩⟩

end

/-! ## Both ways of indexing -/

section

variable {decoder : SolanaDecoder} {m : Type → Type} [Monad m] [LawfulMonad m]
  {indexData : DataCall SubqlRuntimeDatasource → m Unit} {dataSources : List SubqlRuntimeDatasource}

theorem indexBlockData_eq_transactions (hskips : SkipsRejected decoder indexData)
    (hblocks : ∀ handler ∈ handlersOf dataSources, handler.kind ≠ .block) (block : SolanaBlock) :
    indexBlockData indexData block dataSources =
      block.transactions.forM fun tx => (tx.itemCalls dataSources).forM indexData := by
  have hcontent : (callsWith dataSources .block (.block block)).forM indexData = pure () := by
    refine forM_eq_pure fun call hcall => ?_
    obtain ⟨ds, hds, rfl⟩ := List.mem_map.mp hcall
    exact hskips.block ds block fun handler hh =>
      hblocks handler (List.mem_flatMap.mpr ⟨ds, hds, hh⟩)
  simp only [List.forM_eq_forM] at hcontent
  rw [indexBlockData_eq_forM, SolanaBlock.calls, List.forM_eq_forM, List.forM_append, hcontent,
    pure_bind, SolanaBlock.items, List.flatMap_assoc, ← List.forM_eq_forM, forM_flatMap]
  rfl

/-- Nothing happens for a transaction in which nothing is found. -/
theorem itemCalls_eq_pure (hskips : SkipsRejected decoder indexData)
    (hresolves : ∀ handler ∈ handlersOf dataSources, handler.Resolves decoder)
    {tx : SolanaTransaction}
    (hdata : ∀ instruction ∈ tx.executed, ∃ data, decoder.bs58decode instruction.data = .ok data)
    (hnot : ∀ item ∈ tx.items, ∀ handler ∈ handlersOf dataSources,
      ¬handler.accepts decoder item = true) :
    (tx.itemCalls dataSources).forM indexData = pure () := by
  refine forM_eq_pure fun call hcall => ?_
  obtain ⟨item, hitem, hcall⟩ := List.mem_flatMap.mp hcall
  obtain ⟨ds, hds, rfl⟩ := List.mem_map.mp hcall
  have hown : ∀ handler ∈ ds.mapping.handlers, handler ∈ handlersOf dataSources :=
    fun handler hh => List.mem_flatMap.mpr ⟨ds, hds, hh⟩
  refine hskips.item ds item (rejects_of_not_accepts (fun handler hh => hresolves _ (hown _ hh)) ?_
    fun handler hh => hnot item hitem handler (hown _ hh))
  rintro instruction rfl
  exact hdata instruction (mem_items_instruction hitem)

theorem transformBlock_ok {block : RawSolanaBlock} (h : Readable decoder block) :
    ∃ transformed, transformBlock block = .ok transformed := by
  obtain ⟨transactions, htransactions, -⟩ := mapM_ok h.transforms
  exact ⟨_, bind_eq_ok.mpr ⟨transactions, htransactions, rfl⟩⟩

/-- Nothing happens in the transactions that are left out, so nothing is missed without them. -/
theorem CutDown.indexBlockData_eq {entry : SolanaDictionaryV2QueryEntry}
    (hskips : SkipsRejected decoder indexData) (hblind : FormBlind indexData)
    (hblocks : ∀ handler ∈ handlersOf dataSources, handler.kind ≠ .block)
    {block delivered : RawSolanaBlock} (hreadable : Readable decoder block)
    (hskip : ∀ raw ∈ block.transactions, ¬Relevant decoder entry raw → ∀ tx,
      transformTransaction raw = .ok tx → (tx.itemCalls dataSources).forM indexData = pure ())
    (hcut : CutDown decoder entry block delivered) {transformed : SolanaBlock}
    (htransformed : transformBlock block = .ok transformed) :
    ∃ kept, parseBlock delivered = .ok kept ∧
      indexBlockData indexData kept dataSources =
        indexBlockData indexData transformed dataSources := by
  obtain ⟨transactions, htransactions, hsome⟩ := bind_eq_ok.mp htransformed
  cases hsome
  have hforms : ∀ raw ∈ block.transactions, ∀ raw', DictionaryForm raw raw' → ∀ tx,
      transformTransaction raw = .ok tx → ∃ tx', transformTransaction raw'.upcast = .ok tx' ∧
        (tx'.itemCalls dataSources).forM indexData = (tx.itemCalls dataSources).forM indexData := by
    intro raw _ raw' hform tx htx
    obtain ⟨tx', htx', hplain⟩ := hform.transformTransaction htx
    exact ⟨tx', htx', hblind.forM_itemCalls dataSources hplain⟩
  obtain ⟨bs, kept, hbs, hkept, hsame⟩ :=
    hcut.transactions.forM_eq hreadable.transforms hskip hforms
  obtain rfl : transactions = bs := Except.ok.inj (htransactions.symm.trans hbs)
  have hparsed : delivered.upcast.transactions.mapM transformTransaction = .ok kept :=
    List.mapM_map.trans hkept
  refine ⟨_, bind_eq_ok.mpr ⟨kept, hparsed, rfl⟩, ?_⟩
  rw [indexBlockData_eq_transactions hskips hblocks, indexBlockData_eq_transactions hskips hblocks]
  exact hsame

/-- Nothing happens in a block that is left out. -/
theorem indexBlockData_eq_pure (hskips : SkipsRejected decoder indexData)
    (hblocks : ∀ handler ∈ handlersOf dataSources, handler.kind ≠ .block) {block : RawSolanaBlock}
    (hskip : ∀ raw ∈ block.transactions, ∀ tx, transformTransaction raw = .ok tx →
      (tx.itemCalls dataSources).forM indexData = pure ()) {transformed : SolanaBlock}
    (htransformed : transformBlock block = .ok transformed) :
    indexBlockData indexData transformed dataSources = pure () := by
  obtain ⟨transactions, htransactions, hsome⟩ := bind_eq_ok.mp htransformed
  cases hsome
  rw [indexBlockData_eq_transactions hskips hblocks]
  refine forM_eq_pure fun tx htx => ?_
  obtain ⟨raw, hraw, hrawtx⟩ := exists_of_mapM htransactions htx
  exact hskip raw hraw tx hrawtx

/-- A query that is not empty, and yet enough, comes from handlers of the third case. -/
theorem Sufficient.carried {handlers : List Handler} (h : Sufficient handlers)
    (hstays : ∀ handler ∈ handlers, handler.givesUp = false) (hspeaks : ¬Silent handlers) :
    Carried handlers ∧ ∀ handler ∈ handlers, handler.kind ≠ .block := by
  rcases h with ⟨handler, hh, hup⟩ | hsilent | h
  · rw [hstays handler hh] at hup
    cases hup
  · exact absurd hsilent hspeaks
  · exact h

/-- **Indexing what was fetched is indexing the chain.** -/
theorem indexes_all (hskips : SkipsRejected decoder indexData) (hblind : FormBlind indexData)
    (hresolves : ∀ handler ∈ reached (handlersOf dataSources), handler.Resolves decoder)
    (hsufficient : Sufficient (handlersOf dataSources)) {chain : List RawSolanaBlock}
    (hreadable : ∀ block ∈ chain, Readable decoder block) :
    ∃ entry, buildDictionaryV2QueryEntry decoder dataSources = .ok entry ∧
      ∀ delivered, Fetched decoder entry chain delivered →
        ∃ blocks kept, chain.mapM transformBlock = .ok blocks ∧
          delivered.mapM (readBlock entry) = .ok kept ∧
          indexBlocks indexData dataSources kept = indexBlocks indexData dataSources blocks := by
  have hwhole : ∀ delivered, Fetched decoder {} chain delivered →
      ∃ blocks kept, chain.mapM transformBlock = .ok blocks ∧ delivered.mapM (readBlock {}) = .ok kept ∧
        indexBlocks indexData dataSources kept = indexBlocks indexData dataSources blocks := by
    intro delivered hfetched
    obtain rfl : delivered = chain := by simpa [Fetched] using hfetched
    obtain ⟨blocks, hblocks, -⟩ := mapM_ok fun block hb => transformBlock_ok (hreadable block hb)
    have hread : readBlock {} = transformBlock := funext fun block => if_pos rfl
    exact ⟨blocks, blocks, hblocks, hread ▸ hblocks, rfl⟩
  rcases buildDictionaryV2QueryEntry_cases decoder dataSources with
    ⟨hthrows, -⟩ | ⟨-, -, hempty⟩ | ⟨-, hstays, entry, hentry, hnone, hmem⟩
  · exact absurd hresolves hthrows
  · exact ⟨{}, hempty, hwhole⟩
  refine ⟨entry, hentry, fun delivered hfetched => ?_⟩
  rw [reached_of_stays hstays] at hresolves
  by_cases hspeaks : entry = {}
  · subst hspeaks
    exact hwhole delivered hfetched
  · rw [Fetched, if_neg hspeaks] at hfetched
    have hread : readBlock entry = parseBlock := funext fun block => if_neg hspeaks
    rw [hread]
    -- somebody contributes, so it is the third case
    have hnotSilent : ¬Silent (handlersOf dataSources) := by
      intro hsilent
      refine hspeaks (hnone.mpr (List.eq_nil_iff_forall_not_mem.mpr fun c hc => ?_))
      obtain ⟨handler, hh, hcondition⟩ := (hmem c).mp hc
      rw [(silent_iff hstays hresolves).mp hsilent handler hh] at hcondition
      cases hcondition
    obtain ⟨hcarried, hkinds⟩ := hsufficient.carried hstays hnotSilent
    have hskip : ∀ block ∈ chain, ∀ raw ∈ block.transactions, ¬Relevant decoder entry raw →
        ∀ tx, transformTransaction raw = .ok tx →
          (tx.itemCalls dataSources).forM indexData = pure () := by
      intro block hblock raw hraw hirrelevant tx htx
      refine itemCalls_eq_pure hskips hresolves ((hreadable block hblock).data raw hraw tx htx) ?_
      intro item hitem handler hh haccepts
      obtain ⟨found, hfound⟩ := exists_found hstays hresolves hmem hcarried hitem hh haccepts
      exact hirrelevant ⟨tx, htx, found, hfound⟩
    refine hfetched.forM_eq (fun block hb => transformBlock_ok (hreadable block hb)) ?_ ?_
    · intro block hblock hdrop transformed htransformed
      exact indexBlockData_eq_pure hskips hkinds
        (fun raw hraw => hskip block hblock raw hraw (hdrop raw hraw)) htransformed
    · intro block hblock delivered hcut transformed htransformed
      exact hcut.indexBlockData_eq hskips hblind hkinds (hreadable block hblock) (hskip block hblock)
        htransformed

end

/-! ## A signer

The handlers are called with the transactions of one signer, and write down who signed. Of two blocks,
the second one is not fetched, and of the first one only a transaction, with its log line wrapped. -/

/-- Calls the handlers that accept, one after another. -/
def callHandlers {m : Type → Type} [Monad m] (decoder : SolanaDecoder)
    (handle : Handler → HandlerData → m Unit) (call : DataCall SubqlRuntimeDatasource) : m Unit :=
  (call.ds.mapping.handlers.filter fun handler =>
    match call.data with
    | .item item => handler.accepts decoder item
    | .block _ => handler.kind = .block).forM fun handler => handle handler call.data

theorem callHandlers_skipsRejected {m : Type → Type} [Monad m] [LawfulMonad m]
    (decoder : SolanaDecoder) (handle : Handler → HandlerData → m Unit) :
    SkipsRejected decoder (callHandlers decoder handle) where
  item ds item hrejects := by
    have hnone : (ds.mapping.handlers.filter fun handler => handler.accepts decoder item) = [] := by
      rw [List.filter_eq_nil_iff]
      intro handler hh haccepts
      obtain ⟨hkind, htrue⟩ := accepts_iff.mp haccepts
      rw [hrejects handler hh hkind] at htrue
      cases htrue
    simp only [callHandlers, hnone]
    rfl
  block ds block hkinds := by
    have hnone : (ds.mapping.handlers.filter fun handler => handler.kind = .block) = [] := by
      rw [List.filter_eq_nil_iff]
      intro handler hh hkind
      exact hkinds handler hh (of_decide_eq_true hkind)
    simp only [callHandlers, hnone]
    rfl

/-- No filter asks in which form a transaction came. -/
theorem accepts_plain (decoder : SolanaDecoder) (handler : Handler) (item : Item) :
    handler.accepts decoder item.plain = handler.accepts decoder item := by
  cases item with
  | transaction tx => rfl
  | log log => rfl
  | instruction instruction =>
    obtain ⟨raw, index, ⟨signatures, accountKeys, instructions, _ | m⟩⟩ := instruction <;> rfl

theorem callHandlers_formBlind {m : Type → Type} [Monad m] (decoder : SolanaDecoder)
    {handle : Handler → HandlerData → m Unit}
    (h : ∀ handler data, handle handler data.plain = handle handler data) :
    FormBlind (callHandlers decoder handle) := by
  rintro ⟨kind, _ | item, ds⟩
  · rfl
  · have haccepts : (fun handler : Handler => handler.accepts decoder item.plain) =
        fun handler => handler.accepts decoder item :=
      funext fun handler => accepts_plain decoder handler item
    have hhandle : (fun handler => handle handler (HandlerData.item item.plain)) =
        fun handler => handle handler (.item item) := funext fun handler => h handler (.item item)
    simp only [callHandlers, DataCall.plain, HandlerData.plain, haccepts, hhandle]

namespace Signer

open EmptyFilter

/-- One line is logged. -/
def signed (signer : String) (logMessages : Option (List String))
    (logs : Option (List DictionaryLog)) : TransactionForFullJson :=
  ⟨["signature"], [signer], [], some ⟨none, ⟨[], []⟩, none, logMessages, logs⟩⟩

def sent (signer : String) : TransactionForFullJson :=
  signed signer (some Untyped.LoneLog.lines) none

def stored (signer : String) : TransactionForFullJson :=
  signed signer none (some [⟨"Program log: Hello", .number 1, "Token", .log⟩])

def block (transactions : List TransactionForFullJson) : RawSolanaBlock :=
  ⟨⟨7, 0, "hash", 6, "parent"⟩, transactions⟩

def writesDown (_ : Handler) : HandlerData → StateM (List String) Unit
  | .item (.transaction tx) => modify (· ++ tx.accountKeys)
  | _ => pure ()

theorem writesDown_plain (handler : Handler) (data : HandlerData) :
    writesDown handler data.plain = writesDown handler data := by
  obtain _ | _ | _ | _ := data <;> rfl

def wrapped (signer : String) : SolanaTransaction :=
  wrapTransaction (sent signer) (some ⟨none, ⟨[], []⟩, [], some [Untyped.LoneLog.log]⟩)

theorem meta_sent (signer : String) :
    (sent signer).meta = some ⟨none, ⟨[], []⟩, none, some Untyped.LoneLog.lines, none⟩ := rfl

theorem transform_sent (signer : String) : transformTransaction (sent signer) = .ok (wrapped signer) :=
  transformTransaction_of_logs (meta_sent signer) Untyped.LoneLog.wrapped

theorem items_wrapped (signer : String) :
    (wrapped signer).items = [.transaction (wrapped signer), .log Untyped.LoneLog.log] := rfl

theorem dictionaryForm (signer : String) : DictionaryForm (sent signer) (stored signer) :=
  .logged (meta_sent signer) rfl Untyped.LoneLog.wrapped

theorem readable (signers : List String) : Readable withoutIdls (block (signers.map sent)) where
  transforms raw hraw := by
    obtain ⟨signer, -, rfl⟩ := List.mem_map.mp hraw
    exact ⟨_, transform_sent signer⟩
  data raw hraw tx htx instruction hmem := ⟨[], rfl⟩

def entry : SolanaDictionaryV2QueryEntry := { transactions := some [⟨some ["alice"]⟩] }

theorem not_relevant {signer : String} (h : "alice" ≠ signer) :
    ¬Relevant withoutIdls entry (sent signer) := by
  rintro ⟨tx, htx, item, hitem, hfinds⟩
  obtain rfl := Except.ok.inj ((transform_sent signer).symm.trans htx)
  rw [items_wrapped, List.mem_pair] at hitem
  rcases hitem with rfl | rfl
  · simp [SolanaDictionaryV2QueryEntry.finds, SolanaDictionaryV2QueryEntry.conditions, entry,
      Condition.finds, SolanaDictionaryTxConditions.finds, anyOf, signers, wrapped, wrapTransaction,
      sent, signed, h] at hfinds
  · exact absurd hfinds (by decide)

theorem fetched : Fetched withoutIdls entry [block (["bob", "alice"].map sent), block (["carol"].map sent)]
    [block [stored "alice"]] := by
  rw [Fetched, if_neg (by decide)]
  refine .kept ⟨rfl, .leftOut (not_relevant (by decide)) (.kept (dictionaryForm "alice") .nil)⟩
    (.leftOut ?_ .nil)
  intro raw hraw
  obtain rfl := List.mem_singleton.mp hraw
  exact not_relevant (by decide)

theorem resolves : ∀ handler ∈ reached (handlersOf [project]), handler.Resolves withoutIdls := by
  intro handler hh filter hfilter
  obtain rfl := List.mem_singleton.mp hh
  cases hfilter

theorem sufficient : Sufficient (handlersOf [project]) := by
  refine .inr (.inr ⟨fun handler hh hvacuous => ?_, by decide⟩)
  obtain rfl := List.mem_singleton.mp hh
  obtain ⟨-, filter, hfilter, hvalue⟩ := hvacuous
  cases hfilter
  exact absurd hvalue (by decide)

theorem indexes_found :
    ∃ blocks kept,
      [block (["bob", "alice"].map sent), block (["carol"].map sent)].mapM transformBlock =
        .ok blocks ∧
      [block [stored "alice"]].mapM (readBlock entry) = .ok kept ∧
      indexBlocks (callHandlers withoutIdls writesDown) [project] kept =
        indexBlocks (callHandlers withoutIdls writesDown) [project] blocks := by
  have hreadable : ∀ b ∈ [block (["bob", "alice"].map sent), block (["carol"].map sent)],
      Readable withoutIdls b :=
    List.forall_mem_cons.mpr ⟨readable _, List.forall_mem_singleton.mpr (readable _)⟩
  have hentry : buildDictionaryV2QueryEntry withoutIdls [project] = .ok entry := by decide
  obtain ⟨built, hbuilt, hall⟩ := indexes_all (callHandlers_skipsRejected withoutIdls writesDown)
    (callHandlers_formBlind withoutIdls writesDown_plain) resolves sufficient hreadable
  obtain rfl : built = entry := Except.ok.inj (hbuilt.symm.trans hentry)
  exact hall _ fetched

end Signer

end SubqlSolana
