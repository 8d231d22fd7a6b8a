import SubqlSolana.Project.Models

/-!
# Published filters and validated ones

A filter is described twice: by an interface that is published (`types/src/solana.ts`), and by a class
whose decorators say what a manifest may contain. The interface of instruction filters has a property
`includeFailed`, the class one that is spelled `includeFalied`; and a property that the class does not
declare is forbidden.

So a data source of the published types, with any handlers and any filters, passes validation with its
filters untouched **exactly if none of them has `includeFailed`** (`accepted_iff`).
-/

set_option autoImplicit false

namespace SubqlSolana

open Lib

/-! ## The published types -/

namespace Published

def isText : Json → Bool
  | .leaf (.string _) => true
  | _ => false

def isFlag : Json → Bool
  | .leaf (.bool _) => true
  | _ => false

/-- `InstructionAccountFilter`. -/
def isAccountFilter : Json → Bool
  | .leaf .null => true
  | .array addresses => addresses.all isText
  | _ => false

/-- Up to 16 of them, and at least one. -/
def isAccounts : Json → Bool
  | .array items => 0 < items.length && items.length ≤ 16 && items.all isAccountFilter
  | _ => false

/-- There is nothing but properties of these types. -/
def hasOnly (types : List (String × (Json → Bool))) (fields : List (String × Json)) : Bool :=
  fields.all fun field => (types.lookup field.1).any fun isType => isType field.2

def isTransactionFilter : Json → Bool
  | .object fields => hasOnly [("signerAccountKey", isText)] fields
  | _ => false

/-- With a `programId` if there is a `discriminator`. -/
def isInstructionFilter : Json → Bool
  | .object fields =>
    hasOnly [("programId", isText), ("discriminator", isText), ("accounts", isAccounts),
      ("includeFailed", isFlag)] fields &&
    ((fields.lookup "discriminator").isNone || (fields.lookup "programId").isSome)
  | _ => false

def isLogFilter : Json → Bool
  | .object fields => hasOnly [("programId", isText)] fields
  | _ => false

def isKind (kind : SolanaHandlerKind) : Json → Bool
  | .leaf (.string s) => s = kind.text
  | _ => false

def isHandler (kind : SolanaHandlerKind) (isFilter : Json → Bool) : Json → Bool
  | .object fields =>
    hasOnly [("kind", isKind kind), ("handler", isText), ("filter", isFilter)] fields &&
    (fields.lookup "kind").isSome && (fields.lookup "handler").isSome
  | _ => false

/-- A handler of transactions, instructions or logs. -/
def isRuntimeHandler (handler : Json) : Bool :=
  isHandler .transaction isTransactionFilter handler ||
    isHandler .instruction isInstructionFilter handler || isHandler .log isLogFilter handler

def isHandlers : Json → Bool
  | .array handlers => handlers.all isRuntimeHandler
  | _ => false

def isMapping : Json → Bool
  | .object fields =>
    hasOnly [("file", isText), ("handlers", isHandlers)] fields &&
    (fields.lookup "file").isSome && (fields.lookup "handlers").isSome
  | _ => false

theorem type_of_hasOnly {types : List (String × (Json → Bool))} {fields : List (String × Json)}
    (h : hasOnly types fields = true) {field : String × Json} (hfield : field ∈ fields) :
    ∃ isType, (field.1, isType) ∈ types ∧ isType field.2 = true := by
  obtain ⟨isType, hlookup, htype⟩ :=
    (Option.any_eq_true _ _).mp (List.all_eq_true.mp h field hfield)
  obtain ⟨before, after, hsplit, -⟩ := List.lookup_eq_some_iff.mp hlookup
  exact ⟨isType, by simp [hsplit], htype⟩

theorem mem_of_lookup {fields : List (String × Json)} {name : String} {v : Json}
    (h : fields.lookup name = some v) : (name, v) ∈ fields := by
  obtain ⟨before, after, hsplit, -⟩ := List.lookup_eq_some_iff.mp h
  simp [hsplit]

end Published

/-! ## What is expected -/

/-- Where a manifest has the filter of a handler. -/
def filterPath (i : Nat) : KeyPath := [.key "mapping", .key "handlers", .index i, .key "filter"]

section

variable (common : CommonModels)
  (plainToClass : ModelClass → Json → Except String (Instance ModelClass))
  (validateSync : Instance ModelClass → List String × Instance ModelClass)

/-- A data source whose mapping is of the published type, and whose other properties are valid. -/
structure RuntimeDatasource (fields : List (String × Json)) : Prop where
  has_mapping : (fields.lookup "mapping").isSome
  mapping : ∀ field ∈ fields, field.1 = "mapping" → Published.isMapping field.2 = true
  others : ∀ field ∈ fields, field.1 ≠ "mapping" →
    declares (Models.otherProperties common) field.1 = true ∧
    ∃ v', convert plainToClass (Models.runtimeDataSource common) field = .ok (field.1, v')
  others_pass : ∀ fields',
    List.Forall₂
      (fun a b => convert plainToClass (Models.runtimeDataSource common) a = .ok b) fields fields' →
    ∀ p ∈ Models.otherProperties common,
      p.passes fields' (nestedValid (Models.properties common) (fields'.lookup p.name)) = true

/-- `validate()` does not throw on the instance that is built of the data source, and every filter is in
its place afterwards, as it was. -/
def Accepted (fields : List (String × Json)) : Prop :=
  ∃ object after, plainToClass .runtimeDataSource (.object fields) = .ok object ∧
    SolanaRuntimeDataSourceImpl.validate validateSync object = (.ok (), after) ∧
    ∀ i, after.toPlain.at? (filterPath i) = (JsonTree.object fields).at? (filterPath i)

/-- No filter has a property `includeFailed`. -/
def NoIncludeFailed (fields : List (String × Json)) : Prop :=
  ∀ i, (JsonTree.object fields).at? (filterPath i ++ [.key "includeFailed"]) = none

end

/-! ## Filters -/

section

variable {common : CommonModels}
  {plainToClass : ModelClass → Json → Except String (Instance ModelClass)}

/-- An instance is built without a loss, and it is valid on this condition. -/
def Builds (common : CommonModels) (result : Except String (Instance ModelClass)) (json : Json)
    (P : Prop) : Prop :=
  ∃ object, result = .ok object ∧ object.toPlain = json ∧
    (isValid (Models.properties common) object = true ↔ P)

/-- An object of a class without conversions. -/
theorem exists_copied (htransformer : ClassTransformer (Models.properties common) plainToClass)
    {c : ModelClass} (hcopy : ∀ p ∈ Models.properties common c, p.conversion = .copy)
    (fields : List (String × Json)) :
    ∃ fields', Built plainToClass (Models.properties common c) c fields fields' ∧
      ∀ name, fields'.lookup name = (fields.lookup name).map .copy := by
  have hfind : ∀ name, ∀ p ∈ (Models.properties common c).find? fun p => p.name = name,
      p.conversion = .copy := fun name p hp => hcopy p (List.mem_of_find?_eq_some hp)
  have hall : ∀ field ∈ fields, ∃ v', convert plainToClass (Models.properties common c) field =
      .ok (field.1, v') ∧ v'.toPlain = field.2 := fun field _ =>
    ⟨_, convert_copy (hfind field.1), Instance.toPlain_copy field.2⟩
  obtain ⟨fields', hbuilt⟩ := exists_built htransformer hall
  exact ⟨fields', hbuilt, fun name => lookup_copied hbuilt.converted (hfind name)⟩

theorem holds_isString {v : Json} (h : Published.isText v = true) (nested : Bool) :
    (Decorator.isString : Decorator ModelClass).holds (some (.copy v)) nested = true := by
  unfold Published.isText at h
  split at h
  · rfl
  · cases h

theorem holds_isArray {v : Json} (h : Published.isAccounts v = true) (nested : Bool) :
    (Decorator.isArray : Decorator ModelClass).holds (some (.copy v)) nested = true := by
  unfold Published.isAccounts at h
  split at h
  · rfl
  · cases h

theorem at?_includeFailed (fields : List (String × Json)) :
    (JsonTree.object fields).at? [.key "includeFailed"] = fields.lookup "includeFailed" := by
  rw [JsonTree.at?_key]
  cases fields.lookup "includeFailed" <;> simp

/-- A filter whose only property is a text. -/
theorem builds_textFilter (htransformer : ClassTransformer (Models.properties common) plainToClass)
    {c : ModelClass} {name : String} (hname : name ≠ "includeFailed")
    (hc : Models.properties common c =
      [{ name := name, decorators := [.isOptional, .isString] }])
    {fields : List (String × Json)}
    (h : Published.hasOnly [(name, Published.isText)] fields = true) :
    Builds common (plainToClass c (.object fields)) (.object fields)
      ((JsonTree.object fields).at? [.key "includeFailed"] = none) := by
  have hfields : ∀ field ∈ fields, field.1 = name ∧ Published.isText field.2 = true := by
    intro field hfield
    obtain ⟨isType, hmem, htype⟩ := Published.type_of_hasOnly h hfield
    cases List.mem_singleton.mp hmem
    exact ⟨rfl, htype⟩
  obtain ⟨fields', hbuilt, hlookup⟩ := exists_copied htransformer (c := c)
    (by simp [hc]) fields
  refine ⟨_, hbuilt.result, congrArg JsonTree.object hbuilt.plain, iff_of_true ?_ ?_⟩
  · rw [isValid_object_iff, declared_iff_of_convert hbuilt.converted, hc]
    constructor
    · intro field hfield
      simp [declares, (hfields field hfield).1]
    · intro p hp
      obtain rfl := List.mem_singleton.mp hp
      refine passes_optional rfl fun v hv => ?_
      rw [hlookup] at hv
      obtain ⟨w, hw, rfl⟩ := Option.map_eq_some_iff.mp hv
      exact holds_isString (hfields _ (Published.mem_of_lookup hw)).2 _
  · rw [at?_includeFailed, List.lookup_eq_none_iff]
    intro field hfield
    rw [(hfields field hfield).1]
    simpa using hname.symm

theorem builds_transactionFilter
    (htransformer : ClassTransformer (Models.properties common) plainToClass) {filter : Json}
    (h : Published.isTransactionFilter filter = true) :
    Builds common (plainToClass .transactionFilter filter) filter
      (filter.at? [.key "includeFailed"] = none) := by
  unfold Published.isTransactionFilter at h
  split at h
  · exact builds_textFilter htransformer (by decide) rfl h
  · cases h

theorem builds_logFilter
    (htransformer : ClassTransformer (Models.properties common) plainToClass) {filter : Json}
    (h : Published.isLogFilter filter = true) :
    Builds common (plainToClass .logFilter filter) filter
      (filter.at? [.key "includeFailed"] = none) := by
  unfold Published.isLogFilter at h
  split at h
  · exact builds_textFilter htransformer (by decide) rfl h
  · cases h

/-- A property of a published instruction filter has its type. -/
theorem type_of_instructionFilter {fields : List (String × Json)}
    (h : Published.isInstructionFilter (.object fields) = true) {field : String × Json}
    (hfield : field ∈ fields) :
    (field.1 = "programId" ∧ Published.isText field.2 = true) ∨
    (field.1 = "discriminator" ∧ Published.isText field.2 = true) ∨
    (field.1 = "accounts" ∧ Published.isAccounts field.2 = true) ∨ field.1 = "includeFailed" := by
  obtain ⟨isType, hmem, htype⟩ :=
    Published.type_of_hasOnly (Bool.and_eq_true_iff.mp h).1 hfield
  simp only [List.mem_cons, List.not_mem_nil, or_false, Prod.mk.injEq] at hmem
  rcases hmem with ⟨hname, rfl⟩ | ⟨hname, rfl⟩ | ⟨hname, rfl⟩ | ⟨hname, -⟩
  · exact .inl ⟨hname, htype⟩
  · exact .inr (.inl ⟨hname, htype⟩)
  · exact .inr (.inr (.inl ⟨hname, htype⟩))
  · exact .inr (.inr (.inr hname))

/-- Where the interface wants a `programId`, the decorators are content with it. -/
theorem passes_programId {fields : List (String × Json)}
    {fields' : List (String × Instance ModelClass)}
    (h : Published.isInstructionFilter (.object fields) = true)
    (hlookup : ∀ name, fields'.lookup name = (fields.lookup name).map .copy) (nested : Bool) :
    Models.programId.passes fields' nested = true := by
  obtain ⟨-, hrequired⟩ := Bool.and_eq_true_iff.mp h
  unfold Property.passes Models.programId
  cases hdiscriminator : fields.lookup "discriminator" with
  | none => simp [Decorator.skips, hlookup, hdiscriminator]
  | some discriminator =>
    rw [hdiscriminator, Option.isNone_some, Bool.false_or] at hrequired
    obtain ⟨programId, hprogramId⟩ := Option.isSome_iff_exists.mp hrequired
    have htext : Published.isText programId = true := by
      have htype := type_of_instructionFilter h (Published.mem_of_lookup hprogramId)
      simpa using htype
    unfold Published.isText at htext
    split at htext
    · simp [Decorator.holds, isAbsent, hlookup, hprogramId, Instance.copy]
    · cases htext

/-- What the class declares is what the interface does, but for the property that is misspelled. -/
theorem declares_instructionFilter_iff {fields : List (String × Json)}
    (h : Published.isInstructionFilter (.object fields) = true) :
    (∀ field ∈ fields, declares Models.instructionFilter field.1 = true) ↔
      fields.lookup "includeFailed" = none := by
  constructor
  · intro hdeclared
    cases hflag : fields.lookup "includeFailed" with
    | none => rfl
    | some v =>
      have hallowed := hdeclared _ (Published.mem_of_lookup hflag)
      cases hallowed
  · intro hnone field hfield
    rcases type_of_instructionFilter h hfield with ⟨hname, -⟩ | ⟨hname, -⟩ | ⟨hname, -⟩ | hname
    · rw [hname]
      rfl
    · rw [hname]
      rfl
    · rw [hname]
      rfl
    · have hne := List.lookup_eq_none_iff.mp hnone field hfield
      simp [hname] at hne

/-- The decorators are content with everything that is declared. -/
theorem passes_instructionFilter {fields : List (String × Json)}
    {fields' : List (String × Instance ModelClass)}
    (h : Published.isInstructionFilter (.object fields) = true)
    (hlookup : ∀ name, fields'.lookup name = (fields.lookup name).map .copy) (nested : Bool)
    {p : Property ModelClass} (hp : p ∈ Models.instructionFilter) :
    p.passes fields' nested = true := by
  have hget : ∀ name v, fields'.lookup name = some v →
      ∃ w, (name, w) ∈ fields ∧ v = .copy w := by
    intro name v hv
    rw [hlookup] at hv
    obtain ⟨w, hw, rfl⟩ := Option.map_eq_some_iff.mp hv
    exact ⟨w, Published.mem_of_lookup hw, rfl⟩
  simp only [Models.instructionFilter, List.mem_cons, List.not_mem_nil, or_false] at hp
  rcases hp with rfl | rfl | rfl | rfl
  · exact passes_programId h hlookup _
  · refine passes_optional rfl fun v hv => ?_
    obtain ⟨w, hw, rfl⟩ := hget _ v hv
    have htype := type_of_instructionFilter h hw
    exact holds_isString (by simpa using htype) _
  · refine passes_optional rfl fun v hv => ?_
    obtain ⟨w, hw, rfl⟩ := hget _ v hv
    have htype := type_of_instructionFilter h hw
    exact holds_isArray (by simpa using htype) _
  · -- nothing of the interface has this name
    refine passes_optional rfl fun v hv => ?_
    obtain ⟨w, hw, -⟩ := hget _ v hv
    have htype := type_of_instructionFilter h hw
    simp at htype

/-- **The class of instruction filters allows all that the interface does but `includeFailed`.** -/
theorem builds_instructionFilter
    (htransformer : ClassTransformer (Models.properties common) plainToClass) {filter : Json}
    (h : Published.isInstructionFilter filter = true) :
    Builds common (plainToClass .instructionFilter filter) filter
      (filter.at? [.key "includeFailed"] = none) := by
  cases filter with
  | leaf s => cases h
  | array items => cases h
  | object fields =>
    obtain ⟨fields', hbuilt, hlookup⟩ := exists_copied htransformer (c := .instructionFilter)
      (by simp [Models.properties, Models.instructionFilter, Models.programId]) fields
    refine ⟨_, hbuilt.result, congrArg JsonTree.object hbuilt.plain, ?_⟩
    rw [isValid_object_iff, declared_iff_of_convert hbuilt.converted, at?_includeFailed,
      ← declares_instructionFilter_iff h]
    constructor
    · intro hvalid
      exact hvalid.1
    · intro hdeclared
      exact ⟨hdeclared, fun p hp => passes_instructionFilter h hlookup _ hp⟩

/-! ## Handlers and mappings -/

/-- A property of a published handler has its type. -/
theorem type_of_handler {kind : SolanaHandlerKind} {isFilter : Json → Bool}
    {fields : List (String × Json)} (h : Published.isHandler kind isFilter (.object fields) = true)
    {field : String × Json} (hfield : field ∈ fields) :
    (field.1 = "kind" ∧ Published.isKind kind field.2 = true) ∨
    (field.1 = "handler" ∧ Published.isText field.2 = true) ∨
    (field.1 = "filter" ∧ isFilter field.2 = true) := by
  simp only [Published.isHandler, Bool.and_eq_true] at h
  obtain ⟨isType, hmem, htype⟩ := Published.type_of_hasOnly h.1.1 hfield
  simp only [List.mem_cons, List.not_mem_nil, or_false, Prod.mk.injEq] at hmem
  rcases hmem with ⟨hname, rfl⟩ | ⟨hname, rfl⟩ | ⟨hname, rfl⟩
  · exact .inl ⟨hname, htype⟩
  · exact .inr (.inl ⟨hname, htype⟩)
  · exact .inr (.inr ⟨hname, htype⟩)

/-- A published handler has a kind, and it is this one. -/
theorem kind_of_handler {kind : SolanaHandlerKind} {isFilter : Json → Bool}
    {fields : List (String × Json)} (h : Published.isHandler kind isFilter (.object fields) = true) :
    ∃ v, fields.lookup "kind" = some v ∧ Published.isKind kind v = true := by
  have hparts := h
  simp only [Published.isHandler, Bool.and_eq_true] at hparts
  obtain ⟨v, hv⟩ := Option.isSome_iff_exists.mp hparts.1.2
  have htype := type_of_handler h (Published.mem_of_lookup hv)
  exact ⟨v, hv, by simpa using htype⟩

theorem text_of_handler {kind : SolanaHandlerKind} {isFilter : Json → Bool}
    {fields : List (String × Json)} (h : Published.isHandler kind isFilter (.object fields) = true) :
    ∃ v, fields.lookup "handler" = some v ∧ Published.isText v = true := by
  have hparts := h
  simp only [Published.isHandler, Bool.and_eq_true] at hparts
  obtain ⟨v, hv⟩ := Option.isSome_iff_exists.mp hparts.2
  have htype := type_of_handler h (Published.mem_of_lookup hv)
  exact ⟨v, hv, by simpa using htype⟩

theorem kindOf_of_handler {kind : SolanaHandlerKind} {isFilter : Json → Bool} {handler : Json}
    (h : Published.isHandler kind isFilter handler = true) :
    Models.kindOf handler = some kind.text := by
  cases handler with
  | leaf s => cases h
  | array items => cases h
  | object fields =>
    obtain ⟨v, hv, hkind⟩ := kind_of_handler h
    unfold Published.isKind at hkind
    split at hkind
    · simp only [Models.kindOf, hv]
      rw [of_decide_eq_true hkind]
    · cases hkind

section

variable {kind : SolanaHandlerKind} {isFilter : Json → Bool} {c filterClass : ModelClass}
  {fields : List (String × Json)} {fields' : List (String × Instance ModelClass)}

/-- The filter of a handler is built as an instance of its class, and the rest is copied. -/
theorem convert_handler (h : Published.isHandler kind isFilter (.object fields) = true)
    (hfilter : ∀ filter, isFilter filter = true → Builds common (plainToClass filterClass filter)
      filter (filter.at? [.key "includeFailed"] = none)) :
    ∀ field ∈ fields, ∃ v', convert plainToClass
        (Models.handler filterClass [.isOptional, .validateNested]) field = .ok (field.1, v') ∧
      v'.toPlain = field.2 := by
  rintro ⟨name, v⟩ hfield
  rcases type_of_handler h hfield with ⟨rfl, -⟩ | ⟨rfl, -⟩ | ⟨rfl, htype⟩
  · exact ⟨_, rfl, Instance.toPlain_copy v⟩
  · exact ⟨_, rfl, Instance.toPlain_copy v⟩
  · obtain ⟨object, hobject, hplain, -⟩ := hfilter v htype
    refine ⟨object, ?_, hplain⟩
    show (plainToClass filterClass v >>= fun v' => pure ("filter", v')) = _
    rw [hobject]
    rfl

theorem declares_handler (h : Published.isHandler kind isFilter (.object fields) = true) :
    ∀ field ∈ fields,
      declares (Models.handler filterClass [.isOptional, .validateNested]) field.1 = true := by
  intro field hfield
  rcases type_of_handler h hfield with ⟨hname, -⟩ | ⟨hname, -⟩ | ⟨hname, -⟩
  all_goals
    rw [hname]
    rfl

/-- The filter of a handler is valid if it has no `includeFailed`. -/
theorem nestedValid_filter (h : Published.isHandler kind isFilter (.object fields) = true)
    (hfilter : ∀ filter, isFilter filter = true → Builds common (plainToClass filterClass filter)
      filter (filter.at? [.key "includeFailed"] = none))
    (hconverted : List.Forall₂ (fun a b => convert plainToClass
      (Models.handler filterClass [.isOptional, .validateNested]) a = .ok b) fields fields') :
    nestedValid (Models.properties common) (fields'.lookup "filter") = true ↔
      (JsonTree.object fields).at? [.key "filter", .key "includeFailed"] = none := by
  rw [JsonTree.at?_key]
  rcases lookup_of_convert hconverted "filter" with ⟨hnone, hnone'⟩ | ⟨v, v', hv, hv', hok⟩
  · rw [hnone, hnone']
    simp [nestedValid]
  · have htype : isFilter v = true := by
      have htype := type_of_handler h (Published.mem_of_lookup hv)
      simpa using htype
    obtain ⟨object, hobject, -, hvalid⟩ := hfilter v htype
    have hobject' : convert plainToClass
        (Models.handler filterClass [.isOptional, .validateNested]) ("filter", v) =
        (plainToClass filterClass v >>= fun v' => pure ("filter", v')) := rfl
    rw [hobject] at hobject'
    cases hobject'.symm.trans hok
    rw [hv, hv', nestedValid, Option.all_some, Option.bind_some]
    exact hvalid

theorem passes_kind (h : Published.isHandler kind isFilter (.object fields) = true)
    (hlookup : fields'.lookup "kind" = (fields.lookup "kind").map .copy) (nested : Bool) :
    ({ name := "kind", decorators := [.isEnum SolanaHandlerKind.texts] } :
      Property ModelClass).passes fields' nested = true := by
  obtain ⟨v, hv, hkind⟩ := kind_of_handler h
  have hmem : kind.text ∈ SolanaHandlerKind.texts := by cases kind <;> decide
  unfold Published.isKind at hkind
  split at hkind
  · simp [Property.passes, Decorator.holds, hlookup, hv, Instance.copy, of_decide_eq_true hkind, hmem]
  · cases hkind

theorem passes_text {name : String}
    (hv : ∃ v, fields.lookup name = some v ∧ Published.isText v = true)
    (hlookup : fields'.lookup name = (fields.lookup name).map .copy) (nested : Bool) :
    ({ name := name, decorators := [.isString] } : Property ModelClass).passes fields' nested =
      true := by
  obtain ⟨v, hv, htext⟩ := hv
  simp [Property.passes, hlookup, hv, holds_isString htext]

end

/-- A handler is as good as its filter. -/
theorem builds_handler (htransformer : ClassTransformer (Models.properties common) plainToClass)
    {kind : SolanaHandlerKind} {isFilter : Json → Bool} {c filterClass : ModelClass}
    (hc : Models.properties common c = Models.handler filterClass [.isOptional, .validateNested])
    (hfilter : ∀ filter, isFilter filter = true → Builds common (plainToClass filterClass filter)
      filter (filter.at? [.key "includeFailed"] = none))
    {handler : Json} (h : Published.isHandler kind isFilter handler = true) :
    Builds common (plainToClass c handler) handler
      (handler.at? [.key "filter", .key "includeFailed"] = none) := by
  cases handler with
  | leaf s => cases h
  | array items => cases h
  | object fields =>
    have hconvert := convert_handler h hfilter
    rw [← hc] at hconvert
    obtain ⟨fields', hbuilt⟩ := exists_built htransformer hconvert
    have hconverted := hbuilt.converted
    rw [hc] at hconverted
    refine ⟨_, hbuilt.result, congrArg JsonTree.object hbuilt.plain, ?_⟩
    rw [isValid_object_iff, declared_iff_of_convert hbuilt.converted, hc,
      ← nestedValid_filter h hfilter hconverted]
    constructor
    · rintro ⟨-, hpasses⟩
      have hfilterPasses := hpasses _ List.mem_cons_self
      rw [passes_optional_nested rfl] at hfilterPasses
      exact hfilterPasses
    · intro hnested
      refine ⟨declares_handler h, fun p hp => ?_⟩
      simp only [Models.handler, List.mem_cons, List.not_mem_nil, or_false] at hp
      rcases hp with rfl | rfl | rfl
      · rw [passes_optional_nested rfl]
        exact hnested
      · exact passes_kind h (lookup_copied hconverted (by rintro p ⟨⟩; rfl)) _
      · exact passes_text (text_of_handler h) (lookup_copied hconverted (by rintro p ⟨⟩; rfl)) _

theorem builds_runtimeHandler
    (htransformer : ClassTransformer (Models.properties common) plainToClass) {handler : Json}
    (h : Published.isRuntimeHandler handler = true) :
    Builds common (Models.handlerOfKind plainToClass handler) handler
      (handler.at? [.key "filter", .key "includeFailed"] = none) := by
  simp only [Published.isRuntimeHandler, Bool.or_eq_true] at h
  unfold Models.handlerOfKind
  rcases h with (h | h) | h
  · rw [kindOf_of_handler h]
    exact builds_handler htransformer rfl (fun _ => builds_transactionFilter htransformer) h
  · rw [kindOf_of_handler h]
    exact builds_handler htransformer rfl (fun _ => builds_instructionFilter htransformer) h
  · rw [kindOf_of_handler h]
    exact builds_handler htransformer rfl (fun _ => builds_logFilter htransformer) h

/-- All handlers of a mapping, in order. -/
theorem builds_handlers (htransformer : ClassTransformer (Models.properties common) plainToClass)
    {handlers : List Json} (h : ∀ handler ∈ handlers, Published.isRuntimeHandler handler = true) :
    ∃ objects, handlers.mapM (Models.handlerOfKind plainToClass) = .ok objects ∧
      Instance.plainItems objects = handlers ∧
      (allValid (Models.properties common) objects = true ↔
        ∀ handler ∈ handlers, handler.at? [.key "filter", .key "includeFailed"] = none) := by
  induction handlers with
  | nil => exact ⟨[], rfl, rfl, by simp [allValid]⟩
  | cons handler rest ih =>
    obtain ⟨object, hobject, hplain, hvalid⟩ :=
      builds_runtimeHandler htransformer (h handler List.mem_cons_self)
    obtain ⟨objects, hobjects, hplains, hvalids⟩ :=
      ih fun other hother => h other (List.mem_cons_of_mem _ hother)
    refine ⟨object :: objects, ?_, ?_, ?_⟩
    · rw [List.mapM_cons, hobject, hobjects]
      rfl
    · rw [Instance.plainItems, hplain, hplains]
    · rw [allValid, Bool.and_eq_true, hvalid, hvalids, List.forall_mem_cons]

/-- What the callback of a mapping makes of its handlers. -/
theorem builds_transformHandlers
    (htransformer : ClassTransformer (Models.properties common) plainToClass) {v : Json}
    (h : Published.isHandlers v = true) :
    ∃ objects, Models.transformHandlers plainToClass v = .ok (.array objects) ∧
      (Instance.array objects).toPlain = v ∧
      (isValid (Models.properties common) (.array objects) = true ↔
        ∀ i, v.at? [.index i, .key "filter", .key "includeFailed"] = none) := by
  cases v with
  | leaf s => cases h
  | object fields => cases h
  | array handlers =>
    obtain ⟨objects, hobjects, hplain, hvalid⟩ :=
      builds_handlers htransformer (List.all_eq_true.mp h)
    refine ⟨objects, ?_, congrArg JsonTree.array hplain, ?_⟩
    · rw [Models.transformHandlers, hobjects]
      rfl
    · rw [isValid, hvalid]
      simp only [JsonTree.at?_index, Option.bind_eq_none_iff, List.mem_iff_getElem?]
      constructor
      · intro hall i handler hi
        exact hall handler ⟨i, hi⟩
      · intro hall handler hmem
        obtain ⟨i, hi⟩ := hmem
        exact hall i handler hi

theorem type_of_mapping {fields : List (String × Json)}
    (h : Published.isMapping (.object fields) = true) {field : String × Json}
    (hfield : field ∈ fields) :
    (field.1 = "file" ∧ Published.isText field.2 = true) ∨
    (field.1 = "handlers" ∧ Published.isHandlers field.2 = true) := by
  simp only [Published.isMapping, Bool.and_eq_true] at h
  obtain ⟨isType, hmem, htype⟩ := Published.type_of_hasOnly h.1.1 hfield
  simp only [List.mem_cons, List.not_mem_nil, or_false, Prod.mk.injEq] at hmem
  rcases hmem with ⟨hname, rfl⟩ | ⟨hname, rfl⟩
  · exact .inl ⟨hname, htype⟩
  · exact .inr ⟨hname, htype⟩

section

variable {fields : List (String × Json)} {fields' : List (String × Instance ModelClass)}

theorem convert_handlers (v : Json) : convert plainToClass Models.solanaMapping ("handlers", v) =
    (Models.transformHandlers plainToClass v >>= fun v' => pure ("handlers", v')) := rfl

theorem convert_mapping (htransformer : ClassTransformer (Models.properties common) plainToClass)
    (h : Published.isMapping (.object fields) = true) :
    ∀ field ∈ fields, ∃ v', convert plainToClass Models.solanaMapping field = .ok (field.1, v') ∧
      v'.toPlain = field.2 := by
  rintro ⟨name, v⟩ hfield
  rcases type_of_mapping h hfield with ⟨rfl, -⟩ | ⟨rfl, htype⟩
  · exact ⟨_, rfl, Instance.toPlain_copy v⟩
  · obtain ⟨objects, hobjects, hplain, -⟩ := builds_transformHandlers htransformer htype
    refine ⟨.array objects, ?_, hplain⟩
    rw [convert_handlers, hobjects]
    rfl

/-- The handlers of a mapping are an array, and it is valid if no filter has `includeFailed`. -/
theorem passes_handlers (htransformer : ClassTransformer (Models.properties common) plainToClass)
    (h : Published.isMapping (.object fields) = true)
    (hconverted : List.Forall₂
      (fun a b => convert plainToClass Models.solanaMapping a = .ok b) fields fields') :
    ({ name := "handlers", conversion := .transform Models.transformHandlers,
       decorators := [.isArray, .validateNested] } : Property ModelClass).passes fields'
        (nestedValid (Models.properties common) (fields'.lookup "handlers")) = true ↔
      ∀ i, (JsonTree.object fields).at?
        [.key "handlers", .index i, .key "filter", .key "includeFailed"] = none := by
  have hparts := h
  simp only [Published.isMapping, Bool.and_eq_true] at hparts
  rcases lookup_of_convert hconverted "handlers" with ⟨hnone, -⟩ | ⟨v, v', hv, hv', hok⟩
  · rw [hnone] at hparts
    cases hparts.2
  · have htype : Published.isHandlers v = true := by
      have htype := type_of_mapping h (Published.mem_of_lookup hv)
      simpa using htype
    obtain ⟨objects, hobjects, -, hvalid⟩ := builds_transformHandlers htransformer htype
    rw [convert_handlers, hobjects] at hok
    cases hok
    simp only [JsonTree.at?_key, hv, Option.bind_some]
    rw [← hvalid]
    simp [Property.passes, Decorator.skips, Decorator.holds, hv', nestedValid]

theorem passes_file (h : Published.isMapping (.object fields) = true)
    (hlookup : fields'.lookup "file" = (fields.lookup "file").map .copy) (nested : Bool) :
    ({ name := "file", decorators := [.isString] } : Property ModelClass).passes fields' nested =
      true := by
  have hparts := h
  simp only [Published.isMapping, Bool.and_eq_true] at hparts
  obtain ⟨v, hv⟩ := Option.isSome_iff_exists.mp hparts.1.2
  have htype := type_of_mapping h (Published.mem_of_lookup hv)
  exact passes_text ⟨v, hv, by simpa using htype⟩ hlookup nested

end

/-- A mapping is as good as its handlers. -/
theorem builds_mapping (htransformer : ClassTransformer (Models.properties common) plainToClass)
    {mapping : Json} (h : Published.isMapping mapping = true) :
    Builds common (plainToClass .solanaMapping mapping) mapping
      (∀ i, mapping.at? [.key "handlers", .index i, .key "filter", .key "includeFailed"] = none) := by
  cases mapping with
  | leaf s => cases h
  | array items => cases h
  | object fields =>
    obtain ⟨fields', hbuilt⟩ :=
      exists_built (c := .solanaMapping) htransformer (convert_mapping htransformer h)
    refine ⟨_, hbuilt.result, congrArg JsonTree.object hbuilt.plain, ?_⟩
    rw [isValid_object_iff, declared_iff_of_convert hbuilt.converted,
      ← passes_handlers htransformer h hbuilt.converted]
    constructor
    · rintro ⟨-, hpasses⟩
      exact hpasses _ List.mem_cons_self
    · intro hhandlers
      constructor
      · intro field hfield
        rcases type_of_mapping h hfield with ⟨hname, -⟩ | ⟨hname, -⟩
        all_goals
          rw [hname]
          rfl
      · intro p hp
        rcases List.mem_pair.mp hp with rfl | rfl
        · exact hhandlers
        · exact passes_file h (lookup_copied hbuilt.converted (by rintro p ⟨⟩; rfl)) _

/-! ## Data sources -/

section

variable {fields : List (String × Json)} {fields' : List (String × Instance ModelClass)}

/-- The mapping of a data source is an instance of its class. -/
theorem convert_runtimeDataSource (v : Json) :
    convert plainToClass (Models.runtimeDataSource common) ("mapping", v) =
      (plainToClass .solanaMapping v >>= fun v' => pure ("mapping", v')) := rfl

theorem exists_converted (htransformer : ClassTransformer (Models.properties common) plainToClass)
    (h : RuntimeDatasource common plainToClass fields) :
    ∃ fields', fields.mapM (convert plainToClass (Models.runtimeDataSource common)) = .ok fields' ∧
      List.Forall₂ (fun a b => convert plainToClass (Models.runtimeDataSource common) a = .ok b)
        fields fields' := by
  refine mapM_ok fun field hfield => ?_
  by_cases hname : field.1 = "mapping"
  · obtain ⟨object, hobject, -⟩ := builds_mapping htransformer (h.mapping field hfield hname)
    obtain ⟨name, v⟩ := field
    subst hname
    rw [convert_runtimeDataSource, hobject]
    exact ⟨_, rfl⟩
  · obtain ⟨-, v', hv'⟩ := h.others field hfield hname
    exact ⟨_, hv'⟩

theorem declares_runtimeDataSource (h : RuntimeDatasource common plainToClass fields) :
    ∀ field ∈ fields, declares (Models.runtimeDataSource common) field.1 = true := by
  intro field hfield
  rw [declares, Models.runtimeDataSource, List.any_cons]
  by_cases hname : field.1 = "mapping"
  · rw [hname]
    rfl
  · have hother := (h.others field hfield hname).1
    rw [declares] at hother
    rw [hother, Bool.or_true]

/-- The mapping of the instance, in the place of that of the data source. -/
theorem exists_mapping (htransformer : ClassTransformer (Models.properties common) plainToClass)
    (h : RuntimeDatasource common plainToClass fields)
    (hconverted : List.Forall₂
      (fun a b => convert plainToClass (Models.runtimeDataSource common) a = .ok b) fields fields') :
    ∃ v v', fields.lookup "mapping" = some v ∧ fields'.lookup "mapping" = some v' ∧
      v'.toPlain = v ∧ (isValid (Models.properties common) v' = true ↔
        ∀ i, v.at? [.key "handlers", .index i, .key "filter", .key "includeFailed"] = none) := by
  rcases lookup_of_convert hconverted "mapping" with ⟨hnone, -⟩ | ⟨v, v', hv, hv', hok⟩
  · have hsome := h.has_mapping
    rw [hnone] at hsome
    cases hsome
  · have htype := h.mapping _ (Published.mem_of_lookup hv) rfl
    obtain ⟨object, hobject, hplain, hvalid⟩ := builds_mapping htransformer htype
    rw [convert_runtimeDataSource, hobject] at hok
    cases hok
    exact ⟨v, v', hv, hv', hplain, hvalid⟩

/-- Every filter is in its place. -/
theorem filter_in_place (htransformer : ClassTransformer (Models.properties common) plainToClass)
    (h : RuntimeDatasource common plainToClass fields)
    (hconverted : List.Forall₂
      (fun a b => convert plainToClass (Models.runtimeDataSource common) a = .ok b) fields fields')
    (i : Nat) :
    (Instance.object (some ModelClass.runtimeDataSource) fields').toPlain.at? (filterPath i) =
      (JsonTree.object fields).at? (filterPath i) := by
  obtain ⟨v, v', hv, hv', hplain, -⟩ := exists_mapping htransformer h hconverted
  rw [Instance.toPlain, filterPath, JsonTree.at?_key, JsonTree.at?_key, Instance.lookup_plainFields,
    hv, hv', Option.map_some, hplain]

/-- A data source is as good as its mapping. -/
theorem isValid_runtimeDataSource_iff
    (htransformer : ClassTransformer (Models.properties common) plainToClass)
    (h : RuntimeDatasource common plainToClass fields)
    (hconverted : List.Forall₂
      (fun a b => convert plainToClass (Models.runtimeDataSource common) a = .ok b) fields fields') :
    isValid (Models.properties common) (.object (some .runtimeDataSource) fields') = true ↔
      NoIncludeFailed fields := by
  obtain ⟨v, v', hv, hv', -, hvalid⟩ := exists_mapping htransformer h hconverted
  have hpasses : Models.mapping.passes fields'
      (nestedValid (Models.properties common) (fields'.lookup Models.mapping.name)) = true ↔
      NoIncludeFailed fields := by
    rw [passes_nested rfl]
    show nestedValid _ (fields'.lookup "mapping") = true ↔ _
    rw [hv', nestedValid, Option.all_some, hvalid]
    simp only [NoIncludeFailed, filterPath, List.cons_append, List.nil_append,
      JsonTree.at?_key _ _ fields, hv, Option.bind_some]
  have hdeclared := (declared_iff_of_convert hconverted).mpr (declares_runtimeDataSource h)
  rw [isValid_object_iff, ← hpasses]
  constructor
  · intro hall
    exact hall.2 _ List.mem_cons_self
  · intro hmapping
    exact ⟨hdeclared, List.forall_mem_cons.mpr ⟨hmapping, h.others_pass fields' hconverted⟩⟩

end

end

/-- **When a data source of the published types passes validation, with its filters untouched.** -/
theorem accepted_iff {common : CommonModels}
    {plainToClass : ModelClass → Json → Except String (Instance ModelClass)}
    {validateSync : Instance ModelClass → List String × Instance ModelClass}
    (htransformer : ClassTransformer (Models.properties common) plainToClass)
    (hvalidator : ClassValidator (Models.properties common) validateSync)
    {fields : List (String × Json)} (h : RuntimeDatasource common plainToClass fields) :
    Accepted plainToClass validateSync fields ↔ NoIncludeFailed fields := by
  obtain ⟨fields', hfields', hconverted⟩ := exists_converted htransformer h
  have hbuilt : plainToClass .runtimeDataSource (.object fields) =
      .ok (.object (some .runtimeDataSource) fields') := by
    rw [htransformer]
    show (fields.mapM (convert plainToClass (Models.runtimeDataSource common))).map _ = _
    rw [hfields']
    rfl
  rw [← isValid_runtimeDataSource_iff htransformer h hconverted, ← hvalidator.accepts_iff]
  constructor
  · rintro ⟨object, after, hobject, hvalidate, -⟩
    cases hbuilt.symm.trans hobject
    rw [(SolanaRuntimeDataSourceImpl.validate_eq_ok_iff validateSync).mp hvalidate]
  · intro haccepts
    refine ⟨_, _, hbuilt, (SolanaRuntimeDataSourceImpl.validate_eq_ok_iff validateSync).mpr ?_,
      filter_in_place htransformer h hconverted⟩
    exact Prod.ext haccepts (hvalidator.keeps _ haccepts)

/-! ## A filter with `includeFailed` -/

namespace Misspelled

/-- Nothing is inherited. -/
def common : CommonModels := ⟨[], []⟩

/-- The packages. An instance of a class is built of instances of classes further down, so four levels
are enough. -/
def level : Nat → ModelClass → Json → Except String (Instance ModelClass)
  | n + 1, c, .object fields =>
    (fields.mapM (convert (level n) (Models.properties common c))).map (.object (some c))
  | _, _, v => .ok (.copy v)

def plainToClass : ModelClass → Json → Except String (Instance ModelClass) := level 4

def validateSync (object : Instance ModelClass) : List String × Instance ModelClass :=
  if isValid (Models.properties common) object then ([], object)
  else (["An instance of a class has failed the validation"], object)

def rank : ModelClass → Nat
  | .runtimeDataSource => 3
  | .solanaMapping => 2
  | .blockHandler | .transactionHandler | .instructionHandler | .logHandler => 1
  | _ => 0

section

variable {f g : ModelClass → Json → Except String (Instance ModelClass)}

/-- What the callback builds is of the classes of handlers. -/
theorem transformHandlers_congr (h : ∀ c, rank c < 2 → f c = g c) :
    Models.transformHandlers f = Models.transformHandlers g := by
  have hkind : Models.handlerOfKind f = Models.handlerOfKind g := by
    funext handler
    unfold Models.handlerOfKind
    rw [h .logHandler (by decide), h .instructionHandler (by decide),
      h .transactionHandler (by decide), h .blockHandler (by decide)]
  funext v
  unfold Models.transformHandlers
  rw [hkind]

/-- What is built for a property is of classes further down. -/
theorem apply_congr {c : ModelClass} (h : ∀ c', rank c' < rank c → f c' = g c')
    {p : Property ModelClass} (hp : p ∈ Models.properties common c) (v : Json) :
    p.conversion.apply f v = p.conversion.apply g v := by
  cases c with
  | blockFilter => cases hp
  | transactionFilter | instructionFilter | logFilter | fileReference =>
    simp only [Models.properties, Models.transactionFilter, Models.instructionFilter,
      Models.logFilter, Models.fileReference, Models.programId, List.mem_cons, List.not_mem_nil,
      or_false] at hp
    rcases hp with rfl | rfl | rfl | rfl <;> rfl
  | blockHandler | transactionHandler | instructionHandler | logHandler =>
    simp only [Models.properties, Models.blockHandler, Models.transactionHandler,
      Models.instructionHandler, Models.logHandler, Models.handler, List.mem_cons,
      List.not_mem_nil, or_false] at hp
    rcases hp with rfl | rfl | rfl
    · exact congrFun (h _ (by decide)) v
    · rfl
    · rfl
  | solanaMapping =>
    rcases List.mem_pair.mp hp with rfl | rfl
    · exact congrFun (transformHandlers_congr h) v
    · rfl
  | runtimeDataSource =>
    simp only [Models.properties, Models.runtimeDataSource, Models.otherProperties, Models.mapping,
      common, List.append_nil, List.mem_cons, List.not_mem_nil, or_false] at hp
    rcases hp with rfl | rfl | rfl
    · exact congrFun (h .solanaMapping (by decide)) v
    · rfl
    · simp only [Conversion.apply, h .fileReference (by decide)]

end

/-- What is there of an instance does not depend on the levels, if there are enough. -/
theorem level_eq {n k : Nat} {c : ModelClass} (hn : rank c < n) (hk : rank c < k) :
    level n c = level k c := by
  induction n generalizing k c with
  | zero => cases hn
  | succ n ih =>
    cases k with
    | zero => cases hk
    | succ k =>
      have hbelow : ∀ c', rank c' < rank c → level n c' = level k c' := fun c' hc' =>
        ih (by omega) (by omega)
      funext v
      cases v with
      | leaf s => rfl
      | array items => rfl
      | object fields =>
        have hconvert : convert (level n) (Models.properties common c) =
            convert (level k) (Models.properties common c) := by
          funext field
          unfold convert
          split
          · rfl
          · next p hp => rw [apply_congr hbelow (List.mem_of_find?_eq_some hp)]
        rw [level, level, hconvert]

theorem transformer : ClassTransformer (Models.properties common) plainToClass := by
  intro c fields
  have hrank : rank c < 4 := by cases c <;> decide
  rw [plainToClass, level_eq hrank (Nat.lt_succ_of_lt hrank), level]

theorem validator : ClassValidator (Models.properties common) validateSync where
  accepts_iff object := by
    unfold validateSync
    split <;> simp_all
  keeps object _ := by
    unfold validateSync
    split <;> rfl

/-- A handler of instructions. -/
def handler (filter : List (String × Json)) : Json :=
  .object
    [("kind", .leaf (.string "solana/InstructionHandler")), ("handler", .leaf (.string "handleClaim")),
     ("filter", .object filter)]

/-- A data source with this handler. -/
def dataSource (filter : List (String × Json)) : List (String × Json) :=
  [("kind", .leaf (.string "solana/Runtime")),
   ("mapping", .object
     [("file", .leaf (.string "./dist/index.js")), ("handlers", .array [handler filter])])]

section

variable {filter : List (String × Json)}

theorem isRuntimeHandler_handler (h : Published.isInstructionFilter (.object filter) = true) :
    Published.isRuntimeHandler (handler filter) = true := by
  have hkind : SolanaHandlerKind.instruction.text = "solana/InstructionHandler" := rfl
  have hhandler :
      Published.isHandler .instruction Published.isInstructionFilter (handler filter) = true := by
    simp [handler, Published.isHandler, Published.hasOnly, Published.isKind, Published.isText,
      List.lookup_cons, hkind, h]
  rw [Published.isRuntimeHandler, hhandler, Bool.or_true, Bool.true_or]

/-- The properties of the data source besides its mapping are copied. -/
theorem lookup_dataSource {fields' : List (String × Instance ModelClass)}
    (h : List.Forall₂ (fun a b => convert plainToClass (Models.runtimeDataSource common) a = .ok b)
      (dataSource filter) fields') :
    fields'.lookup "kind" = some (.scalar (.string "solana/Runtime")) ∧
      fields'.lookup "assets" = none := by
  constructor
  · rw [lookup_copied h (by rintro p ⟨⟩; rfl)]
    rfl
  · rcases lookup_of_convert h "assets" with ⟨-, hnone⟩ | ⟨v, -, hv, -⟩
    · exact hnone
    · cases hv

theorem runtimeDatasource_dataSource
    (h : Published.isInstructionFilter (.object filter) = true) :
    RuntimeDatasource common plainToClass (dataSource filter) where
  has_mapping := rfl
  mapping := by
    intro field hfield hname
    rcases List.mem_pair.mp hfield with rfl | rfl
    · simp at hname
    · simp [Published.isMapping, Published.hasOnly, Published.isHandlers, Published.isText,
        List.lookup_cons, isRuntimeHandler_handler h]
  others := by
    intro field hfield hname
    rcases List.mem_pair.mp hfield with rfl | rfl
    · exact ⟨rfl, _, rfl⟩
    · exact absurd rfl hname
  others_pass := by
    intro fields' hconverted p hp
    obtain ⟨hkind, hassets⟩ := lookup_dataSource hconverted
    simp only [Models.otherProperties, common, List.append_nil] at hp
    rcases List.mem_pair.mp hp with rfl | rfl
    · simp [Property.passes, Decorator.skips, Decorator.holds, hkind]
    · simp [Property.passes, Decorator.skips, isAbsent, hassets]

end

def discriminatorFilter : List (String × Json) :=
  [("accounts", .array [.leaf .null, .array [.leaf (.string "owner")]]),
   ("discriminator", .leaf (.string "claimToken")),
   ("programId", .leaf (.string "C1aim"))]

theorem accepted_discriminatorFilter :
    Accepted plainToClass validateSync (dataSource discriminatorFilter) := by
  refine (accepted_iff transformer validator (runtimeDatasource_dataSource rfl)).mpr fun i => ?_
  rcases i with _ | i <;> rfl

def failedFilter : List (String × Json) :=
  [("programId", .leaf (.string "C1aim")), ("includeFailed", .leaf (.bool true))]

/-- **A filter that asks for failed transactions too is rejected.** -/
theorem failedFilter_is_rejected :
    ¬∀ (common : CommonModels)
      (plainToClass : ModelClass → Json → Except String (Instance ModelClass))
      (validateSync : Instance ModelClass → List String × Instance ModelClass),
      ClassTransformer (Models.properties common) plainToClass →
      ClassValidator (Models.properties common) validateSync →
      ∀ fields, RuntimeDatasource common plainToClass fields →
        Accepted plainToClass validateSync fields := by
  intro hall
  obtain ⟨object, after, hobject, hvalidate, -⟩ := hall common plainToClass validateSync transformer
    validator (dataSource failedFilter) (runtimeDatasource_dataSource rfl)
  have hinvalid : (plainToClass .runtimeDataSource (.object (dataSource failedFilter))).map
      (isValid (Models.properties common)) = .ok false := rfl
  rw [hobject] at hinvalid
  have hresult := (SolanaRuntimeDataSourceImpl.validate_eq_ok_iff validateSync).mp hvalidate
  have haccepts := (validator.accepts_iff object).mp (congrArg Prod.fst hresult)
  rw [Except.map, haccepts] at hinvalid
  cases hinvalid

end Misspelled

end SubqlSolana
