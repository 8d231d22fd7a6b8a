import SubqlSolana.Lib.Stripped
import SubqlSolana.Project.Validation

/-!
# Data sources that are made while indexing

`updateDynamicDs` (`blockchain.service.ts`) makes a data source of a template and of arguments that a
handler has given: it spreads the arguments over the filter of every handler, and validates an instance
that is built of the result. The validator is told to take away what is not declared, and rejects nothing
for that; but what it takes away is taken from the instance, and the data source is the plain object.

So a data source is made of a template **exactly if the arguments leave each filter with what is asked of
its kind (`FilterTyped`); and it has all the arguments then, declared or not**
(`updateDynamicDs_eq_ok_iff`). Block handlers are never the reason for an error: nothing looks into their
filters. Nor is the program of an instruction filter without a discriminator.
-/

set_option autoImplicit false

namespace SubqlSolana

open Lib

namespace Dynamic

/-! ## The method -/

/-- The properties of an object. -/
abbrev Fields : Type := List (String × Json)

/-- `{...fields, ...args}`: what is overwritten stays in its place. -/
def spread (fields args : Fields) : Fields :=
  (fields.map fun field => (field.1, (args.lookup field.1).getD field.2)) ++
    args.filter fun arg => (fields.lookup arg.1).isNone

/-- What is spread of `handler.filter`. -/
def filterOf (handler : Fields) : Fields :=
  match handler.lookup "filter" with
  | some (.object fields) => fields
  | _ => []

/-- `{...handler, filter: {...handler.filter, ...args}}`. -/
def mergeHandler (args : Fields) : Json → Json
  | .object handler => .object (spread handler [("filter", .object (spread (filterOf handler) args))])
  | v => v

def overwriteField (name : String) (f : Json → Json) (field : String × Json) : String × Json :=
  (field.1, if field.1 = name then f field.2 else field.2)

/-- `object[name] = f(object[name])`, if there is such a property. -/
def overwrite (name : String) (f : Json → Json) : Json → Json
  | .object fields => .object (fields.map (overwriteField name f))
  | v => v

def mergeHandlers (args : Fields) : Json → Json
  | .array handlers => .array (handlers.map (mergeHandler args))
  | v => v

/-- `dsObj` after its handlers have been assigned. -/
def mergeArgs (args : Fields) (dsObj : Json) : Json :=
  overwrite "mapping" (overwrite "handlers" (mergeHandlers args)) dsObj

def isTruthy : Json → Bool
  | .leaf (.bool b) => b
  | .leaf (.string s) => s ≠ ""
  | .leaf (.number (.integer n)) => n ≠ 0
  | .leaf .null => false
  | _ => true

def isRuntimeDs (dsObj : Json) : Bool := Models.kindOf dsObj = some "solana/Runtime"

def isCustomDs (dsObj : Json) : Bool :=
  !isRuntimeDs dsObj && (dsObj.at? [.key "processor"]).any isTruthy

/-- `dsObj.processor` with the arguments among its options. -/
def mergeOptions (args : Fields) : Json → Json
  | .object processor =>
    let options := match processor.lookup "options" with
      | some (.object fields) => fields
      | _ => []
    .object (spread processor [("options", .object (spread options args))])
  | v => v

def updateDynamicDs (plainToClass : ModelClass → Json → Except String (Instance ModelClass))
    (validateSync : Instance ModelClass → List String) (args : Option Fields) (dsObj : Json) :
    Except String Json := do
  let args := args.getD []
  if isCustomDs dsObj then
    pure (overwrite "processor" (mergeOptions args) dsObj)
  else if isRuntimeDs dsObj then
    let dsObj := mergeArgs args dsObj
    let parsedDs ← plainToClass .runtimeDataSource dsObj
    match validateSync parsedDs with
    | [] => pure dsObj
    | errors => throw ("Dynamic ds is invalid\n" ++ String.intercalate "\n" errors)
  else pure dsObj

/-! ## What is expected of a filter -/

/-- A property that is not there, or `null`, or of this type. -/
def optional (isType : Json → Bool) (fields : Fields) (name : String) : Prop :=
  ∀ v, fields.lookup name = some v → v = .leaf .null ∨ isType v = true

def isArray : Json → Bool
  | .array _ => true
  | _ => false

/-- What is asked of a filter for handlers of this kind: nothing of one for blocks; of one for
instructions, a program if there is a discriminator, whatever that is, and nothing of the program
otherwise. -/
def FilterTyped : SolanaHandlerKind → Fields → Prop
  | .block, _ => True
  | .transaction, filter => optional Published.isText filter "signerAccountKey"
  | .instruction, filter =>
    ((filter.lookup "discriminator").isSome →
      ∃ programId, filter.lookup "programId" = some programId ∧ Published.isText programId = true) ∧
    optional Published.isText filter "discriminator" ∧ optional isArray filter "accounts" ∧
    optional Published.isFlag filter "includeFalied"
  | .log, filter => optional Published.isText filter "programId"

/-! ## Templates -/

/-- An object with a kind that handlers have, and with the name of a function. Its filter is not
restricted. -/
structure TemplateHandler (kind : SolanaHandlerKind) (fields : Fields) : Prop where
  kind : fields.lookup "kind" = some (.leaf (.string kind.text))
  handler : ∃ v, fields.lookup "handler" = some v ∧ Published.isText v = true

/-- A handler of a template with arguments that leave its filter as it is declared. -/
def HandlerTyped (args : Fields) (handler : Json) : Prop :=
  ∀ kind fields, handler = .object fields → TemplateHandler kind fields →
    FilterTyped kind (spread (filterOf fields) args)

/-- A file, and these handlers. -/
structure TemplateMapping (handlers : List Json) (mapping : Json) : Prop where
  isObject : ∃ fields, mapping = .object fields ∧ (fields.lookup "handlers").isSome ∧
    (∀ field ∈ fields, field.1 = "handlers" → field.2 = .array handlers) ∧
    ∃ v, fields.lookup "file" = some v ∧ Published.isText v = true

/-- A data source with these handlers, whose properties besides its mapping are valid. -/
structure Template (common : CommonModels)
    (plainToClass : ModelClass → Json → Except String (Instance ModelClass))
    (handlers : List Json) (fields : Fields) : Prop where
  kind : Models.kindOf (.object fields) = some "solana/Runtime"
  isHandler : ∀ handler ∈ handlers, ∃ kind own, handler = .object own ∧ TemplateHandler kind own
  has_mapping : (fields.lookup "mapping").isSome
  mapping : ∀ field ∈ fields, field.1 = "mapping" → TemplateMapping handlers field.2
  others : ∀ field ∈ fields, field.1 ≠ "mapping" →
    ∃ v', convert plainToClass (Models.runtimeDataSource common) field = .ok (field.1, v') ∧
      v'.toPlain = field.2
  /-- Whatever is written over the mapping. -/
  others_pass : ∀ (f : Json → Json) (fields' : List (String × Instance ModelClass)),
    List.Forall₂ (fun a b => convert plainToClass (Models.runtimeDataSource common) a = .ok b)
      (fields.map (overwriteField "mapping" f)) fields' →
    ∀ p ∈ Models.otherProperties common,
      p.passes (kept (Models.runtimeDataSource common) fields')
        (nestedSound (Models.properties common) (fields'.lookup p.name)) = true

/-! ## Properties of merged objects -/

section

variable {fields args : Fields}

theorem lookup_spread (name : String) :
    (spread fields args).lookup name = (args.lookup name).or (fields.lookup name) := by
  have hmap := lookup_map_named (fun name v => (args.lookup name).getD v) fields name
  have hfilter := lookup_filter_name (fun name => (fields.lookup name).isNone) args name
  rw [spread, List.lookup_append, hmap, hfilter]
  cases fields.lookup name <;> cases args.lookup name <;> rfl

/-- Overwriting one property leaves the others. -/
theorem lookup_overwriteField (name : String) (f : Json → Json) (other : String) :
    (fields.map (overwriteField name f)).lookup other =
      (fields.lookup other).map fun v => if other = name then f v else v :=
  lookup_map_named (fun other v => if other = name then f v else v) fields other

end

/-! ## Filters -/

section

variable {common : CommonModels}
  {plainToClass : ModelClass → Json → Except String (Instance ModelClass)}

/-- An instance is built without a loss, and it is sound on this condition. -/
def BuildsSound (common : CommonModels) (result : Except String (Instance ModelClass)) (json : Json)
    (P : Prop) : Prop :=
  ∃ object, result = .ok object ∧ object.toPlain = json ∧
    (isSound (Models.properties common) object = true ↔ P)

section

variable {fields : Fields} {fields' : List (String × Instance ModelClass)}

theorem isAbsent_copy {v : Json} :
    isAbsent (some (.copy v : Instance ModelClass)) = true ↔ v = .leaf .null := by
  cases v with
  | leaf s => cases s <;> simp [Instance.copy, isAbsent]
  | array items => simp [Instance.copy, isAbsent]
  | object fields => simp [Instance.copy, isAbsent]

/-- An optional property of a filter that was copied passes if it has the type that its decorator asks
for. -/
theorem passes_optional_copied_iff (properties : List (Property ModelClass)) (p : Property ModelClass)
    {d : Decorator ModelClass} {isType : Json → Bool} (hp : p.decorators = [.isOptional, d])
    (hdeclared : declares properties p.name = true)
    (hlookup : ∀ name, fields'.lookup name = (fields.lookup name).map .copy)
    (hskips : ∀ value, d.skips (kept properties fields') value = false)
    (hholds : ∀ v nested, d.holds (some (.copy v)) nested = isType v) (nested : Bool) :
    p.passes (kept properties fields') nested = true ↔ optional isType fields p.name := by
  have hkept := (lookup_kept hdeclared fields').trans (hlookup p.name)
  rw [passes_optional_iff hp (hskips _), hkept]
  unfold optional
  cases fields.lookup p.name with
  | none => simp [isAbsent]
  | some v =>
    simp only [Option.map_some, Option.some.injEq, forall_eq', isAbsent_copy, hholds]

theorem holds_isString_copy (v : Json) (nested : Bool) :
    (Decorator.isString : Decorator ModelClass).holds (some (.copy v)) nested =
      Published.isText v := by
  cases v with
  | leaf s => cases s <;> rfl
  | array items => rfl
  | object fields => rfl

theorem holds_isArray_copy (v : Json) (nested : Bool) :
    (Decorator.isArray : Decorator ModelClass).holds (some (.copy v)) nested = isArray v := by
  cases v <;> rfl

theorem holds_isBoolean_copy (v : Json) (nested : Bool) :
    (Decorator.isBoolean : Decorator ModelClass).holds (some (.copy v)) nested =
      Published.isFlag v := by
  cases v with
  | leaf s => cases s <;> rfl
  | array items => rfl
  | object fields => rfl

/-- A discriminator, whatever it is, asks for a program. -/
theorem passes_programId_copied_iff
    (hlookup : ∀ name, fields'.lookup name = (fields.lookup name).map .copy) (nested : Bool) :
    Models.programId.passes (kept Models.instructionFilter fields') nested = true ↔
      ((fields.lookup "discriminator").isSome → ∃ programId,
        fields.lookup "programId" = some programId ∧ Published.isText programId = true) := by
  have hkept : ∀ name, declares Models.instructionFilter name = true →
      (kept Models.instructionFilter fields').lookup name = (fields.lookup name).map .copy :=
    fun name hname => (lookup_kept hname fields').trans (hlookup name)
  have hdiscriminator := hkept "discriminator" rfl
  have hprogramId := hkept "programId" rfl
  have hpasses : Models.programId.passes (kept Models.instructionFilter fields') nested =
      ((fields.lookup "discriminator").isNone ||
        (!isAbsent ((fields.lookup "programId").map .copy : Option (Instance ModelClass)) &&
          (Decorator.isString : Decorator ModelClass).holds
            ((fields.lookup "programId").map .copy) nested)) := by
    unfold Property.passes Models.programId
    simp only [List.any_cons, List.any_nil, List.all_cons, List.all_nil, Decorator.skips,
      Bool.or_false, Bool.and_true, hdiscriminator, hprogramId, Option.isSome_map]
    cases fields.lookup "discriminator" <;> rfl
  rw [hpasses]
  cases fields.lookup "discriminator" with
  | none => simp
  | some discriminator =>
    cases fields.lookup "programId" with
    | none => simp [isAbsent]
    | some programId =>
      have htext := holds_isString_copy programId nested
      have habsent : Published.isText programId = true →
          isAbsent (some (.copy programId : Instance ModelClass)) = false := by
        intro h
        rw [Bool.eq_false_iff]
        intro habsent
        rw [isAbsent_copy.mp habsent] at h
        cases h
      simpa [htext] using habsent

end

/-! ## Handlers -/

def filterClass : SolanaHandlerKind → ModelClass
  | .block => .blockFilter
  | .transaction => .transactionFilter
  | .instruction => .instructionFilter
  | .log => .logFilter

def handlerClass : SolanaHandlerKind → ModelClass
  | .block => .blockHandler
  | .transaction => .transactionHandler
  | .instruction => .instructionHandler
  | .log => .logHandler

def filterDecorators : SolanaHandlerKind → List (Decorator ModelClass)
  | .block => [.isObject, .isOptional]
  | _ => [.isOptional, .validateNested]

theorem properties_handlerClass (common : CommonModels) (kind : SolanaHandlerKind) :
    Models.properties common (handlerClass kind) =
      Models.handler (filterClass kind) (filterDecorators kind) := by
  cases kind <;> rfl

theorem handlerOfKind_eq {kind : SolanaHandlerKind} {handler : Json}
    (h : Models.kindOf handler = some kind.text) :
    Models.handlerOfKind plainToClass handler = plainToClass (handlerClass kind) handler := by
  unfold Models.handlerOfKind
  rw [h]
  cases kind <;> rfl

/-- The filters that are validated are sound if their properties have the declared types. -/
theorem isSound_filter_iff {kind : SolanaHandlerKind} (hkind : kind ≠ .block) {fields : Fields}
    {fields' : List (String × Instance ModelClass)}
    (hlookup : ∀ name, fields'.lookup name = (fields.lookup name).map .copy) :
    isSound (Models.properties common) (.object (some (filterClass kind)) fields') = true ↔
      FilterTyped kind fields := by
  rw [isSound_object_iff]
  cases kind with
  | block => exact absurd rfl hkind
  | transaction =>
    have hpasses := passes_optional_copied_iff Models.transactionFilter
      { name := "signerAccountKey", decorators := [.isOptional, .isString] } rfl rfl hlookup
      (fun _ => rfl) holds_isString_copy
    exact List.forall_mem_singleton.trans (hpasses _)
  | log =>
    have hpasses := passes_optional_copied_iff Models.logFilter
      { name := "programId", decorators := [.isOptional, .isString] } rfl rfl hlookup
      (fun _ => rfl) holds_isString_copy
    exact List.forall_mem_singleton.trans (hpasses _)
  | instruction =>
    have hdiscriminator := passes_optional_copied_iff Models.instructionFilter
      { name := "discriminator", decorators := [.isOptional, .isString] } rfl rfl hlookup
      (fun _ => rfl) holds_isString_copy
    have haccounts := passes_optional_copied_iff Models.instructionFilter
      { name := "accounts", decorators := [.isOptional, .isArray] } rfl rfl hlookup
      (fun _ => rfl) holds_isArray_copy
    have hflag := passes_optional_copied_iff Models.instructionFilter
      { name := "includeFalied", decorators := [.isOptional, .isBoolean] } rfl rfl hlookup
      (fun _ => rfl) holds_isBoolean_copy
    show (∀ p ∈ Models.instructionFilter, p.passes (kept Models.instructionFilter fields') _ = true) ↔ _
    nth_rewrite 1 [Models.instructionFilter]
    rw [List.forall_mem_cons, List.forall_mem_cons, List.forall_mem_cons, List.forall_mem_singleton,
      passes_programId_copied_iff hlookup, hdiscriminator, haccounts, hflag]
    rfl

section

variable {kind : SolanaHandlerKind} {fields args : Fields}

/-- What is merged into a handler leaves its kind and its function. -/
theorem lookup_mergedHandler {name : String} (hname : name ≠ "filter") (filter : Json) :
    (spread fields [("filter", filter)]).lookup name = fields.lookup name := by
  rw [lookup_spread, lookup_cons_of_ne hname]
  rfl

/-- There is one filter in it. -/
theorem mem_mergedHandler {filter : Json} {field : String × Json}
    (h : field ∈ spread fields [("filter", filter)]) :
    field.1 ≠ "filter" ∨ field = ("filter", filter) := by
  rcases List.mem_append.mp h with h | h
  · obtain ⟨⟨name, v⟩, -, rfl⟩ := List.mem_map.mp h
    by_cases hname : name = "filter"
    · subst hname
      exact .inr rfl
    · exact .inl hname
  · exact .inr (List.mem_singleton.mp (List.mem_of_mem_filter h))

/-- The filter becomes an instance of its class, the rest is copied. -/
theorem convert_mergedHandler (fields : Fields) {filter : Json} {object : Instance ModelClass}
    (hobject : plainToClass (filterClass kind) filter = .ok object) (hplain : object.toPlain = filter) :
    ∀ field ∈ spread fields [("filter", filter)], ∃ v', convert plainToClass
        (Models.handler (filterClass kind) (filterDecorators kind)) field = .ok (field.1, v') ∧
      v'.toPlain = field.2 := by
  intro field hfield
  rcases mem_mergedHandler hfield with hname | rfl
  · refine ⟨.copy field.2, convert_copy fun p hp => ?_, Instance.toPlain_copy _⟩
    have hnot : ¬"filter" = field.1 := fun h => hname h.symm
    rw [Models.handler, List.find?_cons_of_neg (by simpa using hnot)] at hp
    have hmem := List.mem_of_find?_eq_some hp
    rcases List.mem_pair.mp hmem with rfl | rfl <;> rfl
  · refine ⟨object, ?_, hplain⟩
    show (plainToClass (filterClass kind) filter >>= fun v' => pure ("filter", v')) = _
    rw [hobject]
    rfl

/-- What the instance of a handler holds. -/
structure BuiltHandler (kind : SolanaHandlerKind) (own fields' : List (String × Instance ModelClass)) :
    Prop where
  filter : fields'.lookup "filter" = some (.object (some (filterClass kind)) own)
  kind : fields'.lookup "kind" = some (.copy (.leaf (.string kind.text)))
  handler : ∃ v, fields'.lookup "handler" = some (.copy v) ∧ Published.isText v = true

theorem builtHandler_of_merged (h : TemplateHandler kind fields) {filter : Json}
    {own fields' : List (String × Instance ModelClass)}
    (hown : plainToClass (filterClass kind) filter = .ok (.object (some (filterClass kind)) own))
    (hconverted : List.Forall₂ (fun a b =>
      convert plainToClass (Models.handler (filterClass kind) (filterDecorators kind)) a = .ok b)
      (spread fields [("filter", filter)]) fields') : BuiltHandler kind own fields' := by
  have hfilter : convert plainToClass (Models.handler (filterClass kind) (filterDecorators kind))
      ("filter", filter) = .ok ("filter", .object (some (filterClass kind)) own) := by
    show (plainToClass (filterClass kind) filter >>= fun v' => pure ("filter", v')) = _
    rw [hown]
    rfl
  have hothers : ∀ name ∈ ["kind", "handler"], fields'.lookup name = (fields.lookup name).map .copy := by
    intro name hname
    have hne : name ≠ "filter" := by rintro rfl; simp at hname
    rw [← lookup_mergedHandler hne filter]
    refine lookup_copied hconverted ?_
    rcases List.mem_pair.mp hname with rfl | rfl <;> rintro p ⟨⟩ <;> rfl
  refine ⟨lookup_converted hconverted (by rw [lookup_spread]; rfl) hfilter, ?_, ?_⟩
  · rw [hothers "kind" (by simp), h.kind]
    rfl
  · obtain ⟨v, hv, htext⟩ := h.handler
    refine ⟨v, ?_, htext⟩
    rw [hothers "handler" (by simp), hv]
    rfl

/-- The filter of a handler passes if it is sound, or if nothing looks into it. -/
theorem passes_filter_iff {own fields' : List (String × Instance ModelClass)}
    (hkept : fields'.lookup "filter" = some (.object (some (filterClass kind)) own)) (nested : Bool) :
    ({ name := "filter", conversion := .type (filterClass kind),
       decorators := filterDecorators kind } : Property ModelClass).passes fields' nested = true ↔
      kind = .block ∨ nested = true := by
  by_cases hkind : kind = .block
  · subst hkind
    refine iff_of_true ?_ (.inl rfl)
    rw [Property.passes, hkept]
    rfl
  · have hoptional : filterDecorators kind = [.isOptional, .validateNested] := by
      cases kind with
      | block => exact absurd rfl hkind
      | transaction | instruction | log => rfl
    rw [passes_optional_iff hoptional rfl, hkept]
    simp [isAbsent, Decorator.holds, hkind]

/-- A text that was copied. -/
theorem passes_copied_text {fields' : List (String × Instance ModelClass)} {name : String} {v : Json}
    (hkept : fields'.lookup name = some (.copy v)) (htext : Published.isText v = true)
    (nested : Bool) :
    ({ name := name, decorators := [.isString] } : Property ModelClass).passes fields' nested = true := by
  rw [Property.passes, hkept, List.all_cons, holds_isString_copy, htext]
  simp

/-- Block handlers are sound with any filter, the others with a sound one. -/
theorem isSound_builtHandler_iff {own fields' : List (String × Instance ModelClass)}
    (h : BuiltHandler kind own fields') :
    isSound (Models.properties common) (.object (some (handlerClass kind)) fields') = true ↔
      kind = .block ∨
        isSound (Models.properties common) (.object (some (filterClass kind)) own) = true := by
  have hkept : ∀ name ∈ ["filter", "kind", "handler"],
      (kept (Models.handler (filterClass kind) (filterDecorators kind)) fields').lookup name =
        fields'.lookup name := by
    intro name hname
    refine lookup_kept ?_ fields'
    revert name
    cases kind <;> decide
  have hfilter := passes_filter_iff ((hkept "filter" (by simp)).trans h.filter)
  have hnested : nestedSound (Models.properties common) (fields'.lookup "filter") =
      isSound (Models.properties common) (.object (some (filterClass kind)) own) := by
    rw [h.filter, nestedSound, Option.all_some]
  have hkind := (hkept "kind" (by simp)).trans h.kind
  have hmem : kind.text ∈ SolanaHandlerKind.texts := by cases kind <;> decide
  obtain ⟨v, hv, htext⟩ := h.handler
  rw [isSound_object_iff, properties_handlerClass, ← hnested, ← hfilter]
  constructor
  · intro hall
    exact hall _ List.mem_cons_self
  · intro hpasses p hp
    simp only [Models.handler, List.mem_cons, List.not_mem_nil, or_false] at hp
    rcases hp with rfl | rfl | rfl
    · exact hpasses
    · simp [Property.passes, hkind, Decorator.holds, Instance.copy, hmem]
    · exact passes_copied_text ((hkept "handler" (by simp)).trans hv) htext _

/-- **A merged handler is as good as its filter.** -/
theorem builds_mergedHandler (htransformer : ClassTransformer (Models.properties common) plainToClass)
    (hblock : ∀ p ∈ common.blockFilterImpl, p.conversion = .copy) (h : TemplateHandler kind fields)
    (args : Fields) :
    BuildsSound common
      (Models.handlerOfKind plainToClass (mergeHandler args (.object fields)))
      (mergeHandler args (.object fields)) (FilterTyped kind (spread (filterOf fields) args)) := by
  have hcopy : ∀ p ∈ Models.properties common (filterClass kind), p.conversion = .copy := by
    cases kind with
    | block => exact hblock
    | transaction | instruction | log =>
      simp [filterClass, Models.properties, Models.transactionFilter, Models.instructionFilter,
        Models.logFilter, Models.programId]
  obtain ⟨own, hown, hlookup⟩ :=
    exists_copied htransformer hcopy (spread (filterOf fields) args)
  have hconvert := convert_mergedHandler fields hown.result (congrArg JsonTree.object hown.plain)
  rw [← properties_handlerClass common] at hconvert
  obtain ⟨fields', hbuilt⟩ := exists_built htransformer hconvert
  have hkindOf : Models.kindOf (mergeHandler args (.object fields)) = some kind.text := by
    rw [mergeHandler, Models.kindOf, lookup_mergedHandler (by decide), h.kind]
  refine ⟨_, (handlerOfKind_eq hkindOf).trans hbuilt.result,
    congrArg JsonTree.object hbuilt.plain, ?_⟩
  have hconverted := hbuilt.converted
  rw [properties_handlerClass] at hconverted
  rw [isSound_builtHandler_iff (builtHandler_of_merged h hown.result hconverted)]
  by_cases hkind : kind = .block
  · subst hkind
    exact iff_of_true (.inl rfl) trivial
  · rw [or_iff_right hkind]
    exact isSound_filter_iff hkind hlookup

end

/-- Handlers have one kind. -/
theorem handlerTyped_iff {kind : SolanaHandlerKind} {own args : Fields}
    (h : TemplateHandler kind own) : HandlerTyped args (.object own) ↔
      FilterTyped kind (spread (filterOf own) args) := by
  constructor
  · intro htyped
    exact htyped kind own rfl h
  · rintro htyped kind' fields ⟨⟩ h'
    have hkind := h'.kind.symm.trans h.kind
    have htext : kind'.text = kind.text := by simpa using hkind
    obtain rfl : kind' = kind := by revert htext; cases kind' <;> cases kind <;> decide
    exact htyped

/-! ## Mappings -/

section

variable {args : Fields} {handlers : List Json}

/-- All handlers, in order. -/
theorem builds_mergedItems (htransformer : ClassTransformer (Models.properties common) plainToClass)
    (hblock : ∀ p ∈ common.blockFilterImpl, p.conversion = .copy)
    (h : ∀ handler ∈ handlers, ∃ kind own, handler = .object own ∧ TemplateHandler kind own)
    (args : Fields) :
    ∃ objects, (handlers.map (mergeHandler args)).mapM (Models.handlerOfKind plainToClass) =
        .ok objects ∧
      Instance.plainItems objects = handlers.map (mergeHandler args) ∧
      (allSound (Models.properties common) objects = true ↔
        ∀ handler ∈ handlers, HandlerTyped args handler) := by
  induction handlers with
  | nil => exact ⟨[], rfl, rfl, by simp [allSound]⟩
  | cons handler rest ih =>
    rw [List.forall_mem_cons] at h
    obtain ⟨kind, own, rfl, hown⟩ := h.1
    obtain ⟨object, hobject, hplain, hsound⟩ := builds_mergedHandler htransformer hblock hown args
    obtain ⟨objects, hobjects, hplains, hsounds⟩ := ih h.2
    refine ⟨object :: objects, ?_, ?_, ?_⟩
    · rw [List.map_cons, List.mapM_cons, hobject, hobjects]
      rfl
    · rw [Instance.plainItems, hplain, hplains, List.map_cons]
    · rw [allSound, Bool.and_eq_true, hsound, hsounds, List.forall_mem_cons, handlerTyped_iff hown]

theorem builds_mergedHandlers (htransformer : ClassTransformer (Models.properties common) plainToClass)
    (hblock : ∀ p ∈ common.blockFilterImpl, p.conversion = .copy)
    (h : ∀ handler ∈ handlers, ∃ kind own, handler = .object own ∧ TemplateHandler kind own)
    (args : Fields) :
    ∃ objects, Models.transformHandlers plainToClass (mergeHandlers args (.array handlers)) =
        .ok (.array objects) ∧
      (Instance.array objects).toPlain = mergeHandlers args (.array handlers) ∧
      (isSound (Models.properties common) (.array objects) = true ↔
        ∀ handler ∈ handlers, HandlerTyped args handler) := by
  obtain ⟨objects, hobjects, hplain, hsound⟩ := builds_mergedItems htransformer hblock h args
  refine ⟨objects, ?_, congrArg JsonTree.array hplain, ?_⟩
  · rw [mergeHandlers, Models.transformHandlers, hobjects]
    rfl
  · rw [isSound, hsound]

/-- The handlers become instances, the rest is copied. -/
theorem convert_mergedMapping (common : CommonModels) {objects : List (Instance ModelClass)} {fields : Fields}
    (hall : ∀ field ∈ fields, field.1 = "handlers" → field.2 = .array handlers)
    (hobjects : Models.transformHandlers plainToClass (mergeHandlers args (.array handlers)) =
      .ok (.array objects))
    (hplain : (Instance.array objects).toPlain = mergeHandlers args (.array handlers)) :
    ∀ field ∈ fields.map (overwriteField "handlers" (mergeHandlers args)),
      ∃ v', convert plainToClass (Models.properties common .solanaMapping) field =
          .ok (field.1, v') ∧ v'.toPlain = field.2 := by
  intro field hfield
  obtain ⟨field, hmem, rfl⟩ := List.mem_map.mp hfield
  obtain ⟨name, v⟩ := field
  show ∃ v', convert plainToClass Models.solanaMapping _ = _ ∧ _
  by_cases hname : name = "handlers"
  · obtain rfl : v = .array handlers := hall _ hmem hname
    subst hname
    rw [overwriteField, if_pos rfl]
    refine ⟨.array objects, ?_, hplain⟩
    rw [convert_handlers, hobjects]
    rfl
  · rw [overwriteField, if_neg hname]
    refine ⟨.copy v, convert_copy fun p hp => ?_, Instance.toPlain_copy v⟩
    have hnot : ¬"handlers" = name := fun h => hname h.symm
    rw [Models.solanaMapping, List.find?_cons_of_neg (by simpa using hnot)] at hp
    obtain rfl := List.mem_singleton.mp (List.mem_of_find?_eq_some hp)
    rfl

/-- A mapping with a file is sound with sound handlers. -/
theorem isSound_builtMapping_iff {objects : List (Instance ModelClass)}
    {fields' : List (String × Instance ModelClass)}
    (hhandlers : fields'.lookup "handlers" = some (.array objects)) {v : Json}
    (hfile : fields'.lookup "file" = some (.copy v)) (htext : Published.isText v = true) :
    isSound (Models.properties common) (.object (some .solanaMapping) fields') = true ↔
      isSound (Models.properties common) (.array objects) = true := by
  have hkept : ∀ name, declares Models.solanaMapping name = true →
      (kept Models.solanaMapping fields').lookup name = fields'.lookup name :=
    fun name hname => lookup_kept hname fields'
  have hpasses : ∀ nested : Bool,
      ({ name := "handlers", conversion := .transform Models.transformHandlers,
         decorators := [.isArray, .validateNested] } : Property ModelClass).passes
        (kept Models.solanaMapping fields') nested = nested := by
    intro nested
    rw [Property.passes, hkept "handlers" rfl, hhandlers]
    cases nested <;> rfl
  have hnested : nestedSound (Models.properties common) (fields'.lookup "handlers") =
      isSound (Models.properties common) (.array objects) := by
    rw [hhandlers, nestedSound, Option.all_some]
  rw [isSound_object_iff, ← hnested]
  show (∀ p ∈ Models.solanaMapping, p.passes (kept Models.solanaMapping fields') _ = true) ↔ _
  constructor
  · intro hall
    have hfirst := hall _ List.mem_cons_self
    rw [hpasses] at hfirst
    exact hfirst
  · intro hsound p hp
    rcases List.mem_pair.mp hp with rfl | rfl
    · rw [hpasses]
      exact hsound
    · exact passes_copied_text ((hkept "file" rfl).trans hfile) htext _

/-- **A merged mapping is as good as its handlers.** -/
theorem builds_mergedMapping (htransformer : ClassTransformer (Models.properties common) plainToClass)
    (hblock : ∀ p ∈ common.blockFilterImpl, p.conversion = .copy)
    (h : ∀ handler ∈ handlers, ∃ kind own, handler = .object own ∧ TemplateHandler kind own)
    (mapping : Json) (hmapping : TemplateMapping handlers mapping) (args : Fields) :
    BuildsSound common
      (plainToClass .solanaMapping (overwrite "handlers" (mergeHandlers args) mapping))
      (overwrite "handlers" (mergeHandlers args) mapping)
      (∀ handler ∈ handlers, HandlerTyped args handler) := by
  obtain ⟨fields, rfl, hhas, hall, file, hfile, htext⟩ := hmapping.isObject
  obtain ⟨objects, hobjects, hplain, hsound⟩ := builds_mergedHandlers htransformer hblock h args
  have hconvert := convert_mergedMapping common hall hobjects hplain
  obtain ⟨fields', hbuilt⟩ := exists_built htransformer hconvert
  refine ⟨_, hbuilt.result, congrArg JsonTree.object hbuilt.plain, ?_⟩
  obtain ⟨v, hv⟩ := Option.isSome_iff_exists.mp hhas
  obtain rfl : v = .array handlers := hall _ (Published.mem_of_lookup hv) rfl
  have hconverted : convert plainToClass Models.solanaMapping
      ("handlers", mergeHandlers args (.array handlers)) = .ok ("handlers", .array objects) := by
    rw [convert_handlers, hobjects]
    rfl
  have hhandlers := lookup_converted hbuilt.converted
    (by rw [lookup_overwriteField, hv, Option.map_some, if_pos rfl]) hconverted
  have hfile' : fields'.lookup "file" = some (.copy file) := by
    have hcopied : fields'.lookup "file" = _ := lookup_copied hbuilt.converted (by rintro p ⟨⟩; rfl)
    rw [hcopied, lookup_overwriteField, hfile]
    rfl
  rw [← hsound]
  exact isSound_builtMapping_iff hhandlers hfile' htext

end

/-! ## Data sources -/

section

variable {handlers : List Json} {fields : Fields}

/-- The mapping becomes an instance, the rest is converted as it was. -/
theorem convert_mergedDataSource
    (htransformer : ClassTransformer (Models.properties common) plainToClass)
    (hblock : ∀ p ∈ common.blockFilterImpl, p.conversion = .copy)
    (h : Template common plainToClass handlers fields) (args : Fields) :
    ∀ field ∈ fields.map (overwriteField "mapping" (overwrite "handlers" (mergeHandlers args))),
      ∃ v', convert plainToClass (Models.properties common .runtimeDataSource) field =
          .ok (field.1, v') ∧ v'.toPlain = field.2 := by
  intro field hfield
  obtain ⟨field, hmem, rfl⟩ := List.mem_map.mp hfield
  obtain ⟨name, v⟩ := field
  by_cases hname : name = "mapping"
  · obtain ⟨object, hobject, hplain, -⟩ :=
      builds_mergedMapping htransformer hblock h.isHandler v (h.mapping _ hmem hname) args
    subst hname
    rw [overwriteField, if_pos rfl]
    refine ⟨object, ?_, hplain⟩
    show convert plainToClass (Models.runtimeDataSource common) _ = _
    rw [convert_runtimeDataSource, hobject]
    rfl
  · rw [overwriteField, if_neg hname]
    exact h.others _ hmem hname

/-- A data source whose other properties are valid is sound with a sound mapping. -/
theorem isSound_builtDataSource_iff {fields' : List (String × Instance ModelClass)}
    (hothers : ∀ p ∈ Models.otherProperties common,
      p.passes (kept (Models.runtimeDataSource common) fields')
        (nestedSound (Models.properties common) (fields'.lookup p.name)) = true) :
    isSound (Models.properties common) (.object (some .runtimeDataSource) fields') = true ↔
      nestedSound (Models.properties common) (fields'.lookup "mapping") = true := by
  have hpasses : ∀ nested : Bool,
      Models.mapping.passes (kept (Models.runtimeDataSource common) fields') nested = nested := by
    intro nested
    simp [Property.passes, Models.mapping, Decorator.skips, Decorator.holds]
  rw [isSound_object_iff]
  show (∀ p ∈ Models.runtimeDataSource common,
    p.passes (kept (Models.runtimeDataSource common) fields') _ = true) ↔ _
  constructor
  · intro hall
    have hfirst := hall _ List.mem_cons_self
    rw [hpasses] at hfirst
    exact hfirst
  · intro hsound
    refine List.forall_mem_cons.mpr ⟨?_, hothers⟩
    rw [hpasses]
    exact hsound

/-- **A merged data source is as good as its handlers.** -/
theorem builds_mergedDataSource
    (htransformer : ClassTransformer (Models.properties common) plainToClass)
    (hblock : ∀ p ∈ common.blockFilterImpl, p.conversion = .copy)
    (h : Template common plainToClass handlers fields) (args : Fields) :
    BuildsSound common (plainToClass .runtimeDataSource (mergeArgs args (.object fields)))
      (mergeArgs args (.object fields)) (∀ handler ∈ handlers, HandlerTyped args handler) := by
  obtain ⟨fields', hbuilt⟩ :=
    exists_built htransformer (convert_mergedDataSource htransformer hblock h args)
  refine ⟨_, hbuilt.result, congrArg JsonTree.object hbuilt.plain, ?_⟩
  obtain ⟨v, hv⟩ := Option.isSome_iff_exists.mp h.has_mapping
  obtain ⟨object, hobject, -, hsound⟩ := builds_mergedMapping htransformer hblock h.isHandler v
    (h.mapping _ (Published.mem_of_lookup hv) rfl) args
  have hconverted : convert plainToClass (Models.runtimeDataSource common)
      ("mapping", overwrite "handlers" (mergeHandlers args) v) = .ok ("mapping", object) := by
    rw [convert_runtimeDataSource, hobject]
    rfl
  have hmapping := lookup_converted hbuilt.converted
    (by rw [lookup_overwriteField, hv, Option.map_some, if_pos rfl]) hconverted
  rw [isSound_builtDataSource_iff (h.others_pass _ _ hbuilt.converted), hmapping, nestedSound,
    Option.all_some, hsound]

/-- **When a data source can be made of a template.** -/
theorem updateDynamicDs_eq_ok_iff {validateSync : Instance ModelClass → List String}
    (htransformer : ClassTransformer (Models.properties common) plainToClass)
    (hvalidator : StrippingValidator (Models.properties common) validateSync)
    (hblock : ∀ p ∈ common.blockFilterImpl, p.conversion = .copy)
    (h : Template common plainToClass handlers fields) (args : Option Fields) (ds : Json) :
    updateDynamicDs plainToClass validateSync args (.object fields) = .ok ds ↔
      ds = mergeArgs (args.getD []) (.object fields) ∧
        ∀ handler ∈ handlers, HandlerTyped (args.getD []) handler := by
  obtain ⟨object, hobject, -, hsound⟩ :=
    builds_mergedDataSource htransformer hblock h (args.getD [])
  have hruntime : isRuntimeDs (.object fields) = true := by
    rw [isRuntimeDs, h.kind]
    rfl
  have hcustom : isCustomDs (.object fields) = false := by
    rw [isCustomDs, hruntime]
    rfl
  unfold updateDynamicDs
  simp only [hcustom, hruntime, if_true, hobject, ok_bind, Bool.false_eq_true, if_false]
  rw [← hsound, ← hvalidator]
  cases validateSync object with
  | nil =>
    constructor
    · rintro ⟨⟩
      exact ⟨rfl, rfl⟩
    · rintro ⟨rfl, -⟩
      rfl
  | cons error errors =>
    constructor
    · intro hthrown
      cases hthrown
    · rintro ⟨-, hnone⟩
      cases hnone

end

end

/-! ## A template with a discriminator -/

namespace FromTemplate

open Misspelled

/-- An instruction of a program that is not known yet. -/
def filter : Fields := [("discriminator", .leaf (.string "claimToken"))]

def args : Fields :=
  [("programId", .leaf (.string "C1aim")), ("includeFailed", .leaf (.string "yes"))]

def strippingValidateSync (object : Instance ModelClass) : List String :=
  if isSound (Models.properties common) object then []
  else ["An instance of a class has failed the validation"]

theorem strippingValidator :
    StrippingValidator (Models.properties common) strippingValidateSync := by
  intro object
  unfold strippingValidateSync
  split <;> simp_all

theorem templateHandler : TemplateHandler .instruction
    [("kind", .leaf (.string "solana/InstructionHandler")), ("handler", .leaf (.string "handleClaim")),
      ("filter", .object filter)] where
  kind := rfl
  handler := ⟨_, rfl, rfl⟩

theorem template :
    Template common plainToClass [Misspelled.handler filter] (dataSource filter) where
  kind := rfl
  isHandler handler hhandler := by
    obtain rfl := List.mem_singleton.mp hhandler
    exact ⟨.instruction, _, rfl, templateHandler⟩
  has_mapping := rfl
  mapping field hfield hname := by
    rcases List.mem_pair.mp hfield with rfl | rfl
    · simp at hname
    · refine ⟨_, rfl, rfl, fun field hfield hname => ?_, _, rfl, rfl⟩
      rcases List.mem_pair.mp hfield with rfl | rfl
      · simp at hname
      · rfl
  others field hfield hname := by
    rcases List.mem_pair.mp hfield with rfl | rfl
    · exact ⟨_, rfl, rfl⟩
    · exact absurd rfl hname
  others_pass f fields' hconverted p hp := by
    have hkind : fields'.lookup "kind" = some (.scalar (.string "solana/Runtime")) := by
      rw [lookup_copied hconverted (by rintro p ⟨⟩; rfl), lookup_overwriteField]
      rfl
    have hassets : fields'.lookup "assets" = none := by
      rcases lookup_of_convert hconverted "assets" with ⟨-, hnone⟩ | ⟨v, -, hv, -⟩
      · exact hnone
      · rw [lookup_overwriteField] at hv
        cases hv
    have hkept : ∀ name, declares (Models.runtimeDataSource common) name = true →
        (kept (Models.runtimeDataSource common) fields').lookup name = fields'.lookup name :=
      fun name hname => lookup_kept hname fields'
    simp only [Models.otherProperties, common, List.append_nil] at hp
    rcases List.mem_pair.mp hp with rfl | rfl
    · simp [Property.passes, Decorator.skips, Decorator.holds, hkept "kind" rfl, hkind]
    · simp [Property.passes, Decorator.skips, isAbsent, hkept "assets" rfl, hassets]

/-- The program makes the filter complete; and the flag, which is a text, is nobody's business. -/
theorem made_with_all_arguments :
    updateDynamicDs plainToClass strippingValidateSync (some args) (.object (dataSource filter)) =
      .ok (mergeArgs args (.object (dataSource filter))) := by
  refine (updateDynamicDs_eq_ok_iff transformer strippingValidator (fun _ hp => by cases hp) template
    (some args) _).mpr ⟨rfl, fun handler hhandler => ?_⟩
  obtain rfl := List.mem_singleton.mp hhandler
  refine (handlerTyped_iff templateHandler).mpr ⟨fun _ => ⟨_, rfl, rfl⟩, ?_, ?_, ?_⟩
  · rintro v ⟨⟩
    exact .inr rfl
  · rintro v ⟨⟩
  · rintro v ⟨⟩

end FromTemplate

end Dynamic

end SubqlSolana
