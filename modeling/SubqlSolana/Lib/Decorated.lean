import SubqlSolana.Lib.Fallible
import SubqlSolana.Lib.JsonTree

/-!
# Decorated classes

A class declares properties, and each of them carries decorators: some say how its value is built from
a plain object (`class-transformer`), others what is asked of it (`class-validator`). Here is what the
documentation of the two packages says of them: `ClassTransformer` of building an instance, and
`ClassValidator` of validating one, with no property allowed that is not declared.

An instance of a class is valid exactly if all of its properties are declared and all declared properties
pass (`isValid_object_iff`).
-/

set_option autoImplicit false

namespace SubqlSolana.Lib

/-! ## Instances -/

/-- A value in which objects may be instances of classes; those without one are plain. -/
inductive Instance (C : Type) where
  | scalar (s : JsonScalar)
  | array (items : List (Instance C))
  /-- A `Map`. -/
  | map (entries : List (String × Instance C))
  | object (type? : Option C) (fields : List (String × Instance C))

namespace Instance

variable {C : Type}

mutual

def copy : Json → Instance C
  | .leaf s => scalar s
  | .array items => array (copyItems items)
  | .object fields => object none (copyFields fields)

def copyItems : List Json → List (Instance C)
  | [] => []
  | v :: rest => copy v :: copyItems rest

def copyFields : List (String × Json) → List (String × Instance C)
  | [] => []
  | (name, v) :: rest => (name, copy v) :: copyFields rest

end

mutual

/-- What is there, whatever class it is of. -/
def toPlain : Instance C → Json
  | scalar s => .leaf s
  | array items => .array (plainItems items)
  | map entries => .object (plainFields entries)
  | object _ fields => .object (plainFields fields)

def plainItems : List (Instance C) → List Json
  | [] => []
  | v :: rest => toPlain v :: plainItems rest

def plainFields : List (String × Instance C) → List (String × Json)
  | [] => []
  | (name, v) :: rest => (name, toPlain v) :: plainFields rest

end

mutual

theorem toPlain_copy : ∀ v : Json, (copy v : Instance C).toPlain = v
  | .leaf _ => rfl
  | .array items => congrArg JsonTree.array (plainItems_copy items)
  | .object fields => congrArg JsonTree.object (plainFields_copy fields)

theorem plainItems_copy : ∀ items : List Json, plainItems (copyItems items : List (Instance C)) = items
  | [] => rfl
  | v :: rest => by rw [copyItems, plainItems, toPlain_copy v, plainItems_copy rest]

theorem plainFields_copy : ∀ fields : List (String × Json),
    plainFields (copyFields fields : List (String × Instance C)) = fields
  | [] => rfl
  | (name, v) :: rest => by rw [copyFields, plainFields, toPlain_copy v, plainFields_copy rest]

end

theorem lookup_plainFields (fields : List (String × Instance C)) (name : String) :
    (plainFields fields).lookup name = (fields.lookup name).map toPlain := by
  induction fields with
  | nil => rfl
  | cons field rest ih =>
    obtain ⟨name', v⟩ := field
    by_cases hname : name = name'
    · subst hname
      simp [plainFields]
    · rw [plainFields, lookup_cons_of_ne hname, lookup_cons_of_ne hname, ih]

end Instance

/-! ## Decorators -/

section

variable {C : Type}

inductive Decorator (C : Type) where
  | isOptional
  | validateIf (condition : List (String × Instance C) → Bool)
  | isDefined (message : String)
  | isString
  | isBoolean
  | isArray
  | isObject
  | isEnum (values : List String)
  | validateNested
  /-- A decorator of another package. -/
  | other (check : Option (Instance C) → Bool)

/-- How the value of a property is built from that of a plain object. -/
inductive Conversion (C : Type) where
  | copy
  /-- `@Type(() => c)`. -/
  | type (c : C)
  /-- `@Type(() => c)`, on a property that is a `Map`. -/
  | mapOf (c : C)
  /-- `@Transform(callback)`; the callback may build instances itself. -/
  | transform
    (callback : (C → Json → Except String (Instance C)) → Json → Except String (Instance C))

structure Property (C : Type) where
  name : String
  conversion : Conversion C := .copy
  decorators : List (Decorator C)

/-- `undefined` or `null`. -/
def isAbsent : Option (Instance C) → Bool
  | none => true
  | some (.scalar .null) => true
  | _ => false

/-- A decorator that turns off the others. -/
def Decorator.skips (fields : List (String × Instance C)) (value : Option (Instance C)) :
    Decorator C → Bool
  | isOptional => isAbsent value
  | validateIf condition => !condition fields
  | _ => false

/-- Is this decorator content with the value? `nested` says whether what is in it is valid. -/
def Decorator.holds (value : Option (Instance C)) (nested : Bool) : Decorator C → Bool
  | isOptional => true
  | validateIf _ => true
  | isDefined _ => !isAbsent value
  | isString =>
    match value with
    | some (.scalar (.string _)) => true
    | _ => false
  | isBoolean =>
    match value with
    | some (.scalar (.bool _)) => true
    | _ => false
  | isArray =>
    match value with
    | some (.array _) => true
    | _ => false
  | isObject =>
    match value with
    | some (.object _ _) | some (.map _) => true
    | _ => false
  | isEnum values =>
    match value with
    | some (.scalar (.string s)) => values.contains s
    | _ => false
  | validateNested => nested
  | other check => check value

/-- Does an object with these fields pass the decorators of the property? -/
def Property.passes (fields : List (String × Instance C)) (nested : Bool) (p : Property C) : Bool :=
  p.decorators.any (·.skips fields (fields.lookup p.name)) ||
    p.decorators.all (·.holds (fields.lookup p.name) nested)

/-- The property has a decorator, so that it is allowed. -/
def declares (properties : List (Property C)) (name : String) : Bool :=
  properties.any fun p => p.name = name && !p.decorators.isEmpty

mutual

/-- Nothing in the value is rejected. -/
def isValid (properties : C → List (Property C)) : Instance C → Bool
  | .scalar s => s = .null
  | .array items => allValid properties items
  | .map entries => (validFields properties entries).all Prod.snd
  | .object none _ => false
  | .object (some c) fields =>
    fields.all (fun field => declares (properties c) field.1) &&
      (properties c).all fun p =>
        p.passes fields (((validFields properties fields).lookup p.name).getD true)

def allValid (properties : C → List (Property C)) : List (Instance C) → Bool
  | [] => true
  | v :: rest => isValid properties v && allValid properties rest

/-- Which of the fields are valid. -/
def validFields (properties : C → List (Property C)) :
    List (String × Instance C) → List (String × Bool)
  | [] => []
  | (name, v) :: rest => (name, isValid properties v) :: validFields properties rest

end

/-- `validateSync`, with `whitelist` and `forbidNonWhitelisted`: its errors, as texts, and the object
after it. -/
structure ClassValidator (properties : C → List (Property C))
    (validateSync : Instance C → List String × Instance C) : Prop where
  accepts_iff : ∀ object, (validateSync object).1 = [] ↔ isValid properties object = true
  /-- Nothing is taken away from what is accepted. -/
  keeps : ∀ object, (validateSync object).1 = [] → (validateSync object).2 = object

def Conversion.apply (plainToClass : C → Json → Except String (Instance C)) (v : Json) :
    Conversion C → Except String (Instance C)
  | copy => .ok (.copy v)
  | type c => plainToClass c v
  | mapOf c =>
    match v with
    | .object entries => do
      pure (.map (← entries.mapM fun entry => do pure (entry.1, ← plainToClass c entry.2)))
    | _ => .ok (.copy v)
  | transform callback => callback plainToClass v

def convert (plainToClass : C → Json → Except String (Instance C)) (properties : List (Property C))
    (field : String × Json) : Except String (String × Instance C) := do
  match properties.find? fun p => p.name = field.1 with
  | none => pure (field.1, .copy field.2)
  | some p => pure (field.1, ← p.conversion.apply plainToClass field.2)

/-- `plainToClass` on an object: an instance with the same properties, each of them converted. -/
def ClassTransformer (properties : C → List (Property C))
    (plainToClass : C → Json → Except String (Instance C)) : Prop :=
  ∀ c fields, plainToClass c (.object fields) =
    (fields.mapM (convert plainToClass (properties c))).map (.object (some c))

/-! ## What is valid -/

theorem lookup_validFields (properties : C → List (Property C))
    (fields : List (String × Instance C)) (name : String) :
    (validFields properties fields).lookup name =
      (fields.lookup name).map (isValid properties) := by
  induction fields with
  | nil => rfl
  | cons field rest ih =>
    obtain ⟨name', v⟩ := field
    by_cases hname : name = name'
    · subst hname
      simp [validFields]
    · rw [validFields, lookup_cons_of_ne hname, lookup_cons_of_ne hname, ih]

/-- Is what a property holds valid, if it holds something? -/
def nestedValid (properties : C → List (Property C)) (value : Option (Instance C)) : Bool :=
  value.all (isValid properties)

/-- **What is valid is declared, and passes.** -/
theorem isValid_object_iff {properties : C → List (Property C)} {c : C}
    {fields : List (String × Instance C)} :
    isValid properties (.object (some c) fields) = true ↔
      (∀ field ∈ fields, declares (properties c) field.1 = true) ∧
      ∀ p ∈ properties c,
        p.passes fields (nestedValid properties (fields.lookup p.name)) = true := by
  have hnested : ∀ name, ((validFields properties fields).lookup name).getD true =
      nestedValid properties (fields.lookup name) := by
    intro name
    rw [lookup_validFields, nestedValid]
    cases fields.lookup name <;> rfl
  rw [isValid, Bool.and_eq_true, List.all_eq_true, List.all_eq_true]
  simp only [hnested]

section

variable {properties : C → List (Property C)} {fields : List (String × Instance C)}
  {p : Property C}

/-- A property that may be absent passes if what is there passes. -/
theorem passes_optional {d : Decorator C} {nested : Bool} (hp : p.decorators = [.isOptional, d])
    (h : ∀ v, fields.lookup p.name = some v → d.holds (some v) nested = true) :
    p.passes fields nested = true := by
  unfold Property.passes
  rw [hp]
  cases hlookup : fields.lookup p.name with
  | none => rfl
  | some v =>
    have hall : [.isOptional, d].all (·.holds (some v) nested) = true := by
      rw [List.all_cons, List.all_cons, h v hlookup]
      rfl
    rw [hall, Bool.or_true]

theorem passes_nested (hp : p.decorators = [.validateNested]) :
    p.passes fields (nestedValid properties (fields.lookup p.name)) =
      nestedValid properties (fields.lookup p.name) := by
  unfold Property.passes
  rw [hp]
  simp [Decorator.skips, Decorator.holds]

/-- What is skipped is nothing that could be wrong. -/
theorem passes_optional_nested (hp : p.decorators = [.isOptional, .validateNested]) :
    p.passes fields (nestedValid properties (fields.lookup p.name)) =
      nestedValid properties (fields.lookup p.name) := by
  unfold Property.passes
  rw [hp]
  cases habsent : isAbsent (fields.lookup p.name) with
  | false => simp [Decorator.skips, Decorator.holds, habsent]
  | true =>
    have hvalid : nestedValid properties (fields.lookup p.name) = true := by
      unfold isAbsent at habsent
      split at habsent
      · next hnone => rw [hnone, nestedValid, Option.all_none]
      · next hnull =>
        rw [hnull]
        rfl
      · cases habsent
    simp [Decorator.holds, hvalid]

end

/-! ## What is built -/

variable {plainToClass : C → Json → Except String (Instance C)} {properties : List (Property C)}

theorem fst_of_convert {field : String × Json} {field' : String × Instance C}
    (h : convert plainToClass properties field = .ok field') : field'.1 = field.1 := by
  unfold convert at h
  split at h
  · cases h
    rfl
  · obtain ⟨v, -, hv⟩ := bind_eq_ok.mp h
    cases hv
    rfl

/-- Whether the properties are declared can be seen from the plain object. -/
theorem declared_iff_of_convert {fields : List (String × Json)}
    {fields' : List (String × Instance C)}
    (h : List.Forall₂ (fun a b => convert plainToClass properties a = .ok b) fields fields') :
    (∀ field ∈ fields', declares properties field.1 = true) ↔
      ∀ field ∈ fields, declares properties field.1 = true := by
  induction h with
  | nil => simp
  | cons hfield _ ih => rw [List.forall_mem_cons, List.forall_mem_cons, ih, fst_of_convert hfield]

/-- A field that is looked up afterwards is the one that is looked up before, converted. -/
theorem lookup_of_convert {fields : List (String × Json)} {fields' : List (String × Instance C)}
    (h : List.Forall₂ (fun a b => convert plainToClass properties a = .ok b) fields fields')
    (name : String) :
    (fields.lookup name = none ∧ fields'.lookup name = none) ∨
      ∃ v v', fields.lookup name = some v ∧ fields'.lookup name = some v' ∧
        convert plainToClass properties (name, v) = .ok (name, v') := by
  induction h with
  | nil => exact .inl ⟨rfl, rfl⟩
  | @cons field field' rest rest' hfield _ ih =>
    obtain ⟨name₁, v⟩ := field
    obtain ⟨name₂, v'⟩ := field'
    obtain rfl : name₂ = name₁ := fst_of_convert hfield
    by_cases hname : name = name₂
    · subst hname
      exact .inr ⟨v, v', by simp, by simp, hfield⟩
    · rw [lookup_cons_of_ne hname, lookup_cons_of_ne hname]
      exact ih

/-- The plain object comes back if each of its properties does. -/
theorem plainFields_of_convert {fields : List (String × Json)}
    {fields' : List (String × Instance C)}
    (h : List.Forall₂ (fun a b => convert plainToClass properties a = .ok b) fields fields')
    (hplain : ∀ field ∈ fields, ∀ v', convert plainToClass properties field = .ok (field.1, v') →
      v'.toPlain = field.2) :
    Instance.plainFields fields' = fields := by
  induction h with
  | nil => rfl
  | @cons field field' rest rest' hfield _ ih =>
    obtain ⟨name, v'⟩ := field'
    obtain rfl : name = field.1 := fst_of_convert hfield
    rw [Instance.plainFields, hplain field List.mem_cons_self v' hfield,
      ih fun other hother => hplain other (List.mem_cons_of_mem _ hother)]

/-- A field that is declared without a conversion is copied. -/
theorem convert_copy {field : String × Json}
    (h : ∀ p ∈ properties.find? fun p => p.name = field.1, p.conversion = .copy) :
    convert plainToClass properties field = .ok (field.1, .copy field.2) := by
  unfold convert
  cases hfind : properties.find? fun p => p.name = field.1 with
  | none => rfl
  | some p =>
    dsimp only
    rw [h p hfind]
    rfl

theorem lookup_copied {fields : List (String × Json)} {fields' : List (String × Instance C)}
    (h : List.Forall₂ (fun a b => convert plainToClass properties a = .ok b) fields fields')
    {name : String} (hcopy : ∀ p ∈ properties.find? fun p => p.name = name, p.conversion = .copy) :
    fields'.lookup name = (fields.lookup name).map .copy := by
  rcases lookup_of_convert h name with ⟨hnone, hnone'⟩ | ⟨v, v', hv, hv', hok⟩
  · rw [hnone, hnone', Option.map_none]
  · have hok' : convert plainToClass properties (name, v) = .ok (name, .copy v) :=
      convert_copy hcopy
    cases hok'.symm.trans hok
    rw [hv, hv', Option.map_some]

theorem lookup_converted {fields : List (String × Json)} {fields' : List (String × Instance C)}
    (h : List.Forall₂ (fun a b => convert plainToClass properties a = .ok b) fields fields')
    {name : String} {v : Json} {v' : Instance C} (hv : fields.lookup name = some v)
    (hok : convert plainToClass properties (name, v) = .ok (name, v')) :
    fields'.lookup name = some v' := by
  rcases lookup_of_convert h name with ⟨hnone, -⟩ | ⟨w, w', hw, hw', hok'⟩
  · rw [hnone] at hv
    cases hv
  · cases hw.symm.trans hv
    cases hok.symm.trans hok'
    exact hw'

/-- What is built of an object whose properties can be converted without a loss. -/
structure Built (plainToClass : C → Json → Except String (Instance C))
    (properties : List (Property C)) (c : C) (fields : List (String × Json))
    (fields' : List (String × Instance C)) : Prop where
  result : plainToClass c (.object fields) = .ok (.object (some c) fields')
  converted :
    List.Forall₂ (fun a b => convert plainToClass properties a = .ok b) fields fields'
  plain : Instance.plainFields fields' = fields

theorem exists_built {properties : C → List (Property C)}
    (htransformer : ClassTransformer properties plainToClass) {c : C}
    {fields : List (String × Json)}
    (h : ∀ field ∈ fields, ∃ v', convert plainToClass (properties c) field = .ok (field.1, v') ∧
      v'.toPlain = field.2) :
    ∃ fields', Built plainToClass (properties c) c fields fields' := by
  obtain ⟨fields', hfields', hall⟩ := mapM_ok fun field hfield =>
    (h field hfield).imp' (fun v' => (field.1, v')) fun _ hv' => hv'.1
  refine ⟨fields', ?_, hall, plainFields_of_convert hall fun field hfield v' hv' => ?_⟩
  · rw [htransformer, hfields']
    rfl
  · obtain ⟨w, hw, hplain⟩ := h field hfield
    cases hw.symm.trans hv'
    exact hplain

end

end SubqlSolana.Lib
