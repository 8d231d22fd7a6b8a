import Mathlib.Data.List.Forall2

/-!
# JSON trees

What `JSON.parse` makes of a text, and the values that JavaScript code makes of it by reading, spreading
and overwriting properties: both are trees of arrays and objects, with different leaves. A `KeyPath`
says where in a tree a value is.

`mapLeaves` rewrites the leaves of a tree, each by its key path. **Reading commutes with it**
(`at_mapLeaves`), so that nothing has to be known of the rest of the tree. One such rewriting is
`upcast`, which makes a `bigint` of every integer but those at the allowed key paths.
-/

set_option autoImplicit false

namespace SubqlSolana.Lib

/-! ## Trees -/

/-- The fields of an object are in the order in which they were made. -/
inductive JsonTree (L : Type) where
  | leaf (l : L)
  | array (items : List (JsonTree L))
  | object (fields : List (String × JsonTree L))

inductive KeyPathPart where
  | key (name : String)
  | index (j : Nat)
  deriving Repr, DecidableEq

abbrev KeyPath : Type := List KeyPathPart

theorem lookup_cons_of_ne {V : Type} {name name' : String} (h : name ≠ name') (v : V)
    (fields : List (String × V)) : ((name', v) :: fields).lookup name = fields.lookup name := by
  have hne : (name == name') = false := by simpa using h
  rw [List.lookup_cons, hne]

/-- Values that are rewritten, each by its name. -/
theorem lookup_map_named {V W : Type} (g : String → V → W) (fields : List (String × V))
    (name : String) : (fields.map fun field => (field.1, g field.1 field.2)).lookup name =
      (fields.lookup name).map (g name) := by
  induction fields with
  | nil => rfl
  | cons field rest ih =>
    obtain ⟨name', v⟩ := field
    by_cases hname : name = name'
    · subst hname
      simp
    · rw [List.map_cons, lookup_cons_of_ne hname, lookup_cons_of_ne hname, ih]

namespace JsonTree

variable {L L' : Type}

/-- The value at a key path, if there is one. -/
def at? : KeyPath → JsonTree L → Option (JsonTree L)
  | [], t => some t
  | .key name :: path, object fields => (fields.lookup name).bind (at? path)
  | .index j :: path, array items => items[j]?.bind (at? path)
  | _, _ => none

@[simp] theorem at?_nil (t : JsonTree L) : t.at? [] = some t := by
  cases t <;> rfl

@[simp] theorem at?_key (name : String) (path : KeyPath) (fields : List (String × JsonTree L)) :
    (object fields).at? (.key name :: path) = (fields.lookup name).bind (at? path) := rfl

@[simp] theorem at?_index (j : Nat) (path : KeyPath) (items : List (JsonTree L)) :
    (array items).at? (.index j :: path) = items[j]?.bind (at? path) := rfl

/-- Reading at a path is reading at its first part, and then on. -/
theorem at?_cons (part : KeyPathPart) (path : KeyPath) (t : JsonTree L) :
    t.at? (part :: path) = (t.at? [part]).bind (at? path) := by
  cases t <;> cases part <;> simp [at?]

mutual

/-- Rewrites the leaves; `path` is the key path of the tree itself. -/
def mapLeaves (f : KeyPath → L → L') (path : KeyPath) : JsonTree L → JsonTree L'
  | leaf l => leaf (f path l)
  | array items => array (mapItems f path 0 items)
  | object fields => object (mapFields f path fields)

def mapItems (f : KeyPath → L → L') (path : KeyPath) (j : Nat) :
    List (JsonTree L) → List (JsonTree L')
  | [] => []
  | t :: rest => mapLeaves f (path ++ [.index j]) t :: mapItems f path (j + 1) rest

def mapFields (f : KeyPath → L → L') (path : KeyPath) :
    List (String × JsonTree L) → List (String × JsonTree L')
  | [] => []
  | (name, t) :: rest => (name, mapLeaves f (path ++ [.key name]) t) :: mapFields f path rest

end

variable (f : KeyPath → L → L')

theorem getElem?_mapItems (path : KeyPath) (items : List (JsonTree L)) (k j : Nat) :
    (mapItems f path k items)[j]? =
      items[j]?.map fun t => t.mapLeaves f (path ++ [.index (k + j)]) := by
  induction items generalizing k j with
  | nil => simp [mapItems]
  | cons t rest ih =>
    cases j with
    | zero => simp [mapItems]
    | succ j =>
      simp only [mapItems, List.getElem?_cons_succ, ih]
      rw [Nat.add_right_comm, Nat.add_assoc]

theorem mem_mapItems {path : KeyPath} {items : List (JsonTree L)} {k : Nat} {t' : JsonTree L'}
    (h : t' ∈ mapItems f path k items) :
    ∃ j, ∃ t ∈ items, t' = t.mapLeaves f (path ++ [.index j]) := by
  obtain ⟨j, hj⟩ := List.getElem?_of_mem h
  rw [getElem?_mapItems] at hj
  obtain ⟨t, ht, rfl⟩ := Option.map_eq_some_iff.mp hj
  exact ⟨k + j, t, List.mem_of_getElem? ht, rfl⟩

/-- An array whose items are all written in one way, wherever they stand. -/
theorem mapItems_map {α : Type} {path : KeyPath} {tree : α → JsonTree L} {tree' : α → JsonTree L'}
    (h : ∀ a j, (tree a).mapLeaves f (path ++ [.index j]) = tree' a) (items : List α) (k : Nat) :
    mapItems f path k (items.map tree) = items.map tree' := by
  induction items generalizing k with
  | nil => rfl
  | cons a rest ih => rw [List.map_cons, mapItems, h, ih, List.map_cons]

theorem lookup_mapFields (path : KeyPath) (fields : List (String × JsonTree L)) (name : String) :
    (mapFields f path fields).lookup name =
      (fields.lookup name).map fun t => t.mapLeaves f (path ++ [.key name]) := by
  induction fields with
  | nil => rfl
  | cons field rest ih =>
    obtain ⟨name', t⟩ := field
    by_cases hname : name = name'
    · subst hname
      simp [mapFields]
    · rw [mapFields, lookup_cons_of_ne hname, lookup_cons_of_ne hname, ih]

/-- **Reading commutes with rewriting.** -/
theorem at?_mapLeaves (path path' : KeyPath) (t : JsonTree L) :
    (t.mapLeaves f path).at? path' = (t.at? path').map fun t' => t'.mapLeaves f (path ++ path') := by
  induction path' generalizing path t with
  | nil => simp
  | cons part path' ih =>
    have happend : path ++ part :: path' = path ++ [part] ++ path' := by simp
    rw [happend]
    cases part with
    | key name =>
      cases t with
      | object fields =>
        rw [mapLeaves, at?_key, at?_key, lookup_mapFields]
        cases fields.lookup name with
        | none => rfl
        | some t' => exact ih _ t'
      | _ => rfl
    | index j =>
      cases t with
      | array items =>
        rw [mapLeaves, at?_index, at?_index, getElem?_mapItems, Nat.zero_add]
        cases items[j]? with
        | none => rfl
        | some t' => exact ih _ t'
      | _ => rfl

end JsonTree

/-! ## JSON and JavaScript values -/

/-- A number is an integer, or the text of one that is not. -/
inductive JsonNumber where
  | integer (n : Int)
  | other (text : String)
  deriving Repr, DecidableEq

inductive JsonScalar where
  | null
  | bool (b : Bool)
  | number (n : JsonNumber)
  | string (s : String)
  deriving Repr, DecidableEq

abbrev Json : Type := JsonTree JsonScalar

/-- A value that is no object: also what JSON does not have, and the getters that code adds. -/
inductive JsScalar (G : Type) where
  | undefined
  | null
  | bool (b : Bool)
  | number (n : JsonNumber)
  | bigint (n : Int)
  | string (s : String)
  | getter (g : G)
  deriving Repr, DecidableEq

abbrev JsValue (G : Type) : Type := JsonTree (JsScalar G)

namespace JsValue

variable {G : Type}

def undefined : JsValue G := .leaf .undefined

def null : JsValue G := .leaf .null

def string (s : String) : JsValue G := .leaf (.string s)

def integer (n : Int) : JsValue G := .leaf (.number (.integer n))

def cannotRead (value name : String) : String :=
  s!"Cannot read properties of {value} (reading '{name}')"

/-- `v.name`, for a name that only an object has. -/
def get (name : String) : JsValue G → Except String (JsValue G)
  | .leaf .undefined => .error (cannotRead "undefined" name)
  | .leaf .null => .error (cannotRead "null" name)
  | .object fields => .ok ((fields.lookup name).getD undefined)
  | _ => .ok undefined

/-- What `v.map` goes through. -/
def items : JsValue G → Except String (List (JsValue G))
  | .array items => .ok items
  | .leaf .undefined => .error (cannotRead "undefined" "map")
  | .leaf .null => .error (cannotRead "null" "map")
  | _ => .error "map is not a function"

/-- `v ?? other`. -/
def coalesce : JsValue G → JsValue G → JsValue G
  | .leaf .undefined, other => other
  | .leaf .null, other => other
  | v, _ => v

/-- `v`, as a condition. -/
def truthy : JsValue G → Bool
  | .leaf .undefined => false
  | .leaf .null => false
  | .leaf (.bool b) => b
  | .leaf (.number (.integer n)) => n ≠ 0
  | .leaf (.bigint n) => n ≠ 0
  | .leaf (.string s) => s ≠ ""
  | _ => true

/-- What `{...v}` takes from an object. -/
def fields : JsValue G → List (String × JsValue G)
  | .object fields => fields
  | _ => []

/-- A property is overwritten, or is a new one. -/
def assign (name : String) (v : JsValue G) :
    List (String × JsValue G) → List (String × JsValue G)
  | [] => [(name, v)]
  | (name', v') :: rest =>
    if name' = name then (name, v) :: rest else (name', v') :: assign name v rest

/-- `{...v, ...own}`. -/
def spread (v : JsValue G) (own : List (String × JsValue G)) : JsValue G :=
  .object (own.foldl (fun fields field => assign field.1 field.2 fields) v.fields)

theorem lookup_assign (name name' : String) (v : JsValue G) (fields : List (String × JsValue G)) :
    (assign name v fields).lookup name' = if name' = name then some v else fields.lookup name' := by
  induction fields with
  | nil =>
    by_cases h : name' = name
    · subst h
      simp [assign]
    · rw [assign, lookup_cons_of_ne h, if_neg h]
  | cons field rest ih =>
    obtain ⟨other, w⟩ := field
    unfold assign
    by_cases hother : other = name
    · subst hother
      by_cases h : name' = other
      · subst h
        simp
      · simp only [if_true, lookup_cons_of_ne h, if_neg h]
    · rw [if_neg hother]
      by_cases h : name' = other
      · subst h
        simp [hother]
      · rw [lookup_cons_of_ne h, lookup_cons_of_ne h, ih]

/-- The last property that is spread is there. -/
theorem at?_spread_last (w : JsValue G) (own : List (String × JsValue G)) (name : String)
    (v : JsValue G) (path : KeyPath) :
    (spread w (own ++ [(name, v)])).at? (.key name :: path) = v.at? path := by
  rw [spread, List.foldl_append, JsonTree.at?_key, List.foldl_cons, List.foldl_nil,
    lookup_assign, if_pos rfl]
  rfl

theorem get_eq_of_at? {v w : JsValue G} {name : String} (h : v.at? [.key name] = some w) :
    v.get name = .ok w := by
  cases v with
  | object fields =>
    simp only [JsonTree.at?_key] at h
    cases hlookup : fields.lookup name with
    | none =>
      rw [hlookup] at h
      cases h
    | some w' =>
      rw [hlookup] at h
      cases h
      simp [get, hlookup]
  | _ => cases h

/-- What has a property is an object, and so has all others, be it as `undefined`. -/
theorem get_isOk_of_at? {v w : JsValue G} {name : String} (h : v.at? [.key name] = some w)
    (name' : String) : ∃ u, v.get name' = .ok u := by
  cases v with
  | object fields => exact ⟨_, rfl⟩
  | _ => cases h

section

-- a value that comes from JSON
variable {L : Type} (f : KeyPath → L → JsScalar G) (path : KeyPath)

/-- A property of JSON that is there. -/
theorem get_mapLeaves {t t' : JsonTree L} {name : String} (h : t.at? [.key name] = some t') :
    get name (t.mapLeaves f path) = .ok (t'.mapLeaves f (path ++ [.key name])) := by
  apply get_eq_of_at?
  rw [JsonTree.at?_mapLeaves, h]
  rfl

/-- A property of JSON that is not there. -/
theorem get_mapLeaves_none {fields : List (String × JsonTree L)} {name : String}
    (h : (JsonTree.object fields).at? [.key name] = none) :
    get name ((JsonTree.object fields).mapLeaves f path) = .ok undefined := by
  cases hlookup : fields.lookup name with
  | none => simp [JsonTree.mapLeaves, get, JsonTree.lookup_mapFields, hlookup]
  | some t => simp [hlookup] at h

theorem items_mapLeaves (items : List (JsonTree L)) :
    JsValue.items ((JsonTree.array items).mapLeaves f path) =
      .ok (JsonTree.mapItems f path 0 items) := rfl

end

end JsValue

/-! ## Upcasting -/

inductive AllowedPathPart where
  /-- Any index of an array. -/
  | wildcard
  | key (name : String)
  deriving Repr, DecidableEq

abbrev AllowedPath : Type := List AllowedPathPart

def AllowedPathPart.covers : AllowedPathPart → KeyPathPart → Bool
  | wildcard, .index _ => true
  | key name, .key name' => name = name'
  | _, _ => false

def AllowedPath.covers : AllowedPath → KeyPath → Bool
  | [], [] => true
  | a :: allowed, part :: path => AllowedPathPart.covers a part && AllowedPath.covers allowed path
  | _, _ => false

/-- Whether an integer at this key path stays a number. -/
def isAllowed (allowed : List AllowedPath) (path : KeyPath) : Bool :=
  allowed.any fun a => AllowedPath.covers a path

def upcastScalar {G : Type} (allowed : List AllowedPath) (path : KeyPath) : JsonScalar → JsScalar G
  | .null => .null
  | .bool b => .bool b
  | .string s => .string s
  | .number (.other text) => .number (.other text)
  | .number (.integer n) => if isAllowed allowed path then .number (.integer n) else .bigint n

/-- Every integer whose key path is not allowed becomes a `bigint`. -/
def upcast {G : Type} (allowed : List AllowedPath) (json : Json) : JsValue G :=
  json.mapLeaves (upcastScalar allowed) []

end SubqlSolana.Lib
