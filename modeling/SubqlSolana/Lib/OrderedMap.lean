import Mathlib.Data.List.Induction
import Mathlib.Data.List.Nodup
import Mathlib.Tactic.Common

/-!
# Maps in the order of insertion

A map that is gone through in the order in which its keys were first set, as a `Map` of JavaScript is.
Setting a key again replaces the value and leaves the key where it stands. So a map that is made of a
list of entries has **the keys in the order in which they first come up, each with the value that comes
last** (`keys_ofEntries`, `get_ofEntries`).
-/

set_option autoImplicit false

namespace SubqlSolana.Lib

variable {κ β : Type} [DecidableEq κ]

structure OrderedMap (κ β : Type) where
  entries : List (κ × β)
  nodup : (entries.map Prod.fst).Nodup

/-- In place, or at the end. -/
def setEntry (k : κ) (v : β) : List (κ × β) → List (κ × β)
  | [] => [(k, v)]
  | entry :: rest => if entry.1 = k then (k, v) :: rest else entry :: setEntry k v rest

theorem keys_setEntry (k : κ) (v : β) (entries : List (κ × β)) :
    (setEntry k v entries).map Prod.fst =
      if k ∈ entries.map Prod.fst then entries.map Prod.fst else entries.map Prod.fst ++ [k] := by
  induction entries with
  | nil => rfl
  | cons entry rest ih =>
    unfold setEntry
    by_cases hk : entry.1 = k
    · simp [hk]
    · rw [if_neg hk, List.map_cons, List.map_cons, ih]
      have hmem : k ∈ entry.1 :: rest.map Prod.fst ↔ k ∈ rest.map Prod.fst := by
        rw [List.mem_cons]
        exact or_iff_right (Ne.symm hk)
      by_cases hrest : k ∈ rest.map Prod.fst
      · rw [if_pos hrest, if_pos (hmem.mpr hrest)]
      · rw [if_neg hrest, if_neg (mt hmem.mp hrest), List.cons_append]

/-- The value of the first entry with the key. -/
def firstListed (entries : List (κ × β)) (k : κ) : Option β :=
  (entries.find? fun entry => entry.1 = k).map Prod.snd

/-- The value of the last entry with the key. -/
def lastListed (entries : List (κ × β)) (k : κ) : Option β := firstListed entries.reverse k

theorem firstListed_cons (entry : κ × β) (rest : List (κ × β)) (k : κ) :
    firstListed (entry :: rest) k = if entry.1 = k then some entry.2 else firstListed rest k := by
  unfold firstListed
  by_cases hk : entry.1 = k <;> simp [hk]

theorem firstListed_setEntry (k k' : κ) (v : β) (entries : List (κ × β)) :
    firstListed (setEntry k v entries) k' = if k = k' then some v else firstListed entries k' := by
  induction entries with
  | nil => rw [setEntry, firstListed_cons]
  | cons entry rest ih =>
    unfold setEntry
    by_cases hk : entry.1 = k
    · rw [if_pos hk, firstListed_cons, firstListed_cons, hk]
      split <;> rfl
    · rw [if_neg hk, firstListed_cons, firstListed_cons, ih]
      by_cases hk' : entry.1 = k'
      · rw [if_pos hk', if_pos hk', if_neg (hk' ▸ Ne.symm hk)]
      · rw [if_neg hk', if_neg hk']

theorem mem_of_lastListed {entries : List (κ × β)} {k : κ} {v : β}
    (h : lastListed entries k = some v) : (k, v) ∈ entries := by
  obtain ⟨entry, hfind, rfl⟩ := Option.map_eq_some_iff.mp h
  have hkey : entry.1 = k := by simpa using List.find?_some hfind
  have hmem := List.mem_reverse.mp (List.mem_of_find?_eq_some hfind)
  rwa [← hkey]

theorem lastListed_append_singleton (entries : List (κ × β)) (entry : κ × β) (k : κ) :
    lastListed (entries ++ [entry]) k =
      if entry.1 = k then some entry.2 else lastListed entries k := by
  rw [lastListed, List.reverse_append, List.reverse_singleton, List.singleton_append,
    firstListed_cons]
  rfl

namespace OrderedMap

def empty : OrderedMap κ β := ⟨[], List.nodup_nil⟩

def keys (map : OrderedMap κ β) : List κ := map.entries.map Prod.fst

def get (map : OrderedMap κ β) (k : κ) : Option β := firstListed map.entries k

def set (map : OrderedMap κ β) (k : κ) (v : β) : OrderedMap κ β where
  entries := setEntry k v map.entries
  nodup := by
    rw [keys_setEntry]
    split
    · exact map.nodup
    · next hnew =>
      refine List.nodup_append.mpr ⟨map.nodup, List.nodup_singleton k, ?_⟩
      rintro k₁ hk₁ k₂ hk₂ rfl
      exact hnew (List.mem_singleton.mp hk₂ ▸ hk₁)

/-- `new Map(entries)`. -/
def ofEntries (entries : List (κ × β)) : OrderedMap κ β :=
  entries.foldl (fun map entry => map.set entry.1 entry.2) empty

theorem get_set (map : OrderedMap κ β) (k k' : κ) (v : β) :
    (map.set k v).get k' = if k = k' then some v else map.get k' :=
  firstListed_setEntry k k' v map.entries

theorem keys_set (map : OrderedMap κ β) (k : κ) (v : β) :
    (map.set k v).keys = if k ∈ map.keys then map.keys else map.keys ++ [k] :=
  keys_setEntry k v map.entries

theorem ofEntries_append_singleton (entries : List (κ × β)) (entry : κ × β) :
    ofEntries (entries ++ [entry]) = (ofEntries entries).set entry.1 entry.2 := by
  rw [ofEntries, List.foldl_append]
  rfl

/-- **The value that comes last.** -/
theorem get_ofEntries (entries : List (κ × β)) (k : κ) :
    (ofEntries entries).get k = lastListed entries k := by
  induction entries using List.reverseRecOn with
  | nil => rfl
  | append_singleton entries entry ih =>
    rw [ofEntries_append_singleton, get_set, ih, lastListed_append_singleton]

/-- **In the order in which the keys first come up.** -/
theorem keys_ofEntries (entries : List (κ × β)) :
    (ofEntries entries).keys = (entries.map Prod.fst).eraseDups := by
  induction entries using List.reverseRecOn with
  | nil => rfl
  | append_singleton entries entry ih =>
    rw [ofEntries_append_singleton, keys_set, ih, List.map_append, List.eraseDups_append]
    by_cases hk : entry.1 ∈ (entries.map Prod.fst).eraseDups
    · have hmem : entry.1 ∈ entries.map Prod.fst := List.mem_eraseDups.mp hk
      rw [if_pos hk]
      simp [List.removeAll, hmem]
    · have hmem : entry.1 ∉ entries.map Prod.fst := fun h => hk (List.mem_eraseDups.mpr h)
      rw [if_neg hk]
      simp [List.removeAll, hmem, List.eraseDups_cons]

/-- An entry is what its key has. -/
theorem mem_entries_iff (map : OrderedMap κ β) (k : κ) (v : β) :
    (k, v) ∈ map.entries ↔ map.get k = some v := by
  obtain ⟨entries, hnodup⟩ := map
  show (k, v) ∈ entries ↔ firstListed entries k = some v
  induction entries with
  | nil => simp [firstListed]
  | cons entry rest ih =>
    obtain ⟨hnew, hrest⟩ := List.nodup_cons.mp hnodup
    rw [firstListed_cons, List.mem_cons, ih hrest]
    by_cases hk : entry.1 = k
    · have hnone : firstListed rest k ≠ some v := fun hsome =>
        hnew (hk ▸ List.mem_map_of_mem (f := Prod.fst) ((ih hrest).mpr hsome))
      rw [if_pos hk, Option.some_inj, Prod.ext_iff]
      exact ⟨fun h => (h.resolve_right hnone).2.symm, fun h => .inl ⟨hk.symm, h.symm⟩⟩
    · rw [if_neg hk, Prod.ext_iff]
      exact or_iff_right fun h => hk h.1.symm

end OrderedMap

end SubqlSolana.Lib
