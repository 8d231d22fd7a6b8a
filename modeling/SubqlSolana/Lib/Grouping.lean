import Mathlib.Data.List.Basic
import Mathlib.Tactic.Common

/-!
# Grouping and going through the groups

A list is grouped by a key, in the way of `groupBy` of lodash, and what is in it is visited group by
group. **If every key is visited, and once only, every element is** (`flatMap_filter_perm`); and a loop
of loops that does something for each element is one loop over the elements (`forM_flatMap`).
-/

set_option autoImplicit false

namespace SubqlSolana.Lib

variable {α β : Type}

/-! ## Groups -/

section

variable {κ : Type} [DecidableEq κ]

/-- The elements with each key, in their order. For a key that no element has there is nothing. -/
def groupBy (key : α → κ) (l : List α) : κ → Option (List α) :=
  l.foldl (fun groups a k => if key a = k then some ((groups k).getD [] ++ [a]) else groups k)
    fun _ => none

theorem groupBy_getD (key : α → κ) (l : List α) (k : κ) :
    (groupBy key l k).getD [] = l.filter fun a => key a = k := by
  have hfold : ∀ groups : κ → Option (List α),
      (l.foldl (fun groups a k =>
        if key a = k then some ((groups k).getD [] ++ [a]) else groups k) groups k).getD [] =
        (groups k).getD [] ++ l.filter fun a => key a = k := by
    induction l with
    | nil => simp
    | cons a l ih =>
      intro groups
      rw [List.foldl_cons, ih]
      by_cases hkey : key a = k <;> simp [hkey]
  exact hfold fun _ => none

/-- If no two elements have the same key, there is one at most in each group. -/
theorem filter_key_of_nodup {key : α → κ} {l : List α} (h : (l.map key).Nodup) (k : κ) :
    (l.filter fun a => key a = k) = (l.find? fun a => key a = k).toList := by
  induction l with
  | nil => rfl
  | cons a l ih =>
    obtain ⟨hnew, hrest⟩ := List.nodup_cons.mp h
    by_cases hkey : key a = k
    · have hnone : (l.filter fun a => key a = k) = [] := by
        rw [List.filter_eq_nil_iff]
        intro b hb hkey'
        rw [hkey, ← of_decide_eq_true hkey'] at hnew
        exact hnew (List.mem_map_of_mem hb)
      simp [hkey, hnone]
    · simp [hkey, ih hrest]

end

/-- **Nothing is lost, and nothing comes twice.** -/
theorem flatMap_filter_perm {key : α → Nat} {l : List α} {n : Nat} (h : ∀ a ∈ l, key a < n) :
    ((List.range n).flatMap fun k => l.filter fun a => key a = k).Perm l := by
  have hbelow : ∀ n, ((List.range n).flatMap fun k => l.filter fun a => key a = k).Perm
      (l.filter fun a => key a < n) := by
    intro n
    induction n with
    | zero => simp
    | succ n ih =>
      have hsplit := List.filter_append_perm (fun a => decide (key a < n))
        (l.filter fun a => key a < n + 1)
      rw [List.filter_filter, List.filter_filter] at hsplit
      have hlow : (fun a => decide (key a < n) && decide (key a < n + 1)) =
          fun a => decide (key a < n) := by
        funext a
        rw [← Bool.decide_and, decide_eq_decide]
        omega
      have hlast : (fun a => !decide (key a < n) && decide (key a < n + 1)) =
          fun a => decide (key a = n) := by
        funext a
        rw [← decide_not, ← Bool.decide_and, decide_eq_decide]
        omega
      rw [hlow, hlast] at hsplit
      rw [List.range_succ, List.flatMap_append, List.flatMap_singleton]
      exact (ih.append_right _).trans hsplit
  have hall : (l.filter fun a => key a < n) = l := by
    rw [List.filter_eq_self]
    intro a ha
    exact decide_eq_true (h a ha)
  rw [← hall]
  simpa only [hall] using hbelow n

/-- The elements of a list, each with a list that goes with its position. -/
theorem flatten_mapIdx_cons_perm (l : List α) (f : Nat → List α) :
    (l.mapIdx fun i a => a :: f i).flatten.Perm (l ++ (List.range l.length).flatMap f) := by
  induction l generalizing f with
  | nil => simp
  | cons a l ih =>
    rw [List.mapIdx_cons, List.flatten_cons, List.length_cons, List.range_succ_eq_map,
      List.flatMap_cons, List.flatMap_map, List.cons_append, List.cons_append]
    apply List.Perm.cons
    have hrest := (ih fun i => f (i + 1)).append_left (f 0)
    exact hrest.trans (List.perm_append_comm_assoc ..)

/-- At a position, there is one element. -/
theorem filter_zipIdx {l : List α} {i : Nat} (hi : i < l.length) :
    (l.zipIdx.filter fun a => a.2 = i) = [(l[i], i)] := by
  have hnodup : (l.zipIdx.map Prod.snd).Nodup := by
    rw [List.zipIdx_map_snd]
    exact List.nodup_range'
  have hmem : (l[i], i) ∈ l.zipIdx := List.mem_zipIdx_iff_getElem?.mpr (List.getElem?_eq_getElem hi)
  rw [filter_key_of_nodup hnodup]
  cases hfind : l.zipIdx.find? fun a => a.2 = i with
  | none => exact absurd (decide_eq_true rfl) (List.find?_eq_none.mp hfind _ hmem)
  | some a =>
    obtain ⟨a, j⟩ := a
    obtain rfl : j = i := by simpa using List.find?_some hfind
    have ha := List.mem_zipIdx_iff_getElem?.mp (List.mem_of_find?_eq_some hfind)
    rw [List.getElem?_eq_getElem hi] at ha
    rw [Option.some.inj ha, Option.toList_some]

/-! ## Loops -/

theorem forM_flatMap {m : Type → Type} [Monad m] [LawfulMonad m] (l : List α) (f : α → List β)
    (g : β → m PUnit) : (l.flatMap f).forM g = l.forM fun a => (f a).forM g := by
  simp only [List.forM_eq_forM]
  induction l with
  | nil => rfl
  | cons a l ih => rw [List.flatMap_cons, List.forM_append, ih, List.forM_cons]

/-! ## Arrays as objects -/

/-- `Object.entries` of an array. -/
def objectEntries (l : List α) : List (String × α) := l.mapIdx fun i a => (toString i, a)

theorem toString_inj {a b : Nat} : toString a = toString b ↔ a = b := by
  constructor
  · intro h
    have hdigits : Nat.toDigits 10 a = Nat.toDigits 10 b := String.ofList_injective h
    rw [← Nat.ofDigitChars_ten_toDigits (n := a), hdigits, Nat.ofDigitChars_ten_toDigits]
  · rintro rfl
    rfl

end SubqlSolana.Lib
