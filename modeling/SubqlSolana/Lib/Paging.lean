import Mathlib.Tactic.Common

/-!
# Reading a sorted store page by page

A store answers a request for a range of keys with the first few items in it. A client that wants the
whole range asks again from behind the last item of a page, and stops at an empty one. What it takes
for the last key of a page is up to it: `cursor`.

`pageThrough_eq`: **if the cursor is the key, a client gets the range, each item once and in order,
and comes to an end**. If the cursor lies below the key at the last item of the range, the client
never gets past that item (`pageThrough_eq_none`).
-/

set_option autoImplicit false

namespace SubqlSolana.Lib

variable {α : Type} (key cursor : α → Nat)

/-- The items with a key in a range. -/
def inRange (start stop : Nat) (items : List α) : List α :=
  items.filter fun a => start ≤ key a ∧ key a ≤ stop

def page (start stop limit : Nat) (items : List α) : List α := (inRange key start stop items).take limit

/-- What a client gets with at most so many requests; `none` if it is not done then. -/
def pageThrough (stop limit : Nat) (items : List α) : Nat → Nat → Option (List α)
  | fuel, start =>
    if stop < start then some []
    else
      match fuel with
      | 0 => none
      | fuel + 1 =>
        match (page key start stop limit items).getLast? with
        | none => some []
        | some last =>
          (pageThrough stop limit items fuel (cursor last + 1)).map fun rest =>
            page key start stop limit items ++ rest

variable {key} {cursor}

theorem mem_inRange {start stop : Nat} {items : List α} {a : α} :
    a ∈ inRange key start stop items ↔ a ∈ items ∧ start ≤ key a ∧ key a ≤ stop := by
  simp [inRange]

theorem inRange_eq_nil {start stop : Nat} (h : stop < start) (items : List α) :
    inRange key start stop items = [] := by
  rw [List.eq_nil_iff_forall_not_mem]
  intro a ha
  obtain ⟨-, hstart, hstop⟩ := mem_inRange.mp ha
  omega

/-- Behind the last item of a page is what the page left out. -/
theorem page_append_inRange {items : List α} (hsorted : items.Pairwise fun a b => key a < key b)
    {start stop limit : Nat} {last : α}
    (hlast : (page key start stop limit items).getLast? = some last) :
    page key start stop limit items ++ inRange key (key last + 1) stop items =
      inRange key start stop items := by
  have hstart : start ≤ key last :=
    (mem_inRange.mp (List.mem_of_mem_take (List.mem_of_getLast? hlast))).2.1
  have hfilter : inRange key (key last + 1) stop items =
      (inRange key start stop items).filter fun a => key last < key a := by
    rw [inRange, inRange, List.filter_filter]
    refine List.filter_congr fun a _ => ?_
    rw [← Bool.decide_and, decide_eq_decide]
    omega
  have hrange : (inRange key start stop items).Pairwise fun a b => key a < key b :=
    hsorted.sublist List.filter_sublist
  unfold page at hlast ⊢
  rw [hfilter]
  generalize inRange key start stop items = range at hlast hrange ⊢
  rw [← List.take_append_drop limit range, List.pairwise_append] at hrange
  obtain ⟨htake, -, hacross⟩ := hrange
  -- the page holds nothing behind its last item, and the rest nothing else
  have hpage : (range.take limit).filter (fun a => key last < key a) = [] := by
    obtain ⟨before, hbefore⟩ := List.getLast?_eq_some_iff.mp hlast
    rw [hbefore, List.pairwise_append] at htake
    rw [hbefore, List.filter_eq_nil_iff]
    intro a ha
    rcases List.mem_append.mp ha with ha | ha
    · have hlt := htake.2.2 a ha last (List.mem_singleton.mpr rfl)
      simpa using Nat.le_of_lt hlt
    · obtain rfl := List.mem_singleton.mp ha
      simp
  have hrest : (range.drop limit).filter (fun a => key last < key a) = range.drop limit :=
    List.filter_eq_self.mpr fun a ha =>
      decide_eq_true (hacross last (List.mem_of_getLast? hlast) a ha)
  calc range.take limit ++ range.filter (fun a => key last < key a)
      = range.take limit ++
          ((range.take limit).filter (fun a => key last < key a) ++
            (range.drop limit).filter fun a => key last < key a) := by
        rw [← List.filter_append, List.take_append_drop]
    _ = range := by rw [hpage, hrest, List.nil_append, List.take_append_drop]

/-- A page that has nothing in it is the end of the range. -/
theorem inRange_eq_nil_of_page {items : List α} {start stop limit : Nat} (hlimit : 1 ≤ limit)
    (h : (page key start stop limit items).getLast? = none) : inRange key start stop items = [] := by
  rw [List.getLast?_eq_none_iff, page, List.take_eq_nil_iff] at h
  exact h.resolve_left (by omega)

/-- **A client whose cursor is the key gets the range**, with a request for every key in it at most. -/
theorem pageThrough_eq {items : List α} (hsorted : items.Pairwise fun a b => key a < key b)
    {stop limit : Nat} (hlimit : 1 ≤ limit) : ∀ {fuel start : Nat}, stop < start + fuel →
    (∀ a ∈ inRange key start stop items, cursor a = key a) →
    pageThrough key cursor stop limit items fuel start = some (inRange key start stop items) := by
  intro fuel
  induction fuel with
  | zero =>
    intro start hfuel _
    have hlt : stop < start := hfuel
    rw [pageThrough, if_pos hlt, inRange_eq_nil hlt]
  | succ fuel ih =>
    intro start hfuel hcursor
    rw [pageThrough]
    split
    · rw [inRange_eq_nil ‹_›]
    · cases hlast : (page key start stop limit items).getLast? with
      | none => rw [inRange_eq_nil_of_page hlimit hlast]
      | some last =>
        have hmem : last ∈ inRange key start stop items :=
          List.mem_of_mem_take (List.mem_of_getLast? hlast)
        have hstart := (mem_inRange.mp hmem).2.1
        have hlater : ∀ a ∈ inRange key (key last + 1) stop items, cursor a = key a := by
          intro a ha
          obtain ⟨ha, hlo, hhi⟩ := mem_inRange.mp ha
          exact hcursor a (mem_inRange.mpr ⟨ha, by omega, hhi⟩)
        simp only
        rw [hcursor last hmem, ih (by omega) hlater, Option.map_some, page_append_inRange hsorted hlast]

/-- **A client whose cursor falls behind at the end of the range never comes to an end.** -/
theorem pageThrough_eq_none {items : List α} {stop limit : Nat} (hlimit : 1 ≤ limit) {z : α}
    (hz : z ∈ items) (hstop : key z ≤ stop) (hbehind : cursor z < key z)
    (hlast : ∀ a ∈ items, key a ≤ stop → a = z ∨ key a < key z)
    (hcursor : ∀ a ∈ items, cursor a ≤ key a) : ∀ {fuel start : Nat}, start ≤ key z →
    pageThrough key cursor stop limit items fuel start = none := by
  intro fuel
  induction fuel with
  | zero =>
    intro start hstart
    have hlt : ¬stop < start := by omega
    rw [pageThrough, if_neg hlt]
  | succ fuel ih =>
    intro start hstart
    have hlt : ¬stop < start := by omega
    have hmem : z ∈ inRange key start stop items := mem_inRange.mpr ⟨hz, hstart, hstop⟩
    rw [pageThrough, if_neg hlt]
    cases hpage : (page key start stop limit items).getLast? with
    | none =>
      rw [inRange_eq_nil_of_page hlimit hpage] at hmem
      cases hmem
    | some last =>
      obtain ⟨hitem, -, hle⟩ :=
        mem_inRange.mp (List.mem_of_mem_take (List.mem_of_getLast? hpage))
      -- the next request starts at `z` or before it
      have hnext : cursor last + 1 ≤ key z := by
        rcases hlast last hitem hle with rfl | hbefore
        · omega
        · have := hcursor last hitem
          omega
      simp only
      rw [ih hnext, Option.map_none]

end SubqlSolana.Lib
