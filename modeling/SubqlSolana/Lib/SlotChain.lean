import Mathlib.Data.List.Chain
import Mathlib.Tactic.Common

/-!
# Chains with skipped slots

A chain that produces at most one block per *slot*, and none in many of them. A block carries its
slot, its hash and the hash of its parent. Three things are defined over any type of such blocks:

* a `Branch`: a list of blocks in slot order, each the child of the one before it. It says nothing
  about the slots between two neighbours;
* a `SlotChain`: the whole chain as a lookup by slot, in which the parent of a produced block is the
  *nearest* produced block below it, however many slots were skipped in between;
* a `BlockTree`: the blocks there are, canonical or not, where a hash identifies its block.

`Branch.has_of_le` is the reason for the three together: **if one block of a branch is on a chain,
then so is every block of the branch before it** — provided the chain starts below the branch, because
below its lowest block a chain says nothing.
-/

set_option autoImplicit false

namespace SubqlSolana.Lib

/-- What a chain needs to know of a block. -/
class SlotBlock (β : Type) (H : outParam Type) where
  slot : β → Nat
  hash : β → H
  parent : β → H

open SlotBlock

variable {β H : Type} [SlotBlock β H]

/-- `b` is a child of `a`, in a later slot. -/
def Linked (a b : β) : Prop := slot a < slot b ∧ parent b = hash a

instance [DecidableEq H] : DecidableRel (Linked (β := β)) := fun _ _ =>
  inferInstanceAs (Decidable (_ ∧ _))

/-! ## Branches -/

/-- Blocks in slot order, each the child of the one before it. -/
structure Branch (β : Type) {H : Type} [SlotBlock β H] where
  blocks : List β
  linked : blocks.IsChain Linked

namespace Branch

def empty : Branch β := ⟨[], .nil⟩

/-- One more block, a child of the last one if there is a last one. -/
def extend (t : Branch β) (b : β) (h : ∀ a ∈ t.blocks.getLast?, Linked a b) : Branch β where
  blocks := t.blocks ++ [b]
  linked := by
    refine List.isChain_append.mpr ⟨t.linked, .singleton b, fun a ha b' hb' => ?_⟩
    obtain rfl : b = b' := by simpa using hb'
    exact h a ha

/-- Slots increase along a branch, not only from one block to the next. -/
theorem slot_pairwise (t : Branch β) : t.blocks.Pairwise (fun a b : β => slot a < slot b) := by
  have hlt : t.blocks.IsChain (fun a b : β => slot a < slot b) := t.linked.imp fun _ _ h => h.1
  have : Trans (fun a b : β => slot a < slot b) (fun a b => slot a < slot b)
      (fun a b : β => slot a < slot b) := ⟨fun h h' => Nat.lt_trans h h'⟩
  exact List.isChain_iff_pairwise.mp hlt

/-- Everything in front of a block is in an earlier slot, everything behind it in a later one. -/
theorem mem_prefix_of_le {t : Branch β} {pre post : List β} {r b : β}
    (h : t.blocks = pre ++ r :: post) (hb : b ∈ t.blocks) (hle : slot b ≤ slot r) :
    b ∈ pre ++ [r] := by
  have hp := t.slot_pairwise
  rw [h, List.pairwise_append, List.pairwise_cons] at hp
  rw [h] at hb
  simp only [List.mem_append, List.mem_cons] at hb
  rcases hb with hb | rfl | hb
  · exact List.mem_append_left _ hb
  · simp
  · have := hp.2.1.1 b hb
    omega

theorem filter_above_suffix : ∀ {l : List β} (n : Nat),
    l.Pairwise (fun a b => slot a < slot b) → l.filter (fun b => n < slot b) <:+ l
  | [], _, _ => List.suffix_rfl
  | a :: l, n, h => by
    rw [List.pairwise_cons] at h
    by_cases ha : n < slot a
    · -- everything after `a` is above `n` too, so nothing is dropped
      have hall : (a :: l).filter (fun b => n < slot b) = a :: l := by
        refine List.filter_eq_self.mpr fun b hb => ?_
        rcases List.mem_cons.mp hb with rfl | hb
        · simpa using ha
        · have hlt := h.1 b hb
          exact decide_eq_true (Nat.lt_trans ha hlt)
      exact ⟨[], hall⟩
    · rw [List.filter_cons_of_neg (by simpa using ha)]
      exact (filter_above_suffix n h.2).trans (List.suffix_cons a l)

/-- The blocks above a slot: a suffix, because slots increase. -/
def above (t : Branch β) (n : Nat) : Branch β where
  blocks := t.blocks.filter fun b => n < slot b
  linked := t.linked.suffix (filter_above_suffix n t.slot_pairwise)

@[simp] theorem empty_blocks : (empty : Branch β).blocks = [] := rfl

@[simp] theorem extend_blocks (t : Branch β) (b : β) (h : ∀ a ∈ t.blocks.getLast?, Linked a b) :
    (t.extend b h).blocks = t.blocks ++ [b] := rfl

@[simp] theorem above_blocks (t : Branch β) (n : Nat) :
    (t.above n).blocks = t.blocks.filter fun b => n < slot b := rfl

end Branch

/-! ## Chains -/

/-- The block in the highest produced slot below `s`. -/
def below (produced : Nat → Option β) : Nat → Option β
  | 0 => none
  | s + 1 => (produced s).or (below produced s)

/-- A chain as a lookup by slot. -/
structure SlotChain (β : Type) {H : Type} [SlotBlock β H] where
  produced : Nat → Option β
  slot_eq : ∀ {s b}, produced s = some b → slot b = s
  linked : ∀ {s b a}, produced s = some b → below produced s = some a → parent b = hash a

theorem below_spec {f : Nat → Option β} : ∀ {s : Nat} {a : β}, below f s = some a →
    ∃ t, t < s ∧ f t = some a ∧ ∀ u, t < u → u < s → f u = none
  | 0, _, h => by simp [below] at h
  | s + 1, a, h => by
    rw [below] at h
    cases hs : f s with
    | some b =>
      rw [hs, Option.some_or, Option.some.injEq] at h
      exact ⟨s, by omega, by rw [hs, h], fun u _ _ => by omega⟩
    | none =>
      rw [hs, Option.none_or] at h
      obtain ⟨t, ht, hta, hskip⟩ := below_spec h
      refine ⟨t, by omega, hta, fun u hu hus => ?_⟩
      rcases Nat.lt_succ_iff_lt_or_eq.mp hus with hlt | rfl
      · exact hskip u hu hlt
      · exact hs

/-- Above a produced slot there is always a block to fall back to, and it is not below that slot. -/
theorem exists_below {f : Nat → Option β} {p s : Nat} {a : β} (hp : f p = some a) (hlt : p < s) :
    ∃ t b, below f s = some b ∧ f t = some b ∧ p ≤ t ∧ t < s := by
  induction s with
  | zero => omega
  | succ s ih =>
    cases hs : f s with
    | some b => exact ⟨s, b, by simp [below, hs], hs, by omega, by omega⟩
    | none =>
      have hps : p < s := by
        rcases Nat.lt_succ_iff_lt_or_eq.mp hlt with h | rfl
        · exact h
        · rw [hp] at hs
          cases hs
      obtain ⟨t, b, hb, ht, hpt, hts⟩ := ih hps
      exact ⟨t, b, by simp [below, hs, hb], ht, hpt, by omega⟩

namespace SlotChain

/-- The chain has a block below slot `n`, so a parent hash of a block at `n` leads somewhere. -/
def StartsBelow (C : SlotChain β) (n : Nat) : Prop := ∃ p c, C.produced p = some c ∧ p < n

theorem StartsBelow.mono {C : SlotChain β} {n m : Nat} (h : C.StartsBelow n) (hle : n ≤ m) :
    C.StartsBelow m := by
  obtain ⟨p, c, hp, hlt⟩ := h
  exact ⟨p, c, hp, by omega⟩

/-- A block is on a chain when its hash is the hash of one of the chain's blocks. -/
def Has (C : SlotChain β) (b : β) : Prop := ∃ s c, C.produced s = some c ∧ hash c = hash b

theorem Has.of_produced {C : SlotChain β} {s : Nat} {b : β} (h : C.produced s = some b) : C.Has b :=
  ⟨s, b, h, rfl⟩

/-- The produced blocks of the slots `lo, …, hi - 1`, in order: a contiguous piece of the chain,
every skipped slot left out. -/
def segment (C : SlotChain β) (lo hi : Nat) : List β :=
  (List.range' lo (hi - lo)).filterMap C.produced

theorem segment_self (C : SlotChain β) (n : Nat) : C.segment n n = [] := by simp [segment]

/-- One more slot: its block if it has one. -/
theorem segment_succ (C : SlotChain β) {lo hi : Nat} (h : lo ≤ hi) :
    C.segment lo (hi + 1) = C.segment lo hi ++ (C.produced hi).toList := by
  have hlen : hi + 1 - lo = (hi - lo) + 1 := by omega
  have hlast : lo + 1 * (hi - lo) = hi := by omega
  rw [segment, hlen, List.range'_concat, List.filterMap_append, hlast, segment]
  congr 1

theorem mem_segment {C : SlotChain β} {lo hi : Nat} {b : β} :
    b ∈ C.segment lo hi ↔ ∃ s, lo ≤ s ∧ s < hi ∧ C.produced s = some b := by
  simp only [segment, List.mem_filterMap, List.mem_range'_1]
  constructor
  · rintro ⟨s, ⟨h1, h2⟩, hs⟩
    exact ⟨s, h1, by omega, hs⟩
  · rintro ⟨s, h1, h2, hs⟩
    exact ⟨s, ⟨h1, by omega⟩, hs⟩

/-- The last block of a segment is the parent of whatever the next slot produces. -/
theorem below_of_segment_getLast? {C : SlotChain β} {lo : Nat} {a : β} : ∀ {hi : Nat}, lo ≤ hi →
    (C.segment lo hi).getLast? = some a → below C.produced hi = some a
  | 0, h, ha => by
    obtain rfl : lo = 0 := by omega
    simp [segment] at ha
  | hi + 1, h, ha => by
    by_cases hlo : lo ≤ hi
    · rw [segment_succ C hlo] at ha
      rw [below]
      cases hs : C.produced hi with
      | some b =>
        rw [hs] at ha
        simpa using ha
      | none =>
        rw [hs] at ha
        rw [Option.none_or]
        exact below_of_segment_getLast? hlo (by simpa using ha)
    · obtain rfl : lo = hi + 1 := by omega
      rw [segment_self] at ha
      simp at ha

/-- Dropping the blocks up to a slot leaves a segment. -/
theorem segment_filter_above (C : SlotChain β) (lo hi n : Nat) :
    (C.segment lo hi).filter (fun b => n < slot b) = C.segment (max lo (n + 1)) hi := by
  induction hi with
  | zero => simp [segment]
  | succ hi ih =>
    by_cases hlo : lo ≤ hi
    · rw [segment_succ C hlo, List.filter_append, ih]
      by_cases hn : n + 1 ≤ hi
      · rw [segment_succ C (by omega)]
        congr 1
        cases hs : C.produced hi with
        | none => rfl
        | some b =>
          have hb := C.slot_eq hs
          simp only [Option.toList_some]
          rw [List.filter_cons_of_pos (by simp only [decide_eq_true_eq]; omega), List.filter_nil]
      · -- the new slot is itself at or below `n`
        have hempty : ∀ k, max lo (n + 1) ≥ k → C.segment (max lo (n + 1)) k = [] := fun k hk => by
          simp [segment, Nat.sub_eq_zero_of_le hk]
        rw [hempty hi (by omega), hempty (hi + 1) (by omega), List.nil_append]
        cases hs : C.produced hi with
        | none => rfl
        | some b =>
          have hb := C.slot_eq hs
          simp only [Option.toList_some]
          rw [List.filter_cons_of_neg (by simp only [decide_eq_true_eq]; omega), List.filter_nil]
    · have h1 : hi + 1 - lo = 0 := by omega
      have h2 : hi + 1 - max lo (n + 1) = 0 := by omega
      simp [segment, h1, h2]

/-- One slot more in front. -/
theorem segment_cons (C : SlotChain β) {lo hi : Nat} (h : lo < hi) :
    C.segment lo hi = (C.produced lo).toList ++ C.segment (lo + 1) hi := by
  obtain ⟨k, rfl⟩ := Nat.exists_eq_add_of_lt h
  have hlen : lo + k + 1 - lo = k + 1 := by omega
  have hlen' : lo + k + 1 - (lo + 1) = k := by omega
  rw [segment, segment, hlen, hlen', List.range'_succ, List.filterMap_cons]
  cases C.produced lo <;> rfl

/-- The last block of a segment is the parent of what the next slot produces. -/
theorem segment_of_below (C : SlotChain β) {lo hi : Nat} {a : β}
    (ha : below C.produced hi = some a) (hlo : lo ≤ slot a) :
    C.segment lo hi = C.segment lo (slot a) ++ [a] := by
  induction hi with
  | zero => cases ha
  | succ hi ih =>
    rw [below] at ha
    cases hs : C.produced hi with
    | some b =>
      rw [hs, Option.some_or, Option.some.injEq] at ha
      subst ha
      obtain rfl : slot b = hi := C.slot_eq hs
      rw [segment_succ C hlo, hs]
      rfl
    | none =>
      rw [hs, Option.none_or] at ha
      obtain ⟨t, ht, hat, -⟩ := below_spec ha
      have hle : lo ≤ hi := by
        rw [C.slot_eq hat] at hlo
        omega
      rw [segment_succ C hle, hs, ih ha]
      simp

theorem segment_of_below_none (C : SlotChain β) {lo hi : Nat} (h : below C.produced hi = none) :
    C.segment lo hi = [] := by
  rw [List.eq_nil_iff_forall_not_mem]
  intro b hb
  obtain ⟨s, -, hlt, hs⟩ := mem_segment.mp hb
  obtain ⟨t, c, hc, -⟩ := exists_below hs hlt
  rw [h] at hc
  cases hc

/-- A contiguous piece of a chain: all of its blocks from the first of the list to the last. -/
def Contiguous (C : SlotChain β) (l : List β) : Prop :=
  ∀ a ∈ l.head?, ∀ b ∈ l.getLast?, l = C.segment (slot a) (slot b + 1)

theorem Contiguous.nil {C : SlotChain β} : C.Contiguous [] := fun _ ha => by cases ha

theorem segment_head? {C : SlotChain β} {lo hi : Nat} {a : β}
    (ha : (C.segment lo hi).head? = some a) : C.segment lo hi = C.segment (slot a) hi := by
  generalize hn : hi - lo = n
  induction n generalizing lo with
  | zero =>
    rw [segment, hn] at ha
    cases ha
  | succ n ih =>
    have hlt : lo < hi := by omega
    cases hs : C.produced lo with
    | some c =>
      rw [segment_cons C hlt, hs] at ha
      obtain rfl : c = a := by simpa using ha
      rw [C.slot_eq hs]
    | none =>
      have hskip : C.segment lo hi = C.segment (lo + 1) hi := by simp [segment_cons C hlt, hs]
      rw [hskip] at ha ⊢
      exact ih ha (by omega)

theorem segment_getLast? {C : SlotChain β} {lo hi : Nat} {b : β}
    (hb : (C.segment lo hi).getLast? = some b) : C.segment lo hi = C.segment lo (slot b + 1) := by
  induction hi with
  | zero =>
    rw [segment, Nat.zero_sub] at hb
    cases hb
  | succ hi ih =>
    by_cases hlo : lo ≤ hi
    · cases hs : C.produced hi with
      | some c =>
        rw [segment_succ C hlo, hs] at hb
        obtain rfl : c = b := by simpa using hb
        rw [C.slot_eq hs]
      | none =>
        have hskip : C.segment lo (hi + 1) = C.segment lo hi := by simp [segment_succ C hlo, hs]
        rw [hskip] at hb ⊢
        exact ih hb
    · rw [segment, Nat.sub_eq_zero_of_le (by omega)] at hb
      cases hb

theorem contiguous_segment (C : SlotChain β) (lo hi : Nat) : C.Contiguous (C.segment lo hi) := by
  intro a ha b hb
  rw [segment_head? ha] at hb ⊢
  rw [segment_getLast? hb]

theorem contiguous_iff {C : SlotChain β} {l : List β} :
    C.Contiguous l ↔ ∃ lo hi, l = C.segment lo hi := by
  constructor
  · intro h
    cases l with
    | nil => exact ⟨0, 0, (segment_self C 0).symm⟩
    | cons a l => exact ⟨_, _, h a rfl _ (List.getLast?_eq_getLast_of_ne_nil (List.cons_ne_nil a l))⟩
  · rintro ⟨lo, hi, rfl⟩
    exact contiguous_segment C lo hi

theorem Contiguous.above {C : SlotChain β} {l : List β} (h : C.Contiguous l) (n : Nat) :
    C.Contiguous (l.filter fun b => n < slot b) := by
  obtain ⟨lo, hi, rfl⟩ := contiguous_iff.mp h
  rw [segment_filter_above]
  exact contiguous_segment C _ _

/-- Every hash is the hash of one block of the chain at most. -/
def HashesDistinct (C : SlotChain β) : Prop :=
  ∀ {s t : Nat} {a b : β}, C.produced s = some a → C.produced t = some b → hash a = hash b → a = b

/-- Then a child comes right after its parent: there is no block of the chain between them. -/
theorem HashesDistinct.below_of_linked {C : SlotChain β} (h : C.HashesDistinct) {a b : β}
    (ha : C.produced (slot a) = some a) (hb : C.produced (slot b) = some b) (hlinked : Linked a b) :
    below C.produced (slot b) = some a := by
  obtain ⟨t, c, hc, ht, -⟩ := exists_below ha hlinked.1
  have hhash : hash c = hash a := (C.linked hb hc).symm.trans hlinked.2
  rw [hc, h ht ha hhash]

theorem Contiguous.produced {C : SlotChain β} {l : List β} (h : C.Contiguous l) :
    ∀ b ∈ l, C.produced (slot b) = some b := by
  intro b hb
  obtain ⟨lo, hi, rfl⟩ := contiguous_iff.mp h
  obtain ⟨s, -, -, hs⟩ := mem_segment.mp hb
  rw [C.slot_eq hs]
  exact hs

theorem contiguous_singleton {C : SlotChain β} {b : β} (h : C.produced (slot b) = some b) :
    C.Contiguous [b] := by
  refine contiguous_iff.mpr ⟨slot b, slot b + 1, ?_⟩
  rw [segment_succ C (Nat.le_refl _), segment_self, h]
  rfl

/-- The next block of the chain. -/
theorem Contiguous.append {C : SlotChain β} {l : List β} (h : C.Contiguous l) {a b : β}
    (ha : l.getLast? = some a) (hbelow : below C.produced (slot b) = some a)
    (hb : C.produced (slot b) = some b) : C.Contiguous (l ++ [b]) := by
  obtain ⟨first, hfirst⟩ : ∃ first, l.head? = some first := by
    cases l with
    | nil => cases ha
    | cons first _ => exact ⟨first, rfl⟩
  have hsegment := h first hfirst a ha
  have hle : slot first ≤ slot a := by
    obtain ⟨s, hs, -, has⟩ := mem_segment.mp (hsegment ▸ List.mem_of_getLast? ha)
    rw [C.slot_eq has]
    exact hs
  have hlt : slot a < slot b := by
    obtain ⟨t, ht, hta, -⟩ := below_spec hbelow
    rw [C.slot_eq hta]
    exact ht
  refine contiguous_iff.mpr ⟨slot first, slot b + 1, ?_⟩
  have hown := h.produced a (List.mem_of_getLast? ha)
  rw [segment_succ C (Nat.le_trans hle (Nat.le_of_lt hlt)), hb, segment_of_below C hbelow hle,
    hsegment, segment_succ C hle, hown]
  rfl

end SlotChain

/-! ## Every branch is a chain -/

theorem Branch.slot_inj (t : Branch β) {a b : β} (ha : a ∈ t.blocks) (hb : b ∈ t.blocks)
    (h : slot a = slot b) : a = b := by
  obtain ⟨pre, post, hsplit⟩ := List.append_of_mem ha
  have hp := t.slot_pairwise
  rw [hsplit, List.pairwise_append, List.pairwise_cons] at hp
  rw [hsplit] at hb
  rcases List.mem_append.mp hb with hb | hb
  · have := hp.2.2 b hb a List.mem_cons_self
    omega
  · rcases List.mem_cons.mp hb with rfl | hb
    · rfl
    · have := hp.2.1.1 b hb
      omega

/-- In a branch, the block in front of `b` is the one in the nearest slot below. -/
theorem Branch.parent_of_nearest (t : Branch β) {a b : β} (ha : a ∈ t.blocks) (hb : b ∈ t.blocks)
    (hlt : slot a < slot b) (hnearest : ∀ d ∈ t.blocks, slot a < slot d → ¬slot d < slot b) :
    parent b = hash a := by
  obtain ⟨pre, post, hsplit⟩ := List.append_of_mem hb
  have hpre : a ∈ pre := by
    have := t.mem_prefix_of_le hsplit ha (Nat.le_of_lt hlt)
    rcases List.mem_append.mp this with h | h
    · exact h
    · obtain rfl := List.mem_singleton.mp h
      omega
  obtain ⟨front, d, rfl⟩ := pre.eq_nil_or_concat.resolve_left (List.ne_nil_of_mem hpre)
  rw [List.concat_eq_append, List.append_assoc, List.singleton_append] at hsplit
  have hlinked : Linked d b := by
    have hchain := t.linked
    rw [hsplit] at hchain
    exact (List.isChain_cons_cons.mp (List.isChain_append.mp hchain).2.1).1
  have had : a = d := by
    rw [List.concat_eq_append] at hpre
    rcases List.mem_append.mp hpre with hfront | hd
    · -- an earlier block would have `d` between it and `b`
      have hp := t.slot_pairwise
      rw [hsplit, List.pairwise_append] at hp
      have had := hp.2.2 a hfront d List.mem_cons_self
      exact absurd hlinked.1 (hnearest d (by simp [hsplit]) had)
    · exact List.mem_singleton.mp hd
  rw [hlinked.2, had]

/-- The chain that produces the blocks of a branch and no others. -/
def Branch.chain (t : Branch β) : SlotChain β where
  produced s := t.blocks.find? fun b => slot b = s
  slot_eq h := by simpa using List.find?_some h
  linked {s b a} hb ha := by
    obtain ⟨u, hus, hu, hskip⟩ := below_spec ha
    have hslot : slot b = s := by simpa using List.find?_some hb
    have hslot' : slot a = u := by simpa using List.find?_some hu
    refine t.parent_of_nearest (List.mem_of_find?_eq_some hu) (List.mem_of_find?_eq_some hb)
      (by omega) fun d hd had hdb => ?_
    have := List.find?_eq_none.mp (hskip (slot d) (by omega) (by omega)) d hd
    simp at this

theorem Branch.mem_of_produced {t : Branch β} {s : Nat} {b : β} (h : t.chain.produced s = some b) :
    b ∈ t.blocks := by
  have hfind : t.blocks.find? (fun b => slot b = s) = some b := h
  exact List.mem_of_find?_eq_some hfind

theorem Branch.chain_has_iff (t : Branch β) {b : β} :
    t.chain.Has b ↔ ∃ c ∈ t.blocks, hash c = hash b := by
  constructor
  · rintro ⟨s, c, hc, h⟩
    exact ⟨c, List.mem_of_find?_eq_some hc, h⟩
  · rintro ⟨c, hc, h⟩
    cases hfind : t.chain.produced (slot c) with
    | none =>
      have := List.find?_eq_none.mp hfind c hc
      simp at this
    | some d =>
      have hslot := t.chain.slot_eq hfind
      obtain rfl := t.slot_inj (List.mem_of_find?_eq_some hfind) hc hslot
      exact ⟨slot d, d, hfind, h⟩

/-! ## The tree of all blocks -/

/-- The blocks there are, on every fork, by hash: the slot and the parent of each. A parent is in an
earlier slot than its child. -/
structure BlockTree (H : Type) where
  find : H → Option (Nat × H)
  parent_below : ∀ {h parent : H} {s s' : Nat} {p : H}, find h = some (s, parent) →
    find parent = some (s', p) → s' < s

namespace BlockTree

variable {T : BlockTree H} {C : SlotChain β}

/-- A block is in the tree when its hash identifies it there. -/
def Mem (T : BlockTree H) (b : β) : Prop := T.find (hash b) = some (slot b, parent b)

instance [DecidableEq H] (b : β) : Decidable (T.Mem b) := inferInstanceAs (Decidable (_ = _))

theorem Mem.slot_of_hash {a b : β} (ha : T.Mem a) (hb : T.Mem b) (h : hash a = hash b) :
    slot a = slot b := by
  rw [Mem, h, hb] at ha
  exact (congrArg Prod.fst (Option.some.inj ha)).symm

theorem Mem.parent_of_hash {a b : β} (ha : T.Mem a) (hb : T.Mem b) (h : hash a = hash b) :
    parent a = parent b := by
  rw [Mem, h, hb] at ha
  exact (congrArg Prod.snd (Option.some.inj ha)).symm

theorem Mem.slot_lt_of_parent {a b : β} (ha : T.Mem a) (hb : T.Mem b) (h : parent b = hash a) :
    slot a < slot b := by
  rw [Mem, h] at hb
  exact T.parent_below hb ha

/-- The tree of the given blocks. -/
def ofBlocks [DecidableEq H] (blocks : List β)
    (h : ∀ a ∈ blocks, ∀ b ∈ blocks, parent a = hash b → slot b < slot a) : BlockTree H where
  find x := (blocks.find? fun b : β => hash b = x).map fun b => (slot b, parent b)
  parent_below {x p s s' q} hx hp := by
    obtain ⟨a, ha, hax⟩ := Option.map_eq_some_iff.mp hx
    obtain ⟨b, hb, hbp⟩ := Option.map_eq_some_iff.mp hp
    cases hax
    cases hbp
    refine h a (List.mem_of_find?_eq_some ha) b (List.mem_of_find?_eq_some hb) ?_
    have : hash b = parent a := by simpa using List.find?_some hb
    exact this.symm

/-- A chain of blocks of the tree. -/
def Contains (T : BlockTree H) (C : SlotChain β) : Prop :=
  ∀ {s : Nat} {b : β}, C.produced s = some b → T.Mem b

theorem contains_chain {t : Branch β} (h : ∀ b ∈ t.blocks, T.Mem b) : T.Contains t.chain :=
  fun hb => h _ (List.mem_of_find?_eq_some hb)

/-- The block of the chain with the hash of `b` is in `b`'s own slot. -/
theorem produced_of_has (hC : T.Contains C) {b : β} (hb : T.Mem b) (h : C.Has b) :
    ∃ c, C.produced (slot b) = some c ∧ hash c = hash b := by
  obtain ⟨s, c, hs, hc⟩ := h
  have hslot := (hC hs).slot_of_hash hb hc
  rw [C.slot_eq hs] at hslot
  exact ⟨c, hslot ▸ hs, hc⟩

/-- **The parent of a block on the chain is on the chain.** That the chain starts below the parent
keeps the argument off its bottom, where a parent hash leads nowhere. -/
theorem has_of_parent (hC : T.Contains C) {a b : β} (ha : T.Mem a) (hb : T.Mem b)
    (hfloor : C.StartsBelow (slot a)) (hpar : parent b = hash a) (h : C.Has b) : C.Has a := by
  obtain ⟨p, c₀, hp, hpa⟩ := hfloor
  obtain ⟨c, hc, hcb⟩ := produced_of_has hC hb h
  have hab := ha.slot_lt_of_parent hb hpar
  obtain ⟨t, d, hbelow, hd, -, -⟩ := exists_below hp (show p < slot b by omega)
  refine ⟨t, d, hd, ?_⟩
  rw [← C.linked hc hbelow, (hC hc).parent_of_hash hb hcb, hpar]

/-- **Two chains with a block in common have the same blocks below it**, as far down as the second one
reaches. The descent is along the first. -/
theorem has_of_common {D : SlotChain β} (hC : T.Contains C) (hD : T.Contains D) {r b : β}
    (hr : T.Mem r) (hCr : C.Has r) (hDr : D.Has r) (hb : T.Mem b) (hCb : C.Has b)
    (hfloor : D.StartsBelow (slot b)) (hle : slot b ≤ slot r) : D.Has b := by
  generalize hn : slot r = n at hle
  induction n using Nat.strong_induction_on generalizing r with
  | _ n ih =>
    obtain ⟨c, hc, hcr⟩ := produced_of_has hC hr hCr
    obtain ⟨c', hc', hcb⟩ := produced_of_has hC hb hCb
    rcases Nat.lt_or_eq_of_le hle with hlt | heq
    · obtain ⟨t, d, hbelow, hd, hbt, htr⟩ := exists_below hc' (hn ▸ hlt)
      have hdt := C.slot_eq hd
      refine ih t (hn ▸ htr) (hC hd) (.of_produced hd) ?_ hdt hbt
      have hpar : parent r = hash d := (hC hc).parent_of_hash hr hcr ▸ C.linked hc hbelow
      exact has_of_parent hD (hC hd) hr (hfloor.mono (by omega)) hpar hDr
    · -- the same slot
      rw [hn, ← heq, hc'] at hc
      obtain rfl := Option.some.inj hc
      obtain ⟨s, e, he, hash⟩ := hDr
      exact ⟨s, e, he, hash.trans (hcr.symm.trans hcb)⟩

end BlockTree

/-- **One block of a branch on a chain puts every earlier block of the branch on it.** -/
theorem Branch.has_of_le {T : BlockTree H} {C : SlotChain β} (hC : T.Contains C) (t : Branch β)
    (hmem : ∀ b ∈ t.blocks, T.Mem b) (hfloor : ∀ b ∈ t.blocks, C.StartsBelow (slot b)) {r b : β}
    (hr : r ∈ t.blocks) (hhas : C.Has r) (hb : b ∈ t.blocks) (hle : slot b ≤ slot r) :
    C.Has b := by
  obtain ⟨pre, post, hsplit⟩ := List.append_of_mem hr
  have hpre : (pre ++ [r]).IsChain Linked := by
    refine t.linked.prefix ⟨post, ?_⟩
    rw [hsplit, List.append_assoc, List.singleton_append]
  have hsub : ∀ x ∈ pre ++ [r], x ∈ t.blocks := by
    intro x hx
    rw [hsplit]
    simp only [List.mem_append, List.mem_cons, List.not_mem_nil, or_false] at hx ⊢
    tauto
  -- descend from `r`, one parent link at a time
  have hall : ∀ x ∈ pre ++ [r], x ∈ pre ++ [r] → C.Has x := by
    have hlinked := List.IsChain.iff_mem.mp hpre
    refine hlinked.backwards_induction (fun x => x ∈ pre ++ [r] → C.Has x) _ ?_ ?_
    · rintro x y ⟨hx, hy, hxy⟩ hy' -
      exact BlockTree.has_of_parent hC (hmem x (hsub x hx)) (hmem y (hsub y hy))
        (hfloor x (hsub x hx)) hxy.2 (hy' hy)
    · intro _ _
      simpa using hhas
  have hbpre := t.mem_prefix_of_le hsplit hb hle
  exact hall b hbpre hbpre

end SubqlSolana.Lib
