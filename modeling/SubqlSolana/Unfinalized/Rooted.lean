import SubqlSolana.Unfinalized.ListInvariant

/-!
# What a check of the tracked list proves

`hasForked` compares *one* tracked block with the finalized chain, the highest one that finality has
reached. That is enough, because the list is a branch: the hashes of a block's ancestors are determined
by its own hash. `verified_of_checks` says so for the code.

The argument needs three things of the list (`rooted`): it is a branch; its headers are blocks of one
`BlockTree`, so a hash means the same block everywhere; and the finalized chain starts below it. The
last holds because a list only ever starts above a finalized header.
-/

set_option autoImplicit false

namespace SubqlSolana

open Lib

variable {T : BlockTree String} {C : SlotChain Header}

/-- A finalized header: a block of the tree that is on the finalized chain `C`. -/
structure OnChain (T : BlockTree String) (C : SlotChain Header) (header : Header) : Prop where
  mem : T.Mem header
  has : C.Has header

theorem OnChain.produced {header : Header} (h : OnChain T C header) (hC : T.Contains C) :
    (C.produced header.blockHeight).isSome := by
  obtain ⟨c, hc, -⟩ := BlockTree.produced_of_has hC h.mem h.has
  exact Option.isSome_of_eq_some hc

/-- To be a branch of blocks of the tree, above the start of the finalized chain. -/
structure Rooted (T : BlockTree String) (C : SlotChain Header) (l : List Header) : Prop where
  linked : l.IsChain Linked
  mem : ∀ b ∈ l, T.Mem b
  floor : ∀ b ∈ l, C.StartsBelow b.blockHeight

theorem Rooted.slot_pairwise {l : List Header} (h : Rooted T C l) :
    l.Pairwise fun a b => a.blockHeight < b.blockHeight :=
  Branch.slot_pairwise ⟨l, h.linked⟩

/-- One tracked block on the chain puts every tracked block below it on the chain. -/
theorem Rooted.has_of_le {l : List Header} (h : Rooted T C l) (hC : T.Contains C) {r b : Header}
    (hr : r ∈ l) (hhas : C.Has r) (hb : b ∈ l) (hle : b.blockHeight ≤ r.blockHeight) : C.Has b :=
  Branch.has_of_le hC ⟨l, h.linked⟩ h.mem h.floor hr hhas hb hle

def rooted (hC : T.Contains C) : ListInvariant where
  holds := Rooted T C
  header := T.Mem
  finalized := OnChain T C
  nil := ⟨.nil, by simp, by simp⟩
  above n h := by
    refine ⟨(Branch.above ⟨_, h.linked⟩ n).linked, fun b hb => ?_, fun b hb => ?_⟩
    · exact h.mem b (List.mem_of_mem_filter hb)
    · exact h.floor b (List.mem_of_mem_filter hb)
  revive h := by
    rw [List.map_map]
    refine ⟨?_, ?_, ?_⟩
    · rw [List.isChain_map]
      exact h.linked.imp fun _ _ hlinked => hlinked
    all_goals
      intro _ hrevived
      obtain ⟨b, hb, rfl⟩ := List.mem_map.mp hrevived
    · exact h.mem b hb
    · exact h.floor b hb
  first {F header} hF hheader hlt := by
    obtain ⟨c, hc, -⟩ := BlockTree.produced_of_has hC hF.mem hF.has
    refine ⟨.singleton _, fun b hb => ?_, fun b hb => ?_⟩ <;> obtain rfl := List.mem_singleton.mp hb
    · exact hheader
    · exact ⟨F.blockHeight, c, hc, hlt⟩
  push {l last header} h hlast hlinked hheader := by
    have hmem := List.mem_of_getLast? hlast
    refine ⟨isChain_append_singleton.mpr ⟨h.linked, fun a ha => ?_⟩, fun b hb => ?_, fun b hb => ?_⟩
    · obtain rfl := Option.some.inj (hlast.symm.trans ha)
      exact hlinked
    · rcases List.mem_append.mp hb with hb | hb
      · exact h.mem b hb
      · obtain rfl := List.mem_singleton.mp hb
        exact hheader
    · rcases List.mem_append.mp hb with hb | hb
      · exact h.floor b hb
      · obtain rfl := List.mem_singleton.mp hb
        exact (h.floor last hmem).mono (Nat.le_of_lt (linked_iff.mp hlinked).1)

/-! ## Runs on one finalized chain -/

/-- Every header a schedule brings is a block of the tree, and every finalized one is on `C`. -/
structure Env.InTree (T : BlockTree String) (C : SlotChain Header) (env : Env) : Prop where
  answers : ∀ {n slot : Nat} {h : Header}, env.headerReply n slot = .ok h → T.Mem h
  registered : ∀ {n : Nat} {F : Header}, F ∈ env.finality n → OnChain T C F
  returned : ∀ {n : Nat} {F : Header}, env.getFinalizedHeader n = .ok F → OnChain T C F

/-- The same of an operation. The headers that are passed may be on any fork. -/
def Op.InTree (T : BlockTree String) (C : SlotChain Header) : Op → Prop
  | .init env _ => env.InTree T C
  | .process env header => env.InTree T C ∧ ∀ h ∈ header, T.Mem h
  | .registerFinalizedBlock header => OnChain T C header
  | .reset env _ => env.InTree T C
  | .crash => True

theorem rooted_admits (hC : T.Contains C) {env : Env} (h : env.InTree T C) : (rooted hC).Admits env :=
  ⟨h.answers, h.registered, h.returned⟩

theorem rooted_may (hC : T.Contains C) {op : Op} {w : State} (h : op.InTree T C) :
    (rooted hC).service.may op w := by
  cases op with
  | init env _ => exact ⟨rooted_admits hC h, ⟨⟩⟩
  | process env header => exact ⟨rooted_admits hC h.1, fun _ _ => h.2⟩
  | registerFinalizedBlock => exact h
  | reset env _ => exact rooted_admits hC h
  | crash => exact ⟨⟩

theorem rooted_reached (hC : T.Contains C) {ops : List Op}
    (h : Permitted Op.next (fun op _ => op.InTree T C) ops (State.started State.emptyStore)) :
    (rooted hC).service.Holds (runAll Op.next ops (State.started State.emptyStore)) :=
  (rooted hC).service.reached (h.mono fun _ _ => rooted_may hC)

/-! ## The check -/

/-- The headers the RPC answers for the slots up to `n` are those of `C`. Above `n`, and in saying which
slots were skipped, it may be wrong. -/
def Env.HonestTo (env : Env) (C : SlotChain Header) (n : Nat) : Prop :=
  ∀ {k slot : Nat} {header : Header}, slot ≤ n → env.headerReply k slot = .ok header → C.Has header

variable {env : Env} {n : Nat}

/-- An RPC that has no block for any slot brings no header. -/
theorem Env.skipped_inTree {F : Header} (hF : OnChain T C F) :
    (Env.steady F fun _ => .slotSkipped).InTree T C where
  answers h := by cases h
  registered h := by cases h
  returned h := by cases h; exact hF

theorem Env.skipped_honestTo (F : Header) (C : SlotChain Header) (n : Nat) :
    (Env.steady F fun _ => .slotSkipped).HonestTo C n := fun _ hanswer => by cases hanswer

theorem Env.HonestTo.answers (h : env.HonestTo C n) {header : Header} (hle : header.blockHeight ≤ n)
    (hanswers : env.Answers header) : C.Has header := by
  cases hanswers with
  | header hanswer => exact h hle hanswer

theorem Env.HonestTo.canonical {F found : Header} (h : env.HonestTo C F.blockHeight) (hF : C.Has F)
    {height : Nat} (hle : height ≤ F.blockHeight)
    (hcanonical : env.Canonical F height (.ok found)) : C.Has found := by
  obtain ⟨rfl, rfl | hanswers⟩ := hcanonical.source
  · exact hF
  · exact h.answers hle hanswers

/-- The closest record is the highest one. -/
theorem closestRecord_max {l : List Header} {b b' : Header}
    (hl : l.Pairwise fun a b => a.blockHeight < b.blockHeight) (h : closestRecord l n = some b)
    (hb' : b' ∈ l) (hle : b'.blockHeight ≤ n) : b'.blockHeight ≤ b.blockHeight := by
  obtain ⟨-, higher, lower, hsplit, hnone⟩ := List.find?_eq_some_iff_append.mp h
  have hdesc : l.reverse.Pairwise fun a b => b.blockHeight < a.blockHeight :=
    List.pairwise_reverse.mpr hl
  rw [hsplit, List.pairwise_append, List.pairwise_cons] at hdesc
  have hmem : b' ∈ higher ++ b :: lower := hsplit ▸ List.mem_reverse.mpr hb'
  rcases List.mem_append.mp hmem with hmem | hmem
  · have := hnone b' hmem
    simp only [Bool.not_eq_true', decide_eq_false_iff_not] at this
    omega
  · rcases List.mem_cons.mp hmem with rfl | hmem
    · exact Nat.le_refl _
    · exact Nat.le_of_lt (hdesc.2.1.1 b' hmem)

theorem closestRecord_eq_none {l : List Header} (h : closestRecord l n = none) {b : Header}
    (hb : b ∈ l) : n < b.blockHeight := by
  have := List.find?_eq_none.mp h b (List.mem_reverse.mpr hb)
  simpa using this

/-- **A check that finds no fork has verified every tracked block that finality has reached**, though it
looked at one of them. -/
theorem verified_of_checks (hC : T.Contains C) {l : List Header} (hl : Rooted T C l) {F : Header}
    (hF : C.Has F) (hhonest : env.HonestTo C F.blockHeight) (h : env.Checks l F (.ok none))
    {b : Header} (hb : b ∈ l) (hle : b.blockHeight ≤ F.blockHeight) : C.Has b := by
  cases h with
  | untracked hclosest =>
    have := closestRecord_eq_none hclosest hb
    omega
  | @agrees r header hclosest hcanonical hash =>
    obtain ⟨hr, hrle⟩ := closestRecord_mem hclosest
    obtain ⟨s, c, hc, hcheader⟩ := hhonest.canonical hF hrle hcanonical
    have hhas : C.Has r := ⟨s, c, hc, hcheader.trans hash⟩
    exact hl.has_of_le hC hr hhas hb (closestRecord_max hl.slot_pairwise hclosest hb hle)

end SubqlSolana
