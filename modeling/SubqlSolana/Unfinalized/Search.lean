import SubqlSolana.Unfinalized.Parents

/-!
# The search for the rewind target

`getLastCorrectFinalizedBlock` compares the tracked headers that finality has reached, highest first,
with the forked header and its ancestors. It goes on by one header on both sides at once, and a header
is compared with two blocks only: the ancestor it has come to, and the parent of that one.

So the highest tracked header that is a block of the chain is found only if the two walks are in step
when they get there (`InStep`): between it and the forked header the chain has as many blocks as the
tracked list has headers above it up to the finalized height, or one more. **Otherwise the header is
missed** (`namesBest_iff`), and a lower one or the height to fall back to takes its place.
-/

set_option autoImplicit false

namespace SubqlSolana

open Lib

variable {T : BlockTree String} {C : SlotChain Header} {env : Env} {s : Live}
  {best forked checking : Header} {above rest : List Header}

/-! ## What is expected -/

/-- The highest tracked header that finality has reached and that is a block of the chain. -/
structure BestAncestor (C : SlotChain Header) (s : Live) (best : Header) : Prop where
  mem : best ∈ s.blocks
  reached : best.blockHeight ≤ s.finalized.blockHeight
  has : C.Has best
  highest : ∀ b ∈ s.blocks, b.blockHeight ≤ s.finalized.blockHeight → C.Has b →
    b.blockHeight ≤ best.blockHeight

/-- The search returns that header if there is one. It does so whatever `lastCheckedBlockHeight` is: the
height is of no use then. -/
def NamesBest (C : SlotChain Header) (env : Env) (s : Live) (forked : Header) : Prop :=
  ∀ best, BestAncestor C s best → ∀ checked n,
    (getLastCorrectFinalizedBlock forked env n (s.withChecked checked).node).1 = .ok (some best)

/-- The tracked headers above a header that finality has reached. -/
def reachedAbove (s : Live) (best : Header) : List Header :=
  s.blocks.filter fun b => best.blockHeight < b.blockHeight ∧ b.blockHeight ≤ s.finalized.blockHeight

/-- The blocks of the chain from a header's slot up to another one, which is left out. -/
def between (C : SlotChain Header) (best forked : Header) : List Header :=
  C.segment best.blockHeight forked.blockHeight

/-- The walk over the tracked headers and the one over the chain arrive together. -/
def InStep (C : SlotChain Header) (s : Live) (best forked : Header) : Prop :=
  best.blockHeight ≤ forked.blockHeight ∧
    ((between C best forked).length = (reachedAbove s best).length ∨
      (between C best forked).length = (reachedAbove s best).length + 1)

/-! ## The tracked headers in the order of the search -/

theorem verifiableBlocks_split (hlinked : s.blocks.IsChain Linked) (hmem : best ∈ s.blocks)
    (hreached : best.blockHeight ≤ s.finalized.blockHeight) :
    ∃ rest, verifiableBlocks s = (reachedAbove s best).reverse ++ best :: rest ∧
      ∀ b ∈ rest, b.blockHeight < best.blockHeight := by
  obtain ⟨pre, post, hsplit⟩ := List.append_of_mem hmem
  have hpairwise : s.blocks.Pairwise fun a b => a.blockHeight < b.blockHeight :=
    Branch.slot_pairwise ⟨s.blocks, hlinked⟩
  rw [hsplit, List.pairwise_append, List.pairwise_cons] at hpairwise
  obtain ⟨-, ⟨hpost, -⟩, hpre⟩ := hpairwise
  replace hpre : ∀ b ∈ pre, b.blockHeight < best.blockHeight :=
    fun b hb => hpre b hb best List.mem_cons_self
  have habove : reachedAbove s best =
      post.filter fun b => b.blockHeight ≤ s.finalized.blockHeight := by
    have hnone : pre.filter (fun b => best.blockHeight < b.blockHeight ∧
        b.blockHeight ≤ s.finalized.blockHeight) = [] := by
      rw [List.filter_eq_nil_iff]
      intro b hb
      have := hpre b hb
      simp only [decide_eq_true_eq]
      omega
    rw [reachedAbove, hsplit, List.filter_append, hnone, List.nil_append,
      List.filter_cons_of_neg (by simp)]
    refine List.filter_congr fun b hb => ?_
    have := hpost b hb
    simp only [decide_eq_decide]
    exact and_iff_right this
  refine ⟨pre.reverse, ?_, fun b hb => hpre b (List.mem_reverse.mp hb)⟩
  have hall : pre.filter (fun b => b.blockHeight ≤ s.finalized.blockHeight) = pre := by
    rw [List.filter_eq_self]
    intro b hb
    have := hpre b hb
    simp only [decide_eq_true_eq]
    omega
  rw [verifiableBlocks, hsplit, List.filter_append, hall,
    List.filter_cons_of_pos (by simpa using hreached), habove]
  simp

/-! ## The chain between the two -/

theorem between_of_eq (C : SlotChain Header) (h : best.blockHeight = checking.blockHeight) :
    between C best checking = [] := by
  rw [between, h, C.segment_self]

/-- One step to the parent is one block less. -/
theorem length_between {parent : Header} (h : below C.produced checking.blockHeight = some parent)
    (hle : best.blockHeight ≤ parent.blockHeight) :
    (between C best checking).length = (between C best parent).length + 1 := by
  unfold between
  rw [C.segment_of_below h hle, List.length_append]
  rfl

/-- There is something between two blocks only if one is below the other. -/
theorem lt_of_between_ne_nil {b : Header} (hle : b.blockHeight ≤ checking.blockHeight)
    (h : between C b checking ≠ []) : b.blockHeight < checking.blockHeight := by
  rcases Nat.lt_or_eq_of_le hle with hlt | heq
  · exact hlt
  · exact absurd (between_of_eq C heq) h

/-- A block of the chain below another one is at or below the parent of that one. -/
theorem exists_parent_between {b : Header} (hb : OfChain C b)
    (hlt : b.blockHeight < checking.blockHeight) :
    ∃ parent, below C.produced checking.blockHeight = some parent ∧ OfChain C parent ∧
      b.blockHeight ≤ parent.blockHeight ∧
      (between C b checking).length = (between C b parent).length + 1 := by
  obtain ⟨t, parent, hparent, ht, hle, -⟩ := exists_below hb hlt
  obtain rfl : parent.blockHeight = t := C.slot_eq ht
  exact ⟨parent, hparent, ht, hle, length_between hparent hle⟩

/-- Nothing is between two blocks only if they are the same. -/
theorem eq_of_between_eq_nil {b : Header} (hb : OfChain C b) (hchecking : OfChain C checking)
    (hle : b.blockHeight ≤ checking.blockHeight) (h : between C b checking = []) : b = checking := by
  rcases Nat.lt_or_eq_of_le hle with hlt | heq
  · have hmem : b ∈ between C b checking :=
      SlotChain.mem_segment.mpr ⟨b.blockHeight, Nat.le_refl _, hlt, hb⟩
    rw [h] at hmem
    cases hmem
  · rw [OfChain, heq, hchecking] at hb
    exact (Option.some.inj hb).symm

/-! ## In step -/

/-- **A walk that is in step finds the block**, `c`, that the chain has for the tracked header. -/
theorem Env.Searches.named {checked : Nullish Nat} {o : Outcome Failure (Option Header)} {c : Header}
    (henv : env.AnswersFrom C 0) (hhash : HasHashes C) (hc : OfChain C c)
    (hsame : best.blockHash = c.blockHash) (hnot : ∀ b ∈ above, ¬C.Has b)
    (hchecking : OfChain C checking) (hle : c.blockHeight ≤ checking.blockHeight)
    (hlen : (between C c checking).length = above.length ∨
      (between C c checking).length = above.length + 1)
    (h : env.Searches checked (above ++ best :: rest) checking o) : o = .ok (some best) := by
  induction above generalizing checking with
  | nil =>
    rw [List.length_nil] at hlen
    have hmatch : best.blockHash = checking.blockHash ∨ best.blockHash = checking.parentHash := by
      rcases hlen with hlen | hlen
      · rw [← eq_of_between_eq_nil hc hchecking hle (List.length_eq_zero_iff.mp hlen)]
        exact .inl hsame
      · -- `c` is the parent of the block that was come to
        have hne : between C c checking ≠ [] := List.ne_nil_of_length_eq_add_one hlen
        obtain ⟨parent, hparent, hof, hle, hlength⟩ :=
          exists_parent_between hc (lt_of_between_ne_nil hle hne)
        have hempty : between C c parent = [] := List.length_eq_zero_iff.mp (by omega)
        rw [eq_of_between_eq_nil hc hof hle hempty] at hsame
        exact .inr (hsame.trans (C.linked hchecking hparent).symm)
    cases h with
    | matched => rfl
    | step hnomatch => exact absurd hmatch hnomatch
    | failed hnomatch => exact absurd hmatch hnomatch
  | cons b above ih =>
    rw [List.length_cons] at hlen
    have hne : between C c checking ≠ [] := List.ne_nil_of_length_pos (by omega)
    obtain ⟨parent, hparent, hof, hle, hlength⟩ :=
      exists_parent_between hc (lt_of_between_ne_nil hle hne)
    have hb : ¬C.Has b := hnot b List.mem_cons_self
    cases h with
    | matched hmatch =>
      rcases hmatch with hmatch | hmatch
      · exact absurd ⟨_, checking, hchecking, hmatch.symm⟩ hb
      · exact absurd ⟨_, parent, hof, (hmatch.trans (C.linked hchecking hparent)).symm⟩ hb
    | step _ hstep hrest =>
      obtain rfl := Outcome.ok.inj (henv.parent hhash hchecking hparent (Nat.zero_le _) hstep)
      exact ih (fun b hb => hnot b (.tail _ hb)) hof hle (by omega) hrest
    | failed _ hstep => cases henv.parent hhash hchecking hparent (Nat.zero_le _) hstep

/-- What was asked for and answered is a block of the chain. -/
theorem Env.Answers.ofChain (henv : env.AnswersFrom C 0) {header : Header}
    (h : env.Answers header) : OfChain C header := by
  unfold OfChain
  cases hslot : C.produced header.blockHeight with
  | none => cases henv.reply_skipped (Nat.zero_le _) hslot h
  | some b =>
    have hsame := henv.reply_produced (Nat.zero_le _) hslot h
    rw [Outcome.ok.inj hsame]

/-- **Only a walk that is in step finds the header**, with no height to fall back to. -/
theorem Env.Searches.inStep (hT : T.Contains C) (henv : env.AnswersFrom C 0) (hhash : HasHashes C)
    (hbest : T.Mem best) (hhas : C.Has best) (hrest : best ∉ rest) (habove : best ∉ above)
    (hchecking : OfChain C checking)
    (h : env.Searches .undefined (above ++ best :: rest) checking (.ok (some best))) :
    best.blockHeight ≤ checking.blockHeight ∧
      ((between C best checking).length = above.length ∨
        (between C best checking).length = above.length + 1) := by
  obtain ⟨c, hc, hcb⟩ := BlockTree.produced_of_has hT hbest hhas
  replace hc : C.produced best.blockHeight = some c := hc
  have hslot : c.blockHeight = best.blockHeight := C.slot_eq hc
  induction above generalizing checking with
  | nil =>
    have hmem : T.Mem checking := hT hchecking
    cases h with
    | matched hmatch =>
      rcases hmatch with hmatch | hmatch
      · have heq : best.blockHeight = checking.blockHeight := hbest.slot_of_hash hmem hmatch
        refine ⟨Nat.le_of_eq heq, .inl ?_⟩
        rw [between_of_eq C heq]
      · -- a parent is in an earlier slot than its child
        have hlt : best.blockHeight < checking.blockHeight :=
          hbest.slot_lt_of_parent hmem hmatch.symm
        obtain ⟨t, parent, hparent, ht, -⟩ := exists_below hc hlt
        have hlink : checking.parentHash = parent.blockHash := C.linked hchecking hparent
        have heq : best.blockHeight = parent.blockHeight :=
          hbest.slot_of_hash (hT ht) (hmatch.trans hlink)
        refine ⟨Nat.le_of_lt hlt, .inr ?_⟩
        rw [length_between hparent (Nat.le_of_eq heq), between_of_eq C heq]
    | step _ _ hsearch =>
      rcases hsearch.source with ⟨hmem, -⟩ | ⟨height, ⟨⟩, -⟩
      exact absurd hmem hrest
  | cons b above ih =>
    cases h with
    | matched => exact absurd List.mem_cons_self habove
    | step _ hstep hsearch =>
      rename_i parent
      have hof := hstep.answers.ofChain henv
      have hlt := hstep.blockHeight_lt
      obtain ⟨hle, hlen⟩ := ih (fun hmem => habove (.tail _ hmem)) hof hsearch
      obtain ⟨t, parent', hparent, -⟩ := exists_below hof hlt
      obtain rfl := Outcome.ok.inj (henv.parent hhash hchecking hparent (Nat.zero_le _) hstep)
      have hlength := length_between hparent hle
      rw [List.length_cons]
      exact ⟨by omega, by omega⟩

/-- **The best ancestor is named exactly if the walks are in step.** -/
theorem namesBest_iff (hT : T.Contains C) (hmem : ∀ b ∈ s.blocks, T.Mem b)
    (hlinked : s.blocks.IsChain Linked) (hhash : HasHashes C) (henv : env.AnswersFrom C 0)
    (hforked : OfChain C forked) :
    NamesBest C env s forked ↔ ∀ best, BestAncestor C s best → InStep C s best forked := by
  refine forall₂_congr fun best hbest => ?_
  obtain ⟨rest, hsplit, hrest⟩ := verifiableBlocks_split hlinked hbest.mem hbest.reached
  have hsearches : ∀ checked n, env.Searches checked ((reachedAbove s best).reverse ++ best :: rest)
      forked (getLastCorrectFinalizedBlock forked env n (s.withChecked checked).node).1 := by
    intro checked n
    obtain ⟨-, -, -, -, -, h⟩ := getLastCorrectFinalizedBlock_asks env forked (s.withChecked checked) n
    rw [← hsplit]
    exact h
  constructor
  · intro h
    have hsearch := hsearches .undefined 0
    rw [h .undefined 0] at hsearch
    have hnotRest : best ∉ rest := fun hmem => Nat.lt_irrefl _ (hrest best hmem)
    have hnotAbove : best ∉ (reachedAbove s best).reverse := by
      intro hmem
      have := List.of_mem_filter (List.mem_reverse.mp hmem)
      simp at this
    have hstep := hsearch.inStep hT henv hhash (hmem best hbest.mem) hbest.has hnotRest hnotAbove
      hforked
    rwa [List.length_reverse] at hstep
  · intro h checked n
    obtain ⟨hle, hlen⟩ := h
    obtain ⟨c, hc, hcb⟩ := BlockTree.produced_of_has hT (hmem best hbest.mem) hbest.has
    have hslot : c.blockHeight = best.blockHeight := C.slot_eq hc
    have hnot : ∀ b ∈ (reachedAbove s best).reverse, ¬C.Has b := by
      intro b hb hhas
      obtain ⟨hmem, habove⟩ := List.mem_filter.mp (List.mem_reverse.mp hb)
      simp only [decide_eq_true_eq] at habove
      have := hbest.highest b hmem habove.2 hhas
      omega
    have hof : OfChain C c := by
      rw [OfChain, hslot]
      exact hc
    refine (hsearches checked n).named henv hhash hof hcb.symm hnot hforked (by omega) ?_
    rw [List.length_reverse, between, hslot]
    exact hlen

namespace TwoForks

/-- The finalized chain has a block in each of the slots 1 to 4. Two forks leave it after `a`: `y` in
slot 2, and `x` in slot 4, with nothing in between. -/
def a : Header := .untimed 1 "a" "g"
def b : Header := .untimed 2 "b" "a"
def c : Header := .untimed 3 "c" "b"
def d : Header := .untimed 4 "d" "c"
def x : Header := .untimed 4 "x" "a"
def y : Header := .untimed 2 "y" "a"

def finalizedChain : Branch Header := ⟨[a, b, c, d], by decide⟩

def tree : BlockTree String := .ofBlocks [a, b, c, d, x, y] (by decide)

/-- A service that tracks `l`, with no height to fall back to. -/
def tracking (l : List Header) (finalized : Header) : Live :=
  ⟨l, finalized, .undefined, State.emptyStore⟩

theorem contains : tree.Contains finalizedChain.chain := BlockTree.contains_chain (by decide)

theorem hashes : HasHashes finalizedChain.chain := hasHashes_of_branch (by decide)

theorem answers (finalized : Header) :
    (Env.serving finalizedChain finalized).AnswersFrom finalizedChain.chain 0 :=
  Env.serving_answersFrom (by decide) finalized

theorem not_has {e : Header} (h : ∀ b ∈ finalizedChain.blocks, b.blockHash ≠ e.blockHash) :
    ¬finalizedChain.chain.Has e := by
  intro hhas
  obtain ⟨b, hb, hash⟩ := finalizedChain.chain_has_iff.mp hhas
  exact h b hb hash

/-- The search goes from `y` to `a` while it goes from `b` to `a`. -/
theorem finds_a : NamesBest finalizedChain.chain (.serving finalizedChain b) (tracking [a, y] b) b := by
  have hlinked : (tracking [a, y] b).blocks.IsChain Linked := by
    simpa [tracking, linked_iff] using ⟨by decide, by decide⟩
  have hforked : OfChain finalizedChain.chain b := rfl
  refine (namesBest_iff contains (by decide) hlinked hashes (answers b) hforked).mpr ?_
  intro best hbest
  have hmem := hbest.mem
  simp only [tracking, List.mem_cons, List.not_mem_nil, or_false] at hmem
  rcases hmem with rfl | rfl
  · exact ⟨by decide, .inl rfl⟩
  · exact absurd hbest.has (not_has (by decide))

/-- **The search misses `a`**: it goes from `x` to `a` while it goes from `d` to `c` only. -/
theorem misses_a : ¬∀ (T : BlockTree String) (C : SlotChain Header) (env : Env) (s : Live)
    (forked : Header), T.Contains C → (∀ b ∈ s.blocks, T.Mem b) → s.blocks.IsChain Linked →
    HasHashes C → env.AnswersFrom C 0 → OfChain C forked → NamesBest C env s forked := by
  intro h
  have hlinked : (tracking [a, x] d).blocks.IsChain Linked := by
    simpa [tracking, linked_iff] using ⟨by decide, by decide⟩
  have hbest : BestAncestor finalizedChain.chain (tracking [a, x] d) a := by
    refine ⟨by decide, by decide, ⟨1, a, rfl, rfl⟩, fun b hb _ hhas => ?_⟩
    simp only [tracking, List.mem_cons, List.not_mem_nil, or_false] at hb
    rcases hb with rfl | rfl
    · exact Nat.le_refl _
    · exact absurd hhas (not_has (by decide))
  have hnamed := h tree _ (.serving finalizedChain d) (tracking [a, x] d) d contains (by decide)
    hlinked hashes (answers d) rfl a hbest .undefined 0
  have hnone : (getLastCorrectFinalizedBlock d (.serving finalizedChain d) 0
      ((tracking [a, x] d).withChecked .undefined).node).1 = .ok none := by
    decide
  rw [hnone] at hnamed
  cases hnamed

end TwoForks

end SubqlSolana
