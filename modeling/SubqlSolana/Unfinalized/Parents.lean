import SubqlSolana.Unfinalized.Answers
import SubqlSolana.Unfinalized.Operations

/-!
# Parents by height

Solana has no lookup by hash, so `getParentHeaderByHeight` asks for the slot below a header, and for the
one below that, as long as the slots were skipped. It looks at no hash on the way and has no lower
bound. Against a chain it is the parent function all the same, over any number of skipped slots, and
**repeating it visits the ancestors of a header one after another** (`heights_lead_to_ancestors`). Both
walks of the service, the one of `hasForked` and the one of `getLastCorrectFinalizedBlock`, are this
repetition.
-/

set_option autoImplicit false

namespace SubqlSolana

open Lib

variable {C : SlotChain Header} {env : Env} {header parent : Header}

/-- `parent` is the block that `header` was built on: it has the hash, and every slot between the two was
skipped. -/
structure IsParent (C : SlotChain Header) (header parent : Header) : Prop where
  ofChain : OfChain C parent
  hash : parent.blockHash = header.parentHash
  blockHeight_lt : parent.blockHeight < header.blockHeight
  skipped : ∀ slot, parent.blockHeight < slot → slot < header.blockHeight → C.produced slot = none

theorem isParent_of_below (hheader : OfChain C header)
    (h : below C.produced header.blockHeight = some parent) : IsParent C header parent := by
  obtain ⟨t, hlt, ht, hskip⟩ := below_spec h
  obtain rfl : parent.blockHeight = t := C.slot_eq ht
  exact ⟨ht, (C.linked hheader h).symm, hlt, hskip⟩

/-- There is a parent unless the header is the lowest one of the chain. -/
theorem exists_parent (h : C.StartsBelow header.blockHeight) :
    ∃ parent, below C.produced header.blockHeight = some parent := by
  obtain ⟨p, c, hp, hlt⟩ := h
  obtain ⟨t, parent, hparent, -⟩ := exists_below hp hlt
  exact ⟨parent, hparent⟩

/-- One step by height is one step to the parent. -/
theorem getParentHeaderByHeight_below (henv : env.AnswersFrom C 0) (s : Live)
    (h : below C.produced header.blockHeight = some parent) :
    Asks env s (getParentHeaderByHeight (header.blockHeight - 1)) fun o => o = .ok parent := by
  obtain ⟨t, hlt, -, -⟩ := below_spec h
  have hheight : header.blockHeight - 1 + 1 = header.blockHeight := by omega
  refine (getParentHeaderByHeight_asks env _ s).mono fun o hbelow => ?_
  rw [hheight] at hbelow
  exact henv.below h (Nat.zero_le _) hbelow

/-- The headers that `count` steps by height come by. -/
def parentsByHeight : Nat → Header → Service (List Header)
  | 0, _ => pure []
  | count + 1, header => do
    let slot ← previousSlot header.blockHeight
    let parent ← getParentHeaderByHeight slot
    let rest ← parentsByHeight count parent
    pure (parent :: rest)

/-- All blocks of the chain below a header, the nearest one first. -/
def ancestors (C : SlotChain Header) (header : Header) : List Header :=
  (C.segment 0 header.blockHeight).reverse

theorem ancestors_of_below (h : below C.produced header.blockHeight = some parent) :
    ancestors C header = parent :: ancestors C parent := by
  unfold ancestors
  rw [C.segment_of_below h (Nat.zero_le _), List.reverse_append]
  rfl

theorem ancestors_of_lowest (h : below C.produced header.blockHeight = none) :
    ancestors C header = [] := by
  unfold ancestors
  rw [C.segment_of_below_none h]
  rfl

/-- Each ancestor is the parent of the one before it. -/
theorem ancestors_isChain (hheader : OfChain C header) :
    (header :: ancestors C header).IsChain (IsParent C) := by
  generalize hn : header.blockHeight = n
  induction n using Nat.strong_induction_on generalizing header with
  | _ n ih =>
    cases h : below C.produced header.blockHeight with
    | none =>
      rw [ancestors_of_lowest h]
      exact .singleton header
    | some parent =>
      have hparent := isParent_of_below hheader h
      rw [ancestors_of_below h]
      exact .cons_cons hparent (ih _ (hn ▸ hparent.blockHeight_lt) hparent.ofChain rfl)

theorem parentsByHeight_asks (henv : env.AnswersFrom C 0) (count : Nat) (s : Live)
    (hcount : count ≤ (ancestors C header).length) :
    Asks env s (parentsByHeight count header) fun o =>
      o = .ok ((ancestors C header).take count) := by
  induction count generalizing header s with
  | zero => exact Asks.pure rfl
  | succ count ih =>
    cases h : below C.produced header.blockHeight with
    | none =>
      rw [ancestors_of_lowest h] at hcount
      cases hcount
    | some parent =>
      rw [ancestors_of_below h] at hcount ⊢
      have hstep := getParentHeaderByHeight_below henv s h
      rw [parentsByHeight]
      generalize header.blockHeight = height at h hstep
      cases height with
      | zero => cases h
      | succ height =>
        show Asks env s (getParentHeaderByHeight height >>= fun parent =>
          parentsByHeight count parent >>= fun rest => pure (parent :: rest)) _
        refine Asks.bind hstep ?_ fun e hfail => by cases hfail
        rintro _ F ⟨⟩
        refine (ih (s.withFinalized F) (Nat.le_of_succ_le_succ hcount)).bind ?_ fun e hfail => by
          cases hfail
        rintro _ F' ⟨⟩
        exact Asks.pure rfl

/-- **Walking down by height is walking from parent to parent**: one step from a header that is not the
lowest one finds its parent, and any number of steps that the chain is long enough for visits as many
ancestors, in order and without a gap. -/
theorem heights_lead_to_ancestors (henv : env.AnswersFrom C 0) (s : Live) (n : Nat)
    (hheader : OfChain C header) :
    (C.StartsBelow header.blockHeight → ∃ parent,
      (getParentHeaderByHeight (header.blockHeight - 1) env n s.node).1 = .ok parent ∧
        IsParent C header parent) ∧
    ∀ count ≤ (ancestors C header).length, ∃ visited,
      (parentsByHeight count header env n s.node).1 = .ok visited ∧ visited.length = count ∧
        visited <+: ancestors C header ∧ (header :: visited).IsChain (IsParent C) := by
  constructor
  · intro hlow
    obtain ⟨parent, h⟩ := exists_parent hlow
    obtain ⟨-, -, -, -, -, hstep⟩ := getParentHeaderByHeight_below henv s h n
    exact ⟨parent, hstep, isParent_of_below hheader h⟩
  · intro count hcount
    obtain ⟨-, -, -, -, -, hvisited⟩ := parentsByHeight_asks henv count s hcount n
    refine ⟨_, hvisited, List.length_take_of_le hcount, List.take_prefix _ _, ?_⟩
    have hprefix : header :: (ancestors C header).take count <+: header :: ancestors C header :=
      List.prefix_cons_inj header |>.mpr (List.take_prefix _ _)
    exact List.IsChain.prefix (ancestors_isChain hheader) hprefix

/-! ## A chain that is served -/

/-- The RPC has the blocks of a branch, and all other slots were skipped. -/
def Env.serving (t : Branch Header) (finalized : Header) : Env :=
  .steady finalized fun slot =>
    match t.chain.produced slot with
    | some header => .block ⟨0, 0, header.blockHash, 0, header.parentHash⟩
    | none => .slotSkipped

/-- The header that the indexer makes of such a block. -/
def Header.Untimed (header : Header) : Prop :=
  header = .untimed header.blockHeight header.blockHash header.parentHash

instance (header : Header) : Decidable header.Untimed := inferInstanceAs (Decidable (_ = _))

theorem Env.serving_answersFrom {t : Branch Header} (h : ∀ b ∈ t.blocks, b.Untimed)
    (finalized : Header) : (Env.serving t finalized).AnswersFrom t.chain 0 where
  answers n slot _ := by
    show getHeaderByHeight true slot ((Env.serving t finalized).getBlock n slot) = _
    unfold Env.serving Env.steady
    dsimp only
    cases hslot : t.chain.produced slot with
    | none => rfl
    | some header =>
      obtain rfl : header.blockHeight = slot := t.chain.slot_eq hslot
      have huntimed : header.Untimed := h header (List.mem_of_find?_eq_some hslot)
      dsimp only
      rw [huntimed]
      rfl
  alive _ := rfl

theorem hasHashes_of_branch {t : Branch Header} (h : ∀ b ∈ t.blocks, b.blockHash ≠ "") :
    HasHashes t.chain :=
  fun hb => h _ (List.mem_of_find?_eq_some hb)

namespace SkippedTwice

/-- Slots 2 and 3 were skipped. -/
def a : Header := .untimed 1 "a" "g"
def d : Header := .untimed 4 "d" "a"

def chain : Branch Header := ⟨[a, d], by decide⟩

/-- A service that waits for `d` to become final. -/
def waiting : Live := ⟨[], d, .undefined, State.emptyStore⟩

theorem heights_lead_to_a : (∃ parent,
      (getParentHeaderByHeight 3 (.serving chain d) 0 waiting.node).1 = .ok parent ∧
        IsParent chain.chain d parent) ∧
    ∃ visited, (parentsByHeight 1 d (.serving chain d) 0 waiting.node).1 = .ok visited ∧
      visited.length = 1 ∧ visited <+: ancestors chain.chain d ∧
      (d :: visited).IsChain (IsParent chain.chain) := by
  have hserved := Env.serving_answersFrom (t := chain) (by decide) d
  have hd : OfChain chain.chain d := rfl
  have hwalk := heights_lead_to_ancestors hserved waiting 0 hd
  exact ⟨hwalk.1 ⟨1, a, rfl, by decide⟩, hwalk.2 1 (by decide)⟩

end SkippedTwice

end SubqlSolana
