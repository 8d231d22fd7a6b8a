import SubqlSolana.Lib.Paging
import SubqlSolana.Unfinalized.Parents

/-!
# Finding the last block whose proof of index is right

`findFinalizedUsingPOI` goes through the proofs of index from a header's height down, page by page, and
returns the header of the first block whose hash on the chain is the one in its proof. The next page is
asked for by height, not by an offset, because blocks may be indexed meanwhile.

So it is one search through all the records, highest first, however they are cut into pages and whatever
comes on top of them (`findFinalizedUsingPOI_asks`). **With an RPC that answers from one chain it returns
the highest block that matches, provided that the chain has a block in the slot of every record above it**
(`findFinalizedUsingPOI_eq_ok_iff`): a record in a slot that the chain skipped stops the search.
-/

set_option autoImplicit false

namespace SubqlSolana

open Lib

/-! ## The method -/

structure ProofOfIndex where
  id : Nat
  chainBlockHash : List UInt8
  deriving Repr, DecidableEq

/-- `storeModelProvider.poi.getPoiBlocksBefore`, at the `await` of this number, for a height. -/
abbrev PoiModel : Type := Nat → Int → List ProofOfIndex

def poiNotEnabled : String := "Poi is not enabled, unable to check for last finalized block"

def noMatchingPoi : String := "Unable to find a POI block with matching block hash"

section

-- how `PoiBlock.create` encodes a block hash
variable (encodeHash : String → List UInt8)

/-- The loop over a page. -/
def searchIndexedBlocks : List ProofOfIndex → Service (Option Header)
  | [] => pure none
  | indexedBlock :: rest => do
    let chainHeader ← getHeaderForHeight indexedBlock.id
    if encodeHash chainHeader.blockHash = indexedBlock.chainBlockHash then pure (some chainHeader)
    else searchIndexedBlocks rest

/-- The loop over the pages. Every page ends at a lower height, so the first height is fuel enough. -/
def searchPoiPages (poiModel : PoiModel) : Nat → Int → Service Header
  | fuel, lastHeight => do
    let indexedBlocks ← Async.awaits (Async.reply fun _ n => poiModel n lastHeight)
    match indexedBlocks.getLast? with
    | none => throw (.error noMatchingPoi)
    | some last =>
      match ← searchIndexedBlocks encodeHash indexedBlocks with
      | some chainHeader => pure chainHeader
      | none =>
        match fuel with
        | 0 => throw (.error noMatchingPoi)
        -- use height rather than offset/limit as data could change in that time
        | fuel + 1 => searchPoiPages poiModel fuel (last.id - 1)

def findFinalizedUsingPOI (poiModel : Option PoiModel) (header : Header) : Service Header :=
  match poiModel with
  | none => throw (.error poiNotEnabled)
  | some poiModel => searchPoiPages encodeHash poiModel (header.blockHeight + 1) header.blockHeight

end

/-! ## What the store has -/

/-- Up to the height `top` the store has these records at all times, highest first, and answers with some
of them at least. Above that height it may have others. -/
structure ServesPoi (poiModel : PoiModel) (top : Nat) (records : List ProofOfIndex) : Prop where
  descending : records.Pairwise fun a b => b.id < a.id
  upTo : ∀ r ∈ records, r.id ≤ top
  pages : ∀ n (height : Int), height ≤ top → ∃ limit, 1 ≤ limit ∧
    poiModel n height = (records.filter fun r => r.id ≤ height).take limit

/-- How far below `top` a record is. -/
def depth (top : Nat) (r : ProofOfIndex) : Nat := top - r.id

section

variable {poiModel : PoiModel} {top : Nat} {records : List ProofOfIndex}

namespace ServesPoi

theorem ascending (h : ServesPoi poiModel top records) :
    records.Pairwise fun a b => depth top a < depth top b := by
  refine List.Pairwise.imp_of_mem ?_ h.descending
  intro a b ha _ hlt
  have := h.upTo a ha
  unfold depth
  omega

/-- The records up to a height are those at a depth. -/
theorem filter_eq_inRange (h : ServesPoi poiModel top records) (start : Nat) :
    (records.filter fun r => (r.id : Int) ≤ (top : Int) - start) =
      inRange (depth top) start top records := by
  refine List.filter_congr fun r hr => ?_
  have := h.upTo r hr
  rw [decide_eq_decide, depth]
  omega

theorem page (h : ServesPoi poiModel top records) (n start : Nat) : ∃ limit, 1 ≤ limit ∧
    poiModel n ((top : Int) - start) = Lib.page (depth top) start top limit records := by
  obtain ⟨limit, hlimit, hpage⟩ := h.pages n ((top : Int) - start) (by omega)
  exact ⟨limit, hlimit, by rw [hpage, h.filter_eq_inRange, Lib.page]⟩

end ServesPoi

/-! ## One search -/

/-- The ends of a search through records. -/
inductive Env.SearchesPoi (env : Env) (encodeHash : String → List UInt8) :
    List ProofOfIndex → Outcome Failure Header → Prop where
  | exhausted : env.SearchesPoi encodeHash [] (.fail (.error noMatchingPoi))
  | matched {r : ProofOfIndex} {rest : List ProofOfIndex} {header : Header}
      (hreply : env.Reply r.id (.ok header)) (h : encodeHash header.blockHash = r.chainBlockHash) :
      env.SearchesPoi encodeHash (r :: rest) (.ok header)
  | step {r : ProofOfIndex} {rest : List ProofOfIndex} {header : Header}
      {o : Outcome Failure Header} (hreply : env.Reply r.id (.ok header))
      (h : encodeHash header.blockHash ≠ r.chainBlockHash)
      (hrest : env.SearchesPoi encodeHash rest o) : env.SearchesPoi encodeHash (r :: rest) o
  | failed {r : ProofOfIndex} {rest : List ProofOfIndex} {e : Failure}
      (hreply : env.Reply r.id (.fail e)) : env.SearchesPoi encodeHash (r :: rest) (.fail e)
  | lost {rest : List ProofOfIndex} {n : Nat} (h : env.crash n = true) :
      env.SearchesPoi encodeHash rest (.fail .crash)

/-- The ends of the search through a page, with what comes after it. -/
def Env.SearchesPage (env : Env) (encodeHash : String → List UInt8) (page : List ProofOfIndex) :
    Outcome Failure (Option Header) → Prop
  | .ok (some header) => ∀ rest, env.SearchesPoi encodeHash (page ++ rest) (.ok header)
  | .ok none => ∀ rest o, env.SearchesPoi encodeHash rest o →
      env.SearchesPoi encodeHash (page ++ rest) o
  | .fail e => ∀ rest, env.SearchesPoi encodeHash (page ++ rest) (.fail e)

theorem searchIndexedBlocks_asks (env : Env) (encodeHash : String → List UInt8) :
    ∀ (page : List ProofOfIndex) (s : Live),
      Asks env s (searchIndexedBlocks encodeHash page) (env.SearchesPage encodeHash page)
  | [], _ => Asks.pure fun _ _ hrest => hrest
  | indexedBlock :: rest, s => by
    rw [searchIndexedBlocks]
    refine (getHeaderForHeight_asks env indexedBlock.id s).bind ?_ fun e hreply _ => .failed hreply
    intro chainHeader F hreply
    split
    · next hmatch => exact Asks.pure fun _ => .matched hreply hmatch
    · next hne =>
      refine (searchIndexedBlocks_asks env encodeHash rest _).mono ?_
      rintro ((_ | header) | e) hrest
      · exact fun after o hafter => .step hreply hne (hrest after o hafter)
      · exact fun after => .step hreply hne (hrest after)
      · exact fun after => .step hreply hne (hrest after)

/-- What a request for a page comes back as. -/
theorem poiPage_asks (env : Env) (h : ServesPoi poiModel top records) (start : Nat) (s : Live) :
    Asks env s (Async.awaits (Async.reply fun _ n => poiModel n ((top : Int) - start))) fun o =>
      (∃ limit, 1 ≤ limit ∧ o = .ok (page (depth top) start top limit records)) ∨
        (∃ n, env.crash n = true) ∧ o = .fail .crash := by
  refine Asks.awaits (Runs.reply fun n => ⟨s.finalized, rfl, .inl ?_⟩) ?_
  · obtain ⟨limit, hlimit, hpage⟩ := h.page n start
    exact ⟨limit, hlimit, congrArg Outcome.ok hpage⟩
  · exact fun _ n _ hn => .inr ⟨⟨n, hn⟩, rfl⟩

/-- The pages are one search through what is left of the records. -/
theorem searchPoiPages_asks (env : Env) (encodeHash : String → List UInt8)
    (h : ServesPoi poiModel top records) : ∀ (fuel start : Nat) (s : Live), top < start + fuel →
      Asks env s (searchPoiPages encodeHash poiModel fuel ((top : Int) - start))
        (env.SearchesPoi encodeHash (inRange (depth top) start top records)) := by
  intro fuel
  induction fuel with
  | zero =>
    intro start s hfuel
    have hempty : inRange (depth top) start top records = [] := inRange_eq_nil hfuel records
    rw [searchPoiPages, hempty]
    refine (poiPage_asks env h start s).bind ?_ ?_
    · rintro _ F (⟨limit, -, ⟨⟩⟩ | ⟨-, ⟨⟩⟩)
      rw [page, hempty, List.take_nil]
      exact Asks.throw .exhausted
    · rintro e (⟨_, -, ⟨⟩⟩ | ⟨⟨n, hn⟩, ⟨⟩⟩)
      exact .lost hn
  | succ fuel ih =>
    intro start s hfuel
    rw [searchPoiPages]
    refine (poiPage_asks env h start s).bind ?_ ?_
    · rintro _ F (⟨limit, hlimit, ⟨⟩⟩ | ⟨-, ⟨⟩⟩)
      cases hlast : (page (depth top) start top limit records).getLast? with
      | none =>
        rw [inRange_eq_nil_of_page hlimit hlast]
        exact Asks.throw .exhausted
      | some last =>
        -- what is left behind the page is at the next depth
        have hrest := page_append_inRange h.ascending hlast
        have hmem : last ∈ inRange (depth top) start top records :=
          List.mem_of_mem_take (List.mem_of_getLast? hlast)
        obtain ⟨hrecord, hstart, -⟩ := mem_inRange.mp hmem
        have htop := h.upTo last hrecord
        have hnext : (last.id : Int) - 1 = (top : Int) - ((depth top last + 1 : Nat) : Int) := by
          unfold depth
          omega
        rw [← hrest]
        refine (searchIndexedBlocks_asks env encodeHash _ _).bind ?_ fun e hpage => hpage _
        rintro (_ | chainHeader) F' hpage
        · dsimp only
          rw [hnext]
          exact (ih (depth top last + 1) _ (by omega)).mono fun o ho => hpage _ o ho
        · exact Asks.pure (hpage _)
    · rintro e (⟨_, -, ⟨⟩⟩ | ⟨⟨n, hn⟩, ⟨⟩⟩)
      exact .lost hn

/-- **One search through all the records**, however they are cut into pages. -/
theorem findFinalizedUsingPOI_asks (env : Env) (encodeHash : String → List UInt8) {header : Header}
    (h : ServesPoi poiModel header.blockHeight records) (s : Live) :
    Asks env s (findFinalizedUsingPOI encodeHash (some poiModel) header)
      (env.SearchesPoi encodeHash records) := by
  have hall : inRange (depth header.blockHeight) 0 header.blockHeight records = records := by
    refine List.filter_eq_self.mpr fun r _ => ?_
    simp [depth]
  have hpages := searchPoiPages_asks env encodeHash h (header.blockHeight + 1) 0 s (by omega)
  rw [hall] at hpages
  rw [findFinalizedUsingPOI]
  simpa using hpages

end

/-! ## Against a chain -/

/-- The record with the highest block that matches, if the chain has a block for every record above. -/
def FirstMatch (C : SlotChain Header) (encodeHash : String → List UInt8)
    (records : List ProofOfIndex) (R : Header) : Prop :=
  ∃ above r below, records = above ++ r :: below ∧ C.produced r.id = some R ∧
    encodeHash R.blockHash = r.chainBlockHash ∧
    ∀ r' ∈ above, ∃ other, C.produced r'.id = some other ∧
      encodeHash other.blockHash ≠ r'.chainBlockHash

section

variable {C : SlotChain Header} {env : Env} {encodeHash : String → List UInt8}
  {records : List ProofOfIndex} {R : Header}

theorem firstMatch_cons {r : ProofOfIndex} {rest : List ProofOfIndex} {header : Header}
    (hheader : C.produced r.id = some header) : FirstMatch C encodeHash (r :: rest) R ↔
      if encodeHash header.blockHash = r.chainBlockHash then R = header
      else FirstMatch C encodeHash rest R := by
  unfold FirstMatch
  constructor
  · rintro ⟨_ | ⟨first, above⟩, r', below, hsplit, hR, hmatch, habove⟩
    · cases hsplit
      cases hheader.symm.trans hR
      rw [if_pos hmatch]
    · cases hsplit
      obtain ⟨other, hother, hne⟩ := habove r List.mem_cons_self
      cases hheader.symm.trans hother
      rw [if_neg hne]
      exact ⟨above, r', below, rfl, hR, hmatch, fun r'' h => habove r'' (.tail _ h)⟩
  · intro h
    split at h
    · next hmatch =>
      subst h
      exact ⟨[], r, rest, rfl, hheader, hmatch, by simp⟩
    · next hne =>
      obtain ⟨above, r', below, rfl, hR, hmatch, habove⟩ := h
      exact ⟨r :: above, r', below, rfl, hR, hmatch,
        List.forall_mem_cons.mpr ⟨⟨header, hheader, hne⟩, habove⟩⟩

theorem not_firstMatch_of_skipped {r : ProofOfIndex} {rest : List ProofOfIndex}
    (hnone : C.produced r.id = none) : ¬FirstMatch C encodeHash (r :: rest) R := by
  rintro ⟨_ | ⟨first, above⟩, r', below, hsplit, hR, -, habove⟩
  · cases hsplit
    rw [hnone] at hR
    cases hR
  · cases hsplit
    obtain ⟨other, hother, -⟩ := habove r List.mem_cons_self
    rw [hnone] at hother
    cases hother

/-- With answers from a chain, a search ends in one way. -/
theorem Env.SearchesPoi.eq_ok_iff (henv : env.AnswersFrom C 0) {o : Outcome Failure Header}
    (h : env.SearchesPoi encodeHash records o) :
    o = .ok R ↔ FirstMatch C encodeHash records R := by
  induction h with
  | exhausted =>
    refine iff_of_false (by simp) ?_
    rintro ⟨above, r, below, hsplit, -⟩
    simp at hsplit
  | @matched r rest header hreply hmatch =>
    cases hslot : C.produced r.id with
    | none => cases henv.reply_skipped (Nat.zero_le _) hslot hreply
    | some b =>
      cases henv.reply_produced (Nat.zero_le _) hslot hreply
      rw [firstMatch_cons hslot, if_pos hmatch, Outcome.ok.injEq, eq_comm]
  | @step r rest header o hreply hne _ ih =>
    cases hslot : C.produced r.id with
    | none => cases henv.reply_skipped (Nat.zero_le _) hslot hreply
    | some b =>
      cases henv.reply_produced (Nat.zero_le _) hslot hreply
      rw [firstMatch_cons hslot, if_neg hne, ih]
  | @failed r rest e hreply =>
    cases hslot : C.produced r.id with
    | none => exact iff_of_false (by simp) (not_firstMatch_of_skipped hslot)
    | some b => cases henv.reply_produced (Nat.zero_le _) hslot hreply
  | lost hcrash =>
    rw [henv.alive] at hcrash
    cases hcrash

/-- **What is found by the proofs of index.** -/
theorem findFinalizedUsingPOI_eq_ok_iff {poiModel : PoiModel} {header : Header}
    (henv : env.AnswersFrom C 0) (h : ServesPoi poiModel header.blockHeight records) (n : Nat)
    (s : Live) :
    (findFinalizedUsingPOI encodeHash (some poiModel) header env n s.node).1 = .ok R ↔
      FirstMatch C encodeHash records R := by
  obtain ⟨-, -, -, -, -, hsearch⟩ := findFinalizedUsingPOI_asks env encodeHash h s n
  exact hsearch.eq_ok_iff henv

end

/-! ## Proofs of an abandoned block -/

namespace Reindexed

/-- The block that was indexed in slot 3 is not the one that the chain has there. -/
def chain : Branch Header :=
  ⟨[.untimed 1 "a" "g", .untimed 2 "b" "a", .untimed 3 "c" "b"], by decide⟩

def encodeHash (hash : String) : List UInt8 := hash.toUTF8.data.toList

def records : List ProofOfIndex :=
  [⟨3, encodeHash "x"⟩, ⟨2, encodeHash "b"⟩, ⟨1, encodeHash "a"⟩]

/-- One record a page. -/
def poiModel : PoiModel := fun _ height => (records.filter fun r => (r.id : Int) ≤ height).take 1

theorem serves : ServesPoi poiModel 3 records where
  descending := by decide
  upTo := by decide
  pages _ _ _ := ⟨1, Nat.le_refl 1, rfl⟩

def finalized : Header := .untimed 3 "c" "b"

/-- The second page has the block to go back to. -/
theorem goes_back_to_b :
    (findFinalizedUsingPOI encodeHash (some poiModel) (.untimed 3 "x" "b")
      (.serving chain finalized) 0 (Live.node ⟨[], finalized, .undefined, State.emptyStore⟩)).1 =
        .ok (.untimed 2 "b" "a") := by
  refine (findFinalizedUsingPOI_eq_ok_iff (Env.serving_answersFrom (by decide) finalized) serves 0
    _).mpr ?_
  refine ⟨[⟨3, encodeHash "x"⟩], ⟨2, encodeHash "b"⟩, [⟨1, encodeHash "a"⟩], rfl, rfl, rfl, ?_⟩
  intro r hr
  obtain rfl := List.mem_singleton.mp hr
  exact ⟨.untimed 3 "c" "b", rfl, by decide⟩

end Reindexed

end SubqlSolana
