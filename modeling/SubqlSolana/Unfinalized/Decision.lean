import SubqlSolana.Unfinalized.Parents

/-!
# What `hasForked` decides

The highest tracked block that the finalized height reaches is either the block of its slot on the
finalized chain, or there is a fork. `hasForked` finds out by looking for the header *in the slot of
the tracked block*: in the finalized header itself, by a request for the slot when the gap is above
`unfinalizedThreshold`, and otherwise by a walk over parents that stops at that slot.

There is no such header when the finalized chain has skipped the slot, and then none of the three
ways ends well: the request throws, and the walk passes the slot by and goes on to the bottom of the
chain. **`hasForked` decides, and asks for nothing further down, exactly when the slot was produced**
(`hasForked_decides_iff`).
-/

set_option autoImplicit false

namespace SubqlSolana

open Lib

variable {C : SlotChain Header} {env env' : Env} {s : Live} {k : Nat} {c r : Header}

/-- The block of its slot. -/
def IsBlockOf (C : SlotChain Header) (b : Header) : Prop :=
  ∃ c, C.produced b.blockHeight = some c ∧ c.blockHash = b.blockHash

/-- From slot `k` on, the two schedules answer alike; below it, and about finality, they need not. -/
structure Env.AgreesFrom (k : Nat) (env env' : Env) : Prop where
  answers : ∀ n slot, k ≤ slot → env.headerReply n slot = env'.headerReply n slot
  crash : ∀ n, env.crash n = env'.crash n

/-- What is expected of a check whose highest record is `r`: an answer, a header exactly when `r` is
forked, and no request below the highest slot that the chain has produced at or below `r`. That
a slot is not asked for shows in this, that whatever the RPC would answer there makes no difference. -/
structure DecidesFork (C : SlotChain Header) (env : Env) (s : Live) (r : Header) : Prop where
  decides : ∀ n, ∃ found, (hasForked env n s.node).1 = .ok found ∧
    (found.isSome = true ↔ ¬IsBlockOf C r)
  frugal : ∀ c, below C.produced (r.blockHeight + 1) = some c →
    ∀ env' : Env, env'.AgreesFrom c.blockHeight env →
      ∀ n, (hasForked env' n s.node).1 = (hasForked env n s.node).1

theorem Env.AgreesFrom.answersFrom (h : env'.AgreesFrom k env) (henv : env.AnswersFrom C 0) :
    env'.AnswersFrom C k where
  answers n slot hk := (h.answers n slot hk).trans (henv.answers n slot (Nat.zero_le _))
  alive n := (h.crash n).trans (henv.alive n)

theorem hasForked_checks (env : Env) (s : Live) (n : Nat) :
    env.Checks s.blocks s.finalized (hasForked env n s.node).1 := by
  obtain ⟨_, _, _, _, _, h⟩ := hasForked_asks env s n
  exact h

theorem isBlockOf_iff (hc : C.produced r.blockHeight = some c) :
    IsBlockOf C r ↔ c.blockHash = r.blockHash := by
  apply Iff.intro
  · intro h
    obtain ⟨c', hc', hash⟩ := h
    rw [hc] at hc'
    rwa [Option.some.inj hc']
  · intro hash
    exact ⟨c, hc, hash⟩

/-- The check, when the slot of the record was produced: only slots from the record's own on are
asked for. -/
theorem hasForked_of_produced (h : env.AnswersFrom C k) (hhash : HasHashes C)
    (hF : OfChain C s.finalized) (hr : closestRecord s.blocks s.finalized.blockHeight = some r)
    (hk : k ≤ r.blockHeight) (hc : C.produced r.blockHeight = some c) (n : Nat) :
    (hasForked env n s.node).1 = .ok (if c.blockHash = r.blockHash then none else some c) := by
  have hslot : c.blockHeight = r.blockHeight := C.slot_eq hc
  have hchain : OfChain C c := by
    rw [OfChain, hslot]
    exact hc
  have hle := (closestRecord_mem hr).2
  have hcanonical : ∀ {b : Header} {o : Outcome Failure Header},
      closestRecord s.blocks s.finalized.blockHeight = some b →
      env.Canonical s.finalized b.blockHeight o → b = r ∧ o = .ok c := by
    intro b o hb hcanonical
    obtain rfl : b = r := Option.some.inj (hb.symm.trans hr)
    rw [← hslot] at hcanonical hk hle
    exact ⟨rfl, h.canonical hhash hF hchain hk hle hcanonical⟩
  have hchecks := hasForked_checks env s n
  generalize (hasForked env n s.node).1 = o at hchecks
  cases hchecks with
  | untracked hnone =>
    rw [hr] at hnone
    cases hnone
  | agrees hb hfound hash =>
    obtain ⟨rfl, ⟨⟩⟩ := hcanonical hb hfound
    rw [if_pos hash]
  | forked hb hfound hash =>
    obtain ⟨rfl, ⟨⟩⟩ := hcanonical hb hfound
    rw [if_neg hash]
  | failed hb hfound => cases (hcanonical hb hfound).2
  | lost hcrash =>
    rw [h.alive] at hcrash
    cases hcrash

/-- A header that `hasForked` compares with is in the slot of the record, so that slot was produced. -/
theorem Env.Canonical.produced (h : env.AnswersFrom C 0) (hF : OfChain C s.finalized)
    {height : Nat} (hcanonical : env.Canonical s.finalized height (.ok c)) :
    ∃ c, C.produced height = some c := by
  obtain ⟨hheight, hsource⟩ := hcanonical.source
  cases hslot : C.produced height with
  | some c => exact ⟨c, rfl⟩
  | none =>
    rcases hsource with hfinalized | hanswers
    · rw [OfChain, ← hfinalized, hheight, hslot] at hF
      cases hF
    · rw [Env.Answers, hheight] at hanswers
      cases h.reply_skipped (Nat.zero_le _) hslot hanswers

theorem produced_of_hasForked (h : env.AnswersFrom C 0) (hF : OfChain C s.finalized)
    (hr : closestRecord s.blocks s.finalized.blockHeight = some r) {n : Nat}
    {found : Option Header} (hfound : (hasForked env n s.node).1 = .ok found) :
    ∃ c, C.produced r.blockHeight = some c := by
  have hchecks := hasForked_checks env s n
  rw [hfound] at hchecks
  cases hchecks with
  | untracked hnone =>
    rw [hr] at hnone
    cases hnone
  | agrees hb hcanonical =>
    cases hb.symm.trans hr
    exact hcanonical.produced h hF
  | forked hb hcanonical =>
    cases hb.symm.trans hr
    exact hcanonical.produced h hF

/-- **When `hasForked` decides.** -/
theorem hasForked_decides_iff (hhash : HasHashes C) (henv : env.AnswersFrom C 0)
    (hF : OfChain C s.finalized)
    (hr : closestRecord s.blocks s.finalized.blockHeight = some r) :
    DecidesFork C env s r ↔ ∃ c, C.produced r.blockHeight = some c := by
  apply Iff.intro
  · intro h
    obtain ⟨found, hfound, -⟩ := h.decides 0
    exact produced_of_hasForked henv hF hr hfound
  · intro h
    obtain ⟨c, hc⟩ := h
    apply DecidesFork.mk
    · intro n
      refine ⟨_, hasForked_of_produced henv hhash hF hr (Nat.zero_le _) hc n, ?_⟩
      rw [isBlockOf_iff hc]
      by_cases hash : c.blockHash = r.blockHash <;> simp [hash]
    · intro c' hc' env' hagrees n
      -- the highest slot at or below the record is the record's own
      obtain rfl : c = c' := by simpa [below, hc] using hc'
      have hslot : c.blockHeight = r.blockHeight := C.slot_eq hc
      rw [hasForked_of_produced henv hhash hF hr (Nat.zero_le _) hc,
        hasForked_of_produced (hagrees.answersFrom henv) hhash hF hr (Nat.le_of_eq hslot) hc]

namespace ForkedSlotSkipped

/-- Slot 2, where the fork `x` was indexed, is skipped on the finalized chain. -/
def a : Header := .untimed 1 "a" "g"
def x : Header := .untimed 2 "x" "a"
def f : Header := .untimed 3 "f" "a"

def finalizedChain : Branch Header := ⟨[a, f], by decide⟩

def rpc : Env := .steady f fun slot =>
  match finalizedChain.chain.produced slot with
  | some header => .block ⟨0, 0, header.blockHash, 0, header.parentHash⟩
  | none => .slotSkipped

/-- A service that tracks `l`, with `f` final. -/
def tracking (l : List Header) : Live := ⟨l, f, .value 1, State.emptyStore⟩

theorem answers : rpc.AnswersFrom finalizedChain.chain 0 :=
  Env.serving_answersFrom (t := finalizedChain) (by decide) f

theorem hashes : HasHashes finalizedChain.chain := hasHashes_of_branch (by decide)

/-- The block below the fork is decided, ... -/
theorem decides_a : DecidesFork finalizedChain.chain rpc (tracking [a]) a := by
  have hf : OfChain finalizedChain.chain (tracking [a]).finalized := rfl
  exact (hasForked_decides_iff hashes answers hf rfl).mpr ⟨a, rfl⟩

/-- ... and the fork is not: the walk passes slot 2 by and leaves the chain, although slot 1 below it was
produced. -/
theorem not_decides_x :
    ¬∀ (C : SlotChain Header) (env : Env) (s : Live) (r : Header), HasHashes C →
      env.AnswersFrom C 0 → OfChain C s.finalized → s.blocks.IsChain Linked →
      closestRecord s.blocks s.finalized.blockHeight = some r →
      (∃ slot < r.blockHeight, (C.produced slot).isSome) → DecidesFork C env s r := by
  intro h
  have hthrows : (hasForked rpc 0 (tracking [a, x]).node).1 = .fail (.error (rpc.negativeSlot 0)) := by
    decide
  have hlinked : (tracking [a, x]).blocks.IsChain Linked := by
    simpa [tracking, linked_iff] using ⟨by decide, by decide⟩
  have hdecides := h finalizedChain.chain rpc (tracking [a, x]) x hashes answers rfl hlinked rfl
    ⟨1, by decide, rfl⟩
  obtain ⟨found, hfound, -⟩ := hdecides.decides 0
  rw [hthrows] at hfound
  cases hfound

end ForkedSlotSkipped

end SubqlSolana
