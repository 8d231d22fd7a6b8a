import SubqlSolana.Unfinalized.Requests

/-!
# Answers from a chain

What the functions of `Unfinalized.Requests` come to when the RPC answers from one chain. Only the
slots from some slot on need to be answered so: below it the answers are arbitrary, exceptions
included, and a function that arrives all the same has not asked for any of them.
-/

set_option autoImplicit false

namespace SubqlSolana

open Lib

/-- A header of the chain, in its own slot. -/
def OfChain (C : SlotChain Header) (header : Header) : Prop :=
  C.produced header.blockHeight = some header

/-- The block hashes of a chain are not empty texts. -/
def HasHashes (C : SlotChain Header) : Prop :=
  ∀ {slot : Nat} {header : Header}, C.produced slot = some header → header.blockHash ≠ ""

/-- From slot `k` on the RPC has the blocks of the chain `C`, and the process does not die. -/
structure Env.AnswersFrom (C : SlotChain Header) (k : Nat) (env : Env) : Prop where
  answers : ∀ n slot, k ≤ slot → env.headerReply n slot = match C.produced slot with
    | some header => .ok header
    | none => .error .blockUnavailable
  alive : ∀ n, env.crash n = false

namespace Env.AnswersFrom

variable {C : SlotChain Header} {env : Env} {k slot : Nat} {header a b : Header}
  {o : Outcome Failure Header}

theorem reply_produced (h : env.AnswersFrom C k) (hk : k ≤ slot)
    (hslot : C.produced slot = some header) (hreply : env.Reply slot o) : o = .ok header := by
  cases hreply with
  | header hanswer =>
    rw [h.answers _ _ hk, hslot] at hanswer
    cases hanswer
    rfl
  | error hanswer =>
    rw [h.answers _ _ hk, hslot] at hanswer
    cases hanswer
  | lost hcrash =>
    rw [h.alive] at hcrash
    cases hcrash

theorem reply_skipped (h : env.AnswersFrom C k) (hk : k ≤ slot) (hslot : C.produced slot = none)
    (hreply : env.Reply slot o) : o = .fail .blockUnavailable := by
  cases hreply with
  | header hanswer =>
    rw [h.answers _ _ hk, hslot] at hanswer
    cases hanswer
  | error hanswer =>
    rw [h.answers _ _ hk, hslot] at hanswer
    cases hanswer
    rfl
  | lost hcrash =>
    rw [h.alive] at hcrash
    cases hcrash

/-- The nearest block below a slot is found, over however many skipped slots, and without a request
below it. -/
theorem below (h : env.AnswersFrom C k) (ha : Lib.below C.produced slot = some a)
    (hk : k ≤ a.blockHeight) (hbelow : env.Below slot o) : o = .ok a := by
  induction slot with
  | zero => cases ha
  | succ slot ih =>
    obtain ⟨t, ht, hat, -⟩ := below_spec ha
    have hslotk : k ≤ slot := by
      have : a.blockHeight = t := C.slot_eq hat
      omega
    cases hslot : C.produced slot with
    | some header =>
      obtain rfl : header = a := by simpa [Lib.below, hslot] using ha
      cases hbelow with
      | lost hcrash =>
        rw [h.alive] at hcrash
        cases hcrash
      | found hreply => exact h.reply_produced hslotk hslot hreply
      | skipped hreply => cases h.reply_produced hslotk hslot hreply
      | failed hreply => cases h.reply_produced hslotk hslot hreply
    | none =>
      have ha : Lib.below C.produced slot = some a := by simpa [Lib.below, hslot] using ha
      cases hbelow with
      | lost hcrash =>
        rw [h.alive] at hcrash
        cases hcrash
      | found hreply => cases h.reply_skipped hslotk hslot hreply
      | skipped _ hbelow => exact ih ha hbelow
      | failed hreply hne =>
        cases h.reply_skipped hslotk hslot hreply
        exact absurd rfl hne

theorem parent (h : env.AnswersFrom C k) (hhash : HasHashes C) {message : String}
    (hheader : OfChain C header) (ha : Lib.below C.produced header.blockHeight = some a)
    (hk : k ≤ a.blockHeight) (hparent : env.Parent header message o) : o = .ok a := by
  cases hparent with
  | noParentHash hempty =>
    obtain ⟨t, -, ht, -⟩ := below_spec ha
    have hlink : header.parentHash = a.blockHash := C.linked hheader ha
    exact absurd (hlink.symm.trans hempty) (hhash ht)
  | below _ hbelow => exact h.below ha hk hbelow

/-- A walk down from a header of the chain arrives at every produced slot below it. -/
theorem walk (h : env.AnswersFrom C k) (hhash : HasHashes C) (hheader : OfChain C header)
    (hb : OfChain C b) (hk : k ≤ b.blockHeight) (hle : b.blockHeight ≤ header.blockHeight)
    (hwalk : env.Walk b.blockHeight header o) : o = .ok b := by
  -- the next header on the way down
  have hstep : ∀ {header : Header} {o : Outcome Failure Header}, OfChain C header →
      b.blockHeight ≤ header.blockHeight → b.blockHeight ≠ header.blockHeight →
      env.Parent header noParentWhileIterating o →
      ∃ a, o = .ok a ∧ OfChain C a ∧ b.blockHeight ≤ a.blockHeight := by
    intro header o hheader hle hne hparent
    obtain ⟨t, a, ha, ht, hbt, -⟩ := exists_below hb (Nat.lt_of_le_of_ne hle hne)
    have hat : a.blockHeight = t := C.slot_eq ht
    have hka : k ≤ a.blockHeight := hat ▸ Nat.le_trans hk hbt
    refine ⟨a, h.parent hhash hheader ha hka hparent, ?_, hat ▸ hbt⟩
    rw [OfChain, hat]
    exact ht
  induction hwalk with
  | arrived harrived =>
    rw [OfChain, ← harrived, hb] at hheader
    rw [Option.some.inj hheader]
  | step hne hparent _ ih =>
    obtain ⟨a, ⟨⟩, ha, hle⟩ := hstep hheader hle hne hparent
    exact ih ha hle
  | failed hne hparent =>
    obtain ⟨a, ⟨⟩, -⟩ := hstep hheader hle hne hparent

theorem canonical (h : env.AnswersFrom C k) (hhash : HasHashes C) {F : Header} (hF : OfChain C F)
    (hb : OfChain C b) (hk : k ≤ b.blockHeight) (hle : b.blockHeight ≤ F.blockHeight)
    (hcanonical : env.Canonical F b.blockHeight o) : o = .ok b := by
  cases hcanonical with
  | direct _ hreply => exact h.reply_produced hk hb hreply
  | walked hwalk => exact h.walk hhash hF hb hk hle hwalk

end Env.AnswersFrom

end SubqlSolana
