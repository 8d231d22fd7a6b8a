import SubqlSolana.Unfinalized.Answers
import SubqlSolana.Unfinalized.Operations

/-!
# A chain without forks

When everything the service is told comes from one chain, it reports no fork, throws nothing and stops
nothing, and what it tracks is a contiguous piece of that chain: every gap between the headers that are
passed is filled, and skipped slots are left out (`fork_free_run`). Finality may move at any `await`.

The relations of `Unfinalized.Requests` and `Unfinalized.Updates` are followed one by one: on such a
schedule each of them has one end left.
-/

set_option autoImplicit false

namespace SubqlSolana

open Lib

/-- Everything a schedule brings comes from the chain `C`, and the process does not die. -/
structure Env.ServedBy (C : SlotChain Header) (env : Env) : Prop where
  answers : ∀ n slot, env.headerReply n slot = match C.produced slot with
    | some header => .ok header
    | none => .error .blockUnavailable
  registered : ∀ {n F}, F ∈ env.finality n → OfChain C F
  returned : ∀ n, ∃ F, env.getFinalizedHeader n = .ok F ∧ OfChain C F
  alive : ∀ n, env.crash n = false

variable {C : SlotChain Header} {env : Env} {s s' : Live} {o : Outcome Failure (Option Header)}

/-! ## Checking -/

theorem Env.ServedBy.answersFrom (h : env.ServedBy C) : env.AnswersFrom C 0 :=
  ⟨fun n slot _ => h.answers n slot, h.alive⟩

theorem Env.ServedBy.reply_produced (h : env.ServedBy C) {slot : Nat} {header : Header}
    {o : Outcome Failure Header} (hslot : C.produced slot = some header)
    (hreply : env.Reply slot o) : o = .ok header :=
  h.answersFrom.reply_produced (Nat.zero_le _) hslot hreply

theorem Env.ServedBy.reply_skipped (h : env.ServedBy C) {slot : Nat} {o : Outcome Failure Header}
    (hslot : C.produced slot = none) (hreply : env.Reply slot o) : o = .fail .blockUnavailable :=
  h.answersFrom.reply_skipped (Nat.zero_le _) hslot hreply

theorem Env.ServedBy.checks (h : env.ServedBy C) (hhash : HasHashes C) {F : Header} {l : List Header}
    (hF : OfChain C F) (hl : ∀ b ∈ l, OfChain C b) (hchecks : env.Checks l F o) : o = .ok none := by
  have hclosest : ∀ {b : Header} {o : Outcome Failure Header},
      closestRecord l F.blockHeight = some b → env.Canonical F b.blockHeight o → o = .ok b := by
    intro b o hclosest hcanonical
    obtain ⟨hb, hle⟩ := closestRecord_mem hclosest
    exact h.answersFrom.canonical hhash hF (hl b hb) (Nat.zero_le _) hle hcanonical
  cases hchecks with
  | untracked | agrees => rfl
  | forked hb hcanonical hne =>
    cases hclosest hb hcanonical
    exact absurd rfl hne
  | failed hb hcanonical => cases hclosest hb hcanonical
  | lost hcrash =>
    rw [h.alive] at hcrash
    cases hcrash

/-! ## Registering -/

theorem ofChain_of_mem_segment {lo hi : Nat} {b : Header} (hb : b ∈ C.segment lo hi) :
    OfChain C b := by
  obtain ⟨slot, -, -, hs⟩ := SlotChain.mem_segment.mp hb
  have hslot : b.blockHeight = slot := C.slot_eq hs
  rw [OfChain, hslot]
  exact hs

/-- The next block of the chain is the child of the last one of a segment. -/
theorem parentHash_of_segment {lo hi : Nat} {header last : Header} (hlo : lo ≤ hi)
    (hheader : C.produced hi = some header) (hlast : (C.segment lo hi).getLast? = some last) :
    header.parentHash = last.blockHash :=
  C.linked hheader (SlotChain.below_of_segment_getLast? hlo hlast)

/-- A backfill extends a segment slot by slot. -/
theorem Env.ServedBy.backfills (h : env.ServedBy C) {lo remaining height : Nat} {l l' : List Header}
    (hlo : lo ≤ height) (hl : l = C.segment lo height)
    (hbackfills : env.Backfills remaining height l o l') :
    o = .ok none ∧ l' = C.segment lo (height + remaining) := by
  induction hbackfills with
  | done => exact ⟨rfl, hl⟩
  | @skipped remaining height l l' o hreply _ ih =>
    have hskip : C.produced height = none := by
      cases hslot : C.produced height with
      | none => rfl
      | some header => cases h.reply_produced hslot hreply
    obtain ⟨ho, hl'⟩ := ih (by omega) (by rw [SlotChain.segment_succ C hlo, hskip, hl]; simp)
    exact ⟨ho, by rw [hl']; congr 1; omega⟩
  | @pushed remaining height l l' header o hreply _ _ ih =>
    have hslot : C.produced height = some header := by
      cases hslot : C.produced height with
      | none => cases h.reply_skipped hslot hreply
      | some b => cases h.reply_produced hslot hreply; rfl
    obtain ⟨ho, hl'⟩ := ih (by omega) (by rw [SlotChain.segment_succ C hlo, hslot, hl]; simp)
    exact ⟨ho, by rw [hl']; congr 1; omega⟩
  | @forked remaining height l header last hreply hlast hne =>
    cases hslot : C.produced height with
    | none => cases h.reply_skipped hslot hreply
    | some b =>
      cases h.reply_produced hslot hreply
      exact absurd (parentHash_of_segment hlo hslot (hl ▸ hlast)) hne
  | @failed remaining height l e hreply hne =>
    cases hslot : C.produced height with
    | none =>
      cases h.reply_skipped hslot hreply
      exact absurd rfl hne
    | some b => cases h.reply_produced hslot hreply

/-- Filling the gap leaves a segment that ends right in front of the new header. -/
theorem Env.ServedBy.fills (h : env.ServedBy C) {header : Header} {l l' : List Header}
    (hl : C.Contiguous l) (hfills : env.Fills l header o l') :
    o = .ok none ∧ (l' = [] ∨ ∃ lo, lo ≤ header.blockHeight ∧ l' = C.segment lo header.blockHeight) := by
  have hgap : ∀ {last : Header} {o : Outcome Failure (Option Header)}, l.getLast? = some last →
      last.blockHeight < header.blockHeight →
      env.Backfills (header.blockHeight - (last.blockHeight + 1)) (last.blockHeight + 1) l o l' →
      o = .ok none ∧ ∃ lo, lo ≤ header.blockHeight ∧ l' = C.segment lo header.blockHeight := by
    intro last o hlast hlt hfill
    obtain ⟨first, hfirst⟩ : ∃ first, l.head? = some first := by
      cases l with
      | nil => cases hlast
      | cons first _ => exact ⟨first, rfl⟩
    have hsegment := hl first hfirst last hlast
    have hle : first.blockHeight ≤ last.blockHeight := by
      have hmem : last ∈ C.segment first.blockHeight (last.blockHeight + 1) :=
        hsegment ▸ List.mem_of_getLast? hlast
      obtain ⟨slot, hfirst, -, hslot⟩ := SlotChain.mem_segment.mp hmem
      have : last.blockHeight = slot := C.slot_eq hslot
      omega
    obtain ⟨ho, hl'⟩ := h.backfills (Nat.le_succ_of_le hle) hsegment hfill
    refine ⟨ho, first.blockHeight, by omega, ?_⟩
    rw [hl']
    congr 1
    omega
  cases hfills with
  | untracked hnone => exact ⟨rfl, .inl (List.getLast?_eq_none_iff.mp hnone)⟩
  | gap hlast hlt hfill => exact (hgap hlast hlt hfill).imp_right .inr
  | lost _ _ _ hcrash =>
    rw [h.alive] at hcrash
    cases hcrash

/-- What the service is between two points of a call: the finalized header is one of the chain, and the
tracked blocks are a contiguous piece of it. -/
structure OnTrack (C : SlotChain Header) (s : Live) : Prop where
  finalized : OfChain C s.finalized
  contiguous : C.Contiguous s.blocks

theorem OnTrack.ofChain (h : OnTrack C s) : ∀ b ∈ s.blocks, OfChain C b := by
  intro b hb
  obtain ⟨lo, hi, hl⟩ := SlotChain.contiguous_iff.mp h.contiguous
  exact ofChain_of_mem_segment (hl ▸ hb)

theorem Env.ServedBy.advance (h : env.ServedBy C) {F F' : Header} (hF : OfChain C F)
    (hadv : env.Advance F F') : OfChain C F' := by
  cases hadv with
  | same => exact hF
  | moved hmem _ => exact h.registered hmem

/-- The new header is appended, or finality has passed it already. -/
theorem Env.ServedBy.registers (h : env.ServedBy C) (hs : C.Contiguous s.blocks) {header : Header}
    (hheader : OfChain C header) (hnew : ∀ b ∈ s.blocks, b.blockHeight < header.blockHeight)
    (hregisters : env.Registers s header o s') :
    o = .ok none ∧ C.Contiguous s'.blocks ∧
      ∀ b ∈ s'.blocks, b.blockHeight ≤ header.blockHeight := by
  cases hregisters with
  | ignored => exact ⟨rfl, hs, fun b hb => Nat.le_of_lt (hnew b hb)⟩
  | notSequential _ hlast hle =>
    have := hnew _ (List.mem_of_getLast? hlast)
    omega
  | gapFailed _ hfill => cases (h.fills hs hfill).1
  | gapForked _ hfill => cases (h.fills hs hfill).1
  | forked _ hfill hlast hne =>
    rcases (h.fills hs hfill).2 with rfl | ⟨lo, hlo, rfl⟩
    · cases hlast
    · exact absurd (parentHash_of_segment hlo hheader hlast) hne
  | @appended _ l _ _ hfill _ ho =>
    have hnone : o = .ok none := by
      rcases ho with rfl | ⟨-, n, hcrash⟩
      · rfl
      · rw [h.alive] at hcrash
        cases hcrash
    obtain ⟨lo, hlo, hl⟩ : ∃ lo, lo ≤ header.blockHeight ∧
        l ++ [header] = C.segment lo (header.blockHeight + 1) := by
      rcases (h.fills hs hfill).2 with rfl | ⟨lo, hlo, rfl⟩
      · refine ⟨header.blockHeight, Nat.le_refl _, ?_⟩
        rw [SlotChain.segment_succ C (Nat.le_refl _), SlotChain.segment_self, hheader]
        rfl
      · refine ⟨lo, hlo, ?_⟩
        rw [SlotChain.segment_succ C hlo, hheader]
        rfl
    refine ⟨hnone, ?_, fun b hb => ?_⟩
    · exact SlotChain.contiguous_iff.mpr ⟨lo, _, hl⟩
    · obtain ⟨slot, -, hlt, hslot⟩ := SlotChain.mem_segment.mp (hl ▸ hb)
      have : b.blockHeight = slot := C.slot_eq hslot
      omega

/-! ## A call -/

theorem Env.ServedBy.registersHeader (h : env.ServedBy C) (hs : C.Contiguous s.blocks)
    {header : Option Header} (hheader : ∀ h ∈ header, OfChain C h)
    (hnew : ∀ h ∈ header, ∀ b ∈ s.blocks, b.blockHeight < h.blockHeight)
    (hregisters : env.RegistersHeader s header o s') :
    o = .ok none ∧ C.Contiguous s'.blocks ∧
      ∀ b ∈ s'.blocks, b ∈ s.blocks ∨ ∃ h ∈ header, b.blockHeight ≤ h.blockHeight := by
  cases hregisters with
  | noHeader => exact ⟨rfl, hs, fun _ hb => .inl hb⟩
  | @header header _ _ hawaited =>
    have hchain := hheader header rfl
    have habove := hnew header rfl
    rcases hawaited with ⟨hreg, -⟩ | hreg | ⟨-, hcrash⟩
    · obtain ⟨ho, hs', hle⟩ := h.registers hs hchain habove hreg
      exact ⟨ho, hs', fun b hb => .inr ⟨header, rfl, hle b hb⟩⟩
    · cases (h.registers hs hchain habove hreg).1
    · rw [h.alive] at hcrash
      cases hcrash

theorem Env.ServedBy.finds (h : env.ServedBy C) (hhash : HasHashes C) (hs : OnTrack C s)
    {header : Option Header} (hheader : ∀ h ∈ header, OfChain C h)
    (hnew : ∀ h ∈ header, ∀ b ∈ s.blocks, b.blockHeight < h.blockHeight)
    (hfinds : env.Finds s header o s') :
    o = .ok none ∧ C.Contiguous s'.blocks ∧
      ∀ b ∈ s'.blocks, b ∈ s.blocks ∨ ∃ h ∈ header, b.blockHeight ≤ h.blockHeight := by
  cases hfinds with
  | failed hreg => cases (h.registersHeader hs.contiguous hheader hnew hreg).1
  | registered hreg => cases (h.registersHeader hs.contiguous hheader hnew hreg).1
  | @checked _ s₁ _ hadv hreg hchecks =>
    obtain ⟨-, hs₁, hle⟩ := h.registersHeader hs.contiguous hheader hnew hreg
    have htrack : OnTrack C s₁ := ⟨h.advance hs.finalized hadv, hs₁⟩
    exact ⟨h.checks hhash htrack.finalized htrack.ofChain hchecks, hs₁, hle⟩

theorem Env.ServedBy.deletes (h : env.ServedBy C) (hs : C.Contiguous s.blocks)
    {o : Outcome Failure Unit} (hdeletes : env.Deletes s o s') :
    o = .ok () ∧ C.Contiguous s'.blocks ∧ s'.blocks ⊆ s.blocks := by
  cases hdeletes with
  | unpruned => exact ⟨rfl, hs, fun _ hb => hb⟩
  | pruned => exact ⟨rfl, hs.above _, fun _ hb => List.mem_of_mem_filter hb⟩
  | lostBeforeBlocks _ hcrash | lostAfterBlocks _ hcrash =>
    rw [h.alive] at hcrash
    cases hcrash

/-- **A call without a fork**: it ends with nothing, and the list is a contiguous piece of the chain up
to the new header. -/
theorem Env.ServedBy.calls (h : env.ServedBy C) (hhash : HasHashes C) (hs : OnTrack C s)
    {header : Option Header} (hheader : ∀ h ∈ header, OfChain C h)
    (hnew : ∀ h ∈ header, ∀ b ∈ s.blocks, b.blockHeight < h.blockHeight)
    (hcalls : env.Calls s header o s') :
    o = .ok none ∧ OnTrack C s' ∧
      ∀ b ∈ s'.blocks, b ∈ s.blocks ∨ ∃ h ∈ header, b.blockHeight ≤ h.blockHeight := by
  have hfin := h.advance hs.finalized hcalls.advance
  have hdeleted : ∀ {s₁ : Live} {o : Outcome Failure Unit} {s'' : Live},
      env.Finds s header (.ok none) s₁ → Awaited env (env.Deletes s₁) o s'' →
      o = .ok () ∧ C.Contiguous s''.blocks ∧
        ∀ b ∈ s''.blocks, b ∈ s.blocks ∨ ∃ h ∈ header, b.blockHeight ≤ h.blockHeight := by
    intro s₁ o s'' hfinds hawaited
    obtain ⟨-, hs₁, hle⟩ := h.finds hhash hs hheader hnew hfinds
    rcases hawaited with ⟨hdeletes, -⟩ | hdeletes | ⟨-, hcrash⟩
    · obtain ⟨ho, hs'', hsub⟩ := h.deletes hs₁ hdeletes
      exact ⟨ho, hs'', fun b hb => hle b (hsub hb)⟩
    · cases (h.deletes hs₁ hdeletes).1
    · rw [h.alive] at hcrash
      cases hcrash
  cases hcalls.processes with
  | failed hfinds => cases (h.finds hhash hs hheader hnew hfinds).1
  | searched _ hfinds _ => cases (h.finds hhash hs hheader hnew hfinds).1
  | pruned _ hfinds hawaited =>
    obtain ⟨-, hs', hle⟩ := hdeleted hfinds hawaited
    exact ⟨rfl, ⟨hfin, hs'⟩, hle⟩
  | pruneFailed _ hfinds hawaited => cases (hdeleted hfinds hawaited).1

/-- The header that was passed is the last one, unless finality has passed it. -/
theorem Env.ServedBy.last (h : env.ServedBy C) (hhash : HasHashes C) (hs : OnTrack C s)
    {header : Header} (hheader : OfChain C header)
    (hnew : ∀ b ∈ s.blocks, b.blockHeight < header.blockHeight)
    (hcalls : env.Calls s (some header) o s')
    (habove : s'.finalized.blockHeight < header.blockHeight) : s'.blocks.getLast? = some header := by
  have hfound : ∀ {o s₁}, env.Finds s (some header) o s₁ → o = .ok none := by
    intro o s₁ hfinds
    exact (h.finds hhash hs (by rintro _ ⟨⟩; exact hheader) (by rintro _ ⟨⟩; exact hnew) hfinds).1
  have hstart := Nat.lt_of_le_of_lt hcalls.advance.le habove
  cases hcalls.processes with
  | failed hfinds => cases hfound hfinds
  | searched _ hfinds => cases hfound hfinds
  | pruned _ hfinds hawaited =>
    cases hfinds with
    | checked _ hreg =>
    cases hawaited with
    | resumed hdeletes hadv =>
      exact hdeletes.last (hreg.last hstart) (Nat.lt_of_le_of_lt hadv.le habove)
  | pruneFailed _ hfinds hawaited =>
    rcases hawaited with _ | hdeletes | ⟨-, hcrash⟩
    · obtain ⟨-, hs₁, -⟩ := h.finds hhash hs (by rintro _ ⟨⟩; exact hheader)
        (by rintro _ ⟨⟩; exact hnew) hfinds
      cases (h.deletes hs₁ hdeletes).1
    · rw [h.alive] at hcrash
      cases hcrash

/-! ## Runs -/

/-- The calls of a fork-free run, and the registrations between them. -/
def Op.ServedBy (C : SlotChain Header) : Op → Prop
  | .process env header => env.ServedBy C ∧ ∀ h ∈ header, OfChain C h
  | .registerFinalizedBlock header => OfChain C header
  | _ => False

/-- The operation ends without an exception, an exit or a rewind, and it leaves a contiguous list. The
list ends with the header that was passed, unless finality has passed it. -/
def StaysOnTrack (C : SlotChain Header) (op : Op) (w : State) : Prop :=
  (op.run w).1 = .ok none ∧ ∃ s' : Live, (op.run w).2 = s'.node ∧ C.Contiguous s'.blocks ∧
    ∀ h ∈ headersPassed [op], s'.finalized.blockHeight < h.blockHeight →
      s'.blocks.getLast? = some h

/-- `init` over an empty store has nothing to check. -/
theorem init_on_track (h : env.ServedBy C) (resets : List Reset) :
    ∃ s : Live, (Op.init env resets).run (State.started State.emptyStore) = (.ok none, s.node) ∧
      OnTrack C s ∧ s.blocks = [] := by
  rcases hrun : (Op.init env resets).run (State.started State.emptyStore) with ⟨o, w'⟩
  have hinits : env.Inits resets (State.started State.emptyStore) o w' := by
    have := init_sat env resets (State.started State.emptyStore) 0
    simp only [Op.run] at hrun
    cases hrun
    exact this
  cases hinits with
  | notLoaded hloads =>
    cases hloads with
    | @unanswered n _ _ hanswer _ =>
      obtain ⟨F, hF, -⟩ := h.returned n
      rw [hF] at hanswer
      cases hanswer
    | lost _ hcrash =>
      rw [h.alive] at hcrash
      cases hcrash
  | @loaded n F _ s' hreturned hadv hvalidates =>
    obtain ⟨F', hF', hchain⟩ := h.returned n
    obtain rfl : F = F' := Except.ok.inj (hreturned.symm.trans hF')
    have hempty : (Live.loaded (State.started State.emptyStore).metadata F).blocks = [] := rfl
    cases hvalidates with
    | untracked => exact ⟨_, rfl, ⟨h.advance hchain hadv, .nil⟩, rfl⟩
    | failed hne | rewound hne | rewindFailed hne | cleared hne => exact absurd hempty hne

/-- One operation, given that the headers still to come are above what is tracked. -/
theorem OnTrack.next (hhash : HasHashes C) (hs : OnTrack C s) {op : Op} {rest : List Op}
    (hop : op.ServedBy C)
    (hnew : ∀ h ∈ headersPassed (op :: rest), ∀ b ∈ s.blocks, b.blockHeight < h.blockHeight)
    (hincreasing : (headersPassed (op :: rest)).Pairwise fun a b => a.blockHeight < b.blockHeight) :
    ∃ s' : Live, op.run s.node = (.ok none, s'.node) ∧ OnTrack C s' ∧
      (∀ h ∈ headersPassed [op], s'.finalized.blockHeight < h.blockHeight →
        s'.blocks.getLast? = some h) ∧
      ∀ h ∈ headersPassed rest, ∀ b ∈ s'.blocks, b.blockHeight < h.blockHeight := by
  cases op with
  | init | reset | crash => cases hop
  | registerFinalizedBlock F =>
    obtain ⟨F', hF', hcases⟩ := foldl_registerFinalizedBlock [F] s
    refine ⟨s.withFinalized F', congrArg _ hF', ⟨?_, hs.contiguous⟩, by rintro _ ⟨⟩, hnew⟩
    rcases hcases with rfl | ⟨hmem, -⟩
    · exact hs.finalized
    · obtain rfl := List.mem_singleton.mp hmem
      exact hop
  | process env header =>
    obtain ⟨hserved, hheader⟩ := hop
    have hpassed : ∀ h ∈ header, h ∈ headersPassed (.process env header :: rest) ∧
        ∀ h' ∈ headersPassed rest, h.blockHeight < h'.blockHeight := by
      rintro h ⟨⟩
      exact ⟨List.mem_cons_self, (List.pairwise_cons.mp hincreasing).1⟩
    have hlater : ∀ h ∈ headersPassed rest, h ∈ headersPassed (.process env header :: rest) := by
      intro h hmem
      cases header with
      | none => exact hmem
      | some _ => exact List.mem_cons_of_mem _ hmem
    rcases hrun : processUnfinalizedBlockHeader header env 0 s.node with ⟨o, n', w'⟩
    obtain ⟨s', rfl, -, hcalls⟩ := (processUnfinalizedBlockHeader_runs env header s).elim hrun
    obtain ⟨rfl, hs', hle⟩ := hserved.calls hhash hs hheader
      (fun h hh b hb => hnew h (hpassed h hh).1 b hb) hcalls
    refine ⟨s', by simp only [Op.run, hrun], hs', fun h hh habove => ?_, fun h' hh' b hb => ?_⟩
    · cases header with
      | none => cases hh
      | some header =>
        obtain rfl : h = header := List.mem_singleton.mp hh
        exact hserved.last hhash hs (hheader h rfl) (hnew h (hpassed h rfl).1) hcalls habove
    · rcases hle b hb with hb | ⟨h, hh, hbh⟩
      · exact hnew h' (hlater h' hh') b hb
      · exact Nat.lt_of_le_of_lt hbh ((hpassed h hh).2 h' hh')

theorem OnTrack.run (hhash : HasHashes C) {ops : List Op} {s : Live} (hs : OnTrack C s)
    (hops : ∀ op ∈ ops, op.ServedBy C)
    (hnew : ∀ h ∈ headersPassed ops, ∀ b ∈ s.blocks, b.blockHeight < h.blockHeight)
    (hincreasing : (headersPassed ops).Pairwise fun a b => a.blockHeight < b.blockHeight) :
    Permitted Op.next (StaysOnTrack C) ops s.node := by
  induction ops generalizing s with
  | nil => exact .nil
  | cons op rest ih =>
    obtain ⟨s', hrun, hs', hlast, hnew'⟩ := hs.next hhash (hops op List.mem_cons_self) hnew hincreasing
    have hnext : op.next s.node = s'.node := by
      simp only [Op.next, hrun, fatal, Bool.false_eq_true, if_false]
    refine .cons ⟨by rw [hrun], s', by rw [hrun], hs'.contiguous, hlast⟩ ?_
    rw [hnext]
    refine ih hs' (fun op hop => hops op (List.mem_cons_of_mem _ hop)) hnew' ?_
    refine hincreasing.sublist ?_
    exact (List.sublist_cons_self op rest).filterMap _

/-- **On a chain without forks nothing is rewound**: every operation of a run that passes headers of the
chain in order stays on track, whatever slots are skipped and whenever finality moves. -/
theorem fork_free_run (hhash : HasHashes C) (hinit : env.ServedBy C) (resets : List Reset)
    {ops : List Op} (hops : ∀ op ∈ ops, op.ServedBy C)
    (hincreasing : (headersPassed ops).Pairwise fun a b => a.blockHeight < b.blockHeight) :
    Permitted Op.next (StaysOnTrack C) (.init env resets :: ops) (State.started State.emptyStore) := by
  obtain ⟨s, hrun, hs, hempty⟩ := init_on_track hinit resets
  have hnext : (Op.init env resets).next (State.started State.emptyStore) = s.node := by
    simp only [Op.next, hrun, fatal, Bool.false_eq_true, if_false]
  refine .cons ⟨by rw [hrun], s, by rw [hrun], hs.contiguous, by rintro _ ⟨⟩⟩ ?_
  rw [hnext]
  exact hs.run hhash hops (by simp [hempty]) hincreasing

namespace SkippedAt102

/-- Slot 102 is skipped. -/
def a : Header := .untimed 100 "a" "z"
def b : Header := .untimed 101 "b" "a"
def d : Header := .untimed 103 "d" "b"

def blocks : Branch Header := ⟨[a, b, d], by decide⟩

/-- The RPC has the blocks of the chain, and `b` becomes final at the second `await` of a call. -/
def schedule : Env where
  getBlock _ slot := match blocks.chain.produced slot with
    | some header => .block ⟨0, 0, header.blockHash, 0, header.parentHash⟩
    | none => .slotSkipped
  negativeSlot _ := "Invalid params: invalid value: integer -1, expected u64"
  treatLongTermStorageSkipAsSkipped := true
  getFinalizedHeader _ := .ok a
  finality n := if n = 1 then [b] else []
  crash _ := false

theorem mem_of_produced {slot : Nat} {header : Header} (h : blocks.chain.produced slot = some header) :
    (header = a ∨ header = b ∨ header = d) ∧ header.blockHeight = slot := by
  refine ⟨?_, blocks.chain.slot_eq h⟩
  simpa [blocks] using List.mem_of_find?_eq_some h

theorem served : schedule.ServedBy blocks.chain where
  answers n slot := by
    show getHeaderByHeight true slot (schedule.getBlock n slot) = _
    unfold schedule
    dsimp only
    cases hslot : blocks.chain.produced slot with
    | none => rfl
    | some header =>
      obtain ⟨rfl | rfl | rfl, rfl⟩ := mem_of_produced hslot <;> rfl
  registered {n F} h := by
    simp only [schedule] at h
    split at h
    · obtain rfl := List.mem_singleton.mp h
      rfl
    · cases h
  returned _ := ⟨a, rfl, rfl⟩
  alive _ := rfl

end SkippedAt102

/-- Slot 103 is passed over the gap. -/
theorem fork_free_run_at103 : Permitted Op.next (StaysOnTrack SkippedAt102.blocks.chain)
    [.init SkippedAt102.schedule [], .process SkippedAt102.schedule (some SkippedAt102.b),
      .process SkippedAt102.schedule (some SkippedAt102.d)] (State.started State.emptyStore) := by
  refine fork_free_run ?_ SkippedAt102.served [] ?_ (by decide)
  · intro slot header h
    obtain ⟨rfl | rfl | rfl, -⟩ := SkippedAt102.mem_of_produced h <;> decide
  · intro op hop
    simp only [List.mem_cons, List.not_mem_nil, or_false] at hop
    rcases hop with rfl | rfl
    · exact ⟨SkippedAt102.served, by rintro h ⟨⟩; exact rfl⟩
    · exact ⟨SkippedAt102.served, by rintro h ⟨⟩; exact rfl⟩

end SubqlSolana
