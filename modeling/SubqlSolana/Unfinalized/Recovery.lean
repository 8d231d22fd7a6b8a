import SubqlSolana.Unfinalized.Agreement
import SubqlSolana.Unfinalized.ForkFree

/-!
# After a fork

A rewind ends with `resetUnfinalizedBlocks`, and that is enough: whatever the service went through
before, and whatever it tracked, it forgets. From then on, as long as everything comes from one chain, no
call throws, stops the process or rewinds, and neither does an `init` after a crash, wherever the crashes
are and whatever is reset in between (`recovers`). So a fork costs one rewind, and a restart none.

A restarted service reads its list from the store, so the list in the store has to be a contiguous piece
of the chain, too. It is one because a call writes nothing but the list it has in memory
(`Env.Calls.stores`), and times that are dates survive the store.
-/

set_option autoImplicit false

namespace SubqlSolana

open Lib

variable {C : SlotChain Header} {env : Env} {s s' : Live} {o : Outcome Failure (Option Header)}

/-! ## What a call stores -/

/-- The store has the list that it had, or the one in memory. -/
def Live.Stores (s s' : Live) : Prop :=
  s'.metadata.decoded = s.metadata.decoded ∨
    s'.metadata.decoded = (s'.blocks.map Header.toJSON).map StoredHeader.revive

theorem Env.Registers.stores {header : Header} (h : env.Registers s header o s') : s.Stores s' := by
  cases h with
  | ignored | notSequential | gapFailed | gapForked | forked => exact .inl rfl
  | appended => exact .inr rfl

theorem Env.RegistersHeader.stores {header : Option Header} (h : env.RegistersHeader s header o s') :
    s.Stores s' := by
  rcases h with _ | ⟨hreg, -⟩ | hreg | ⟨hreg, -⟩
  · exact .inl rfl
  · exact hreg.stores
  · exact hreg.stores
  · exact hreg.stores

theorem Env.Finds.stores {header : Option Header} (h : env.Finds s header o s') : s.Stores s' := by
  cases h with
  | failed hreg | registered hreg => exact hreg.stores
  | checked _ hreg => exact hreg.stores

theorem Env.Deletes.stores {s₁ : Live} {o : Outcome Failure Unit} (h : env.Deletes s₁ o s')
    (hstores : s.Stores s₁) (halive : ∀ n, env.crash n = false) : s.Stores s' := by
  cases h with
  | unpruned => exact hstores
  | pruned => exact .inr rfl
  | lostBeforeBlocks _ hcrash | lostAfterBlocks _ hcrash =>
    rw [halive] at hcrash
    cases hcrash

theorem Env.Calls.stores {header : Option Header} (h : env.Calls s header o s')
    (halive : ∀ n, env.crash n = false) : s.Stores s' := by
  have hdeleted : ∀ {s₁ s'' : Live} {o : Outcome Failure Unit}, env.Finds s header (.ok none) s₁ →
      Awaited env (env.Deletes s₁) o s'' → s.Stores s'' := by
    intro s₁ s'' o hfinds hawaited
    cases hawaited with
    | resumed hdeletes => exact hdeletes.stores hfinds.stores halive
    | failed hdeletes | lost hdeletes => exact hdeletes.stores hfinds.stores halive
  cases h.processes with
  | failed hfinds => exact hfinds.stores
  | searched _ hfinds => exact hfinds.stores
  | pruned _ hfinds hawaited | pruneFailed _ hfinds hawaited => exact hdeleted hfinds hawaited

/-! ## The invariant -/

/-- The times of a chain are dates. -/
def HasDates (C : SlotChain Header) : Prop :=
  ∀ {slot : Nat} {header : Header}, C.produced slot = some header → header.timestamp.Valid

/-- The service is on track, and so is one that is restarted over its store. -/
structure TracksChain (C : SlotChain Header) (s : Live) : Prop where
  track : OnTrack C s
  store : C.Contiguous s.metadata.decoded

theorem TracksChain.withFinalized (h : TracksChain C s) {F : Header} (hF : OfChain C F) :
    TracksChain C (s.withFinalized F) :=
  ⟨⟨hF, h.track.contiguous⟩, h.store⟩

/-- A call with a new header of the chain, or without a header. -/
theorem TracksChain.calls (hhash : HasHashes C) (hdates : HasDates C) (henv : env.ServedBy C)
    (hs : TracksChain C s) {header : Option Header}
    (hheader : ∀ h ∈ header, OfChain C h ∧ ∀ b ∈ s.blocks, b.blockHeight < h.blockHeight)
    (hcalls : env.Calls s header o s') : o = .ok none ∧ TracksChain C s' := by
  obtain ⟨rfl, htrack, -⟩ := henv.calls hhash hs.track (fun h hh => (hheader h hh).1)
    (fun h hh => (hheader h hh).2) hcalls
  refine ⟨rfl, htrack, ?_⟩
  rcases hcalls.stores henv.alive with hstore | hstore
  · rw [hstore]
    exact hs.store
  · have hvalid : ∀ b ∈ s'.blocks, b.timestamp.Valid := fun b hb => hdates (htrack.ofChain b hb)
    rw [hstore, revive_map_toJSON hvalid]
    exact htrack.contiguous

/-- A header that is new to a service. -/
def NewTo (C : SlotChain Header) (header : Option Header) (s : Live) : Prop :=
  ∀ h ∈ header, OfChain C h ∧ ∀ b ∈ s.blocks, b.blockHeight < h.blockHeight

def tracksChain (hhash : HasHashes C) (hdates : HasDates C) : ServiceInvariant where
  live := TracksChain C
  store m := C.Contiguous m.decoded
  list _ := True
  schedule env := env.ServedBy C
  call _ := NewTo C
  init _ _ := True
  finality := OfChain C
  store_of_live h := h.store
  list_of_live _ := ⟨⟩
  list_of_store _ := ⟨⟩
  list_nil := ⟨⟩
  empty := .nil
  cleared _ := .nil
  heightReset h := h
  advanced h henv hadv := h.withFinalized (henv.advance h.track.finalized hadv)
  registered h hF _ := h.withFinalized hF
  done what h := by
    cases what with
    | unfinalizedBlocks => exact ⟨⟨h.track.finalized, .nil⟩, .nil⟩
    | lastFinalizedVerifiedHeight => exact ⟨⟨h.track.finalized, h.track.contiguous⟩, h.store⟩
  processed h henv hheader hcalls := by
    have hs' := (h.calls hhash hdates henv hheader hcalls).2
    exact ⟨hs'.store, fun _ => hs'⟩
  loaded {env w n F} h henv _ hreturned _ := by
    obtain ⟨F', hF', hchain⟩ := henv.returned n
    obtain rfl : F = F' := Except.ok.inj (hreturned.symm.trans hF')
    exact ⟨⟨hchain, h⟩, h⟩
  validated {env w n F s' o} h henv _ hreturned hcalls := by
    obtain ⟨F', hF', hchain⟩ := henv.returned n
    obtain rfl : F = F' := Except.ok.inj (hreturned.symm.trans hF')
    have hloaded : TracksChain C (Live.loaded w.metadata F) := ⟨⟨hchain, h⟩, h⟩
    have hs' := (hloaded.calls hhash hdates henv (by rintro _ ⟨⟩) hcalls).2
    exact ⟨hs'.store, fun _ => hs'⟩
  reloaded {env s n message} _ henv _ hanswer := by
    obtain ⟨F, hF, -⟩ := henv.returned n
    rw [hanswer] at hF
    cases hF

/-! ## How operations end -/

theorem Env.ServedBy.resets (h : env.ServedBy C) {resets : List Reset} {o : Outcome Failure Unit}
    (hresets : env.Resets resets s o s') : o = .ok () := by
  induction hresets with
  | nil => rfl
  | cons _ _ ih => exact ih
  | lost hcrash | lostInStore hcrash =>
    rw [h.alive] at hcrash
    cases hcrash

/-- `init` finds nothing to rewind in a list of the chain. -/
theorem Env.ServedBy.inits (hhash : HasHashes C) (hdates : HasDates C) (h : env.ServedBy C)
    {resets : List Reset} {w w' : State} (hstore : C.Contiguous w.metadata.decoded)
    (hinits : env.Inits resets w o w') : o = .ok none := by
  cases hinits with
  | notLoaded hloads =>
    cases hloads with
    | @unanswered n _ _ hanswer _ =>
      obtain ⟨F, hF, -⟩ := h.returned n
      rw [hF] at hanswer
      cases hanswer
    | lost _ hcrash =>
      rw [h.alive] at hcrash
      cases hcrash
  | @loaded n F _ s' hreturned hadv hvalidates =>
    obtain ⟨F', hF', hchain⟩ := h.returned n
    obtain rfl : F = F' := Except.ok.inj (hreturned.symm.trans hF')
    have hloaded : TracksChain C (Live.loaded w.metadata F) := ⟨⟨hchain, hstore⟩, hstore⟩
    have hcalled : ∀ {o : Outcome Failure (Option Header)} {s₁ : Live},
        Awaited env (env.Calls (Live.loaded w.metadata F) none) o s₁ → o = .ok none := by
      intro o s₁ hawaited
      cases hawaited with
      | resumed hcalls | failed hcalls =>
        exact (hloaded.calls hhash hdates h (by rintro _ ⟨⟩) hcalls).1
      | lost _ hcrash =>
        rw [h.alive] at hcrash
        cases hcrash
    cases hvalidates with
    | untracked => rfl
    | failed _ hcalls => cases hcalled hcalls
    | rewound _ hcalls => cases hcalled hcalls
    | rewindFailed _ hcalls => cases hcalled hcalls
    | cleared _ _ hresets => rw [h.resets hresets]; rfl

/-- Everything that an operation brings is of the chain, and what is called is there. -/
def Op.Follows (C : SlotChain Header) : Op → State → Prop
  | .init env _, _ => env.ServedBy C
  | .process env header, w => env.ServedBy C ∧ ∃ s : Live, w = s.node ∧ NewTo C header s
  | .registerFinalizedBlock header, _ => OfChain C header
  | .reset env _, w => env.ServedBy C ∧ ∃ s : Live, w = s.node
  | .crash, _ => True

/-- The operation ends without an exception, an exit or a rewind, unless it is the end of the process
itself; and what is tracked then is a contiguous piece of the chain. -/
def FollowsChain (C : SlotChain Header) (op : Op) (w : State) : Prop :=
  (op = .crash ∨ (op.run w).1 = .ok none) ∧ ∀ s : Live, op.next w = s.node → C.Contiguous s.blocks

section

variable {hhash : HasHashes C} {hdates : HasDates C} {w : State} {op : Op}

theorem tracksChain_may (h : op.Follows C w) : (tracksChain hhash hdates).may op w := by
  cases op with
  | init => exact ⟨h, ⟨⟩⟩
  | process env header =>
    obtain ⟨henv, s, rfl, hnew⟩ := h
    refine ⟨henv, fun s' hs' => ?_⟩
    rw [← Live.node_inj hs']
    exact hnew
  | registerFinalizedBlock => exact h
  | reset => exact h.1
  | crash => exact ⟨⟩

/-- **The step lemma.** -/
theorem followsChain (hw : (tracksChain hhash hdates).Holds w) (h : op.Follows C w) :
    FollowsChain C op w := by
  refine ⟨?_, fun s hs => ?_⟩
  · have heffect := op.run_effect hw.valid
    generalize (op.run w).1 = o, (op.run w).2 = w' at heffect
    cases heffect with
    | init hinits => exact .inr (h.inits hhash hdates hw.store hinits)
    | process hcalls =>
      obtain ⟨henv, s, hs, hnew⟩ := h
      obtain rfl := Live.node_inj hs
      exact .inr ((hw.live _ rfl).calls hhash hdates henv hnew hcalls).1
    | processUnready hnone | resetUnready hnone =>
      obtain ⟨-, s, rfl, -⟩ := h
      cases hnone
    | registerFinalizedBlock => exact .inr rfl
    | reset _ hresets => exact .inr (by rw [h.1.resets hresets]; rfl)
    | crash => exact .inl rfl
  · exact ((hw.next (tracksChain_may h)).live s hs).track.contiguous

end

/-! ## Runs -/

/-- **A reset is enough to leave a fork behind.** -/
theorem recovers (hhash : HasHashes C) (hdates : HasDates C) {s : Live} (hfin : OfChain C s.finalized)
    {env : Env} (henv : env.ServedBy C) {ops : List Op}
    (hops : Permitted Op.next (Op.Follows C) ops ((Op.reset env .unfinalizedBlocks).next s.node)) :
    Permitted Op.next (FollowsChain C) ops ((Op.reset env .unfinalizedBlocks).next s.node) := by
  refine hops.of_invariant (I := (tracksChain hhash hdates).Holds)
    (fun _ _ hw h => hw.next (tracksChain_may h)) (fun _ _ => followsChain) ?_
  rcases hrun : (Reset.unfinalizedBlocks.call env 0 s.node) with ⟨o, n, w⟩
  obtain ⟨s', rfl, -, hreset⟩ := (Reset.call_runs env .unfinalizedBlocks s).elim hrun
  rcases hreset with ⟨rfl, F, hadv, rfl⟩ | ⟨-, ⟨k, hcrash⟩, -⟩
  · have hnext : (Op.reset env .unfinalizedBlocks).next s.node = (s.cleared.withFinalized F).node := by
      simp only [Op.next, Op.run, hrun, Outcome.replace, fatal, Bool.false_eq_true, if_false]
      rfl
    rw [hnext]
    exact .of_live ⟨⟨henv.advance hfin hadv, .nil⟩, .nil⟩
  · rw [henv.alive] at hcrash
    cases hcrash

namespace SkippedAt102

theorem hasHashes : HasHashes blocks.chain := by
  intro slot header h
  obtain ⟨rfl | rfl | rfl, -⟩ := mem_of_produced h <;> decide

theorem hasDates : HasDates blocks.chain := by
  intro slot header h
  obtain ⟨rfl | rfl | rfl, -⟩ := mem_of_produced h <;>
    exact Date.ofTime_valid (by decide) (by decide)

/-- Finality does not move. -/
def quiet : Env := { schedule with finality _ := [] }

theorem quiet_served : quiet.ServedBy blocks.chain where
  answers := served.answers
  registered h := by cases h
  returned := served.returned
  alive := served.alive

/-- A block that is not of the chain is tracked, in memory and in the store. -/
def forked : Live :=
  let x := Header.untimed 101 "x" "a"
  ⟨[x], a, .value 100, ⟨some [x.toJSON], .undefined⟩⟩

/-- The process dies with one block tracked, and is started again. -/
def history : List Op :=
  [.process quiet (some b), .crash, .init quiet [], .process quiet (some d), .process schedule none]

theorem follows : Permitted Op.next (Op.Follows blocks.chain) history
    ((Op.reset quiet .unfinalizedBlocks).next forked.node) := by
  have hnew : ∀ {s : Live} {h : Header}, OfChain blocks.chain h →
      (∀ b ∈ s.blocks, b.blockHeight < h.blockHeight) → NewTo blocks.chain (some h) s := by
    rintro s h hh habove _ ⟨⟩
    exact ⟨hh, habove⟩
  let cleared : Live := ⟨[], a, .value 100, ⟨some [], .undefined⟩⟩
  let restarted : Live := ⟨[], a, .value 100, ⟨some [], .null⟩⟩
  let caughtUp : Live := ⟨[d], a, .value 100, ⟨some [d.toJSON], .null⟩⟩
  refine .cons ⟨quiet_served, cleared, rfl, hnew rfl (by simp [cleared])⟩ ?_
  refine .cons ⟨⟩ (.cons quiet_served (.cons ⟨quiet_served, restarted, rfl, ?_⟩ ?_))
  · exact hnew rfl (by simp [restarted])
  · refine .cons ⟨served, caughtUp, rfl, ?_⟩ .nil
    rintro _ ⟨⟩

end SkippedAt102

/-- Block `x` of slot 101 is forgotten, and `b` and `d` are tracked, with a restart between them. -/
theorem recovers_at103 : Permitted Op.next (FollowsChain SkippedAt102.blocks.chain)
    SkippedAt102.history
    ((Op.reset SkippedAt102.quiet .unfinalizedBlocks).next SkippedAt102.forked.node) :=
  recovers (s := SkippedAt102.forked) SkippedAt102.hasHashes SkippedAt102.hasDates rfl
    SkippedAt102.quiet_served SkippedAt102.follows

end SubqlSolana
