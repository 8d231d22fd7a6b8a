import SubqlSolana.Unfinalized.Fallback
import SubqlSolana.Unfinalized.ListInvariant
import SubqlSolana.Unfinalized.Restart

/-!
# The store agrees with memory

Whatever a call appends or drops it writes to the store in the same call, with one exception: the
headers of a gap are pushed one by one, and saved only together with the header behind the gap. When
one of them, or that header, turns out to be on another fork, the ones in front of it stay in memory
and are not saved. A rewind clears both lists, so that this does no harm as long as the call names
one. **It does harm when the call throws instead**, and the search for the target can: the request it
falls back to may be answered with a skipped slot (`gap_stays_unsaved`).

`store_agrees` is what remains: in every run in which such a call, should it throw, is followed by a
reset or a restart, the two lists agree whenever `init`, `resetUnfinalizedBlocks` or a call without a
rewind has completed. The same goes for an `init` that throws without a height to fall back to, because
the next call may then find a fork and name no target for it.
-/

set_option autoImplicit false

namespace SubqlSolana

open Lib

variable {env : Env} {s s' s₁ : Live} {o : Outcome Failure (Option Header)}

/-! ## What comes back from the store -/

theorem revive_toJSON {header : Header} (h : header.timestamp.Valid) :
    header.toJSON.revive = header := by
  have hdate := Date.ofISOString_toISOString h
  rcases header with ⟨height, hash, parent, timestamp⟩
  simp only at hdate
  simp only [Header.toJSON, StoredHeader.revive]
  cases htext : timestamp.toISOString with
  | none =>
    rw [htext] at hdate
    cases hdate
  | some text =>
    rw [htext] at hdate
    rw [Option.elim_some, Option.some.inj hdate]

theorem revive_map_toJSON {l : List Header} (h : ∀ b ∈ l, b.timestamp.Valid) :
    (l.map Header.toJSON).map StoredHeader.revive = l := by
  rw [List.map_map]
  exact (List.map_congr_left fun b hb => revive_toJSON (h b hb)).trans (List.map_id l)

/-- To be a list of headers whose times are dates; no finalized height is 0. -/
def restorable : ListInvariant where
  holds l := ∀ b ∈ l, b.timestamp.Valid
  header h := h.timestamp.Valid
  finalized F := 0 < F.blockHeight
  nil _ h := absurd h List.not_mem_nil
  above n h b hb := h b (List.mem_of_mem_filter hb)
  revive h := by
    rw [revive_map_toJSON h]
    exact h
  first _ hheader _ b hb := by
    rw [List.mem_singleton.mp hb]
    exact hheader
  push h _ _ hheader b hb := by
    rcases List.mem_append.mp hb with hb | hb
    · exact h b hb
    · rw [List.mem_singleton.mp hb]
      exact hheader

/-! ## Calls -/

/-- Both lists are there, and they are the same. -/
def State.Agree (w : State) : Prop := w.unfinalizedBlocks? = some w.metadata.decoded

/-- The store decodes to the list in memory. -/
def Live.Agrees (s : Live) : Prop := s.metadata.decoded = s.blocks

theorem Live.agrees_saved (h : restorable.holds s.blocks) : s.saved.Agrees := revive_map_toJSON h

/-- The header is ignored, or there is no gap in front of it. -/
def Live.Next (s : Live) (header : Header) : Prop :=
  s.finalized.blockHeight < header.blockHeight →
    ∀ last ∈ s.blocks.getLast?, header.blockHeight ≤ last.blockHeight + 1

theorem Env.Fills.of_next {header : Header} {l : List Header}
    (h : env.Fills s.blocks header o l) (hnext : s.Next header)
    (habove : s.finalized.blockHeight < header.blockHeight) :
    l = s.blocks ∧ (o = .ok none ∨ o = .fail .crash) := by
  have hnone : ∀ {last : Header}, s.blocks.getLast? = some last →
      header.blockHeight - (last.blockHeight + 1) = 0 := by
    intro last hlast
    have := hnext habove last hlast
    omega
  cases h with
  | untracked => exact ⟨rfl, .inl rfl⟩
  | gap hlast _ hfill =>
    rw [hnone hlast] at hfill
    cases hfill
    exact ⟨rfl, .inl rfl⟩
  | lost hlast _ hfill =>
    rw [hnone hlast] at hfill
    cases hfill
    exact ⟨rfl, .inr rfl⟩

/-- Registering a header saves what it appends, unless it stops after filling a gap. -/
theorem Env.Registers.agrees {header : Header} (h : env.Registers s header o s') (hs : s.Agrees)
    (hvalid : restorable.holds s'.blocks) (hend : o = .ok none ∨ s.Next header) : s'.Agrees := by
  have hunfilled : ∀ {o' : Outcome Failure (Option Header)} {l : List Header} {F : Header},
      s.finalized.blockHeight < header.blockHeight → env.Fills s.blocks header o' l →
      s.Next header → Live.Agrees ((s.withBlocks l).withFinalized F) := by
    intro o' l F habove hfill hnext
    rw [(hfill.of_next hnext habove).1]
    exact hs
  cases h with
  | ignored | notSequential => exact hs
  | gapFailed habove hfill | gapForked habove hfill =>
    exact hunfilled habove hfill (hend.resolve_left (by simp))
  | forked habove hfill => exact hunfilled habove hfill (hend.resolve_left (by simp))
  | appended => exact Live.agrees_saved (s := s.withBlocks _) hvalid

theorem Env.RegistersHeader.agrees {header : Option Header}
    (h : env.RegistersHeader s header o s') (hs : s.Agrees) (hvalid : restorable.holds s'.blocks)
    (hend : o = .ok none ∨ ∀ b ∈ header, s.Next b) : s'.Agrees := by
  cases h with
  | noHeader => exact hs
  | @header b _ _ hreg =>
    have hnext : o = .ok none ∨ s.Next b := hend.imp_right fun hnext => hnext b rfl
    cases hreg with
    | resumed hreg => exact hreg.agrees hs hvalid hnext
    | failed hreg => exact hreg.agrees hs hvalid hnext
    | lost hreg => exact hreg.agrees hs hvalid (.inr (hnext.resolve_left (by simp)))

/-- Looking for a fork saves what it appends, unless it stops after filling a gap. -/
theorem Env.Finds.agrees {header : Option Header} (h : env.Finds s header o s') (hs : s.Agrees)
    (hvalid : restorable.holds s'.blocks) (hend : o = .ok none ∨ ∀ b ∈ header, s.Next b) :
    s'.Agrees := by
  cases h with
  | failed hreg | registered hreg => exact hreg.agrees hs hvalid (.inr (hend.resolve_left (by simp)))
  | checked _ hreg => exact hreg.agrees hs hvalid (.inl rfl)

theorem Live.DeletedFrom.agrees (h : s.DeletedFrom o s') (hs : s.Agrees)
    (hvalid : restorable.holds s.blocks) (hfatal : fatal o = false) : s'.Agrees := by
  cases h with
  | unpruned => exact hs
  | pruned => exact Live.agrees_saved (s := s.pruned) (restorable.above _ hvalid)
  | lost => cases hfatal

/-- What a service is between two calls: the lists agree, and there is a height to fall back to if
there is anything to fall back from. -/
structure Live.Settled (s : Live) : Prop where
  agrees : s.Agrees
  guard : s.checked.truthy?.isSome ∨ s.blocks = []

theorem Live.Settled.finds (h : s.Settled) (hseq : env.Sequential) (header : Option Header) :
    s.checked.truthy?.isSome ∨ env.FindsNone s header :=
  h.guard.imp_right fun hempty {_ _} hfinds => hfinds.of_empty hseq hempty

/-- A call leaves equal lists if it had no gap to fill, or if it completes without a rewind and there was
a height to fall back to. -/
theorem Env.Calls.agrees {header : Option Header} (h : env.Calls s header o s') (hs : s.Agrees)
    (hkeeps : restorable.Keeps s) (hpos : 0 < s.finalized.blockHeight)
    (henv : restorable.Admits env) (hseq : env.Sequential)
    (hheader : ∀ b ∈ header, restorable.header b) (hfatal : fatal o = false)
    (hend : o = .ok none ∧ (s.checked.truthy?.isSome ∨ env.FindsNone s header) ∨
      ∀ b ∈ header, s.Next b) : s'.Agrees := by
  have hvalid : ∀ {o s₁}, env.Finds s header o s₁ → restorable.holds s₁.blocks := fun hfinds =>
    (hkeeps.finds henv hpos hheader hfinds).memory
  cases h.alone hseq with
  | failed hfinds =>
    exact hfinds.agrees hs (hvalid hfinds) (.inr (hend.resolve_left (by simp)))
  | searched _ hfinds hsearch =>
    refine hfinds.agrees hs (hvalid hfinds) (.inr ?_)
    rcases hend with ⟨rfl, hguard⟩ | hend
    · -- a search that names no target had no height to fall back to
      have htruthy : s'.checked.truthy?.isSome := by
        rw [hfinds.sameHeights.checked]
        rcases hguard with htruthy | hnone
        · exact htruthy
        · rcases hnone hfinds with h | h <;> cases h
      rcases hsearch.targets htruthy with ⟨R, hR⟩ | ⟨e, he, -⟩
      · cases hR
      · cases he
    · exact hend
  | deleted _ hfinds hdeleted =>
    have hfound := hfinds.agrees hs (hvalid hfinds) (.inl rfl)
    exact hdeleted.agrees hfound (hvalid hfinds) hfatal

/-- **A call that completes without a rewind settles the service**, and so does one that throws, if
there was no gap to fill. -/
theorem Live.Settled.calls {header : Option Header} (hs : s.Settled)
    (hkeeps : restorable.Keeps s) (hpos : 0 < s.finalized.blockHeight)
    (henv : restorable.Admits env) (hseq : env.Sequential)
    (hheader : ∀ b ∈ header, restorable.header b) (h : env.Calls s header o s')
    (hfatal : fatal o = false) (hend : o = .ok none ∨ ∀ b ∈ header, s.Next b) : s'.Settled := by
  have hguard := hs.finds hseq header
  have hguarded := guarded_of_calls hpos hguard hseq h hfatal
  refine ⟨?_, hguarded.guard.imp_right And.left⟩
  apply h.agrees hs.agrees hkeeps hpos henv hseq hheader hfatal
  exact hend.imp_left fun ho => ⟨ho, hguard⟩

/-! ## Resets and `init` -/

theorem Live.Settled.withFinalized (h : s.Settled) (F : Header) : (s.withFinalized F).Settled :=
  ⟨h.agrees, h.guard⟩

theorem Live.Settled.registered (h : s.Settled) {header : Header}
    (hs' : s.node.registerFinalizedBlock header = s'.node) : s'.Settled := by
  rcases s.registerFinalizedBlock_cases header with hkeep | ⟨-, hset⟩
  · obtain rfl := Live.node_inj (hkeep.symm.trans hs')
    exact h
  · obtain rfl := Live.node_inj (hset.symm.trans hs')
    exact h.withFinalized header

theorem Reset.done_agrees (what : Reset) (h : s.Agrees) : (what.done s).Agrees := by
  cases what with
  | unfinalizedBlocks => rfl
  | lastFinalizedVerifiedHeight => exact h

theorem Env.Resets.agrees {resets : List Reset} {o : Outcome Failure Unit}
    (h : env.Resets resets s o s') (hs : s.Agrees) (hok : o = .ok ()) : s'.Agrees := by
  induction h with
  | nil => exact hs
  | @cons what _ _ _ _ _ _ _ ih => exact ih (what.done_agrees hs) hok
  | lost | lostInStore => cases hok

/-- A reset that completes settles the service if it is one of the list, and keeps it settled if not. -/
theorem Env.Resets.settled {what : Reset} {o : Outcome Failure Unit}
    (h : env.Resets [what] s o s') (hok : o = .ok ())
    (hs : what = .unfinalizedBlocks ∨ s.Settled) : s'.Settled := by
  cases h with
  | lost | lostInStore => cases hok
  | cons _ h =>
    cases h with
    | lost => cases hok
    | nil =>
      apply Live.Settled.withFinalized
      cases what with
      | unfinalizedBlocks => exact ⟨rfl, .inr rfl⟩
      | lastFinalizedVerifiedHeight =>
        have hsettled := hs.resolve_left (by simp)
        exact ⟨hsettled.agrees, hsettled.guard⟩

/-- An `init` that completes leaves the lists it loaded, or two empty ones. -/
theorem Env.Inits.agrees {resets : List Reset} {w w' : State} {r : Option Header}
    (h : env.Inits resets w (.ok r) w') (hvalid : restorable.holds w.metadata.decoded)
    (hpos : ∀ {n F}, env.getFinalizedHeader n = .ok F → 0 < F.blockHeight)
    (henv : restorable.Admits env) (hseq : env.Sequential) : w'.Agree := by
  cases r with
  | none =>
    obtain ⟨hmemory, hstore⟩ := h.clears
    unfold State.Agree
    rw [hmemory, hstore]
  | some R =>
    cases h with
    | @loaded n F o s' hreturned hadv hvalidates =>
      apply congrArg some
      have hkeeps := ListInvariant.Keeps.loaded hvalid F
      have hloaded : (Live.loaded w.metadata F).Agrees := rfl
      generalize ho : (Outcome.ok (some R) : Outcome Failure (Option Header)) = o at hvalidates
      cases hvalidates with
      | untracked | failed | rewindFailed => cases ho
      | @cleared _ _ o => cases o <;> cases ho
      | @rewound _ s₁ _ _ _ hcalls hresets =>
        cases hcalls with
        | resumed hcalls =>
          have hcalled := hcalls.agrees hloaded hkeeps (hpos hreturned) henv hseq (by simp) rfl
            (.inr (by simp))
          exact (hresets.agrees hcalled rfl).symm

theorem Env.Resets.fatal_of_fail {resets : List Reset} {e : Failure} {o : Outcome Failure Unit}
    (h : env.Resets resets s o s') (ho : o = .fail e) : e = .crash := by
  induction h with
  | nil => cases ho
  | cons _ _ ih => exact ih ho
  | lost | lostInStore => exact (Outcome.fail.inj ho).symm

/-- An `init` that names no target leaves two empty lists. -/
theorem Env.Inits.settled_of_none {resets : List Reset} {w w' : State}
    (h : env.Inits resets w (.ok none) w') (hw' : w' = s.node) : s.Settled := by
  obtain ⟨hmemory, hstore⟩ := h.clears
  rw [hw'] at hmemory hstore
  have hblocks : s.blocks = [] := Option.some.inj hmemory
  exact ⟨hstore.trans hblocks.symm, .inr hblocks⟩

/-- A validation that throws without a crash throws in its call. -/
theorem Env.Validates.call_of_fail {resets : List Reset} {e : Failure}
    (h : env.Validates resets s (.fail e) s')
    (hfatal : fatal (.fail e : Outcome Failure (Option Header)) = false) :
    env.Calls s none (.fail e) s' := by
  have hcrash : e ≠ .crash := by
    rintro rfl
    cases hfatal
  generalize ho : (Outcome.fail e : Outcome Failure (Option Header)) = o at h
  cases h with
  | untracked | rewound => cases ho
  | failed _ hcalls =>
    obtain rfl := Outcome.fail.inj ho
    cases hcalls with
    | failed hcalls => exact hcalls
    | lost => exact absurd rfl hcrash
  | rewindFailed _ _ hresets =>
    obtain rfl := Outcome.fail.inj ho
    cases hresets with
    | failed hresets => exact absurd (hresets.fatal_of_fail rfl) hcrash
    | lost => exact absurd rfl hcrash
  | @cleared _ _ o _ _ hresets =>
    cases o with
    | ok => cases ho
    | fail e' =>
      obtain rfl := Outcome.fail.inj ho
      exact absurd (hresets.fatal_of_fail rfl) hcrash

/-- An `init` that throws leaves the lists it loaded. -/
theorem Env.Inits.settled_of_fail {resets : List Reset} {w : State} {e : Failure} {w' : State}
    (h : env.Inits resets w (.fail e) w') (hw' : w' = s.node)
    (hvalid : restorable.holds w.metadata.decoded)
    (hpos : ∀ {n F}, env.getFinalizedHeader n = .ok F → 0 < F.blockHeight)
    (henv : restorable.Admits env) (hseq : env.Sequential)
    (hfatal : fatal (.fail e : Outcome Failure (Option Header)) = false)
    (hguard : w.metadata.lastFinalizedVerifiedHeight.truthy?.isSome ∨ w.metadata.decoded = []) :
    s.Settled := by
  cases h with
  | notLoaded h =>
    cases h with
    | lost => cases hfatal
    | unanswered _ hload =>
      have hmetadata : s.metadata = w.metadata := by
        rw [← hload.metadata, hw']
        rfl
      have hblocks : s.blocks = w.metadata.decoded := by
        apply Option.some.inj
        rw [← hload.blocks, hw']
        rfl
      have hchecked : s.checked = w.metadata.lastFinalizedVerifiedHeight := by
        rw [← hload.checked, hw']
        rfl
      constructor
      · rw [Live.Agrees, hmetadata, hblocks]
      · rw [hchecked, hblocks]
        exact hguard
  | @loaded n F o s' hreturned hadv hvalidates =>
    obtain rfl : s' = s := Live.node_inj hw'
    have hsettled : (Live.loaded w.metadata F).Settled := ⟨rfl, hguard⟩
    have hkeeps := ListInvariant.Keeps.loaded hvalid F
    have hcalls := hvalidates.call_of_fail hfatal
    exact hsettled.calls hkeeps (hpos hreturned) henv hseq (by simp) hcalls hfatal (.inr (by simp))

/-- A reset of the list that completes leaves two empty lists, whether `init` has run or not. -/
theorem resetUnfinalizedBlocks_clears (env : Env) (w : State) :
    Async.Sat env w Reset.unfinalizedBlocks.call fun o w' => ∀ a, o = .ok a → w'.Agree := by
  -- finality touches neither list
  have hothers : ∀ (n : Nat) (w' : State), w'.Loading env w'.unfinalizedBlocks?
      w'.lastCheckedBlockHeight (EventLoop.others Failure env n w') := fun n w' =>
    State.Loading.others ⟨rfl, rfl, rfl, fun F hF => ⟨F, hF, .same⟩⟩ n
  have hsaved : Async.Sat env w (Async.awaits (saveUnfinalizedBlocks [])) fun o w' =>
      ∀ a, o = .ok a → w'.metadata.decoded = [] := by
    refine Async.Sat.awaits_stable (Async.Sat.update fun _ _ => rfl) fun n w' h => ?_
    rw [(hothers n w').metadata]
    exact h
  refine Async.Sat.awaits_stable (Async.Sat.bind hsaved ?_ ?_) ?_
  · intro a w' h
    exact Async.Sat.update fun _ _ => congrArg some (h a rfl).symm
  · intro e _ _ a ha
    cases ha
  · intro n w' h
    unfold State.Agree
    rw [(hothers n w').blocks, (hothers n w').metadata]
    exact h

/-! ## Runs -/

/-- Whether a call with this header fills a gap. -/
def Op.fillsGap (op : Op) (w : State) : Bool :=
  match op with
  | .process _ (some header) =>
    (w.finalizedHeader?.any fun finalized => finalized.blockHeight < header.blockHeight) &&
      (w.unfinalizedBlocks?.getD []).getLast?.any fun last =>
        last.blockHeight + 1 < header.blockHeight
  | _ => false

/-- The operations after which the service must be reset or restarted, should they throw: a call that
fills a gap, and an `init` that finds tracked blocks and no verified height in the store. -/
def Op.mustNotThrow (op : Op) (w : State) : Bool :=
  match op with
  | .init .. => w.metadata.lastFinalizedVerifiedHeight.truthy?.isNone && !w.metadata.decoded.isEmpty
  | _ => op.fillsGap w

/-- Whether a reset is due after an operation that was `due` before it: the operation has named a rewind
target, or has thrown although it must not. It stays due until the list is reset or the process is
gone. -/
def Op.leavesDue (op : Op) (mustNotThrow due : Bool) : Outcome Failure (Option Header) → Bool
  | .ok (some _) => true
  | .ok none =>
    match op with
    | .reset _ .unfinalizedBlocks => false
    | _ => due
  | .fail e => !fatal (.fail e : Outcome Failure Unit) && (due || mustNotThrow)

/-- A service, and whether a reset is due. -/
def Op.nextDue (mustNotThrow : Op → State → Bool) (op : Op) (x : State × Bool) : State × Bool :=
  (op.next x.1, op.leavesDue (mustNotThrow op x.1) x.2 (op.run x.1).1)

/-- Nothing is called on a service while a reset is due. -/
def Op.Waits : Op → Prop
  | .init .. => False
  | .process .. => False
  | _ => True

/-- Times are dates, no finalized height is 0, operations run one at a time, and a reset that is due is
made. -/
def Op.InOrder (op : Op) (x : State × Bool) : Prop :=
  restorable.service.may op x.1 ∧ op.OneAtATime ∧ (x.2 = true → op.Waits)

/-- The operations after which the lists are compared. -/
def Op.Completes (op : Op) (w : State) : Prop :=
  match op with
  | .init .. => ∃ r, (op.run w).1 = .ok r
  | .process .. => (op.run w).1 = .ok none
  | .reset _ .unfinalizedBlocks => (op.run w).1 = .ok none
  | _ => False

/-- The service of a run: its times are dates, and it is settled unless a reset is due. -/
structure Orderly (x : State × Bool) : Prop where
  holds : restorable.service.Holds x.1
  settled : x.2 = false → ∀ s : Live, x.1 = s.node → s.Settled

theorem Op.leavesDue_fail {op : Op} {mustNotThrow due : Bool} {e : Failure}
    (hfatal : fatal (.fail e : Outcome Failure (Option Header)) = false)
    (h : op.leavesDue mustNotThrow due (.fail e) = false) : due = false ∧ mustNotThrow = false := by
  have hfatal' : fatal (.fail e : Outcome Failure Unit) = false :=
    (fatal_replace () (.fail e : Outcome Failure (Option Header))).trans hfatal
  simpa [Op.leavesDue, hfatal'] using h

/-- A call that fills no gap. -/
theorem Live.next_of_fillsGap {header : Option Header}
    (h : (Op.process env header).fillsGap s.node = false) : ∀ b ∈ header, s.Next b := by
  rintro b rfl habove last hlast
  by_contra hlt
  have hgap : (Op.process env (some b)).fillsGap s.node = true := by
    simp only [Op.fillsGap, Live.node, Option.any_some, Option.getD_some, Bool.and_eq_true,
      decide_eq_true_eq]
    exact ⟨habove, by rw [Option.mem_def.mp hlast]; simpa using hlt⟩
  rw [hgap] at h
  cases h

/-- Nothing is due when something is called. -/
theorem Op.InOrder.not_due {op : Op} {w : State} {due : Bool} (h : op.InOrder (w, due))
    (hwaits : ¬op.Waits) : due = false :=
  Bool.eq_false_iff.mpr fun hdue => hwaits (h.2.2 hdue)

/-- An operation after which no reset is due leaves a settled service. -/
theorem Orderly.effect {op : Op} {w w' : State} {due : Bool} (h : Orderly (w, due))
    (hop : op.InOrder (w, due)) (heffect : Op.Effect op w o w') (hfatal : fatal o = false)
    (hdue : op.leavesDue (op.mustNotThrow w) due o = false) (hw' : w' = s'.node) : s'.Settled := by
  have hmay := hop.1
  have hseq := hop.2.1
  cases heffect with
  | init hinits =>
    rcases o with (_ | R) | e
    · exact hinits.settled_of_none hw'
    · cases hdue
    · refine hinits.settled_of_fail hw' h.holds.store hmay.1.returned hmay.1 hseq hfatal ?_
      have hguard := (Op.leavesDue_fail hfatal hdue).2
      simp only [Op.mustNotThrow, Bool.and_eq_false_iff] at hguard
      refine hguard.imp (fun h => ?_) fun h => ?_
      · simpa using h
      · simpa using h
  | process hcalls =>
    obtain rfl := Live.node_inj hw'
    have hlive := h.holds.live _ rfl
    have hsettled := h.settled (hop.not_due id) _ rfl
    refine hsettled.calls hlive.1 hlive.2 hmay.1 hseq (hmay.2 _ rfl) hcalls hfatal ?_
    rcases o with (_ | R) | e
    · exact .inl rfl
    · cases hdue
    · exact .inr (Live.next_of_fillsGap (Op.leavesDue_fail hfatal hdue).2)
  | processUnready hnone =>
    rw [hw'] at hnone
    cases hnone
  | registerFinalizedBlock =>
    rcases h.holds.valid.cases with ⟨s, rfl⟩ | hnone
    · exact (h.settled hdue s rfl).registered hw'
    · rw [State.registerFinalizedBlock_of_none hnone] at hw'
      rw [hw'] at hnone
      cases hnone
  | @reset _ what s _ o _ hresets =>
    obtain rfl := Live.node_inj hw'
    cases o with
    | fail e =>
      obtain rfl := hresets.fatal_of_fail rfl
      cases hfatal
    | ok =>
      apply hresets.settled rfl
      cases what with
      | unfinalizedBlocks => exact .inl rfl
      | lastFinalizedVerifiedHeight => exact .inr (h.settled hdue s rfl)
  | resetUnready _ hreset =>
    have hnone := hreset.finalized
    rw [hw'] at hnone
    cases hnone
  | crash => cases hfatal

/-- **The step lemma.** -/
theorem Orderly.next {op : Op} {x : State × Bool} (h : Orderly x) (hop : op.InOrder x) :
    Orderly (op.nextDue Op.mustNotThrow x) := by
  obtain ⟨w, due⟩ := x
  refine ⟨h.holds.next hop.1, fun hdue s' hs' => ?_⟩
  have heffect := op.run_effect h.holds.valid
  simp only [Op.nextDue, Op.next] at hs' hdue
  split at hs'
  · cases hs'
  · next hfatal => exact h.effect hop heffect (Bool.not_eq_true _ ▸ hfatal) hdue hs'

/-- What the next process reads is what the store decodes to. -/
theorem getMetadataUnfinalizedBlocks_reads (env : Env) (w : State) :
    Async.Sat env w getMetadataUnfinalizedBlocks fun o _ => env.Reads w.metadata.decoded o :=
  Async.Sat.mono (getMetadataUnfinalizedBlocks_sat env w) fun _ _ h => h.2

/-- An operation after which the lists are compared leaves equal ones. -/
theorem Orderly.completes {op : Op} {w : State} {due : Bool} (h : Orderly (w, due))
    (hop : op.InOrder (w, due)) (hcompletes : op.Completes w) : (op.next w).Agree := by
  have heffect := op.run_effect h.holds.valid
  -- nothing that completes is fatal
  have hnext : ∀ r, (op.run w).1 = .ok r → op.next w = (op.run w).2 := by
    intro r hr
    rw [Op.next, hr]
    rfl
  cases op with
  | init env resets =>
    obtain ⟨r, hr⟩ := hcompletes
    rw [hnext r hr]
    rw [hr] at heffect
    cases heffect with
    | init hinits => exact hinits.agrees h.holds.store hop.1.1.returned hop.1.1 hop.2.1
  | process env header =>
    rw [hnext none hcompletes]
    rw [show (Op.run _ w).1 = _ from hcompletes] at heffect
    generalize hw' : ((Op.process env header).run w).2 = w' at heffect
    generalize ho : (Outcome.ok none : Outcome Failure (Option Header)) = o at heffect
    cases heffect with
    | @process _ _ s s' _ hcalls =>
      have hdue : (Op.process env header).leavesDue ((Op.process env header).mustNotThrow s.node) due
          o = false := by
        rw [← ho]
        exact hop.not_due id
      have hsettled := h.effect hop (.process hcalls) (by rw [← ho]; rfl) hdue rfl
      exact congrArg some hsettled.agrees.symm
    | processUnready => cases ho
  | reset env what =>
    cases what with
    | unfinalizedBlocks =>
      rw [hnext none hcompletes]
      refine resetUnfinalizedBlocks_clears env w 0 () ?_
      have hrun : ((Reset.unfinalizedBlocks.call env 0 w).1.replace none :
          Outcome Failure (Option Header)) = .ok none := hcompletes
      rcases hcall : (Reset.unfinalizedBlocks.call env 0 w).1 with ⟨⟨⟩⟩ | e
      · rfl
      · rw [hcall] at hrun
        cases hrun
    | lastFinalizedVerifiedHeight => exact hcompletes.elim
  | registerFinalizedBlock | crash => exact hcompletes.elim

theorem Orderly.started : Orderly (State.started State.emptyStore, false) where
  holds := restorable.service.started
  settled _ s hs := by cases hs

/-- **The store agrees with memory.** In every run in which a call that fills a gap, or an `init` without
a verified height, is followed by a reset or a restart should it throw, the store decodes to the list
in memory whenever `init`, a reset of the list or a call without a rewind has completed; a process that
starts over this store reads that list. -/
theorem store_agrees {ops : List Op} {op : Op}
    (hops : Permitted (Op.nextDue Op.mustNotThrow) Op.InOrder (ops ++ [op])
      (State.started State.emptyStore, false))
    (hcompletes : op.Completes
      (runAll (Op.nextDue Op.mustNotThrow) ops (State.started State.emptyStore, false)).1) :
    ∃ l : List Header,
      let w := op.next
        (runAll (Op.nextDue Op.mustNotThrow) ops (State.started State.emptyStore, false)).1
      w.unfinalizedBlocks? = some l ∧ w.metadata.decoded = l ∧
        ∀ (env : Env) (n : Nat), env.Reads l (getMetadataUnfinalizedBlocks env n w.restarted).1 := by
  obtain ⟨hrun, hlast⟩ := Permitted.append_iff.mp hops
  have horderly := hrun.invariant (fun _ _ h hop => h.next hop) Orderly.started
  cases hlast with
  | cons hop =>
    exact ⟨_, horderly.completes hop hcompletes, rfl,
      fun env n => getMetadataUnfinalizedBlocks_reads env _ n⟩

/-! ## A gap -/

/-- Every request is answered with a header or with a skipped slot. -/
def Op.Answered : Op → Prop
  | .process env _ => ∀ n slot, (∃ b, env.headerReply n slot = .ok b) ∨
      env.headerReply n slot = .error .blockUnavailable
  | _ => True

namespace GapAt102

def a : Header := .untimed 100 "a" "z"
def x : Header := .untimed 101 "x" "a"

/-- Slot 100 is final, and slot 101 is tracked. -/
def tracked : List Op :=
  [.init (.steady a fun _ => .slotSkipped) [], .process (.steady a fun _ => .slotSkipped) (some x)]

/-- The gap in front of slot 104: block `b` follows `x`, and block `c` follows another one. -/
def getBlock : Nat → GetBlockReply BaseSolanaBlock
  | 102 => .block ⟨92, 0, "b", 101, "x"⟩
  | 103 => .block ⟨93, 0, "c", 102, "y"⟩
  | _ => .longTermStorageSlotSkipped

theorem untimed_valid (blockHeight : Nat) (blockHash parentHash : String) :
    (Header.untimed blockHeight blockHash parentHash).timestamp.Valid :=
  Date.ofTime_valid (by decide) (by decide)

theorem admits {reply : Nat → GetBlockReply BaseSolanaBlock}
    (h : ∀ slot block, reply slot = .block block → block.blockTime = 0) :
    restorable.Admits (.steady a reply) where
  answers {n slot header} hanswer := by
    obtain ⟨block, hblock, rfl⟩ := block_of_getHeaderByHeight hanswer
    show (Date.ofTime (block.blockTime * 1000)).Valid
    rw [h slot block hblock]
    exact Date.ofTime_valid (by decide) (by decide)
  registered hF := by cases hF
  returned hF := by
    cases hF
    exact Nat.zero_lt_succ 99

theorem admits_skipped : restorable.Admits (.steady a fun _ => .slotSkipped) :=
  admits fun _ _ h => by cases h

theorem admits_getBlock : restorable.Admits (.steady a getBlock) := by
  refine admits fun slot block h => ?_
  unfold getBlock at h
  split at h
  · cases h
    rfl
  · cases h
    rfl
  · cases h

theorem answered {reply : Nat → GetBlockReply BaseSolanaBlock} (header : Option Header)
    (h : ∀ slot message, reply slot ≠ .error message) :
    (Op.process (.steady a reply) header).Answered := by
  intro n slot
  show (∃ b, getHeaderByHeight true slot (reply slot) = .ok b) ∨
    getHeaderByHeight true slot (reply slot) = .error .blockUnavailable
  cases hreply : reply slot with
  | block block => exact .inl ⟨_, rfl⟩
  | null | slotSkipped | longTermStorageSlotSkipped => exact .inr rfl
  | error message => exact absurd hreply (h slot message)

/-- A call of the run, while nothing is due. -/
theorem process_inOrder {reply : Nat → GetBlockReply BaseSolanaBlock} {header : Option Header}
    (hadmits : restorable.Admits (.steady a reply)) (hheader : ∀ b ∈ header, restorable.header b)
    {x : State × Bool} (hdue : x.2 = false) : (Op.process (.steady a reply) header).InOrder x :=
  ⟨⟨hadmits, fun _ _ => hheader⟩, Env.steady_sequential _ _, fun h => by rw [hdue] at h; cases h⟩

theorem init_inOrder : (Op.init (.steady a fun _ => .slotSkipped) []).InOrder
    (State.started State.emptyStore, false) :=
  ⟨⟨admits_skipped, ⟨⟩⟩, Env.steady_sequential _ _, fun h => by cases h⟩

/-- The block of slot 103 that does follow `b` fills nothing but the gap in front of it. -/
theorem store_agrees_at103 : ∃ l : List Header,
    let w := (Op.process (.steady a getBlock) (some (.untimed 103 "d" "b"))).next
      (runAll (Op.nextDue Op.mustNotThrow) tracked (State.started State.emptyStore, false)).1
    w.unfinalizedBlocks? = some l ∧ w.metadata.decoded = l ∧
      ∀ (env : Env) (n : Nat), env.Reads l (getMetadataUnfinalizedBlocks env n w.restarted).1 := by
  have hops : Permitted (Op.nextDue Op.mustNotThrow) Op.InOrder
      (tracked ++ [.process (.steady a getBlock) (some (.untimed 103 "d" "b"))])
      (State.started State.emptyStore, false) := by
    refine .cons init_inOrder (.cons ?_ (.cons ?_ .nil))
    · refine process_inOrder admits_skipped ?_ rfl
      rintro _ ⟨⟩
      exact untimed_valid _ _ _
    · refine process_inOrder admits_getBlock ?_ rfl
      rintro _ ⟨⟩
      exact untimed_valid _ _ _
  exact store_agrees hops rfl

/-- The call that fills the gap and throws. -/
def filled : List Op := tracked ++ [.process (.steady a getBlock) (some (.untimed 104 "d" "c"))]

/-- **A gap stays unsaved.** The call with the block of slot 104 fills the gap with `b`, finds a fork at
slot 103, and throws when it asks for slot 100. The next call completes, and `b` is in memory only. -/
theorem gap_stays_unsaved :
    ¬∀ (ops : List Op) (op : Op),
      Permitted (Op.nextDue fun _ _ => false) (fun op x => op.InOrder x ∧ op.Answered) (ops ++ [op])
        (State.started State.emptyStore, false) →
      op.Completes
        (runAll (Op.nextDue fun _ _ => false) ops (State.started State.emptyStore, false)).1 →
      (op.next
        (runAll (Op.nextDue fun _ _ => false) ops (State.started State.emptyStore, false)).1).Agree
    := by
  intro h
  have hskipped : ∀ header, (Op.process (.steady a fun _ => .slotSkipped) header).Answered :=
    fun header => answered header fun _ _ h => by cases h
  have hgetBlock : ∀ header, (Op.process (.steady a getBlock) header).Answered := by
    refine fun header => answered header fun slot message h => ?_
    unfold getBlock at h
    split at h <;> cases h
  have hvalid : ∀ b ∈ some x, restorable.header b := by
    rintro _ ⟨⟩
    exact untimed_valid _ _ _
  have hvalid' : ∀ b ∈ some (Header.untimed 104 "d" "c"), restorable.header b := by
    rintro _ ⟨⟩
    exact untimed_valid _ _ _
  have hops : Permitted (Op.nextDue fun _ _ => false) (fun op x => op.InOrder x ∧ op.Answered)
      (filled ++ [.process (.steady a fun _ => .slotSkipped) none])
      (State.started State.emptyStore, false) := by
    refine .cons ⟨init_inOrder, ⟨⟩⟩ (.cons ⟨process_inOrder admits_skipped hvalid rfl, hskipped _⟩ ?_)
    refine .cons ⟨process_inOrder admits_getBlock hvalid' rfl, hgetBlock _⟩ (.cons ?_ .nil)
    exact ⟨process_inOrder admits_skipped (by simp) rfl, hskipped _⟩
  have hagree := h filled (.process (.steady a fun _ => .slotSkipped) none) hops
    (by unfold Op.Completes; rfl)
  revert hagree
  unfold State.Agree
  decide

end GapAt102

end SubqlSolana
