import SubqlSolana.Unfinalized.Operations

/-!
# Invariants of a service

An invariant of a service has two halves: what holds while it runs (`live`), and what holds of the
store alone (`store`), which is all that is left when the process is gone in the middle of a call. A
call that is lost need not restore the first half; it must never break the second. Between the two, a
service whose `init` has failed has a list and no finalized header (`list`).

`ServiceInvariant` is the list of what has to be shown of such a pair, one obligation for each thing
that can happen to a service, under assumptions on the schedules that the invariant names itself.
`ServiceInvariant.next` is then the step lemma, for every operation.
-/

set_option autoImplicit false

namespace SubqlSolana

open Lib

structure ServiceInvariant where
  live : Live → Prop
  store : Metadata → Prop
  list : List Header → Prop
  /-- Assumed of the schedule of every operation. -/
  schedule : Env → Prop
  /-- Assumed of a call, in the state it meets. -/
  call : Env → Option Header → Live → Prop
  /-- Assumed of `init`, in the state it meets. -/
  init : Env → State → Prop
  /-- Assumed of a finalized header registered between two calls. -/
  finality : Header → Prop
  store_of_live : ∀ {s : Live}, live s → store s.metadata
  list_of_live : ∀ {s : Live}, live s → list s.blocks
  list_of_store : ∀ {m : Metadata}, store m → list m.decoded
  list_nil : list []
  empty : store State.emptyStore
  cleared : ∀ {m : Metadata}, store m → store { m with unfinalizedBlocks := some [] }
  heightReset : ∀ {m : Metadata}, store m → store { m with lastFinalizedVerifiedHeight := .null }
  advanced : ∀ {env : Env} {s : Live} {F : Header}, live s → schedule env →
    env.Advance s.finalized F → live (s.withFinalized F)
  registered : ∀ {s : Live} {F : Header}, live s → finality F →
    s.finalized.blockHeight < F.blockHeight → live (s.withFinalized F)
  done : ∀ {s : Live} (what : Reset), live s → live (what.done s)
  processed : ∀ {env : Env} {header : Option Header} {s s' : Live}
    {o : Outcome Failure (Option Header)}, live s → schedule env → call env header s →
    env.Calls s header o s' → store s'.metadata ∧ (fatal o = false → live s')
  /-- There is nothing to check. -/
  loaded : ∀ {env : Env} {w : State} {n : Nat} {F : Header}, store w.metadata → schedule env →
    init env w → env.getFinalizedHeader n = .ok F → w.metadata.decoded = [] →
    live (Live.loaded w.metadata F)
  /-- The check that `init` makes. -/
  validated : ∀ {env : Env} {w : State} {n : Nat} {F : Header} {s' : Live}
    {o : Outcome Failure (Option Header)}, store w.metadata → schedule env → init env w →
    env.getFinalizedHeader n = .ok F → env.Calls (Live.loaded w.metadata F) none o s' →
    store s'.metadata ∧ (fatal o = false → live s')
  /-- `init` was called on a service that was running, and got no finalized header. -/
  reloaded : ∀ {env : Env} {s : Live} {n : Nat} {message : String}, live s → schedule env →
    init env s.node → env.getFinalizedHeader n = .error message →
    live (Live.loaded s.metadata s.finalized)

namespace ServiceInvariant

variable {I : ServiceInvariant} {env : Env} {s s' : Live}

theorem store_inStore (h : I.live s) (what : Reset) : I.store (what.inStore s).metadata := by
  cases what with
  | unfinalizedBlocks => exact I.cleared (I.store_of_live h)
  | lastFinalizedVerifiedHeight => exact I.heightReset (I.store_of_live h)

/-- What a function leaves behind, seen by the caller: a lost process keeps the store. -/
theorem awaited {α : Type} {Q : Outcome Failure α → Live → Prop} {o : Outcome Failure α}
    (h : Awaited env Q o s') (henv : I.schedule env)
    (hQ : ∀ o s', Q o s' → I.store s'.metadata ∧ (fatal o = false → I.live s')) :
    I.store s'.metadata ∧ (fatal o = false → I.live s') := by
  cases h with
  | resumed h hadv =>
    obtain ⟨hstore, hlive⟩ := hQ _ _ h
    exact ⟨hstore, fun _ => I.advanced (hlive rfl) henv hadv⟩
  | failed h => exact hQ _ _ h
  | lost h => exact ⟨(hQ _ _ h).1, fun hfatal => by cases hfatal⟩

theorem resetsKeep (h : I.live s) (henv : I.schedule env) {resets : List Reset}
    {o : Outcome Failure Unit} (hresets : env.Resets resets s o s') :
    I.store s'.metadata ∧ (fatal o = false → I.live s') := by
  induction hresets with
  | nil => exact ⟨I.store_of_live h, fun _ => h⟩
  | @cons what rest s s' F o hadv _ ih =>
    refine ih (I.advanced (I.done what h) henv ?_)
    cases what <;> exact hadv
  | lost => exact ⟨I.store_of_live h, fun hfatal => by cases hfatal⟩
  | lostInStore => exact ⟨store_inStore h _, fun hfatal => by cases hfatal⟩

theorem validates (henv : I.schedule env) {resets : List Reset}
    {o : Outcome Failure (Option Header)} (hvalidates : env.Validates resets s o s')
    (hlive : s.blocks = [] → I.live s)
    (hcalls : ∀ o s₁, env.Calls s none o s₁ →
      I.store s₁.metadata ∧ (fatal o = false → I.live s₁)) :
    I.store s'.metadata ∧ (fatal o = false → I.live s') := by
  have hcalled : ∀ {o : Outcome Failure (Option Header)} {s₁ : Live},
      Awaited env (env.Calls s none) o s₁ → I.store s₁.metadata ∧ (fatal o = false → I.live s₁) :=
    fun h' => awaited h' henv hcalls
  cases hvalidates with
  | untracked h => exact ⟨I.store_of_live (hlive h), fun _ => hlive h⟩
  | failed _ h' => exact hcalled h'
  | rewound _ h' hresets hadv =>
    have hreset := (resetsKeep ((hcalled h').2 rfl) henv hresets).2 rfl
    have hlive := I.advanced hreset henv hadv
    exact ⟨I.store_of_live hlive, fun _ => hlive⟩
  | @rewindFailed R e _ _ _ h' hresets =>
    have hreset := awaited hresets henv fun _ _ => resetsKeep ((hcalled h').2 rfl) henv
    exact ⟨hreset.1, fun hfatal => hreset.2 (fatal_replace (none : Option Header) (.fail e) ▸ hfatal)⟩
  | @cleared _ _ o _ h' hresets =>
    have hreset := resetsKeep ((hcalled h').2 rfl) henv hresets
    exact ⟨hreset.1, fun hfatal => hreset.2 (fatal_replace _ o ▸ hfatal)⟩

/-! ## Runs -/

/-- The operations that `I` assumes. -/
def may (I : ServiceInvariant) : Op → State → Prop
  | .init env _, w => I.schedule env ∧ I.init env w
  | .process env header, w => I.schedule env ∧ ∀ s : Live, w = s.node → I.call env header s
  | .registerFinalizedBlock header, _ => I.finality header
  | .reset env _, _ => I.schedule env
  | .crash, _ => True

/-- The invariant, of a service that may not be running. -/
structure Holds (I : ServiceInvariant) (w : State) : Prop where
  valid : w.Valid
  store : I.store w.metadata
  list : ∀ l ∈ w.unfinalizedBlocks?, I.list l
  live : ∀ s : Live, w = s.node → I.live s

theorem Holds.of_live (h : I.live s) : I.Holds s.node where
  valid := s.valid
  store := I.store_of_live h
  list _ hl := by cases hl; exact I.list_of_live h
  live s' hs' := by
    rw [← Live.node_inj hs']
    exact h

theorem Holds.restarted {w : State} (h : I.store w.metadata) : I.Holds w.restarted where
  valid hfin := by cases hfin
  store := h
  list _ hl := by cases hl
  live s hs := by cases hs

/-- A service that has no finalized header. -/
theorem Holds.of_unready {w : State} (h : I.store w.metadata)
    (hlist : ∀ l ∈ w.unfinalizedBlocks?, I.list l) (hnone : w.finalizedHeader? = none) :
    I.Holds w where
  valid hfin := by rw [hnone] at hfin; cases hfin
  store := h
  list := hlist
  live s hs := by rw [hs] at hnone; cases hnone

theorem Holds.registerFinalizedBlock {w : State} (h : I.Holds w) {F : Header} (hF : I.finality F) :
    I.Holds (w.registerFinalizedBlock F) := by
  rcases h.valid.cases with ⟨s, rfl⟩ | hnone
  · rcases s.registerFinalizedBlock_cases F with hkeep | ⟨hlt, hset⟩
    · rw [hkeep]
      exact h
    · rw [hset]
      exact .of_live (I.registered (h.live s rfl) hF hlt)
  · rw [State.registerFinalizedBlock_of_none hnone]
    exact h

/-- `init` failed while it was loading. -/
theorem Holds.loads {w w' : State} {e : Failure} (h : I.Holds w) (henv : I.schedule env)
    (hinit : I.init env w) (hloads : env.Loads w (.fail e) w') :
    I.store w'.metadata ∧
      (fatal (.fail e : Outcome Failure (Option Header)) = false → I.Holds w') := by
  cases hloads with
  | lost hmetadata => exact ⟨hmetadata ▸ h.store, fun hfatal => by cases hfatal⟩
  | unanswered hanswer hload =>
    have hstore : I.store w'.metadata := hload.metadata ▸ h.store
    refine ⟨hstore, fun _ => ?_⟩
    rcases w' with ⟨blocks, finalized, checked, metadata⟩
    obtain ⟨rfl, rfl, rfl, hfin⟩ := hload
    cases finalized with
    | none =>
      refine .of_unready hstore (fun l hl => ?_) rfl
      cases hl
      exact I.list_of_store h.store
    | some F' =>
      obtain ⟨F, hF, hadv⟩ := hfin F' rfl
      rcases h.valid.cases with ⟨s, rfl⟩ | hnone
      · cases hF
        exact .of_live (I.advanced (I.reloaded (h.live s rfl) henv hinit hanswer) henv hadv)
      · rw [hnone] at hF
        cases hF

theorem Holds.resetUnready {w w' : State} (h : I.Holds w) (hreset : w.ResetUnready w') :
    I.Holds w' := by
  refine .of_unready ?_ (fun l hl => ?_) hreset.finalized
  · rcases hreset.metadata with hstore | hstore
    · exact hstore ▸ I.cleared h.store
    · exact hstore ▸ I.heightReset h.store
  · rcases hreset.blocks with hblocks | hblocks
    · exact h.list l (hblocks ▸ hl)
    · rw [hblocks] at hl
      cases hl
      exact I.list_nil

/-- **The step lemma.** -/
theorem Holds.next {w : State} {op : Op} (h : I.Holds w) (hmay : I.may op w) : I.Holds (op.next w) := by
  have heffect : ∀ o w', Op.Effect op w o w' →
      I.store w'.metadata ∧ (fatal o = false → I.Holds w') := by
    intro o w' heffect
    cases heffect with
    | init hinits =>
      cases hinits with
      | notLoaded hloads =>
        exact h.loads hmay.1 hmay.2 hloads
      | loaded hreturned _ hvalidates =>
        have hvalid := validates hmay.1 hvalidates
          (I.loaded h.store hmay.1 hmay.2 hreturned)
          fun _ _ => I.validated h.store hmay.1 hmay.2 hreturned
        exact ⟨hvalid.1, fun hfatal => .of_live (hvalid.2 hfatal)⟩
    | process hcalls =>
      have hcall := I.processed (h.live _ rfl) hmay.1 (hmay.2 _ rfl) hcalls
      exact ⟨hcall.1, fun hfatal => .of_live (hcall.2 hfatal)⟩
    | processUnready => exact ⟨h.store, fun _ => h⟩
    | registerFinalizedBlock =>
      have hw' := h.registerFinalizedBlock hmay
      exact ⟨hw'.store, fun _ => hw'⟩
    | @reset _ _ _ _ o _ hresets =>
      have hreset := resetsKeep (h.live _ rfl) hmay hresets
      exact ⟨hreset.1, fun hfatal => .of_live (hreset.2 (fatal_replace _ o ▸ hfatal))⟩
    | resetUnready hnone hreset =>
      have hw' := h.resetUnready hreset
      exact ⟨hw'.store, fun _ => hw'⟩
    | crash => exact ⟨h.store, fun _ => h⟩
  exact Op.next_of_effect h.valid (fun o w' he hfatal => (heffect o w' he).2 hfatal)
    fun o w' he _ => .restarted (heffect o w' he).1

theorem started (I : ServiceInvariant) : I.Holds (State.started State.emptyStore) :=
  .of_unready I.empty (fun _ hl => by cases hl) rfl

/-- **The run lemma.** -/
theorem reached {ops : List Op} (h : Permitted Op.next I.may ops (State.started State.emptyStore)) :
    I.Holds (runAll Op.next ops (State.started State.emptyStore)) :=
  h.invariant (fun _ _ => Holds.next) I.started

end ServiceInvariant

end SubqlSolana
