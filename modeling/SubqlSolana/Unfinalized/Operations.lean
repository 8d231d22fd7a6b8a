import SubqlSolana.Lib.Machine
import SubqlSolana.Unfinalized.Updates

/-!
# Operations on the service, and runs of them

What the rest of the indexer does to the service, one `Op` at a time: `init`, a call with a header or
without one, a finalized header registered between two calls, a reset, or the end of the process
between two calls. Every call carries its own schedule, so the RPC, the finality and a crash may
differ from call to call, and `Op.run` is a function. After a crash or an `exitWithError` the next
operation meets a service freshly constructed over what is in the store.

`reindex`, the callback of `init`, is `node-core`'s; of what it does only the resets it makes reach
the service, so it is the list of them.

`Op.run_effect` is the inversion lemma that every invariant is proved from.
-/

set_option autoImplicit false

namespace SubqlSolana

open Lib

inductive Reset where
  | unfinalizedBlocks
  | lastFinalizedVerifiedHeight
  deriving Repr, DecidableEq

def Reset.call : Reset → Service Unit
  | unfinalizedBlocks => Async.awaits resetUnfinalizedBlocks
  | lastFinalizedVerifiedHeight => Async.awaits resetLastFinalizedVerifiedHeight

def resetAll : List Reset → Service Unit
  | [] => pure ()
  | what :: rest => do
    what.call
    resetAll rest

inductive Op where
  | init (env : Env) (reindex : List Reset)
  | process (env : Env) (header : Option Header)
  | registerFinalizedBlock (header : Header)
  | reset (env : Env) (what : Reset)
  | crash

/-- A call that ended with the process. -/
def fatal {α : Type} : Outcome Failure α → Bool
  | .fail (.exit _) => true
  | .fail .crash => true
  | _ => false

theorem fatal_replace {α β : Type} (b : β) (o : Outcome Failure α) :
    fatal (o.replace b) = fatal o := by
  rcases o with a | (_ | _ | _ | _) <;> rfl

/-- One operation: how it ends, and the service it leaves. -/
def Op.run : Op → State → Outcome Failure (Option Header) × State
  | init env reindex, w =>
    match SubqlSolana.init (fun _ => resetAll reindex) env 0 w with
    | (o, _, w') => (o, w')
  | process env header, w =>
    match processUnfinalizedBlockHeader header env 0 w with
    | (o, _, w') => (o, w')
  | registerFinalizedBlock header, w => (.ok none, w.registerFinalizedBlock header)
  | reset env what, w =>
    match what.call env 0 w with
    | (o, _, w') => (o.replace none, w')
  | crash, w => (.fail .crash, w)

/-- The service the next operation meets. -/
def Op.next (op : Op) (w : State) : State :=
  if fatal (op.run w).1 then (op.run w).2.restarted else (op.run w).2

/-- The headers that a run passes. -/
def headersPassed (ops : List Op) : List Header :=
  ops.filterMap fun
    | .process _ header => header
    | _ => none

/-- A call during which nothing else happens, with an RPC that does not change its answers. -/
def Env.steady (finalized : Header) (getBlock : Nat → GetBlockReply BaseSolanaBlock) : Env where
  getBlock _ := getBlock
  negativeSlot _ := "Invalid params: invalid value: integer -1, expected u64"
  treatLongTermStorageSkipAsSkipped := true
  getFinalizedHeader _ := .ok finalized
  finality _ := []
  crash _ := false

theorem Env.steady_sequential (finalized : Header) (getBlock : Nat → GetBlockReply BaseSolanaBlock) :
    (Env.steady finalized getBlock).Sequential :=
  fun _ => rfl

/-! ## Resets -/

namespace Reset

/-- What a reset has done to the service when it returns. -/
def done : Reset → Live → Live
  | unfinalizedBlocks => Live.cleared
  | lastFinalizedVerifiedHeight => Live.heightReset

/-- What it has done while its write to the store is awaited. -/
def inStore : Reset → Live → Live
  | unfinalizedBlocks => Live.storeCleared
  | lastFinalizedVerifiedHeight => Live.heightReset

end Reset

/-- The ends of a sequence of resets. -/
inductive Env.Resets (env : Env) : List Reset → Live → Outcome Failure Unit → Live → Prop where
  | nil {s : Live} : env.Resets [] s (.ok ()) s
  | cons {what : Reset} {rest : List Reset} {s s' : Live} {F : Header} {o : Outcome Failure Unit}
      (hadv : env.Advance s.finalized F)
      (h : env.Resets rest ((what.done s).withFinalized F) o s') : env.Resets (what :: rest) s o s'
  | lost {resets : List Reset} {s : Live} {n : Nat} (h : env.crash n = true) :
      env.Resets resets s (.fail .crash) s
  | lostInStore {what : Reset} {rest : List Reset} {s : Live} {n : Nat} (h : env.crash n = true) :
      env.Resets (what :: rest) s (.fail .crash) (what.inStore s)

theorem resetUnfinalizedBlocks_runs (env : Env) (s : Live) :
    Runs env s resetUnfinalizedBlocks fun o s' =>
      (o = .ok () ∧ ∃ F, env.Advance s.finalized F ∧ s' = s.cleared.withFinalized F) ∨
      (o = .fail .crash ∧ s' = s.storeCleared ∧ ∃ n, env.crash n = true) := by
  refine Runs.bind (Runs.awaits (Q := fun o s' => o = .ok () ∧ s' = s.storeCleared)
    (Runs.update s.storeCleared rfl rfl ⟨rfl, rfl⟩)) ?_ ?_
  · rintro - _ (⟨⟨-, rfl⟩, hadv⟩)
    exact Runs.update (s.cleared.withFinalized _) rfl rfl (.inl ⟨rfl, _, hadv, rfl⟩)
  · rintro e _ (_ | ⟨⟨⟨⟩, -⟩⟩ | ⟨⟨-, rfl⟩, hcrash⟩)
    exact .inr ⟨rfl, rfl, _, hcrash⟩

theorem Reset.call_runs (env : Env) (what : Reset) (s : Live) :
    Runs env s what.call fun o s' =>
      (o = .ok () ∧ ∃ F, env.Advance s.finalized F ∧ s' = (what.done s).withFinalized F) ∨
      (o = .fail .crash ∧ (∃ n, env.crash n = true) ∧ (s' = what.inStore s ∨
        ∃ F, env.Advance s.finalized F ∧ s' = (what.done s).withFinalized F)) := by
  cases what with
  | unfinalizedBlocks =>
    refine (resetUnfinalizedBlocks_runs env s).awaits.mono ?_
    rintro _ _ (⟨⟨⟨⟩, F, hadv, rfl⟩ | ⟨⟨⟩, -⟩, hadv'⟩ | ⟨⟨⟨⟩, -⟩ | ⟨⟨⟩, rfl, hn⟩⟩ |
      ⟨⟨⟨⟩, F, hadv, rfl⟩ | ⟨⟨⟩, -⟩, hn⟩)
    · exact .inl ⟨rfl, _, hadv.trans hadv', rfl⟩
    · exact .inr ⟨rfl, hn, .inl rfl⟩
    · exact .inr ⟨rfl, ⟨_, hn⟩, .inr ⟨F, hadv, rfl⟩⟩
  | lastFinalizedVerifiedHeight =>
    refine Runs.mono (Runs.awaits (Q := fun o s' => o = .ok () ∧ s' = s.heightReset)
      (Runs.update s.heightReset rfl rfl ⟨rfl, rfl⟩)) ?_
    rintro _ _ (⟨⟨⟨⟩, rfl⟩, hadv⟩ | ⟨⟨⟨⟩, -⟩⟩ | ⟨⟨⟨⟩, rfl⟩, hn⟩)
    · exact .inl ⟨rfl, _, hadv, rfl⟩
    · exact .inr ⟨rfl, ⟨_, hn⟩, .inl rfl⟩

theorem Reset.call_resets (env : Env) (what : Reset) (s : Live) :
    Runs env s what.call (env.Resets [what] s) := by
  refine (Reset.call_runs env what s).mono ?_
  rintro _ _ (⟨rfl, F, hadv, rfl⟩ | ⟨rfl, ⟨n, hn⟩, rfl | ⟨F, hadv, rfl⟩⟩)
  · exact .cons hadv .nil
  · exact .lostInStore hn
  · exact .cons hadv (.lost hn)

theorem resetAll_runs (env : Env) : ∀ (resets : List Reset) (s : Live),
    Runs env s (resetAll resets) (env.Resets resets s)
  | [], s => Runs.pure .nil
  | what :: rest, s => by
    refine (Reset.call_runs env what s).bind ?_ ?_
    · rintro _ _ (⟨-, F, hadv, rfl⟩ | ⟨⟨⟩, -⟩)
      exact (resetAll_runs env rest _).mono fun _ _ => .cons hadv
    · rintro _ _ (⟨⟨⟩, -⟩ | ⟨⟨⟩, ⟨n, hn⟩, rfl | ⟨F, hadv, rfl⟩⟩)
      · exact .lostInStore hn
      · exact .cons hadv (.lost hn)

/-! ## `init` -/

/-- What `init` has loaded before it checks anything. -/
def Live.loaded (metadata : Metadata) (finalized : Header) : Live :=
  ⟨metadata.decoded, finalized, metadata.lastFinalizedVerifiedHeight, metadata⟩

/-- While `init` loads: the store is as it was, the first two fields are what was assigned to them, and
a finalized header is there only if one was there before, up to finality. -/
structure State.Loading (env : Env) (w : State) (blocks : Option (List Header))
    (checked : Nullish Nat) (w' : State) : Prop where
  metadata : w'.metadata = w.metadata
  blocks : w'.unfinalizedBlocks? = blocks
  checked : w'.lastCheckedBlockHeight = checked
  finalized : ∀ F' ∈ w'.finalizedHeader?, ∃ F ∈ w.finalizedHeader?, env.Advance F F'

namespace State.Loading

variable {env : Env} {w w' : State} {blocks : Option (List Header)} {checked : Nullish Nat}

theorem registerFinalizedBlock (h : w.Loading env blocks checked w') {n : Nat} {header : Header}
    (hmem : header ∈ env.finality n) :
    w.Loading env blocks checked (w'.registerFinalizedBlock header) := by
  unfold State.registerFinalizedBlock
  cases hfin : w'.finalizedHeader? with
  | none => exact h
  | some finalized =>
    dsimp only
    split
    · exact h
    · next hlt =>
      obtain ⟨F, hF, hadv⟩ := h.finalized finalized hfin
      refine ⟨h.metadata, h.blocks, h.checked, fun F' hF' => ⟨F, hF, ?_⟩⟩
      cases hF'
      exact hadv.trans (.moved hmem (by omega))

theorem others (h : w.Loading env blocks checked w') (n : Nat) :
    w.Loading env blocks checked (EventLoop.others Failure env n w') := by
  have hfold : ∀ (headers : List Header) {w' : State}, (∀ F ∈ headers, F ∈ env.finality n) →
      w.Loading env blocks checked w' → w.Loading env blocks checked
        (headers.foldl (fun w header => w.registerFinalizedBlock header) w') := by
    intro headers
    induction headers with
    | nil => exact fun _ h => h
    | cons header headers ih =>
      intro w' hmem h
      exact ih (fun F hF => hmem F (List.mem_cons_of_mem _ hF))
        (h.registerFinalizedBlock (hmem header List.mem_cons_self))
  exact hfold _ (fun _ hF => hF) h

/-- A value read while loading, after one more `await`. -/
theorem awaits {α : Type} {m : Service α} {P : Outcome Failure α → Prop}
    (hm : Async.Sat env w' m fun o w'' => w.Loading env blocks checked w'' ∧ P o)
    (hlost : ∀ n, env.crash n = true → P (.fail .crash)) :
    Async.Sat env w' (Async.awaits m) fun o w'' => w.Loading env blocks checked w'' ∧ P o := by
  refine Async.Sat.bind hm ?_ fun _ _ h => h
  rintro a w₁ ⟨h₁, ha⟩
  refine Async.Sat.bind (R := fun o w₂ => w.Loading env blocks checked w₂ ∧
    (o = .ok () ∨ o = .fail .crash ∧ P (.fail .crash))) (Async.Sat.yield ?_ ?_) ?_ ?_
  · exact fun n _ => ⟨h₁.others n, .inl rfl⟩
  · intro n e he
    simp only [EventLoop.lost] at he
    split at he
    · next hcrash =>
      cases he
      exact ⟨h₁, .inr ⟨rfl, hlost n hcrash⟩⟩
    · cases he
  · exact fun _ _ h₂ => Async.Sat.pure ⟨h₂.1, ha⟩
  · rintro e w₂ ⟨h₂, ⟨⟨⟩⟩ | ⟨⟨⟩, hcrash⟩⟩
    exact ⟨h₂, hcrash⟩

end State.Loading

/-- The value that was read, or the process is lost. -/
def Env.Reads {α : Type} (env : Env) (value : α) (o : Outcome Failure α) : Prop :=
  o = .ok value ∨ o = .fail .crash ∧ ∃ n, env.crash n = true

theorem Env.Reads.lost {α : Type} {env : Env} {value : α} (n : Nat) (h : env.crash n = true) :
    env.Reads value (.fail .crash) :=
  .inr ⟨rfl, n, h⟩

/-- The ends of `load`. Where the finalized header is not answered, the other two fields have been
assigned. -/
inductive Env.Loads (env : Env) (w : State) : Outcome Failure Unit → State → Prop where
  | loaded {n : Nat} {finalized : Header} (h : env.getFinalizedHeader n = .ok finalized) :
      env.Loads w (.ok ()) (Live.loaded w.metadata finalized).node
  | unanswered {n : Nat} {message : String} {w' : State}
      (h : env.getFinalizedHeader n = .error message)
      (hload : w.Loading env (some w.metadata.decoded) w.metadata.lastFinalizedVerifiedHeight w') :
      env.Loads w (.fail (.error message)) w'
  | lost {n : Nat} {w' : State} (h : w'.metadata = w.metadata) (hcrash : env.crash n = true) :
      env.Loads w (.fail .crash) w'

theorem getMetadataUnfinalizedBlocks_sat (env : Env) (w : State) :
    Async.Sat env w getMetadataUnfinalizedBlocks fun o w' =>
      w.Loading env w.unfinalizedBlocks? w.lastCheckedBlockHeight w' ∧
        env.Reads w.metadata.decoded o := by
  refine State.Loading.awaits (fun n => ⟨?_, .inl rfl⟩) Env.Reads.lost
  exact ⟨rfl, rfl, rfl, fun F hF => ⟨F, hF, .same⟩⟩

theorem load_sat (env : Env) (w : State) : Async.Sat env w load (env.Loads w) := by
  -- the list
  have hblocks := getMetadataUnfinalizedBlocks_sat env w
  refine Async.Sat.bind (State.Loading.awaits hblocks Env.Reads.lost) ?_ ?_
  rotate_left
  · rintro e w₁ ⟨h₁, ⟨⟨⟩⟩ | ⟨⟨⟩, n, hn⟩⟩
    exact .lost h₁.metadata hn
  rintro blocks w₁ ⟨h₁, ⟨⟨⟩⟩ | ⟨⟨⟩, -⟩⟩
  refine Async.Sat.bind (R := fun o w' => o = .ok () ∧
    w.Loading env (some w.metadata.decoded) w.lastCheckedBlockHeight w')
    (Async.Sat.update ⟨rfl, h₁.metadata, rfl, h₁.checked, h₁.finalized⟩) ?_ (by rintro _ _ ⟨⟨⟩, -⟩)
  rintro - w₂ ⟨-, h₂⟩
  -- the height
  refine Async.Sat.bind (State.Loading.awaits
    (P := env.Reads w.metadata.lastFinalizedVerifiedHeight)
    (fun n => ⟨h₂, .inl (congrArg _ (congrArg _ h₂.metadata))⟩) Env.Reads.lost) ?_ ?_
  rotate_left
  · rintro e w₃ ⟨h₃, ⟨⟨⟩⟩ | ⟨⟨⟩, n, hn⟩⟩
    exact .lost h₃.metadata hn
  rintro height w₃ ⟨h₃, ⟨⟨⟩⟩ | ⟨⟨⟩, -⟩⟩
  refine Async.Sat.bind (R := fun o w' => o = .ok () ∧
    w.Loading env (some w.metadata.decoded) w.metadata.lastFinalizedVerifiedHeight w')
    (Async.Sat.update ⟨rfl, h₃.metadata, h₃.blocks, rfl, h₃.finalized⟩) ?_ (by rintro _ _ ⟨⟨⟩, -⟩)
  rintro - w₄ ⟨-, h₄⟩
  -- the finalized header
  refine Async.Sat.bind (R := fun o w' =>
    w.Loading env (some w.metadata.decoded) w.metadata.lastFinalizedVerifiedHeight w' ∧
      ((∃ header n, o = .ok header ∧ env.getFinalizedHeader n = .ok header) ∨
        ∃ e, o = .fail e ∧ env.Loads w (.fail e) w')) ?_ ?_ ?_
  · refine Async.Sat.bind (State.Loading.awaits
      (P := fun o => ∃ n, env.Reads (env.getFinalizedHeader n) o)
      (Async.Sat.reply fun n => ⟨h₄, n, .inl rfl⟩) fun n hn => ⟨n, .lost n hn⟩) ?_ ?_
    · rintro _ w₅ ⟨h₅, n, ⟨⟨⟩⟩ | ⟨⟨⟩, -⟩⟩
      cases hanswer : env.getFinalizedHeader n with
      | ok header => exact Async.Sat.pure ⟨h₅, .inl ⟨header, n, rfl, hanswer⟩⟩
      | error message => exact Async.Sat.throw ⟨h₅, .inr ⟨_, rfl, .unanswered hanswer h₅⟩⟩
    · rintro e w₅ ⟨h₅, _, ⟨⟨⟩⟩ | ⟨⟨⟩, n, hn⟩⟩
      exact ⟨h₅, .inr ⟨_, rfl, .lost h₅.metadata hn⟩⟩
  · rintro header w₅ ⟨h₅, ⟨_, n, ⟨⟩, hanswer⟩ | ⟨_, ⟨⟩, -⟩⟩
    refine Async.Sat.update ?_
    have hnode : { w₅ with finalizedHeader? := some header } =
        (Live.loaded w.metadata header).node := by
      rcases w₅ with ⟨_, _, _, _⟩
      obtain ⟨rfl, rfl, rfl, -⟩ := h₅
      rfl
    rw [hnode]
    exact .loaded hanswer
  · rintro e w₅ ⟨-, ⟨_, _, ⟨⟩, -⟩ | ⟨_, ⟨⟩, hloads⟩⟩
    exact hloads

/-- The ends of `validate`. -/
inductive Env.Validates (env : Env) (resets : List Reset) (s : Live) :
    Outcome Failure (Option Header) → Live → Prop where
  | untracked (h : s.blocks = []) : env.Validates resets s (.ok none) s
  | failed {e : Failure} {s' : Live} (hne : s.blocks ≠ [])
      (h : Awaited env (env.Calls s none) (.fail e) s') : env.Validates resets s (.fail e) s'
  | rewound {R : Header} {s₁ s' : Live} {F : Header} (hne : s.blocks ≠ [])
      (h : Awaited env (env.Calls s none) (.ok (some R)) s₁)
      (hresets : env.Resets resets s₁ (.ok ()) s') (hadv' : env.Advance s'.finalized F) :
      env.Validates resets s (.ok (some R)) (s'.withFinalized F)
  | rewindFailed {R : Header} {e : Failure} {s₁ s' : Live} (hne : s.blocks ≠ [])
      (h : Awaited env (env.Calls s none) (.ok (some R)) s₁)
      (hresets : Awaited env (env.Resets resets s₁) (.fail e) s') :
      env.Validates resets s (.fail e) s'
  | cleared {s₁ s' : Live} {o : Outcome Failure Unit} (hne : s.blocks ≠ [])
      (h : Awaited env (env.Calls s none) (.ok none) s₁)
      (hresets : env.Resets [.unfinalizedBlocks, .lastFinalizedVerifiedHeight] s₁ o s') :
      env.Validates resets s (o.replace none) s'

theorem validate_runs (env : Env) (resets : List Reset) (s : Live) :
    Runs env s (validate fun _ => resetAll resets) (env.Validates resets s) := by
  refine Runs.unfinalizedBlocks ?_
  split
  · next hlen => exact Runs.pure (.untracked (List.eq_nil_of_length_eq_zero hlen))
  next hlen =>
  have hne : s.blocks ≠ [] := fun h => hlen (by rw [h, List.length_nil])
  refine (processUnfinalizedBlockHeader_runs env none s).awaits.bind ?_ fun e s' h => .failed hne h
  rintro (_ | R) s₁ h
  · have hdone : ∀ {o s'}, env.Resets [.unfinalizedBlocks, .lastFinalizedVerifiedHeight] s₁ o s' →
        env.Validates resets s (o.replace none) s' := fun hresets => .cleared hne h hresets
    refine (Reset.call_runs env .unfinalizedBlocks s₁).bind ?_ ?_
    · rintro _ _ (⟨-, F, hadv₁, rfl⟩ | ⟨⟨⟩, -⟩)
      refine (Reset.call_runs env .lastFinalizedVerifiedHeight _).bind ?_ ?_
      · rintro _ _ (⟨-, F', hadv₂, rfl⟩ | ⟨⟨⟩, -⟩)
        exact Runs.pure (hdone (.cons hadv₁ (.cons hadv₂ .nil)))
      · rintro _ _ (⟨⟨⟩, -⟩ | ⟨⟨⟩, ⟨n, hn⟩, rfl | ⟨F', hadv₂, rfl⟩⟩)
        · exact hdone (.cons hadv₁ (.lostInStore hn))
        · exact hdone (.cons hadv₁ (.cons hadv₂ (.lost hn)))
    · rintro _ _ (⟨⟨⟩, -⟩ | ⟨⟨⟩, ⟨n, hn⟩, rfl | ⟨F, hadv₁, rfl⟩⟩)
      · exact hdone (.lostInStore hn)
      · exact hdone (.cons hadv₁ (.lost hn))
  · refine (resetAll_runs env resets s₁).awaits.bind ?_ fun e s' hresets =>
      .rewindFailed hne h hresets
    rintro _ _ (⟨hresets, hadv'⟩)
    exact Runs.pure (.rewound hne h hresets hadv')

/-- The ends of `init`. -/
inductive Env.Inits (env : Env) (resets : List Reset) (w : State) :
    Outcome Failure (Option Header) → State → Prop where
  | notLoaded {e : Failure} {w' : State} (h : env.Loads w (.fail e) w') :
      env.Inits resets w (.fail e) w'
  | loaded {n : Nat} {finalized : Header} {o : Outcome Failure (Option Header)} {s' : Live}
      (h : env.getFinalizedHeader n = .ok finalized)
      (hadv : env.Advance finalized s'.finalized)
      (hvalidates : env.Validates resets (Live.loaded w.metadata finalized) o s') :
      env.Inits resets w o s'.node

theorem init_sat (env : Env) (resets : List Reset) (w : State) :
    Async.Sat env w (SubqlSolana.init fun _ => resetAll resets) (env.Inits resets w) := by
  refine Async.Sat.bind (load_sat env w) ?_ fun e w' h => .notLoaded h
  rintro _ _ ⟨hloaded⟩
  refine Async.Sat.mono (validate_runs env resets _) ?_
  rintro o _ ⟨s', rfl, hadv, h⟩
  exact .loaded hloaded hadv h

/-! ## The inversion lemma -/

/-- `init` assigns the finalized header last. -/
def State.Valid (w : State) : Prop := w.finalizedHeader?.isSome → w.unfinalizedBlocks?.isSome

/-- A service is running, or it has no finalized header yet. -/
theorem State.Valid.cases {w : State} (h : w.Valid) :
    (∃ s : Live, w = s.node) ∨ w.finalizedHeader? = none := by
  rcases w with ⟨blocks, finalized, checked, metadata⟩
  cases finalized with
  | none => exact .inr rfl
  | some F =>
    obtain ⟨l, hl⟩ := Option.isSome_iff_exists.mp (h rfl)
    exact .inl ⟨⟨l, F, checked, metadata⟩, by simp only [Live.node]; rw [← hl]⟩

theorem Live.valid (s : Live) : s.node.Valid := fun _ => rfl

/-- What a reset leaves of a service that has no finalized header yet. -/
structure State.ResetUnready (w w' : State) : Prop where
  finalized : w'.finalizedHeader? = none
  blocks : w'.unfinalizedBlocks? = w.unfinalizedBlocks? ∨ w'.unfinalizedBlocks? = some []
  checked : w'.lastCheckedBlockHeight = w.lastCheckedBlockHeight
  metadata : w'.metadata = { w.metadata with unfinalizedBlocks := some [] } ∨
    w'.metadata = { w.metadata with lastFinalizedVerifiedHeight := .null }

/-- Everything that an operation can do. -/
inductive Op.Effect : Op → State → Outcome Failure (Option Header) → State → Prop where
  | init {env : Env} {resets : List Reset} {w w' : State} {o : Outcome Failure (Option Header)}
      (h : env.Inits resets w o w') : Effect (.init env resets) w o w'
  | process {env : Env} {header : Option Header} {s s' : Live} {o : Outcome Failure (Option Header)}
      (h : env.Calls s header o s') : Effect (.process env header) s.node o s'.node
  /-- A call before `init` fails at its first getter. -/
  | processUnready {env : Env} {header : Option Header} {w : State}
      (h : w.finalizedHeader? = none) :
      Effect (.process env header) w (.fail (.error notInitialized)) w
  | registerFinalizedBlock {header : Header} {w : State} :
      Effect (.registerFinalizedBlock header) w (.ok none) (w.registerFinalizedBlock header)
  | reset {env : Env} {what : Reset} {s s' : Live} {o : Outcome Failure Unit}
      (hadv : env.Advance s.finalized s'.finalized) (h : env.Resets [what] s o s') :
      Effect (.reset env what) s.node (o.replace none) s'.node
  /-- A reset does not ask whether `init` has run. -/
  | resetUnready {env : Env} {what : Reset} {w w' : State} {o : Outcome Failure (Option Header)}
      (h : w.finalizedHeader? = none) (hreset : w.ResetUnready w') : Effect (.reset env what) w o w'
  | crash {w : State} : Effect .crash w (.fail .crash) w

theorem process_unready {w : State} (h : w.finalizedHeader? = none) (env : Env) (n : Nat)
    (header : Option Header) :
    processUnfinalizedBlockHeader header env n w = (.fail (.error notInitialized), n, w) := by
  rcases w with ⟨blocks, finalized, checked, metadata⟩
  obtain rfl : finalized = none := h
  cases header <;> rfl

theorem State.ResetUnready.yield {w w' : State} (h : w.ResetUnready w') (env : Env) :
    Async.Sat env w' (Async.yield : Service Unit) fun _ w'' => w.ResetUnready w'' := by
  have hothers : ∀ headers : List Header,
      headers.foldl (fun w header => w.registerFinalizedBlock header) w' = w' := by
    intro headers
    induction headers with
    | nil => rfl
    | cons header headers ih =>
      rw [List.foldl_cons, State.registerFinalizedBlock_of_none h.finalized, ih]
  refine Async.Sat.yield (fun n _ => ?_) fun _ _ _ => h
  show w.ResetUnready ((env.finality n).foldl _ w')
  rw [hothers]
  exact h

theorem State.ResetUnready.awaits {α : Type} {w w' : State} {env : Env} {m : Service α}
    (hm : Async.Sat env w' m fun _ w'' => w.ResetUnready w'') :
    Async.Sat env w' (Async.awaits m) fun _ w'' => w.ResetUnready w'' := by
  refine Async.Sat.bind hm ?_ fun _ _ h => h
  intro a w'' h
  exact Async.Sat.bind (h.yield env) (fun _ _ h => Async.Sat.pure h) fun _ _ h => h

theorem Reset.call_unready {w : State} (h : w.finalizedHeader? = none) (env : Env) (what : Reset) :
    Async.Sat env w what.call fun _ w' => w.ResetUnready w' := by
  cases what with
  | unfinalizedBlocks =>
    refine State.ResetUnready.awaits (Async.Sat.bind (R := fun _ w' => w.ResetUnready w')
      (State.ResetUnready.awaits ?_) ?_ fun _ _ h => h)
    · exact Async.Sat.update ⟨h, .inl rfl, rfl, .inl rfl⟩
    · intro _ w' hw'
      exact Async.Sat.update ⟨hw'.finalized, .inr rfl, hw'.checked, hw'.metadata⟩
  | lastFinalizedVerifiedHeight =>
    refine State.ResetUnready.awaits ?_
    exact Async.Sat.update ⟨h, .inl rfl, rfl, .inr rfl⟩

/-- **What an operation does to a service.** -/
theorem Op.run_effect {w : State} (hw : w.Valid) (op : Op) :
    Op.Effect op w (op.run w).1 (op.run w).2 := by
  cases op with
  | init env resets => exact .init (init_sat env resets w 0)
  | process env header =>
    rcases hw.cases with ⟨s, rfl⟩ | hnone
    · obtain ⟨s', hs', -, h⟩ := processUnfinalizedBlockHeader_runs env header s 0
      show Effect _ _ _ (processUnfinalizedBlockHeader header env 0 s.node).2.2
      rw [hs']
      exact .process h
    · simp only [Op.run, process_unready hnone]
      exact .processUnready hnone
  | registerFinalizedBlock header => exact .registerFinalizedBlock
  | reset env what =>
    rcases hw.cases with ⟨s, rfl⟩ | hnone
    · obtain ⟨s', hs', hadv, h⟩ := Reset.call_resets env what s 0
      show Effect _ _ _ (what.call env 0 s.node).2.2
      rw [hs']
      exact .reset hadv h
    · exact .resetUnready hnone (Reset.call_unready hnone env what 0)
  | crash => exact .crash

/-- A property of services holds after an operation if it holds of what each effect leaves: of the
service, or of the one that is restarted when the process is gone. -/
theorem Op.next_of_effect {I : State → Prop} {op : Op} {w : State} (hw : w.Valid)
    (hstays : ∀ o w', Op.Effect op w o w' → fatal o = false → I w')
    (hgone : ∀ o w', Op.Effect op w o w' → fatal o = true → I w'.restarted) : I (op.next w) := by
  have h := op.run_effect hw
  unfold Op.next
  split
  · next hfatal => exact hgone _ _ h hfatal
  · next hfatal => exact hstays _ _ h (Bool.not_eq_true _ ▸ hfatal)

end SubqlSolana
