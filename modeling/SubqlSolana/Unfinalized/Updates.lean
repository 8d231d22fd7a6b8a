import SubqlSolana.Unfinalized.Requests

/-!
# What the service does to its list and to the store

The functions that change something, in the same form as in `Unfinalized.Requests`: one relation and
one theorem each. A relation also says where the process can be lost, because what a crash leaves
behind is what had reached the store at that `await`.
-/

set_option autoImplicit false

namespace SubqlSolana

open Lib

namespace Live

def withChecked (s : Live) (checked : Nullish Nat) : Live := { s with checked }

/-- Everything up to the finalized height is dropped, and that height is written to the store. The list
in the store is still the old one. -/
def pruned (s : Live) : Live :=
  { s with
    blocks := s.blocks.filter fun header => s.finalized.blockHeight < header.blockHeight
    metadata := { s.metadata with lastFinalizedVerifiedHeight := .value s.finalized.blockHeight } }

/-- The list in the store is empty, the one in memory is not yet. -/
def storeCleared (s : Live) : Live :=
  { s with metadata := { s.metadata with unfinalizedBlocks := some [] } }

def cleared (s : Live) : Live := s.storeCleared.withBlocks []

def heightReset (s : Live) : Live :=
  { s with metadata := { s.metadata with lastFinalizedVerifiedHeight := .null } }

end Live

/-! ## Registering -/

/-- The ends of `backfillSkippedSlots`, with `remaining` slots to go, and the list they leave. -/
inductive Env.Backfills (env : Env) : Nat → Nat → List Header → Outcome Failure (Option Header) →
    List Header → Prop where
  | done {height : Nat} {l : List Header} : env.Backfills 0 height l (.ok none) l
  | skipped {remaining height : Nat} {l l' : List Header} {o : Outcome Failure (Option Header)}
      (h : env.Reply height (.fail .blockUnavailable))
      (hrest : env.Backfills remaining (height + 1) l o l') :
      env.Backfills (remaining + 1) height l o l'
  | pushed {remaining height : Nat} {l l' : List Header} {header : Header}
      {o : Outcome Failure (Option Header)} (h : env.Reply height (.ok header))
      (hlink : ∀ last ∈ l.getLast?, header.parentHash = last.blockHash)
      (hrest : env.Backfills remaining (height + 1) (l ++ [header]) o l') :
      env.Backfills (remaining + 1) height l o l'
  | forked {remaining height : Nat} {l : List Header} {header last : Header}
      (h : env.Reply height (.ok header)) (hlast : l.getLast? = some last)
      (hne : header.parentHash ≠ last.blockHash) :
      env.Backfills (remaining + 1) height l (.ok (some header)) l
  | failed {remaining height : Nat} {l : List Header} {e : Failure}
      (h : env.Reply height (.fail e)) (hne : e ≠ .blockUnavailable) :
      env.Backfills (remaining + 1) height l (.fail e) l

/-- The two ways a new header relates to the last tracked one: their links agree, or they do not. -/
theorem last_cases (l : List Header) (header : Header) :
    ((l.getLast?.any fun last => header.parentHash != last.blockHash) = false ∧
      ∀ last ∈ l.getLast?, header.parentHash = last.blockHash) ∨
    ((l.getLast?.any fun last => header.parentHash != last.blockHash) = true ∧
      ∃ last, l.getLast? = some last ∧ header.parentHash ≠ last.blockHash) := by
  cases hlast : l.getLast? with
  | none => exact .inl ⟨rfl, by simp⟩
  | some last =>
    by_cases h : header.parentHash = last.blockHash
    · exact .inl ⟨by simp [h], by simpa using h⟩
    · exact .inr ⟨by simpa using h, last, rfl, h⟩

theorem pushUnfinalizedBlock_runs {α : Type} {env : Env} {s : Live} {header : Header}
    {f : Unit → Service α} {Q : Outcome Failure α → Live → Prop}
    (h : Runs env (s.withBlocks (s.blocks ++ [header])) (f ()) Q) :
    Runs env s (pushUnfinalizedBlock header >>= f) Q := by
  refine Runs.bind (R := fun o s' => o = .ok () ∧ s' = s.withBlocks (s.blocks ++ [header])) ?_ ?_ ?_
  · refine Runs.unfinalizedBlocks ?_
    exact Runs.update (s.withBlocks (s.blocks ++ [header])) rfl rfl ⟨rfl, rfl⟩
  · rintro - _ ⟨-, rfl⟩
    exact h
  · rintro _ _ ⟨⟨⟩, -⟩

theorem backfillLoop_runs (env : Env) : ∀ (remaining height : Nat) (s : Live),
    Runs env s (backfillLoop remaining height) fun o s' => ∃ l F,
      s' = (s.withBlocks l).withFinalized F ∧ env.Backfills remaining height s.blocks o l
  | 0, height, s => Runs.pure ⟨s.blocks, s.finalized, rfl, .done⟩
  | remaining + 1, height, s => by
    rw [backfillLoop]
    refine Runs.bind (R := fun o s' => ∃ F, s' = s.withFinalized F ∧
      ((∃ header, o = .ok (some header) ∧ env.Reply height (.ok header)) ∨
       (o = .ok none ∧ env.Reply height (.fail .blockUnavailable)) ∨
       (∃ e, o = .fail e ∧ e ≠ .blockUnavailable ∧ env.Reply height (.fail e)))) ?_ ?_ ?_
    · refine Asks.tryCatch (R := fun o => (∃ header, o = .ok (some header) ∧
        env.Reply height (.ok header)) ∨ (∃ e, o = .fail e ∧ env.Reply height (.fail e))) ?_ ?_ ?_
      · exact (getHeaderForHeight_asks env height s).bind
          (fun header _ h => Asks.pure (.inl ⟨header, rfl, h⟩)) fun e h => .inr ⟨e, rfl, h⟩
      · rintro header? (⟨header, ⟨⟩, h⟩ | ⟨_, ⟨⟩, -⟩)
        exact .inl ⟨header, rfl, h⟩
      · rintro e F (⟨_, ⟨⟩, -⟩ | ⟨_, ⟨⟩, h⟩)
        cases e with
        | blockUnavailable => exact Asks.pure (.inr (.inl ⟨rfl, h⟩))
        | error message => exact Asks.throw (.inr (.inr ⟨_, rfl, by simp, h⟩))
        | exit message => exact Asks.throw (.inr (.inr ⟨_, rfl, by simp, h⟩))
        | crash => exact Asks.throw (.inr (.inr ⟨_, rfl, by simp, h⟩))
    · rintro header? _ ⟨F, rfl, ⟨header, ⟨⟩, h⟩ | ⟨⟨⟩, h⟩ | ⟨_, ⟨⟩, -, -⟩⟩
      · refine Runs.unfinalizedBlocks ?_
        rcases last_cases s.blocks header with ⟨hany, hlink⟩ | ⟨hany, last, hlast, hne⟩
        · simp only [Live.withFinalized_blocks, hany, Bool.false_eq_true, if_false]
          refine pushUnfinalizedBlock_runs ?_
          refine (backfillLoop_runs env remaining (height + 1) _).mono ?_
          rintro o _ ⟨l, F', rfl, hrest⟩
          exact ⟨l, F', rfl, .pushed h hlink hrest⟩
        · simp only [Live.withFinalized_blocks, hany, if_true]
          exact Runs.pure ⟨s.blocks, F, rfl, .forked h hlast hne⟩
      · refine (backfillLoop_runs env remaining (height + 1) _).mono ?_
        rintro o _ ⟨l, F', rfl, hrest⟩
        exact ⟨l, F', rfl, .skipped h hrest⟩
    · rintro e _ ⟨F, rfl, ⟨_, ⟨⟩, -⟩ | ⟨⟨⟩, -⟩ | ⟨_, ⟨⟩, hne, h⟩⟩
      exact ⟨s.blocks, F, rfl, .failed h hne⟩

/-- What filling the gap in front of a new header does. There is no gap without a tracked block. -/
inductive Env.Fills (env : Env) (l : List Header) (header : Header) :
    Outcome Failure (Option Header) → List Header → Prop where
  | untracked (h : l.getLast? = none) : env.Fills l header (.ok none) l
  | gap {last : Header} {l' : List Header} {o : Outcome Failure (Option Header)}
      (hlast : l.getLast? = some last) (hlt : last.blockHeight < header.blockHeight)
      (hfill : env.Backfills (header.blockHeight - (last.blockHeight + 1)) (last.blockHeight + 1)
        l o l') : env.Fills l header o l'
  /-- Lost when the gap was filled, before the new header was looked at. -/
  | lost {last : Header} {l' : List Header} {o : Outcome Failure (Option Header)} {n : Nat}
      (hlast : l.getLast? = some last) (hlt : last.blockHeight < header.blockHeight)
      (hfill : env.Backfills (header.blockHeight - (last.blockHeight + 1)) (last.blockHeight + 1)
        l o l') (hcrash : env.crash n = true) : env.Fills l header (.fail .crash) l'

/-- The ends of `registerUnfinalizedBlock`. -/
inductive Env.Registers (env : Env) (s : Live) (header : Header) :
    Outcome Failure (Option Header) → Live → Prop where
  | ignored (h : header.blockHeight ≤ s.finalized.blockHeight) : env.Registers s header (.ok none) s
  | notSequential {last : Header} (h : s.finalized.blockHeight < header.blockHeight)
      (hlast : s.blocks.getLast? = some last) (hle : header.blockHeight ≤ last.blockHeight) :
      env.Registers s header (.fail (.exit (notSequential last.blockHeight header.blockHeight))) s
  | gapFailed {e : Failure} {l : List Header} {F : Header}
      (h : s.finalized.blockHeight < header.blockHeight)
      (hfill : env.Fills s.blocks header (.fail e) l) :
      env.Registers s header (.fail e) ((s.withBlocks l).withFinalized F)
  | gapForked {forked : Header} {l : List Header} {F : Header}
      (h : s.finalized.blockHeight < header.blockHeight)
      (hfill : env.Fills s.blocks header (.ok (some forked)) l) :
      env.Registers s header (.ok (some forked)) ((s.withBlocks l).withFinalized F)
  | forked {last : Header} {l : List Header} {F : Header}
      (h : s.finalized.blockHeight < header.blockHeight)
      (hfill : env.Fills s.blocks header (.ok none) l)
      (hlast : l.getLast? = some last) (hne : header.parentHash ≠ last.blockHash) :
      env.Registers s header (.ok (some header)) ((s.withBlocks l).withFinalized F)
  | appended {o : Outcome Failure (Option Header)} {l : List Header} {F : Header}
      (h : s.finalized.blockHeight < header.blockHeight)
      (hfill : env.Fills s.blocks header (.ok none) l)
      (hlink : ∀ last ∈ l.getLast?, header.parentHash = last.blockHash)
      (ho : o = .ok none ∨ o = .fail .crash ∧ ∃ n, env.crash n = true) :
      env.Registers s header o ((s.withBlocks (l ++ [header])).saved.withFinalized F)

theorem saveUnfinalizedBlocks_awaits (env : Env) (s : Live) :
    Runs env s (Async.awaits (saveUnfinalizedBlocks s.blocks))
      (Awaited env fun o s' => o = .ok () ∧ s' = s.saved) :=
  Runs.awaits (Runs.update s.saved rfl rfl ⟨rfl, rfl⟩)

theorem pushAndSave_runs {env : Env} {s : Live} {header : Header} {l : List Header} {F : Header}
    (h : s.finalized.blockHeight < header.blockHeight)
    (hfill : env.Fills s.blocks header (.ok none) l)
    (hlink : ∀ last ∈ l.getLast?, header.parentHash = last.blockHash) :
    Runs env ((s.withBlocks l).withFinalized F) (pushAndSave header) (env.Registers s header) := by
  refine pushUnfinalizedBlock_runs (Runs.unfinalizedBlocks ?_)
  refine (saveUnfinalizedBlocks_awaits env _).bind ?_ ?_
  · rintro - _ (⟨⟨-, rfl⟩, -⟩)
    exact Runs.pure (.appended h hfill hlink (.inl rfl))
  · rintro e _ (_ | ⟨⟨⟨⟩, -⟩⟩ | ⟨⟨-, rfl⟩, hcrash⟩)
    exact .appended h hfill hlink (.inr ⟨rfl, _, hcrash⟩)

theorem registerChild_runs {env : Env} {s : Live} {header : Header} {l : List Header} {F : Header}
    (h : s.finalized.blockHeight < header.blockHeight)
    (hfill : env.Fills s.blocks header (.ok none) l) :
    Runs env ((s.withBlocks l).withFinalized F) (registerChild header) (env.Registers s header) := by
  refine Runs.unfinalizedBlocks ?_
  rcases last_cases l header with ⟨hany, hlink⟩ | ⟨hany, last, hlast, hne⟩
  · simp only [Live.withFinalized_blocks, Live.withBlocks_blocks, hany, Bool.false_eq_true, if_false]
    exact pushAndSave_runs h hfill hlink
  · simp only [Live.withFinalized_blocks, Live.withBlocks_blocks, hany, if_true]
    exact Runs.pure (.forked h hfill hlast hne)

theorem registerUnfinalizedBlock_runs (env : Env) (header : Header) (s : Live) :
    Runs env s (registerUnfinalizedBlock header) (env.Registers s header) := by
  refine Runs.finalizedBlockNumber ?_
  split
  · next h => exact Runs.pure (.ignored h)
  next h =>
  rw [Nat.not_le] at h
  refine Runs.unfinalizedBlocks ?_
  split
  · next hlast => exact pushAndSave_runs (F := s.finalized) h (.untracked hlast) (by simp [hlast])
  next last hlast =>
  split
  · next hle => exact Runs.throw (.notSequential h hlast hle)
  next hlt =>
  rw [ge_iff_le, Nat.not_le] at hlt
  split
  · have hcount : header.blockHeight - 1 + 1 - (last.blockHeight + 1) =
        header.blockHeight - (last.blockHeight + 1) := by omega
    have hbackfill := backfillLoop_runs env
      (header.blockHeight - (last.blockHeight + 1)) (last.blockHeight + 1) s
    rw [← hcount] at hbackfill
    refine hbackfill.awaits.bind ?_ ?_
    · rintro forked? _ ⟨⟨l, F, rfl, hfill⟩, -⟩
      rw [hcount] at hfill
      cases forked? with
      | some forked => exact Runs.pure (.gapForked h (.gap hlast hlt hfill))
      | none => exact registerChild_runs h (.gap hlast hlt hfill)
    · rintro e _ (_ | ⟨l, F, rfl, hfill⟩ | ⟨⟨l, F, rfl, hfill⟩, hcrash⟩)
      · rw [hcount] at hfill
        exact .gapFailed h (.gap hlast hlt hfill)
      · rw [hcount] at hfill
        exact .gapFailed h (.lost hlast hlt hfill hcrash)
  · next hnext =>
    -- the next slot: a gap of no slots
    have hcount : header.blockHeight - (last.blockHeight + 1) = 0 := by omega
    have hfill : env.Fills s.blocks header (.ok none) s.blocks :=
      .gap hlast hlt (hcount ▸ .done)
    exact registerChild_runs (F := s.finalized) h hfill

/-! ## Pruning -/

/-- The ends of `deleteFinalizedBlock`. -/
inductive Env.Deletes (env : Env) (s : Live) : Outcome Failure Unit → Live → Prop where
  | unpruned (h : s.checked.definedAndBelow s.finalized.blockHeight = false) :
      env.Deletes s (.ok ()) (s.withChecked (.value s.finalized.blockHeight))
  | pruned {F : Header} (h : s.checked.definedAndBelow s.finalized.blockHeight = true)
      (hadv : env.Advance s.finalized F) :
      env.Deletes s (.ok ()) ((s.pruned.saved.withFinalized F).withChecked (.value F.blockHeight))
  | lostBeforeBlocks {n : Nat} (h : s.checked.definedAndBelow s.finalized.blockHeight = true)
      (hcrash : env.crash n = true) : env.Deletes s (.fail .crash) s.pruned
  | lostAfterBlocks {n : Nat} {F : Header}
      (h : s.checked.definedAndBelow s.finalized.blockHeight = true)
      (hcrash : env.crash n = true) :
      env.Deletes s (.fail .crash) (s.pruned.saved.withFinalized F)

theorem removeFinalized_runs {env : Env} {s : Live} {n : Nat} :
    Runs env s (removeFinalized n) fun o s' => o = .ok () ∧
      s' = s.withBlocks (s.blocks.filter fun header => n < header.blockHeight) := by
  refine Runs.unfinalizedBlocks ?_
  exact Runs.update (s.withBlocks _) rfl rfl ⟨rfl, rfl⟩

theorem pruneFinalized_runs {env : Env} {s : Live}
    (h : s.checked.definedAndBelow s.finalized.blockHeight = true) :
    Runs env s pruneFinalized fun o s' => (o = .ok () ∧ ∃ F, s' = s.pruned.saved.withFinalized F) ∨
      ∃ e, o = .fail e ∧ env.Deletes s (.fail e) s' := by
  refine Runs.finalizedBlockNumber (removeFinalized_runs.bind ?_ (by rintro _ _ ⟨⟨⟩, -⟩))
  rintro - _ ⟨-, rfl⟩
  refine Runs.finalizedBlockNumber ?_
  refine Runs.bind (Runs.awaits (Q := fun o s' => o = .ok () ∧ s' = s.pruned)
    (Runs.update s.pruned rfl rfl ⟨rfl, rfl⟩)) ?_ ?_
  · rintro - _ (⟨⟨-, rfl⟩, -⟩)
    refine Runs.unfinalizedBlocks ((saveUnfinalizedBlocks_awaits env _).mono ?_)
    rintro _ _ (⟨⟨⟨⟩, rfl⟩, -⟩ | ⟨⟨⟨⟩, -⟩⟩ | ⟨⟨⟨⟩, rfl⟩, hcrash⟩)
    · exact .inl ⟨rfl, _, rfl⟩
    · exact .inr ⟨_, rfl, .lostAfterBlocks h hcrash⟩
  · rintro e _ (_ | ⟨⟨⟨⟩, -⟩⟩ | ⟨⟨-, rfl⟩, hcrash⟩)
    exact .inr ⟨_, rfl, .lostBeforeBlocks h hcrash⟩

theorem deleteFinalizedBlock_runs (env : Env) (s : Live) :
    Runs env s deleteFinalizedBlock (env.Deletes s) := by
  refine Runs.read (Runs.finalizedBlockNumber ?_)
  cases h : s.checked.definedAndBelow s.finalized.blockHeight with
  | false =>
    simp only [Live.node, h, Bool.false_eq_true, if_false]
    refine Runs.finalizedBlockNumber ?_
    exact Runs.update (s.withChecked (.value s.finalized.blockHeight)) rfl rfl (.unpruned h)
  | true =>
    simp only [Live.node, h, if_true]
    refine (pruneFinalized_runs h).advance.bind ?_ ?_
    · rintro - _ ⟨hadv, ⟨-, F, rfl⟩ | ⟨_, ⟨⟩, -⟩⟩
      refine Runs.finalizedBlockNumber ?_
      exact Runs.update ((s.pruned.saved.withFinalized F).withChecked (.value F.blockHeight))
        rfl rfl (.pruned h hadv)
    · rintro e _ ⟨-, ⟨⟨⟩, -⟩ | ⟨_, ⟨⟩, hdeletes⟩⟩
      exact hdeletes

/-! ## A call -/

/-- The ends of the step that registers a header if there is one: the states `hasForked` starts in are
those of the outcome `none`. -/
inductive Env.RegistersHeader (env : Env) (s : Live) : Option Header →
    Outcome Failure (Option Header) → Live → Prop where
  | noHeader : env.RegistersHeader s none (.ok none) s
  | header {header : Header} {o : Outcome Failure (Option Header)} {s' : Live}
      (h : Awaited env (env.Registers s header) o s') : env.RegistersHeader s (some header) o s'

theorem registerHeader_runs (env : Env) (header : Option Header) (s : Live) :
    Runs env s (registerHeader header) (env.RegistersHeader s header) := by
  cases header with
  | none => exact Runs.pure .noHeader
  | some header => exact (registerUnfinalizedBlock_runs env header s).awaits.mono fun _ _ => .header

/-- The ends of `processUnfinalizedBlockHeader` up to the question whether a fork was found. -/
inductive Env.Finds (env : Env) (s : Live) (header : Option Header) :
    Outcome Failure (Option Header) → Live → Prop where
  | failed {e : Failure} {s' : Live} (h : env.RegistersHeader s header (.fail e) s') :
      env.Finds s header (.fail e) s'
  | registered {forked : Header} {s' : Live}
      (h : env.RegistersHeader s header (.ok (some forked)) s') :
      env.Finds s header (.ok (some forked)) s'
  | checked {o : Outcome Failure (Option Header)} {s' : Live} {F : Header}
      (hadv : env.Advance s.finalized s'.finalized)
      (h : env.RegistersHeader s header (.ok none) s')
      (hchecks : env.Checks s'.blocks s'.finalized o) : env.Finds s header o (s'.withFinalized F)

theorem findFork_runs (env : Env) (header : Option Header) (s : Live) :
    Runs env s (findFork header) (env.Finds s header) := by
  refine (registerHeader_runs env header s).advance.bind ?_ fun _ _ h => .failed h.2
  rintro (_ | forked) s' ⟨hadv, h⟩
  · have hasks : Asks env s' (Async.awaits hasForked) (env.Checks s'.blocks s'.finalized) :=
      (hasForked_asks env s').awaits fun _ _ _ hn => .lost hn
    refine Runs.mono hasks ?_
    rintro o _ ⟨F, rfl, hchecks⟩
    exact .checked hadv h hchecks
  · exact Runs.pure (.registered h)

/-- The ends of `processUnfinalizedBlockHeader`. -/
inductive Env.Processes (env : Env) (s : Live) (header : Option Header) :
    Outcome Failure (Option Header) → Live → Prop where
  | failed {e : Failure} {s' : Live} (h : env.Finds s header (.fail e) s') :
      env.Processes s header (.fail e) s'
  | searched {forked : Header} {s' : Live} {o : Outcome Failure (Option Header)} {F : Header}
      (hadv : env.Advance s.finalized s'.finalized) (h : env.Finds s header (.ok (some forked)) s')
      (hsearch : env.Searches s'.checked (verifiableBlocks s') forked o) :
      env.Processes s header o (s'.withFinalized F)
  | pruned {s' s'' : Live} (hadv : env.Advance s.finalized s'.finalized)
      (h : env.Finds s header (.ok none) s') (hdeletes : Awaited env (env.Deletes s') (.ok ()) s'') :
      env.Processes s header (.ok none) s''
  | pruneFailed {e : Failure} {s' s'' : Live} (hadv : env.Advance s.finalized s'.finalized)
      (h : env.Finds s header (.ok none) s')
      (hdeletes : Awaited env (env.Deletes s') (.fail e) s'') : env.Processes s header (.fail e) s''

/-- A whole call: how it ends, and where finality stands then. -/
structure Env.Calls (env : Env) (s : Live) (header : Option Header)
    (o : Outcome Failure (Option Header)) (s' : Live) : Prop where
  advance : env.Advance s.finalized s'.finalized
  processes : env.Processes s header o s'

theorem processUnfinalizedBlockHeader_runs (env : Env) (header : Option Header) (s : Live) :
    Runs env s (processUnfinalizedBlockHeader header) (env.Calls s header) := by
  refine Runs.mono (Runs.advance (Q := env.Processes s header) ?_) fun _ _ h => ⟨h.1, h.2⟩
  refine (findFork_runs env header s).advance.bind ?_ fun _ _ h => .failed h.2
  rintro (_ | forked) s' ⟨hadv, h⟩
  · refine (deleteFinalizedBlock_runs env s').awaits.bind ?_ fun _ _ => .pruneFailed hadv h
    exact fun _ _ hdeletes => Runs.pure (.pruned hadv h hdeletes)
  · refine Runs.mono (getLastCorrectFinalizedBlock_asks env forked s') ?_
    rintro o _ ⟨F, rfl, hsearch⟩
    exact .searched hadv h hsearch

/-! ## Where headers come from

What a call adds to the list, and what it reports as forked, was passed to it or answered by the RPC; a
check may also report the finalized header. -/

theorem Env.Backfills.source {env : Env} {remaining height : Nat} {l l' : List Header}
    {o : Outcome Failure (Option Header)} (h : env.Backfills remaining height l o l') :
    (∀ b ∈ l', b ∈ l ∨ env.Answers b) ∧ ∀ forked, o = .ok (some forked) → env.Answers forked := by
  induction h with
  | done | failed => exact ⟨fun _ hb => .inl hb, fun _ ho => by cases ho⟩
  | skipped _ _ ih => exact ih
  | pushed hreply _ _ ih =>
    refine ⟨fun b hb => ?_, ih.2⟩
    rcases ih.1 b hb with hb | hb
    · rcases List.mem_append.mp hb with hb | hb
      · exact .inl hb
      · obtain rfl := List.mem_singleton.mp hb
        exact .inr hreply.answers
    · exact .inr hb
  | forked hreply =>
    refine ⟨fun _ hb => .inl hb, fun _ ho => ?_⟩
    cases ho
    exact hreply.answers

theorem Env.Fills.source {env : Env} {l l' : List Header} {header : Header}
    {o : Outcome Failure (Option Header)} (h : env.Fills l header o l') :
    (∀ b ∈ l', b ∈ l ∨ env.Answers b) ∧ ∀ forked, o = .ok (some forked) → env.Answers forked := by
  cases h with
  | untracked => exact ⟨fun _ hb => .inl hb, fun _ ho => by cases ho⟩
  | gap _ _ hfill => exact hfill.source
  | lost _ _ hfill => exact ⟨hfill.source.1, fun _ ho => by cases ho⟩

/-- A passed header that is added is above the finalized height. -/
theorem Env.Registers.source {env : Env} {s s' : Live} {header : Header}
    {o : Outcome Failure (Option Header)} (h : env.Registers s header o s') :
    (∀ b ∈ s'.blocks, b ∈ s.blocks ∨ env.Answers b ∨
      b = header ∧ s.finalized.blockHeight < b.blockHeight) ∧
    ∀ forked, o = .ok (some forked) → forked = header ∨ env.Answers forked := by
  cases h with
  | ignored | notSequential => exact ⟨fun _ hb => .inl hb, fun _ ho => by cases ho⟩
  | gapFailed _ hfill =>
    exact ⟨fun b hb => (hfill.source.1 b hb).imp_right .inl, fun _ ho => by cases ho⟩
  | gapForked _ hfill =>
    exact ⟨fun b hb => (hfill.source.1 b hb).imp_right .inl, fun _ ho => .inr (hfill.source.2 _ ho)⟩
  | forked _ hfill =>
    refine ⟨fun b hb => (hfill.source.1 b hb).imp_right .inl, fun _ ho => ?_⟩
    cases ho
    exact .inl rfl
  | appended habove hfill _ ho =>
    refine ⟨fun b hb => ?_, fun _ hsome => ?_⟩
    · rcases List.mem_append.mp hb with hb | hb
      · exact (hfill.source.1 b hb).imp_right .inl
      · obtain rfl := List.mem_singleton.mp hb
        exact .inr (.inr ⟨rfl, habove⟩)
    · rcases ho with rfl | ⟨rfl, -⟩ <;> cases hsome

theorem Env.RegistersHeader.source {env : Env} {s s' : Live} {header : Option Header}
    {o : Outcome Failure (Option Header)} (h : env.RegistersHeader s header o s') :
    (∀ b ∈ s'.blocks, b ∈ s.blocks ∨ env.Answers b ∨
      b ∈ header ∧ s.finalized.blockHeight < b.blockHeight) ∧
    ∀ forked, o = .ok (some forked) → forked ∈ header ∨ env.Answers forked := by
  have hpassed : ∀ {b h : Header}, b = h → b ∈ some h := fun hb => congrArg some hb.symm
  rcases h with _ | ⟨h, -⟩ | h | ⟨h, -⟩
  · exact ⟨fun _ hb => .inl hb, fun _ ho => by cases ho⟩
  · exact ⟨fun b hb => (h.source.1 b hb).imp_right (.imp_right (.imp_left hpassed)),
      fun forked ho => (h.source.2 forked ho).imp_left hpassed⟩
  · exact ⟨fun b hb => (h.source.1 b hb).imp_right (.imp_right (.imp_left hpassed)),
      fun forked ho => (h.source.2 forked ho).imp_left hpassed⟩
  · exact ⟨fun b hb => (h.source.1 b hb).imp_right (.imp_right (.imp_left hpassed)),
      fun _ ho => by cases ho⟩

theorem Env.Finds.source {env : Env} {s s' : Live} {header : Option Header}
    {o : Outcome Failure (Option Header)} (h : env.Finds s header o s') :
    (∀ b ∈ s'.blocks, b ∈ s.blocks ∨ env.Answers b ∨
      b ∈ header ∧ s.finalized.blockHeight < b.blockHeight) ∧
    ∀ forked, o = .ok (some forked) → forked ∈ header ∨ env.Answers forked ∨
      env.Advance s.finalized forked := by
  cases h with
  | failed hreg => exact ⟨hreg.source.1, fun _ ho => by cases ho⟩
  | registered hreg => exact ⟨hreg.source.1, fun forked ho => (hreg.source.2 forked ho).imp_right .inl⟩
  | checked hadv hreg hchecks =>
    refine ⟨hreg.source.1, fun forked ho => ?_⟩
    subst ho
    rcases hchecks.source with rfl | hanswers
    · exact .inr (.inr hadv)
    · exact .inr (.inl hanswers)

/-! ## Frames

Up to the question whether a fork was found, a call leaves the two verified heights alone. -/

/-- `s'` has the verified heights of `s`. -/
structure Live.SameHeights (s s' : Live) : Prop where
  checked : s'.checked = s.checked
  stored : s'.metadata.lastFinalizedVerifiedHeight = s.metadata.lastFinalizedVerifiedHeight

theorem Env.Registers.sameHeights {env : Env} {s s' : Live} {header : Header}
    {o : Outcome Failure (Option Header)} (h : env.Registers s header o s') : s.SameHeights s' := by
  cases h <;> exact ⟨rfl, rfl⟩

theorem Env.RegistersHeader.sameHeights {env : Env} {s s' : Live} {header : Option Header}
    {o : Outcome Failure (Option Header)} (h : env.RegistersHeader s header o s') :
    s.SameHeights s' := by
  rcases h with _ | ⟨h, -⟩ | h | ⟨h, -⟩
  · exact ⟨rfl, rfl⟩
  · exact ⟨h.sameHeights.checked, h.sameHeights.stored⟩
  · exact h.sameHeights
  · exact h.sameHeights

theorem Env.Finds.sameHeights {env : Env} {s s' : Live} {header : Option Header}
    {o : Outcome Failure (Option Header)} (h : env.Finds s header o s') : s.SameHeights s' := by
  cases h with
  | failed h | registered h => exact h.sameHeights
  | checked _ h => exact ⟨h.sameHeights.checked, h.sameHeights.stored⟩

/-! It drops nothing from the list, either. -/

theorem Env.Backfills.isPrefix {env : Env} {remaining height : Nat} {l l' : List Header}
    {o : Outcome Failure (Option Header)} (h : env.Backfills remaining height l o l') : l <+: l' := by
  induction h with
  | done | forked | failed => exact List.prefix_rfl
  | skipped _ _ ih => exact ih
  | pushed _ _ _ ih => exact (List.prefix_append _ _).trans ih

theorem Env.Fills.isPrefix {env : Env} {l l' : List Header} {header : Header}
    {o : Outcome Failure (Option Header)} (h : env.Fills l header o l') : l <+: l' := by
  cases h with
  | untracked => exact List.prefix_rfl
  | gap _ _ hfill | lost _ _ hfill => exact hfill.isPrefix

theorem Env.Registers.isPrefix {env : Env} {s s' : Live} {header : Header}
    {o : Outcome Failure (Option Header)} (h : env.Registers s header o s') :
    s.blocks <+: s'.blocks := by
  cases h with
  | ignored | notSequential => exact List.prefix_rfl
  | gapFailed _ hfill | gapForked _ hfill | forked _ hfill => exact hfill.isPrefix
  | appended _ hfill => exact hfill.isPrefix.trans (List.prefix_append _ _)

theorem Env.RegistersHeader.isPrefix {env : Env} {s s' : Live} {header : Option Header}
    {o : Outcome Failure (Option Header)} (h : env.RegistersHeader s header o s') :
    s.blocks <+: s'.blocks := by
  rcases h with _ | ⟨h, -⟩ | h | ⟨h, -⟩
  · exact List.prefix_rfl
  · exact h.isPrefix
  · exact h.isPrefix
  · exact h.isPrefix

theorem Env.Finds.isPrefix {env : Env} {s s' : Live} {header : Option Header}
    {o : Outcome Failure (Option Header)} (h : env.Finds s header o s') :
    s.blocks <+: s'.blocks := by
  cases h with
  | failed h | registered h => exact h.isPrefix
  | checked _ h => exact h.isPrefix

/-! And it ends the list with the header that is passed, unless finality has passed that one. -/

theorem Env.Registers.last {env : Env} {s s' : Live} {header : Header}
    (h : env.Registers s header (.ok none) s')
    (habove : s.finalized.blockHeight < header.blockHeight) : s'.blocks.getLast? = some header := by
  cases h with
  | ignored hle => exact absurd habove (Nat.not_lt.mpr hle)
  | appended => simp

theorem Env.RegistersHeader.last {env : Env} {s s' : Live} {header : Header}
    (h : env.RegistersHeader s (some header) (.ok none) s')
    (habove : s.finalized.blockHeight < header.blockHeight) : s'.blocks.getLast? = some header := by
  rcases h with _ | ⟨⟨h, -⟩⟩
  exact h.last habove

theorem Env.Deletes.last {env : Env} {s s' : Live} {header : Header} (h : env.Deletes s (.ok ()) s')
    (hlast : s.blocks.getLast? = some header)
    (habove : s'.finalized.blockHeight < header.blockHeight) : s'.blocks.getLast? = some header := by
  cases h with
  | unpruned => exact hlast
  | pruned _ hadv =>
    obtain ⟨front, hfront⟩ := List.getLast?_eq_some_iff.mp hlast
    have hkept : s.finalized.blockHeight < header.blockHeight := Nat.lt_of_le_of_lt hadv.le habove
    show (s.blocks.filter fun b => s.finalized.blockHeight < b.blockHeight).getLast? = some header
    rw [hfront, List.filter_append, List.filter_cons_of_pos (by simpa using hkept), List.filter_nil,
      List.getLast?_concat]

end SubqlSolana
