import SubqlSolana.Unfinalized.Live

/-!
# What the service asks, and what it makes of the answers

One relation and one theorem per function. The relation lists the ways the function can end against an
*arbitrary* RPC, finality and crash schedule; the theorem says that every run is one of them. Whatever
is proved about runs of the service is proved about these relations, so the code is walked through
once, here and in `Unfinalized.Updates`.

The functions of this module never change the service: only finality moves while they wait (`Asks`),
so their relations speak of the outcome alone.
-/

set_option autoImplicit false

namespace SubqlSolana

open Lib

/-! ## Requests -/

/-- What a request for a slot can come back as. The RPC may answer differently every time it is asked,
so an answer is one the schedule holds for *some* moment. -/
inductive Env.Reply (env : Env) (slot : Nat) : Outcome Failure Header → Prop where
  | header {n : Nat} {header : Header} (h : env.headerReply n slot = .ok header) :
      env.Reply slot (.ok header)
  | error {n : Nat} {e : Failure} (h : env.headerReply n slot = .error e) : env.Reply slot (.fail e)
  | lost {n : Nat} (h : env.crash n = true) : env.Reply slot (.fail .crash)

theorem Env.Reply.blockHeight {env : Env} {slot : Nat} {header : Header}
    (h : env.Reply slot (.ok header)) : header.blockHeight = slot := by
  cases h with
  | header h => exact blockHeight_of_getHeaderByHeight h

/-- The block in the nearest slot below, as far as the RPC tells. -/
inductive Env.Below (env : Env) : Nat → Outcome Failure Header → Prop where
  | outOfRange {n : Nat} : env.Below 0 (.fail (.error (env.negativeSlot n)))
  | lost {slot n : Nat} (h : env.crash n = true) : env.Below slot (.fail .crash)
  | found {slot : Nat} {header : Header} (h : env.Reply slot (.ok header)) :
      env.Below (slot + 1) (.ok header)
  | skipped {slot : Nat} {o : Outcome Failure Header} (h : env.Reply slot (.fail .blockUnavailable))
      (hbelow : env.Below slot o) : env.Below (slot + 1) o
  | failed {slot : Nat} {e : Failure} (h : env.Reply slot (.fail e)) (hne : e ≠ .blockUnavailable) :
      env.Below (slot + 1) (.fail e)

theorem Env.Below.blockHeight_lt {env : Env} {slot : Nat} {header : Header}
    (h : env.Below slot (.ok header)) : header.blockHeight < slot := by
  induction slot with
  | zero => cases h
  | succ slot ih =>
    cases h with
    | found h =>
      have := h.blockHeight
      omega
    | skipped _ hbelow =>
      have := ih hbelow
      omega

/-- The RPC answered a request for its own slot with this header. -/
def Env.Answers (env : Env) (header : Header) : Prop :=
  env.Reply header.blockHeight (.ok header)

theorem Env.Reply.answers {env : Env} {slot : Nat} {header : Header}
    (h : env.Reply slot (.ok header)) : env.Answers header := by
  rw [Env.Answers, h.blockHeight]
  exact h

theorem Env.Below.answers {env : Env} {slot : Nat} {header : Header}
    (h : env.Below slot (.ok header)) : env.Answers header := by
  induction slot with
  | zero => cases h
  | succ slot ih =>
    cases h with
    | found hreply => exact hreply.answers
    | skipped _ hbelow => exact ih hbelow

/-- From `s`, `m` only asks: the service stays as it was, up to finality. -/
def Asks {α : Type} (env : Env) (s : Live) (m : Service α) (R : Outcome Failure α → Prop) : Prop :=
  Runs env s m fun o s' => ∃ F, s' = s.withFinalized F ∧ R o

namespace Asks

variable {α β : Type} {env : Env} {s : Live} {m : Service α} {R : Outcome Failure α → Prop}

theorem mono {R' : Outcome Failure α → Prop} (h : Asks env s m R) (himp : ∀ o, R o → R' o) :
    Asks env s m R' :=
  Runs.mono h fun _ _ ⟨F, hs', hR⟩ => ⟨F, hs', himp _ hR⟩

theorem pure {a : α} (h : R (.ok a)) : Asks env s (Pure.pure a) R :=
  Runs.pure ⟨s.finalized, rfl, h⟩

theorem throw {e : Failure} (h : R (.fail e)) : Asks env s (MonadExcept.throw e) R :=
  Runs.throw ⟨s.finalized, rfl, h⟩

/-- Asking again after asking: finality may have moved in between. -/
theorem bind {f : α → Service β} {R' : Outcome Failure β → Prop} (hm : Asks env s m R)
    (hok : ∀ a F, R (.ok a) → Asks env (s.withFinalized F) (f a) R')
    (hfail : ∀ e, R (.fail e) → R' (.fail e)) : Asks env s (m >>= f) R' := by
  refine Runs.bind hm ?_ ?_
  · rintro a _ ⟨F, rfl, hR⟩
    refine Runs.mono (hok a F hR) ?_
    rintro o _ ⟨F', rfl, hR'⟩
    exact ⟨F', rfl, hR'⟩
  · rintro e _ ⟨F, rfl, hR⟩
    exact ⟨F, rfl, hfail e hR⟩

theorem tryCatch {handler : Failure → Service α} {R' : Outcome Failure α → Prop}
    (hm : Asks env s m R) (hok : ∀ a, R (.ok a) → R' (.ok a))
    (hfail : ∀ e F, R (.fail e) → Asks env (s.withFinalized F) (handler e) R') :
    Asks env s (MonadExcept.tryCatch m handler) R' := by
  refine Runs.tryCatch hm ?_ ?_
  · rintro a _ ⟨F, rfl, hR⟩
    exact ⟨F, rfl, hok a hR⟩
  · rintro e _ ⟨F, rfl, hR⟩
    refine Runs.mono (hfail e F hR) ?_
    rintro o _ ⟨F', rfl, hR'⟩
    exact ⟨F', rfl, hR'⟩

theorem yield {R : Outcome Failure Unit → Prop} (hok : R (.ok ()))
    (hlost : ∀ n, env.crash n = true → R (.fail .crash)) : Asks env s Async.yield R :=
  Runs.yield (fun F _ => ⟨F, rfl, hok⟩) fun n hn => ⟨s.finalized, rfl, hlost n hn⟩

/-- Waiting for the answers costs nothing but the chance to be lost meanwhile. -/
theorem awaits (hm : Asks env s m R)
    (hlost : ∀ a n, R (.ok a) → env.crash n = true → R (.fail .crash)) :
    Asks env s (Async.awaits m) R :=
  hm.bind (fun a _ hR => bind (yield (R := fun o => o = .ok () ∨ R (.fail .crash) ∧ o = .fail .crash)
      (.inl rfl) fun n hn => .inr ⟨hlost a n hR hn, rfl⟩)
    (fun _ _ _ => pure hR) (by rintro e (⟨⟨⟩⟩ | ⟨hcrash, ⟨⟩⟩); exact hcrash))
    fun _ hR => hR

end Asks

theorem getHeaderForHeight_asks (env : Env) (slot : Nat) (s : Live) :
    Asks env s (getHeaderForHeight slot) (env.Reply slot) := by
  refine Asks.bind (R := fun o => (∃ n, o = .ok (env.headerReply n slot)) ∨
    env.Reply slot (.fail .crash) ∧ o = .fail .crash) ?_ ?_ ?_
  · refine Asks.awaits (Runs.reply fun n => ⟨s.finalized, rfl, .inl ⟨n, rfl⟩⟩) ?_
    exact fun _ n _ hn => .inr ⟨.lost hn, rfl⟩
  · rintro _ F (⟨n, ⟨⟩⟩ | ⟨-, ⟨⟩⟩)
    cases hanswer : env.headerReply n slot with
    | ok header => exact Asks.pure (.header hanswer)
    | error e => exact Asks.throw (.error hanswer)
  · rintro e (⟨_, ⟨⟩⟩ | ⟨hcrash, ⟨⟩⟩)
    exact hcrash

theorem requestBelowZero_asks {α : Type} (env : Env) (s : Live) :
    Asks env s (requestBelowZero (α := α)) fun o => ∃ e, o = .fail e ∧ env.Below 0 (.fail e) := by
  refine Asks.bind (R := fun o => (∃ n, o = .ok (env.negativeSlot n)) ∨
    env.Below 0 (.fail .crash) ∧ o = .fail .crash) ?_ ?_ ?_
  · refine Asks.awaits (Runs.reply fun n => ⟨s.finalized, rfl, .inl ⟨n, rfl⟩⟩) ?_
    exact fun _ n _ hn => .inr ⟨.lost hn, rfl⟩
  · rintro _ F (⟨n, ⟨⟩⟩ | ⟨-, ⟨⟩⟩)
    exact Asks.throw ⟨_, rfl, .outOfRange⟩
  · rintro e (⟨_, ⟨⟩⟩ | ⟨hcrash, ⟨⟩⟩)
    exact ⟨_, rfl, hcrash⟩

/-- Both clauses of `getParentHeaderByHeight` are this one: ask for a slot, and go on below it if there
is no block in it. -/
theorem skipUnavailable_asks {env : Env} {slot : Nat} {next : Service Header}
    (hnext : ∀ s, Asks env s next (env.Below slot)) (s : Live) :
    Asks env s
      (MonadExcept.tryCatch (getHeaderForHeight slot) fun
        | .blockUnavailable => next
        | e => throw e)
      (env.Below (slot + 1)) := by
  refine (getHeaderForHeight_asks env slot s).tryCatch (fun _ h => .found h) ?_
  intro e F h
  cases e with
  | blockUnavailable => exact (hnext _).mono fun _ hbelow => .skipped h hbelow
  | error message => exact Asks.throw (.failed h (by simp))
  | exit message => exact Asks.throw (.failed h (by simp))
  | crash => exact Asks.throw (.failed h (by simp))

theorem getParentHeaderByHeight_asks (env : Env) :
    ∀ (slot : Nat) (s : Live), Asks env s (getParentHeaderByHeight slot) (env.Below (slot + 1))
  | 0 => skipUnavailable_asks fun s => (requestBelowZero_asks env s).mono fun _ ⟨_, ho, h⟩ => ho ▸ h
  | slot + 1 => skipUnavailable_asks (getParentHeaderByHeight_asks env slot)

/-- One step of a walk over parents. -/
inductive Env.Parent (env : Env) (header : Header) (message : String) :
    Outcome Failure Header → Prop where
  | noParentHash (h : header.parentHash = "") : env.Parent header message (.fail (.error message))
  | below {o : Outcome Failure Header} (h : header.parentHash ≠ "")
      (hbelow : env.Below header.blockHeight o) : env.Parent header message o

theorem Env.Parent.answers {env : Env} {header parent : Header} {message : String}
    (h : env.Parent header message (.ok parent)) : env.Answers parent := by
  cases h with
  | below _ hbelow => exact hbelow.answers

theorem Env.Parent.blockHeight_lt {env : Env} {header parent : Header} {message : String}
    (h : env.Parent header message (.ok parent)) : parent.blockHeight < header.blockHeight := by
  cases h with
  | below _ hbelow => exact hbelow.blockHeight_lt

theorem stepToParent_asks (env : Env) (header : Header) (message : String) (s : Live) :
    Asks env s (stepToParent header message) (env.Parent header message) := by
  refine Asks.bind (R := fun o => header.parentHash = "" ∧ o = .fail (.error message) ∨
    header.parentHash ≠ "" ∧ o = .ok ()) ?_ ?_ ?_
  · unfold assertParentHash
    split
    · next h => exact Asks.throw (.inl ⟨h, rfl⟩)
    · next h => exact Asks.pure (.inr ⟨h, rfl⟩)
  · rintro - F (⟨-, ⟨⟩⟩ | ⟨hparent, -⟩)
    generalize hheight : header.blockHeight = height
    cases height with
    | zero =>
      refine Asks.mono (R := env.Below 0) ?_ fun o h => .below hparent (hheight ▸ h)
      refine Asks.bind (requestBelowZero_asks env _) (fun _ _ ⟨_, ho, _⟩ => by cases ho) ?_
      rintro e ⟨_, ⟨⟩, h⟩
      exact h
    | succ slot =>
      refine Asks.mono (R := env.Below (slot + 1)) ?_ fun o h => .below hparent (hheight ▸ h)
      exact (getParentHeaderByHeight_asks env slot _).awaits fun _ _ _ hn => .lost hn
  · rintro e (⟨h, ⟨⟩⟩ | ⟨-, ⟨⟩⟩)
    exact .noParentHash h

/-! ## Checking the tracked blocks -/

/-- `getClosestRecord`, on the list: the highest tracked block a finalized height reaches. -/
def closestRecord (blocks : List Header) (blockHeight : Nat) : Option Header :=
  blocks.reverse.find? fun header => header.blockHeight ≤ blockHeight

theorem closestRecord_mem {blocks : List Header} {n : Nat} {b : Header}
    (h : closestRecord blocks n = some b) : b ∈ blocks ∧ b.blockHeight ≤ n := by
  refine ⟨List.mem_reverse.mp (List.mem_of_find?_eq_some h), ?_⟩
  simpa using List.find?_some h

/-- The walk of `hasForked` from the finalized header down to a height. -/
inductive Env.Walk (env : Env) (height : Nat) : Header → Outcome Failure Header → Prop where
  | arrived {header : Header} (h : height = header.blockHeight) : env.Walk height header (.ok header)
  | step {header parent : Header} {o : Outcome Failure Header} (h : height ≠ header.blockHeight)
      (hparent : env.Parent header noParentWhileIterating (.ok parent))
      (hwalk : env.Walk height parent o) : env.Walk height header o
  | failed {header : Header} {e : Failure} (h : height ≠ header.blockHeight)
      (hparent : env.Parent header noParentWhileIterating (.fail e)) : env.Walk height header (.fail e)

/-- The walk ends at the height asked for, where it began or at an answer. -/
theorem Env.Walk.source {env : Env} {height : Nat} {header found : Header}
    (h : env.Walk height header (.ok found)) :
    found.blockHeight = height ∧ (found = header ∨ env.Answers found) := by
  generalize ho : Outcome.ok found = o at h
  induction h with
  | arrived harrived =>
    cases ho
    exact ⟨harrived.symm, .inl rfl⟩
  | step _ hparent _ ih =>
    obtain ⟨hheight, rfl | hanswers⟩ := ih ho
    · exact ⟨hheight, .inr hparent.answers⟩
    · exact ⟨hheight, .inr hanswers⟩
  | failed => cases ho

/-- The fuel of `iterateBack` never runs out. -/
theorem iterateBack_asks (env : Env) (height : Nat) : ∀ (fuel : Nat) (header : Header) (s : Live),
    header.blockHeight ≤ fuel → Asks env s (iterateBack height fuel header) (env.Walk height header)
  | 0, header, s, hfuel => by
    rw [iterateBack]
    by_cases h : height = header.blockHeight
    · rw [if_pos h]
      exact Asks.pure (.arrived h)
    · rw [if_neg h]
      refine (stepToParent_asks env header _ s).mono ?_
      rintro (parent | e) hparent
      · have := hparent.blockHeight_lt
        omega
      · exact .failed h hparent
  | fuel + 1, header, s, hfuel => by
    rw [iterateBack]
    by_cases h : height = header.blockHeight
    · rw [if_pos h]
      exact Asks.pure (.arrived h)
    · rw [if_neg h]
      refine (stepToParent_asks env header _ s).bind ?_ fun e hparent => .failed h hparent
      intro parent F hparent
      have hlt := hparent.blockHeight_lt
      exact (iterateBack_asks env height fuel parent _ (by omega)).mono fun o => .step h hparent

/-- The header that `hasForked` takes for the canonical one at a height up to the finalized one. -/
inductive Env.Canonical (env : Env) (finalized : Header) (height : Nat) :
    Outcome Failure Header → Prop where
  | direct {o : Outcome Failure Header}
      (h : finalized.blockHeight - height > unfinalizedThreshold) (hreply : env.Reply height o) :
      env.Canonical finalized height o
  | walked {o : Outcome Failure Header} (hwalk : env.Walk height finalized o) :
      env.Canonical finalized height o

theorem Env.Canonical.source {env : Env} {finalized found : Header} {height : Nat}
    (h : env.Canonical finalized height (.ok found)) :
    found.blockHeight = height ∧ (found = finalized ∨ env.Answers found) := by
  cases h with
  | direct _ hreply => exact ⟨hreply.blockHeight, .inr hreply.answers⟩
  | walked hwalk => exact hwalk.source

/-- The ends of `hasForked`, started with these tracked blocks and this finalized header. -/
inductive Env.Checks (env : Env) (blocks : List Header) (finalized : Header) :
    Outcome Failure (Option Header) → Prop where
  | untracked (h : closestRecord blocks finalized.blockHeight = none) :
      env.Checks blocks finalized (.ok none)
  | agrees {b header : Header} (h : closestRecord blocks finalized.blockHeight = some b)
      (hcanonical : env.Canonical finalized b.blockHeight (.ok header))
      (hash : header.blockHash = b.blockHash) : env.Checks blocks finalized (.ok none)
  | forked {b header : Header} (h : closestRecord blocks finalized.blockHeight = some b)
      (hcanonical : env.Canonical finalized b.blockHeight (.ok header))
      (hash : header.blockHash ≠ b.blockHash) : env.Checks blocks finalized (.ok (some header))
  | failed {b : Header} {e : Failure} (h : closestRecord blocks finalized.blockHeight = some b)
      (hcanonical : env.Canonical finalized b.blockHeight (.fail e)) :
      env.Checks blocks finalized (.fail e)
  | lost {n : Nat} (h : env.crash n = true) : env.Checks blocks finalized (.fail .crash)

theorem Env.Checks.source {env : Env} {blocks : List Header} {finalized forked : Header}
    (h : env.Checks blocks finalized (.ok (some forked))) :
    forked = finalized ∨ env.Answers forked := by
  cases h with
  | forked _ hcanonical => exact hcanonical.source.2

/-- The answer of `hasForked` once the canonical header is there. -/
theorem Env.Checks.of_canonical {env : Env} {blocks : List Header} {finalized b header : Header}
    (h : closestRecord blocks finalized.blockHeight = some b)
    (hcanonical : env.Canonical finalized b.blockHeight (.ok header)) :
    env.Checks blocks finalized
      (.ok (if header.blockHash ≠ b.blockHash then some header else none)) := by
  by_cases hash : header.blockHash = b.blockHash
  · rw [if_neg (by simpa using hash)]
    exact .agrees h hcanonical hash
  · rw [if_pos hash]
    exact .forked h hcanonical hash

theorem Runs.closestRecord {α : Type} {env : Env} {s : Live} {Q : Outcome Failure α → Live → Prop}
    {f : Option Header → Service α} {n : Nat}
    (h : Runs env s (f (SubqlSolana.closestRecord s.blocks n)) Q) :
    Runs env s (getClosestRecord n >>= f) Q := h

theorem hasForked_asks (env : Env) (s : Live) :
    Asks env s hasForked (env.Checks s.blocks s.finalized) := by
  unfold hasForked
  refine Runs.finalizedBlockNumber (Runs.closestRecord ?_)
  cases hclosest : closestRecord s.blocks s.finalized.blockHeight with
  | none => exact Asks.pure (.untracked hclosest)
  | some b =>
    refine Runs.finalizedHeader ?_
    by_cases heq : b.blockHeight = s.finalized.blockHeight
    · have hcanonical : env.Canonical s.finalized b.blockHeight (.ok s.finalized) :=
        .walked (.arrived heq)
      simp only [if_pos heq]
      have hcheck := Env.Checks.of_canonical hclosest hcanonical
      by_cases hash : s.finalized.blockHash = b.blockHash
      · rw [if_neg (by simpa using hash)] at hcheck
        rw [if_neg (by simpa using hash.symm)]
        exact Asks.pure hcheck
      · rw [if_pos hash] at hcheck
        rw [if_pos (Ne.symm hash)]
        exact Asks.pure hcheck
    · simp only [if_neg heq]
      -- the comparison both branches end with
      have hcompare : ∀ header F, env.Canonical s.finalized b.blockHeight (.ok header) →
          Asks env (s.withFinalized F)
            (if header.blockHash ≠ b.blockHash then pure (some header) else pure none)
            (env.Checks s.blocks s.finalized) := by
        intro header F hcanonical
        have hcheck := Env.Checks.of_canonical hclosest hcanonical
        split
        · next hash =>
          rw [if_pos hash] at hcheck
          exact Asks.pure hcheck
        · next hash =>
          rw [if_neg hash] at hcheck
          exact Asks.pure hcheck
      split
      · next hfar =>
        exact (getHeaderForHeight_asks env _ s).bind
          (fun header F hreply => hcompare header F (.direct hfar hreply))
          fun e hreply => .failed hclosest (.direct hfar hreply)
      · exact (iterateBack_asks env _ _ _ s (Nat.le_refl _)).bind
          (fun header F hwalk => hcompare header F (.walked hwalk))
          fun e hwalk => .failed hclosest (.walked hwalk)

/-! ## Searching for the rewind target -/

/-- The ends of the backward search over the verifiable blocks. -/
inductive Env.Searches (env : Env) (checked : Nullish Nat) :
    List Header → Header → Outcome Failure (Option Header) → Prop where
  | matched {best checking : Header} {rest : List Header}
      (h : best.blockHash = checking.blockHash ∨ best.blockHash = checking.parentHash) :
      env.Searches checked (best :: rest) checking (.ok (some best))
  | step {best checking parent : Header} {rest : List Header} {o : Outcome Failure (Option Header)}
      (h : ¬(best.blockHash = checking.blockHash ∨ best.blockHash = checking.parentHash))
      (hparent : env.Parent checking noParentWhileSearching (.ok parent))
      (hrest : env.Searches checked rest parent o) : env.Searches checked (best :: rest) checking o
  | failed {best checking : Header} {rest : List Header} {e : Failure}
      (h : ¬(best.blockHash = checking.blockHash ∨ best.blockHash = checking.parentHash))
      (hparent : env.Parent checking noParentWhileSearching (.fail e)) :
      env.Searches checked (best :: rest) checking (.fail e)
  /-- No block matched, and there is no height to fall back to. -/
  | exhausted {checking : Header} (h : checked.truthy? = none) :
      env.Searches checked [] checking (.ok none)
  | fallback {checking header : Header} {height : Nat} (h : checked.truthy? = some height)
      (hreply : env.Reply height (.ok header)) : env.Searches checked [] checking (.ok (some header))
  | fallbackFailed {checking : Header} {height : Nat} {e : Failure}
      (h : checked.truthy? = some height) (hreply : env.Reply height (.fail e)) :
      env.Searches checked [] checking (.fail e)

/-- What a search names is a block it looked through, on the way back from the forked header, or the
answer to the request it falls back to. -/
theorem Env.Searches.source {env : Env} {checked : Nullish Nat} {blocks : List Header}
    {forked R : Header} (h : env.Searches checked blocks forked (.ok (some R))) :
    (R ∈ blocks ∧ ∃ checking, (checking = forked ∨ env.Answers checking) ∧
      (R.blockHash = checking.blockHash ∨ R.blockHash = checking.parentHash)) ∨
    ∃ height, checked = .value height ∧ env.Reply height (.ok R) := by
  generalize ho : Outcome.ok (some R) = o at h
  induction h with
  | matched hmatch =>
    cases ho
    exact .inl ⟨List.mem_cons_self, _, .inl rfl, hmatch⟩
  | step _ hparent _ ih =>
    rcases ih ho with ⟨hmem, checking, rfl | hanswers, hmatch⟩ | hfallback
    · exact .inl ⟨List.mem_cons_of_mem _ hmem, _, .inr hparent.answers, hmatch⟩
    · exact .inl ⟨List.mem_cons_of_mem _ hmem, checking, .inr hanswers, hmatch⟩
    · exact .inr hfallback
  | failed | exhausted | fallbackFailed => cases ho
  | fallback hchecked hreply =>
    cases ho
    exact .inr ⟨_, (Nullish.truthy?_eq_some.mp hchecked).1, hreply⟩

theorem searchCorrectBlock_asks (env : Env) : ∀ (blocks : List Header) (checking : Header) (s : Live),
    Asks env s (searchCorrectBlock blocks checking) (env.Searches s.checked blocks checking)
  | [], checking, s => by
    rw [searchCorrectBlock]
    refine Runs.read ?_
    have hnode : s.node.lastCheckedBlockHeight = s.checked := rfl
    rw [hnode]
    cases h : s.checked.truthy? with
    | none => exact Asks.pure (.exhausted h)
    | some height =>
      exact (getHeaderForHeight_asks env height s).bind
        (fun _ _ hreply => Asks.pure (.fallback h hreply)) fun _ => .fallbackFailed h
  | best :: rest, checking, s => by
    rw [searchCorrectBlock]
    split
    · next h => exact Asks.pure (.matched h)
    · next h =>
      refine (stepToParent_asks env checking _ s).bind ?_ fun e hparent => .failed h hparent
      intro parent F hparent
      exact (searchCorrectBlock_asks env rest parent _).mono fun _ => .step h hparent

/-- The blocks `getLastCorrectFinalizedBlock` looks through: what the finalized height reaches, highest
first. -/
def verifiableBlocks (s : Live) : List Header :=
  (s.blocks.filter fun header => header.blockHeight ≤ s.finalized.blockHeight).reverse

theorem getLastCorrectFinalizedBlock_asks (env : Env) (forkedHeader : Header) (s : Live) :
    Asks env s (getLastCorrectFinalizedBlock forkedHeader)
      (env.Searches s.checked (verifiableBlocks s) forkedHeader) :=
  searchCorrectBlock_asks env _ _ s

end SubqlSolana
