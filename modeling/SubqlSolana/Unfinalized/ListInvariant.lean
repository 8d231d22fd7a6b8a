import SubqlSolana.Unfinalized.Invariant

/-!
# Properties of the tracked list

A property of the list in memory that also holds of the list the store decodes to. The list grows in
two places only, at the end, and both compare the parent hash of the new header with the last tracked
one *after* the last `await` before the push; everything else drops a prefix, clears the list, or
copies it to the store and back. So a property that survives those five things survives every
operation, at every `await` a process can be lost at, whatever the RPC answers: `ListInvariant` names
the five, and `ListInvariant.service` makes an invariant of the service of it.
-/

set_option autoImplicit false

namespace SubqlSolana

open Lib

/-- One more header at the end. -/
theorem isChain_append_singleton {l : List Header} {header : Header} :
    (l ++ [header]).IsChain Linked ↔
      l.IsChain Linked ∧ ∀ last ∈ l.getLast?, Linked last header := by
  simp [List.isChain_append]

/-- A property of tracked lists, with what it needs to know of the headers that come from outside. -/
structure ListInvariant where
  holds : List Header → Prop
  /-- Of a header that is passed to the service, or answered by the RPC. -/
  header : Header → Prop
  finalized : Header → Prop
  nil : holds []
  above : ∀ {l : List Header} (n : Nat), holds l →
    holds (l.filter fun header => n < header.blockHeight)
  revive : ∀ {l : List Header}, holds l → holds ((l.map Header.toJSON).map StoredHeader.revive)
  /-- The first header of a list is above what is final. -/
  first : ∀ {F h : Header}, finalized F → header h → F.blockHeight < h.blockHeight → holds [h]
  push : ∀ {l : List Header} {last h : Header}, holds l → l.getLast? = some last →
    Linked last h → header h → holds (l ++ [h])

namespace ListInvariant

variable {I : ListInvariant} {env : Env} {s s' : Live} {o : Outcome Failure (Option Header)}

/-! ## Growing -/

/-- What `I` assumes of a schedule. -/
structure Admits (I : ListInvariant) (env : Env) : Prop where
  answers : ∀ {n slot : Nat} {h : Header}, env.headerReply n slot = .ok h → I.header h
  registered : ∀ {n : Nat} {F : Header}, F ∈ env.finality n → I.finalized F
  returned : ∀ {n : Nat} {F : Header}, env.getFinalizedHeader n = .ok F → I.finalized F

theorem Admits.reply (hI : I.Admits env) {slot : Nat} {h : Header} (hreply : env.Reply slot (.ok h)) :
    I.header h := by
  cases hreply with
  | header hanswer => exact hI.answers hanswer

theorem Admits.advance (hI : I.Admits env) {F F' : Header} (hF : I.finalized F)
    (hadv : env.Advance F F') : I.finalized F' := by
  cases hadv with
  | same => exact hF
  | moved hmem _ => exact hI.registered hmem

/-- The last tracked height stays below the slot that is asked for next, so a push keeps the order. -/
theorem backfills (hI : I.Admits env) {remaining height : Nat} {l l' : List Header}
    (h : env.Backfills remaining height l o l') (hl : I.holds l) {a : Header}
    (ha : l.getLast? = some a) (hlt : a.blockHeight < height) :
    I.holds l' ∧ (∀ last ∈ l'.getLast?, last.blockHeight < height + remaining) ∧
      ∃ t, l' = l ++ t := by
  have hstop : ∀ remaining, ∀ last ∈ l.getLast?, last.blockHeight < height + remaining := by
    intro remaining last hmem
    obtain rfl : a = last := by simpa [ha] using hmem
    omega
  induction h generalizing a with
  | done => exact ⟨hl, hstop 0, [], by simp⟩
  | skipped _ _ ih =>
    obtain ⟨hl', hlast', ht⟩ := ih hl ha (Nat.lt_succ_of_lt hlt) fun r last hmem => by
      have := hstop (r + 1) last hmem
      omega
    exact ⟨hl', fun last hmem => by have := hlast' last hmem; omega, ht⟩
  | @pushed remaining height l l' header o hreply hlink _ ih =>
    have hheight := hreply.blockHeight
    have hpush := I.push hl ha (linked_iff.mpr ⟨by omega, hlink a ha⟩) (hI.reply hreply)
    have hlast : (l ++ [header]).getLast? = some header := by simp
    obtain ⟨hl', hlast', t, rfl⟩ := ih hpush hlast (by omega) fun r last hmem => by
      obtain rfl : header = last := by simpa [hlast] using hmem
      omega
    exact ⟨hl', fun last hmem => by have := hlast' last hmem; omega, header :: t, by simp⟩
  | forked | failed => exact ⟨hl, hstop _, [], by simp⟩

/-- Filling the gap leaves a list that ends below the new header. -/
theorem fills (hI : I.Admits env) {l l' : List Header} {header : Header}
    (h : env.Fills l header o l') (hl : I.holds l) :
    I.holds l' ∧ (∀ last ∈ l'.getLast?, last.blockHeight < header.blockHeight) ∧
      ∃ t, l' = l ++ t := by
  have hgap : ∀ {last : Header} {o : Outcome Failure (Option Header)}, l.getLast? = some last →
      last.blockHeight < header.blockHeight →
      env.Backfills (header.blockHeight - (last.blockHeight + 1)) (last.blockHeight + 1) l o l' →
      I.holds l' ∧ (∀ last ∈ l'.getLast?, last.blockHeight < header.blockHeight) ∧
        ∃ t, l' = l ++ t := by
    intro last o hlast hlt hfill
    obtain ⟨hl', hlast', ht⟩ := backfills hI hfill hl hlast (Nat.lt_succ_self _)
    exact ⟨hl', fun a ha => by have := hlast' a ha; omega, ht⟩
  cases h with
  | untracked h => exact ⟨hl, by simp [h], [], by simp⟩
  | gap hlast hlt hfill => exact hgap hlast hlt hfill
  | lost hlast hlt hfill _ => exact hgap hlast hlt hfill

/-- The header itself, once the gap is filled and the links agree. -/
theorem append (hI : I.Admits env) {l l' : List Header} {F header : Header}
    (h : env.Fills l header (.ok none) l') (hl : I.holds l) (hF : I.finalized F)
    (hheader : I.header header) (habove : F.blockHeight < header.blockHeight)
    (hlink : ∀ last ∈ l'.getLast?, header.parentHash = last.blockHash) :
    I.holds (l' ++ [header]) := by
  obtain ⟨hl', hlast', -⟩ := fills hI h hl
  cases hlast : l'.getLast? with
  | none =>
    obtain rfl := List.getLast?_eq_none_iff.mp hlast
    exact I.first hF hheader habove
  | some last =>
    exact I.push hl' hlast (linked_iff.mpr ⟨hlast' last hlast, hlink last hlast⟩) hheader

/-! ## A running service -/

/-- Both lists of a running service have the property. -/
structure Keeps (I : ListInvariant) (s : Live) : Prop where
  memory : I.holds s.blocks
  store : I.holds s.metadata.decoded

namespace Keeps

theorem withFinalized (h : I.Keeps s) (F : Header) : I.Keeps (s.withFinalized F) :=
  ⟨h.memory, h.store⟩

theorem withChecked (h : I.Keeps s) (checked : Nullish Nat) : I.Keeps (s.withChecked checked) :=
  ⟨h.memory, h.store⟩

theorem withBlocks (h : I.Keeps s) {l : List Header} (hl : I.holds l) : I.Keeps (s.withBlocks l) :=
  ⟨hl, h.store⟩

theorem saved (h : I.Keeps s) : I.Keeps s.saved := ⟨h.memory, I.revive h.memory⟩

theorem pruned (h : I.Keeps s) : I.Keeps s.pruned := ⟨I.above _ h.memory, h.store⟩

theorem loaded {metadata : Metadata} (h : I.holds metadata.decoded) (F : Header) :
    I.Keeps (Live.loaded metadata F) :=
  ⟨h, h⟩

/-- What a callee keeps, its caller finds again when it is resumed. -/
theorem awaited {α : Type} {Q : Outcome Failure α → Live → Prop} {o : Outcome Failure α}
    (h : Awaited env Q o s') (hQ : ∀ o s', Q o s' → I.Keeps s') : I.Keeps s' := by
  cases h with
  | resumed h => exact (hQ _ _ h).withFinalized _
  | failed h | lost h => exact hQ _ _ h

theorem registers (h : I.Keeps s) (hI : I.Admits env) (hF : I.finalized s.finalized)
    {header : Header} (hheader : I.header header) (hreg : env.Registers s header o s') :
    I.Keeps s' := by
  cases hreg with
  | ignored | notSequential => exact h
  | gapFailed _ hfill | gapForked _ hfill =>
    exact (h.withBlocks (fills hI hfill h.memory).1).withFinalized _
  | forked _ hfill => exact (h.withBlocks (fills hI hfill h.memory).1).withFinalized _
  | appended habove hfill hlink =>
    have happend := append hI hfill h.memory hF hheader habove hlink
    exact ((h.withBlocks happend).saved).withFinalized _

theorem registersHeader (h : I.Keeps s) (hI : I.Admits env) (hF : I.finalized s.finalized)
    {header : Option Header} (hheader : ∀ h ∈ header, I.header h)
    (hreg : env.RegistersHeader s header o s') : I.Keeps s' := by
  cases hreg with
  | noHeader => exact h
  | header hreg => exact awaited hreg fun _ _ => h.registers hI hF (hheader _ rfl)

theorem finds (h : I.Keeps s) (hI : I.Admits env) (hF : I.finalized s.finalized)
    {header : Option Header} (hheader : ∀ h ∈ header, I.header h)
    (hfinds : env.Finds s header o s') : I.Keeps s' := by
  cases hfinds with
  | failed hreg | registered hreg => exact h.registersHeader hI hF hheader hreg
  | checked _ hreg => exact (h.registersHeader hI hF hheader hreg).withFinalized _

theorem deletes (h : I.Keeps s) {o : Outcome Failure Unit} (hdeletes : env.Deletes s o s') :
    I.Keeps s' := by
  cases hdeletes with
  | unpruned => exact h.withChecked _
  | pruned => exact (h.pruned.saved.withFinalized _).withChecked _
  | lostBeforeBlocks => exact h.pruned
  | lostAfterBlocks => exact h.pruned.saved.withFinalized _

theorem processes (h : I.Keeps s) (hI : I.Admits env) (hF : I.finalized s.finalized)
    {header : Option Header} (hheader : ∀ h ∈ header, I.header h)
    (hprocesses : env.Processes s header o s') : I.Keeps s' := by
  cases hprocesses with
  | failed hfinds => exact h.finds hI hF hheader hfinds
  | searched _ hfinds => exact (h.finds hI hF hheader hfinds).withFinalized _
  | pruned _ hfinds hdeletes | pruneFailed _ hfinds hdeletes =>
    exact awaited hdeletes fun _ _ => (h.finds hI hF hheader hfinds).deletes

end Keeps

/-! ## Runs -/

/-- The property as an invariant of the service, together with what it assumes of finalized headers. A
call keeps it even where it is lost. -/
def service (I : ListInvariant) : ServiceInvariant where
  live s := I.Keeps s ∧ I.finalized s.finalized
  store m := I.holds m.decoded
  list := I.holds
  schedule := I.Admits
  call _ header _ := ∀ h ∈ header, I.header h
  init _ _ := True
  finality := I.finalized
  store_of_live h := h.1.store
  list_of_live h := h.1.memory
  list_of_store h := h
  list_nil := I.nil
  empty := I.nil
  cleared _ := I.nil
  heightReset h := h
  advanced h henv hadv := ⟨h.1.withFinalized _, henv.advance h.2 hadv⟩
  registered h hF _ := ⟨h.1.withFinalized _, hF⟩
  done what h := by
    cases what with
    | unfinalizedBlocks => exact ⟨⟨I.nil, I.nil⟩, h.2⟩
    | lastFinalizedVerifiedHeight => exact ⟨⟨h.1.memory, h.1.store⟩, h.2⟩
  processed h henv hheader hcalls := by
    have hkeeps := h.1.processes henv h.2 hheader hcalls.processes
    exact ⟨hkeeps.store, fun _ => ⟨hkeeps, henv.advance h.2 hcalls.advance⟩⟩
  loaded h henv _ hreturned _ := ⟨.loaded h _, henv.returned hreturned⟩
  validated h henv _ hreturned hcalls := by
    have hF := henv.returned hreturned
    have hkeeps := (Keeps.loaded h _).processes henv hF (by simp) hcalls.processes
    exact ⟨hkeeps.store, fun _ => ⟨hkeeps, henv.advance hF hcalls.advance⟩⟩
  reloaded h _ _ _ := ⟨.loaded h.1.store _, h.2⟩

end ListInvariant

end SubqlSolana
