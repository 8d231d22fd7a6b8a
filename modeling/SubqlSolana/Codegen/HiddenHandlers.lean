import SubqlSolana.Codegen.Discriminators

/-!
# Handlers that the check does not look at

`validateDiscriminators` goes through the handlers of every data source. At a handler without a filter
there is nothing to check, and the loop is meant to go on; the `break` in that place ends it, so that
all handlers further down are not looked at. Neither is one whose texts are empty.

The check resolves exactly if everything that it looks at is found (`validateDiscriminators_eq_ok_iff`).
So its word is good for every handler **exactly if nothing wrong is hidden, or something wrong is in
sight as well** (`checksEvery_iff`).
-/

set_option autoImplicit false

namespace SubqlSolana

open Lib

/-! ## What is expected -/

section

variable (codama : Codama) (readIdl : FileReference → Except String IdlDocument)

/-- There is an IDL for the program, and the discriminator is found in it. -/
def SubqlDatasource.Finds (ds : SubqlDatasource) (discriminator programId : String) : Prop :=
  ∃ fileRef root bytes, ds.asset programId = some fileRef ∧
    parseIdlFromFile codama readIdl fileRef = .ok root ∧
    findInstructionDiscriminatorByName codama root discriminator = some bytes

/-- So it is if the handler is one for instructions, and its filter has a program and a discriminator. -/
def Handler.Found (ds : SubqlDatasource) (handler : Handler) : Prop :=
  handler.kind = .instruction → ∀ filter ∈ handler.filter, ∀ discriminator programId,
    filter.discriminator = .value discriminator → filter.programId = .value programId →
    ds.Finds codama readIdl discriminator programId

/-- If the check resolves, every handler of every data source is as expected. -/
def ChecksEvery (dataSources : List SubqlDatasource) : Prop :=
  validateDiscriminators codama readIdl dataSources = .ok () →
    ∀ ds ∈ dataSources, ∀ handler ∈ ds.mapping.handlers, handler.Found codama readIdl ds

end

/-! ## What is in sight -/

/-- Neither of the two texts is empty. -/
def Handler.hasTexts (handler : Handler) : Bool :=
  handler.filter.any fun filter =>
    filter.discriminator.text?.isSome && filter.programId.text?.isSome

/-- The handlers in front of the first one without a filter. -/
def SubqlDatasource.reached (ds : SubqlDatasource) : List Handler :=
  ds.mapping.handlers.takeWhile fun handler => handler.filter.isSome

/-- The handlers whose discriminators are looked up. -/
def SubqlDatasource.examined (ds : SubqlDatasource) : List Handler :=
  ds.reached.filter Handler.hasTexts

/-- All other handlers. -/
def SubqlDatasource.hidden (ds : SubqlDatasource) : List Handler :=
  ds.reached.filter (fun handler => !handler.hasTexts) ++
    ds.mapping.handlers.dropWhile fun handler => handler.filter.isSome

theorem mem_handlers_iff {ds : SubqlDatasource} {handler : Handler} :
    handler ∈ ds.mapping.handlers ↔ handler ∈ ds.examined ∨ handler ∈ ds.hidden := by
  have hsplit := List.takeWhile_append_dropWhile (p := fun handler : Handler => handler.filter.isSome)
    (l := ds.mapping.handlers)
  unfold SubqlDatasource.examined SubqlDatasource.hidden SubqlDatasource.reached
  nth_rewrite 1 [← hsplit]
  simp only [List.mem_append, List.mem_filter]
  cases handler.hasTexts <;> simp

section

variable {codama : Codama} {readIdl : FileReference → Except String IdlDocument}
  {ds : SubqlDatasource}

theorem issuesOfHandler_texts {filter : HandlerFilter} {discriminator programId : String}
    (hdisc : filter.discriminator.text? = some discriminator)
    (hprogram : filter.programId.text? = some programId) :
    issuesOfHandler codama readIdl ds .instruction filter = .ok [] ↔
      ds.Finds codama readIdl discriminator programId := by
  unfold issuesOfHandler SubqlDatasource.Finds
  simp only [hdisc, hprogram]
  cases ds.asset programId with
  | none => simp
  | some fileRef =>
    cases hroot : parseIdlFromFile codama readIdl fileRef with
    | error message => simp [hroot, Bind.bind, Except.bind]
    | ok root =>
      cases hfound : findInstructionDiscriminatorByName codama root discriminator <;>
        simp [hroot, hfound, ok_bind, pure, Except.pure]

/-- A handler has no issues exactly if it is found, or there is nothing to be looked up. -/
theorem issuesOfHandler_eq_nil_iff {handler : Handler} {filter : HandlerFilter}
    (hfilter : handler.filter = some filter) :
    issuesOfHandler codama readIdl ds handler.kind filter = .ok [] ↔
      (handler.hasTexts = true → handler.Found codama readIdl ds) := by
  unfold Handler.hasTexts Handler.Found
  rw [hfilter, Option.any_some]
  cases handler.kind with
  | block | transaction | log => simp [issuesOfHandler]
  | instruction =>
    cases hdisc : filter.discriminator.text? with
    | none => simp [issuesOfHandler, hdisc]
    | some discriminator =>
      cases hprogram : filter.programId.text? with
      | none => simp [issuesOfHandler, hdisc, hprogram]
      | some programId =>
        rw [issuesOfHandler_texts hdisc hprogram]
        simp [(Nullish.text?_eq_some.mp hdisc).1, (Nullish.text?_eq_some.mp hprogram).1]

/-- The loop ends at the first handler without a filter. -/
theorem issuesOfHandlers_eq_nil_iff (handlers : List Handler) :
    issuesOfHandlers codama readIdl ds handlers = .ok [] ↔
      ∀ handler ∈ handlers.takeWhile fun handler => handler.filter.isSome,
        handler.hasTexts = true → handler.Found codama readIdl ds := by
  induction handlers with
  | nil => simp [issuesOfHandlers]
  | cons handler rest ih =>
    unfold issuesOfHandlers
    cases hfilter : handler.filter with
    | none => simp [hfilter]
    | some filter =>
      rw [List.takeWhile_cons_of_pos (by simp [hfilter]), List.forall_mem_cons, ← ih,
        ← issuesOfHandler_eq_nil_iff hfilter]
      dsimp only
      cases issuesOfHandler codama readIdl ds handler.kind filter with
      | error message => simp [Bind.bind, Except.bind]
      | ok issues =>
        cases issuesOfHandlers codama readIdl ds rest with
        | error message => simp [Bind.bind, Except.bind]
        | ok issues' => simp [Bind.bind, Except.bind, pure, Except.pure]

/-- **The check resolves exactly if everything that it looks at is found.** -/
theorem validateDiscriminators_eq_ok_iff (dataSources : List SubqlDatasource) :
    validateDiscriminators codama readIdl dataSources = .ok () ↔
      ∀ ds ∈ dataSources, ∀ handler ∈ ds.examined, handler.Found codama readIdl ds := by
  have hissues : validateDiscriminators codama readIdl dataSources = .ok () ↔
      ∃ issues, (dataSources.mapM fun ds =>
        issuesOfHandlers codama readIdl ds ds.mapping.handlers) = .ok issues ∧
          issues.flatten = [] := by
    unfold validateDiscriminators
    rw [bind_eq_ok]
    refine exists_congr fun issues => and_congr_right fun _ => ?_
    by_cases hnil : issues.flatten = []
    · simp [hnil, pure, Except.pure]
    · simp [hnil]
  rw [hissues, flatten_mapM_eq_nil_iff]
  refine forall₂_congr fun ds _ => ?_
  rw [issuesOfHandlers_eq_nil_iff]
  simp only [SubqlDatasource.examined, SubqlDatasource.reached, List.mem_filter, and_imp]

/-- **When the check's word is good**: something that it looks at is not found, or nothing is not found
that it does not look at. -/
theorem checksEvery_iff (dataSources : List SubqlDatasource) :
    ChecksEvery codama readIdl dataSources ↔
      (∃ ds ∈ dataSources, ∃ handler ∈ ds.examined, ¬handler.Found codama readIdl ds) ∨
      ∀ ds ∈ dataSources, ∀ handler ∈ ds.hidden, handler.Found codama readIdl ds := by
  unfold ChecksEvery
  rw [validateDiscriminators_eq_ok_iff]
  constructor
  · intro h
    by_cases hexamined : ∀ ds ∈ dataSources, ∀ handler ∈ ds.examined, handler.Found codama readIdl ds
    · exact .inr fun ds hds handler hhandler =>
        h hexamined ds hds handler (mem_handlers_iff.mpr (.inr hhandler))
    · push Not at hexamined
      exact .inl hexamined
  · intro h hexamined ds hds handler hhandler
    rcases h with ⟨ds', hds', handler', hhandler', hnot⟩ | hhidden
    · exact absurd (hexamined ds' hds' handler' hhandler') hnot
    · rcases mem_handlers_iff.mp hhandler with hhandler | hhandler
      · exact hexamined ds hds handler hhandler
      · exact hhidden ds hds handler hhandler

end

/-! ## A handler without a filter in front of a wrong one -/

namespace LoggedFirst

/-- Logs of all programs, and then an instruction of a program without an IDL. -/
def handlers : List Handler :=
  [⟨.log, none⟩,
    ⟨.instruction, some { programId := .value "C1aim", discriminator := .value "claimToken" }⟩]

def dataSource (handlers : List Handler) : SubqlDatasource := ⟨⟨⟨handlers⟩⟩, none⟩

/-- There are no files. -/
def readIdl : FileReference → Except String IdlDocument := fun _ => .error "ENOENT"

/-- **The check resolves for a handler without an IDL**; with the two handlers the other way round it
does not. -/
theorem is_not_looked_at : ¬ChecksEvery plainCodama readIdl [dataSource handlers] ∧
    validateDiscriminators plainCodama readIdl [dataSource handlers.reverse] =
      .error noFileReference := by
  refine ⟨fun h => ?_, by decide⟩
  have hfound := h (by decide) _ List.mem_cons_self _ (List.mem_cons_of_mem _ List.mem_cons_self)
  obtain ⟨fileRef, -, -, hasset, -⟩ := hfound rfl _ rfl "claimToken" "C1aim" rfl rfl
  cases hasset

end LoggedFirst

end SubqlSolana
