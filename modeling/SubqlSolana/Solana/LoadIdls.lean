import SubqlSolana.Lib.Machine
import SubqlSolana.Solana.Idl

/-!
# Loading IDLs

`loadIdls` goes through the files of a data source and reads those whose program has no IDL yet: it
looks, waits for the file, and then assigns (`solana/decoder.ts`). `onProjectChange` starts one such
loop for each data source, waits for all of them, and does the same with the templates
(`blockchain.service.ts`). The loops of a group share the IDLs and take turns at their `await`s, in the
order in which the files are read.

Between looking and assigning, another loop may have assigned an IDL to the same program, and then it
is replaced. **That does no harm as long as the files that a group lists for one program have the same
content** (`loads_in_order`); otherwise the IDL of the program is the one that was read last
(`TwoFiles.last_read_wins`).
-/

set_option autoImplicit false

namespace SubqlSolana

open Lib

/-! ## One loop -/

/-- `decoder.idls`. A file may hold `null`, which is not an IDL. -/
abbrev Idls : Type := String → Nullish IdlDocument

/-- `this.idls[name]`, as a condition. -/
def Idls.isLoaded (idls : Idls) (name : String) : Bool := (idls name).toOption.isSome

def failedToLoad (entry : String × FileReference) : String :=
  s!"Failed to load datasource IDL {entry.1}:{entry.2.file}"

/-- Where a loop is: at the `await` of a read, with the entries that come after it, or at its end. -/
inductive Loader where
  | reading (entry : String × FileReference) (rest : List (String × FileReference))
  | done
  | failed (message : String)
  deriving Repr, DecidableEq

/-- The loop over the entries, up to the next `await`. -/
def Idls.nextRead (idls : Idls) : List (String × FileReference) → Loader
  | [] => .done
  | entry :: rest => if idls.isLoaded entry.1 then idls.nextRead rest else .reading entry rest

section

-- the file system, with `JSON.parse`
variable (readFile : FileReference → Except String (Nullish IdlDocument))

/-- The read that a loop waits for completes. -/
def Loader.resume (idls : Idls) : Loader → Idls × Loader
  | reading entry rest =>
    match readFile entry.2 with
    | .error _ => (idls, failed (failedToLoad entry))
    | .ok content =>
      let idls : Idls := Function.update idls entry.1 content
      (idls, idls.nextRead rest)
  | loader => (idls, loader)

theorem Loader.resume_ok {idls : Idls} {entry : String × FileReference}
    {content : Nullish IdlDocument} (h : readFile entry.2 = .ok content)
    (rest : List (String × FileReference)) :
    (reading entry rest).resume readFile idls =
      (Function.update idls entry.1 content,
        Idls.nextRead (Function.update idls entry.1 content) rest) := by
  simp only [resume, h]

theorem Loader.resume_error {idls : Idls} {entry : String × FileReference} {message : String}
    (h : readFile entry.2 = .error message) (rest : List (String × FileReference)) :
    (reading entry rest).resume readFile idls = (idls, failed (failedToLoad entry)) := by
  simp only [resume, h]

/-! ## A group of loops -/

structure Loading where
  idls : Idls
  loaders : List Loader

def Loading.start (idls : Idls) (dataSources : List SubqlDatasource) : Loading where
  idls := idls
  loaders := dataSources.map fun ds => idls.nextRead ds.assetEntries

/-- The read of one of the loops completes. -/
def Loading.complete (i : Nat) (s : Loading) : Loading :=
  match s.loaders[i]? with
  | none => s
  | some loader =>
    match loader.resume readFile s.idls with
    | (idls, loader) => ⟨idls, s.loaders.set i loader⟩

/-- `Promise.all` returns. -/
def Loading.finished (s : Loading) : Bool := s.loaders.all fun loader => loader = .done

/-- The group, with the order in which its reads complete. -/
def loadGroup (idls : Idls) (dataSources : List SubqlDatasource) (order : List Nat) : Loading :=
  runAll (Loading.complete readFile) order (.start idls dataSources)

/-- The IDLs after `onProjectChange`, if it finishes without an error. -/
def onProjectChange (dataSources templates : List SubqlDatasource) (order order' : List Nat)
    (idls : Idls) : Option Idls :=
  let loaded := loadGroup readFile idls dataSources order
  if loaded.finished then
    let loaded' := loadGroup readFile loaded.idls templates order'
    if loaded'.finished then some loaded'.idls else none
  else none

/-! ## One file after another -/

/-- The files in the order in which they are listed, each read before the next one is looked at. -/
def loadInOrder (idls : Idls) : List (String × FileReference) → Except String Idls
  | [] => .ok idls
  | entry :: rest =>
    if idls.isLoaded entry.1 then loadInOrder idls rest
    else
      match readFile entry.2 with
      | .error _ => .error (failedToLoad entry)
      | .ok content => loadInOrder (Function.update idls entry.1 content) rest

theorem loadInOrder_append (entries entries' : List (String × FileReference)) (idls : Idls) :
    loadInOrder readFile idls (entries ++ entries') =
      (loadInOrder readFile idls entries).bind fun idls => loadInOrder readFile idls entries' := by
  induction entries generalizing idls with
  | nil => rfl
  | cons entry entries ih =>
    simp only [List.cons_append, loadInOrder]
    split
    · exact ih idls
    · cases readFile entry.2 with
      | error message => rfl
      | ok content => exact ih _

/-- All the entries of a group, in the order of the manifest. -/
def entriesOf (dataSources : List SubqlDatasource) : List (String × FileReference) :=
  dataSources.flatMap SubqlDatasource.assetEntries

/-- Files that are listed for one program that has no IDL yet have the same content. -/
def SameContent (idls : Idls) (entries : List (String × FileReference)) : Prop :=
  ∀ entry ∈ entries, ∀ entry' ∈ entries, entry.1 = entry'.1 → idls.isLoaded entry.1 = false →
    readFile entry.2 = readFile entry'.2

/-- An IDL that is there at some time stays there. -/
def NeverReplaces (order : List Nat) (s : Loading) : Prop :=
  ∀ before after, order = before ++ after → ∀ name,
    (runAll (Loading.complete readFile) before s).idls.isLoaded name = true →
    (runAll (Loading.complete readFile) order s).idls name =
      (runAll (Loading.complete readFile) before s).idls name

end

/-! ## What a group has done -/

section

variable {readFile : FileReference → Except String (Nullish IdlDocument)} {idls : Idls}
  {entries : List (String × FileReference)} {s : Loading}

/-- The program has the content of one of the files that are listed for it. -/
def Assigned (readFile : FileReference → Except String (Nullish IdlDocument))
    (entries : List (String × FileReference)) (current : Idls) (name : String) : Prop :=
  ∃ entry ∈ entries, entry.1 = name ∧ readFile entry.2 = .ok (current name)

/-- What a group that started with `idls` has made of them so far. -/
structure Progress (readFile : FileReference → Except String (Nullish IdlDocument)) (idls : Idls)
    (entries : List (String × FileReference)) (current : Idls) : Prop where
  kept : ∀ name, current name = idls name ∨
    idls.isLoaded name = false ∧ Assigned readFile entries current name

/-- The program of an entry that a loop has passed. -/
def Settled (readFile : FileReference → Except String (Nullish IdlDocument)) (idls : Idls)
    (entries : List (String × FileReference)) (current : Idls) (name : String) : Prop :=
  idls.isLoaded name = true ∨ Assigned readFile entries current name

/-- Where a loop is in its own list. -/
def Loader.At (covered : String → Prop) (idls : Idls) (own : List (String × FileReference)) :
    Loader → Prop
  | reading entry rest => idls.isLoaded entry.1 = false ∧
      ∃ passed, own = passed ++ entry :: rest ∧ ∀ e ∈ passed, covered e.1
  | done => ∀ e ∈ own, covered e.1
  | failed _ => True

theorem Progress.isLoaded {current : Idls} (h : Progress readFile idls entries current)
    {name : String} (hloaded : idls.isLoaded name = true) : current.isLoaded name = true := by
  rcases h.kept name with hsame | ⟨hnot, -⟩
  · rw [Idls.isLoaded, hsame]
    exact hloaded
  · rw [hloaded] at hnot
    cases hnot

theorem Progress.covered {current : Idls} (h : Progress readFile idls entries current)
    {name : String} (hloaded : current.isLoaded name = true) :
    Settled readFile idls entries current name := by
  rcases h.kept name with hsame | ⟨-, hassigned⟩
  · rw [Idls.isLoaded, hsame] at hloaded
    exact .inl hloaded
  · exact .inr hassigned

/-- The loop goes on to its next `await`. -/
theorem Progress.nextRead {current : Idls} (h : Progress readFile idls entries current)
    (passed rest : List (String × FileReference))
    (hpassed : ∀ e ∈ passed, Settled readFile idls entries current e.1) :
    (current.nextRead rest).At (Settled readFile idls entries current) idls (passed ++ rest) := by
  induction rest generalizing passed with
  | nil =>
    rw [List.append_nil]
    exact hpassed
  | cons entry rest ih =>
    unfold Idls.nextRead
    split
    · next hloaded =>
      rw [List.append_cons]
      apply ih
      rw [List.forall_mem_append, List.forall_mem_singleton]
      exact ⟨hpassed, h.covered hloaded⟩
    · next hnot =>
      refine ⟨?_, passed, rfl, hpassed⟩
      by_contra hloaded
      exact hnot (h.isLoaded (by simpa using hloaded))

/-- Assigning one more content. -/
theorem Progress.assign {current : Idls} (h : Progress readFile idls entries current)
    {entry : String × FileReference} (hmem : entry ∈ entries)
    (hnot : idls.isLoaded entry.1 = false) {content : Nullish IdlDocument}
    (hread : readFile entry.2 = .ok content) :
    Progress readFile idls entries (Function.update current entry.1 content) ∧
      ∀ name, Settled readFile idls entries current name →
        Settled readFile idls entries (Function.update current entry.1 content) name := by
  have hassigned : ∀ name, name = entry.1 ∨ Assigned readFile entries current name →
      Assigned readFile entries (Function.update current entry.1 content) name := by
    intro name hname
    by_cases hsame : name = entry.1
    · subst hsame
      exact ⟨entry, hmem, rfl, by rw [Function.update_self]; exact hread⟩
    · obtain ⟨e, he, hentry, hcontent⟩ := hname.resolve_left hsame
      exact ⟨e, he, hentry, by rw [Function.update_of_ne hsame]; exact hcontent⟩
  constructor
  · refine ⟨fun name => ?_⟩
    by_cases hsame : name = entry.1
    · exact .inr ⟨hsame ▸ hnot, hassigned name (.inl hsame)⟩
    · rw [Function.update_of_ne hsame]
      exact (h.kept name).imp_right fun hname => ⟨hname.1, hassigned name (.inr hname.2)⟩
  · exact fun name hname => hname.imp_right fun hname => hassigned name (.inr hname)

theorem Loader.At.mono {covered covered' : String → Prop} {own : List (String × FileReference)}
    {loader : Loader} (h : loader.At covered idls own)
    (himp : ∀ name, covered name → covered' name) : loader.At covered' idls own := by
  cases loader with
  | reading entry rest =>
    obtain ⟨hnot, passed, hown, hpassed⟩ := h
    exact ⟨hnot, passed, hown, fun e he => himp _ (hpassed e he)⟩
  | done => exact fun e he => himp _ (h e he)
  | failed message => exact h

/-- A group on its way: every loop is somewhere in its own list. -/
structure Underway (readFile : FileReference → Except String (Nullish IdlDocument)) (idls : Idls)
    (dataSources : List SubqlDatasource) (s : Loading) : Prop where
  progress : Progress readFile idls (entriesOf dataSources) s.idls
  length : s.loaders.length = dataSources.length
  loaders : ∀ (i : Nat) (ds : SubqlDatasource) (loader : Loader), dataSources[i]? = some ds →
    s.loaders[i]? = some loader →
    loader.At (Settled readFile idls (entriesOf dataSources) s.idls) idls ds.assetEntries

variable {dataSources : List SubqlDatasource}

theorem Underway.start (readFile : FileReference → Except String (Nullish IdlDocument)) (idls : Idls)
    (dataSources : List SubqlDatasource) :
    Underway readFile idls dataSources (.start idls dataSources) where
  progress := ⟨fun _ => .inl rfl⟩
  length := List.length_map _
  loaders i ds loader hds hloader := by
    have hstart : (Loading.start idls dataSources).loaders[i]? =
        some (idls.nextRead ds.assetEntries) := by
      simp [Loading.start, hds]
    rw [hstart] at hloader
    cases hloader
    exact Progress.nextRead ⟨fun _ => .inl rfl⟩ [] _ (by simp)

theorem mem_entriesOf {ds : SubqlDatasource} {i : Nat} {entry : String × FileReference}
    (hds : dataSources[i]? = some ds) (hentry : entry ∈ ds.assetEntries) :
    entry ∈ entriesOf dataSources :=
  List.mem_flatMap.mpr ⟨ds, List.mem_of_getElem? hds, hentry⟩

/-- One loop has moved. -/
theorem Underway.moved {current : Idls} {i : Nat} {loader : Loader}
    (h : Underway readFile idls dataSources s)
    (hprogress : Progress readFile idls (entriesOf dataSources) current)
    (hcovered : ∀ name, Settled readFile idls (entriesOf dataSources) s.idls name →
      Settled readFile idls (entriesOf dataSources) current name)
    (hat : ∀ ds, dataSources[i]? = some ds →
      loader.At (Settled readFile idls (entriesOf dataSources) current) idls ds.assetEntries) :
    Underway readFile idls dataSources ⟨current, s.loaders.set i loader⟩ where
  progress := hprogress
  length := by rw [List.length_set]; exact h.length
  loaders j ds moved hds hmoved := by
    rw [List.getElem?_set] at hmoved
    split at hmoved
    · next hsame =>
      subst hsame
      split at hmoved <;> cases hmoved
      exact hat ds hds
    · exact (h.loaders j ds moved hds hmoved).mono hcovered

/-- A loop that waits for a read has passed the entries in front of it in its list. -/
theorem Underway.reading (h : Underway readFile idls dataSources s) {i : Nat}
    {entry : String × FileReference} {rest : List (String × FileReference)}
    (hloader : s.loaders[i]? = some (.reading entry rest)) :
    ∃ ds passed, dataSources[i]? = some ds ∧ ds.assetEntries = passed ++ entry :: rest ∧
      entry ∈ entriesOf dataSources ∧ idls.isLoaded entry.1 = false ∧
      ∀ e ∈ passed, Settled readFile idls (entriesOf dataSources) s.idls e.1 := by
  have hlt : i < dataSources.length := by
    rw [← h.length]
    exact (List.getElem?_eq_some_iff.mp hloader).1
  have hds := List.getElem?_eq_getElem hlt
  obtain ⟨hnot, passed, hown, hpassed⟩ := h.loaders i _ _ hds hloader
  exact ⟨_, passed, hds, hown, mem_entriesOf hds (by rw [hown]; simp), hnot, hpassed⟩

/-- **The step lemma.** -/
theorem Underway.complete (h : Underway readFile idls dataSources s) (i : Nat) :
    Underway readFile idls dataSources (s.complete readFile i) := by
  unfold Loading.complete
  cases hloader : s.loaders[i]? with
  | none => exact h
  | some loader =>
    dsimp only
    have hat := fun ds hds => h.loaders i ds loader hds hloader
    cases loader with
    | done | failed => exact h.moved h.progress (fun _ hname => hname) hat
    | reading entry rest =>
      cases hread : readFile entry.2 with
      | error message =>
        rw [Loader.resume_error readFile hread]
        exact h.moved h.progress (fun _ hname => hname) fun _ _ => trivial
      | ok content =>
        rw [Loader.resume_ok readFile hread]
        obtain ⟨ds, passed, hds, hown, hmem, hnot, hpassed⟩ := h.reading hloader
        obtain ⟨hprogress, hcovered⟩ := h.progress.assign hmem hnot hread
        refine h.moved hprogress hcovered fun ds' hds' => ?_
        rw [hds] at hds'
        cases hds'
        rw [hown, List.append_cons]
        apply hprogress.nextRead
        rw [List.forall_mem_append, List.forall_mem_singleton]
        refine ⟨fun e he => hcovered _ (hpassed e he), .inr ⟨entry, hmem, rfl, ?_⟩⟩
        rw [Function.update_self]
        exact hread

/-- **The run lemma.** -/
theorem Underway.run (h : Underway readFile idls dataSources s) (order : List Nat) :
    Underway readFile idls dataSources (runAll (Loading.complete readFile) order s) :=
  runAll_invariant (fun i _ h => h.complete i) order h

/-- A group that is finished has come to every file. -/
theorem Underway.covered (h : Underway readFile idls dataSources s) (hdone : s.finished = true) :
    ∀ entry ∈ entriesOf dataSources,
      Settled readFile idls (entriesOf dataSources) s.idls entry.1 := by
  intro entry hentry
  obtain ⟨ds, hds, hown⟩ := List.mem_flatMap.mp hentry
  obtain ⟨i, hlt, rfl⟩ := List.mem_iff_getElem.mp hds
  have hlt' : i < s.loaders.length := by rw [h.length]; exact hlt
  have hat := h.loaders i _ _ (List.getElem?_eq_getElem hlt) (List.getElem?_eq_getElem hlt')
  have hloader : s.loaders[i] = .done := by
    simpa using List.all_eq_true.mp hdone _ (List.getElem_mem hlt')
  rw [hloader] at hat
  exact hat entry hown

/-! ## The same content -/

/-- A read that completes does not change an IDL that is there. -/
theorem Underway.keeps (h : Underway readFile idls dataSources s)
    (hsame : SameContent readFile idls (entriesOf dataSources)) (i : Nat) {name : String}
    (hloaded : s.idls.isLoaded name = true) :
    (s.complete readFile i).idls name = s.idls name := by
  unfold Loading.complete
  cases hloader : s.loaders[i]? with
  | none => rfl
  | some loader =>
    dsimp only
    cases loader with
    | done | failed => rfl
    | reading entry rest =>
      cases hread : readFile entry.2 with
      | error message => rw [Loader.resume_error readFile hread]
      | ok content =>
        rw [Loader.resume_ok readFile hread]
        dsimp only
        by_cases hname : name = entry.1
        · subst hname
          obtain ⟨-, -, -, -, hmem, hnot, -⟩ := h.reading hloader
          -- it is there because another file of this group was read
          rcases h.progress.covered hloaded with hbefore | ⟨other, hother, hentry, hcontent⟩
          · rw [hnot] at hbefore
            cases hbefore
          · have hsame := hsame entry hmem other hother hentry.symm hnot
            rw [hread, hcontent] at hsame
            rw [Function.update_self]
            exact Except.ok.inj hsame
        · rw [Function.update_of_ne hname]

theorem Underway.keeps_run (hsame : SameContent readFile idls (entriesOf dataSources))
    {name : String} (order : List Nat) (h : Underway readFile idls dataSources s)
    (hloaded : s.idls.isLoaded name = true) :
    (runAll (Loading.complete readFile) order s).idls name = s.idls name := by
  induction order generalizing s with
  | nil => rfl
  | cons i order ih =>
    have hkept := h.keeps hsame i hloaded
    rw [runAll_cons, ih (h.complete i) (by rw [Idls.isLoaded, hkept]; exact hloaded), hkept]

theorem Underway.neverReplaces (h : Underway readFile idls dataSources s)
    (hsame : SameContent readFile idls (entriesOf dataSources)) (order : List Nat) :
    NeverReplaces readFile order s := by
  rintro before after rfl name hloaded
  rw [runAll_append]
  exact (h.run before).keeps_run hsame after hloaded

/-- Reading one file after another ends in `final`, if each file that is read has the content that its
program has there, and nothing else is left to be read. -/
theorem loadInOrder_eq {final : Idls} (rest : List (String × FileReference)) {current : Idls}
    (hread : ∀ entry ∈ rest, current.isLoaded entry.1 = false →
      readFile entry.2 = .ok (final entry.1))
    (hrest : ∀ name, current name = final name ∨
      current.isLoaded name = false ∧ ∃ entry ∈ rest, entry.1 = name) :
    loadInOrder readFile current rest = .ok final := by
  induction rest generalizing current with
  | nil =>
    refine congrArg Except.ok (funext fun name => ?_)
    rcases hrest name with hname | ⟨-, entry, hentry, -⟩
    · exact hname
    · cases hentry
  | cons entry rest ih =>
    unfold loadInOrder
    split
    · next hloaded =>
      refine ih (fun e he => hread e (List.mem_cons_of_mem _ he)) fun name => ?_
      rcases hrest name with hname | ⟨hnot, e, he, rfl⟩
      · exact .inl hname
      · rcases List.mem_cons.mp he with rfl | he
        · rw [hloaded] at hnot
          cases hnot
        · exact .inr ⟨hnot, e, he, rfl⟩
    · next hnot =>
      have hcontent := hread entry List.mem_cons_self (by simpa using hnot)
      rw [hcontent]
      refine ih (fun e he hnot' => ?_) fun name => ?_
      · apply hread e (List.mem_cons_of_mem _ he)
        by_cases hsame : e.1 = entry.1
        · rw [hsame]
          simpa using hnot
        · rw [Idls.isLoaded, Function.update_of_ne hsame] at hnot'
          exact hnot'
      · by_cases hsame : name = entry.1
        · subst hsame
          exact .inl (Function.update_self ..)
        · rw [Idls.isLoaded, Function.update_of_ne hsame]
          refine (hrest name).imp_right fun ⟨hnot', e, he, hentry⟩ => ⟨hnot', e, ?_, hentry⟩
          rcases List.mem_cons.mp he with rfl | he
          · exact absurd hentry.symm hsame
          · exact he

/-- A group that is finished has loaded what one file after another gives. -/
theorem Underway.inOrder (h : Underway readFile idls dataSources s)
    (hsame : SameContent readFile idls (entriesOf dataSources)) (hdone : s.finished = true) :
    loadInOrder readFile idls (entriesOf dataSources) = .ok s.idls := by
  apply loadInOrder_eq
  · intro entry hentry hnot
    rcases h.covered hdone entry hentry with hbefore | ⟨other, hother, hname, hcontent⟩
    · rw [hnot] at hbefore
      cases hbefore
    · rw [← hcontent]
      exact hsame entry hentry other hother hname.symm hnot
  · intro name
    rcases h.progress.kept name with hkept | ⟨hnot, entry, hentry, hname, -⟩
    · exact .inl hkept.symm
    · exact .inr ⟨hnot, entry, hentry, hname⟩

/-- **The IDLs do not depend on the order of the reads** if, in each of the two groups, the files that are
listed for one program have the same content: they are what one file after another gives, and no IDL is
ever replaced. -/
theorem loads_in_order {templates : List SubqlDatasource} {order order' : List Nat} {final : Idls}
    (hdata : SameContent readFile idls (entriesOf dataSources))
    (htemplates : ∀ loaded, loadInOrder readFile idls (entriesOf dataSources) = .ok loaded →
      SameContent readFile loaded (entriesOf templates))
    (hfinal : onProjectChange readFile dataSources templates order order' idls = some final) :
    loadInOrder readFile idls (entriesOf dataSources ++ entriesOf templates) = .ok final ∧
      NeverReplaces readFile order (.start idls dataSources) ∧
      NeverReplaces readFile order'
        (.start (loadGroup readFile idls dataSources order).idls templates) := by
  simp only [onProjectChange] at hfinal
  split at hfinal
  · next hdone =>
    split at hfinal
    · next hdone' =>
      cases hfinal
      have hstart := Underway.start readFile idls dataSources
      have hloaded := (hstart.run order).inOrder hdata hdone
      have hsame := htemplates _ hloaded
      have hstart' := Underway.start readFile (loadGroup readFile idls dataSources order).idls
        templates
      refine ⟨?_, hstart.neverReplaces hdata order, hstart'.neverReplaces hsame order'⟩
      rw [loadInOrder_append, hloaded]
      exact (hstart'.run order').inOrder hsame hdone'
    · cases hfinal
  · cases hfinal

end

/-! ## Two files for one program -/

namespace TwoFiles

def idl (name : String) : IdlDocument := .root ⟨⟨name, "T0ken", [], []⟩⟩

def readFile (fileRef : FileReference) : Except String (Nullish IdlDocument) :=
  .ok (.value (idl fileRef.file))

def dataSource (file : String) : SubqlDatasource where
  mapping := ⟨[]⟩
  assets := some ⟨[("T0ken", ⟨file⟩)], by simp⟩

/-- Nothing is loaded yet. -/
def empty : Idls := fun _ => .undefined

/-- Two data sources with the same file, read in either order. -/
theorem loads_in_order_one :
    loadInOrder readFile empty [("T0ken", ⟨"one.json"⟩), ("T0ken", ⟨"one.json"⟩)] =
      .ok (Function.update (Function.update empty "T0ken" (.value (idl "one.json"))) "T0ken"
        (.value (idl "one.json"))) := by
  have hsame : SameContent readFile empty
      (entriesOf [dataSource "one.json", dataSource "one.json"]) := by
    intro entry hentry entry' hentry' _ _
    obtain rfl : entry = ("T0ken", ⟨"one.json"⟩) := by
      simpa [entriesOf, SubqlDatasource.assetEntries, dataSource] using hentry
    obtain rfl : entry' = ("T0ken", ⟨"one.json"⟩) := by
      simpa [entriesOf, SubqlDatasource.assetEntries, dataSource] using hentry'
    rfl
  have hloaded : onProjectChange readFile [dataSource "one.json", dataSource "one.json"] [] [1, 0] []
      empty = some (Function.update (Function.update empty "T0ken" (.value (idl "one.json"))) "T0ken"
        (.value (idl "one.json"))) := rfl
  exact (loads_in_order hsame (fun _ _ _ hentry => by cases hentry) hloaded).1

/-- **The last read wins.** Each of two data sources has its own file for the program, and the files are
read in the order of the manifest: the second one replaces the first. -/
theorem last_read_wins :
    ¬∀ (readFile : FileReference → Except String (Nullish IdlDocument))
      (dataSources templates : List SubqlDatasource) (order order' : List Nat) (final : Idls),
      onProjectChange readFile dataSources templates order order' empty = some final →
      loadInOrder readFile empty (entriesOf dataSources ++ entriesOf templates) = .ok final := by
  intro h
  have hloaded := h readFile [dataSource "one.json", dataSource "two.json"] [] [0, 1] [] _ rfl
  have hname := congrFun (Except.ok.inj hloaded) "T0ken"
  revert hname
  decide

end TwoFiles

end SubqlSolana
