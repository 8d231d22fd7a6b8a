import SubqlSolana.Codegen.Discriminators
import SubqlSolana.Lib.OrderedMap
import SubqlSolana.Lib.Traced
import SubqlSolana.Solana.LoadIdls

/-!
# Interfaces of IDLs

`generateIDLInterfaces` (`codegen/codegen.ts`) writes the types that the handlers of a project are
compiled against, for every program that some data source has an IDL file for. Nothing is written before
the discriminators are checked; then there is **one interface for each program, in the order in which the
programs are first listed, each from the file that is listed last** (`generates_each_once`). The files of
all data sources are put into one `Map`, and there the last one wins.

The decoder of the indexer goes through the same files, and keeps the first one that it reads
(`loadIdls`). So the data that a handler gets has the types that it was compiled against **exactly if
the first IDL and the last one that are listed for a program are the same root node**
(`interfaces_agree_iff`).
-/

set_option autoImplicit false

namespace SubqlSolana

open Lib

/-! ## The generator -/

structure ProjectDatasource extends SubqlDatasource where
  /-- `ds.kind === SolanaDatasourceKind.Runtime`. -/
  isRuntime : Bool

/-- The segments that `path.join` is given. -/
abbrev Path : Type := List String

def codamaPath : String := "/src/types/program-interfaces"

def idlPath : String := "/src/types/handler-inputs"

/-- What is written. -/
inductive Write where
  /-- `idl.accept(renderVisitor(output))`. -/
  | interfaces (output : Path) (root : RootNode)
  /-- `fixTypeImports(output)`. -/
  | typeImports (output : Path)
  /-- `renderTemplate`, with the names of the instructions. -/
  | handlerInputs (output : Path) (name : String) (instructions : List String)

def interfacesPath (projectPath name : String) : Path := [projectPath, codamaPath, name]

/-- Everything that is written for a program. -/
def interfaceWrites (codama : Codama) (projectPath name : String) (root : RootNode) : List Write :=
  [.interfaces (interfacesPath projectPath name) root,
    .typeImports (interfacesPath projectPath name),
    .handlerInputs [projectPath, idlPath, name ++ ".ts"] name
      (root.program.instructions.map fun inst => codama.pascalCase inst.name)]

/-- All the files of a project, data source by data source. -/
def assetEntriesOf (dataSources : List ProjectDatasource) : List (String × FileReference) :=
  entriesOf (dataSources.map ProjectDatasource.toSubqlDatasource)

section

variable (codama : Codama) (readIdl : FileReference → Except String IdlDocument)
  (projectPath : String) (performs : Write → Except String Unit)

/-- The body of the loop. `performs` says whether the packages and the file system do what they are
asked. -/
def generateInterface (entry : String × FileReference) : Traced Write String Unit := do
  let root ← Traced.lift (parseIdlFromFile codama readIdl entry.2)
  (interfaceWrites codama projectPath entry.1 root).forM fun w => Traced.write w (performs w)

def generateIDLInterfaces (dataSources : List ProjectDatasource) : Traced Write String Unit := do
  let allAssets := OrderedMap.ofEntries (assetEntriesOf dataSources)
  Traced.lift (validateDiscriminators codama readIdl
    ((dataSources.filter ProjectDatasource.isRuntime).map ProjectDatasource.toSubqlDatasource))
  allAssets.entries.forM (generateInterface codama readIdl projectPath performs)

/-! ## What is generated -/

/-- The programs, in the order in which they are first listed. -/
def programsOf (dataSources : List ProjectDatasource) : List String :=
  ((assetEntriesOf dataSources).map Prod.fst).eraseDups

/-- The check, as the generator makes it. -/
def Valid (dataSources : List ProjectDatasource) : Prop :=
  validateDiscriminators codama readIdl
    ((dataSources.filter ProjectDatasource.isRuntime).map ProjectDatasource.toSubqlDatasource) = .ok ()

/-- For a program, this is written, and it is made of the file that is listed last. -/
structure Generates (dataSources : List ProjectDatasource) (name : String) (writes : List Write) :
    Prop where
  source : ∃ fileRef root, lastListed (assetEntriesOf dataSources) name = some fileRef ∧
    parseIdlFromFile codama readIdl fileRef = .ok root ∧
    writes = interfaceWrites codama projectPath name root
  performed : ∀ w ∈ writes, performs w = .ok ()

/-- What is written for a program that the generator does not get through with. -/
inductive Interrupted (dataSources : List ProjectDatasource) (name : String) :
    List Write → String → Prop where
  | unread {fileRef : FileReference} {e : String}
      (hlast : lastListed (assetEntriesOf dataSources) name = some fileRef)
      (hread : parseIdlFromFile codama readIdl fileRef = .error e) :
      Interrupted dataSources name [] e
  | unwritten {fileRef : FileReference} {root : RootNode} {writes rest : List Write} {w : Write}
      {e : String} (hlast : lastListed (assetEntriesOf dataSources) name = some fileRef)
      (hread : parseIdlFromFile codama readIdl fileRef = .ok root)
      (hwrites : interfaceWrites codama projectPath name root = writes ++ w :: rest)
      (hperformed : ∀ w ∈ writes, performs w = .ok ()) (herror : performs w = .error e) :
      Interrupted dataSources name writes e

/-- How the generator ends. -/
inductive Generation (dataSources : List ProjectDatasource) : Traced Write String Unit → Prop where
  | refused {e : String} (h : validateDiscriminators codama readIdl
      ((dataSources.filter ProjectDatasource.isRuntime).map ProjectDatasource.toSubqlDatasource) =
        .error e) : Generation dataSources ⟨[], .error e⟩
  | finished {outputs : List (List Write)} (hvalid : Valid codama readIdl dataSources)
      (h : List.Forall₂ (Generates codama readIdl projectPath performs dataSources)
        (programsOf dataSources) outputs) : Generation dataSources ⟨outputs.flatten, .ok ()⟩
  | stopped {before after : List String} {name e : String} {outputs : List (List Write)}
      {writes : List Write} (hvalid : Valid codama readIdl dataSources)
      (hprograms : programsOf dataSources = before ++ name :: after)
      (h : List.Forall₂ (Generates codama readIdl projectPath performs dataSources) before outputs)
      (hstopped : Interrupted codama readIdl projectPath performs dataSources name writes e) :
      Generation dataSources ⟨outputs.flatten ++ writes, .error e⟩

end

section

variable {codama : Codama} {readIdl : FileReference → Except String IdlDocument}
  {projectPath : String} {performs : Write → Except String Unit}
  {dataSources : List ProjectDatasource}

theorem forM_write_eq_ok_iff (writes t : List Write) :
    writes.forM (fun w => Traced.write w (performs w)) = ⟨t, .ok ()⟩ ↔
      (∀ w ∈ writes, performs w = .ok ()) ∧ t = writes := by
  induction writes generalizing t with
  | nil => exact ⟨fun h => ⟨by simp, by cases h; rfl⟩, fun h => by rw [h.2]; rfl⟩
  | cons w writes ih =>
    rw [Traced.forM_cons, Traced.bind_eq_ok, List.forall_mem_cons]
    constructor
    · rintro ⟨t₁, u, t₂, hw, hrest, rfl⟩
      obtain ⟨hdone, rfl⟩ := Traced.write_eq_ok.mp hw
      obtain ⟨hall, rfl⟩ := (ih t₂).mp hrest
      exact ⟨⟨hdone, hall⟩, rfl⟩
    · rintro ⟨⟨hdone, hall⟩, rfl⟩
      exact ⟨[w], (), writes, Traced.write_eq_ok.mpr ⟨hdone, rfl⟩, (ih writes).mpr ⟨hall, rfl⟩, rfl⟩

theorem forM_write_eq_error {writes t : List Write} {e : String}
    (h : writes.forM (fun w => Traced.write w (performs w)) = ⟨t, .error e⟩) :
    ∃ w rest, writes = t ++ w :: rest ∧ (∀ w ∈ t, performs w = .ok ()) ∧ performs w = .error e := by
  obtain ⟨before, w, after, ts, t', rfl, hall, hw, rfl⟩ := Traced.forM_eq_error h
  obtain ⟨herror, rfl⟩ := Traced.write_eq_error hw
  have hbefore : before.forM (fun w => Traced.write w (performs w)) = ⟨ts.flatten, .ok ()⟩ :=
    Traced.forM_eq_ok_iff.mpr ⟨ts, hall, rfl⟩
  obtain ⟨hperformed, hts⟩ := (forM_write_eq_ok_iff before _).mp hbefore
  rw [hts, List.append_nil]
  exact ⟨w, after, rfl, hperformed, herror⟩

theorem mem_allAssets_iff {name : String} {fileRef : FileReference} :
    (name, fileRef) ∈ (OrderedMap.ofEntries (assetEntriesOf dataSources)).entries ↔
      lastListed (assetEntriesOf dataSources) name = some fileRef := by
  rw [OrderedMap.mem_entries_iff, OrderedMap.get_ofEntries]

theorem mem_programsOf {name : String} {fileRef : FileReference}
    (hlast : lastListed (assetEntriesOf dataSources) name = some fileRef) :
    name ∈ programsOf dataSources := by
  rw [programsOf, ← OrderedMap.keys_ofEntries]
  exact List.mem_map.mpr ⟨(name, fileRef), mem_allAssets_iff.mpr hlast, rfl⟩

/-- One round of the loop. -/
theorem generateInterface_eq_ok_iff {entry : String × FileReference}
    (hmem : entry ∈ (OrderedMap.ofEntries (assetEntriesOf dataSources)).entries) {t : List Write} :
    generateInterface codama readIdl projectPath performs entry = ⟨t, .ok ()⟩ ↔
      Generates codama readIdl projectPath performs dataSources entry.1 t := by
  have hlast := mem_allAssets_iff.mp hmem
  unfold generateInterface
  rw [Traced.bind_eq_ok]
  constructor
  · rintro ⟨t₁, root, t₂, hroot, hwrites, rfl⟩
    obtain ⟨hparsed, rfl⟩ := Traced.lift_eq.mp hroot
    obtain ⟨hdone, rfl⟩ := (forM_write_eq_ok_iff _ _).mp hwrites
    exact ⟨⟨entry.2, root, hlast, hparsed, rfl⟩, hdone⟩
  · rintro ⟨⟨fileRef, root, hlast', hparsed, rfl⟩, hdone⟩
    obtain rfl : entry.2 = fileRef := Option.some.inj (hlast.symm.trans hlast')
    exact ⟨[], root, _, Traced.lift_eq.mpr ⟨hparsed, rfl⟩,
      (forM_write_eq_ok_iff _ _).mpr ⟨hdone, rfl⟩, rfl⟩

theorem generateInterface_eq_error {entry : String × FileReference}
    (hmem : entry ∈ (OrderedMap.ofEntries (assetEntriesOf dataSources)).entries) {t : List Write}
    {e : String}
    (h : generateInterface codama readIdl projectPath performs entry = ⟨t, .error e⟩) :
    Interrupted codama readIdl projectPath performs dataSources entry.1 t e := by
  have hlast := mem_allAssets_iff.mp hmem
  unfold generateInterface at h
  rcases Traced.bind_eq_error h with hfailed | ⟨t₁, root, t₂, hroot, hwrites, rfl⟩
  · obtain ⟨hread, rfl⟩ := Traced.lift_eq.mp hfailed
    exact .unread hlast hread
  · obtain ⟨hread, rfl⟩ := Traced.lift_eq.mp hroot
    obtain ⟨w, rest, hsplit, hperformed, herror⟩ := forM_write_eq_error hwrites
    exact .unwritten hlast hread hsplit hperformed herror

/-- Some rounds of the loop, by the names of their programs. -/
theorem generates_map {entries : List (String × FileReference)} {ts : List (List Write)}
    (hmem : ∀ entry ∈ entries,
      entry ∈ (OrderedMap.ofEntries (assetEntriesOf dataSources)).entries)
    (h : List.Forall₂ (fun entry t =>
      generateInterface codama readIdl projectPath performs entry = ⟨t, .ok ()⟩) entries ts) :
    List.Forall₂ (Generates codama readIdl projectPath performs dataSources)
      (entries.map Prod.fst) ts := by
  rw [List.forall₂_map_left_iff]
  induction h with
  | nil => exact .nil
  | cons hentry _ ih =>
    obtain ⟨hfirst, hrest⟩ := List.forall_mem_cons.mp hmem
    exact .cons ((generateInterface_eq_ok_iff hfirst).mp hentry) (ih hrest)

theorem generation (codama : Codama) (readIdl : FileReference → Except String IdlDocument)
    (projectPath : String) (performs : Write → Except String Unit)
    (dataSources : List ProjectDatasource) :
    Generation codama readIdl projectPath performs dataSources
      (generateIDLInterfaces codama readIdl projectPath performs dataSources) := by
  generalize hend : generateIDLInterfaces codama readIdl projectPath performs dataSources = ended
  unfold generateIDLInterfaces at hend
  have hkeys : (OrderedMap.ofEntries (assetEntriesOf dataSources)).entries.map Prod.fst =
      programsOf dataSources := OrderedMap.keys_ofEntries _
  obtain ⟨writes, e | u⟩ := ended
  · rcases Traced.bind_eq_error hend with hfailed | ⟨t₁, u, t₂, hcheck, hloop, rfl⟩
    · obtain ⟨hrefused, rfl⟩ := Traced.lift_eq.mp hfailed
      exact .refused hrefused
    · obtain ⟨hvalid, rfl⟩ := Traced.lift_eq.mp hcheck
      obtain ⟨before, entry, after, ts, t, hsplit, hall, hentry, rfl⟩ := Traced.forM_eq_error hloop
      rw [hsplit, List.map_append, List.map_cons] at hkeys
      refine .stopped hvalid hkeys.symm (generates_map (fun e he => ?_) hall)
        (generateInterface_eq_error ?_ hentry)
      · rw [hsplit]
        exact List.mem_append_left _ he
      · rw [hsplit]
        exact List.mem_append_right _ List.mem_cons_self
  · obtain ⟨t₁, u, t₂, hcheck, hloop, rfl⟩ := Traced.bind_eq_ok.mp hend
    obtain ⟨hvalid, rfl⟩ := Traced.lift_eq.mp hcheck
    obtain ⟨ts, hall, rfl⟩ := Traced.forM_eq_ok_iff.mp hloop
    exact .finished hvalid (hkeys ▸ generates_map (fun _ he => he) hall)

/-! ## Once for each program -/

/-- The interfaces among what was written. -/
def interfacesOf (trace : List Write) : List (Path × RootNode) :=
  trace.filterMap fun
    | .interfaces output root => some (output, root)
    | _ => none

/-- However the generator ends: nothing has been written if the check fails, the interfaces are those of
the first programs in the order of the list, all of them if there was no error, and each is made of the
file that is listed last. -/
structure OncePerProgram (codama : Codama) (readIdl : FileReference → Except String IdlDocument)
    (projectPath : String) (dataSources : List ProjectDatasource) (ended : Traced Write String Unit) :
    Prop where
  checked : ended.trace ≠ [] → Valid codama readIdl dataSources
  distinct : ((interfacesOf ended.trace).map Prod.fst).Nodup
  ordered : (interfacesOf ended.trace).map Prod.fst <+:
    (programsOf dataSources).map (interfacesPath projectPath)
  complete : ended.result = .ok () → (interfacesOf ended.trace).map Prod.fst =
    (programsOf dataSources).map (interfacesPath projectPath)
  last : ∀ name root, (interfacesPath projectPath name, root) ∈ interfacesOf ended.trace →
    ∃ fileRef, lastListed (assetEntriesOf dataSources) name = some fileRef ∧
      parseIdlFromFile codama readIdl fileRef = .ok root

theorem interfacesPath_inj {projectPath name name' : String} :
    interfacesPath projectPath name = interfacesPath projectPath name' ↔ name = name' := by
  simp [interfacesPath]

theorem interfacesOf_append (t t' : List Write) :
    interfacesOf (t ++ t') = interfacesOf t ++ interfacesOf t' := List.filterMap_append

/-- An interface that is written for a program is made of its last file. -/
def MadeOfLast (codama : Codama) (readIdl : FileReference → Except String IdlDocument)
    (projectPath : String) (dataSources : List ProjectDatasource) (written : Path × RootNode) : Prop :=
  ∃ name fileRef, written.1 = interfacesPath projectPath name ∧
    lastListed (assetEntriesOf dataSources) name = some fileRef ∧
    parseIdlFromFile codama readIdl fileRef = .ok written.2

theorem interfacesOf_generates {names : List String} {outputs : List (List Write)}
    (h : List.Forall₂ (Generates codama readIdl projectPath performs dataSources) names outputs) :
    (interfacesOf outputs.flatten).map Prod.fst = names.map (interfacesPath projectPath) ∧
      ∀ written ∈ interfacesOf outputs.flatten,
        MadeOfLast codama readIdl projectPath dataSources written := by
  induction h with
  | nil => exact ⟨rfl, by simp [interfacesOf]⟩
  | @cons name writes names outputs hfirst _ ih =>
    obtain ⟨fileRef, root, hlast, hroot, rfl⟩ := hfirst.source
    have hown : interfacesOf (interfaceWrites codama projectPath name root) =
        [(interfacesPath projectPath name, root)] := rfl
    rw [List.flatten_cons, interfacesOf_append, hown, List.singleton_append]
    exact ⟨congrArg _ ih.1, List.forall_mem_cons.mpr ⟨⟨name, fileRef, rfl, hlast, hroot⟩, ih.2⟩⟩

/-- A program that was not got through with may have its interface. -/
theorem interfacesOf_interrupted {name e : String} {writes : List Write}
    (h : Interrupted codama readIdl projectPath performs dataSources name writes e) :
    ((interfacesOf writes).map Prod.fst = [] ∨
      (interfacesOf writes).map Prod.fst = [interfacesPath projectPath name]) ∧
      ∀ written ∈ interfacesOf writes,
        MadeOfLast codama readIdl projectPath dataSources written := by
  cases h with
  | unread => exact ⟨.inl rfl, by simp [interfacesOf]⟩
  | @unwritten fileRef root _ rest w _ hlast hread hwrites =>
    have hmade : MadeOfLast codama readIdl projectPath dataSources
        (interfacesPath projectPath name, root) := ⟨name, fileRef, rfl, hlast, hread⟩
    cases writes with
    | nil => exact ⟨.inl rfl, by simp [interfacesOf]⟩
    | cons first writes =>
      -- the interface comes first, and there is no other one behind it
      obtain ⟨rfl, htail⟩ := List.cons.inj hwrites
      change _ = writes ++ w :: rest at htail
      have hnone : ∀ w ∈ writes, ∀ output root, w ≠ .interfaces output root := by
        rintro w hw output root rfl
        have hmem : Write.interfaces output root ∈ writes ++ w :: rest := List.mem_append_left _ hw
        rw [← htail] at hmem
        simp at hmem
      have hrest : interfacesOf writes = [] := by
        rw [interfacesOf, List.filterMap_eq_nil_iff]
        intro w hw
        cases w with
        | interfaces output root => exact absurd rfl (hnone _ hw output root)
        | typeImports | handlerInputs => rfl
      have hown : interfacesOf (.interfaces (interfacesPath projectPath name) root :: writes) =
          [(interfacesPath projectPath name, root)] := congrArg (_ :: ·) hrest
      rw [hown]
      exact ⟨.inr rfl, List.forall_mem_singleton.mpr hmade⟩

theorem nodup_programsOf (dataSources : List ProjectDatasource) : (programsOf dataSources).Nodup := by
  rw [programsOf, ← OrderedMap.keys_ofEntries]
  exact (OrderedMap.ofEntries _).nodup

/-! ## The decoder's IDLs -/

/-- The decoder and the generator read the same files, and a file may hold `null`: the decoder does not
take it for an IDL, and the generator throws. -/
def readJson (readFile : FileReference → Except String (Nullish IdlDocument))
    (fileRef : FileReference) : Except String IdlDocument :=
  match readFile fileRef with
  | .ok (.value idl) => .ok idl
  | .ok _ => .error "Cannot read properties of null"
  | .error e => .error e

variable {readFile : FileReference → Except String (Nullish IdlDocument)}

/-- The first IDL that is listed for a program. -/
def firstIdl (readFile : FileReference → Except String (Nullish IdlDocument))
    (entries : List (String × FileReference)) (name : String) : Option IdlDocument :=
  (entries.filter fun entry => entry.1 = name).findSome? fun entry =>
    (readFile entry.2).toOption.bind Nullish.toOption

theorem readJson_eq_ok {fileRef : FileReference} {idl : IdlDocument} :
    readJson readFile fileRef = .ok idl ↔ readFile fileRef = .ok (.value idl) := by
  unfold readJson
  rcases readFile fileRef with e | _ | _ | idl' <;> simp

theorem firstIdl_cons (entry : String × FileReference) (rest : List (String × FileReference))
    (name : String) : firstIdl readFile (entry :: rest) name =
      if entry.1 = name then
        ((readFile entry.2).toOption.bind Nullish.toOption).or (firstIdl readFile rest name)
      else firstIdl readFile rest name := by
  unfold firstIdl
  by_cases hname : entry.1 = name
  · rw [if_pos hname, List.filter_cons_of_pos (by simpa using hname), List.findSome?_cons]
    cases (readFile entry.2).toOption.bind Nullish.toOption <;> rfl
  · rw [if_neg hname, List.filter_cons_of_neg (by simpa using hname)]

/-- **The decoder keeps the first IDL.** -/
theorem loadInOrder_toOption {idls final : Idls} {entries : List (String × FileReference)}
    (h : loadInOrder readFile idls entries = .ok final) (name : String) :
    (final name).toOption = (idls name).toOption.or (firstIdl readFile entries name) := by
  induction entries generalizing idls with
  | nil =>
    cases h
    exact Option.or_none.symm
  | cons entry rest ih =>
    rw [firstIdl_cons]
    unfold loadInOrder at h
    split at h
    · next hloaded =>
      rw [ih h]
      by_cases hname : entry.1 = name
      · obtain ⟨idl, hidl⟩ := Option.isSome_iff_exists.mp (hname ▸ hloaded)
        rw [hidl, Option.some_or, Option.some_or]
      · rw [if_neg hname]
    · next hnot =>
      cases hread : readFile entry.2 with
      | error e =>
        rw [hread] at h
        cases h
      | ok content =>
        rw [hread] at h
        rw [ih h]
        by_cases hname : entry.1 = name
        · subst hname
          have hnone : (idls entry.1).toOption = none := by simpa [Idls.isLoaded] using hnot
          rw [Function.update_self, hnone, if_pos rfl, Option.none_or]
          rfl
        · rw [Function.update_of_ne (Ne.symm hname), if_neg hname]

/-- Whatever has been generated is made of the file that is listed last. -/
theorem mem_interfaces_iff {name : String} {root : RootNode}
    (hgenerated : (generateIDLInterfaces codama readIdl projectPath performs dataSources).result =
      .ok ()) :
    .interfaces (interfacesPath projectPath name) root ∈
        (generateIDLInterfaces codama readIdl projectPath performs dataSources).trace ↔
      ∃ fileRef, lastListed (assetEntriesOf dataSources) name = some fileRef ∧
        parseIdlFromFile codama readIdl fileRef = .ok root := by
  have hend := generation codama readIdl projectPath performs dataSources
  generalize generateIDLInterfaces codama readIdl projectPath performs dataSources = ended
    at hgenerated hend ⊢
  cases hend with
  | refused => cases hgenerated
  | stopped => cases hgenerated
  | @finished outputs hvalid h =>
    have hown : ∀ name' fileRef root', lastListed (assetEntriesOf dataSources) name' = some fileRef →
        (.interfaces (interfacesPath projectPath name) root ∈
          interfaceWrites codama projectPath name' root' ↔ name = name' ∧ root = root') := by
      simp [interfaceWrites, interfacesPath]
    constructor
    · intro hmem
      obtain ⟨writes, hwrites, hmem⟩ := List.mem_flatten.mp hmem
      obtain ⟨name', hname', ⟨fileRef, root', hlast, hroot, rfl⟩, -⟩ := (exists_of_forall₂ h).2 _ hwrites
      obtain ⟨rfl, rfl⟩ := (hown name' fileRef root' hlast).mp hmem
      exact ⟨fileRef, hlast, hroot⟩
    · rintro ⟨fileRef, hlast, hroot⟩
      obtain ⟨writes, hwrites, ⟨fileRef', root', hlast', hroot', rfl⟩, -⟩ :=
        (exists_of_forall₂ h).1 name (mem_programsOf hlast)
      obtain rfl : fileRef = fileRef' := Option.some.inj (hlast.symm.trans hlast')
      obtain rfl : root = root' := Except.ok.inj (hroot.symm.trans hroot')
      exact List.mem_flatten.mpr ⟨_, hwrites, (hown name fileRef root hlast).mpr ⟨rfl, rfl⟩⟩

/-- A generator that came to its end has parsed the last file of every program. -/
theorem exists_root {name : String} {last : FileReference}
    (hgenerated : (generateIDLInterfaces codama readIdl projectPath performs dataSources).result =
      .ok ())
    (hlast : lastListed (assetEntriesOf dataSources) name = some last) :
    ∃ root, parseIdlFromFile codama readIdl last = .ok root := by
  have hend := generation codama readIdl projectPath performs dataSources
  generalize generateIDLInterfaces codama readIdl projectPath performs dataSources = ended
    at hgenerated hend
  cases hend with
  | refused => cases hgenerated
  | stopped => cases hgenerated
  | finished hvalid h =>
    obtain ⟨writes, -, ⟨fileRef, root, hlast', hroot, -⟩, -⟩ :=
      (exists_of_forall₂ h).1 name (mem_programsOf hlast)
    obtain rfl : last = fileRef := Option.some.inj (hlast.symm.trans hlast')
    exact ⟨root, hroot⟩

/-- A file that was parsed holds an IDL, so there is a first one. -/
theorem exists_firstIdl {entries : List (String × FileReference)} {name : String}
    {last : FileReference} {root : RootNode} (hlast : lastListed entries name = some last)
    (hroot : parseIdlFromFile codama (readJson readFile) last = .ok root) :
    ∃ first, firstIdl readFile entries name = some first := by
  obtain ⟨idl, hread, -⟩ := bind_eq_ok.mp hroot
  have hmem := mem_of_lastListed hlast
  rw [← Option.isSome_iff_exists, firstIdl, List.findSome?_isSome_iff]
  refine ⟨(name, last), List.mem_filter.mpr ⟨hmem, by simp⟩, ?_⟩
  rw [readJson_eq_ok.mp hread]
  rfl

/-- The first IDL of every program and the last one are the same root node. -/
def FirstIsLast (codama : Codama) (readFile : FileReference → Except String (Nullish IdlDocument))
    (entries : List (String × FileReference)) : Prop :=
  ∀ name first last, firstIdl readFile entries name = some first → lastListed entries name = some last →
    parseIdl codama first = parseIdlFromFile codama (readJson readFile) last

/-- Whatever interface was generated for a program, the decoder has this root node for it. -/
def DecodesAsGenerated (codama : Codama) (projectPath : String) (trace : List Write) (idls : Idls) :
    Prop :=
  ∀ name root, .interfaces (interfacesPath projectPath name) root ∈ trace →
    ∃ idl, idls name = .value idl ∧ parseIdl codama idl = .ok root

/-- **One interface for each program**, and nothing before the check. -/
theorem generates_each_once (codama : Codama) (readIdl : FileReference → Except String IdlDocument)
    (projectPath : String) (performs : Write → Except String Unit)
    (dataSources : List ProjectDatasource) :
    OncePerProgram codama readIdl projectPath dataSources
      (generateIDLInterfaces codama readIdl projectPath performs dataSources) := by
  have hend := generation codama readIdl projectPath performs dataSources
  generalize generateIDLInterfaces codama readIdl projectPath performs dataSources = ended at hend ⊢
  have hnodup := (nodup_programsOf dataSources).map (f := interfacesPath projectPath)
    fun _ _ => interfacesPath_inj.mp
  have hmade : (∀ written ∈ interfacesOf ended.trace,
      MadeOfLast codama readIdl projectPath dataSources written) →
      ∀ name root, (interfacesPath projectPath name, root) ∈ interfacesOf ended.trace →
        ∃ fileRef, lastListed (assetEntriesOf dataSources) name = some fileRef ∧
          parseIdlFromFile codama readIdl fileRef = .ok root := by
    intro hall name root hmem
    obtain ⟨name', fileRef, hname, hlast, hroot⟩ := hall _ hmem
    obtain rfl := interfacesPath_inj.mp hname
    exact ⟨fileRef, hlast, hroot⟩
  cases hend with
  | refused h =>
    refine ⟨fun hne => absurd rfl hne, List.nodup_nil, List.nil_prefix, ?_, hmade ?_⟩
    · rintro ⟨⟩
    · simp [interfacesOf]
  | finished hvalid h =>
    obtain ⟨hall, hlast⟩ := interfacesOf_generates h
    exact ⟨fun _ => hvalid, hall ▸ hnodup, hall ▸ List.prefix_rfl, fun _ => hall, hmade hlast⟩
  | @stopped before after name _ outputs writes hvalid hprograms h hstopped =>
    obtain ⟨hall, hlast⟩ := interfacesOf_generates h
    obtain ⟨hown, hlast'⟩ := interfacesOf_interrupted hstopped
    have hprefix : (interfacesOf (outputs.flatten ++ writes)).map Prod.fst <+:
        (programsOf dataSources).map (interfacesPath projectPath) := by
      rw [interfacesOf_append, List.map_append, hall, hprograms, List.map_append, List.map_cons,
        List.prefix_append_right_inj]
      rcases hown with hnone | hone
      · rw [hnone]
        exact List.nil_prefix
      · rw [hone]
        exact List.prefix_append [_] _
    refine ⟨fun _ => hvalid, hnodup.sublist hprefix.sublist, hprefix, ?_, hmade fun written hmem => ?_⟩
    · rintro ⟨⟩
    rw [interfacesOf_append] at hmem
    rcases List.mem_append.mp hmem with hmem | hmem
    · exact hlast written hmem
    · exact hlast' written hmem

end

/-- **When the interfaces are those of the IDLs that the decoder loads.** -/
theorem interfaces_agree_iff {codama : Codama}
    {readFile : FileReference → Except String (Nullish IdlDocument)} {projectPath : String}
    {performs : Write → Except String Unit} {dataSources : List ProjectDatasource} {idls : Idls}
    (hgenerated : (generateIDLInterfaces codama (readJson readFile) projectPath performs
      dataSources).result = .ok ())
    (hloaded : loadInOrder readFile (fun _ => .undefined) (assetEntriesOf dataSources) = .ok idls) :
    DecodesAsGenerated codama projectPath
        (generateIDLInterfaces codama (readJson readFile) projectPath performs dataSources).trace
        idls ↔
      FirstIsLast codama readFile (assetEntriesOf dataSources) := by
  have hidl : ∀ name idl, idls name = .value idl ↔
      firstIdl readFile (assetEntriesOf dataSources) name = some idl := by
    intro name idl
    rw [← Nullish.toOption_eq_some, loadInOrder_toOption hloaded]
    rfl
  constructor
  · intro hagree name first last hfirst hlast
    -- the last file has been parsed, since the generator came to its end
    obtain ⟨root, hroot⟩ := exists_root hgenerated hlast
    obtain ⟨idl, hname, hparsed⟩ :=
      hagree name root ((mem_interfaces_iff hgenerated).mpr ⟨last, hlast, hroot⟩)
    obtain rfl : first = idl := Option.some.inj (hfirst.symm.trans ((hidl name idl).mp hname))
    rw [hparsed, hroot]
  · intro hsame name root hmem
    obtain ⟨last, hlast, hroot⟩ := (mem_interfaces_iff hgenerated).mp hmem
    obtain ⟨first, hfirst⟩ := exists_firstIdl hlast hroot
    exact ⟨first, (hidl name first).mpr hfirst, (hsame name first last hfirst hlast).trans hroot⟩

/-! ## Two files for one program -/

namespace TwoFiles

/-- Each of two data sources has its own file for the program. -/
def project : List ProjectDatasource := [⟨dataSource "one.json", true⟩, ⟨dataSource "two.json", true⟩]

def performs (_ : Write) : Except String Unit := .ok ()

/-- **The types are those of `two.json`, and the data is decoded with `one.json`.** -/
theorem interfaces_disagree : ¬DecodesAsGenerated plainCodama "project"
    (generateIDLInterfaces plainCodama (readJson readFile) "project" performs project).trace
    (Function.update empty "T0ken" (.value (idl "one.json"))) := by
  rw [interfaces_agree_iff (by rfl) rfl]
  intro h
  have hsame := h "T0ken" (idl "one.json") ⟨"two.json"⟩ (by decide) (by decide)
  revert hsame
  decide

end TwoFiles

end SubqlSolana
