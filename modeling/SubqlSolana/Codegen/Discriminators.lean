import SubqlSolana.Solana.Idl

/-!
# Discriminators at build time

`validateDiscriminators` (`codegen/codegen.ts`) looks at the instruction handlers of a project before
it is built, and reports every discriminator that it does not find in the IDL of the handler's program.
The indexer takes the same text for a hexadecimal number first, then for a name, and then for a base58
text (`parseDiscriminator`); the check knows names only.

So a handler that the indexer resolves passes the check exactly when its discriminator names an
instruction, or when the check never gets to the handler (`accepts_resolved_iff`). It does not get
past a handler without a filter: the `break` that is meant for that handler leaves the loop.
-/

set_option autoImplicit false

namespace SubqlSolana

open Lib

/-! ## The check -/

section

variable (codama : Codama) (readIdl : FileReference → Except String IdlDocument)

/-- `readIdl` is the file system, with the path of the project, and `JSON.parse`. -/
def parseIdlFromFile (fileRef : FileReference) : Except String RootNode := do
  parseIdl codama (← readIdl fileRef)

def noFileReference : String :=
  "Datasource has a handler with a discriminator but no IDL file reference"

def noMatchingInstruction (discriminator : String) : String :=
  s!"Datasource has a handler with a discriminator {discriminator} but no matching instruction found in IDL"

/-- What is pushed to `issues` for one handler that has a filter. -/
def issuesOfHandler (ds : SubqlDatasource) (kind : SolanaHandlerKind) (filter : HandlerFilter) :
    Except String (List String) :=
  match kind with
  | .instruction =>
    match filter.discriminator.text?, filter.programId.text? with
    | some discriminator, some programId =>
      match ds.asset programId with
      | none => .ok [noFileReference]
      | some fileRef => do
        let idl ← parseIdlFromFile codama readIdl fileRef
        match findInstructionDiscriminatorByName codama idl discriminator with
        | none => pure [noMatchingInstruction discriminator]
        | some _ => pure []
    | _, _ => .ok []
  -- there is nothing extra to validate
  | _ => .ok []

/-- The loop over the handlers of a data source. -/
def issuesOfHandlers (ds : SubqlDatasource) : List Handler → Except String (List String)
  | [] => .ok []
  | handler :: rest =>
    match handler.filter with
    -- `break`
    | none => .ok []
    | some filter => do
      let issues ← issuesOfHandler codama readIdl ds handler.kind filter
      pure (issues ++ (← issuesOfHandlers ds rest))

def validateDiscriminators (dataSources : List SubqlDatasource) : Except String Unit := do
  let issues ← dataSources.mapM fun ds => issuesOfHandlers codama readIdl ds ds.mapping.handlers
  if issues.flatten = [] then pure () else .error (String.intercalate "\n" issues.flatten)

end

section

variable {codama : Codama} {readIdl : FileReference → Except String IdlDocument}
  {ds : SubqlDatasource}

/-! ## Where the loop stops -/

/-- The loop ends with this handler: there is no filter, or an exception. -/
def StopsAt (codama : Codama) (readIdl : FileReference → Except String IdlDocument)
    (ds : SubqlDatasource) (handler : Handler) : Prop :=
  ∀ filter ∈ handler.filter, ∃ message,
    issuesOfHandler codama readIdl ds handler.kind filter = .error message

theorem issuesOfHandlers_stopped {handlers : List Handler}
    (h : ∃ handler ∈ handlers, StopsAt codama readIdl ds handler) (rest : List Handler) :
    issuesOfHandlers codama readIdl ds (handlers ++ rest) =
      issuesOfHandlers codama readIdl ds handlers := by
  induction handlers with
  | nil =>
    obtain ⟨handler, hmem, -⟩ := h
    cases hmem
  | cons handler handlers ih =>
    simp only [List.cons_append, issuesOfHandlers]
    cases hfilter : handler.filter with
    | none => rfl
    | some filter =>
      dsimp only
      cases hissues : issuesOfHandler codama readIdl ds handler.kind filter with
      | error message => rfl
      | ok issues =>
        rw [ih]
        obtain ⟨stop, hmem, hstop⟩ := h
        rcases List.mem_cons.mp hmem with rfl | hmem
        · obtain ⟨message, hmessage⟩ := hstop filter hfilter
          rw [hissues] at hmessage
          cases hmessage
        · exact ⟨stop, hmem, hstop⟩

theorem issuesOfHandlers_passed {handlers : List Handler}
    (h : ∀ handler ∈ handlers, ¬StopsAt codama readIdl ds handler) (rest : List Handler) :
    ∃ issues, issuesOfHandlers codama readIdl ds handlers = .ok issues ∧
      issuesOfHandlers codama readIdl ds (handlers ++ rest) =
        (issuesOfHandlers codama readIdl ds rest).map (issues ++ ·) := by
  induction handlers with
  | nil =>
    refine ⟨[], rfl, ?_⟩
    rw [List.nil_append]
    cases issuesOfHandlers codama readIdl ds rest <;> rfl
  | cons handler handlers ih =>
    obtain ⟨issues, hissues, happend⟩ := ih fun handler hmem => h handler (.tail _ hmem)
    have hpass := h handler List.mem_cons_self
    unfold StopsAt at hpass
    push Not at hpass
    obtain ⟨filter, hfilter, hok⟩ := hpass
    cases hown : issuesOfHandler codama readIdl ds handler.kind filter with
    | error message => exact absurd hown (hok message)
    | ok own =>
      refine ⟨own ++ issues, ?_, ?_⟩
      · simp only [issuesOfHandlers, Option.mem_def.mp hfilter, hown, hissues]
        rfl
      · simp only [List.cons_append, issuesOfHandlers, Option.mem_def.mp hfilter, hown, happend]
        cases issuesOfHandlers codama readIdl ds rest with
        | error message => rfl
        | ok last => simp [Except.map, Bind.bind, Except.bind, pure, Except.pure]

/-! ## Both readers of a discriminator -/

/-- An instruction handler whose filter has a discriminator and a program, and the IDL that the check
reads for this program and the decoder has loaded. -/
structure IdlHandler (codama : Codama) (readIdl : FileReference → Except String IdlDocument)
    (ds : SubqlDatasource) (decoder : SolanaDecoder) where
  position : Nat
  filter : HandlerFilter
  handler : ds.mapping.handlers[position]? = some ⟨.instruction, some filter⟩
  discriminator : String
  hasDiscriminator : filter.discriminator.text? = some discriminator
  programId : String
  hasProgramId : filter.programId.text? = some programId
  fileRef : FileReference
  asset : ds.asset programId = some fileRef
  idl : IdlDocument
  file : readIdl fileRef = .ok idl
  loaded : decoder.idls programId = some (idl.toIdl codama)
  root : RootNode
  parsed : parseIdl codama idl = .ok root

namespace IdlHandler

variable {decoder : SolanaDecoder} (c : IdlHandler codama readIdl ds decoder)

/-- The handlers in front of this one. -/
def before : List Handler := ds.mapping.handlers.take c.position

/-- The decoder takes the discriminator for that of an instruction. -/
def Resolves : Prop :=
  ∃ bytes, decoder.parseDiscriminator c.discriminator c.programId = .ok bytes ∧
    ∃ inst ∈ c.root.program.instructions, getInstructionDiscriminatorBytes codama inst = .ok bytes

/-- With this handler, the check has the same issues as without it. -/
def ReportsNone : Prop :=
  issuesOfHandlers codama readIdl ds (ds.mapping.handlers.take (c.position + 1)) =
    issuesOfHandlers codama readIdl ds c.before

/-- The loop ends in front of the handler. -/
def Skipped : Prop := ∃ handler ∈ c.before, StopsAt codama readIdl ds handler

/-- The discriminator is the name of an instruction, and the first instruction of that name has a
discriminator that can be read. -/
def NamesInstruction : Prop :=
  ∃ inst bytes,
    c.root.program.instructions.find? (InstructionNode.isNamed codama c.discriminator) = some inst ∧
      getInstructionDiscriminatorBytes codama inst = .ok bytes

theorem namesInstruction_iff : c.NamesInstruction ↔
    ∃ bytes, findInstructionDiscriminatorByName codama c.root c.discriminator = some bytes := by
  unfold NamesInstruction findInstructionDiscriminatorByName
  cases c.root.program.instructions.find? (InstructionNode.isNamed codama c.discriminator) with
  | none => simp
  | some inst => simp [toOption_eq_some]

/-- The issues of the handler alone. -/
theorem issues : issuesOfHandlers codama readIdl ds [⟨.instruction, some c.filter⟩] =
    .ok (match findInstructionDiscriminatorByName codama c.root c.discriminator with
      | none => [noMatchingInstruction c.discriminator]
      | some _ => []) := by
  have hroot : parseIdlFromFile codama readIdl c.fileRef = .ok c.root := by
    simp only [parseIdlFromFile, c.file]
    exact c.parsed
  simp only [issuesOfHandlers, issuesOfHandler, c.hasDiscriminator, c.hasProgramId, c.asset, hroot,
    ok_bind]
  cases findInstructionDiscriminatorByName codama c.root c.discriminator <;> rfl

theorem take_succ : ds.mapping.handlers.take (c.position + 1) =
    c.before ++ [⟨.instruction, some c.filter⟩] := by
  rw [List.take_add_one, c.handler]
  rfl

theorem reportsNone_iff : c.ReportsNone ↔ c.Skipped ∨ c.NamesInstruction := by
  unfold ReportsNone
  rw [c.take_succ]
  by_cases hskipped : c.Skipped
  · simp [issuesOfHandlers_stopped hskipped, hskipped]
  · unfold Skipped at hskipped
    push Not at hskipped
    obtain ⟨issues, hbefore, happend⟩ := issuesOfHandlers_passed hskipped _
    rw [happend, hbefore, c.issues, c.namesInstruction_iff]
    have hskipped' : ¬c.Skipped := by
      rintro ⟨handler, hmem, hstop⟩
      exact hskipped handler hmem hstop
    cases findInstructionDiscriminatorByName codama c.root c.discriminator with
    | none => simp [Except.map, hskipped']
    | some bytes => simp [Except.map]

/-- **The check accepts what the decoder resolves** exactly when what it resolves is a name, or the check
does not get to the handler. -/
theorem accepts_resolved_iff :
    (c.Resolves → c.ReportsNone) ↔ (c.Resolves → c.Skipped ∨ c.NamesInstruction) := by
  rw [c.reportsNone_iff]

end IdlHandler

end

/-! ## A hexadecimal discriminator -/

namespace HexDiscriminator

def claimToken : InstructionNode where
  name := "claimToken"
  arguments := [⟨"discriminator", .fixedSizeTypeNode 8 .bytesTypeNode,
    some (.bytesValueNode ⟨.base16, "74ce1bbfa6130049"⟩)⟩]

def root : RootNode := ⟨⟨"claims", "C1aim", [claimToken], []⟩⟩

def readIdl : FileReference → Except String IdlDocument := fun _ => .ok (.root root)

def decoder : SolanaDecoder where
  idls _ := some (IdlDocument.toIdl plainCodama (.root root))
  isHex text := text.toList.take 2 = ['0', 'x'] && (text.toList.drop 2).all fun c => (hexValue c).isSome
  bs58decode _ := .error "Non-base58 character"

def filter : HandlerFilter :=
  { programId := .value "C1aim", discriminator := .value "0x74ce1bbfa6130049" }

def ds : SubqlDatasource where
  mapping := ⟨[⟨.instruction, some filter⟩]⟩
  assets := some ⟨[("C1aim", ⟨"./idls/claims.idl.json"⟩)], by decide⟩

def handler : IdlHandler plainCodama readIdl ds decoder where
  position := 0
  filter := filter
  handler := rfl
  discriminator := "0x74ce1bbfa6130049"
  hasDiscriminator := by decide
  programId := "C1aim"
  hasProgramId := by decide
  fileRef := ⟨"./idls/claims.idl.json"⟩
  asset := by decide
  idl := .root root
  file := rfl
  loaded := rfl
  root := root
  parsed := by decide

/-- **The check refuses a hexadecimal discriminator** that the decoder resolves to `claimToken`. -/
theorem is_refused : ¬(handler.Resolves → handler.ReportsNone) ∧
    validateDiscriminators plainCodama readIdl [ds] =
      .error (noMatchingInstruction "0x74ce1bbfa6130049") := by
  constructor
  · intro h
    have hresolves : handler.Resolves :=
      ⟨[0x74, 0xce, 0x1b, 0xbf, 0xa6, 0x13, 0x00, 0x49], by decide, claimToken, by decide, by decide⟩
    have hissues := h hresolves
    revert hissues
    unfold IdlHandler.ReportsNone
    decide
  · decide

end HexDiscriminator

end SubqlSolana
