import Mathlib.Data.List.Find
import SubqlSolana.Solana.Decoding

/-!
# One program, two formats

The file of a program is an Anchor IDL, or the Codama root node that is made of one. Instructions are
looked up in the root node in both cases. A log is not: an Anchor IDL lists its events with their
discriminators, and names the type of each; a root node has the types only, so the hash of every type's
name is compared, as it is and in Pascal case, and "this is fragile as there can be various casings".

What it takes for the two to agree is `Converted`: that the events have the discriminators which Anchor
gives them, and that a type is named like an event in the one sense exactly if it is in the other. Then
**a log is decoded alike, unless it begins with the discriminator of a type that is no event**
(`formats_decode_alike_iff`): only the root node takes that for a log.
-/

set_option autoImplicit false

namespace SubqlSolana

open Lib

section

variable {V : Type} {codecs : Codecs V} {idl : AnchorIdl} {root : RootNode} {bytes : List UInt8}

/-- The type has the name of the event, as an Anchor IDL is read. -/
def DefinedTypeNode.isTypeOf (codecs : Codecs V) (event : AnchorEvent) (t : DefinedTypeNode) : Bool :=
  t.name = event.name || t.name = codecs.camelCase event.name

/-- The type has the discriminator, as a root node is read. -/
def DefinedTypeNode.hasDiscriminator (codecs : Codecs V) (logDisc : List UInt8)
    (t : DefinedTypeNode) : Bool :=
  (getDiscriminator codecs t.name).isPrefixOf logDisc ||
    (getDiscriminator codecs (codecs.pascalCase t.name)).isPrefixOf logDisc

/-- The root node is what Codama makes of the Anchor IDL, and each is recognised when it is loaded. -/
structure Converted (codecs : Codecs V) (idl : AnchorIdl) (root : RootNode) : Prop where
  spec : idl.metadata = some (some "0.1.0")
  made : codecs.rootNodeFromAnchor (.anchor idl) = .ok root
  address : root.program.publicKey ≠ ""
  file : parseIdl codecs.toCodama (.root root) = .ok root
  size : ∀ name, (getDiscriminator codecs name).length = 8
  /-- Anchor gives an event the same hash of its name. -/
  discriminator : ∀ event ∈ idl.events.getD [],
    event.discriminator = getDiscriminator codecs event.name
  casing : ∀ t ∈ root.program.definedTypes, ∀ event ∈ idl.events.getD [],
    codecs.pascalCase t.name = event.name ↔ t.name = codecs.camelCase event.name
  /-- No hash of a type's name collides with that of an event's name. -/
  distinct : ∀ t ∈ root.program.definedTypes, ∀ event ∈ idl.events.getD [],
    ∀ name ∈ [t.name, codecs.pascalCase t.name],
      getDiscriminator codecs name = getDiscriminator codecs event.name → name = event.name

/-- The bytes begin with the discriminator of a type, and no event has it. -/
def Stray (codecs : Codecs V) (idl : AnchorIdl) (root : RootNode) (bytes : List UInt8) : Prop :=
  (∀ event ∈ idl.events.getD [], event.discriminator ≠ bytes.take 8) ∧
    ∃ t ∈ root.program.definedTypes, getDiscriminator codecs t.name = bytes.take 8 ∨
      getDiscriminator codecs (codecs.pascalCase t.name) = bytes.take 8

/-! ## Prefixes of eight bytes -/

theorem isPrefixOf_take_iff {disc : List UInt8} (hdisc : disc.length = 8)
    (hbytes : 8 ≤ bytes.length) : disc.isPrefixOf (bytes.take 8) = true ↔ disc = bytes.take 8 := by
  rw [List.isPrefixOf_iff_prefix]
  constructor
  · intro h
    exact h.eq_of_length (by rw [hdisc, List.length_take, Nat.min_eq_left hbytes])
  · rintro rfl
    exact List.prefix_rfl

theorem isPrefixOf_iff_take {disc : List UInt8} (hdisc : disc.length = 8) :
    disc.isPrefixOf bytes = true ↔ disc = bytes.take 8 := by
  rw [List.isPrefixOf_iff_prefix, List.prefix_iff_eq_take, hdisc]

namespace Converted

theorem parseIdl_anchor (h : Converted codecs idl root) :
    parseIdl codecs.toCodama (.anchor idl) = .ok root := by
  unfold parseIdl
  rw [h.made, ok_bind, if_neg h.address]
  rfl

theorem hasDiscriminator_iff (h : Converted codecs idl root) (hbytes : 8 ≤ bytes.length)
    (t : DefinedTypeNode) :
    t.hasDiscriminator codecs (bytes.take 8) = true ↔
      getDiscriminator codecs t.name = bytes.take 8 ∨
        getDiscriminator codecs (codecs.pascalCase t.name) = bytes.take 8 := by
  unfold DefinedTypeNode.hasDiscriminator
  rw [Bool.or_eq_true, isPrefixOf_take_iff (h.size _) hbytes, isPrefixOf_take_iff (h.size _) hbytes]

/-- A name has the hash of an event exactly if it is the name of the event. -/
theorem hash_iff (h : Converted codecs idl root) {t : DefinedTypeNode}
    (ht : t ∈ root.program.definedTypes) {event : AnchorEvent} (hevent : event ∈ idl.events.getD [])
    {name : String} (hname : name ∈ [t.name, codecs.pascalCase t.name]) :
    getDiscriminator codecs name = event.discriminator ↔ name = event.name := by
  rw [h.discriminator event hevent]
  constructor
  · exact h.distinct t ht event hevent name hname
  · rintro rfl
    rfl

/-- For the discriminator of an event, the two ways to look for a type find the same. -/
theorem find_type (h : Converted codecs idl root) {event : AnchorEvent}
    (hevent : event ∈ idl.events.getD []) (hdisc : event.discriminator = bytes.take 8)
    (hbytes : 8 ≤ bytes.length) :
    root.program.definedTypes.find? (DefinedTypeNode.hasDiscriminator codecs (bytes.take 8)) =
      root.program.definedTypes.find? (DefinedTypeNode.isTypeOf codecs event) := by
  refine List.find?_congr fun t ht => ?_
  rw [Bool.eq_iff_iff, h.hasDiscriminator_iff hbytes, ← hdisc, h.hash_iff ht hevent (by simp),
    h.hash_iff ht hevent (by simp), h.casing t ht event hevent]
  simp [DefinedTypeNode.isTypeOf]

/-! ## What is left of the bytes -/

theorem splitLog_root (h : Converted codecs idl root) : splitLog codecs (.root root) bytes =
    .ok (if bytes.length < 8 then none else some (bytes.drop 8, fun root =>
      root.program.definedTypes.find? (DefinedTypeNode.hasDiscriminator codecs (bytes.take 8)))) := by
  have hanchor : (IdlDocument.root root).isAnchorIdl = false := by
    simp [IdlDocument.isAnchorIdl, IdlDocument.isRootNode, h.address]
  unfold splitLog
  simp only [hanchor, Bool.not_false, if_true]
  split <;> rfl

theorem splitLog_anchor (h : Converted codecs idl root) : splitLog codecs (.anchor idl) bytes =
    match (idl.events.getD []).find? fun event => event.discriminator.isPrefixOf bytes with
    | none => .error "Unable to find event for log data"
    | some event => .ok (some (bytes.drop event.discriminator.length, fun root =>
        root.program.definedTypes.find? (DefinedTypeNode.isTypeOf codecs event))) := by
  have hspec : isAnchorIdlV01 (.anchor idl) = .ok true := by
    simp [isAnchorIdlV01, IdlDocument.isAnchorIdl, IdlDocument.isRootNode, IdlDocument.spec, h.spec,
      Bind.bind, Except.bind, pure, Except.pure]
  have hanchor : (IdlDocument.anchor idl).isAnchorIdl = true := rfl
  unfold splitLog
  simp only [hanchor, hspec, Bool.not_true, Bool.false_eq_true, if_false, ok_bind]
  show (match (idl.events.getD []).find? fun event => event.discriminator.isPrefixOf bytes with
    | none => throw "Unable to find event for log data"
    | some event => pure _) = _
  cases (idl.events.getD []).find? fun event => event.discriminator.isPrefixOf bytes <;> rfl

end Converted

/-! ## What the codec is called with -/

/-- The bytes that a log message stands for. -/
def logPayload (codecs : Codecs V) (message : String) : List UInt8 :=
  basedToBuffer codecs (String.ofList (replaceFirst programData.toList message.toList))

/-- What the codec is called with for a log, if it is called. -/
def Idls.logInput (codecs : Codecs V) (idls : Idls) (log : SolanaLogMessage) :
    Option (RootNode × EncodableNode × List UInt8) :=
  match idls.idlOf (log.programId.getD "undefined") with
  | .error _ => none
  | .ok idl =>
    match logCodecInput codecs idl log.message with
    | .error _ => none
    | .ok input => input

/-- What it is called with for the bytes of a log, and the root node of the file. -/
def typedInput (codecs : Codecs V) (document : IdlDocument) (root : RootNode) (bytes : List UInt8) :
    Option (RootNode × EncodableNode × List UInt8) :=
  (splitLog codecs document bytes).toOption.join.bind fun split =>
    (split.2 root).map fun t =>
      (root, .definedTypeNode t, basedToBuffer codecs (Base64.encode split.1))

/-- The codec is all that is left to do. -/
theorem Idls.decodeLog_eq (idls : Idls) (log : SolanaLogMessage) :
    idls.decodeLog codecs log = runCodec codecs (idls.logInput codecs log) := by
  unfold Idls.decodeLog Idls.tryDecode Idls.logInput
  cases idls.idlOf (log.programId.getD "undefined") with
  | error message => rfl
  | ok idl =>
    rw [ok_bind]
    dsimp only
    unfold SubqlSolana.decodeLog
    cases logCodecInput codecs idl log.message <;> rfl

/-- The type that is found for what is left of the bytes goes to the codec with it. -/
theorem logCodecInput_eq {document : IdlDocument}
    (hroot : parseIdl codecs.toCodama document = .ok root) (message : String) :
    logCodecInput codecs document message =
      (splitLog codecs document (logPayload codecs message)).map fun split =>
        split.bind fun split => (split.2 root).map fun t =>
          (root, .definedTypeNode t, basedToBuffer codecs (Base64.encode split.1)) := by
  show (splitLog codecs document (logPayload codecs message) >>= _) = _
  cases splitLog codecs document (logPayload codecs message) with
  | error message => rfl
  | ok split =>
    cases split with
    | none => rfl
    | some split =>
      rw [ok_bind]
      dsimp only
      unfold codecInput
      rw [hroot, ok_bind]
      show Except.ok (Option.map _ (Option.map _ (split.2 root))) = _
      rw [Option.map_map]
      rfl

theorem Idls.logInput_eq {idls : Idls} {log : SolanaLogMessage} {programId : String}
    {document : IdlDocument} (hidl : idls programId = .value document)
    (hprogram : log.programId = some programId)
    (hroot : parseIdl codecs.toCodama document = .ok root) :
    idls.logInput codecs log = typedInput codecs document root (logPayload codecs log.message) := by
  have hfound : idls.idlOf (log.programId.getD "undefined") = .ok document := by
    unfold Idls.idlOf
    rw [hprogram, Option.getD_some, hidl]
    rfl
  unfold Idls.logInput
  rw [hfound]
  dsimp only
  rw [logCodecInput_eq hroot]
  unfold typedInput
  cases splitLog codecs document (logPayload codecs log.message) <;> rfl

/-! ## Both formats -/

/-- Nothing is found for a payload without an event in an Anchor IDL; in a root node only if it is not a
stray one. -/
theorem Converted.stray_iff (h : Converted codecs idl root) (bytes : List UInt8)
    (hnone : ∀ event ∈ idl.events.getD [], event.discriminator ≠ bytes.take 8) :
    Stray codecs idl root bytes ↔ 8 ≤ bytes.length ∧
      (root.program.definedTypes.find?
        (DefinedTypeNode.hasDiscriminator codecs (bytes.take 8))).isSome := by
  constructor
  · rintro ⟨-, t, ht, hdisc⟩
    have hbytes : 8 ≤ bytes.length := by
      have hlength : (bytes.take 8).length = 8 := by
        rcases hdisc with hdisc | hdisc <;> rw [← hdisc, h.size]
      rw [List.length_take] at hlength
      omega
    refine ⟨hbytes, ?_⟩
    rw [List.find?_isSome]
    exact ⟨t, ht, (h.hasDiscriminator_iff hbytes t).mpr hdisc⟩
  · rintro ⟨hbytes, hsome⟩
    rw [List.find?_isSome] at hsome
    obtain ⟨t, ht, hdisc⟩ := hsome
    exact ⟨hnone, t, ht, (h.hasDiscriminator_iff hbytes t).mp hdisc⟩

/-- The discriminator of an event: the same type is found, and the same bytes are left. -/
theorem Converted.typedInput_of_event (h : Converted codecs idl root) {event : AnchorEvent}
    (hfind : (idl.events.getD []).find? (fun event => event.discriminator.isPrefixOf bytes) =
      some event) :
    typedInput codecs (.anchor idl) root bytes = typedInput codecs (.root root) root bytes ∧
      ¬Stray codecs idl root bytes := by
  have hevent := List.mem_of_find?_eq_some hfind
  have hlength : event.discriminator.length = 8 := by rw [h.discriminator event hevent, h.size]
  have hprefix : event.discriminator.isPrefixOf bytes = true := by
    simpa using List.find?_some hfind
  have hdisc := (isPrefixOf_iff_take hlength).mp hprefix
  have hbytes : 8 ≤ bytes.length := by
    rw [hdisc, List.length_take] at hlength
    omega
  refine ⟨?_, fun hstray => hstray.1 event hevent hdisc⟩
  unfold typedInput
  rw [h.splitLog_root, h.splitLog_anchor, hfind, if_neg (not_lt.mpr hbytes)]
  dsimp only
  rw [hlength]
  simp only [Except.toOption, Option.join_some, Option.bind_some, h.find_type hevent hdisc hbytes]

/-- There is no such event: nothing is found for an Anchor IDL, and nothing but a stray one for a root
node. -/
theorem Converted.typedInput_of_no_event (h : Converted codecs idl root)
    (hfind : (idl.events.getD []).find? (fun event => event.discriminator.isPrefixOf bytes) = none) :
    typedInput codecs (.anchor idl) root bytes = none ∧
      (typedInput codecs (.root root) root bytes = none ↔ ¬Stray codecs idl root bytes) := by
  have hnone : ∀ event ∈ idl.events.getD [], event.discriminator ≠ bytes.take 8 := by
    intro event hevent hdisc
    have hlength : event.discriminator.length = 8 := by rw [h.discriminator event hevent, h.size]
    exact List.find?_eq_none.mp hfind event hevent ((isPrefixOf_iff_take hlength).mpr hdisc)
  unfold typedInput
  rw [h.splitLog_root, h.splitLog_anchor, hfind, h.stray_iff bytes hnone]
  refine ⟨rfl, ?_⟩
  by_cases hbytes : bytes.length < 8
  · rw [if_pos hbytes]
    exact iff_of_true rfl fun hstray => absurd hstray.1 (not_le.mpr hbytes)
  · rw [if_neg hbytes]
    simp only [Except.toOption, Option.join_some, Option.bind_some]
    rw [Option.map_eq_none_iff, and_iff_right (not_lt.mp hbytes), Bool.not_eq_true,
      Option.isSome_eq_false_iff, Option.isNone_iff_eq_none]

section

variable {idls idls' : Idls} {programId : String}

/-- An instruction is looked up in the root node that the file stands for. -/
theorem decodeInstruction_of_idl {document : IdlDocument} (hidl : idls programId = .value document)
    {inst : SolanaInstruction} (hprogram : getProgramId inst = some programId)
    (hroot : parseIdl codecs.toCodama document = .ok root) : idls.decodeInstruction codecs inst =
      let buffer := basedToBuffer codecs inst.data
      runCodec codecs ((encodableInstruction codecs.toCodama root buffer).map fun node =>
        (root, node, buffer)) := by
  have hfound : idls.idlOf ((getProgramId inst).getD "undefined") = .ok document := by
    unfold Idls.idlOf
    rw [hprogram, Option.getD_some, hidl]
    rfl
  unfold Idls.decodeInstruction Idls.tryDecode SubqlSolana.decodeInstruction decodeData codecInput
  rw [hfound, ok_bind]
  dsimp only
  rw [hroot]
  rfl

/-- The codec is called with the same, unless the payload is a stray one. -/
theorem logInput_eq_iff (h : Converted codecs idl root) (hidl : idls programId = .value (.anchor idl))
    (hidl' : idls' programId = .value (.root root)) {log : SolanaLogMessage}
    (hprogram : log.programId = some programId) :
    idls.logInput codecs log = idls'.logInput codecs log ↔
      ¬Stray codecs idl root (logPayload codecs log.message) := by
  rw [Idls.logInput_eq hidl hprogram h.parseIdl_anchor, Idls.logInput_eq hidl' hprogram h.file]
  generalize logPayload codecs log.message = bytes
  cases hfind : (idl.events.getD []).find? fun event => event.discriminator.isPrefixOf bytes with
  | some event =>
    obtain ⟨heq, hstray⟩ := h.typedInput_of_event hfind
    exact iff_of_true heq hstray
  | none =>
    obtain ⟨hinput, hiff⟩ := h.typedInput_of_no_event hfind
    rw [hinput, eq_comm]
    exact hiff

/-- **Both formats.** An instruction is decoded the same with either file, and a log is, unless its
payload is a stray one: a codec is called for that with the root node, and with the Anchor IDL there is
none to call. -/
theorem formats_decode_alike_iff (h : Converted codecs idl root)
    (hidl : idls programId = .value (.anchor idl)) (hidl' : idls' programId = .value (.root root)) :
    (∀ inst : SolanaInstruction, getProgramId inst = some programId →
      idls.decodeInstruction codecs inst = idls'.decodeInstruction codecs inst) ∧
    ∀ log : SolanaLogMessage, log.programId = some programId →
      (idls.logInput codecs log = idls'.logInput codecs log ↔
        ¬Stray codecs idl root (logPayload codecs log.message)) ∧
      (¬Stray codecs idl root (logPayload codecs log.message) →
        idls.decodeLog codecs log = idls'.decodeLog codecs log) := by
  refine ⟨fun inst hprogram => ?_, fun log hprogram => ?_⟩
  · rw [decodeInstruction_of_idl hidl hprogram h.parseIdl_anchor,
      decodeInstruction_of_idl hidl' hprogram h.file]
  · have hiff := logInput_eq_iff h hidl hidl' hprogram
    refine ⟨hiff, fun hstray => ?_⟩
    rw [Idls.decodeLog_eq, Idls.decodeLog_eq, hiff.mpr hstray]

end

end

/-! ## A transfer, and a type that is no event -/

namespace TransferEvent

def mapFirst (f : Char → Char) (name : String) : String :=
  match name.toList with
  | [] => name
  | c :: rest => String.ofList (f c :: rest)

/-- The hashes of the four names that there are. -/
def sha256 (name : String) : List UInt8 :=
  if name = "event:Transfer" then
    bytesOfHex "19121707ac74821c58dfca9ef118a8b25f6f9d61d7b6eb07826ff6de94ba85b0".toList
  else if name = "event:transfer" then
    bytesOfHex "d1cea5397755bbee15f256b1646cbd41dce45f293bd0f386b684beadc6928a63".toList
  else if name = "event:Config" then
    bytesOfHex "bddb2730e8a513f83325fd4cade40332fad907ecda0d4784366e4cadac297c42".toList
  else if name = "event:config" then
    bytesOfHex "638071c9eb5a65f5b525ec7329169b93703e6e75b971feca7630ac714d470479".toList
  else List.replicate 32 0

def idl : AnchorIdl where
  «metadata» := some (some "0.1.0")
  events := some [⟨"Transfer", [25, 18, 23, 7, 172, 116, 130, 28]⟩]
  json := "{}"

def root : RootNode :=
  ⟨⟨"token", "T0ken", [], [⟨"transfer", .other "{}"⟩, ⟨"config", .other "{}"⟩]⟩⟩

def codecs : Codecs (List UInt8) where
  toCodama := { plainCodama with
    camelCase := mapFirst Char.toLower
    pascalCase := mapFirst Char.toUpper
    rootNodeFromAnchor
      | .anchor _ => .ok root
      | .root _ => .ok ⟨⟨"", "", [], []⟩⟩ }
  bs58decode := Base58.decode
  sha256 := sha256
  decode _ _ bytes := .ok [("input", bytes)]

theorem converted : Converted codecs idl root where
  spec := rfl
  made := rfl
  address := by decide
  file := rfl
  size name := by
    show ((sha256 _).take 8).length = 8
    unfold sha256
    repeat' split
    all_goals rfl
  discriminator := by decide +kernel
  casing := by decide +kernel
  distinct := by decide +kernel

def anchorIdls : Idls := fun _ => .value (.anchor idl)

def rootIdls : Idls := fun _ => .value (.root root)

def log (payload : String) : SolanaLogMessage where
  message := programData ++ payload
  programId := some "T0ken"
  logIndex := .number 0
  type := .data
  decodedMessage := .decodeLog

/-- The transfer is decoded alike, and a config is decoded with the root node only. -/
theorem transfer_decoded_alike :
    anchorIdls.decodeLog codecs (log "GRIXB6x0ghwH") =
        rootIdls.decodeLog codecs (log "GRIXB6x0ghwH") ∧
      anchorIdls.logInput codecs (log "vdsnMOilE/gH") ≠
        rootIdls.logInput codecs (log "vdsnMOilE/gH") := by
  have halike := formats_decode_alike_iff converted
    (show anchorIdls "T0ken" = .value (.anchor idl) from rfl)
    (show rootIdls "T0ken" = .value (.root root) from rfl)
  have htransfer : ¬Stray codecs idl root (logPayload codecs (log "GRIXB6x0ghwH").message) := by
    rintro ⟨hnone, -⟩
    exact hnone ⟨"Transfer", [25, 18, 23, 7, 172, 116, 130, 28]⟩ (by decide) (by decide +kernel)
  have hconfig : Stray codecs idl root (logPayload codecs (log "vdsnMOilE/gH").message) :=
    ⟨by decide +kernel, ⟨"config", .other "{}"⟩, by decide, .inr (by decide +kernel)⟩
  exact ⟨(halike.2 _ rfl).2 htransfer, fun heq => (halike.2 _ rfl).1.mp heq hconfig⟩

end TransferEvent

end SubqlSolana
