import SubqlSolana.Solana.Decoding
import SubqlSolana.Solana.InstructionFilter
import SubqlSolana.Solana.InstructionLookup
import SubqlSolana.Solana.Payloads

/-!
# Filters by name, and what their handlers decode

A manifest selects instructions by the name that they have in the IDL. `filterInstructionsProcessor`
(`solana/utils.solana.ts`) takes the discriminator of that instruction and compares it with the data;
the decoder (`solana/decoder.ts`) goes the other way, and takes the first instruction of the IDL whose
discriminator the data begins with. The handler of the filter gets what the decoder makes of it.

The two can only differ where an instruction stands in front of the one that was named. **They agree on
every instruction of the program exactly if no discriminator in front of the named one is comparable with
it**, as a prefix of it or the other way round (`name_filter_decodes_iff`).
-/

set_option autoImplicit false

namespace SubqlSolana

open Lib

/-! ## A name in an IDL -/

/-- What a name stands for: the first instruction that is called so, in its own place. -/
structure StandsFor (codama : Codama) (root : RootNode) (name : String)
    (before : List InstructionNode) (node : InstructionNode) (disc : List UInt8) : Prop where
  split : ∃ after, root.program.instructions = before ++ node :: after
  isNamed : node.isNamed codama name = true
  others : ∀ other ∈ before, other.isNamed codama name = false
  discriminator : getInstructionDiscriminatorBytes codama node = .ok disc

section

variable {codama : Codama} {root : RootNode} {name : String} {before : List InstructionNode}
  {node other : InstructionNode} {disc data : List UInt8}

theorem StandsFor.findByName (h : StandsFor codama root name before node disc) :
    findInstructionDiscriminatorByName codama root name = some disc := by
  obtain ⟨after, hsplit⟩ := h.split
  have hfound : root.program.instructions.find? (InstructionNode.isNamed codama name) =
      some node := by
    rw [List.find?_eq_some_iff_append]
    exact ⟨h.isNamed, before, after, hsplit, fun other hother => by simp [h.others other hother]⟩
  rw [findInstructionDiscriminatorByName, hfound]
  dsimp only
  rw [h.discriminator]
  rfl

/-- It is not what is found for data that an instruction in front of it matches. -/
theorem StandsFor.not_found (h : StandsFor codama root name before node disc)
    (hother : other ∈ before) (hmatches : other.Matches codama data) :
    findInstructionForData codama root data ≠ some node := by
  intro hfound
  obtain ⟨after, hsplit⟩ := h.split
  unfold findInstructionForData at hfound
  rw [hsplit, List.find?_append] at hfound
  cases hfirst : before.find? (beginsWithDiscriminatorOf codama data) with
  | none =>
    have hnot := List.find?_eq_none.mp hfirst other hother
    exact hnot (beginsWithDiscriminatorOf_iff.mpr hmatches)
  | some first =>
    rw [hfirst] at hfound
    cases hfound
    have hnot := h.others node (List.mem_of_find?_eq_some hfirst)
    rw [h.isNamed] at hnot
    cases hnot

/-- The instruction has a discriminator that begins with the other one, or the other way round. -/
def Comparable (codama : Codama) (node : InstructionNode) (disc : List UInt8) : Prop :=
  ∃ bytes, getInstructionDiscriminatorBytes codama node = .ok bytes ∧
    (bytes <+: disc ∨ disc <+: bytes)

/-- Some data begins with both discriminators exactly if they are comparable. -/
theorem comparable_iff :
    Comparable codama node disc ↔ ∃ data, disc <+: data ∧ node.Matches codama data := by
  constructor
  · rintro ⟨bytes, hbytes, hprefix | hprefix⟩
    · exact ⟨disc, List.prefix_rfl, matches_iff.mpr ⟨bytes, hbytes, hprefix⟩⟩
    · exact ⟨bytes, hprefix, matches_iff.mpr ⟨bytes, hbytes, List.prefix_rfl⟩⟩
  · rintro ⟨data, hdisc, hmatches⟩
    obtain ⟨bytes, hbytes, hprefix⟩ := matches_iff.mp hmatches
    exact ⟨bytes, hbytes, List.prefix_or_prefix_of_prefix hprefix hdisc⟩

end

/-! ## The filter and the decoder -/

def nameFilter (programId name : String) : HandlerFilter where
  programId := .value programId
  discriminator := .value name

/-- The codec is called with the data of the instruction, and told that it is this one of the IDL. -/
def DecodedAs {V : Type} (codecs : Codecs V) (idl : IdlDocument) (root : RootNode)
    (node : InstructionNode) (inst : SolanaInstruction) : Prop :=
  codecInput codecs idl inst.data (encodableInstruction codecs.toCodama) =
    .ok (some (root, .instructionNode node, basedToBuffer codecs inst.data))

section

variable {V : Type} {codecs : Codecs V} {isHex : String → Bool} {idls : Idls} {idl : IdlDocument}
  {root : RootNode} {programId name : String} {before : List InstructionNode} {node : InstructionNode}
  {disc data : List UInt8} {inst : SolanaInstruction}

theorem basedToBuffer_of_bs58 {text : String} (h : codecs.bs58decode text = .ok data) :
    basedToBuffer codecs text = data := by
  unfold basedToBuffer
  rw [h]

theorem decodedAs_iff (hroot : parseIdl codecs.toCodama idl = .ok root)
    (hdata : codecs.bs58decode inst.data = .ok data) : DecodedAs codecs idl root node inst ↔
      findInstructionForData codecs.toCodama root data = some node := by
  unfold DecodedAs
  rw [codecInput_of_text (basedToBuffer_of_bs58 hdata), basedToBuffer_of_bs58 hdata, hroot, ok_bind,
    encodableInstruction]
  cases findInstructionForData codecs.toCodama root data with
  | none => simp [pure, Except.pure]
  | some found => simp [pure, Except.pure]

theorem parseDiscriminator_of_name (hidl : idls programId = .value idl)
    (hroot : parseIdl codecs.toCodama idl = .ok root)
    (hname : StandsFor codecs.toCodama root name before node disc) (hhex : isHex name = false) :
    ((codecs.parsers isHex).decoder idls).parseDiscriminator name programId = .ok disc := by
  have hfound : (idls programId).toOption = some idl := by
    rw [hidl]
    rfl
  have hnot : ¬(codecs.parsers isHex).isHex name = true := by simp [Codecs.parsers, hhex]
  refine (ParseCall.body_of_idl hnot hfound).trans ?_
  simp only [Parsers.resolve, IdlDocument.toIdl, Codecs.parsers, hroot, Except.map, ok_bind,
    hname.findByName]
  rfl

/-- An instruction of the program is accepted by its name if its data begins with the discriminator. -/
theorem nameFilter_accepts_iff (hidl : idls programId = .value idl)
    (hroot : parseIdl codecs.toCodama idl = .ok root)
    (hname : StandsFor codecs.toCodama root name before node disc) (hhex : isHex name = false)
    (hnonempty : name ≠ "") (hfailed : inst.failed = false)
    (hprogram : getProgramId inst = some programId) (hdata : codecs.bs58decode inst.data = .ok data) :
    filterInstructionsProcessor ((codecs.parsers isHex).decoder idls) inst
        (some (nameFilter programId name)) = .ok true ↔ disc <+: data := by
  have hdisc := parseDiscriminator_of_name hidl hroot hname hhex
  rw [filterInstructionsProcessor_eq_true_iff]
  constructor
  · intro h
    obtain ⟨disc', data', hdisc', hdata', hprefix⟩ :=
      h.discriminator name (Nullish.text?_eq_some.mpr ⟨rfl, hnonempty⟩)
    rw [hprogram, Option.getD_some, hdisc] at hdisc'
    cases hdisc'
    cases hdata'.symm.trans hdata
    exact hprefix
  · intro hprefix
    refine ⟨.inr hfailed, fun id hid => ?_, fun i allowed hi => ?_, fun input hinput => ?_⟩
    · obtain ⟨hid, -⟩ := Nullish.text?_eq_some.mp hid
      cases hid
      exact hprogram
    · cases hi
    · obtain ⟨hinput, -⟩ := Nullish.text?_eq_some.mp hinput
      cases hinput
      rw [hprogram]
      exact ⟨disc, data, hdisc, hdata, hprefix⟩

/-- An instruction of the program with this data. -/
def instructionOf (bs58 : Bs58 codecs) (programId : String) (data : List UInt8) : SolanaInstruction :=
  wrapInstruction [0] ⟨[], bs58.encode data, 0⟩ ⟨[], [programId], [], none⟩

/-- **When filters by name and the decoder agree.** -/
theorem name_filter_decodes_iff (bs58 : Bs58 codecs) (hidl : idls programId = .value idl)
    (hroot : parseIdl codecs.toCodama idl = .ok root)
    (hname : StandsFor codecs.toCodama root name before node disc) (hhex : isHex name = false)
    (hnonempty : name ≠ "") :
    (∀ inst data, inst.failed = false → getProgramId inst = some programId →
      codecs.bs58decode inst.data = .ok data →
      (filterInstructionsProcessor ((codecs.parsers isHex).decoder idls) inst
        (some (nameFilter programId name)) = .ok true ↔ DecodedAs codecs idl root node inst)) ↔
      ∀ other ∈ before, ¬Comparable codecs.toCodama other disc := by
  obtain ⟨after, hsplit⟩ := hname.split
  -- the two, on an instruction with some data
  have hboth : ∀ inst data, inst.failed = false → getProgramId inst = some programId →
      codecs.bs58decode inst.data = .ok data →
      ((filterInstructionsProcessor ((codecs.parsers isHex).decoder idls) inst
        (some (nameFilter programId name)) = .ok true ↔ DecodedAs codecs idl root node inst) ↔
      (disc <+: data ↔ findInstructionForData codecs.toCodama root data = some node)) := by
    intro inst data hfailed hprogram hdata
    rw [nameFilter_accepts_iff hidl hroot hname hhex hnonempty hfailed hprogram hdata,
      decodedAs_iff hroot hdata]
  constructor
  · intro hagree other hother hcomparable
    obtain ⟨data, hdisc, hmatches⟩ := comparable_iff.mp hcomparable
    have hdata := bs58.decode_encode data
    have hinst := hagree (instructionOf bs58 programId data) data rfl rfl hdata
    have hfound := ((hboth (instructionOf bs58 programId data) data rfl rfl hdata).mp hinst).mp hdisc
    exact hname.not_found hother hmatches hfound
  · intro hincomparable inst data hfailed hprogram hdata
    rw [hboth inst data hfailed hprogram hdata, findInstructionForData_eq_some]
    constructor
    · intro hdisc
      refine ⟨before, after, hsplit, matches_iff.mpr ⟨disc, hname.discriminator, hdisc⟩, ?_⟩
      intro other hother hmatches
      exact hincomparable other hother (comparable_iff.mpr ⟨data, hdisc, hmatches⟩)
    · rintro ⟨-, -, -, hmatches, -⟩
      obtain ⟨bytes, hbytes, hprefix⟩ := matches_iff.mp hmatches
      rw [hname.discriminator] at hbytes
      cases hbytes
      exact hprefix

end

/-! ## Two instructions -/

namespace WideNumbers

def tokenRoot : RootNode := root [transfer, instruction "burn" 2]

def idls : Idls := fun _ => .value (.root tokenRoot)

def isHex (_ : String) : Bool := false

/-- The data of a `burn`. -/
def burn : SolanaInstruction := instructionOf ThreeZeros.bs58 "T0ken" [2]

/-- `burn` stands behind `transfer`, but their discriminators are `2` and `1`. -/
theorem burn_by_name :
    filterInstructionsProcessor ((plainCodecs.parsers isHex).decoder idls) burn
        (some (nameFilter "T0ken" "burn")) = .ok true ∧
      DecodedAs plainCodecs (.root tokenRoot) tokenRoot (instruction "burn" 2) burn := by
  have hburn : StandsFor plainCodecs.toCodama tokenRoot "burn" [transfer] (instruction "burn" 2)
      [2] := by
    refine ⟨⟨[], rfl⟩, by decide, fun other hother => ?_, by decide⟩
    obtain rfl : other = transfer := by simpa using hother
    decide
  have hincomparable : ∀ other ∈ [transfer], ¬Comparable plainCodecs.toCodama other [2] := by
    rintro other hother ⟨bytes, hbytes, hcomparable⟩
    obtain rfl : other = transfer := by simpa using hother
    have htransfer : getInstructionDiscriminatorBytes plainCodama transfer = .ok [1] := by decide
    cases hbytes.symm.trans htransfer
    revert hcomparable
    decide
  have hdecodes := (name_filter_decodes_iff ThreeZeros.bs58
    (show idls "T0ken" = .value (.root tokenRoot) from rfl) rfl hburn
    (show isHex "burn" = false from rfl) (by decide)).mpr hincomparable
  have hdecoded : DecodedAs plainCodecs (.root tokenRoot) tokenRoot (instruction "burn" 2) burn := by
    unfold DecodedAs
    decide +kernel
  exact ⟨(hdecodes burn [2] rfl rfl (by decide +kernel)).mpr hdecoded, hdecoded⟩

end WideNumbers

end SubqlSolana
