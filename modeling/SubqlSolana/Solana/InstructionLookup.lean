import SubqlSolana.Solana.Decoder

/-!
# Which instruction the data belongs to

The data of an instruction begins with its encoded discriminator, written as the codec of the argument's
declared type writes it. `findInstructionForData` does not look at the declared type: it compares the
data with the value of a bytes default, and with **the lowest byte of a number**, and takes the first
instruction of the IDL that begins with what it compares (`Matches`).

So the right instruction is found exactly when it matches and nothing in front of it does
(`picks_iff`), whatever the codec writes. A number that is written lowest byte first matches, and so does
a bytes value (`matches_own`); but an earlier instruction whose number agrees with the data in its lowest
byte only takes its place (`WideNumbers.transfer_is_taken_for_close`).

The codecs of the types are a package. What they write is an `Encoder`, and what is known of it is
`Encoder.Documented`.
-/

set_option autoImplicit false

namespace SubqlSolana

open Lib

/-! ## What an encoder writes -/

/-- The codecs of the types of an IDL: the bytes of a value, if it is one of the type. -/
def Encoder : Type := TypeNode → ValueNode → Option (List UInt8)

/-- The bytes of an integer format. -/
def NumberFormat.size : NumberFormat → Option Nat
  | u8 | i8 => some 1
  | u16 | i16 => some 2
  | u32 | i32 => some 4
  | u64 | i64 => some 8
  | u128 | i128 => some 16
  | other _ => none

def NumberFormat.isSigned : NumberFormat → Bool
  | i8 | i16 | i32 | i64 | i128 => true
  | _ => false

/-- The numbers that fit. -/
def NumberFormat.holds (format : NumberFormat) (size : Nat) (number : Int) : Bool :=
  if format.isSigned then -256 ^ size ≤ 2 * number && 2 * number < 256 ^ size
  else 0 ≤ number && number < 256 ^ size

/-- The lowest byte first, in two's complement. -/
def littleEndian (size : Nat) (number : Int) : List UInt8 :=
  (List.range size).map fun k => UInt8.ofInt (number / 256 ^ k)

/-- What the packages document of two kinds of values: a number that fits its little-endian format, and
bytes. -/
structure Encoder.Documented (codama : Codama) (encode : Encoder) : Prop where
  number : ∀ {format size number}, NumberFormat.size format = some size →
    format.holds size number = true →
    encode (.numberTypeNode format .le) (.numberValueNode number) = some (littleEndian size number)
  bytes : ∀ {value bytes}, getBytesFromBytesValueNode codama value = .ok bytes →
    encode .bytesTypeNode (.bytesValueNode value) = some bytes

/-- The encoded discriminator of an instruction, if it has a default that its type can encode. -/
def InstructionNode.encodedDiscriminator (encode : Encoder) (node : InstructionNode) :
    Option (List UInt8) := do
  let discArg ← node.discriminatorArgument
  let value ← discArg.defaultValue
  encode discArg.type value

/-! ## What the lookup compares -/

/-- The data begins with the value of the default; of a number, with its lowest byte. -/
def InstructionNode.Matches (codama : Codama) (node : InstructionNode) (data : List UInt8) : Prop :=
  match node.discriminatorArgument.bind InstructionArgumentNode.defaultValue with
  | some (.numberValueNode number) => data.head? = some (UInt8.ofInt number)
  | some (.bytesValueNode value) =>
    ∃ bytes, getBytesFromBytesValueNode codama value = .ok bytes ∧ bytes <+: data
  | _ => False

variable {codama : Codama} {node : InstructionNode}

theorem matches_iff {data : List UInt8} : node.Matches codama data ↔
    ∃ bytes, getInstructionDiscriminatorBytes codama node = .ok bytes ∧ bytes <+: data := by
  unfold InstructionNode.Matches getInstructionDiscriminatorBytes
  cases node.discriminatorArgument with
  | none => simp
  | some discArg =>
    simp only [Option.bind_some]
    cases discArg.defaultValue with
    | none => simp
    | some value =>
      cases value with
      | numberValueNode number => cases data <;> simp [eq_comm]
      | bytesValueNode value => simp
      | other kind => simp

theorem beginsWithDiscriminatorOf_iff {data : List UInt8} :
    beginsWithDiscriminatorOf codama data node = true ↔ node.Matches codama data := by
  rw [matches_iff, beginsWithDiscriminatorOf]
  cases getInstructionDiscriminatorBytes codama node <;> simp

instance (data : List UInt8) : Decidable (node.Matches codama data) :=
  decidable_of_iff _ beginsWithDiscriminatorOf_iff

theorem head_littleEndian {size : Nat} (number : Int) (h : 0 < size) :
    (littleEndian size number).head? = some (UInt8.ofInt number) := by
  cases size with
  | zero => cases h
  | succ size => simp [littleEndian, List.range_succ_eq_map]

theorem NumberFormat.size_pos {format : NumberFormat} {size : Nat} (h : format.size = some size) :
    0 < size := by
  cases format <;> cases h <;> decide

/-- The discriminator of the instruction is of a kind whose encoding is documented. -/
inductive InstructionNode.PlainDiscriminator (codama : Codama) (node : InstructionNode) : Prop where
  | number {discArg : InstructionArgumentNode} {format : NumberFormat} {size : Nat} {number : Int}
      (harg : node.discriminatorArgument = some discArg)
      (htype : discArg.type = .numberTypeNode format .le)
      (hvalue : discArg.defaultValue = some (.numberValueNode number))
      (hsize : format.size = some size) (hfits : format.holds size number = true) :
      node.PlainDiscriminator codama
  | bytes {discArg : InstructionArgumentNode} {value : BytesValueNode} {bytes : List UInt8}
      (harg : node.discriminatorArgument = some discArg) (htype : discArg.type = .bytesTypeNode)
      (hvalue : discArg.defaultValue = some (.bytesValueNode value))
      (hbytes : getBytesFromBytesValueNode codama value = .ok bytes) : node.PlainDiscriminator codama

/-- **Such an instruction matches its own data.** -/
theorem matches_own {encode : Encoder} (hencode : encode.Documented codama)
    (hplain : node.PlainDiscriminator codama) {encoded : List UInt8}
    (henc : node.encodedDiscriminator encode = some encoded) (rest : List UInt8) :
    node.Matches codama (encoded ++ rest) := by
  unfold InstructionNode.encodedDiscriminator at henc
  unfold InstructionNode.Matches
  cases hplain with
  | number harg htype hvalue hsize hfits =>
    simp only [harg, htype, hvalue, hencode.number hsize hfits, Option.bind_eq_bind,
      Option.bind_some, Option.some.injEq] at henc ⊢
    rw [← henc, List.head?_append, head_littleEndian _ (NumberFormat.size_pos hsize)]
    rfl
  | bytes harg htype hvalue hbytes =>
    simp only [harg, htype, hvalue, hencode.bytes hbytes, Option.bind_eq_bind, Option.bind_some,
      Option.some.injEq] at henc ⊢
    exact ⟨encoded, henc ▸ hbytes, List.prefix_append _ _⟩

/-! ## The lookup -/

theorem findInstructionForData_eq_some {rootNode : RootNode} {data : List UInt8} :
    findInstructionForData codama rootNode data = some node ↔
      ∃ before after, rootNode.program.instructions = before ++ node :: after ∧
        node.Matches codama data ∧ ∀ other ∈ before, ¬other.Matches codama data := by
  unfold findInstructionForData
  rw [List.find?_eq_some_iff_append, beginsWithDiscriminatorOf_iff]
  constructor
  · rintro ⟨hmatches, before, after, hsplit, hbefore⟩
    refine ⟨before, after, hsplit, hmatches, fun other hother h => ?_⟩
    have hfalse := hbefore other hother
    rw [beginsWithDiscriminatorOf_iff.mpr h] at hfalse
    cases hfalse
  · rintro ⟨before, after, hsplit, hmatches, hbefore⟩
    refine ⟨hmatches, before, after, hsplit, fun other hother => ?_⟩
    rw [Bool.not_eq_true', Bool.eq_false_iff]
    exact fun h => hbefore other hother (beginsWithDiscriminatorOf_iff.mp h)

/-- What is expected of the lookup: it finds the instruction, and nothing is decoded under the name of
another one. -/
structure Picks {V : Type} (codecs : Codecs V) (rootNode : RootNode) (node : InstructionNode)
    (data : List UInt8) : Prop where
  found : findInstructionForData codecs.toCodama rootNode data = some node
  named : ∀ (idl : IdlDocument) (text : String) (decoded : DecodedData V),
    parseIdl codecs.toCodama idl = .ok rootNode → basedToBuffer codecs text = data →
      decodeInstruction codecs idl text = .ok (some decoded) → decoded.name = node.name

theorem name_of_runCodec {V : Type} {codecs : Codecs V} {root : RootNode} {found : EncodableNode}
    {buffer : List UInt8} {decoded : DecodedData V}
    (h : runCodec codecs (some (root, found, buffer)) = some decoded) :
    decoded.name = found.name := by
  unfold runCodec at h
  dsimp only at h
  split at h <;> cases h
  rfl

theorem Picks.of_found {V : Type} {codecs : Codecs V} {rootNode : RootNode} {data : List UInt8}
    (h : findInstructionForData codecs.toCodama rootNode data = some node) :
    Picks codecs rootNode node data where
  found := h
  named idl text decoded hroot hdata hdecoded := by
    have hinput : codecInput codecs idl text (encodableInstruction codecs.toCodama) =
        .ok (some (rootNode, .instructionNode node, data)) := by
      simp only [codecInput, hroot, hdata, encodableInstruction]
      show Except.ok ((Option.map _ (findInstructionForData codecs.toCodama rootNode data)).map _) = _
      rw [h]
      rfl
    rw [decodeInstruction, decodeData, hinput] at hdecoded
    exact name_of_runCodec (Except.ok.inj hdecoded)

/-- **When the lookup picks the encoded instruction.** -/
theorem picks_iff {V : Type} {codecs : Codecs V} {encode : Encoder} {rootNode : RootNode}
    {before after : List InstructionNode} {encoded rest : List UInt8}
    (hsplit : rootNode.program.instructions = before ++ node :: after)
    (henc : node.encodedDiscriminator encode = some encoded)
    (hothers : ∀ other ∈ before ++ after, ∀ bytes,
      other.encodedDiscriminator encode = some bytes → ¬bytes <+: encoded ++ rest) :
    Picks codecs rootNode node (encoded ++ rest) ↔
      node.Matches codecs.toCodama (encoded ++ rest) ∧
        ∀ other ∈ before, ¬other.Matches codecs.toCodama (encoded ++ rest) := by
  constructor
  · intro h
    obtain ⟨before', after', hsplit', hmatches, hbefore⟩ :=
      findInstructionForData_eq_some.mp h.found
    refine ⟨hmatches, fun other hother => hbefore other ?_⟩
    -- the instruction that was found is not one of those in front
    have hnot : node ∉ before := fun hmem =>
      hothers node (List.mem_append_left _ hmem) encoded henc (List.prefix_append _ _)
    rw [hsplit'] at hsplit
    rcases List.append_eq_append_iff.mp hsplit with ⟨middle, hsplit, htail⟩ | ⟨middle, hsplit, -⟩
    · cases middle with
      | nil =>
        rw [hsplit, List.append_nil] at hother
        exact hother
      | cons first middle =>
        obtain rfl : node = first := (List.cons.inj htail).1
        exact absurd (by rw [hsplit]; simp) hnot
    · rw [hsplit]
      exact List.mem_append_left _ hother
  · rintro ⟨hmatches, hbefore⟩
    exact .of_found (findInstructionForData_eq_some.mpr ⟨before, after, hsplit, hmatches, hbefore⟩)

/-! ## Numbers of two bytes -/

namespace WideNumbers

/-- An instruction with a `u16` for a discriminator. -/
def instruction (name : String) (number : Int) : InstructionNode where
  name := name
  arguments := [⟨"discriminator", .numberTypeNode .u16 .le, some (.numberValueNode number)⟩]

def close : InstructionNode := instruction "close" 257
def transfer : InstructionNode := instruction "transfer" 1

def root (instructions : List InstructionNode) : RootNode := ⟨⟨"token", "T0ken", instructions, []⟩⟩

/-- A codec for the two kinds of values. -/
def encoder : Encoder
  | .numberTypeNode format .le, .numberValueNode number => do
    let size ← format.size
    if format.holds size number then some (littleEndian size number) else none
  | .bytesTypeNode, .bytesValueNode value => (getBytesFromBytesValueNode plainCodama value).toOption
  | _, _ => none

theorem encoder_documented : encoder.Documented plainCodama where
  number hsize hfits := by
    show (Option.bind _ _) = _
    rw [hsize, Option.bind_some, if_pos hfits]
  bytes {value bytes} hbytes := by
    show (getBytesFromBytesValueNode plainCodama value).toOption = some bytes
    rw [hbytes]
    rfl

/-- With `transfer` in front of it, an instruction `burn` of number 2 is found. -/
theorem picks_burn :
    Picks plainCodecs (root [transfer, instruction "burn" 2]) (instruction "burn" 2) [2, 0, 7] := by
  have hsplit : (root [transfer, instruction "burn" 2]).program.instructions =
      [transfer] ++ instruction "burn" 2 :: [] := rfl
  have hencoded : (instruction "burn" 2).encodedDiscriminator encoder = some [2, 0] := by decide
  have hplain : (instruction "burn" 2).PlainDiscriminator plainCodama :=
    .number rfl rfl rfl rfl (by decide)
  refine (picks_iff hsplit hencoded ?_).mpr ⟨matches_own encoder_documented hplain hencoded [7], ?_⟩
  · intro other hother bytes hbytes
    obtain rfl : other = transfer := by simpa using hother
    have htransfer : transfer.encodedDiscriminator encoder = some [1, 0] := by decide
    cases hbytes.symm.trans htransfer
    decide
  · intro other hother
    obtain rfl : other = transfer := by simpa using hother
    decide

/-- **Only the lowest byte is compared.** The data is that of `transfer`, but `close`, whose number is
257, comes first in the IDL. -/
theorem transfer_is_taken_for_close :
    ¬∀ (codecs : Codecs (List UInt8)) (encode : Encoder) (rootNode : RootNode)
      (node : InstructionNode) (before after : List InstructionNode) (encoded rest : List UInt8),
      encode.Documented codecs.toCodama →
      rootNode.program.instructions = before ++ node :: after →
      node.encodedDiscriminator encode = some encoded →
      (∀ other ∈ before ++ after, ∀ bytes,
        other.encodedDiscriminator encode = some bytes → ¬bytes <+: encoded ++ rest) →
      Picks codecs rootNode node (encoded ++ rest) := by
  intro h
  have hclose : close.encodedDiscriminator encoder = some [1, 1] := by decide
  have hpicks := h plainCodecs encoder (root [close, transfer]) transfer [close] [] [1, 0] []
    encoder_documented rfl (by decide)
  have hfound := (hpicks fun other hother bytes hbytes => by
    obtain rfl : other = close := by simpa using hother
    cases hbytes.symm.trans hclose
    decide).found
  revert hfound
  decide

end WideNumbers

end SubqlSolana
