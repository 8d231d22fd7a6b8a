import SubqlSolana.Solana.Idl

/-!
# Decoding instructions and logs

`solana/decoder.ts`, from the text of a payload to what the codec is given: the bytes, and the node of
the IDL that says what they are. The text may be base58 or base64, and **which of the two it is, is
guessed from the text**: `basedToBuffer` takes it for base58 if it can.

What the codec makes of the bytes is its own business: it is one of the packages.
-/

set_option autoImplicit false

namespace SubqlSolana

open Lib

inductive EncodableNode where
  | instructionNode (node : InstructionNode)
  | definedTypeNode (node : DefinedTypeNode)
  deriving Repr, DecidableEq

def EncodableNode.name : EncodableNode → String
  | instructionNode node => node.name
  | definedTypeNode node => node.name

/-- A value that was decoded, field by field. -/
structure DecodedData (V : Type) where
  data : List (String × V)
  name : String
  deriving Repr, DecidableEq

/-- What else is called of packages: `bs58`, the hash of `node:crypto`, and the codecs of Codama. -/
structure Codecs (V : Type) extends Codama where
  bs58decode : String → Except String (List UInt8)
  sha256 : String → List UInt8
  /-- `getNodeCodec([root, root.program, node]).decode(buffer)`. -/
  decode : RootNode → EncodableNode → List UInt8 → Except String (List (String × V))

section

variable {V : Type} (codecs : Codecs V)

/-- The first 8 bytes of the hash of an event's name. -/
def getDiscriminator (name : String) : List UInt8 := (codecs.sha256 s!"event:{name}").take 8

/-- Converts a base58 or base64 string to bytes. -/
def basedToBuffer (input : String) : List UInt8 :=
  match codecs.bs58decode input with
  | .ok bytes => bytes
  | .error _ => Base64.decode input

/-- `decodeData`, up to the codec: the node that was found for a payload, and the payload. -/
def codecInput (idl : IdlDocument) (data : String)
    (getEncodableNode : RootNode → List UInt8 → Option EncodableNode) :
    Except String (Option (RootNode × EncodableNode × List UInt8)) := do
  let root ← parseIdl codecs.toCodama idl
  let buffer := basedToBuffer codecs data
  pure ((getEncodableNode root buffer).map fun node => (root, node, buffer))

/-- The codec is called, and the discriminator is stripped. -/
def runCodec : Option (RootNode × EncodableNode × List UInt8) → Option (DecodedData V)
  | none => none
  | some (root, node, buffer) =>
    match codecs.decode root node buffer with
    | .ok decoded => some ⟨decoded.filter fun field => field.1 ≠ "discriminator", node.name⟩
    | .error _ => none

def decodeData (idl : IdlDocument) (data : String)
    (getEncodableNode : RootNode → List UInt8 → Option EncodableNode) :
    Except String (Option (DecodedData V)) := do
  pure (runCodec codecs (← codecInput codecs idl data getEncodableNode))

/-! ## Instructions -/

/-- The data begins with the discriminator of the instruction, if it has one. -/
def beginsWithDiscriminatorOf (codama : Codama) (data : List UInt8) (inst : InstructionNode) : Bool :=
  match getInstructionDiscriminatorBytes codama inst with
  | .ok bytes => bytes.isPrefixOf data
  | .error _ => false

def findInstructionForData (codama : Codama) (rootNode : RootNode) (data : List UInt8) :
    Option InstructionNode :=
  rootNode.program.instructions.find? (beginsWithDiscriminatorOf codama data)

def encodableInstruction (codama : Codama) (rootNode : RootNode) (data : List UInt8) :
    Option EncodableNode :=
  (findInstructionForData codama rootNode data).map .instructionNode

def decodeInstruction (idl : IdlDocument) (data : String) :
    Except String (Option (DecodedData V)) :=
  decodeData codecs idl data (encodableInstruction codecs.toCodama)

/-! ## Logs -/

/-- `text.replace(pattern, '')`, which replaces one occurrence. -/
def replaceFirst (pattern : List Char) : List Char → List Char
  | [] => []
  | c :: text =>
    if pattern.isPrefixOf (c :: text) then (c :: text).drop pattern.length
    else c :: replaceFirst pattern text

def programData : String := "Program data: "

/-- `(idl.metadata as {spec?: string}).spec`. -/
def IdlDocument.spec : IdlDocument → Except String (Option String)
  | anchor idl =>
    match idl.metadata with
    | some spec => .ok spec
    | none => .error "Cannot read properties of undefined (reading 'spec')"
  | root _ => .error "Cannot read properties of undefined (reading 'spec')"

def isAnchorIdlV01 (idl : IdlDocument) : Except String Bool := do
  if idl.isAnchorIdl then pure ((← idl.spec) = some "0.1.0") else pure false

/-- `idl.events`. -/
def IdlDocument.events : IdlDocument → List AnchorEvent
  | anchor idl => idl.events.getD []
  | root _ => []

/-- What is left of the bytes of a log when the discriminator is taken off, and the type that it says
they are. -/
def splitLog (idl : IdlDocument) (msgBuffer : List UInt8) :
    Except String (Option (List UInt8 × (RootNode → Option DefinedTypeNode))) := do
  if !idl.isAnchorIdl then
    -- not enough data for a discriminator
    if msgBuffer.length < 8 then pure none
    else
      let logDisc := msgBuffer.take 8
      pure (some (msgBuffer.drop 8, fun root => root.program.definedTypes.find? fun t =>
        (getDiscriminator codecs t.name).isPrefixOf logDisc ||
          (getDiscriminator codecs (codecs.pascalCase t.name)).isPrefixOf logDisc))
  else if !(← isAnchorIdlV01 idl) then
    throw "Only Anchor IDL v0.1.0 is supported for decoding logs"
  else
    match idl.events.find? fun e => e.discriminator.isPrefixOf msgBuffer with
    | none => throw "Unable to find event for log data"
    | some event =>
      pure (some (msgBuffer.drop event.discriminator.length, fun root =>
        root.program.definedTypes.find? fun t =>
          t.name = event.name || t.name = codecs.camelCase event.name))

/-- `decodeLog`, up to the codec. -/
def logCodecInput (idl : IdlDocument) (message : String) :
    Except String (Option (RootNode × EncodableNode × List UInt8)) := do
  let msgData := String.ofList (replaceFirst programData.toList message.toList)
  match ← splitLog codecs idl (basedToBuffer codecs msgData) with
  | none => pure none
  | some (data, findType) =>
    codecInput codecs idl (Base64.encode data) fun root _ =>
      (findType root).map .definedTypeNode

def decodeLog (idl : IdlDocument) (message : String) : Except String (Option (DecodedData V)) := do
  pure (runCodec codecs (← logCodecInput codecs idl message))

end

/-- The packages, with a codec that gives back what it is given. -/
def plainCodecs : Codecs (List UInt8) where
  toCodama := plainCodama
  bs58decode := Base58.decode
  sha256 name := name.toUTF8.data.toList
  decode _ _ bytes := .ok [("input", bytes)]

theorem replaceFirst_append {pattern : List Char} (text : List Char) (h : pattern ≠ []) :
    replaceFirst pattern (pattern ++ text) = text := by
  cases pattern with
  | nil => exact absurd rfl h
  | cons c pattern =>
    rw [List.cons_append, replaceFirst, ← List.cons_append]
    rw [if_pos (List.isPrefixOf_iff_prefix.mpr (List.prefix_append _ _)), List.drop_left]

end SubqlSolana
