import SubqlSolana.Lib.Base58
import SubqlSolana.Lib.Base64
import SubqlSolana.Lib.Fallible
import SubqlSolana.Solana.Handlers

/-!
# IDLs

An IDL as it is loaded from a file, the Codama root node that is made of it, and how an instruction is
found in a root node by its name (`codegen/idl.ts`).

The first bytes of an instruction's data say which instruction it is. An IDL has them as the default
value of an argument with the name `discriminator`: a bytes value, whose text is in one of four
encodings, or a number. **Of a number only the lowest byte is taken, whatever its type**
(`discriminatorBytes_number`).

Codama itself and the codecs are packages; what the code calls of them is a `Codama`.
-/

set_option autoImplicit false

namespace SubqlSolana

open Lib

/-! ## Nodes

The nodes of a Codama root as far as they are read here. A type or a value of another kind is its JSON
text. -/

inductive BytesEncoding where
  | utf8
  | base16
  | base58
  | base64
  deriving Repr, DecidableEq

structure BytesValueNode where
  encoding : BytesEncoding
  data : String
  deriving Repr, DecidableEq

inductive ValueNode where
  | numberValueNode (number : Int)
  | bytesValueNode (node : BytesValueNode)
  | other (kind : String)
  deriving Repr, DecidableEq

inductive NumberFormat where
  | u8 | u16 | u32 | u64 | u128
  | i8 | i16 | i32 | i64 | i128
  | other (format : String)
  deriving Repr, DecidableEq

inductive Endian where
  | be
  | le
  deriving Repr, DecidableEq

inductive TypeNode where
  | numberTypeNode (format : NumberFormat) (endian : Endian)
  | bytesTypeNode
  | fixedSizeTypeNode (size : Nat) (type : TypeNode)
  | other (json : String)
  deriving Repr, DecidableEq

structure InstructionArgumentNode where
  name : String
  type : TypeNode
  defaultValue : Option ValueNode
  deriving Repr, DecidableEq

structure InstructionNode where
  name : String
  arguments : List InstructionArgumentNode
  deriving Repr, DecidableEq

structure DefinedTypeNode where
  name : String
  type : TypeNode
  deriving Repr, DecidableEq

structure ProgramNode where
  name : String
  publicKey : String
  instructions : List InstructionNode
  definedTypes : List DefinedTypeNode
  deriving Repr, DecidableEq

structure RootNode where
  program : ProgramNode
  deriving Repr, DecidableEq

/-! ## Documents -/

structure AnchorEvent where
  name : String
  discriminator : List UInt8
  deriving Repr, DecidableEq

/-- The JSON of an Anchor IDL. -/
structure AnchorIdl where
  /-- `metadata?.spec`; before version 0.1.0 there may be no `metadata`. -/
  «metadata» : Option (Option String)
  events : Option (List AnchorEvent)
  /-- All of it, as a text. -/
  json : String
  deriving Repr, DecidableEq

/-- The JSON of an IDL file: `AnchorIdl | RootNode`. -/
inductive IdlDocument where
  | anchor (idl : AnchorIdl)
  | root (node : RootNode)
  deriving Repr, DecidableEq

namespace IdlDocument

/-- `isRootNode`. -/
def isRootNode : IdlDocument → Bool
  | anchor _ => false
  | root node => node.program.publicKey != ""

def isAnchorIdl (idl : IdlDocument) : Bool := !idl.isRootNode

end IdlDocument

/-! ## The packages -/

/-- What is called of `codama`, `@codama/nodes-from-anchor` and `@solana/codecs-strings`. -/
structure Codama where
  camelCase : String → String
  pascalCase : String → String
  rootNodeFromAnchor : IdlDocument → Except String RootNode
  /-- `createFromRoot(idl as RootNode).getRoot()`. -/
  createFromRoot : IdlDocument → Except String RootNode
  getUtf8Encoder : String → Except String (List UInt8)
  getBase16Encoder : String → Except String (List UInt8)
  getBase58Encoder : String → Except String (List UInt8)
  getBase64Encoder : String → Except String (List UInt8)

/-- `parseIdl(idl).getRoot()`: whatever comes out without a program address was not an Anchor IDL. -/
def parseIdl (codama : Codama) (idl : IdlDocument) : Except String RootNode := do
  let root ← codama.rootNodeFromAnchor idl
  if root.program.publicKey = "" then codama.createFromRoot idl else pure root

/-! ## Discriminators -/

def getBytesFromBytesValueNode (codama : Codama) (node : BytesValueNode) :
    Except String (List UInt8) :=
  match node.encoding with
  | .utf8 => codama.getUtf8Encoder node.data
  | .base16 => codama.getBase16Encoder node.data
  | .base58 => codama.getBase58Encoder node.data
  | .base64 => codama.getBase64Encoder node.data

/-- The argument that holds the discriminator. -/
def InstructionNode.discriminatorArgument (node : InstructionNode) :
    Option InstructionArgumentNode :=
  node.arguments.find? fun arg => arg.name = "discriminator"

def getInstructionDiscriminatorBytes (codama : Codama) (node : InstructionNode) :
    Except String (List UInt8) :=
  match node.discriminatorArgument with
  | none => .error s!"Instruction {node.name} does not have a discriminator"
  | some discArg =>
    match discArg.defaultValue with
    | some (.numberValueNode number) => .ok [UInt8.ofInt number]
    | some (.bytesValueNode value) => getBytesFromBytesValueNode codama value
    | none => .error s!"Unable to find discriminator for instruction {node.name}"
    | some (.other kind) => .error s!"Unable to handle unknown discriminator type {kind}"

/-- The name of the instruction, as it is or in camel case. -/
def InstructionNode.isNamed (codama : Codama) (name : String) (inst : InstructionNode) : Bool :=
  inst.name = name || inst.name = codama.camelCase name

def findInstructionDiscriminatorByName (codama : Codama) (rootNode : RootNode) (name : String) :
    Option (List UInt8) :=
  match rootNode.program.instructions.find? (InstructionNode.isNamed codama name) with
  | none => none
  | some inst => (getInstructionDiscriminatorBytes codama inst).toOption

theorem discriminatorBytes_number {codama : Codama} {node : InstructionNode}
    {discArg : InstructionArgumentNode} {number : Int}
    (harg : node.discriminatorArgument = some discArg)
    (hnumber : discArg.defaultValue = some (.numberValueNode number)) :
    getInstructionDiscriminatorBytes codama node = .ok [UInt8.ofInt number] := by
  unfold getInstructionDiscriminatorBytes
  rw [harg]
  dsimp only
  rw [hnumber]

/-- An IDL as the decoder uses it: what is found in the root that is parsed from it. -/
def IdlDocument.toIdl (codama : Codama) (idl : IdlDocument) : Idl where
  findInstructionDiscriminatorByName name :=
    (parseIdl codama idl).map fun root => findInstructionDiscriminatorByName codama root name

/-! ## Data sources with assets -/

structure FileReference where
  file : String
  deriving Repr, DecidableEq

/-- A `Map` from program ids to files, in the order of its entries. -/
structure Assets where
  entries : List (String × FileReference)
  nodup : (entries.map Prod.fst).Nodup

def Assets.get (assets : Assets) (name : String) : Option FileReference :=
  assets.entries.lookup name

structure SubqlDatasource extends SubqlRuntimeDatasource where
  assets : Option Assets

/-- The files of a data source, in the order in which they are loaded. -/
def SubqlDatasource.assetEntries (ds : SubqlDatasource) : List (String × FileReference) :=
  (ds.assets.map Assets.entries).getD []

/-- `ds.assets?.get(name)`. -/
def SubqlDatasource.asset (ds : SubqlDatasource) (name : String) : Option FileReference :=
  ds.assets.bind fun assets => assets.get name

/-! ## An example -/

/-- The packages, over root nodes whose names are in camel case already: such a document is no Anchor
IDL. -/
def plainCodama : Codama where
  camelCase name := name
  pascalCase name := name
  rootNodeFromAnchor _ := .ok ⟨⟨"", "", [], []⟩⟩
  createFromRoot
    | .root node => .ok node
    | .anchor _ => .error "Not a root node"
  getUtf8Encoder text := .ok text.toUTF8.data.toList
  getBase16Encoder text := .ok (bytesOfHex text.toList)
  getBase58Encoder := Base58.decode
  getBase64Encoder text := .ok (Base64.decode text)

end SubqlSolana
