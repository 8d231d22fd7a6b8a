import SubqlSolana.Solana.Decoder

/-!
# Payloads and their texts

The RPC writes the data of an instruction in base58 and that of a log in base64. `basedToBuffer` reads
both, and tries base58 first; `decodeLog` even goes through it twice, because it writes what is left of
the payload in base64 again. Base58 has most of the characters of base64: what is missing are `0`,
`I`, `O`, `l`, `+`, `/` and the padding. A base64 text that happens to do without them is taken for
base58.

Data of instructions is always read as it was written. **A log is read as it was written exactly when
each of its texts has one of those characters**, or means the same in base58 (`survives_iff`).
-/

set_option autoImplicit false

namespace SubqlSolana

open Lib

/-- The other half of `bs58`, and what is assumed of the two. -/
structure Bs58 {V : Type} (codecs : Codecs V) where
  encode : List UInt8 → String
  decode_encode : ∀ bytes, codecs.bs58decode (encode bytes) = .ok bytes
  /-- A text is accepted exactly if it has no other characters than digits. -/
  decode_isOk_iff : ∀ text, (∃ bytes, codecs.bs58decode text = .ok bytes) ↔
    ∀ c ∈ text.toList, c ∈ Base58.alphabet

section

variable {V : Type} {codecs : Codecs V} (bs58 : Bs58 codecs)

/-! ## One text -/

theorem basedToBuffer_bs58 (bytes : List UInt8) :
    basedToBuffer codecs (bs58.encode bytes) = bytes := by
  unfold basedToBuffer
  rw [bs58.decode_encode]

/-- The base64 text of the bytes has a character that base58 does not have, or it means the same bytes in
base58. -/
def Unmistakable (codecs : Codecs V) (bytes : List UInt8) : Prop :=
  (∃ c ∈ (Base64.encode bytes).toList, c ∉ Base58.alphabet) ∨
    codecs.bs58decode (Base64.encode bytes) = .ok bytes

theorem basedToBuffer_base64_iff (bs58 : Bs58 codecs) {bytes : List UInt8} :
    basedToBuffer codecs (Base64.encode bytes) = bytes ↔ Unmistakable codecs bytes := by
  have haccepts := bs58.decode_isOk_iff (Base64.encode bytes)
  unfold basedToBuffer Unmistakable
  cases hdecode : codecs.bs58decode (Base64.encode bytes) with
  | ok read =>
    rw [hdecode] at haccepts
    have hall := haccepts.mp ⟨read, rfl⟩
    constructor
    · intro hread
      exact .inr (congrArg Except.ok hread)
    · rintro (⟨c, hc, hother⟩ | hread)
      · exact absurd (hall c hc) hother
      · exact Except.ok.inj hread
  | error message =>
    rw [hdecode] at haccepts
    have hother : ∃ c ∈ (Base64.encode bytes).toList, c ∉ Base58.alphabet := by
      by_contra h
      push Not at h
      obtain ⟨read, hread⟩ := haccepts.mpr h
      cases hread
    exact ⟨fun _ => .inl hother, fun _ => Base64.decode_encode bytes⟩

/-! ## What is expected -/

/-- The instruction that the bytes are the data of. -/
def instructionInput (codecs : Codecs V) (idl : IdlDocument) (bytes : List UInt8) :
    Except String (Option (RootNode × EncodableNode × List UInt8)) := do
  let root ← parseIdl codecs.toCodama idl
  pure ((encodableInstruction codecs.toCodama root bytes).map fun node => (root, node, bytes))

/-- The type that a prefix of the bytes stands for, and the bytes without that prefix. -/
def payloadInput (codecs : Codecs V) (idl : IdlDocument) (bytes : List UInt8) :
    Except String (Option (RootNode × EncodableNode × List UInt8)) := do
  match ← splitLog codecs idl bytes with
  | none => pure none
  | some (data, findType) => do
    let root ← parseIdl codecs.toCodama idl
    pure ((findType root).map fun node => (root, .definedTypeNode node, data))

/-- The bytes whose base64 text is read while a log is decoded: the payload, and what is left of it. -/
def logTexts (codecs : Codecs V) (idl : IdlDocument) (bytes : List UInt8) : List (List UInt8) :=
  bytes :: match splitLog codecs idl bytes with
    | .ok (some (data, _)) => [data]
    | _ => []

/-- What is expected of a payload: nothing is lost on the way through a text, and the codec is called
with the payload, as a log and as the data of an instruction. -/
structure Survives (bs58 : Bs58 codecs) (idl : IdlDocument) (bytes : List UInt8) : Prop where
  texts : ∀ data ∈ logTexts codecs idl bytes, basedToBuffer codecs (Base64.encode data) = data
  log : logCodecInput codecs idl (programData ++ Base64.encode bytes) =
    payloadInput codecs idl bytes
  instructionText : basedToBuffer codecs (bs58.encode bytes) = bytes
  instruction : codecInput codecs idl (bs58.encode bytes) (encodableInstruction codecs.toCodama) =
    instructionInput codecs idl bytes

/-! ## Both paths -/

theorem codecInput_of_text {idl : IdlDocument} {text : String} {bytes : List UInt8}
    (h : basedToBuffer codecs text = bytes)
    (getEncodableNode : RootNode → List UInt8 → Option EncodableNode) :
    codecInput codecs idl text getEncodableNode = (do
      let root ← parseIdl codecs.toCodama idl
      pure ((getEncodableNode root bytes).map fun node => (root, node, bytes))) := by
  unfold codecInput
  rw [h]

theorem logCodecInput_of_texts {idl : IdlDocument} {bytes : List UInt8}
    (h : ∀ data ∈ logTexts codecs idl bytes, basedToBuffer codecs (Base64.encode data) = data) :
    logCodecInput codecs idl (programData ++ Base64.encode bytes) =
      payloadInput codecs idl bytes := by
  have htext : String.ofList (replaceFirst programData.toList
      (programData ++ Base64.encode bytes).toList) = Base64.encode bytes := by
    rw [String.toList_append, replaceFirst_append _ (by decide), String.ofList_toList]
  unfold logCodecInput payloadInput
  rw [htext]
  dsimp only
  rw [h bytes List.mem_cons_self]
  cases hsplit : splitLog codecs idl bytes with
  | error message => rfl
  | ok split =>
    cases split with
    | none => rfl
    | some split =>
      obtain ⟨data, findType⟩ := split
      have hdata : data ∈ logTexts codecs idl bytes := by
        rw [logTexts, hsplit]
        simp
      rw [ok_bind, ok_bind]
      dsimp only
      rw [codecInput_of_text (h data hdata)]
      cases hroot : parseIdl codecs.toCodama idl with
      | error message => simp [Bind.bind, Except.bind]
      | ok root => simp [Bind.bind, Except.bind, Option.map_map, Function.comp_def]

/-- **When a payload survives its texts.** -/
theorem survives_iff (idl : IdlDocument) (bytes : List UInt8) :
    Survives bs58 idl bytes ↔ ∀ data ∈ logTexts codecs idl bytes, Unmistakable codecs data := by
  constructor
  · intro h data hdata
    exact (basedToBuffer_base64_iff bs58).mp (h.texts data hdata)
  · intro h
    have htexts : ∀ data ∈ logTexts codecs idl bytes,
        basedToBuffer codecs (Base64.encode data) = data := fun data hdata =>
      (basedToBuffer_base64_iff bs58).mpr (h data hdata)
    exact {
      texts := htexts
      log := logCodecInput_of_texts htexts
      instructionText := basedToBuffer_bs58 bs58 bytes
      instruction := codecInput_of_text (basedToBuffer_bs58 bs58 bytes) _ }

end

/-! ## Three zeros -/

namespace ThreeZeros

def bs58 : Bs58 plainCodecs where
  encode := Base58.encode
  decode_encode := Base58.decode_encode
  decode_isOk_iff _ := Base58.decode_isOk_iff

/-- An event whose discriminator is a single zero, and the type that it has in the root. -/
def event : AnchorEvent := ⟨"transfer", [0]⟩

def type : DefinedTypeNode := ⟨"transfer", .other "struct"⟩

def root : RootNode := ⟨⟨"transfers", "T0ken", [], [type]⟩⟩

def idl : IdlDocument := .anchor ⟨some (some "0.1.0"), some [event], "transfers.json"⟩

/-- The packages, over this IDL. -/
def codecs : Codecs (List UInt8) := { plainCodecs with rootNodeFromAnchor := fun _ => .ok root }

/-- The payload is an event, with two bytes of data. -/
theorem payload_is_event :
    payloadInput codecs idl [0, 0, 0] = .ok (some (root, .definedTypeNode type, [0, 0])) := by
  decide

/-- But its text, `AAAA`, is a number other than zero in base58. -/
theorem event_is_not_found :
    logCodecInput codecs idl (programData ++ Base64.encode [0, 0, 0]) =
      .error "Unable to find event for log data" := by
  decide +kernel

/-- **Three zeros are lost**: their base64 text `AAAA` is a base58 text. -/
theorem zeros_are_lost :
    ¬∀ (codecs : Codecs (List UInt8)) (bs58 : Bs58 codecs) (idl : IdlDocument)
      (bytes : List UInt8), Survives bs58 idl bytes := by
  intro h
  have hlog := (h codecs ⟨bs58.encode, bs58.decode_encode, bs58.decode_isOk_iff⟩ idl [0, 0, 0]).log
  rw [event_is_not_found, payload_is_event] at hlog
  cases hlog

end ThreeZeros

end SubqlSolana
