import SubqlSolana.Dictionary.QueryEntry
import SubqlSolana.Solana.Memoized

/-!
# Three ways to write a discriminator

The text in a filter may be hexadecimal, base58, or the name of an instruction, and
`parseDiscriminator` tries one after the other: hexadecimal is known by its `0x`, then the IDL is asked
for an instruction of that name, and what it does not find is base58.

The first two are read back as they were written. For a name it is not so. `Unmistaken` says what has
to hold of a spelling, and **all three are faithful exactly if it holds of every spelling of every
instruction** (`faithful_iff`). In an IDL as Codama writes it (names in camel case, each of them once)
that leaves one thing to go wrong (`faithful_iff_of_camelCase`): an instruction without a discriminator
that can be read, with a name that is a base58 text. The exception is caught, the instruction counts as
not found, and its name is taken for bytes (`Unnumbered.transfer_is_base58`).
-/

set_option autoImplicit false

namespace SubqlSolana

open Lib

/-! ## Hexadecimal texts -/

theorem hexValue_digitChar : ∀ n < 16, hexValue (Nat.digitChar n) = some n := by decide

theorem bytesOfHex_toHex (bytes : List UInt8) : bytesOfHex (toHex bytes).toList = bytes := by
  rw [toHex, String.toList_ofList]
  induction bytes with
  | nil => rfl
  | cons byte bytes ih =>
    have hbyte := byte.toNat_lt
    have hvalue : 16 * (byte.toNat / 16) + byte.toNat % 16 = byte.toNat := Nat.div_add_mod _ _
    rw [List.flatMap_cons, hexDigits, List.cons_append, List.singleton_append, bytesOfHex,
      hexValue_digitChar _ (by omega), hexValue_digitChar _ (by omega)]
    dsimp only
    rw [ih, hvalue, UInt8.ofNat_toNat]

/-- The texts that `isHex` accepts: `0x`, and an even number of digits. -/
def isHexText (text : String) : Bool :=
  match text.toList with
  | '0' :: 'x' :: digits => digits.length % 2 = 0 && digits.all fun c => (hexValue c).isSome
  | _ => false

theorem toList_0x (bytes : List UInt8) :
    ("0x" ++ toHex bytes).toList = '0' :: 'x' :: (toHex bytes).toList := by
  rw [String.toList_append]
  rfl

theorem isHexText_toHex (bytes : List UInt8) : isHexText ("0x" ++ toHex bytes) = true := by
  have hdigits : (bytes.flatMap hexDigits).length % 2 = 0 ∧
      ∀ c ∈ bytes.flatMap hexDigits, (hexValue c).isSome := by
    induction bytes with
    | nil => simp
    | cons byte bytes ih =>
      have hbyte := byte.toNat_lt
      rw [List.flatMap_cons, List.length_append, List.forall_mem_append]
      refine ⟨by simp [hexDigits], fun c hc => ?_, ih.2⟩
      rcases List.mem_pair.mp hc with rfl | rfl
      · rw [hexValue_digitChar _ (by omega), Option.isSome_some]
      · rw [hexValue_digitChar _ (by omega), Option.isSome_some]
  unfold isHexText
  rw [toList_0x, toHex, String.toList_ofList]
  simp only [Bool.and_eq_true, decide_eq_true_eq, List.all_eq_true]
  exact hdigits

theorem isHexText_of_base58 {text : String} (h : ∀ c ∈ text.toList, c ∈ Base58.alphabet) :
    isHexText text = false := by
  unfold isHexText
  split
  · next digits htext =>
    rw [htext] at h
    exact absurd (h '0' List.mem_cons_self) (by decide)
  · rfl

/-! ## What is expected -/

/-- What is relied on of the packages. -/
structure Parsers.Documented (parsers : Parsers) (bs58encode : List UInt8 → String) : Prop where
  isHex : parsers.isHex = isHexText
  decode_encode : ∀ bytes, parsers.bs58decode (bs58encode bytes) = .ok bytes
  alphabet : ∀ text bytes, parsers.bs58decode text = .ok bytes →
    ∀ c ∈ text.toList, c ∈ Base58.alphabet

/-- Each of the three ways to write a discriminator is read as it is meant. -/
structure Faithful (parsers : Parsers) (bs58encode : List UInt8 → String) (idls : Idls)
    (programId : String) (root : RootNode) : Prop where
  hex : ∀ bytes, ParseCall.body parsers ⟨idls, "0x" ++ toHex bytes, programId⟩ = .ok bytes
  base58 : ∀ bytes,
    (∀ node ∈ root.program.instructions,
      node.isNamed parsers.toCodama (bs58encode bytes) = false) →
    ParseCall.body parsers ⟨idls, bs58encode bytes, programId⟩ = .ok bytes
  /-- The discriminator of the instruction, or an exception. -/
  name : ∀ node ∈ root.program.instructions, ∀ input,
    node.isNamed parsers.toCodama input = true → ∀ bytes,
      ParseCall.body parsers ⟨idls, input, programId⟩ = .ok bytes →
      getInstructionDiscriminatorBytes parsers.toCodama node = .ok bytes

/-- The instruction that is found under a name. -/
def RootNode.named (codama : Codama) (root : RootNode) (input : String) : Option InstructionNode :=
  root.program.instructions.find? (InstructionNode.isNamed codama input)

/-- A spelling of an instruction that is taken for nothing else. -/
structure Unmistaken (parsers : Parsers) (root : RootNode) (node : InstructionNode)
    (input : String) : Prop where
  /-- If it is hexadecimal, it is the discriminator itself. -/
  hex : isHexText input = true →
    getInstructionDiscriminatorBytes parsers.toCodama node =
      .ok (bytesOfHex (without0x input.toList))
  /-- Another instruction that is found under it has the same discriminator. -/
  first : isHexText input = false → ∀ first ∈ root.named parsers.toCodama input, ∀ bytes,
    getInstructionDiscriminatorBytes parsers.toCodama first = .ok bytes →
    getInstructionDiscriminatorBytes parsers.toCodama node = .ok bytes
  /-- If what is found has no discriminator that can be read, it is no base58 text, or that of the
  discriminator. -/
  base58 : isHexText input = false →
    (∀ first ∈ root.named parsers.toCodama input, ∀ bytes,
      getInstructionDiscriminatorBytes parsers.toCodama first ≠ .ok bytes) →
    ∀ bytes, parsers.bs58decode input = .ok bytes →
      getInstructionDiscriminatorBytes parsers.toCodama node = .ok bytes

section

variable {parsers : Parsers} {bs58encode : List UInt8 → String} {idls : Idls}
  {programId input : String} {idl : IdlDocument} {root : RootNode}

/-! ## The three ways -/

theorem body_hex (hdoc : parsers.Documented bs58encode) (bytes : List UInt8) :
    ParseCall.body parsers ⟨idls, "0x" ++ toHex bytes, programId⟩ = .ok bytes := by
  rw [ParseCall.body_of_hex (by rw [hdoc.isHex]; exact isHexText_toHex bytes), toList_0x, without0x,
    bytesOfHex_toHex]

/-- What an IDL says an input is, instruction by instruction. -/
theorem resolve_eq_ok_iff (hroot : parseIdl parsers.toCodama idl = .ok root) {bytes : List UInt8} :
    parsers.resolve idl input = .ok bytes ↔
      (∃ first ∈ root.named parsers.toCodama input,
        getInstructionDiscriminatorBytes parsers.toCodama first = .ok bytes) ∨
      (∀ first ∈ root.named parsers.toCodama input, ∀ bytes,
        getInstructionDiscriminatorBytes parsers.toCodama first ≠ .ok bytes) ∧
        parsers.bs58decode input = .ok bytes := by
  have hfind : (idl.toIdl parsers.toCodama).findInstructionDiscriminatorByName input =
      .ok (findInstructionDiscriminatorByName parsers.toCodama root input) := by
    simp only [IdlDocument.toIdl, hroot]
    rfl
  rw [Parsers.resolve, hfind, ok_bind, findInstructionDiscriminatorByName, ← RootNode.named]
  cases root.named parsers.toCodama input with
  | none => simp
  | some first =>
    simp only [Option.mem_def, Option.some.injEq, exists_eq_left', forall_eq']
    cases getInstructionDiscriminatorBytes parsers.toCodama first with
    | error message => simp [Except.toOption]
    | ok discriminator => simp [Except.toOption, pure, Except.pure]

theorem body_base58 (hdoc : parsers.Documented bs58encode)
    (hidl : (idls programId).toOption = some idl)
    (hroot : parseIdl parsers.toCodama idl = .ok root) {bytes : List UInt8}
    (h : ∀ node ∈ root.program.instructions,
      node.isNamed parsers.toCodama (bs58encode bytes) = false) :
    ParseCall.body parsers ⟨idls, bs58encode bytes, programId⟩ = .ok bytes := by
  have hdecode := hdoc.decode_encode bytes
  have hhex := isHexText_of_base58 (hdoc.alphabet _ _ hdecode)
  have hnamed : root.named parsers.toCodama (bs58encode bytes) = none :=
    List.find?_eq_none.mpr fun node hmem => by simp [h node hmem]
  rw [ParseCall.body_of_idl (by rw [hdoc.isHex, hhex]; decide) hidl, resolve_eq_ok_iff hroot, hnamed]
  exact .inr ⟨by simp, hdecode⟩

theorem unmistaken_iff (hdoc : parsers.Documented bs58encode)
    (hidl : (idls programId).toOption = some idl)
    (hroot : parseIdl parsers.toCodama idl = .ok root) {node : InstructionNode} :
    Unmistaken parsers root node input ↔
      ∀ bytes, ParseCall.body parsers ⟨idls, input, programId⟩ = .ok bytes →
        getInstructionDiscriminatorBytes parsers.toCodama node = .ok bytes := by
  cases hhex : isHexText input with
  | true =>
    rw [ParseCall.body_of_hex (by rw [hdoc.isHex, hhex])]
    constructor
    · rintro h bytes hbytes
      cases hbytes
      exact h.hex hhex
    · intro h
      exact ⟨fun _ => h _ rfl, by simp [hhex], by simp [hhex]⟩
  | false =>
    rw [ParseCall.body_of_idl (by rw [hdoc.isHex, hhex]; decide) hidl]
    simp only [resolve_eq_ok_iff hroot]
    constructor
    · rintro h bytes (⟨first, hmem, hfirst⟩ | ⟨hnone, hdecode⟩)
      · exact h.first hhex first hmem bytes hfirst
      · exact h.base58 hhex hnone bytes hdecode
    · intro h
      refine ⟨by simp [hhex], fun _ first hmem bytes hfirst => ?_, fun _ hnone bytes hdecode => ?_⟩
      · exact h bytes (.inl ⟨first, hmem, hfirst⟩)
      · exact h bytes (.inr ⟨hnone, hdecode⟩)

/-- **When discriminators are read as they are meant.** -/
theorem faithful_iff (hdoc : parsers.Documented bs58encode)
    (hidl : (idls programId).toOption = some idl)
    (hroot : parseIdl parsers.toCodama idl = .ok root) :
    Faithful parsers bs58encode idls programId root ↔
      ∀ node ∈ root.program.instructions, ∀ input,
        node.isNamed parsers.toCodama input = true → Unmistaken parsers root node input := by
  constructor
  · intro h node hmem input hnamed
    exact (unmistaken_iff hdoc hidl hroot).mpr (h.name node hmem input hnamed)
  · intro h
    refine ⟨body_hex hdoc, fun _ => body_base58 hdoc hidl hroot, fun node hmem input hnamed => ?_⟩
    exact (unmistaken_iff hdoc hidl hroot).mp (h node hmem input hnamed)

/-! ## Names in camel case -/

/-- If the names are in camel case, and no two are the same, an instruction is found under all of its
spellings. -/
theorem named_of_camelCase {codama : Codama} {node : InstructionNode}
    (hnodup : (root.program.instructions.map InstructionNode.name).Nodup)
    (hcamel : ∀ node ∈ root.program.instructions, codama.camelCase node.name = node.name)
    (hmem : node ∈ root.program.instructions) (hnamed : node.isNamed codama input = true) :
    root.named codama input = some node := by
  have hcase : ∀ node ∈ root.program.instructions, node.isNamed codama input = true →
      node.name = codama.camelCase input := by
    intro node hmem hnamed
    rcases Bool.or_eq_true_iff.mp hnamed with hname | hname
    · rw [← of_decide_eq_true hname]
      exact (hcamel node hmem).symm
    · exact of_decide_eq_true hname
  cases hfound : root.named codama input with
  | none => exact absurd hnamed (List.find?_eq_none.mp hfound node hmem)
  | some first =>
    have hfirst := List.mem_of_find?_eq_some hfound
    have hname := hcase first hfirst (List.find?_some hfound)
    rw [← hcase node hmem hnamed] at hname
    exact congrArg some (List.inj_on_of_nodup_map hnodup hfirst hmem hname)

/-- In an IDL as Codama writes it, an instruction has a discriminator that can be read, or its name is
no base58 text, in any spelling. -/
theorem faithful_iff_of_camelCase (hdoc : parsers.Documented bs58encode)
    (hidl : (idls programId).toOption = some idl)
    (hroot : parseIdl parsers.toCodama idl = .ok root)
    (hnodup : (root.program.instructions.map InstructionNode.name).Nodup)
    (hcamel : ∀ node ∈ root.program.instructions,
      parsers.camelCase node.name = node.name)
    (hhex : ∀ node ∈ root.program.instructions, ∀ input,
      node.isNamed parsers.toCodama input = true → isHexText input = false) :
    Faithful parsers bs58encode idls programId root ↔
      ∀ node ∈ root.program.instructions,
        (∃ bytes, getInstructionDiscriminatorBytes parsers.toCodama node = .ok bytes) ∨
        ∀ input, node.isNamed parsers.toCodama input = true →
          ∀ bytes, parsers.bs58decode input ≠ .ok bytes := by
  rw [faithful_iff hdoc hidl hroot]
  refine forall₂_congr fun node hmem => ?_
  cases hown : getInstructionDiscriminatorBytes parsers.toCodama node with
  | ok own =>
    refine iff_of_true (fun input hnamed => ?_) (.inl ⟨own, rfl⟩)
    have hfound := named_of_camelCase hnodup hcamel hmem hnamed
    refine ⟨by simp [hhex node hmem input hnamed], fun _ => ?_, fun _ hnone => ?_⟩
    · rw [hfound]
      rintro first hfirst bytes hbytes
      cases hfirst
      exact hbytes
    · exact absurd hown (hnone node hfound own)
  | error message =>
    have hnot : ¬∃ bytes, Except.error message = Except.ok (α := List UInt8) bytes := by simp
    rw [or_iff_right hnot]
    refine forall₂_congr fun input hnamed => ?_
    have hfound := named_of_camelCase hnodup hcamel hmem hnamed
    constructor
    · intro h bytes hdecode
      have hread := h.base58 (hhex node hmem input hnamed) (fun first hfirst bytes => by
        cases hfound.symm.trans hfirst
        simp [hown]) bytes hdecode
      rw [hown] at hread
      cases hread
    · intro h
      refine ⟨by simp [hhex node hmem input hnamed], fun _ first hfirst bytes hbytes => ?_,
        fun _ _ bytes hdecode => absurd hdecode (h bytes)⟩
      cases hfound.symm.trans hfirst
      exact hbytes

end

/-! ## An instruction without a discriminator -/

namespace Unnumbered

def parsers : Parsers where
  toCodama := plainCodama
  isHex := isHexText
  bs58decode := Base58.decode

theorem documented : parsers.Documented Base58.encode where
  isHex := rfl
  decode_encode := Base58.decode_encode
  alphabet _ bytes h := Base58.decode_isOk_iff.mp ⟨bytes, h⟩

/-- An IDL with one instruction, under the address `T0ken`. -/
def root (instruction : InstructionNode) : RootNode := ⟨⟨"token", "T0ken", [instruction], []⟩⟩

def idls (instruction : InstructionNode) : Idls := fun _ => .value (.root (root instruction))

/-- With a discriminator, `transfer` is found under its name. -/
theorem transfer_is_found : Faithful parsers Base58.encode (idls TwoDecoders.transfer) "T0ken"
    (root TwoDecoders.transfer) := by
  refine (faithful_iff documented rfl rfl).mpr fun node hmem input hnamed => ?_
  obtain rfl := List.mem_singleton.mp hmem
  obtain rfl : "transfer" = input := by
    rcases Bool.or_eq_true_iff.mp hnamed with hname | hname
    · exact of_decide_eq_true hname
    · exact of_decide_eq_true hname
  refine ⟨by decide, fun _ first hfirst bytes hbytes => ?_, fun _ hnone => ?_⟩
  · cases hfirst
    exact hbytes
  · exact absurd rfl (hnone TwoDecoders.transfer rfl [3])

/-- **Without one, its name is taken for six bytes in base58.** -/
theorem transfer_is_base58 :
    ¬∀ (parsers : Parsers) (bs58encode : List UInt8 → String) (idls : Idls) (programId : String)
      (idl : IdlDocument) (root : RootNode),
      parsers.Documented bs58encode → (idls programId).toOption = some idl →
      parseIdl parsers.toCodama idl = .ok root →
      (root.program.instructions.map InstructionNode.name).Nodup →
      Faithful parsers bs58encode idls programId root := by
  intro h
  have hfaithful := h parsers Base58.encode (idls ⟨"transfer", []⟩) "T0ken" _
    (root ⟨"transfer", []⟩) documented rfl rfl (by decide)
  have hbody : ParseCall.body parsers ⟨idls ⟨"transfer", []⟩, "transfer", "T0ken"⟩ =
      .ok [104, 33, 226, 38, 118, 235] := by decide +kernel
  cases hfaithful.name _ List.mem_cons_self "transfer" rfl _ hbody

end Unnumbered

end SubqlSolana
