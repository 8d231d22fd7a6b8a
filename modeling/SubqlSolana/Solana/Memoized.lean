import SubqlSolana.Lib.JsonText
import SubqlSolana.Lib.Memo
import SubqlSolana.Solana.LoadIdls

/-!
# The memoized discriminators

`parseDiscriminator` has the decorator `Memoize` (`utils/decorators.ts`): its cache is made once, for the
method, and is keyed by the arguments alone. What the method returns also depends on the IDLs of the
decoder that it is called on, and these change while files are loaded.

Here are all the histories of some decoders: each of them may be made, may load the files of a data
source, one read after another, and may be asked for discriminators, and all of this in any order. **The
decorator makes no difference exactly if an input which some IDL has resolved is resolved to the same
bytes at every later call with the same arguments** (`parseDiscriminator_transparent_iff`). A decoder
with no IDL at all answers from the IDL of another one (`TwoDecoders.answers_without_idl`).
-/

set_option autoImplicit false

namespace SubqlSolana

open Lib

/-! ## The method -/

/-- What `parseDiscriminator` calls of packages. -/
structure Parsers extends Codama where
  isHex : String → Bool
  bs58decode : String → Except String (List UInt8)

/-- A decoder that has loaded these IDLs. -/
def Parsers.decoder (parsers : Parsers) (idls : Idls) : SolanaDecoder where
  idls programId := (idls programId).toOption.map (IdlDocument.toIdl parsers.toCodama)
  isHex := parsers.isHex
  bs58decode := parsers.bs58decode

/-- A call of the method, on a decoder with these IDLs. -/
structure ParseCall where
  idls : Idls
  input : String
  programId : String

/-- The method without its decorator. -/
def ParseCall.body (parsers : Parsers) (call : ParseCall) : Except String (List UInt8) :=
  (parsers.decoder call.idls).parseDiscriminator call.input call.programId

/-- `JSON.stringify(args)`. -/
def ParseCall.key (call : ParseCall) : String := JsonText.stringify [call.input, call.programId]

theorem ParseCall.key_inj {call call' : ParseCall} :
    call.key = call'.key ↔ call.input = call'.input ∧ call.programId = call'.programId := by
  unfold key
  rw [JsonText.stringify_inj]
  simp

/-! ## Histories -/

inductive DecoderOp where
  /-- `new SolanaDecoder()`. -/
  | create
  /-- `loadIdls` is called, and comes to its first `await`. -/
  | loadIdls (decoder : Nat) (ds : SubqlDatasource)
  /-- The file that a call of `loadIdls` waits for is read and parsed, or it is not. -/
  | readFile (load : Nat) (content : Except String (Nullish IdlDocument))
  | parseDiscriminator (decoder : Nat) (input programId : String)

/-- Some decoders, the calls of `loadIdls` with the decoders they load into, and the cache. The calls of
`parseDiscriminator` so far are written down with what they returned. -/
structure Decoders where
  idls : List Idls
  loads : List (Nat × Loader)
  cache : Cache String (List UInt8)
  calls : List (ParseCall × Except String (List UInt8))

namespace Decoders

def start : Decoders := ⟨[], [], fun _ => none, []⟩

def loadIdls (decoder : Nat) (ds : SubqlDatasource) (s : Decoders) : Decoders :=
  match s.idls[decoder]? with
  | none => s
  | some idls => { s with loads := s.loads ++ [(decoder, idls.nextRead ds.assetEntries)] }

def readFile (load : Nat) (content : Except String (Nullish IdlDocument)) (s : Decoders) :
    Decoders :=
  match s.loads[load]? with
  | none => s
  | some (decoder, loader) =>
    match s.idls[decoder]? with
    | none => s
    | some idls =>
      match loader.resume (fun _ => content) idls with
      | (idls, loader) =>
        { s with idls := s.idls.set decoder idls, loads := s.loads.set load (decoder, loader) }

/-- The decorated method. -/
def call (parsers : Parsers) (call : ParseCall) (s : Decoders) : Decoders :=
  match memoized (ParseCall.body parsers) ParseCall.key s.cache call with
  | (result, cache) => { s with cache := cache, calls := s.calls ++ [(call, result)] }

def parseDiscriminator (parsers : Parsers) (decoder : Nat) (input programId : String)
    (s : Decoders) : Decoders :=
  match s.idls[decoder]? with
  | none => s
  | some idls => s.call parsers ⟨idls, input, programId⟩

def next (parsers : Parsers) : DecoderOp → Decoders → Decoders
  | .create, s => { s with idls := s.idls ++ [fun _ => .undefined] }
  | .loadIdls decoder ds, s => s.loadIdls decoder ds
  | .readFile load content, s => s.readFile load content
  | .parseDiscriminator decoder input programId, s =>
    s.parseDiscriminator parsers decoder input programId

end Decoders

/-! ## Calls with the same arguments -/

section

variable (parsers : Parsers)

/-- What an IDL says an input is: the discriminator of the instruction with this name, or else base58. -/
def Parsers.resolve (idl : IdlDocument) (input : String) : Except String (List UInt8) := do
  match ← (idl.toIdl parsers.toCodama).findInstructionDiscriminatorByName input with
  | some discriminator => pure discriminator
  | none => parsers.bs58decode input

/-- If the input needs an IDL, and the IDLs from before resolved it, those of now resolve it to the same
bytes. -/
def StillResolves (earlier current : Idls) (input programId : String) : Prop :=
  parsers.isHex input = true ∨
    ∀ idl, (earlier programId).toOption = some idl →
      ∀ bytes, parsers.resolve idl input = .ok bytes →
        ∃ idl', (current programId).toOption = some idl' ∧ parsers.resolve idl' input = .ok bytes

/-- A call of `parseDiscriminator` comes after no call with the same arguments that was resolved to
something else. -/
def Decoders.Agrees : DecoderOp → Decoders → Prop
  | .parseDiscriminator decoder input programId, s =>
    ∀ idls, s.idls[decoder]? = some idls → ∀ earlier ∈ s.calls, earlier.1.input = input →
      earlier.1.programId = programId → StillResolves parsers earlier.1.idls idls input programId
  | _, _ => True

variable {parsers} {idls earlier current : Idls} {input programId : String}

theorem ParseCall.body_of_hex (h : parsers.isHex input = true) :
    ParseCall.body parsers ⟨idls, input, programId⟩ =
      .ok (bytesOfHex (without0x input.toList)) := by
  simp only [body, SolanaDecoder.parseDiscriminator, Parsers.decoder, h, if_true]

theorem ParseCall.body_of_none (h : ¬parsers.isHex input = true)
    (hidl : (idls programId).toOption = none) :
    ParseCall.body parsers ⟨idls, input, programId⟩ =
      .error s!"Unable to find IDL for program {programId}" := by
  simp only [body, SolanaDecoder.parseDiscriminator, Parsers.decoder, if_neg h, hidl,
    Option.map_none]

theorem ParseCall.body_of_idl (h : ¬parsers.isHex input = true) {idl : IdlDocument}
    (hidl : (idls programId).toOption = some idl) :
    ParseCall.body parsers ⟨idls, input, programId⟩ = parsers.resolve idl input := by
  simp only [body, SolanaDecoder.parseDiscriminator, Parsers.decoder, if_neg h, hidl,
    Option.map_some]
  rfl

/-- The body returns bytes if it needs no IDL, or if there is one that resolves the input to them. -/
theorem ParseCall.body_eq_ok (h : ¬parsers.isHex input = true) {bytes : List UInt8} :
    ParseCall.body parsers ⟨idls, input, programId⟩ = .ok bytes ↔
      ∃ idl, (idls programId).toOption = some idl ∧ parsers.resolve idl input = .ok bytes := by
  cases hidl : (idls programId).toOption with
  | none =>
    rw [body_of_none h hidl]
    simp
  | some idl =>
    rw [body_of_idl h hidl]
    simp

theorem stillResolves_iff : StillResolves parsers earlier current input programId ↔
    ∀ bytes, ParseCall.body parsers ⟨earlier, input, programId⟩ = .ok bytes →
      ParseCall.body parsers ⟨current, input, programId⟩ = .ok bytes := by
  unfold StillResolves
  by_cases h : parsers.isHex input = true
  · simp only [h, true_or, true_iff]
    intro bytes hbytes
    rw [ParseCall.body_of_hex h] at hbytes ⊢
    exact hbytes
  · simp only [or_iff_right h, ParseCall.body_eq_ok h]
    constructor
    · rintro hall bytes ⟨idl, hidl, hbytes⟩
      exact hall idl hidl bytes hbytes
    · intro hall idl hidl bytes hbytes
      exact hall bytes ⟨idl, hidl, hbytes⟩

/-! ## Runs -/

/-- The cache is a record of the calls. -/
def Decoders.Recorded (s : Decoders) : Prop := s.cache.Records ParseCall.key s.calls

namespace Decoders

variable {s : Decoders}

/-- What an operation does to the cache and to the calls: nothing, or it is one more call. -/
theorem next_cases (parsers : Parsers) (op : DecoderOp) (s : Decoders) :
    ((s.next parsers op).cache = s.cache ∧ (s.next parsers op).calls = s.calls ∧
      Agrees parsers op s) ∨
    ∃ decoder input programId idls, op = .parseDiscriminator decoder input programId ∧
      s.idls[decoder]? = some idls ∧ s.next parsers op = s.call parsers ⟨idls, input, programId⟩ := by
  cases op with
  | create => exact .inl ⟨rfl, rfl, trivial⟩
  | loadIdls decoder ds =>
    refine .inl ⟨?_, ?_, trivial⟩ <;> dsimp only [next, loadIdls] <;> split <;> rfl
  | readFile load content =>
    refine .inl ⟨?_, ?_, trivial⟩ <;> dsimp only [next, readFile] <;> split <;> try rfl
    all_goals split <;> rfl
  | parseDiscriminator decoder input programId =>
    cases hidls : s.idls[decoder]? with
    | none =>
      simp only [next, parseDiscriminator, hidls]
      refine .inl ⟨trivial, trivial, fun idls h => ?_⟩
      rw [hidls] at h
      cases h
    | some idls =>
      refine .inr ⟨decoder, input, programId, idls, rfl, hidls, ?_⟩
      simp only [next, parseDiscriminator, hidls]

theorem Recorded.next (h : s.Recorded) (op : DecoderOp) : (s.next parsers op).Recorded := by
  rcases next_cases parsers op s with ⟨hcache, hcalls, -⟩ | ⟨_, _, _, _, -, -, hnext⟩
  · unfold Recorded
    rw [hcache, hcalls]
    exact h
  · rw [hnext]
    exact Cache.Records.memoized h _ _

theorem calls_subset_next (op : DecoderOp) (s : Decoders) :
    s.calls ⊆ (s.next parsers op).calls := by
  rcases next_cases parsers op s with ⟨-, hcalls, -⟩ | ⟨_, _, _, _, -, -, hnext⟩
  · rw [hcalls]
    exact List.Subset.refl _
  · rw [hnext]
    exact List.subset_append_left _ _

theorem calls_subset_run (ops : List DecoderOp) (s : Decoders) :
    s.calls ⊆ (runAll (next parsers) ops s).calls :=
  runAll_invariant (I := fun s' : Decoders => s.calls ⊆ s'.calls)
    (fun op _ h => List.Subset.trans h (calls_subset_next op _)) ops (List.Subset.refl _)

/-- **The step lemma.** -/
theorem transparent_next_iff (op : DecoderOp) (h : s.Recorded)
    (hcalls : Transparent (ParseCall.body parsers) s.calls) :
    Transparent (ParseCall.body parsers) (s.next parsers op).calls ↔ Agrees parsers op s := by
  rcases next_cases parsers op s with
    ⟨-, hsame, hagrees⟩ | ⟨d, input, programId, idls, rfl, hidls, hnext⟩
  · rw [hsame]
    exact iff_of_true hcalls hagrees
  · rw [hnext]
    refine (transparent_append hcalls).trans ((memoized_eq_iff h hcalls).trans ?_)
    simp only [Agrees, hidls, Option.some.injEq, forall_eq', ParseCall.key_inj, and_imp]
    refine forall_congr' fun earlier => ?_
    obtain ⟨⟨idls', input', programId'⟩, result⟩ := earlier
    constructor
    · rintro hall hmem rfl rfl
      exact stillResolves_iff.mpr (hall hmem rfl rfl)
    · rintro hall hmem rfl rfl
      exact stillResolves_iff.mp (hall hmem rfl rfl)

/-- **The run lemma.** -/
theorem transparent_run_iff (ops : List DecoderOp) (h : s.Recorded)
    (hcalls : Transparent (ParseCall.body parsers) s.calls) :
    Transparent (ParseCall.body parsers) (runAll (next parsers) ops s).calls ↔
      Permitted (next parsers) (Agrees parsers) ops s := by
  induction ops generalizing s with
  | nil => exact iff_of_true hcalls .nil
  | cons op ops ih =>
    rw [runAll_cons]
    have hstep := transparent_next_iff op h hcalls
    constructor
    · intro hall
      have hnext := fun call hmem => hall call (calls_subset_run ops _ hmem)
      exact .cons (hstep.mp hnext) ((ih (h.next op) hnext).mp hall)
    · intro hpermitted
      cases hpermitted with
      | cons hop hrest => exact (ih (h.next op) (hstep.mpr hop)).mpr hrest

/-- A call that threw leaves nothing behind: as long as no call with these arguments has returned, the
next one is the method itself. -/
theorem call_of_errors (h : s.Recorded) {call : ParseCall}
    (herrors : ∀ earlier ∈ s.calls, earlier.1.key = call.key → ∀ bytes, earlier.2 ≠ .ok bytes) :
    (s.call parsers call).calls = s.calls ++ [(call, call.body parsers)] := by
  have hmiss : s.cache call.key = none := by
    refine Option.eq_none_iff_forall_ne_some.mpr fun bytes hbytes => ?_
    obtain ⟨earlier, hmem, hkey, hreturned⟩ := (h _ _).mp hbytes
    exact herrors earlier hmem hkey bytes hreturned
  have hbody : (memoized (ParseCall.body parsers) ParseCall.key s.cache call).1 =
      call.body parsers := memoized_miss hmiss
  rw [← hbody]
  rfl

end Decoders

/-- **When memoizing makes no difference.** Over a whole history every call returns what the method
without its decorator does, if and only if no call comes after one with the same arguments that the
IDLs resolved to something else. -/
theorem parseDiscriminator_transparent_iff (parsers : Parsers) (ops : List DecoderOp) :
    (∀ call ∈ (runAll (Decoders.next parsers) ops .start).calls,
      call.2 = ParseCall.body parsers call.1) ↔
      Permitted (Decoders.next parsers) (Decoders.Agrees parsers) ops .start :=
  Decoders.transparent_run_iff ops Cache.Records.empty fun _ h => by cases h

end

/-! ## Two decoders -/

namespace TwoDecoders

def parsers : Parsers where
  toCodama := plainCodama
  isHex text := text.toList.take 2 = ['0', 'x'] && (text.toList.drop 2).all fun c => (hexValue c).isSome
  bs58decode := Base58.decode

def transfer : InstructionNode where
  name := "transfer"
  arguments := [⟨"discriminator", .numberTypeNode .u8 .le, some (.numberValueNode 3)⟩]

def idl : IdlDocument := .root ⟨⟨"token", "T0ken", [transfer], []⟩⟩

def dataSource : SubqlDatasource where
  mapping := ⟨[]⟩
  assets := some ⟨[("T0ken", ⟨"token.json"⟩)], by simp⟩

/-- The first decoder loads the IDL and is asked; the second one has none, and is asked the same. -/
def history : List DecoderOp :=
  [.create, .create, .loadIdls 0 dataSource, .readFile 0 (.ok (.value idl)),
    .parseDiscriminator 0 "transfer" "T0ken", .parseDiscriminator 1 "transfer" "T0ken"]

example : (runAll (Decoders.next parsers) history .start).calls.map Prod.snd =
    [.ok [3], .ok [3]] := by decide +kernel

/-- **The second decoder answers without an IDL**, where the method itself throws. -/
theorem answers_without_idl :
    ¬∀ (parsers : Parsers) (ops : List DecoderOp),
      ∀ call ∈ (runAll (Decoders.next parsers) ops .start).calls,
        call.2 = ParseCall.body parsers call.1 := by
  intro h
  have hlast := h parsers history _ (List.getElem_mem (n := 1) (by decide +kernel))
  revert hlast
  decide +kernel

end TwoDecoders

end SubqlSolana
