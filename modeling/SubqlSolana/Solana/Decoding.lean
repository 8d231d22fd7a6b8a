import SubqlSolana.Solana.Block
import SubqlSolana.Solana.Decoder
import SubqlSolana.Solana.Memoized

/-!
# What handlers get decoded

An instruction or a log is decoded when somebody asks for it, with the IDLs that its decoder has at that
moment, and the answer is kept: `pendingDecode ??= …` (`solana/block.solana.ts`). A program without an
IDL is no error, its data is `null`; so an item that is asked for too early stays `null`. Meanwhile files
are loaded, by `onProjectChange` and in front of each handler (`prepareFilteredData` of
`indexer/indexer.manager.ts`), and one decoder may read the same file several times.

Here are all the histories of some decoders with items that belong to them. As soon as a program has an
IDL, and no file is being read for it, it keeps that IDL for good (`Decoders.Settled.run`). **So once
`onProjectChange` has finished, whatever happens then, an item of one of the project's programs is
decoded with the IDL from there** (`decodes_with_project_idls`), unless a read that was under way before
puts another one in its place, or the item has been asked for before (`Decoding.Ready`).
-/

set_option autoImplicit false

namespace SubqlSolana

open Lib

/-! ## The methods -/

/-- What is decoded when it is asked for. -/
inductive LazyItem where
  | instruction (instruction : SolanaInstruction)
  | log (log : SolanaLogMessage)
  deriving Repr, DecidableEq

/-- The key that the IDL is looked up with. -/
def LazyItem.programId : LazyItem → String
  | instruction inst => (getProgramId inst).getD "undefined"
  | log message => message.programId.getD "undefined"

/-- `this.idls[programId] ?? (await this.getIdlFromChain(programId))`, and the latter throws. -/
def Idls.idlOf (idls : Idls) (programId : String) : Except String IdlDocument :=
  match (idls programId).toOption with
  | some idl => .ok idl
  | none => .error "Not implemented: getIdlFromChain"

section

variable {V : Type} (codecs : Codecs V)

/-- The packages that both the decoder and `parseDiscriminator` use, with `isHex` of another one. -/
def Codecs.parsers (isHex : String → Bool) : Parsers where
  toCodama := codecs.toCodama
  isHex := isHex
  bs58decode := codecs.bs58decode

/-- The `try` of the two methods, with the `catch` that logs a warning and returns `null`. -/
def Idls.tryDecode (idls : Idls) (programId : String)
    (decode : IdlDocument → Except String (Option (DecodedData V))) : Option (DecodedData V) :=
  match (do decode (← idls.idlOf programId) : Except String (Option (DecodedData V))) with
  | .ok decoded => decoded
  | .error _ => none

/-- `decodeInstruction` of the class, and `decodeInstructionRaw`, which gets the transaction apart. -/
def Idls.decodeInstruction (idls : Idls) (instruction : SolanaInstruction) :
    Option (DecodedData V) :=
  idls.tryDecode ((getProgramId instruction).getD "undefined") fun idl =>
    SubqlSolana.decodeInstruction codecs idl instruction.data

/-- `decodeLog` of the class. -/
def Idls.decodeLog (idls : Idls) (log : SolanaLogMessage) : Option (DecodedData V) :=
  idls.tryDecode (log.programId.getD "undefined") fun idl =>
    SubqlSolana.decodeLog codecs idl log.message

/-- What the getter starts: `decodedData` of an instruction, `decodedMessage` of a log. -/
def LazyItem.decode (idls : Idls) : LazyItem → Option (DecodedData V)
  | instruction inst => idls.decodeInstruction codecs inst
  | log message =>
    match message.decodedMessage with
    | .null => none
    | .decodeLog => idls.decodeLog codecs message

/-- Only the IDL of its program matters to an item. -/
theorem LazyItem.decode_congr {idls idls' : Idls} {item : LazyItem}
    (h : idls item.programId = idls' item.programId) :
    item.decode codecs idls = item.decode codecs idls' := by
  cases item with
  | instruction inst =>
    simp only [programId] at h
    simp only [decode, Idls.decodeInstruction, Idls.tryDecode, Idls.idlOf, h]
  | log message =>
    simp only [programId] at h
    simp only [decode, Idls.decodeLog, Idls.tryDecode, Idls.idlOf, h]

end

/-! ## Histories -/

inductive DecodingOp where
  /-- The decoders go on: they are made, load files, and parse discriminators. -/
  | decoders (op : DecoderOp)
  /-- An item of a new block, or of logs that a handler wraps. -/
  | wrap (decoder : Nat) (item : LazyItem)
  /-- `await data.decodedData`, by `DataIDLParser` or by a handler. -/
  | access (index : Nat)
  /-- The method itself, which the sandbox gives to handlers. -/
  | decodeInstructionRaw (decoder : Nat) (instruction : SolanaInstruction)

/-- An item with its getter. -/
structure WrappedItem (V : Type) where
  decoder : Nat
  item : LazyItem
  pendingDecode : Option (Option (DecodedData V))

/-- An answer that somebody got. -/
structure Answer (V : Type) where
  decoder : Nat
  item : LazyItem
  decoded : Option (DecodedData V)

structure Decoding (V : Type) where
  decoders : Decoders
  items : List (WrappedItem V)
  answers : List (Answer V)

namespace Decoding

section

variable {V : Type} (codecs : Codecs V)

def access (index : Nat) (s : Decoding V) : Decoding V :=
  match s.items[index]? with
  | none => s
  | some w =>
    match s.decoders.idls[w.decoder]? with
    | none => s
    | some idls =>
      let decoded := w.pendingDecode.getD (w.item.decode codecs idls)
      { s with
        items := s.items.set index { w with pendingDecode := some decoded }
        answers := s.answers ++ [⟨w.decoder, w.item, decoded⟩] }

def decodeInstructionRaw (decoder : Nat) (instruction : SolanaInstruction) (s : Decoding V) :
    Decoding V :=
  match s.decoders.idls[decoder]? with
  | none => s
  | some idls =>
    { s with answers := s.answers ++
        [⟨decoder, .instruction instruction, idls.decodeInstruction codecs instruction⟩] }

def next (isHex : String → Bool) : DecodingOp → Decoding V → Decoding V
  | .decoders op, s => { s with decoders := s.decoders.next (codecs.parsers isHex) op }
  | .wrap decoder item, s => { s with items := s.items ++ [⟨decoder, item, none⟩] }
  | .access index, s => s.access codecs index
  | .decodeInstructionRaw decoder instruction, s => s.decodeInstructionRaw codecs decoder instruction

end

end Decoding

/-! ## One IDL for good -/

/-- The loop waits for a file of the program. -/
def Loader.Reads (name : String) : Loader → Prop
  | reading entry _ => entry.1 = name
  | _ => False

theorem Idls.not_reads_nextRead {idls : Idls} {name : String} (h : idls.isLoaded name = true)
    (entries : List (String × FileReference)) : ¬(idls.nextRead entries).Reads name := by
  induction entries with
  | nil => exact id
  | cons entry entries ih =>
    unfold nextRead
    split
    · exact ih
    · next hnot =>
      rintro rfl
      exact hnot h

namespace Decoders

/-- The decoder has this IDL for the program, and no file is being read for it. -/
structure Settled (decoder : Nat) (name : String) (idl : IdlDocument) (s : Decoders) : Prop where
  loaded : ∃ idls, s.idls[decoder]? = some idls ∧ idls name = .value idl
  idle : ∀ load ∈ s.loads, load.1 = decoder → ¬load.2.Reads name

namespace Settled

variable {parsers : Parsers} {decoder : Nat} {name : String} {idl : IdlDocument} {s : Decoders}

/-- Whatever starts to load passes the program. -/
theorem loadIdls (h : s.Settled decoder name idl) (d : Nat) (ds : SubqlDatasource) :
    (s.loadIdls d ds).Settled decoder name idl := by
  unfold Decoders.loadIdls
  split
  · exact h
  · next current hcurrent =>
    refine ⟨h.loaded, fun load hload hd => ?_⟩
    rcases List.mem_append.mp hload with hload | hload
    · exact h.idle load hload hd
    · obtain rfl := List.mem_singleton.mp hload
      obtain ⟨idls, hidls, hname⟩ := h.loaded
      obtain rfl : d = decoder := hd
      obtain rfl : current = idls := Option.some.inj (hcurrent.symm.trans hidls)
      apply Idls.not_reads_nextRead
      rw [Idls.isLoaded, hname]
      rfl

/-- What a loop does when its read completes: it leaves the program alone, and goes on to others. -/
theorem resume {idls : Idls} {loader : Loader} (hname : idls name = .value idl)
    (hidle : ¬loader.Reads name) (content : Except String (Nullish IdlDocument)) :
    (loader.resume (fun _ => content) idls).1 name = .value idl ∧
      ¬(loader.resume (fun _ => content) idls).2.Reads name := by
  cases loader with
  | done | failed => exact ⟨hname, id⟩
  | reading entry rest =>
    cases content with
    | error message =>
      rw [Loader.resume_error _ rfl]
      exact ⟨hname, id⟩
    | ok content =>
      rw [Loader.resume_ok _ rfl]
      have hkept : Function.update idls entry.1 content name = .value idl := by
        rw [Function.update_of_ne (Ne.symm hidle), hname]
      refine ⟨hkept, Idls.not_reads_nextRead ?_ rest⟩
      rw [Idls.isLoaded, hkept]
      rfl

theorem readFile (h : s.Settled decoder name idl) (load : Nat)
    (content : Except String (Nullish IdlDocument)) :
    (s.readFile load content).Settled decoder name idl := by
  unfold Decoders.readFile
  cases hload : s.loads[load]? with
  | none => exact h
  | some pair =>
    obtain ⟨d, loader⟩ := pair
    dsimp only
    cases hcurrent : s.idls[d]? with
    | none => exact h
    | some current =>
      dsimp only
      obtain ⟨idls, hidls, hname⟩ := h.loaded
      have hlt : decoder < s.idls.length := (List.getElem?_eq_some_iff.mp hidls).1
      by_cases hd : d = decoder
      · subst hd
        obtain rfl : current = idls := Option.some.inj (hcurrent.symm.trans hidls)
        have hresume := resume hname (h.idle _ (List.mem_of_getElem? hload) rfl) content
        refine ⟨⟨_, by rw [List.getElem?_set_self hlt], hresume.1⟩, fun other hother hd => ?_⟩
        rcases List.mem_or_eq_of_mem_set hother with hother | rfl
        · exact h.idle other hother hd
        · exact hresume.2
      · refine ⟨⟨idls, by rw [List.getElem?_set_ne hd]; exact hidls, hname⟩,
          fun other hother hd' => ?_⟩
        rcases List.mem_or_eq_of_mem_set hother with hother | rfl
        · exact h.idle other hother hd'
        · exact absurd hd' hd

/-- **The step lemma.** -/
theorem next (h : s.Settled decoder name idl) (op : DecoderOp) :
    (s.next parsers op).Settled decoder name idl := by
  cases op with
  | create =>
    obtain ⟨idls, hidls, hname⟩ := h.loaded
    have hlt : decoder < s.idls.length := (List.getElem?_eq_some_iff.mp hidls).1
    exact ⟨⟨idls, by rw [Decoders.next, List.getElem?_append_left hlt]; exact hidls, hname⟩, h.idle⟩
  | loadIdls d ds => exact h.loadIdls d ds
  | readFile load content => exact h.readFile load content
  | parseDiscriminator d input programId =>
    rw [Decoders.next, Decoders.parseDiscriminator]
    split
    · exact h
    · exact ⟨h.loaded, h.idle⟩

/-- **The run lemma.** -/
theorem run (h : s.Settled decoder name idl) (ops : List DecoderOp) :
    (runAll (Decoders.next parsers) ops s).Settled decoder name idl :=
  runAll_invariant (fun op _ h => h.next op) ops h

end Settled

end Decoders

/-! ## Answers -/

namespace Decoding

variable {V : Type} {codecs : Codecs V} {isHex : String → Bool} {decoder : Nat} {name : String}
  {final : Idls} {given : List (Answer V)} {s : Decoding V}

/-- What is decoded for the items of a program, it is with these IDLs. So it was for all answers but those
that had been given before. -/
structure DecodesWith (codecs : Codecs V) (decoder : Nat) (name : String) (final : Idls)
    (given : List (Answer V)) (s : Decoding V) : Prop where
  settled : ∃ idl, final name = .value idl ∧ s.decoders.Settled decoder name idl
  pending : ∀ w ∈ s.items, w.decoder = decoder → w.item.programId = name →
    ∀ decoded ∈ w.pendingDecode, decoded = w.item.decode codecs final
  answers : ∃ later, s.answers = given ++ later ∧
    ∀ answer ∈ later, answer.decoder = decoder → answer.item.programId = name →
      answer.decoded = answer.item.decode codecs final

namespace DecodesWith

/-- Whatever is decoded now is decoded with the same IDL. -/
theorem decode_eq (h : s.DecodesWith codecs decoder name final given) {item : LazyItem} {idls : Idls}
    (hidls : s.decoders.idls[decoder]? = some idls) (hitem : item.programId = name) :
    item.decode codecs idls = item.decode codecs final := by
  obtain ⟨idl, hfinal, hsettled⟩ := h.settled
  obtain ⟨current, hcurrent, hname⟩ := hsettled.loaded
  obtain rfl : idls = current := Option.some.inj (hidls.symm.trans hcurrent)
  apply LazyItem.decode_congr
  rw [hitem, hname, hfinal]

/-- One more answer. -/
theorem answers_append (h : s.DecodesWith codecs decoder name final given) {answer : Answer V}
    (hanswer : answer.decoder = decoder → answer.item.programId = name →
      answer.decoded = answer.item.decode codecs final) :
    ∃ later, s.answers ++ [answer] = given ++ later ∧
      ∀ answer ∈ later, answer.decoder = decoder → answer.item.programId = name →
        answer.decoded = answer.item.decode codecs final := by
  obtain ⟨later, hlater, hall⟩ := h.answers
  refine ⟨later ++ [answer], by rw [hlater, List.append_assoc], ?_⟩
  rw [List.forall_mem_append, List.forall_mem_singleton]
  exact ⟨hall, hanswer⟩

theorem access (h : s.DecodesWith codecs decoder name final given) (index : Nat) :
    (s.access codecs index).DecodesWith codecs decoder name final given := by
  unfold Decoding.access
  cases hw : s.items[index]? with
  | none => exact h
  | some w =>
    dsimp only
    cases hidls : s.decoders.idls[w.decoder]? with
    | none => exact h
    | some idls =>
      have hdecoded : w.decoder = decoder → w.item.programId = name →
          w.pendingDecode.getD (w.item.decode codecs idls) = w.item.decode codecs final := by
        intro hd hitem
        cases hpending : w.pendingDecode with
        | none =>
          rw [hd] at hidls
          exact h.decode_eq hidls hitem
        | some decoded => exact h.pending w (List.mem_of_getElem? hw) hd hitem decoded hpending
      refine ⟨h.settled, fun other hother hd hitem decoded hsome => ?_, h.answers_append hdecoded⟩
      rcases List.mem_or_eq_of_mem_set hother with hother | rfl
      · exact h.pending other hother hd hitem decoded hsome
      · rw [← Option.some.inj hsome]
        exact hdecoded hd hitem

theorem decodeInstructionRaw (h : s.DecodesWith codecs decoder name final given) (d : Nat)
    (instruction : SolanaInstruction) :
    (s.decodeInstructionRaw codecs d instruction).DecodesWith codecs decoder name final given := by
  unfold Decoding.decodeInstructionRaw
  split
  · exact h
  · next idls hidls =>
    refine ⟨h.settled, h.pending, h.answers_append fun hd hitem => ?_⟩
    obtain rfl : d = decoder := hd
    exact h.decode_eq hidls hitem

/-- **The step lemma.** -/
theorem next (h : s.DecodesWith codecs decoder name final given) (op : DecodingOp) :
    (s.next codecs isHex op).DecodesWith codecs decoder name final given := by
  cases op with
  | decoders op =>
    obtain ⟨idl, hfinal, hsettled⟩ := h.settled
    exact ⟨⟨idl, hfinal, hsettled.next op⟩, h.pending, h.answers⟩
  | wrap d item =>
    refine ⟨h.settled, ?_, h.answers⟩
    rw [Decoding.next, List.forall_mem_append, List.forall_mem_singleton]
    refine ⟨h.pending, fun _ _ decoded hsome => ?_⟩
    cases hsome
  | access index => exact h.access index
  | decodeInstructionRaw d instruction => exact h.decodeInstructionRaw d instruction

/-- **The run lemma.** -/
theorem run (h : s.DecodesWith codecs decoder name final given) (ops : List DecodingOp) :
    (runAll (Decoding.next codecs isHex) ops s).DecodesWith codecs decoder name final given :=
  runAll_invariant (fun op _ h => h.next op) ops h

end DecodesWith

/-- A decoder with these IDLs. For none of these programs it is still reading a file, or has been asked
for the data of an item. -/
structure Ready (decoder : Nat) (final : Idls) (programs : List String) (s : Decoding V) : Prop where
  idls : s.decoders.idls[decoder]? = some final
  idle : ∀ load ∈ s.decoders.loads, load.1 = decoder → ∀ name ∈ programs, ¬load.2.Reads name
  unasked : ∀ w ∈ s.items, w.decoder = decoder → w.item.programId ∈ programs →
    w.pendingDecode = none

theorem Ready.decodesWith {programs : List String} (h : s.Ready decoder final programs)
    (hname : name ∈ programs) (hloaded : final.isLoaded name = true) :
    s.DecodesWith codecs decoder name final s.answers := by
  obtain ⟨idl, hidl⟩ := Option.isSome_iff_exists.mp hloaded
  have hvalue := Nullish.toOption_eq_some.mp hidl
  refine ⟨⟨idl, hvalue, ⟨final, h.idls, hvalue⟩, fun load hload hd => h.idle load hload hd name hname⟩,
    fun w hw hd hitem decoded hsome => ?_, [], (List.append_nil _).symm, fun _ hnone => ?_⟩
  · rw [h.unasked w hw hd (hitem ▸ hname)] at hsome
    cases hsome
  · cases hnone

end Decoding

/-! ## After a project change -/

section

variable {readFile : FileReference → Except String (Nullish IdlDocument)} {idls final : Idls}
  {dataSources templates : List SubqlDatasource} {order order' : List Nat}

/-- A file that is read holds an IDL, not `null`. -/
def HoldsIdl (readFile : FileReference → Except String (Nullish IdlDocument))
    (fileRef : FileReference) : Prop :=
  ∀ content, readFile fileRef = .ok content → ∃ idl, content = .value idl

/-- A group that is finished has an IDL for each of its programs. -/
theorem Loading.isLoaded_of_finished (hidls : ∀ entry ∈ entriesOf dataSources, HoldsIdl readFile entry.2)
    (hdone : (loadGroup readFile idls dataSources order).finished = true)
    {entry : String × FileReference} (hentry : entry ∈ entriesOf dataSources) :
    (loadGroup readFile idls dataSources order).idls.isLoaded entry.1 = true := by
  have hunderway := (Underway.start readFile idls dataSources).run order
  rcases hunderway.covered hdone entry hentry with hbefore | ⟨other, hother, hname, hcontent⟩
  · exact hunderway.progress.isLoaded hbefore
  · obtain ⟨idl, hidl⟩ := hidls other hother _ hcontent
    show (Nullish.toOption _).isSome = true
    rw [loadGroup, hidl]
    rfl

theorem isLoaded_of_onProjectChange
    (hidls : ∀ entry ∈ entriesOf dataSources ++ entriesOf templates, HoldsIdl readFile entry.2)
    (hfinal : onProjectChange readFile dataSources templates order order' idls = some final)
    {entry : String × FileReference} (hentry : entry ∈ entriesOf dataSources ++ entriesOf templates) :
    final.isLoaded entry.1 = true := by
  rw [List.forall_mem_append] at hidls
  simp only [onProjectChange] at hfinal
  split at hfinal
  · next hdone =>
    split at hfinal
    · next hdone' =>
      cases hfinal
      rcases List.mem_append.mp hentry with hentry | hentry
      · have hloaded := Loading.isLoaded_of_finished hidls.1 hdone hentry
        exact ((Underway.start readFile _ templates).run order').progress.isLoaded hloaded
      · exact Loading.isLoaded_of_finished hidls.2 hdone' hentry
    · cases hfinal
  · cases hfinal

/-- The programs that a project has IDLs for. -/
def projectPrograms (dataSources templates : List SubqlDatasource) : List String :=
  (entriesOf dataSources ++ entriesOf templates).map Prod.fst

/-- **What is decoded once a project is loaded.** Later loads, of this project or of another, and the
order of everything else make no difference: whoever asks from then on for the data of an item of one of
its programs gets it as the IDLs say that the project change has ended with. -/
theorem decodes_with_project_idls {V : Type} (codecs : Codecs V) (isHex : String → Bool)
    (hidls : ∀ entry ∈ entriesOf dataSources ++ entriesOf templates, HoldsIdl readFile entry.2)
    (hfinal : onProjectChange readFile dataSources templates order order' idls = some final)
    {decoder : Nat} {s : Decoding V}
    (hready : s.Ready decoder final (projectPrograms dataSources templates)) (ops : List DecodingOp) :
    ∀ answer ∈ (runAll (Decoding.next codecs isHex) ops s).answers.drop s.answers.length,
      answer.decoder = decoder → answer.item.programId ∈ projectPrograms dataSources templates →
      answer.decoded = answer.item.decode codecs final := by
  intro answer hanswer hd hprogram
  obtain ⟨entry, hentry, hname⟩ := List.mem_map.mp hprogram
  have hloaded := isLoaded_of_onProjectChange hidls hfinal hentry
  rw [hname] at hloaded
  obtain ⟨later, hlater, hall⟩ := ((hready.decodesWith hprogram hloaded).run ops).answers
  rw [hlater, List.drop_left] at hanswer
  exact hall answer hanswer hd rfl

end

/-! ## A project that is upgraded -/

namespace Upgraded

def idl (name : String) : IdlDocument := .root ⟨⟨"token", "T0ken", [⟨name, [⟨"discriminator",
  .numberTypeNode .u8 .le, some (.numberValueNode 3)⟩]⟩], []⟩⟩

/-- The instruction is named like the file. -/
def readFile (fileRef : FileReference) : Except String (Nullish IdlDocument) :=
  .ok (.value (idl fileRef.file))

def dataSource (file : String) : SubqlDatasource where
  mapping := ⟨[]⟩
  assets := some ⟨[("T0ken", ⟨file⟩)], List.nodup_singleton _⟩

def loaded : Idls := Function.update (fun _ => .undefined) "T0ken" (.value (idl "transfer"))

def transfer : SolanaInstruction :=
  wrapInstruction [0] ⟨[], "4", 0⟩ ⟨["signature"], ["T0ken"], [⟨[], "4", 0⟩], none⟩

/-- Some block was indexed before, with another program in it. -/
def earlier : SolanaInstruction :=
  wrapInstruction [0] ⟨[], "4", 0⟩ ⟨["signature"], ["0ther"], [⟨[], "4", 0⟩], none⟩

/-- The project change has ended, with the `transfer` not yet asked for. -/
def changed : Decoding (List UInt8) where
  decoders := { Decoders.start with idls := [loaded], loads := [(0, .done)] }
  items := [⟨0, .instruction earlier, some none⟩, ⟨0, .instruction transfer, none⟩]
  answers := [⟨0, .instruction earlier, none⟩]

/-- The new project has another file for the program; then the data is asked for, and the file is read
after that. -/
def history : List DecodingOp :=
  [.decoders (.loadIdls 0 (dataSource "move")), .access 1, .decoders (.readFile 1 (readFile ⟨"move"⟩)),
    .access 1, .decodeInstructionRaw 0 transfer]

theorem ready : changed.Ready 0 loaded (projectPrograms [dataSource "transfer"] []) where
  idls := rfl
  idle load hload _ _ _ := by
    obtain rfl := List.mem_singleton.mp hload
    exact id
  unasked w hw _ hprogram := by
    rcases List.mem_pair.mp hw with rfl | rfl
    · exact absurd hprogram (by decide)
    · rfl

/-- It is a `transfer` all three times. -/
theorem stays_transfer :
    ((runAll (Decoding.next plainCodecs fun _ => false) history changed).answers.drop 1).map
      Answer.decoded = List.replicate 3 (loaded.decodeInstruction plainCodecs transfer) := by
  have hloaded : onProjectChange readFile [dataSource "transfer"] [] [0] [] (fun _ => .undefined) =
      some loaded := rfl
  have hasked : ((runAll (Decoding.next plainCodecs fun _ => false) history
      changed).answers.drop 1).map (fun answer => (answer.decoder, answer.item)) =
      List.replicate 3 (0, .instruction transfer) := rfl
  rw [List.eq_replicate_iff]
  refine ⟨rfl, fun decoded hdecoded => ?_⟩
  obtain ⟨answer, hanswer, rfl⟩ := List.mem_map.mp hdecoded
  have hmem : (answer.decoder, answer.item) ∈ List.replicate 3 (0, LazyItem.instruction transfer) :=
    hasked ▸ List.mem_map_of_mem hanswer
  obtain ⟨hd, hitem⟩ := Prod.ext_iff.mp (List.eq_of_mem_replicate hmem)
  have hdecoded := decodes_with_project_idls plainCodecs (fun _ => false)
    (fun _ _ content hread => ⟨_, (Except.ok.inj hread).symm⟩) hloaded ready history answer hanswer hd
    (by rw [show answer.item = _ from hitem]; decide)
  rw [hdecoded, show answer.item = _ from hitem]
  rfl

end Upgraded

end SubqlSolana
