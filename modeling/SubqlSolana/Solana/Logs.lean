import SubqlSolana.Lib.Nesting

/-!
# Attributing log lines to programs

`wrapLogs` of `solana/block.solana.ts`. The runtime writes a flat list of texts; which program wrote a
line is not in the line, but follows from the `invoke` and `success` lines around it. `wrapLogs` keeps
a stack of programs, pushes and pops by the third word of a line, and gives every log line the program
on top.

Below it, what the runtime writes: a `Trace` of invocations, each with the lines that it prints itself
and the invocations it makes. `wrapLogs_attributes` is for every trace, cut off anywhere.
-/

set_option autoImplicit false

namespace SubqlSolana

open Lib

/-! ## `wrapLogs` -/

inductive LogType where
  | log
  | data
  | other
  deriving Repr, DecidableEq

/-- What the promise in `decodedMessage` is for. -/
inductive DecodedMessage where
  /-- `Promise.resolve(null)`. -/
  | null
  /-- `decoder.decodeLog(this)`, when it is asked for. -/
  | decodeLog
  deriving Repr, DecidableEq

/-- A number of one of the two types. -/
inductive JsNumber where
  | number (n : Nat)
  | bigint (n : Nat)
  deriving Repr, DecidableEq

def JsNumber.value : JsNumber → Nat
  | number n | bigint n => n

/-- What `@solana/rpc-transformers` makes of a number. -/
def JsNumber.upcast (n : JsNumber) : JsNumber := bigint n.value

structure SolanaLogMessage where
  message : String
  /-- `none` is `undefined`: the stack was empty. -/
  programId : Option String
  logIndex : JsNumber
  type : LogType
  decodedMessage : DecodedMessage
  deriving Repr, DecidableEq

/-- The entry, with a `bigint` for its index. -/
def SolanaLogMessage.upcast (log : SolanaLogMessage) : SolanaLogMessage :=
  { log with logIndex := log.logIndex.upcast }

/-- `log.split(' ')`. -/
def words (log : String) : List String := (log.split ' ').toList.map String.Slice.copy

def unknownLogMode (mode log : String) : String := s!"Unknown log mode: {mode}, log: {log}"

/-- The `switch` over the mode of a line: the stack after it. -/
def switchMode (instructionPath : List String) (programAddress mode log : String) :
    Except String (List String) :=
  match mode with
  | "invoke" => .ok (instructionPath ++ [programAddress])
  | "success" => .ok instructionPath.dropLast
  | "consumed" => .ok instructionPath
  | "failed:" => .ok instructionPath.dropLast
  | _ => .error (unknownLogMode mode log)

/-- What one line adds to `res`, and the stack after it. -/
def wrapLog (idx : Nat) (instructionPath : List String) (log : String) :
    Except String (List SolanaLogMessage × List String) :=
  if log.startsWith "Program log:" then
    .ok ([⟨log, instructionPath.getLast?, .number idx, .log, .null⟩], instructionPath)
  else if log.startsWith "Program data:" then
    .ok ([⟨log, instructionPath.getLast?, .number idx, .data, .decodeLog⟩], instructionPath)
  else if log.startsWith "Program return:" then
    .ok ([⟨log, instructionPath.getLast?, .number idx, .other, .decodeLog⟩], instructionPath)
  else if log.startsWith "Program consumption:" then
    .ok ([], instructionPath)
  else if log.startsWith "Program" then
    match words log with
    | _ :: programAddress :: mode :: _ =>
      (switchMode instructionPath programAddress mode log).map fun path => ([], path)
    | _ => .error (unknownLogMode "undefined" log)
  else
    -- a warning is logged
    .ok ([], instructionPath)

/-- The loop over the entries of `logs`. -/
def wrapLoop (idx : Nat) (instructionPath : List String) :
    List String → Except String (List SolanaLogMessage)
  | [] => .ok []
  | log :: rest => do
    let (entries, instructionPath) ← wrapLog idx instructionPath log
    let following ← wrapLoop (idx + 1) instructionPath rest
    pure (entries ++ following)

def wrapLogs (logs : Option (List String)) : Except String (Option (List SolanaLogMessage)) :=
  match logs with
  | none => .ok none
  | some logs => (wrapLoop 0 [] logs).map some

/-! ## What the runtime prints -/

/-- The address of a program, as far as the lines are concerned. -/
structure Address where
  text : String
  noSpace : ' ' ∉ text.toList
  noColon : ':' ∉ text.toList

/-- A line that opens and closes nothing. -/
inductive Line where
  | log (text : String)
  | data (text : String)
  | returned (text : String)
  | consumption (text : String)
  | consumed (program : Address) (text : String)
  | foreign (text : String) (h : text.startsWith "Program" = false)

inductive Ending where
  | success
  | failed (text : String)

/-- Invocations, and the lines between them. An invocation prints its depth, too. -/
abbrev Trace : Type := Nesting (Address × Nat) Line Ending

abbrev Printed : Type := Nesting.Event (Address × Nat) Line Ending

def spaced (word rest : String) : String := word ++ " " ++ rest

def Line.text : Line → String
  | log text => "Program log:" ++ text
  | data text => "Program data:" ++ text
  | returned text => "Program return:" ++ text
  | consumption text => "Program consumption:" ++ text
  | consumed program text => spaced "Program" (spaced program.text (spaced "consumed" text))
  | foreign text _ => text

def Ending.text : Ending → String
  | success => "success"
  | failed text => spaced "failed:" text

def printedText : Printed → String
  | .opens (program, depth) =>
    spaced "Program" (spaced program.text (spaced "invoke" s!"[{depth}]"))
  | .leaf line => line.text
  | .closes (program, _) ending => spaced "Program" (spaced program.text ending.text)

/-- The entry of a line: its text, its position, its type and the program that printed it. -/
def Line.entry (program : Option String) (idx : Nat) : Line → List SolanaLogMessage
  | log text => [⟨(log text).text, program, .number idx, .log, .null⟩]
  | data text => [⟨(data text).text, program, .number idx, .data, .decodeLog⟩]
  | returned text => [⟨(returned text).text, program, .number idx, .other, .decodeLog⟩]
  | _ => []

@[simp] theorem Line.text_log (text : String) : (log text).text = "Program log:" ++ text := rfl

@[simp] theorem Line.text_data (text : String) : (data text).text = "Program data:" ++ text := rfl

@[simp] theorem Line.text_returned (text : String) :
    (returned text).text = "Program return:" ++ text := rfl

@[simp] theorem Line.text_consumption (text : String) :
    (consumption text).text = "Program consumption:" ++ text := rfl

@[simp] theorem Line.text_consumed (program : Address) (text : String) :
    (consumed program text).text =
      spaced "Program" (spaced program.text (spaced "consumed" text)) := rfl

@[simp] theorem Line.text_foreign (text : String) (h : text.startsWith "Program" = false) :
    (foreign text h).text = text := rfl

section
variable (program : Option String) (idx : Nat)

@[simp] theorem Line.entry_log (text : String) : (log text).entry program idx =
    [⟨"Program log:" ++ text, program, .number idx, .log, .null⟩] := rfl

@[simp] theorem Line.entry_data (text : String) : (data text).entry program idx =
    [⟨"Program data:" ++ text, program, .number idx, .data, .decodeLog⟩] := rfl

@[simp] theorem Line.entry_returned (text : String) : (returned text).entry program idx =
    [⟨"Program return:" ++ text, program, .number idx, .other, .decodeLog⟩] := rfl

@[simp] theorem Line.entry_consumption (text : String) :
    (consumption text).entry program idx = [] := rfl

@[simp] theorem Line.entry_consumed (address : Address) (text : String) :
    (consumed address text).entry program idx = [] := rfl

@[simp] theorem Line.entry_foreign (text : String) (h : text.startsWith "Program" = false) :
    (foreign text h).entry program idx = [] := rfl

end

/-- The entries of lines that come with the innermost open invocation. -/
def entries (idx : Nat) : List (Printed × Option (Address × Nat)) → List SolanaLogMessage
  | [] => []
  | (.leaf line, invocation) :: rest =>
    line.entry (invocation.map fun i => i.1.text) idx ++ entries (idx + 1) rest
  | _ :: rest => entries (idx + 1) rest

/-! ## One line -/

theorem words_spaced {word : String} (h : ' ' ∉ word.toList) (rest : String) :
    words (spaced word rest) = word :: words rest := by
  have hsplit : (spaced word rest).toList = word.toList ++ ' ' :: rest.toList := by
    simp [spaced]
  rw [words, words, String.toList_split_char, String.toList_split_char, hsplit,
    List.splitOn_append_cons_self_of_not_mem h]
  simp

theorem words_single {word : String} (h : ' ' ∉ word.toList) : words word = [word] := by
  rw [words, String.toList_split_char, List.splitOn_eq_singleton h]
  simp

/-- No word with a colon stands where a line has the address of a program. -/
theorem not_prefix_address {keyword rest : List Char} (hspace : ' ' ∉ keyword)
    (hcolon : ':' ∈ keyword) (program : Address) :
    ¬keyword <+: program.text.toList ++ ' ' :: rest := by
  rintro ⟨t, ht⟩
  rcases List.append_eq_append_iff.mp ht with ⟨as, hp, -⟩ | ⟨bs, hp, hbs⟩
  · exact program.noColon (hp ▸ List.mem_append_left _ hcolon)
  · cases bs with
    | nil =>
      rw [List.append_nil] at hp
      exact program.noColon (hp ▸ hcolon)
    | cons c bs =>
      obtain rfl : ' ' = c := by simpa using congrArg List.head? hbs
      exact hspace (hp ▸ by simp)

theorem not_startsWith_keyword {keyword : String} (hspace : ' ' ∉ keyword.toList)
    (hcolon : ':' ∈ keyword.toList) (program : Address) (rest : String) :
    ¬(spaced "Program" (spaced program.text rest)).startsWith ("Program " ++ keyword) = true := by
  rw [String.startsWith_string_iff]
  intro h
  have h : "Program ".toList ++ keyword.toList <+:
      "Program ".toList ++ (program.text.toList ++ ' ' :: rest.toList) := by
    simpa [spaced] using h
  exact not_prefix_address hspace hcolon program ((List.prefix_append_right_inj _).mp h)

theorem startsWith_append (keyword text : String) : (keyword ++ text).startsWith keyword = true := by
  rw [String.startsWith_string_iff, String.toList_append]
  exact List.prefix_append _ _

/-- Of two keywords that differ in a letter, neither starts a line that the other starts. -/
theorem not_startsWith_append (keyword other text : String)
    (h : ¬keyword.toList <+: other.toList ∧ ¬other.toList <+: keyword.toList) :
    ¬(other ++ text).startsWith keyword = true := by
  rw [String.startsWith_string_iff, String.toList_append]
  intro hprefix
  rcases List.prefix_or_prefix_of_prefix hprefix (List.prefix_append _ _) with hp | hp
  · exact h.1 hp
  · exact h.2 hp

theorem not_startsWith_of_program {text : String} (h : text.startsWith "Program" = false)
    (suffix : String) : ¬text.startsWith ("Program" ++ suffix) = true := by
  rw [String.startsWith_string_eq_false_iff] at h
  rw [String.startsWith_string_iff, String.toList_append]
  exact fun hprefix => h ((List.prefix_append _ _).trans hprefix)

/-- A line that does not start with `Program` is passed over. -/
theorem wrapLog_of_not_program {log : String} (h : log.startsWith "Program" = false) (idx : Nat)
    (path : List String) : wrapLog idx path log = .ok ([], path) := by
  have hnot := not_startsWith_of_program h
  have hlog : "Program log:" = "Program" ++ " log:" := rfl
  have hdata : "Program data:" = "Program" ++ " data:" := rfl
  have hreturn : "Program return:" = "Program" ++ " return:" := rfl
  have hconsumption : "Program consumption:" = "Program" ++ " consumption:" := rfl
  rw [wrapLog, hlog, hdata, hreturn, hconsumption, if_neg (hnot _), if_neg (hnot _),
    if_neg (hnot _), if_neg (hnot _), if_neg (by rw [h]; exact Bool.false_ne_true)]

/-- A line about a program comes to the switch. -/
theorem wrapLog_mode (idx : Nat) (path : List String) (program : Address) {mode rest : String}
    {following : List String} (hwords : words rest = mode :: following) :
    wrapLog idx path (spaced "Program" (spaced program.text rest)) =
      (switchMode path program.text mode (spaced "Program" (spaced program.text rest))).map
        fun path => ([], path) := by
  have hnot := fun {keyword : String} (hspace : ' ' ∉ keyword.toList)
    (hcolon : ':' ∈ keyword.toList) => not_startsWith_keyword hspace hcolon program rest
  have hlog : "Program log:" = "Program " ++ "log:" := rfl
  have hdata : "Program data:" = "Program " ++ "data:" := rfl
  have hreturn : "Program return:" = "Program " ++ "return:" := rfl
  have hconsumption : "Program consumption:" = "Program " ++ "consumption:" := rfl
  have hprogram : (spaced "Program" (spaced program.text rest)).startsWith "Program" = true := by
    rw [spaced, String.append_assoc]
    exact startsWith_append _ _
  have hall : words (spaced "Program" (spaced program.text rest)) =
      "Program" :: program.text :: mode :: following := by
    rw [words_spaced (by decide), words_spaced program.noSpace, hwords]
  unfold wrapLog
  rw [hlog, hdata, hreturn, hconsumption, if_neg (hnot (by decide) (by decide)),
    if_neg (hnot (by decide) (by decide)), if_neg (hnot (by decide) (by decide)),
    if_neg (hnot (by decide) (by decide)), if_pos hprogram, hall]

/-- A line that opens and closes nothing adds its entry, under the program on top. -/
theorem wrapLog_line (idx : Nat) (stack : List (Address × Nat)) (line : Line) :
    wrapLog idx (stack.map fun i => i.1.text) line.text =
      .ok (line.entry (stack.getLast?.map fun i => i.1.text) idx ++ [],
        stack.map fun i => i.1.text) := by
  rw [List.append_nil, ← List.getLast?_map]
  generalize stack.map (fun i => i.1.text) = path
  cases line with
  | log text =>
    have hlog := startsWith_append "Program log:" text
    rw [Line.text_log, Line.entry_log, wrapLog]
    rw [if_pos hlog]
  | data text =>
    have hdata := startsWith_append "Program data:" text
    have hlog := not_startsWith_append "Program log:" "Program data:" text (by decide)
    rw [Line.text_data, Line.entry_data, wrapLog]
    rw [if_neg hlog, if_pos hdata]
  | returned text =>
    have hreturn := startsWith_append "Program return:" text
    have hlog := not_startsWith_append "Program log:" "Program return:" text (by decide)
    have hdata := not_startsWith_append "Program data:" "Program return:" text (by decide)
    rw [Line.text_returned, Line.entry_returned, wrapLog]
    rw [if_neg hlog, if_neg hdata, if_pos hreturn]
  | consumption text =>
    have hconsumption := startsWith_append "Program consumption:" text
    have hlog := not_startsWith_append "Program log:" "Program consumption:" text (by decide)
    have hdata := not_startsWith_append "Program data:" "Program consumption:" text (by decide)
    have hreturn := not_startsWith_append "Program return:" "Program consumption:" text (by decide)
    rw [Line.text_consumption, Line.entry_consumption, wrapLog]
    rw [if_neg hlog, if_neg hdata, if_neg hreturn, if_pos hconsumption]
  | consumed program text =>
    rw [Line.text_consumed, Line.entry_consumed,
      wrapLog_mode idx _ program (words_spaced (by decide) _)]
    simp only [switchMode, Except.map]
  | foreign text h =>
    rw [Line.text_foreign, Line.entry_foreign]
    exact wrapLog_of_not_program h idx path

/-- **One line**: what `wrapLog` adds is the entry of the line, and its stack is that of a reader of
nested calls. -/
theorem wrapLog_printed (idx : Nat) (stack : List (Address × Nat)) (event : Printed) :
    wrapLog idx (stack.map fun i => i.1.text) (printedText event) =
      .ok (entries idx [(event, stack.getLast?)],
        (event.next stack).map fun i => i.1.text) := by
  cases event with
  | opens i =>
    obtain ⟨program, depth⟩ := i
    rw [printedText, wrapLog_mode idx _ program (words_spaced (by decide) _)]
    simp only [switchMode, Except.map, entries, Nesting.Event.next, List.map_append, List.map_cons,
      List.map_nil]
  | closes i ending =>
    obtain ⟨program, depth⟩ := i
    cases ending with
    | success =>
      rw [printedText, Ending.text, wrapLog_mode idx _ program (words_single (by decide))]
      simp only [switchMode, Except.map, entries, Nesting.Event.next, List.map_dropLast]
    | failed text =>
      rw [printedText, Ending.text, wrapLog_mode idx _ program (words_spaced (by decide) _)]
      simp only [switchMode, Except.map, entries, Nesting.Event.next, List.map_dropLast]
  | leaf line => exact wrapLog_line idx _ line

/-! ## A trace -/

theorem wrapLoop_printed (events : List Printed) : ∀ (idx : Nat) (stack : List (Address × Nat)),
    wrapLoop idx (stack.map fun i => i.1.text) (events.map printedText) =
      .ok (entries idx (Nesting.tops stack events)) := by
  induction events with
  | nil => exact fun _ _ => rfl
  | cons event events ih =>
    intro idx stack
    rw [List.map_cons, wrapLoop, wrapLog_printed]
    show (wrapLoop (idx + 1) _ _ >>= _ : Except String _) = _
    rw [ih]
    cases event <;> simp [entries, Nesting.tops, pure, Except.pure, bind, Except.bind]

/-- **Every log line is attributed to the program that printed it**: for the first `k` lines of a trace,
`wrapLogs` returns the entries of exactly the lines that have one, in order, each with its position and
with the innermost invocation that is open there. -/
theorem wrapLogs_attributes (trace : Trace) (k : Nat) :
    wrapLogs (some ((trace.events.map printedText).take k)) =
      .ok (some (entries 0 ((trace.within none).take k))) := by
  have hloop := wrapLoop_printed (trace.events.take k) 0 []
  rw [Nesting.tops_take, Nesting.tops_events, List.map_take] at hloop
  exact congrArg (Except.map some) hloop

end SubqlSolana
