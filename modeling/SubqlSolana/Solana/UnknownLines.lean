import SubqlSolana.Lib.Fallible
import SubqlSolana.Solana.Block

/-!
# Lines of no known form

`wrapLogs` tells lines apart by four prefixes and, for any other line that starts with `Program`, by
its third word. A line that starts with anything else is passed over with a warning. A line that does
start with `Program` and whose third word is not one of the four modes is not: it throws, and with it
`transformBlock`, so that the whole block cannot be indexed. The runtime prints such lines
(`Program failed to complete: …`).

`SkipsUnrecognised` is what the other branch promises, of a whole block, and
`skipsUnrecognised_iff` says for which blocks it is kept: **those with no line of the second kind**.
-/

set_option autoImplicit false

namespace SubqlSolana

open Lib

/-! ## The forms of a line -/

def keywords : List String :=
  ["Program log:", "Program data:", "Program return:", "Program consumption:"]

def logModes : List String := ["invoke", "success", "consumed", "failed:"]

def startsWithKeyword (log : String) : Bool := keywords.any fun keyword => log.startsWith keyword

/-- The third word of a line. -/
def modeOf (log : String) : Option String := (words log)[2]?

def recognised (log : String) : Bool :=
  startsWithKeyword log ||
    (log.startsWith "Program" && (modeOf log).any fun mode => logModes.contains mode)

/-- A line that only looks like one about a program. -/
def misleading (log : String) : Bool := log.startsWith "Program" && !recognised log

/-- An empty line in place of one that has no known form; the others keep their positions. -/
def skipUnrecognised (log : String) : String := if recognised log then log else ""

/-! ## What is expected of a block -/

/-- The lines that `transformBlock` reads. -/
def RawMeta.lines (raw : RawMeta) : List String :=
  match raw.logs with
  | none => raw.logMessages.getD []
  | some _ => []

def TransactionForFullJson.lines (tx : TransactionForFullJson) : List String :=
  match tx.meta with
  | none => []
  | some raw => raw.lines

/-- A transaction is there, and its logs are those of its recognised lines. -/
structure Skipped (raw : TransactionForFullJson) (tx : SolanaTransaction) : Prop where
  kept : tx = wrapTransaction raw tx.meta
  logs : ∀ m, raw.meta = some m → m.logs = none → ∃ m', tx.meta = some m' ∧
    wrapLogs (m.logMessages.map fun lines => lines.map skipUnrecognised) = .ok m'.logs

def SkipsUnrecognised (block : RawSolanaBlock) : Prop :=
  ∃ transformed, transformBlock block = .ok transformed ∧
    List.Forall₂ Skipped block.transactions transformed.transactions

/-! ## One line -/

theorem switchMode_isOk_iff (path : List String) (program mode log : String) :
    (∃ path', switchMode path program mode log = .ok path') ↔ mode ∈ logModes := by
  unfold switchMode logModes
  split <;> simp_all

theorem wrapLog_of_keyword {log : String} (h : startsWithKeyword log = true) (idx : Nat)
    (path : List String) : ∃ r, wrapLog idx path log = .ok r := by
  unfold wrapLog
  by_cases hlog : log.startsWith "Program log:" = true
  · exact ⟨_, if_pos hlog⟩
  · rw [if_neg hlog]
    by_cases hdata : log.startsWith "Program data:" = true
    · exact ⟨_, if_pos hdata⟩
    · rw [if_neg hdata]
      by_cases hreturn : log.startsWith "Program return:" = true
      · exact ⟨_, if_pos hreturn⟩
      · rw [if_neg hreturn]
        have hconsumption : log.startsWith "Program consumption:" = true := by
          simpa [startsWithKeyword, keywords, hlog, hdata, hreturn] using h
        exact ⟨_, if_pos hconsumption⟩

/-- A line that no branch of its own takes comes to the switch. -/
theorem wrapLog_of_not_keyword {log : String} (h : startsWithKeyword log = false)
    (hprogram : log.startsWith "Program" = true) (idx : Nat) (path : List String) :
    (∃ r, wrapLog idx path log = .ok r) ↔ ∃ mode, modeOf log = some mode ∧ mode ∈ logModes := by
  simp only [startsWithKeyword, keywords, List.any_cons, List.any_nil, Bool.or_false,
    Bool.or_eq_false_iff] at h
  obtain ⟨hlog, hdata, hreturn, hconsumption⟩ := h
  unfold wrapLog modeOf
  rw [if_neg (ne_true_of_eq_false hlog), if_neg (ne_true_of_eq_false hdata),
    if_neg (ne_true_of_eq_false hreturn), if_neg (ne_true_of_eq_false hconsumption),
    if_pos hprogram]
  -- only a line of three words has a mode
  match words log with
  | [] | [_] | [_, _] => simp
  | _ :: program :: mode :: _ =>
    have hswitch := switchMode_isOk_iff path program mode log
    cases hmode : switchMode path program mode log with
    | ok path' => simpa [hmode, Except.map] using hswitch
    | error e => simpa [hmode, Except.map] using hswitch

/-- A line is wrapped unless it is misleading, whatever program is on top. -/
theorem wrapLog_isOk_iff {log : String} (idx : Nat) (path : List String) :
    (∃ r, wrapLog idx path log = .ok r) ↔ misleading log = false := by
  by_cases hprogram : log.startsWith "Program" = true
  · by_cases hkeyword : startsWithKeyword log = true
    · simp [misleading, recognised, hkeyword, wrapLog_of_keyword hkeyword]
    · rw [Bool.not_eq_true] at hkeyword
      rw [wrapLog_of_not_keyword hkeyword hprogram]
      simp [misleading, recognised, hkeyword, hprogram, Option.any_eq_true]
  · rw [Bool.not_eq_true] at hprogram
    rw [wrapLog_of_not_program hprogram]
    simp [misleading, hprogram]

/-- What is not misleading and has no known form does not start with `Program`. -/
theorem wrapLog_skipUnrecognised {log : String} (h : misleading log = false) (idx : Nat)
    (path : List String) : wrapLog idx path (skipUnrecognised log) = wrapLog idx path log := by
  unfold skipUnrecognised
  by_cases hknown : recognised log = true
  · rw [if_pos hknown]
  · have hprogram : log.startsWith "Program" = false := by simpa [misleading, hknown] using h
    have hempty : "".startsWith "Program" = false := by decide
    rw [if_neg hknown, wrapLog_of_not_program hprogram, wrapLog_of_not_program hempty]

/-! ## The lines of a transaction -/

theorem wrapLoop_isOk_iff {logs : List String} : ∀ (idx : Nat) (path : List String),
    (∃ r, wrapLoop idx path logs = .ok r) ↔ ∀ log ∈ logs, misleading log = false := by
  induction logs with
  | nil => exact fun _ _ => ⟨fun _ _ h => absurd h List.not_mem_nil, fun _ => ⟨[], rfl⟩⟩
  | cons log logs ih =>
    intro idx path
    apply Iff.intro
    · intro h
      obtain ⟨r, h⟩ := h
      obtain ⟨entry, hentry, h⟩ := bind_eq_ok.mp h
      obtain ⟨following, hfollowing, -⟩ := bind_eq_ok.mp h
      intro log' hmem
      rcases List.mem_cons.mp hmem with heq | htail
      · exact heq ▸ (wrapLog_isOk_iff idx path).mp ⟨entry, hentry⟩
      · exact (ih (idx + 1) entry.2).mp ⟨following, hfollowing⟩ log' htail
    · intro h
      obtain ⟨entry, hentry⟩ := (wrapLog_isOk_iff idx path).mpr (h log List.mem_cons_self)
      obtain ⟨following, hfollowing⟩ := (ih (idx + 1) entry.2).mpr fun log' htail =>
        h log' (List.mem_cons_of_mem _ htail)
      exact ⟨_, bind_eq_ok.mpr ⟨entry, hentry, bind_eq_ok.mpr ⟨following, hfollowing, rfl⟩⟩⟩

theorem wrapLoop_skipUnrecognised {logs : List String} (h : ∀ log ∈ logs, misleading log = false) :
    ∀ (idx : Nat) (path : List String),
      wrapLoop idx path (logs.map skipUnrecognised) = wrapLoop idx path logs := by
  induction logs with
  | nil => exact fun _ _ => rfl
  | cons log logs ih =>
    intro idx path
    have hlog := h log List.mem_cons_self
    have htail := ih fun log' hmem => h log' (List.mem_cons_of_mem _ hmem)
    simp only [List.map_cons, wrapLoop, wrapLog_skipUnrecognised hlog, htail]

theorem wrapLogs_isOk_iff {logs : Option (List String)} :
    (∃ r, wrapLogs logs = .ok r) ↔ ∀ log ∈ logs.getD [], misleading log = false := by
  cases logs with
  | none => exact ⟨fun _ _ h => absurd h List.not_mem_nil, fun _ => ⟨none, rfl⟩⟩
  | some logs =>
    rw [Option.getD_some, ← wrapLoop_isOk_iff 0 []]
    show (∃ r, (wrapLoop 0 [] logs).map some = .ok r) ↔ _
    cases wrapLoop 0 [] logs <;> simp [Except.map]

theorem wrapLogs_skipUnrecognised {logs : Option (List String)}
    (h : ∀ log ∈ logs.getD [], misleading log = false) :
    wrapLogs (logs.map fun lines => lines.map skipUnrecognised) = wrapLogs logs := by
  cases logs with
  | none => rfl
  | some logs => exact congrArg (Except.map some) (wrapLoop_skipUnrecognised h 0 [])

/-! ## Transactions and blocks -/

theorem transformMeta_isOk_iff (tx : TransactionForFullJson) {raw : RawMeta} :
    (∃ m, transformMeta tx raw = .ok m) ↔ ∀ log ∈ raw.lines, misleading log = false := by
  have hlogs : (∃ m, transformMeta tx raw = .ok m) ↔ ∃ logs, raw.wrappedLogs = .ok logs := by
    rw [transformMeta_eq]
    cases raw.wrappedLogs <;> simp [Except.map]
  rw [hlogs]
  unfold RawMeta.wrappedLogs RawMeta.lines
  cases raw.logs with
  | some logs => exact ⟨fun _ _ h => absurd h List.not_mem_nil, fun _ => ⟨_, rfl⟩⟩
  | none => exact wrapLogs_isOk_iff

theorem transformMeta_logs {tx : TransactionForFullJson} {raw : RawMeta} {m : TransactionMeta}
    (h : transformMeta tx raw = .ok m) (hlogs : raw.logs = none) :
    wrapLogs raw.logMessages = .ok m.logs := by
  rw [transformMeta_eq, RawMeta.wrappedLogs, hlogs] at h
  obtain ⟨logs, hwrap, rfl⟩ := map_eq_ok.mp h
  exact hwrap

section
variable {tx : TransactionForFullJson} {raw : RawMeta}

theorem transformTransaction_isOk_iff :
    (∃ tx', transformTransaction tx = .ok tx') ↔ ∀ log ∈ tx.lines, misleading log = false := by
  cases hmeta : tx.meta with
  | none => simp [transformTransaction_of_none hmeta, TransactionForFullJson.lines, hmeta]
  | some raw =>
    have hlines : tx.lines = raw.lines := by simp only [TransactionForFullJson.lines, hmeta]
    rw [hlines, ← transformMeta_isOk_iff tx]
    cases htransform : transformMeta tx raw with
    | ok m => simp [transformTransaction_of_meta hmeta htransform]
    | error e => simp [transformTransaction_failed hmeta htransform]

/-- A transaction that is returned has the logs of its recognised lines. -/
theorem skipped_of_transformTransaction {tx' : SolanaTransaction}
    (h : transformTransaction tx = .ok tx') : Skipped tx tx' := by
  cases hmeta : tx.meta with
  | none =>
    rw [transformTransaction_of_none hmeta] at h
    cases h
    exact ⟨rfl, fun m hm => by rw [hmeta] at hm; cases hm⟩
  | some raw =>
    cases htransform : transformMeta tx raw with
    | error e =>
      rw [transformTransaction_failed hmeta htransform] at h
      cases h
    | ok m' =>
      rw [transformTransaction_of_meta hmeta htransform] at h
      cases h
      refine ⟨rfl, fun m hm hnone => ⟨m', rfl, ?_⟩⟩
      obtain rfl : raw = m := Option.some.inj (hmeta.symm.trans hm)
      have hlines := (transformMeta_isOk_iff _).mp ⟨m', htransform⟩
      simp only [RawMeta.lines, hnone] at hlines
      rw [wrapLogs_skipUnrecognised hlines]
      exact transformMeta_logs htransform hnone

end

theorem forall₂_of_transformBlock {raw : RawSolanaBlock} {block : SolanaBlock}
    (h : transformBlock raw = .ok block) :
    List.Forall₂ (fun tx tx' => transformTransaction tx = .ok tx') raw.transactions
      block.transactions := by
  obtain ⟨transactions, htransactions, hblock⟩ := bind_eq_ok.mp h
  cases hblock
  exact forall₂_of_mapM htransactions

/-- A block is transformed unless one of its lines is misleading. -/
theorem transformBlock_isOk_iff {raw : RawSolanaBlock} :
    (∃ block, transformBlock raw = .ok block) ↔
      ∀ tx ∈ raw.transactions, ∀ log ∈ tx.lines, misleading log = false := by
  apply Iff.intro
  · intro h
    obtain ⟨block, hblock⟩ := h
    obtain ⟨transactions, htransactions, -⟩ := bind_eq_ok.mp hblock
    intro tx hmem
    exact transformTransaction_isOk_iff.mp (ok_of_mapM htransactions tx hmem)
  · intro h
    obtain ⟨transactions, htransactions, -⟩ := mapM_ok fun tx hmem =>
      transformTransaction_isOk_iff.mpr (h tx hmem)
    exact ⟨_, bind_eq_ok.mpr ⟨transactions, htransactions, rfl⟩⟩

/-- **When lines of no known form are skipped.** -/
theorem skipsUnrecognised_iff (block : RawSolanaBlock) :
    SkipsUnrecognised block ↔
      ∀ tx ∈ block.transactions, ∀ log ∈ tx.lines, misleading log = false := by
  rw [← transformBlock_isOk_iff]
  apply Iff.intro
  · intro h
    obtain ⟨transformed, htransformed, -⟩ := h
    exact ⟨transformed, htransformed⟩
  · intro h
    obtain ⟨transformed, htransformed⟩ := h
    have hall := forall₂_of_transformBlock htransformed
    exact ⟨transformed, htransformed, hall.imp fun _ _ => skipped_of_transformTransaction⟩

namespace FailedToComplete

def line : String := "Program failed to complete: exceeded CUs meter at BPF instruction"

def raw : RawMeta := ⟨none, ⟨[], []⟩, none, some [line], none⟩

def transaction : TransactionForFullJson := ⟨["signature"], [], [], some raw⟩

def block : RawSolanaBlock := ⟨⟨7, 0, "hash", 6, "parent"⟩, [transaction]⟩

theorem line_misleading : misleading line = true := by
  have hline : line = spaced "Program" (spaced "failed" (spaced "to"
      "complete: exceeded CUs meter at BPF instruction")) := by decide
  have hmode : modeOf line = some "to" := by
    rw [modeOf, hline, words_spaced (by decide), words_spaced (by decide), words_spaced (by decide)]
    rfl
  have hkeyword : startsWithKeyword line = false := by
    have hprefix : ∀ keyword ∈ keywords, ¬keyword.toList <+: line.toList := by decide
    simpa [startsWithKeyword, String.startsWith_string_iff] using hprefix
  have hprogram : line.startsWith "Program" = true := by
    rw [String.startsWith_string_iff]
    decide
  have hother : "to" ∉ logModes := by decide
  simp [misleading, recognised, hkeyword, hprogram, hmode, hother]

/-- One such line, and there is no block. -/
theorem block_is_lost :
    transformBlock block = .error "Failed to transform transaction: signature" ∧
      ¬SkipsUnrecognised block := by
  have hlost : transformBlock block = .error "Failed to transform transaction: signature" := by
    cases htransform : transformMeta transaction raw with
    | ok m =>
      have hline := (transformMeta_isOk_iff _).mp ⟨m, htransform⟩ line List.mem_cons_self
      rw [line_misleading] at hline
      cases hline
    | error e =>
      have hmeta : transaction.meta = some raw := rfl
      have hfailed := transformTransaction_failed hmeta htransform
      simp only [transformBlock, block, List.mapM_cons, hfailed]
      decide
  apply And.intro hlost
  intro h
  obtain ⟨transformed, htransformed, -⟩ := h
  rw [hlost] at htransformed
  cases htransformed

end FailedToComplete

end SubqlSolana
