import Ghostlane.App.Strings
import Ghostlane.Lib.Cut
import Ghostlane.Lib.Quoting
import Mathlib.Data.List.MinMax

/-!
# Ghostlane.Desktop.WindowsRestart

The restart of the program as administrator on Windows (`vpn/desktop/WindowsTunController.kt`,
`restartAsAdministratorScript`). The arguments are put into one command line, and the command, the
command line and the directory into a PowerShell script, each in single quotes.

PowerShell ends a part in single quotes at any of five quotes, of which the script doubles one; what
it makes of the script is `started`.
-/

namespace Ghostlane.Desktop

open Ghostlane.Lib App

namespace WindowsTunController

/-! ### The script -/

/-- A line's indentation, all of it where it is blank. -/
def indentWidth (line : Text) : Nat := (line.takeWhile isWhitespace).length

/-- `trimIndent`: the blanks that all lines begin with are cut, and a blank line at either end is
dropped. -/
def trimIndent (t : Text) : Text :=
  let all := lines t
  let indent := (((all.filter (!isBlank ·)).map indentWidth).min?).getD 0
  let kept := if all.head?.any (isBlank ·) then all.tail else all
  let kept := if 1 < all.length ∧ all.getLast?.any (isBlank ·) then kept.dropLast else kept
  ['\n'].intercalate (kept.map (·.drop indent))

def powershellLiteral (t : Text) : Text := '\'' :: doubled '\'' t ++ ['\'']

def windowsCommandLineArgument (t : Text) : Text :=
  if t = [] then txt "\"\""
  else if t.all fun c => !(isWhitespace c || c == '"') then t
  else '"' :: quotedFrom 0 t

def restartAsAdministratorScript (command : Text) (arguments : List Text)
    (workingDirectory : Text) : Text :=
  let quotedArguments :=
    powershellLiteral ([' '].intercalate (arguments.map windowsCommandLineArgument))
  let workingDirectoryLine :=
    ((nonBlank workingDirectory).map fun d =>
      txt "  WorkingDirectory = " ++ powershellLiteral d).getD []
  trimIndent <| ['\n'].intercalate [
    [],
    txt "                $ErrorActionPreference = 'Stop'",
    txt "                $startArgs = @\x7b",
    txt "                  FilePath = " ++ powershellLiteral command,
    txt "                  Verb = 'RunAs'",
    txt "                  ArgumentList = " ++ quotedArguments,
    txt "                " ++ workingDirectoryLine,
    txt "                \x7d",
    txt "                Start-Process @startArgs | Out-Null",
    txt "            "]

/-! ### What PowerShell makes of it -/

/-- The quotes that end a part in single quotes. -/
def isSingleQuote (c : Char) : Bool :=
  c == '\'' || (0x2018 ≤ c.toNat && c.toNat ≤ 0x201B)

/-- What `Start-Process` is asked for. Without a directory the new process is given none. -/
structure Started where
  filePath : Text
  argumentList : Text
  workingDirectory : Option Text
  deriving DecidableEq, Repr

/-- What stands behind a text that is expected. -/
def past (expected : String) (t : Text) : Option Text :=
  if startsWith t (txt expected) then some (t.drop expected.toList.length) else none

/-- The directory, where a script of this form has one, and what stands behind it. -/
def readDirectory (t : Text) : Option (Option Text × Text) :=
  match past "\n  WorkingDirectory = '" t with
  | some t => (readQuoted isSingleQuote t).map fun p => (some p.1, p.2)
  | none => (past "\n" t).map fun t => (none, t)

/-- The start that a script of this form asks for. Where a part ends elsewhere than the form has
it, what follows is other code, and nothing is told of it here. `Start-Process` refuses an empty
file path or argument list. -/
def started (script : Text) : Option Started := do
  let t ← past "$ErrorActionPreference = 'Stop'\n$startArgs = @\x7b\n  FilePath = '" script
  let (filePath, t) ← readQuoted isSingleQuote t
  let t ← past "\n  Verb = 'RunAs'\n  ArgumentList = '" t
  let (argumentList, t) ← readQuoted isSingleQuote t
  let (workingDirectory, t) ← readDirectory t
  if t = txt "\n\x7d\nStart-Process @startArgs | Out-Null" ∧ filePath ≠ [] ∧ argumentList ≠ [] then
    some { filePath, argumentList, workingDirectory }
  else none

/-- The script starts the command in the directory, if that is not blank, with a command line that
is split into the arguments. -/
def Restarts (command : Text) (arguments : List Text) (workingDirectory : Text) : Prop :=
  ∃ line, started (restartAsAdministratorScript command arguments workingDirectory) =
    some ⟨command, line, nonBlank workingDirectory⟩ ∧ splitArguments line = arguments

/-! ### The lines of the script -/

theorem lines_intercalate {ls : List Text} (hne : ls ≠ []) (h : ∀ l ∈ ls, OneLine l) :
    lines (['\n'].intercalate ls) = ls := by
  induction ls with
  | nil => exact absurd rfl hne
  | cons l ls ih =>
      obtain ⟨hl, hls⟩ := List.forall_mem_cons.mp h
      cases ls with
      | nil => rw [List.intercalate_singleton, lines_of_oneLine hl]
      | cons l' ls =>
          rw [List.intercalate_cons_cons, List.append_assoc, List.singleton_append, lines_append hl,
            ih (List.cons_ne_nil l' ls) hls]

def blanks (n : Nat) : Text := List.replicate n ' '

theorem isBlank_blanks (n : Nat) : isBlank (blanks n) = true :=
  List.all_eq_true.mpr fun c hc => by
    rw [List.eq_of_mem_replicate hc]
    rfl

theorem indentWidth_blanks (n : Nat) (t : Text) :
    indentWidth (blanks n ++ t) = n + indentWidth t := by
  have hblank := List.all_eq_true.mp (isBlank_blanks n)
  rw [indentWidth, List.takeWhile_append_of_pos hblank, List.length_append, blanks,
    List.length_replicate, indentWidth]

theorem isBlank_append (t u : Text) : isBlank (t ++ u) = (isBlank t && isBlank u) :=
  List.all_append

/-- Lines indented alike lose the indentation, and the blank lines around them are dropped. -/
theorem trimIndent_indented {ls : List Text} (hlines : ∀ l ∈ ls, OneLine l)
    (hleft : ∃ l ∈ ls, isBlank l = false ∧ indentWidth l = 0) (n m : Nat) :
    trimIndent (['\n'].intercalate ([] :: (ls.map (blanks n ++ ·) ++ [blanks m]))) =
      ['\n'].intercalate ls := by
  have hblank : ∀ k, OneLine (blanks k) := by
    intro k c hc
    rw [List.eq_of_mem_replicate hc]
    decide
  have hall : ∀ l ∈ [] :: (ls.map (blanks n ++ ·) ++ [blanks m]), OneLine l := by
    intro l hl
    rcases List.mem_cons.mp hl with rfl | hl
    · exact fun c hc => absurd hc List.not_mem_nil
    · rcases List.mem_append.mp hl with hl | hl
      · obtain ⟨l', hl', rfl⟩ := List.mem_map.mp hl
        exact oneLine_append.mpr ⟨hblank n, hlines l' hl'⟩
      · rw [List.mem_singleton.mp hl]
        exact hblank m
  have hmin : ((([] :: (ls.map (blanks n ++ ·) ++ [blanks m])).filter (!isBlank ·)).map
      indentWidth).min? = some n := by
    rw [List.min?_eq_some_iff]
    constructor
    · obtain ⟨l, hl, hmark, hwidth⟩ := hleft
      refine List.mem_map.mpr ⟨blanks n ++ l, List.mem_filter.mpr ⟨?_, ?_⟩, ?_⟩
      · exact List.mem_cons_of_mem _ (List.mem_append_left _ (List.mem_map.mpr ⟨l, hl, rfl⟩))
      · rw [isBlank_append, hmark, Bool.and_false]
        rfl
      · rw [indentWidth_blanks, hwidth, Nat.add_zero]
    · intro width hwidth
      obtain ⟨l, hl, rfl⟩ := List.mem_map.mp hwidth
      obtain ⟨hl, hmark⟩ := List.mem_filter.mp hl
      rcases List.mem_cons.mp hl with rfl | hl
      · cases hmark
      · rcases List.mem_append.mp hl with hl | hl
        · obtain ⟨l', -, rfl⟩ := List.mem_map.mp hl
          rw [indentWidth_blanks]
          exact Nat.le_add_right n _
        · rw [List.mem_singleton.mp hl, isBlank_blanks] at hmark
          cases hmark
  rw [trimIndent, lines_intercalate (List.cons_ne_nil _ _) hall]
  rw [hmin]
  have hlast : ([] :: (ls.map (blanks n ++ ·) ++ [blanks m])).getLast? = some (blanks m) := by
    rw [← List.cons_append, List.getLast?_concat]
  have hcut : ∀ l : Text, (blanks n ++ l).drop n = l := by
    intro l
    rw [List.drop_append_of_le_length (by simp [blanks]), List.drop_of_length_le (by simp [blanks]),
      List.nil_append]
  simp [hlast, isBlank_blanks, isBlank_nil, hcut, Function.comp_def]

/-- A text on one line stays on it in quotes. -/
theorem oneLine_powershellLiteral {t : Text} (h : OneLine t) : OneLine (powershellLiteral t) := by
  intro c hc
  rcases List.mem_cons.mp hc with rfl | hc
  · decide
  · rcases List.mem_append.mp hc with hc | hc
    · obtain ⟨d, hd, hc⟩ := List.mem_flatMap.mp hc
      have hcd : c = d := by
        split at hc <;> simp_all
      exact hcd ▸ h d hd
    · rw [List.mem_singleton.mp hc]
      decide

/-! ### The command line -/

def commandLine (arguments : List Text) : Text :=
  [' '].intercalate (arguments.map windowsCommandLineArgument)

theorem isWhitespace_of_isSeparator {c : Char} (h : isSeparator c = true) :
    isWhitespace c = true := by
  rcases isSeparator_cases h with rfl | rfl <;> rfl

theorem argumentsFrom_windowsCommandLineArgument {rest : Text} (hrest : EndsArgument rest)
    (t : Text) : argumentsFrom none .bare 0 (windowsCommandLineArgument t ++ rest) =
      t :: splitArguments rest := by
  have hquoted : ∀ u : Text, argumentsFrom none .bare 0 ('"' :: (quotedFrom 0 u ++ rest)) =
      u :: splitArguments rest := by
    intro u
    have hread := argumentsFrom_quotedFrom (w := []) (t := u) hrest 0
    rwa [argumentsFrom, if_neg (by decide), if_pos rfl]
  rw [windowsCommandLineArgument]
  split_ifs with hempty hplain
  · rw [hempty]
    exact hquoted []
  · rw [List.all_eq_true] at hplain
    have hbare : ∀ c ∈ t, isSeparator c = false ∧ c ≠ '"' := by
      intro c hc
      have hmark := hplain c hc
      rw [Bool.not_eq_true', Bool.or_eq_false_iff, beq_eq_false_iff_ne] at hmark
      refine ⟨?_, hmark.2⟩
      rw [← Bool.not_eq_true]
      exact fun hsep => Bool.false_ne_true (hmark.1.symm.trans (isWhitespace_of_isSeparator hsep))
    obtain ⟨c, t, rfl⟩ := List.exists_cons_of_ne_nil hempty
    -- The first character begins the argument.
    have hbegin : argumentsFrom none .bare 0 (c :: t ++ rest) =
        argumentsFrom (some []) .bare 0 (c :: t ++ rest) := by
      have hc := hbare c List.mem_cons_self
      have hnext : ¬ (Quoted.bare ≠ .within ∧ isSeparator c = true) := fun h =>
        Bool.false_ne_true (hc.1.symm.trans h.2)
      rw [List.cons_append, argumentsFrom, argumentsFrom]
      simp only [if_neg hc.2, if_neg hnext]
      rfl
    rw [hbegin, argumentsFrom_bare hbare hrest]
    rfl
  · exact hquoted t

/-- **The command line is split into the arguments.** -/
theorem splitArguments_commandLine (arguments : List Text) :
    splitArguments (commandLine arguments) = arguments := by
  induction arguments with
  | nil => rfl
  | cons a arguments ih =>
      cases arguments with
      | nil =>
          have hend : EndsArgument [] := fun c hc => by cases hc
          have hread := argumentsFrom_windowsCommandLineArgument hend a
          rw [List.append_nil] at hread
          rw [commandLine, List.map_singleton, List.intercalate_singleton, splitArguments, hread]
          rfl
      | cons b arguments =>
          have hblank : ∀ u, EndsArgument (' ' :: u) := fun u c hc => by
            rw [← Option.some.inj hc]
            rfl
          rw [commandLine, List.map_cons, List.map_cons, List.intercalate_cons_cons,
            List.append_assoc, List.singleton_append, splitArguments,
            argumentsFrom_windowsCommandLineArgument (hblank _)]
          refine congrArg (a :: ·) ?_
          rw [← ih, commandLine, List.map_cons]
          rfl

/-- A character with no part in quoting is in the command line as often as in the arguments. -/
theorem countP_commandLine {p : Char → Bool}
    (hp : p '\\' = false ∧ p '"' = false ∧ p ' ' = false ∧ p '\t' = false) (arguments : List Text) :
    (commandLine arguments).countP p = arguments.flatten.countP p := by
  have hcount := countP_argumentsFrom hp none .bare 0 (commandLine arguments)
  rw [show argumentsFrom none .bare 0 (commandLine arguments) = arguments from
    splitArguments_commandLine arguments] at hcount
  simpa using hcount.symm

/-! ### The script read -/

theorem past_append (expected : String) (t : Text) :
    past expected (txt expected ++ t) = some t := by
  rw [past, if_pos (startsWith_append _ t), List.drop_left]

/-- What stands behind the command line. -/
def closing (workingDirectory : Option Text) : Text :=
  match workingDirectory with
  | some d => txt "  WorkingDirectory = '" ++ (doubled '\'' d ++
      '\'' :: '\n' :: txt "\x7d\nStart-Process @startArgs | Out-Null")
  | none => txt "\n\x7d\nStart-Process @startArgs | Out-Null"

/-- A character with no part in quoting is in the command line where it is in an argument. -/
theorem mem_commandLine {c : Char} (hc : c ∉ ['\\', '"', ' ', '\t']) {arguments : List Text} :
    c ∈ commandLine arguments ↔ ∃ a ∈ arguments, c ∈ a := by
  have hpart : (c == '\\') = false ∧ (c == '"') = false ∧ (c == ' ') = false ∧
      (c == '\t') = false := by
    simpa [not_or] using hc
  have hcount := countP_commandLine (p := (c == ·)) hpart arguments
  have hmem : ∀ t : Text, c ∈ t ↔ 0 < t.countP (c == ·) := by
    intro t
    rw [List.countP_pos_iff]
    simp
  rw [hmem, hcount, ← hmem, List.mem_flatten]

theorem oneLine_commandLine {arguments : List Text} (h : ∀ a ∈ arguments, OneLine a) :
    OneLine (commandLine arguments) := by
  intro c hc
  by_contra hbreak
  have hpart : c ∉ ['\\', '"', ' ', '\t'] := by
    rw [not_and_or, not_not, not_not] at hbreak
    rcases hbreak with rfl | rfl <;> decide
  obtain ⟨a, ha, hca⟩ := (mem_commandLine hpart).mp hc
  exact hbreak (h a ha c hca)

/-- The lines between the blank ones at either end. -/
def scriptLines (command line directoryLine : Text) : List Text :=
  [txt "$ErrorActionPreference = 'Stop'", txt "$startArgs = @\x7b",
    txt "  FilePath = " ++ powershellLiteral command, txt "  Verb = 'RunAs'",
    txt "  ArgumentList = " ++ powershellLiteral line, directoryLine, txt "\x7d",
    txt "Start-Process @startArgs | Out-Null"]

/-- The lines as the source has them. -/
theorem indented_scriptLines (command line directoryLine : Text) :
    [[],
      txt "                $ErrorActionPreference = 'Stop'",
      txt "                $startArgs = @\x7b",
      txt "                  FilePath = " ++ powershellLiteral command,
      txt "                  Verb = 'RunAs'",
      txt "                  ArgumentList = " ++ powershellLiteral line,
      txt "                " ++ directoryLine,
      txt "                \x7d",
      txt "                Start-Process @startArgs | Out-Null",
      txt "            "] =
      [] :: ((scriptLines command line directoryLine).map (blanks 16 ++ ·) ++ [blanks 12]) := by
  simp only [scriptLines, List.map_cons, List.map_nil, List.cons_append, List.nil_append]
  rfl

theorem trimIndent_scriptLines {command line directoryLine : Text} (hcommand : OneLine command)
    (hline : OneLine line) (hdirectory : OneLine directoryLine) :
    trimIndent (['\n'].intercalate
      ([] :: ((scriptLines command line directoryLine).map (blanks 16 ++ ·) ++ [blanks 12]))) =
      ['\n'].intercalate (scriptLines command line directoryLine) := by
  refine trimIndent_indented (fun l hl => ?_)
    ⟨txt "$startArgs = @\x7b", by simp [scriptLines], by decide, by decide⟩ 16 12
  have hfixed : ∀ l ∈ [txt "$ErrorActionPreference = 'Stop'", txt "$startArgs = @\x7b",
      txt "  FilePath = ", txt "  Verb = 'RunAs'", txt "  ArgumentList = ", txt "\x7d",
      txt "Start-Process @startArgs | Out-Null"], OneLine l := by
    unfold OneLine
    decide
  simp only [scriptLines, List.mem_cons, List.not_mem_nil, or_false] at hl
  rcases hl with rfl | rfl | rfl | rfl | rfl | rfl | rfl | rfl
  · exact hfixed _ (by simp)
  · exact hfixed _ (by simp)
  · exact oneLine_append.mpr ⟨hfixed _ (by simp), oneLine_powershellLiteral hcommand⟩
  · exact hfixed _ (by simp)
  · exact oneLine_append.mpr ⟨hfixed _ (by simp), oneLine_powershellLiteral hline⟩
  · exact hdirectory
  · exact hfixed _ (by simp)
  · exact hfixed _ (by simp)

/-- Eight lines with a quoted part at the end of the third and the fifth. -/
theorem intercalate_quoted (a b c d e f g h : Text) (command line : Text) :
    ['\n'].intercalate [a, b, c ++ powershellLiteral command, d, e ++ powershellLiteral line, f, g,
      h] = (a ++ '\n' :: (b ++ '\n' :: (c ++ ['\'']))) ++ (doubled '\'' command ++ '\'' :: '\n' ::
        ((d ++ '\n' :: (e ++ ['\''])) ++ (doubled '\'' line ++ '\'' :: '\n' ::
          (f ++ '\n' :: (g ++ '\n' :: h))))) := by
  simp [powershellLiteral, List.intercalate_cons_cons]

theorem restartAsAdministratorScript_eq {command : Text} {arguments : List Text}
    {workingDirectory : Text} (hcommand : OneLine command) (harguments : ∀ a ∈ arguments, OneLine a)
    (hdirectory : OneLine workingDirectory) :
    restartAsAdministratorScript command arguments workingDirectory =
      txt "$ErrorActionPreference = 'Stop'\n$startArgs = @\x7b\n  FilePath = '" ++
        (doubled '\'' command ++ '\'' :: '\n' :: (txt "  Verb = 'RunAs'\n  ArgumentList = '" ++
          (doubled '\'' (commandLine arguments) ++
            '\'' :: '\n' :: closing (nonBlank workingDirectory)))) := by
  have hline := oneLine_commandLine harguments
  have hjoined : [' '].intercalate (arguments.map windowsCommandLineArgument) =
      commandLine arguments := rfl
  have hliteral : OneLine (txt "  WorkingDirectory = ") := by
    unfold OneLine
    decide
  cases hblank : isBlank workingDirectory with
  | true =>
      have hnone : nonBlank workingDirectory = none := by rw [nonBlank, if_pos hblank]
      have hempty : OneLine [] := fun c hc => absurd hc List.not_mem_nil
      have htrim := trimIndent_scriptLines hcommand hline hempty
      rw [restartAsAdministratorScript, hnone]
      dsimp only [Option.map_none, Option.getD_none]
      rw [hjoined, indented_scriptLines, htrim, scriptLines, intercalate_quoted]
      rfl
  | false =>
      have hsome : nonBlank workingDirectory = some workingDirectory := by
        rw [nonBlank, if_neg (by simp [hblank])]
      have htrim := trimIndent_scriptLines hcommand hline
        (oneLine_append.mpr ⟨hliteral, oneLine_powershellLiteral hdirectory⟩)
      rw [restartAsAdministratorScript, hsome]
      dsimp only [Option.map_some, Option.getD_some]
      have hquoted : ∀ u : Text,
          (txt "  WorkingDirectory = " ++ powershellLiteral workingDirectory) ++ '\n' :: u =
            txt "  WorkingDirectory = '" ++
              (doubled '\'' workingDirectory ++ '\'' :: '\n' :: u) := by
        intro u
        rw [powershellLiteral, List.append_assoc, List.cons_append, List.cons_append,
          List.append_assoc]
        rfl
      rw [hjoined, indented_scriptLines, htrim, scriptLines, intercalate_quoted, hquoted]
      rfl

/-- A script of this form, read part by part. -/
theorem started_eq_some_iff {s : Started} {t : Text} :
    started (txt "$ErrorActionPreference = 'Stop'\n$startArgs = @\x7b\n  FilePath = '" ++ t) =
        some s ↔
      ∃ t₁ t₂ t₃, readQuoted isSingleQuote t = some (s.filePath, t₁) ∧
        past "\n  Verb = 'RunAs'\n  ArgumentList = '" t₁ = some t₂ ∧
        readQuoted isSingleQuote t₂ = some (s.argumentList, t₃) ∧
        readDirectory t₃ =
          some (s.workingDirectory, txt "\n\x7d\nStart-Process @startArgs | Out-Null") ∧
        s.filePath ≠ [] ∧ s.argumentList ≠ [] := by
  rw [started, past_append, Option.bind_eq_bind, Option.bind_some]
  constructor
  · intro h
    obtain ⟨⟨file, t₁⟩, hfile, h⟩ := Option.bind_eq_some_iff.mp h
    obtain ⟨t₂, hverb, h⟩ := Option.bind_eq_some_iff.mp h
    obtain ⟨⟨line, t₃⟩, hline, h⟩ := Option.bind_eq_some_iff.mp h
    obtain ⟨⟨directory, t₄⟩, hdirectory, h⟩ := Option.bind_eq_some_iff.mp h
    dsimp only at h hverb hdirectory
    split at h
    · rename_i hrest
      obtain ⟨rfl, hfileName, hlineName⟩ := hrest
      cases h
      exact ⟨t₁, t₂, t₃, hfile, hverb, hline, hdirectory, hfileName, hlineName⟩
    · cases h
  · rintro ⟨t₁, t₂, t₃, hfile, hverb, hline, hdirectory, hfileName, hlineName⟩
    refine Option.bind_eq_some_iff.mpr ⟨_, hfile, ?_⟩
    refine Option.bind_eq_some_iff.mpr ⟨_, hverb, ?_⟩
    refine Option.bind_eq_some_iff.mpr ⟨_, hline, ?_⟩
    refine Option.bind_eq_some_iff.mpr ⟨_, hdirectory, ?_⟩
    exact if_pos ⟨rfl, hfileName, hlineName⟩

/-- A directory is read as it is, if its quotes are all doubled. -/
theorem readDirectory_closing_iff {directory : Option Text}
    (h : ∀ d, directory = some d → '\n' ∉ d) :
    readDirectory ('\n' :: closing directory) =
        some (directory, txt "\n\x7d\nStart-Process @startArgs | Out-Null") ↔
      ∀ d, directory = some d → ∀ c ∈ d, isSingleQuote c = true → c = '\'' := by
  cases directory with
  | none =>
      refine iff_of_true ?_ fun d hd => by cases hd
      decide
  | some d =>
      have hread := readQuoted_doubled_iff (show isSingleQuote '\'' = true by decide)
        (show isSingleQuote '\n' = false by decide) (h d rfl)
        (txt "\x7d\nStart-Process @startArgs | Out-Null")
      have hpast : past "\n  WorkingDirectory = '" ('\n' :: closing (some d)) =
          some (doubled '\'' d ++
            '\'' :: '\n' :: txt "\x7d\nStart-Process @startArgs | Out-Null") :=
        past_append "\n  WorkingDirectory = '" _
      rw [readDirectory, hpast]
      dsimp only
      constructor
      · intro hdir d' hd'
        cases hd'
        obtain ⟨⟨v, u⟩, hp, heq⟩ := Option.map_eq_some_iff.mp hdir
        cases heq
        exact hread.mp ⟨_, hp⟩
      · intro hquotes
        rw [readQuoted_doubled (by decide) (hquotes d rfl) (by decide)]
        rfl

/-- The only single quotes of a text are ASCII's. -/
def PlainQuotes (t : Text) : Prop := ∀ c ∈ t, isSingleQuote c = true → c = '\''

theorem isSingleQuote_cases {c : Char} (h : isSingleQuote c = true) :
    c ∉ ['\\', '"', ' ', '\t', '\n'] ∧ isWhitespace c = false := by
  have hval : c.toNat = 0x27 ∨ (0x2018 ≤ c.toNat ∧ c.toNat ≤ 0x201B) := by
    simp only [isSingleQuote, Bool.or_eq_true, beq_iff_eq, Bool.and_eq_true, decide_eq_true_eq] at h
    rcases h with rfl | h
    · exact .inl rfl
    · exact .inr h
  constructor
  · intro hmem
    simp only [List.mem_cons, List.not_mem_nil, or_false] at hmem
    rcases hmem with rfl | rfl | rfl | rfl | rfl <;> revert hval <;> decide
  · simp [isWhitespace]
    omega

theorem plainQuotes_commandLine_iff {arguments : List Text} :
    PlainQuotes (commandLine arguments) ↔ ∀ a ∈ arguments, PlainQuotes a := by
  have hmem : ∀ c, isSingleQuote c = true →
      (c ∈ commandLine arguments ↔ ∃ a ∈ arguments, c ∈ a) := by
    intro c hc
    have hcases := (isSingleQuote_cases hc).1
    exact mem_commandLine fun h => hcases (by simp at h ⊢; tauto)
  constructor
  · intro h a ha c hc hquote
    exact h c ((hmem c hquote).mpr ⟨a, ha, hc⟩) hquote
  · intro h c hc hquote
    obtain ⟨a, ha, hca⟩ := (hmem c hquote).mp hc
    exact h a ha c hca hquote

theorem commandLine_ne_nil_iff {arguments : List Text} :
    commandLine arguments ≠ [] ↔ arguments ≠ [] := by
  rw [not_iff_not]
  constructor
  · intro h
    have hsplit := splitArguments_commandLine arguments
    rw [h] at hsplit
    exact hsplit.symm
  · rintro rfl
    rfl

/-- A line that is split into the arguments and is read instead of their command line has no quote
too few, so that it is the command line. -/
theorem plainQuotes_of_read {arguments : List Text} (h : ∀ a ∈ arguments, OneLine a)
    {line rest u : Text} (hread : readQuoted isSingleQuote
      (doubled '\'' (commandLine arguments) ++ '\'' :: '\n' :: rest) = some (line, u))
    (hsplit : splitArguments line = arguments) :
    PlainQuotes (commandLine arguments) := by
  have hcount : ∀ p : Char → Bool,
      p '\\' = false ∧ p '"' = false ∧ p ' ' = false ∧ p '\t' = false →
        line.countP p = (commandLine arguments).countP p := by
    intro p hp
    have hline := countP_argumentsFrom hp none .bare 0 line
    rw [show argumentsFrom none .bare 0 line = arguments from hsplit] at hline
    rw [countP_commandLine hp, hline]
    simp
  have hbreak : '\n' ∉ line := by
    intro hmem
    have hpos := List.countP_pos_iff.mpr ⟨'\n', hmem, beq_self_eq_true '\n'⟩
    rw [hcount _ (by decide), List.countP_pos_iff] at hpos
    obtain ⟨c, hc, hnewline⟩ := hpos
    exact (oneLine_commandLine h c hc).1 (beq_iff_eq.mp hnewline).symm
  intro c hc hquote
  by_contra hother
  have hfewer := ((countP_readQuoted (by decide) (by decide) _).1 line u hread hbreak).2
    ⟨c, hc, hquote, hother⟩
  rw [hcount _ (by decide)] at hfewer
  exact lt_irrefl _ hfewer

/-- A text that may be a name here: no line break is in it, and no zero. -/
def IsName (t : Text) : Prop := ∀ c ∈ t, c ≠ '\n' ∧ c ≠ '\r' ∧ c ≠ Char.ofNat 0

theorem IsName.oneLine {t : Text} (h : IsName t) : OneLine t :=
  fun c hc => ⟨(h c hc).1, (h c hc).2.1⟩

section

variable {command workingDirectory : Text} {arguments : List Text}

theorem plainQuotes_of_blank {t : Text} (h : isBlank t = true) : PlainQuotes t := by
  intro c hc hquote
  have hblank := List.all_eq_true.mp h c hc
  rw [(isSingleQuote_cases hquote).2] at hblank
  cases hblank

theorem plainQuotes_nonBlank_iff :
    (∀ d, nonBlank workingDirectory = some d → PlainQuotes d) ↔ PlainQuotes workingDirectory := by
  cases hblank : isBlank workingDirectory with
  | true =>
      refine iff_of_true (fun d hd => ?_) (plainQuotes_of_blank hblank)
      rw [nonBlank, if_pos hblank] at hd
      cases hd
  | false =>
      rw [nonBlank, if_neg (by simp [hblank])]
      exact ⟨fun h => h _ rfl, fun h d hd => Option.some.inj hd ▸ h⟩

theorem not_mem_nonBlank (h : OneLine workingDirectory) :
    ∀ d, nonBlank workingDirectory = some d → '\n' ∉ d := by
  intro d hd hmem
  rw [← (nonBlank_eq_some.mp hd).2] at hmem
  exact (h _ hmem).1 rfl

/-- A script that does what is asked has no other quotes in its parts. -/
theorem plainQuotes_of_restarts (hcommand : OneLine command)
    (harguments : ∀ a ∈ arguments, OneLine a) (hdirectory : OneLine workingDirectory)
    (h : Restarts command arguments workingDirectory) :
    command ≠ [] ∧ arguments ≠ [] ∧ PlainQuotes command ∧ PlainQuotes workingDirectory ∧
      ∀ a ∈ arguments, PlainQuotes a := by
  obtain ⟨line, hstarted, hsplit⟩ := h
  rw [restartAsAdministratorScript_eq hcommand harguments hdirectory,
    started_eq_some_iff] at hstarted
  obtain ⟨t₁, t₂, t₃, hfile, hverb, hline, hdir, hfileName, hlineName⟩ := hstarted
  have hcommandQuotes : PlainQuotes command := (readQuoted_doubled_iff (by decide) (by decide)
    (fun hmem => (hcommand _ hmem).1 rfl) _).mp ⟨_, hfile⟩
  rw [readQuoted_doubled (by decide) hcommandQuotes (by decide)] at hfile
  cases hfile
  cases (past_append "\n  Verb = 'RunAs'\n  ArgumentList = '" _).symm.trans hverb
  have hlineQuotes := plainQuotes_of_read harguments hline hsplit
  rw [readQuoted_doubled (by decide) hlineQuotes (by decide)] at hline
  cases hline
  refine ⟨hfileName, commandLine_ne_nil_iff.mp hlineName, hcommandQuotes,
    plainQuotes_nonBlank_iff.mp ?_, plainQuotes_commandLine_iff.mp hlineQuotes⟩
  exact (readDirectory_closing_iff (not_mem_nonBlank hdirectory)).mp hdir

/-- And one whose parts have none does. -/
theorem restarts_of_plainQuotes (hcommand : OneLine command)
    (harguments : ∀ a ∈ arguments, OneLine a) (hdirectory : OneLine workingDirectory)
    (hcommandName : command ≠ []) (hargumentNames : arguments ≠ [])
    (hcommandQuotes : PlainQuotes command) (hdirectoryQuotes : PlainQuotes workingDirectory)
    (hargumentQuotes : ∀ a ∈ arguments, PlainQuotes a) :
    Restarts command arguments workingDirectory := by
  refine ⟨commandLine arguments, ?_, splitArguments_commandLine arguments⟩
  rw [restartAsAdministratorScript_eq hcommand harguments hdirectory, started_eq_some_iff]
  refine ⟨_, _, _, readQuoted_doubled (by decide) hcommandQuotes (by decide) _,
    past_append "\n  Verb = 'RunAs'\n  ArgumentList = '" _,
    readQuoted_doubled (by decide) (plainQuotes_commandLine_iff.mpr hargumentQuotes) (by decide) _,
    ?_, hcommandName, commandLine_ne_nil_iff.mpr hargumentNames⟩
  exact (readDirectory_closing_iff (not_mem_nonBlank hdirectory)).mpr
    (plainQuotes_nonBlank_iff.mpr hdirectoryQuotes)

theorem plainQuotes_iff {t : Text} :
    PlainQuotes t ↔ ∀ c ∈ t, ¬ (0x2018 ≤ c.toNat ∧ c.toNat ≤ 0x201B) := by
  refine forall₂_congr fun c _ => ?_
  constructor
  · intro h hrange
    rw [h (by simp [isSingleQuote, hrange])] at hrange
    exact absurd hrange (by decide)
  · intro h hquote
    rw [isSingleQuote, Bool.or_eq_true, beq_iff_eq, Bool.and_eq_true, decide_eq_true_eq,
      decide_eq_true_eq] at hquote
    exact hquote.resolve_right h

/-- **The script restarts what ran exactly where none of the names has a quote that PowerShell
knows and the script does not double;** the command is named, and there is an argument. -/
theorem restarts_iff (h : ∀ t ∈ command :: workingDirectory :: arguments, IsName t) :
    Restarts command arguments workingDirectory ↔
      command ≠ [] ∧ arguments ≠ [] ∧
        ∀ t ∈ command :: workingDirectory :: arguments, ∀ c ∈ t,
          ¬ (0x2018 ≤ c.toNat ∧ c.toNat ≤ 0x201B) := by
  obtain ⟨hcommand, hrest⟩ := List.forall_mem_cons.mp h
  obtain ⟨hdirectory, harguments⟩ := List.forall_mem_cons.mp hrest
  simp only [← plainQuotes_iff, List.forall_mem_cons]
  constructor
  · exact plainQuotes_of_restarts hcommand.oneLine (fun a ha => (harguments a ha).oneLine)
      hdirectory.oneLine
  · rintro ⟨hname, hany, hcommandQuotes, hdirectoryQuotes, hargumentQuotes⟩
    exact restarts_of_plainQuotes hcommand.oneLine (fun a ha => (harguments a ha).oneLine)
      hdirectory.oneLine hname hany hcommandQuotes hdirectoryQuotes hargumentQuotes

end

/-- A launcher with blanks in its path, and an argument that PowerShell and Windows both have to be
told of. -/
theorem restarts_launcher :
    Restarts (txt "C:\\Program Files\\Ghostlane\\Ghostlane.exe")
      [txt "--olcbox-start-vpn-after-elevation", txt "--title=O'Brien \"at home\" C:\\"]
      (txt "C:\\Users\\O'Brien") := by
  refine (restarts_iff ?_).mpr ⟨by decide, by decide, by decide⟩
  unfold IsName
  decide

/-- A typographic quote in the path of a user ends the part it is in. -/
theorem not_restarts_typographic :
    ¬ Restarts (txt "C:\\Program Files\\Ghostlane\\Ghostlane.exe")
      [txt "--olcbox-start-vpn-after-elevation"] (txt "C:\\Users\\O’Brien") := by
  have hlines : ∀ t ∈ [txt "C:\\Program Files\\Ghostlane\\Ghostlane.exe", txt "C:\\Users\\O’Brien",
      txt "--olcbox-start-vpn-after-elevation"], OneLine t := by
    unfold OneLine
    decide
  intro h
  have hplain := (plainQuotes_of_restarts (hlines _ (by simp)) (fun a ha => hlines a (by simp_all))
    (hlines _ (by simp)) h).2.2.2.1
  exact absurd (hplain '’' (by decide) (by decide)) (by decide)

end WindowsTunController

end Ghostlane.Desktop
