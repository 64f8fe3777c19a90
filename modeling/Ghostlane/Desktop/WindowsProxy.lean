import Ghostlane.App.RuleAddress
import Ghostlane.Desktop.ProxyTarget
import Ghostlane.Lib.Fields
import Ghostlane.Lib.Runs
import Mathlib.Logic.Function.Basic

/-!
# Ghostlane.Desktop.WindowsProxy

The system proxy on Windows, switched on and off by `reg` (`vpn/desktop/DesktopProxyController.kt`):
four values of a key of the registry, read from what `reg query` prints and written back as that.
-/

namespace Ghostlane.Desktop

open Ghostlane.Lib App
open App.RoutingRule (digitChar_spec digitsValue_hex forall_mem_toDigits toIntOrNull_hex_eq)

namespace Windows

/-- The values of the registry key that a controller reads. -/
inductive RegName
  | proxyEnable
  | proxyServer
  | proxyOverride
  | autoConfigUrl
  deriving DecidableEq, Repr

def RegName.text : RegName → Text
  | proxyEnable => txt "ProxyEnable"
  | proxyServer => txt "ProxyServer"
  | proxyOverride => txt "ProxyOverride"
  | autoConfigUrl => txt "AutoConfigURL"

/-- A value with its type, `REG_DWORD` or `REG_SZ`. -/
inductive RegValue
  | dword (n : UInt32)
  | string (t : Text)
  deriving DecidableEq, Repr

abbrev Settings := RegName → Option RegValue

/-- The commands of `reg` that change something, with the data as it is given. -/
inductive RegCommand
  | addDword (name : RegName) (data : Text)
  | addString (name : RegName) (data : Text)
  | delete (name : RegName)
  deriving DecidableEq, Repr

/-- A number as `reg` takes it, in decimal or with `0x` before it. -/
def regNumber (data : Text) : Option UInt32 :=
  ((if startsWith data (txt "0x") then digitsValue 16 (data.drop 2) else digitsValue 10 data).filter
    (· < 2 ^ 32)).map UInt32.ofNat

/-- What is not there cannot be deleted. -/
def reg (s : Settings) : RegCommand → Option Settings
  | .addDword name data => (regNumber data).map fun n => Function.update s name (some (.dword n))
  | .addString name data => some (Function.update s name (some (.string data)))
  | .delete name => (s name).map fun _ => Function.update s name none

/-- A number as `reg` prints it. -/
def hexadecimal (n : UInt32) : Text := txt "0x" ++ Nat.toDigits 16 n.toNat

/-- How `reg` names a type. -/
def RegValue.type : RegValue → Text
  | dword _ => txt "REG_DWORD"
  | string _ => txt "REG_SZ"

def RegValue.text : RegValue → Text
  | dword n => hexadecimal n
  | string t => t

def registryKey : Text :=
  txt "HKEY_CURRENT_USER\\Software\\Microsoft\\Windows\\CurrentVersion\\Internet Settings"

def fourBlanks : Text := [' ', ' ', ' ', ' ']

/-- What `reg query /v` prints, nothing where the value is not there. -/
def regQuery (name : RegName) (s : Settings) : Option Text :=
  (s name).map fun value => printed ['\r', '\n'] [[], registryKey,
    fourBlanks ++ (name.text ++ (fourBlanks ++ (value.type ++ (fourBlanks ++ value.text)))), []]

/-! ### The controller -/

structure WindowsProxyState where
  proxyEnable : Option Text
  proxyServer : Option Text
  proxyOverride : Option Text
  autoConfigUrl : Option Text
  deriving DecidableEq, Repr

/-- `\s` of a regular expression. -/
def isRegexSpace (c : Char) : Bool :=
  c == ' ' || c == '\t' || c == '\n' || c.toNat == 0x0B || c.toNat == 0x0C || c == '\r'

/-- `split(Regex("\\s{2,}"))`, with the piece begun and the blanks behind it. -/
def splitAtBlanks (piece blanks : Text) : Text → List Text
  | [] => if 2 ≤ blanks.length then [piece, []] else [piece ++ blanks]
  | c :: t =>
      if isRegexSpace c then splitAtBlanks piece (blanks ++ [c]) t
      else if 2 ≤ blanks.length then piece :: splitAtBlanks [c] [] t
      else splitAtBlanks (piece ++ blanks ++ [c]) [] t

/-- `queryValue`, from what is printed. -/
def queryValue (name : RegName) (output : Option Text) : Option Text := do
  let output ← output
  let line ← ((lines output).map trim).find? fun line => startsWith line name.text
  let last ← (splitAtBlanks [] [] line).getLast?
  nonBlank (trim last)

def enableCommands (pacUrl : Text) : List RegCommand :=
  [.addDword .proxyEnable (txt "0"), .addString .autoConfigUrl pacUrl]

def valueCommand (name : RegName) (value : Option Text) (isDword : Bool) : RegCommand :=
  match value with
  | none => .delete name
  | some value =>
      if isDword then
        .addDword name
          (((toIntOrNull 16 (removePrefix value (txt "0x"))).map decimalInt).getD value)
      else .addString name value

def restoreCommands (state : WindowsProxyState) : List RegCommand :=
  [valueCommand .proxyEnable state.proxyEnable true,
    valueCommand .proxyServer state.proxyServer false,
    valueCommand .proxyOverride state.proxyOverride false,
    valueCommand .autoConfigUrl state.autoConfigUrl false]

/-- `WindowsProxyController` and the settings. -/
structure State where
  settings : Settings
  backup : Option WindowsProxyState := none

/-- The `i`-th command reads the value; a reading that fails is one of nothing. -/
def read (faults : Nat → Bool) (s : Settings) (i : Nat) (name : RegName) : Option Text :=
  if faults i then none else queryValue name (regQuery name s)

def readState (faults : Nat → Bool) (s : Settings) : WindowsProxyState where
  proxyEnable := read faults s 0 .proxyEnable
  proxyServer := read faults s 1 .proxyServer
  proxyOverride := read faults s 2 .proxyOverride
  autoConfigUrl := read faults s 3 .autoConfigUrl

def enable (target : DesktopProxyTarget) (faults : Nat → Bool) (s : State) : State where
  settings := untilFailure reg faults 4 s.settings (enableCommands target.pacUrl)
  backup := some (readState faults s.settings)

def restore (faults : Nat → Bool) (s : State) : State :=
  match s.backup with
  | none => s
  | some state =>
      { settings := each reg faults 0 s.settings (restoreCommands state)
        backup := none }

def step (s : State) : ProxyCall → Option State
  | .enable target faults => some (enable target faults s)
  | .restore faults => some (restore faults s)

/-! ### What is read -/

/-- No blank at either end, nor two together: `prev` says that a blank, or the start, is before. -/
def evenlySpaced (prev : Bool) : Text → Bool
  | [] => !prev
  | c :: t => if isRegexSpace c then !prev && evenlySpaced true t else evenlySpaced false t

theorem splitAtBlanks_evenlySpaced {prev : Bool} {t : Text} (h : evenlySpaced prev t = true)
    {piece blanks : Text} (hblanks : blanks.length ≤ prev.toNat) (rest : Text) :
    splitAtBlanks piece blanks (t ++ rest) = splitAtBlanks (piece ++ blanks ++ t) [] rest := by
  induction t generalizing prev piece blanks with
  | nil =>
      cases prev with
      | true => cases h
      | false =>
          rw [List.length_eq_zero_iff.mp (Nat.le_zero.mp hblanks)]
          simp
  | cons c t ih =>
      rw [evenlySpaced] at h
      rw [List.cons_append, splitAtBlanks]
      split at h
      · rename_i hspace
        rw [Bool.and_eq_true, Bool.not_eq_true'] at h
        obtain ⟨rfl, h⟩ := h
        have hnone := List.length_eq_zero_iff.mp (Nat.le_zero.mp hblanks)
        rw [if_pos hspace, ih h (by rw [hnone]; exact Nat.le_refl 1), hnone]
        simp
      · rename_i hspace
        have hfew : ¬ 2 ≤ blanks.length := by
          have := prev.toNat_le
          omega
        rw [if_neg hspace, if_neg hfew, ih h (Nat.zero_le _)]
        simp

/-- A piece ends where four blanks do. -/
theorem splitAtBlanks_fourBlanks {t u : Text} (ht : evenlySpaced true t = true)
    (hu : u.head?.map isRegexSpace = some false) :
    splitAtBlanks [] [] (t ++ (fourBlanks ++ u)) = t :: splitAtBlanks [] [] u := by
  have hblank : isRegexSpace ' ' = true := rfl
  rw [splitAtBlanks_evenlySpaced ht (Nat.zero_le _)]
  cases u with
  | nil => cases hu
  | cons c u =>
      have hc : isRegexSpace c = false := Option.some.inj hu
      simp [fourBlanks, splitAtBlanks, hblank, hc]

/-- A text that is printed with a value and read back whole: on one line, trimmed, and with no two
blanks together. -/
structure Clean (t : Text) : Prop where
  oneLine : OneLine t
  trimmed : trim t = t
  spaced : evenlySpaced true t = true

theorem Clean.ne_nil {t : Text} (h : Clean t) : t ≠ [] := by
  rintro rfl
  cases h.spaced

theorem Clean.head {t : Text} (h : Clean t) : t.head?.map isRegexSpace = some false := by
  have hspaced := h.spaced
  cases t with
  | nil => cases hspaced
  | cons c t =>
      rw [evenlySpaced] at hspaced
      split at hspaced
      · cases hspaced
      · rename_i hc
        exact congrArg some (Bool.eq_false_iff.mpr hc)

theorem RegValue.type_spec (value : RegValue) : OneLine value.type ∧
    evenlySpaced true value.type = true ∧
    ∀ u, (value.type ++ u).head?.map isRegexSpace = some false := by
  have htypes : ∀ t ∈ [txt "REG_DWORD", txt "REG_SZ"], OneLine t ∧ evenlySpaced true t = true := by
    unfold OneLine
    decide
  have hdword := htypes _ List.mem_cons_self
  have hstring := htypes _ (List.mem_cons_of_mem _ List.mem_cons_self)
  cases value with
  | dword n => exact ⟨hdword.1, hdword.2, fun u => rfl⟩
  | string t => exact ⟨hstring.1, hstring.2, fun u => rfl⟩

/-- What stands on the line of a value is three pieces, the last of which is its data. -/
theorem splitAtBlanks_value (name : RegName) {value : RegValue} (h : Clean value.text) :
    splitAtBlanks [] [] (name.text ++ (fourBlanks ++ (value.type ++ (fourBlanks ++ value.text)))) =
      [name.text, value.type, value.text] := by
  have hname : evenlySpaced true name.text = true := by cases name <;> decide
  obtain ⟨-, htype, hhead⟩ := value.type_spec
  have hlast : splitAtBlanks [] [] (value.text ++ []) =
      splitAtBlanks ([] ++ [] ++ value.text) [] [] :=
    splitAtBlanks_evenlySpaced h.spaced (Nat.zero_le _) []
  rw [List.append_nil] at hlast
  rw [splitAtBlanks_fourBlanks hname (hhead _), splitAtBlanks_fourBlanks htype h.head, hlast]
  simp [splitAtBlanks]

theorem trim_value (name : RegName) {value : RegValue} (h : Clean value.text) :
    trim (fourBlanks ++ (name.text ++ (fourBlanks ++ (value.type ++ (fourBlanks ++ value.text))))) =
      name.text ++ (fourBlanks ++ (value.type ++ (fourBlanks ++ value.text))) := by
  have hblanks : fourBlanks.all isWhitespace = true := rfl
  rw [trim, trimBy_append_left hblanks]
  refine trimBy_eq_self (fun c hc => ?_) fun c hc => ?_
  · cases name <;> cases hc <;> rfl
  · have htext := h.trimmed
    rw [trim] at htext
    rw [List.getLast?_append, List.getLast?_append, List.getLast?_append, List.getLast?_append,
      List.getLast?_eq_some_getLast h.ne_nil] at hc
    refine getLast?_trimBy c ?_ (t := value.text)
    rw [htext, List.getLast?_eq_some_getLast h.ne_nil]
    exact hc

/-- **A value is read back** from what is printed of it. -/
theorem queryValue_regQuery {s : Settings} {name : RegName} {value : RegValue}
    (hvalue : s name = some value) (h : Clean value.text) :
    queryValue name (regQuery name s) = some value.text := by
  have hlines := lines_printed ['\r', '\n'] (fun t u ht => lines_append_crlf ht u)
    [[], registryKey,
      fourBlanks ++ (name.text ++ (fourBlanks ++ (value.type ++ (fourBlanks ++ value.text)))), []]
    (by
      have hname : OneLine name.text := by
        unfold OneLine
        cases name <;> decide
      have hblanks : OneLine fourBlanks ∧ OneLine registryKey ∧ OneLine [] := by
        unfold OneLine
        decide
      simp [oneLine_append, hname, hblanks, value.type_spec.1, h.oneLine])
  have hkey : startsWith (trim registryKey) name.text = false := by
    cases name <;> decide
  have hempty : startsWith (trim []) name.text = false := by
    cases name <;> rfl
  rw [regQuery, hvalue, Option.map_some, queryValue]
  dsimp only [Option.bind_eq_bind, Option.bind_some]
  rw [hlines]
  simp only [List.cons_append, List.map_cons, trim_value name h, List.find?_cons, hempty, hkey,
    startsWith_append]
  rw [Option.bind_some, splitAtBlanks_value name h]
  have hblank : isBlank value.text = false := by
    rw [← Bool.not_eq_true, ← trim_eq_nil_iff, h.trimmed]
    exact h.ne_nil
  change nonBlank (trim value.text) = some value.text
  rw [h.trimmed]
  exact nonBlank_eq_some.mpr ⟨hblank, rfl⟩

/-! ### What restoring puts back -/

/-- Values that can be told from what is printed of them, and put back: the first is written as a
number, the others as texts. -/
def Restorable : RegName → Option RegValue → Prop
  | _, none => True
  | .proxyEnable, some (.dword _) => True
  | .proxyEnable, some (.string _) => False
  | _, some (.string t) => Clean t
  | _, some (.dword _) => False

theorem isRegexSpace_of_not_isWhitespace {c : Char} (h : isWhitespace c = false) :
    isRegexSpace c = false := by
  unfold isRegexSpace
  simp only [Bool.or_eq_false_iff, beq_eq_false_iff_ne]
  refine ⟨⟨⟨⟨⟨?_, ?_⟩, ?_⟩, ?_⟩, ?_⟩, ?_⟩
  · rintro rfl
    cases h
  · rintro rfl
    cases h
  · rintro rfl
    cases h
  · intro hc
    simp [isWhitespace, hc] at h
  · intro hc
    simp [isWhitespace, hc] at h
  · rintro rfl
    cases h

theorem clean_of_forall {t : Text} (hne : t ≠ []) (h : ∀ c ∈ t, isWhitespace c = false) :
    Clean t where
  oneLine c hc := by
    have := h c hc
    constructor
    · rintro rfl
      exact absurd this (by decide)
    · rintro rfl
      exact absurd this (by decide)
  trimmed := trimBy_of_forall h
  spaced := by
    have hspaced : ∀ prev, (prev = true → t ≠ []) → evenlySpaced prev t = true := by
      clear hne
      induction t with
      | nil =>
          intro prev hprev
          cases prev with
          | true => exact absurd rfl (hprev rfl)
          | false => rfl
      | cons c t ih =>
          obtain ⟨hc, ht⟩ := List.forall_mem_cons.mp h
          intro prev _
          rw [evenlySpaced, if_neg (by rw [isRegexSpace_of_not_isWhitespace hc]; decide)]
          exact ih ht false fun hfalse => by cases hfalse
    exact hspaced true fun _ => hne

theorem clean_hexadecimal (n : UInt32) : Clean (hexadecimal n) := by
  refine clean_of_forall (List.cons_ne_nil _ _) (List.forall_mem_append.mpr ⟨by decide, ?_⟩)
  exact forall_mem_toDigits (by decide) (fun d hd => (digitChar_spec hd).2.2.2.2) n.toNat

/-- A number is given back as it was printed. -/
theorem regNumber_hexadecimal (n : UInt32) :
    regNumber (((toIntOrNull 16 (removePrefix (hexadecimal n) (txt "0x"))).map decimalInt).getD
      (hexadecimal n)) = some n := by
  have hdrop : removePrefix (hexadecimal n) (txt "0x") = Nat.toDigits 16 n.toNat :=
    removePrefix_append _ _
  have hfits : (some n.toNat).filter (fun m => decide (m < 2 ^ 32)) = some n.toNat :=
    Option.filter_some_pos (decide_eq_true n.toNat_lt)
  rw [hdrop, toIntOrNull_hex_eq]
  split
  · rename_i hsmall
    have hdecimal : startsWith (Nat.toDigits 10 n.toNat) (txt "0x") = false := by
      refine startsWith_of_notMem (c := 'x') (by decide) fun hx => ?_
      exact absurd (Nat.isDigit_of_mem_toDigits (by decide) (by decide) hx) (by decide)
    have hwritten : decimalInt (n.toNat : Int) = Nat.toDigits 10 n.toNat := by
      rw [decimalInt, if_neg (by omega)]
      rfl
    rw [Option.map_some, Option.getD_some, hwritten, regNumber, hdecimal]
    simp only [Bool.false_eq_true, if_false, digitsValue_toDigits, hfits, Option.map_some,
      UInt32.ofNat_toNat]
  · have hprefix : startsWith (hexadecimal n) (txt "0x") = true := startsWith_append _ _
    have hdigits : (hexadecimal n).drop 2 = Nat.toDigits 16 n.toNat := rfl
    rw [Option.map_none, Option.getD_none, regNumber, if_pos hprefix, hdigits, digitsValue_hex,
      hfits, Option.map_some, UInt32.ofNat_toNat]

/-- The command for a value puts it back. -/
theorem reg_valueCommand {s0 : Settings} {name : RegName} (h : Restorable name (s0 name))
    {isDword : Bool} (hdword : isDword = true ↔ name = .proxyEnable) (s : Settings) :
    (reg s (valueCommand name (queryValue name (regQuery name s0)) isDword)).getD s =
      Function.update s name (s0 name) := by
  cases hvalue : s0 name with
  | none =>
      have hnone : queryValue name (regQuery name s0) = none := by
        rw [regQuery, hvalue]
        rfl
      rw [hnone, valueCommand, reg]
      cases hs : s name with
      | none => exact (Function.update_eq_self_iff.mpr hs.symm).symm
      | some value => rfl
  | some value =>
      rw [hvalue] at h
      cases value with
      | dword n =>
          have hname : name = .proxyEnable := by
            cases name <;> first | rfl | exact h.elim
          rw [queryValue_regQuery hvalue (clean_hexadecimal n), valueCommand,
            if_pos (hdword.mpr hname), reg, RegValue.text, regNumber_hexadecimal]
          rfl
      | string t =>
          have hname : name ≠ .proxyEnable := by
            rintro rfl
            exact h.elim
          have hclean : Clean t := by
            cases name <;> first | exact absurd rfl hname | exact h
          rw [queryValue_regQuery hvalue hclean, valueCommand,
            if_neg fun hbad => hname (hdword.mp hbad)]
          rfl

/-- The state that is read of settings with no command failing. -/
def stateOf (s0 : Settings) : WindowsProxyState := readState faultless s0

/-- **The commands of a backup put the values back,** whatever they have become. -/
theorem foldl_backup {s0 : Settings} (h : ∀ name, Restorable name (s0 name)) (s : Settings) :
    (restoreCommands (stateOf s0)).foldl (fun s c => (reg s c).getD s) s = s0 := by
  have hread : ∀ i name, read faultless s0 i name = queryValue name (regQuery name s0) :=
    fun _ _ => rfl
  rw [restoreCommands, stateOf, readState]
  simp only [List.foldl_cons, List.foldl_nil, hread]
  rw [reg_valueCommand (h _) (by decide), reg_valueCommand (h _) (by decide),
    reg_valueCommand (h _) (by decide), reg_valueCommand (h _) (by decide)]
  funext name
  cases name <;> simp [Function.update]

/-! ### Runs -/

/-- When a call leaves what a restore can put back. An enable needs the values to be what they were
and such as can be put back, and to read those that are there; a restore, that its commands
succeed. -/
def Keeps (s0 : Settings) (s : State) : ProxyCall → Prop
  | .enable _ faults => s.settings = s0 ∧ (∀ name, Restorable name (s0 name)) ∧
      ∀ p ∈ [RegName.proxyEnable, .proxyServer, .proxyOverride, .autoConfigUrl].zipIdx,
        faults p.2 = true → s0 p.1 = none
  | .restore faults => ∀ i, faults i = false

/-- With no backup all is as it was, and a backup is one of that. -/
structure Kept (s0 : Settings) (s : State) : Prop where
  untouched : s.backup = none → s.settings = s0
  backup : ∀ state, s.backup = some state → state = stateOf s0 ∧ ∀ name, Restorable name (s0 name)

variable {s0 : Settings} {s : State}

theorem restore_settings (h : Kept s0 s) {faults : Nat → Bool} (hfaults : ∀ i, faults i = false) :
    (restore faults s).settings = s0 := by
  rw [restore]
  cases hbackup : s.backup with
  | none => exact h.untouched hbackup
  | some state =>
      obtain ⟨rfl, hrestorable⟩ := h.backup state hbackup
      dsimp only
      rw [each_of_faultless fun j _ _ => hfaults j]
      exact foldl_backup hrestorable s.settings

theorem read_of_absent {faults : Nat → Bool} {i : Nat} {name : RegName}
    (h : faults i = true → s0 name = none) :
    read faults s0 i name = read faultless s0 i name := by
  rw [read, read]
  cases hfault : faults i with
  | false => rfl
  | true =>
      rw [regQuery, h hfault]
      rfl

theorem step_kept {s' : State} {call : ProxyCall} (h : Kept s0 s) (hkeeps : Keeps s0 s call)
    (hstep : step s call = some s') : Kept s0 s' := by
  cases call with
  | enable target faults =>
      cases hstep
      obtain ⟨hsame, hrestorable, hfaults⟩ := hkeeps
      refine ⟨(fun hnone => by cases hnone), fun state hstate => ?_⟩
      cases hstate
      refine ⟨?_, hrestorable⟩
      simp only [List.zipIdx_cons, List.zipIdx_nil, List.forall_mem_cons] at hfaults
      obtain ⟨henable, hserver, hexcept, hurl, -⟩ := hfaults
      rw [hsame, stateOf, readState, readState, read_of_absent henable, read_of_absent hserver,
        read_of_absent hexcept, read_of_absent hurl]
  | restore faults =>
      cases hstep
      have hback : (restore faults s).settings = s0 := restore_settings h hkeeps
      have hnone : (restore faults s).backup = none := by
        rw [restore]
        split
        · assumption
        · rfl
      refine ⟨fun _ => hback, fun state hstate => ?_⟩
      rw [hnone] at hstate
      cases hstate

/-- In a run whose calls all meet the condition, a restore puts the values back. -/
theorem run_restores {calls : List ProxyCall}
    (hcalls : AllSteps step (Keeps s0) { settings := s0 } calls)
    (hrun : run step { settings := s0 } calls = some s) {faults : Nat → Bool}
    (hfaults : ∀ i, faults i = false) : (restore faults s).settings = s0 := by
  have hstart : Kept s0 { settings := s0 } := ⟨fun _ => rfl, fun state h => by cases h⟩
  exact restore_settings (run_inv (fun s call s' => step_kept) hstart hcalls hrun) hfaults

end Windows

end Ghostlane.Desktop
