import Ghostlane.Desktop.ProxyTarget
import Ghostlane.Lib.Runs
import Mathlib.Logic.Function.Basic

/-!
# Ghostlane.Desktop.MacOsProxy

The system proxy on macOS, switched on and off for each network service by `networksetup`
(`vpn/desktop/DesktopProxyController.kt`). Before the controller changes anything it reads what is
there from what `networksetup` prints, and keeps it until it restores.

The settings, and what `networksetup` makes of a command, are the system's; a command may fail
besides.
-/

namespace Ghostlane.Desktop

open Ghostlane.Lib App

namespace MacOs

/-- The server of a SOCKS proxy and the login it takes. -/
structure SocksProxy where
  host : Text
  port : Text
  login : Option (Text × Text)
  deriving DecidableEq, Repr

/-- What a network service has set. -/
@[ext]
structure ServiceSettings where
  socks : SocksProxy
  socksOn : Bool
  autoProxyUrl : Option Text
  autoProxyOn : Bool
  deriving DecidableEq, Repr

/-- The services there are, in their order, and whether each is disabled. -/
abbrev Services := List (Text × Bool)

abbrev Settings := Text → ServiceSettings

/-- The commands of `networksetup` that set something. -/
inductive NetworkSetup
  | setSocksFirewallProxy (service : Text) (proxy : SocksProxy)
  | setSocksFirewallProxyState (service : Text) (on : Bool)
  | setAutoProxyUrl (service url : Text)
  | setAutoProxyState (service : Text) (on : Bool)
  deriving DecidableEq, Repr

namespace NetworkSetup

def service : NetworkSetup → Text
  | setSocksFirewallProxy service _ | setSocksFirewallProxyState service _
  | setAutoProxyUrl service _ | setAutoProxyState service _ => service

/-- A proxy that is set is switched on with it. -/
def change : NetworkSetup → ServiceSettings → ServiceSettings
  | setSocksFirewallProxy _ proxy, s => { s with socks := proxy, socksOn := true }
  | setSocksFirewallProxyState _ on, s => { s with socksOn := on }
  | setAutoProxyUrl _ url, s => { s with autoProxyUrl := some url, autoProxyOn := true }
  | setAutoProxyState _ on, s => { s with autoProxyOn := on }

end NetworkSetup

section

variable (services : Services)

/-- A command fails where its service is not there. -/
def networksetup (s : Settings) (c : NetworkSetup) : Option Settings :=
  if c.service ∈ services.map Prod.fst then
    some (Function.update s c.service (c.change (s c.service)))
  else none

/-- What `-listallnetworkservices` prints. -/
def listAllNetworkServices : Text :=
  printed ['\n'] (txt "An asterisk (*) denotes that a network service is disabled." ::
    services.map fun (name, disabled) => if disabled then '*' :: name else name)

def yesOrNo (on : Bool) : Text := if on then txt "Yes" else txt "No"

/-- What `-getautoproxyurl` prints. -/
def getAutoProxyUrl (s : ServiceSettings) : Text :=
  printed ['\n'] [txt "URL: " ++ s.autoProxyUrl.getD (txt "(null)"),
    txt "Enabled: " ++ yesOrNo s.autoProxyOn]

end

/-! ### The controller -/

structure MacOsAutoProxyState where
  service : Text
  enabled : Bool
  url : Option Text
  deriving DecidableEq, Repr

def enabledNetworkServices (services : Services) : List Text :=
  ((lines (listAllNetworkServices services)).map trim).filter fun line =>
    !isBlank line && !startsWith line (txt "An asterisk") && !startsWith line ['*']

/-- `readAutoProxyState`, from what is printed. -/
def readAutoProxyState (service output : Text) : MacOsAutoProxyState :=
  let valueOf (key : Text) := ((lines output).find? (startsWithWord · key)).map fun line =>
    trim (afterColon line)
  { service
    enabled := (valueOf (txt "Enabled:")).any (equalsWord · (txt "Yes"))
    url := (valueOf (txt "URL:")).filter fun url => !isBlank url && url ≠ txt "(null)" }

def enableCommands (services : List Text) (target : DesktopProxyTarget) : List NetworkSetup :=
  services.flatMap fun service =>
    [.setSocksFirewallProxy service
        { host := target.socksHost, port := decimalInt target.socksPort,
          login :=
            if isBlank target.username then none else some (target.username, target.password) },
      .setSocksFirewallProxyState service true,
      .setAutoProxyState service false]

def restoreCommands (states : List MacOsAutoProxyState) : List NetworkSetup :=
  states.flatMap fun state =>
    .setSocksFirewallProxyState state.service false ::
      if state.enabled ∧ ¬ isNullOrBlank state.url then
        [.setAutoProxyUrl state.service (state.url.getD []), .setAutoProxyState state.service true]
      else [.setAutoProxyState state.service false]

/-- `MacOsProxyController` and the settings. -/
structure State where
  settings : Settings
  backup : Option (List MacOsAutoProxyState) := none

variable (services : Services)

/-- The list of services is read, and the state of each, by a command each; where one of these fails
nothing is kept. -/
def readBackup (faults : Nat → Bool) (s : Settings) : Option (List MacOsAutoProxyState) :=
  let names := enabledNetworkServices services
  if faults 0 then none
  else if names.zipIdx.any fun (name, i) => faults (1 + i) || name ∉ services.map Prod.fst then none
  else some (names.map fun name => readAutoProxyState name (getAutoProxyUrl (s name)))

def enable (target : DesktopProxyTarget) (faults : Nat → Bool) (s : State) : State :=
  match readBackup services faults s.settings with
  | none => s
  | some states =>
      let names := enabledNetworkServices services
      { settings := untilFailure (networksetup services) faults (1 + names.length) s.settings
          (enableCommands names target)
        backup := some states }

def restore (faults : Nat → Bool) (s : State) : State :=
  match s.backup with
  | none => s
  | some states =>
      { settings := each (networksetup services) faults 0 s.settings (restoreCommands states)
        backup := none }

def step (s : State) : ProxyCall → Option State
  | .enable target faults => some (enable services target faults s)
  | .restore faults => some (restore services faults s)

/-! ### What is read -/

theorem trim_blank_cons (t : Text) : trim (' ' :: t) = trim t := by
  rw [trim, trim, trimBy, trimBy, List.dropWhile_cons_of_pos (by decide)]

/-- The value of a key that a line gives. -/
theorem afterColon_append {key : Text} (hkey : ':' ∉ key) (value : Text) :
    afterColon (key ++ ':' :: value) = value := by
  rw [afterColon, cut_append hkey]
  rfl

/-- **What is printed of a URL on one line is read back,** but for the blanks around it, and as none
where it is blank or reads as none. -/
theorem readAutoProxyState_printed (service : Text) {s : ServiceSettings}
    (h : ∀ u, s.autoProxyUrl = some u → OneLine u) :
    readAutoProxyState service (getAutoProxyUrl s) =
      { service, enabled := s.autoProxyOn,
        url := (some (trim (s.autoProxyUrl.getD (txt "(null)")))).filter
          fun url => !isBlank url && url ≠ txt "(null)" } := by
  have hurl : OneLine (txt "URL: " ++ s.autoProxyUrl.getD (txt "(null)")) := by
    refine oneLine_append.mpr ⟨by unfold OneLine; decide, ?_⟩
    cases hnone : s.autoProxyUrl with
    | none =>
        unfold OneLine
        decide
    | some u => exact h u hnone
  have hstate : OneLine (txt "Enabled: " ++ yesOrNo s.autoProxyOn) := by
    unfold OneLine yesOrNo
    split <;> decide
  have hlines := lines_printed ['\n'] (fun t u ht => lines_append ht u)
    [txt "URL: " ++ s.autoProxyUrl.getD (txt "(null)"), txt "Enabled: " ++ yesOrNo s.autoProxyOn]
    (by simp [hurl, hstate])
  have hfindUrl : ∀ u rest, ((txt "URL: " ++ u) :: rest).find? (startsWithWord · (txt "URL:")) =
      some (txt "URL: " ++ u) := fun u rest => List.find?_cons_of_pos rfl
  have hfindState : ∀ u on rest,
      ((txt "URL: " ++ u) :: (txt "Enabled: " ++ on) :: rest).find?
        (startsWithWord · (txt "Enabled:")) = some (txt "Enabled: " ++ on) := fun u on rest => by
    rw [List.find?_cons_of_neg (fun h => by cases h), List.find?_cons_of_pos rfl]
  have hvalueUrl : ∀ u, trim (afterColon (txt "URL: " ++ u)) = trim u := fun u =>
    (congrArg trim (@afterColon_append (txt "URL") (by decide) (' ' :: u))).trans
      (trim_blank_cons u)
  have hvalueState : ∀ on, trim (afterColon (txt "Enabled: " ++ on)) = trim on := fun on =>
    (congrArg trim (@afterColon_append (txt "Enabled") (by decide) (' ' :: on))).trans
      (trim_blank_cons on)
  have hyes : ∀ on, equalsWord (trim (yesOrNo on)) (txt "Yes") = on := by decide
  rw [readAutoProxyState, getAutoProxyUrl, hlines]
  dsimp only [List.cons_append, List.nil_append]
  rw [hfindUrl, hfindState, Option.map_some, Option.map_some, hvalueUrl, hvalueState,
    Option.any_some, hyes]

/-! ### What restoring puts back -/

/-- Settings that can be told from what is printed of them, and put back: restoring switches the
SOCKS proxy off, and switches an automatic proxy on by its URL. -/
structure Restorable (s : ServiceSettings) : Prop where
  socksOff : s.socksOn = false
  oneLine : ∀ u, s.autoProxyUrl = some u → OneLine u
  named : s.autoProxyOn = true →
    ∃ u, s.autoProxyUrl = some u ∧ trim u = u ∧ u ≠ [] ∧ u ≠ txt "(null)"

/-- The settings that a service had, but for what is on. -/
def SameServers (s s0 : ServiceSettings) : Prop :=
  s.socks = s0.socks ∧ s.autoProxyUrl = s0.autoProxyUrl

/-- The commands for a service put back what was read of it. -/
theorem foldl_restoreCommands (n : Text) {s s0 : ServiceSettings} (h : Restorable s0)
    (hs : SameServers s s0) :
    (restoreCommands [readAutoProxyState n (getAutoProxyUrl s0)]).foldl (fun s c => c.change s) s =
      s0 := by
  obtain ⟨hsocks, hurl⟩ := hs
  rw [readAutoProxyState_printed n h.oneLine, restoreCommands, List.flatMap_singleton]
  dsimp only
  cases hon : s0.autoProxyOn with
  | true =>
      obtain ⟨u, hu, htrim, hne, hnull⟩ := h.named hon
      have hblank : isBlank u = false := by
        rw [← Bool.not_eq_true, ← trim_eq_nil_iff, htrim]
        exact hne
      have hread : (some (trim (s0.autoProxyUrl.getD (txt "(null)")))).filter
          (fun url => !isBlank url && url ≠ txt "(null)") = some u := by
        rw [hu, Option.getD_some, htrim]
        exact Option.filter_some_pos (by simp [hblank, hnull])
      rw [hread, if_pos ⟨rfl, by simp [isNullOrBlank, hblank]⟩]
      exact ServiceSettings.ext hsocks h.socksOff.symm hu.symm hon.symm
  | false =>
      rw [if_neg fun hbad => by cases hbad.1]
      exact ServiceSettings.ext hsocks h.socksOff.symm hurl hon.symm

/-- Commands for one service, which is there, change what it has set. -/
theorem foldl_networksetup {services : Services} {n : Text} (hn : n ∈ services.map Prod.fst)
    {cs : List NetworkSetup} (hcs : ∀ c ∈ cs, c.service = n) (s : Settings) :
    cs.foldl (fun s c => (networksetup services s c).getD s) s =
      Function.update s n (cs.foldl (fun x c => c.change x) (s n)) := by
  induction cs generalizing s with
  | nil => exact (Function.update_eq_self n s).symm
  | cons c cs ih =>
      obtain ⟨rfl, hcs⟩ := List.forall_mem_cons.mp hcs
      rw [List.foldl_cons, List.foldl_cons, networksetup, if_pos hn, Option.getD_some, ih hcs,
        Function.update_self, Function.update_idem]

theorem service_restoreCommands (state : MacOsAutoProxyState) :
    ∀ c ∈ restoreCommands [state], c.service = state.service := by
  rw [restoreCommands, List.flatMap_singleton]
  split <;> simp [NetworkSetup.service]

/-- The backup of the services as they were. -/
def backupOf (s0 : Settings) (names : List Text) : List MacOsAutoProxyState :=
  names.map fun n => readAutoProxyState n (getAutoProxyUrl (s0 n))

/-- **The commands of a backup put every service of it back,** and leave the others. -/
theorem foldl_backup {services : Services} {s0 : Settings} {names : List Text}
    (hnames : ∀ n ∈ names, n ∈ services.map Prod.fst ∧ Restorable (s0 n)) {s : Settings}
    (hs : ∀ n, SameServers (s n) (s0 n)) (hothers : ∀ n, n ∉ names → s n = s0 n) :
    (restoreCommands (backupOf s0 names)).foldl
      (fun s c => (networksetup services s c).getD s) s = s0 := by
  induction names generalizing s with
  | nil => exact funext fun n => hothers n List.not_mem_nil
  | cons n names ih =>
      obtain ⟨⟨hn, hrestorable⟩, hnames⟩ := List.forall_mem_cons.mp hnames
      have hcons : restoreCommands (backupOf s0 (n :: names)) =
          restoreCommands [readAutoProxyState n (getAutoProxyUrl (s0 n))] ++
            restoreCommands (backupOf s0 names) := by
        rw [restoreCommands, restoreCommands, restoreCommands, List.flatMap_singleton]
        rfl
      have hone := service_restoreCommands (readAutoProxyState n (getAutoProxyUrl (s0 n)))
      rw [hcons, List.foldl_append, foldl_networksetup hn hone,
        foldl_restoreCommands n hrestorable (hs n)]
      refine ih hnames (fun m => ?_) fun m hm => ?_
      · by_cases hmn : m = n
        · rw [hmn, Function.update_self]
          exact ⟨rfl, rfl⟩
        · rw [Function.update_of_ne hmn]
          exact hs m
      · by_cases hmn : m = n
        · rw [hmn, Function.update_self]
        · rw [Function.update_of_ne hmn]
          exact hothers m (by simp [hmn, hm])

/-! ### Runs -/

variable (services : Services)

/-- A proxy that is set is the one that was. -/
def SameProxy (s0 : Settings) : NetworkSetup → Prop
  | .setSocksFirewallProxy service proxy => proxy = (s0 service).socks
  | _ => True

/-- When a call leaves what a restore can put back. An enable that reads the services needs each of
them as it can be put back, automatic proxies that are on where they were, and every proxy that it
sets to be the one that was there; a restore, that its commands succeed. -/
def Keeps (s0 : Settings) (s : State) : ProxyCall → Prop
  | .enable target faults =>
      let names := enabledNetworkServices services
      (readBackup services faults s.settings).isSome = true →
        (∀ n ∈ names, Restorable (s0 n) ∧ (s.settings n).autoProxyOn = (s0 n).autoProxyOn) ∧
          ∀ c ∈ effective (networksetup services) faults (1 + names.length) s.settings
            (enableCommands names target), SameProxy s0 c
  | .restore faults => ∀ i, faults i = false

/-- The servers stay what they were, as does what is not listed; with no backup, all is as it was,
and a backup is one of that. -/
structure Kept (s0 : Settings) (s : State) : Prop where
  servers : ∀ n, SameServers (s.settings n) (s0 n)
  others : ∀ n, n ∉ enabledNetworkServices services → s.settings n = s0 n
  untouched : s.backup = none → s.settings = s0
  backup : ∀ states, s.backup = some states →
    states = backupOf s0 (enabledNetworkServices services) ∧
      ∀ n ∈ enabledNetworkServices services, n ∈ services.map Prod.fst ∧ Restorable (s0 n)

variable {services} {s0 : Settings} {s : State}

theorem restore_settings (h : Kept services s0 s) {faults : Nat → Bool}
    (hfaults : ∀ i, faults i = false) : (restore services faults s).settings = s0 := by
  rw [restore]
  cases hbackup : s.backup with
  | none => exact h.untouched hbackup
  | some states =>
      obtain ⟨rfl, hnames⟩ := h.backup states hbackup
      dsimp only
      rw [each_of_faultless fun j _ _ => hfaults j]
      exact foldl_backup hnames h.servers h.others

/-- A backup can only be had of services that are there. -/
theorem readBackup_eq_some {faults : Nat → Bool} {s : Settings} {states : List MacOsAutoProxyState}
    (h : readBackup services faults s = some states) :
    states = backupOf s (enabledNetworkServices services) ∧
      ∀ n ∈ enabledNetworkServices services, n ∈ services.map Prod.fst := by
  rw [readBackup] at h
  split at h
  · cases h
  · split at h
    · cases h
    · rename_i hall
      cases h
      refine ⟨rfl, fun n hn => ?_⟩
      obtain ⟨i, hi, rfl⟩ := List.mem_iff_getElem.mp hn
      by_contra habsent
      refine hall (List.any_eq_true.mpr ⟨((enabledNetworkServices services)[i], i),
        List.mem_zipIdx_iff_getElem?.mpr (List.getElem?_eq_getElem hi), ?_⟩)
      simp [habsent]

theorem mem_enableCommands {names : List Text} {target : DesktopProxyTarget} {c : NetworkSetup}
    (h : c ∈ enableCommands names target) :
    c.service ∈ names ∧ ∀ service url, c ≠ .setAutoProxyUrl service url := by
  obtain ⟨n, hn, hc⟩ := List.mem_flatMap.mp h
  simp only [List.mem_cons, List.not_mem_nil, or_false] at hc
  rcases hc with rfl | rfl | rfl
  all_goals exact ⟨hn, fun service url hbad => by cases hbad⟩

/-- A command of an enable that meets the condition leaves the servers, and what is not listed. -/
theorem networksetup_kept {s s' : Settings} {names : List Text} {c : NetworkSetup}
    (hs : (∀ n, SameServers (s n) (s0 n)) ∧ ∀ n, n ∉ names → s n = s0 n)
    (hc : (c.service ∈ names ∧ ∀ service url, c ≠ .setAutoProxyUrl service url) ∧ SameProxy s0 c)
    (happly : networksetup services s c = some s') :
    (∀ n, SameServers (s' n) (s0 n)) ∧ ∀ n, n ∉ names → s' n = s0 n := by
  obtain ⟨⟨hlisted, hurl⟩, hproxy⟩ := hc
  rw [networksetup] at happly
  split at happly
  · cases happly
    refine ⟨fun n => ?_, fun n hn => ?_⟩
    · by_cases hservice : n = c.service
      · rw [hservice, Function.update_self]
        have hsame := hs.1 c.service
        cases c with
        | setSocksFirewallProxy service proxy => exact ⟨hproxy, hsame.2⟩
        | setSocksFirewallProxyState service on => exact hsame
        | setAutoProxyUrl service url => exact absurd rfl (hurl service url)
        | setAutoProxyState service on => exact hsame
      · rw [Function.update_of_ne hservice]
        exact hs.1 n
    · rw [Function.update_of_ne fun hservice : n = c.service => hn (hservice ▸ hlisted)]
      exact hs.2 n hn
  · cases happly

theorem enable_kept (h : Kept services s0 s) {target : DesktopProxyTarget} {faults : Nat → Bool}
    (hkeeps : Keeps services s0 s (.enable target faults)) :
    Kept services s0 (enable services target faults s) := by
  rw [enable]
  cases hread : readBackup services faults s.settings with
  | none => exact h
  | some states =>
      obtain ⟨hrestorable, hproxies⟩ := hkeeps (by rw [hread]; rfl)
      obtain ⟨hstates, hthere⟩ := readBackup_eq_some hread
      have hsame : states = backupOf s0 (enabledNetworkServices services) := by
        rw [hstates]
        refine List.map_congr_left fun n hn => congrArg (readAutoProxyState n) ?_
        rw [getAutoProxyUrl, getAutoProxyUrl, (h.servers n).2, (hrestorable n hn).2]
      obtain ⟨hservers, hothers⟩ := untilFailure_inv (fun s c s' => networksetup_kept)
        ⟨h.servers, h.others⟩
        fun c hc => ⟨mem_enableCommands (effective_subset _ _ _ c hc), hproxies c hc⟩
      refine ⟨hservers, hothers, (fun hnone => by cases hnone), fun states' hstates' => ?_⟩
      cases hstates'
      exact ⟨hsame, fun n hn => ⟨hthere n hn, (hrestorable n hn).1⟩⟩

theorem step_kept {s' : State} {call : ProxyCall} (h : Kept services s0 s)
    (hkeeps : Keeps services s0 s call) (hstep : step services s call = some s') :
    Kept services s0 s' := by
  cases call with
  | enable target faults =>
      cases hstep
      exact enable_kept h hkeeps
  | restore faults =>
      cases hstep
      have hback : (restore services faults s).settings = s0 := restore_settings h hkeeps
      have hnone : (restore services faults s).backup = none := by
        rw [restore]
        split
        · assumption
        · rfl
      refine ⟨fun n => ?_, fun n _ => congrFun hback n, fun _ => hback, fun states hstates => ?_⟩
      · rw [hback]
        exact ⟨rfl, rfl⟩
      · rw [hnone] at hstates
        cases hstates

/-- In a run whose calls all meet the condition, a restore puts the settings back. -/
theorem run_restores {calls : List ProxyCall}
    (hcalls : AllSteps (step services) (Keeps services s0) { settings := s0 } calls)
    (hrun : run (step services) { settings := s0 } calls = some s) {faults : Nat → Bool}
    (hfaults : ∀ i, faults i = false) : (restore services faults s).settings = s0 := by
  have hstart : Kept services s0 { settings := s0 } :=
    ⟨fun n => ⟨rfl, rfl⟩, fun n _ => rfl, fun _ => rfl, fun states h => by cases h⟩
  exact restore_settings (run_inv (fun s call s' => step_kept) hstart hcalls hrun) hfaults

end MacOs

end Ghostlane.Desktop
