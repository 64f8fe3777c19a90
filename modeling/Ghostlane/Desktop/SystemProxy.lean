import Ghostlane.Desktop.MacOsProxy
import Ghostlane.Desktop.WindowsProxy

/-!
# Ghostlane.Desktop.SystemProxy

Runs of the controllers of the system proxy, on macOS and on Windows
(`vpn/desktop/DesktopProxyController.kt`): what a restore puts back.
-/

namespace Ghostlane.Desktop

open Ghostlane.Lib App

/-- **Switching the system proxy off puts the system back,** in every run whose calls all meet the
condition. -/
theorem restores_settings (services : MacOs.Services) (mac : MacOs.Settings)
    (windows : Windows.Settings) (calls : List ProxyCall) :
    (AllSteps (MacOs.step services) (MacOs.Keeps services mac) { settings := mac } calls →
      ∀ s, run (MacOs.step services) { settings := mac } calls = some s →
        (MacOs.restore services faultless s).settings = mac) ∧
    (AllSteps Windows.step (Windows.Keeps windows) { settings := windows } calls →
      ∀ s, run Windows.step { settings := windows } calls = some s →
        (Windows.restore faultless s).settings = windows) :=
  ⟨fun hcalls _ hrun => MacOs.run_restores hcalls hrun fun _ => rfl,
    fun hcalls _ hrun => Windows.run_restores hcalls hrun fun _ => rfl⟩

/-- A target of this machine. -/
def loopback : DesktopProxyTarget where
  pacUrl := txt "http://127.0.0.1:9/p"
  socksHost := txt "::1"
  socksPort := 9

/-- One service, with a proxy that it keeps and may have on. -/
def oneService (host : Text) (on : Bool) : MacOs.Settings := fun _ =>
  { socks := { host, port := txt "9", login := none }, socksOn := on, autoProxyUrl := none,
    autoProxyOn := false }

/-- The same service, with an automatic proxy that is on. -/
def autoService : MacOs.Settings := fun _ =>
  { socks := { host := txt "::1", port := txt "9", login := none }, socksOn := false,
    autoProxyUrl := some (txt "http://proxy.corp/a.pac"), autoProxyOn := true }

/-- A proxy that is on and an automatic one. -/
def corpValues : Windows.Settings
  | .proxyEnable => some (.dword 1)
  | .proxyServer => some (.string (txt "proxy.corp:8080"))
  | .proxyOverride => none
  | .autoConfigUrl => some (.string (txt "http://proxy.corp/a.pac"))

/-- The `i`-th command fails. -/
def failing (i : Nat) : Nat → Bool := (· == i)

/-- Enables that fail half way, the first on macOS and the second on Windows. -/
theorem restores_settings_half_way :
    (MacOs.restore [(txt "Wi-Fi", false)] faultless
      (MacOs.enable [(txt "Wi-Fi", false)] loopback (failing 5)
        (MacOs.enable [(txt "Wi-Fi", false)] loopback (failing 4)
          { settings := autoService }))).settings = autoService ∧
    (Windows.restore faultless (Windows.enable loopback (failing 5)
      (Windows.enable loopback (failing 4) { settings := corpValues }))).settings = corpValues := by
  have hnames : MacOs.enabledNetworkServices [(txt "Wi-Fi", false)] = [txt "Wi-Fi"] := by decide
  have hmac : ∀ s faults, (s.settings (txt "Wi-Fi")).autoProxyOn = true →
      MacOs.Keeps [(txt "Wi-Fi", false)] autoService s (.enable loopback faults) := by
    intro s faults hon _
    have hrestorable : MacOs.Restorable (autoService (txt "Wi-Fi")) :=
      { socksOff := rfl
        oneLine := fun u hu => by
          cases hu
          unfold OneLine
          decide
        named := fun _ => ⟨_, rfl, by decide, by decide, by decide⟩ }
    rw [hnames]
    refine ⟨fun n hn => ?_, fun c hc => ?_⟩
    · rw [List.mem_singleton.mp hn]
      exact ⟨hrestorable, hon⟩
    · have hlisted := effective_subset _ _ _ c hc
      simp only [MacOs.enableCommands, List.flatMap_singleton, List.mem_cons, List.not_mem_nil,
        or_false] at hlisted
      rcases hlisted with rfl | rfl | rfl
      · rfl
      · trivial
      · trivial
  have hwindows : ∀ i, 4 ≤ i →
      Windows.Keeps corpValues { settings := corpValues } (.enable loopback (failing i)) := by
    intro i hi
    refine ⟨rfl, fun name => ?_, fun p hp hfault => ?_⟩
    · cases name with
      | proxyEnable => trivial
      | proxyServer => exact Windows.clean_of_forall (by decide) (by decide)
      | proxyOverride => trivial
      | autoConfigUrl => exact Windows.clean_of_forall (by decide) (by decide)
    · -- the values are read by the first four commands
      have hread : p.2 < 4 := List.snd_lt_of_mem_zipIdx hp
      rw [failing, beq_iff_eq] at hfault
      omega
  obtain ⟨hmacs, hwindowss⟩ := restores_settings [(txt "Wi-Fi", false)] autoService corpValues
    [.enable loopback (failing 4), .enable loopback (failing 5)]
  refine ⟨hmacs ⟨hmac _ _ rfl, fun s hs => ?_⟩ _ rfl,
    hwindowss ⟨hwindows 4 (by decide), fun s hs => ?_⟩ _ rfl⟩
  · cases hs
    exact ⟨hmac _ _ (by decide), fun _ _ => trivial⟩
  · cases hs
    exact ⟨hwindows 5 (by decide), fun _ _ => trivial⟩

/-- A SOCKS proxy that was on, on macOS, and a second enable, on Windows. -/
theorem restore_loses_settings :
    (MacOs.restore [(txt "Wi-Fi", false)] faultless
      (MacOs.enable [(txt "Wi-Fi", false)] loopback faultless
        { settings := oneService (txt "corp") true })).settings (txt "Wi-Fi") ≠
      oneService (txt "corp") true (txt "Wi-Fi") ∧
    (Windows.restore faultless (Windows.enable loopback faultless
      (Windows.enable loopback faultless { settings := fun _ => none }))).settings .proxyEnable ≠
      none := by
  decide

end Ghostlane.Desktop
