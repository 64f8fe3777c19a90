import Ghostlane.Lib.Text

/-!
# Ghostlane.Cli.Store

The daemon's config (`internal/store/store.go`): the subscriptions in the order
they were added, the selection that survives a restart, and the proxy's
address. Values are immutable here, so `Config.Clone` is the value itself.
-/

namespace Ghostlane.Cli

open Ghostlane.Lib

/-- A list the daemon keeps: `https://…`, or `inline:` and the lines themselves. -/
structure Subscription where
  url : Text
  title : Text := []
  intervalHours : Int := 0
  addedAt : Nat
  deriving DecidableEq, Repr

/-- How a line carries traffic. `connect` lets no other mode through. -/
inductive Mode
  | tun
  | proxy
  deriving DecidableEq, Repr

structure Selection where
  subscription : Text
  selector : Text
  mode : Mode
  /-- Tun only: refuse traffic outside the tunnel while no line is up. -/
  killSwitch : Bool := false
  /-- The id of the line an index or a label named, once resolved. -/
  entryID : Text := []
  /-- The list that line came from. -/
  entrySub : Text := []
  deriving DecidableEq, Repr

namespace Selection

/-- Does starting this selection install the kill switch? -/
def wantsSwitch (sel : Selection) : Bool :=
  sel.mode == .tun && sel.killSwitch

/-- The four fields a person chooses; the other two are what `resolve` remembers. -/
def asked (sel : Selection) : Text × Text × Mode × Bool :=
  (sel.subscription, sel.selector, sel.mode, sel.killSwitch)

/-- `resolve` remembering a line changes nothing the person asked for. -/
@[simp] theorem asked_remembered (sel : Selection) (id sub : Text) :
    asked { sel with entryID := id, entrySub := sub } = sel.asked := rfl

end Selection

structure Proxy where
  listen : Text
  port : Int
  user : Text := []
  pass : Text := []
  deriving DecidableEq, Repr

structure Config where
  subscriptions : List Subscription := []
  selection : Option Selection := none
  proxy : Proxy
  deriving DecidableEq, Repr

/-- What a missing config file stands for. -/
def Config.defaults : Config :=
  { proxy := { listen := txt "127.0.0.1", port := 1080 } }

end Ghostlane.Cli
