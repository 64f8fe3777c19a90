import Ghostlane.App.Operations
import Mathlib.Algebra.Ring.Int.Defs
import Mathlib.Algebra.Ring.Nat
import Mathlib.Data.List.Sort

/-!
# Ghostlane.App.LowestConnection

"Lowest" of a list (`ui/features/home/LowestConnection.kt`): the servers of the list are ranked, and
the app connects through them one after another, three at most. `run` goes from one suspension point
to the next, and between two of them any other operation of the store may come (`step`).
-/

namespace Ghostlane.App

open Ghostlane.Lib

/-- What a platform says of its tunnel. -/
inductive VpnStatus
  | disconnected
  | connecting
  | connected
  | reconnecting
  | stopping
  | error (message : Text)
  deriving DecidableEq, Repr

def killSwitchHoldsTraffic : Text :=
  txt "The tunnel is down and the kill switch is blocking traffic. Connect again, or turn " ++
    txt "the kill switch off in the connection settings to unblock it. Either one asks for " ++
    txt "the administrator password."

def killSwitchHoldsTrafficMac : Text :=
  txt "The tunnel is down and the kill switch is blocking traffic. Connect again, or turn " ++
    txt "the kill switch off in the connection settings to unblock it."

def VpnStatus.isKillSwitchHold : VpnStatus → Bool
  | .error message => message == killSwitchHoldsTraffic || message == killSwitchHoldsTrafficMac
  | _ => false

/-- Lowest is on for the list. -/
def SubscriptionSettings.lowestEnabledFor (s : SubscriptionSettings) (subscriptionUrl : Text) :
    Bool :=
  let url := trim subscriptionUrl
  url != [] && (s.lowestSubscriptionUrls.contains url ||
    (s.autoSelectLowest && s.lowestSubscriptionUrls.isEmpty))

/-- `TransportMismatch.explanation` has something to say: the link asks for a transport that the
room does not run. -/
def LocationEntry.mismatched (e : LocationEntry) : Bool :=
  ((e.metadata.bind (·.requestedTransport)).bind nonBlank).any fun requested =>
    normalizeTransport requested defaultBypassProvider != e.location.transport

def LocationKind.label : LocationKind → Text
  | .olcrtc => txt "Olcrtc"
  | .vless => txt "Vless"
  | .hysteria2 => txt "Hysteria2"
  | .trojan => txt "Trojan"
  | .shadowsocks => txt "Shadowsocks"
  | .vmess => txt "Vmess"

/-- `toString` of a location. -/
def LocationConfig.toText (c : LocationConfig) : Text :=
  txt "LocationConfig(name=" ++ c.name ++ txt ", id=" ++ c.id ++ txt ", key=" ++ c.key ++
    txt ", bypassProvider=" ++ c.bypassProvider ++ txt ", transport=" ++ c.transport ++
    txt ", vp8Fps=" ++ decimalInt c.vp8Fps ++ txt ", vp8Batch=" ++ decimalInt c.vp8Batch ++
    txt ", kind=" ++ c.kind.label ++ txt ", rawLink=" ++ c.rawLink.getD (txt "null") ++
    txt ", failoverRoomIds=[" ++ (txt ", ").intercalate c.failoverRoomIds ++ txt "])"

/-- What an entry dials, whatever it is called. -/
def connectionKey (e : LocationEntry) : Text :=
  let config := e.location.normalized
  match config.rawLink with
  | some link => config.kind.label ++ ':' :: ((cut '#' link).map Prod.fst).getD link
  | none => { config with name := [] }.toText

namespace LowestConnection

def maxProbes : Nat := 32
def maxAttempts : Nat := 3
def noAnswer : Int := 2 ^ 63 - 1
def noPlace : Nat := 2 ^ 31 - 1

/-- An entry of the list. -/
def ofList (subscription : Text) (e : LocationEntry) : Bool :=
  e.subscriptionUrl.map trim == some subscription

section

variable [JsonReader]

/-- The selected entry first, and every server once. -/
def candidates (subscription selectedId : Text) (entries : List LocationEntry) :
    List LocationEntry :=
  let ours := entries.filter fun e =>
    ofList subscription e && e.location.isComplete && !e.mismatched
  distinctBy connectionKey
    ((ours.filter (·.storageId == selectedId)) ++ ours.filter (·.storageId != selectedId))

end

/-- `rank`, with what a ping answered in time. -/
def rank (ping : Text → Option Int) (selectedId : Text) (entries : List LocationEntry) :
    List LocationEntry :=
  let probed := ((entries.filter (·.location.kind ≠ .olcrtc)).take maxProbes).map (·.storageId)
  let time (e : LocationEntry) : Int :=
    if e.storageId ∈ probed then ((ping e.storageId).filter (0 ≤ ·)).getD noAnswer else noAnswer
  let late (e : LocationEntry) : Nat := if e.storageId = selectedId then 0 else 1
  entries.insertionSort fun a b => time a < time b ∨ time a = time b ∧ late a ≤ late b

/-- The order the screen showed. -/
def preferred (ids : List Text) (selectedId : Text) (entries : List LocationEntry) :
    List LocationEntry :=
  let place (e : LocationEntry) : Nat := (lastValue ids.zipIdx e.storageId).getD noPlace
  let late (e : LocationEntry) : Nat := if e.storageId = selectedId then 0 else 1
  entries.insertionSort fun a b => place a < place b ∨ place a = place b ∧ late a ≤ late b

/-! ### Where `run` is -/

/-- What `run` carries from one candidate to the next. -/
structure Loop where
  subscription : Text
  /-- The selected location as it last saw it, or set it. -/
  expectedId : Text
  attempts : Nat := 0

/-- The entry a candidate was found as, which dials the same. -/
structure Found (candidate : LocationEntry) where
  entry : LocationEntry
  same : entry.storageId = candidate.storageId ∧ connectionKey entry = connectionKey candidate

/-- What was found, found once more. -/
def Found.again {candidate : LocationEntry} (f : Found candidate) (g : Found f.entry) :
    Found candidate where
  entry := g.entry
  same := ⟨g.same.1.trans f.same.1, g.same.2.trans f.same.2⟩

/-- What a stop is waited for. -/
inductive Resume
  | ranking (subscription : Text) (selected : LocationEntry) (entries : List LocationEntry)
  | retry (l : Loop) (rest : List LocationEntry)

/-- A write that is about to be made. -/
structure Write where
  subscription : Text
  expectedId : Text
  candidate : LocationEntry
  newId : Text

/-- The suspension points of `run`, each named for what comes next. -/
inductive Stage
  | start
  | selected (entry : LocationEntry) (subscription : Text)
  /-- The block is held: the one write, without a measurement. -/
  | holding (w : Write)
  | holdingSelected
  | stopping (r : Resume)
  | ranking (subscription : Text) (selected : LocationEntry) (entries : List LocationEntry)
  | choosing (l : Loop) (candidate : LocationEntry) (rest : List LocationEntry)
  | allowed (l : Loop) (candidate : LocationEntry) (rest : List LocationEntry)
  | reading (l : Loop) (candidate : LocationEntry) (rest : List LocationEntry)
  | cooling (l : Loop) (candidate : LocationEntry) (f : Found candidate)
    (rest : List LocationEntry)
  | allowedAgain (l : Loop) (candidate : LocationEntry) (f : Found candidate)
    (rest : List LocationEntry)
  | rechecking (l : Loop) (candidate : LocationEntry) (f : Found candidate)
    (rest : List LocationEntry)
  | setting (l : Loop) (candidate : LocationEntry) (f : Found candidate)
    (rest : List LocationEntry)
  | onSelected (l : Loop) (rest : List LocationEntry)
  | connecting (l : Loop) (rest : List LocationEntry)
  | connected (l : Loop) (rest : List LocationEntry)
  | finished

/-- What the platform shows `run` on its way to the next suspension point. -/
structure Answers where
  /-- `vpn.status.value`, where it looks. -/
  status : VpnStatus
  /-- What a wait for the status ended with. -/
  seen : Option VpnStatus := none
  ping : Text → Option Int := fun _ => none

inductive Event
  /-- Another operation of the store. -/
  | other (e : StoreEvent)
  | go (a : Answers)
  /-- `run` is cancelled, or what it waits for throws. -/
  | cancel

structure State where
  store : Store
  preferredIds : Option (List Text)
  stage : Stage := .start
  /-- How often `run` has set the active location, and started the tunnel. -/
  sets : Nat := 0
  starts : Nat := 0

/-- The next candidate; after the last one `run` fails. -/
def nextCandidate (l : Loop) : List LocationEntry → Stage
  | [] => .finished
  | candidate :: rest => .choosing l candidate rest

/-- `stopAndWait`, and what follows where nothing has to be waited for. -/
def stopAndWait (status : VpnStatus) (onStopped : Stage) (r : Resume) : Stage :=
  if status = .disconnected then onStopped
  else if status.isKillSwitchHold then .finished
  else .stopping r

/-- `rank` suspends; an order that the screen showed does not. -/
def order (ids : Option (List Text)) (subscription : Text) (selected : LocationEntry)
    (entries : List LocationEntry) : Stage :=
  match ids with
  | none => .ranking subscription selected entries
  | some ids =>
      nextCandidate { subscription, expectedId := selected.storageId }
        (preferred ids selected.storageId entries)

def resume (ids : Option (List Text)) : Resume → Stage
  | .ranking subscription selected entries => order ids subscription selected entries
  | .retry l rest => nextCandidate l rest

section

variable [Build]

/-- A read of the store by `run`, and what it makes of the bundle. Where the read throws, `run`
ends. -/
def reads (s : State) (next : LocationBundleV4 → Stage) : State :=
  match s.store.getBundleUnlocked with
  | .ok (b, store) => { s with store, stage := next b }
  | .error _ => { s with store := s.store.afterRead, stage := .finished }

/-- The candidates, and what is done with them. -/
def afterCandidates (ids : Option (List Text)) (status : VpnStatus) (subscription : Text)
    (selected : LocationEntry) (entries : List LocationEntry) : Stage :=
  match candidates subscription selected.storageId entries with
  | [] => .finished
  | first :: rest =>
      if status.isKillSwitchHold then
        if first.storageId ≠ selected.storageId then
          .holding ⟨subscription, selected.storageId, first, first.storageId⟩
        else .holdingSelected
      else
        stopAndWait status (order ids subscription selected (first :: rest))
          (.ranking subscription selected (first :: rest))

/-- The entry a candidate is now, unless it was deleted or replaced. -/
def found? (subscription : Text) (candidate : LocationEntry) (b : LocationBundleV4) :
    Option (Found candidate) :=
  (b.locations.find? (·.storageId = candidate.storageId)).bind fun entry =>
    if h : ofList subscription entry = true ∧ entry.storageId = candidate.storageId ∧
        connectionKey entry = connectionKey candidate then
      some ⟨entry, h.2⟩
    else none

/-- From one suspension point to the next. -/
def go (s : State) (a : Answers) : Option State :=
  match s.stage with
  | .start => some <| reads s fun b =>
      match b.locations.find? (some ·.storageId = b.activeLocationId) with
      | none => .finished
      | some entry =>
          match (entry.subscriptionUrl.map trim).bind nonEmpty with
          | none => .finished
          | some subscription => .selected entry subscription
  | .selected entry subscription => some <| reads s fun b =>
      afterCandidates s.preferredIds a.status subscription entry b.locations
  | .holding w => some <|
      match s.store.setActiveLocationId (some w.newId) with
      | .ok store => { s with store, stage := .holdingSelected, sets := s.sets + 1 }
      | .error _ => { s with store := s.store.afterRead, stage := .finished }
  | .holdingSelected => some { s with stage := .finished, starts := s.starts + 1 }
  | .stopping r => some { s with stage := resume s.preferredIds r }
  | .ranking subscription selected entries => some
      { s with
        stage := nextCandidate { subscription, expectedId := selected.storageId }
          (rank a.ping selected.storageId entries) }
  | .choosing l candidate rest => some <| reads s fun b =>
      if b.activeLocationId = some l.expectedId then .allowed l candidate rest else .finished
  | .allowed l candidate rest => some <| reads s fun b =>
      if b.settings.normalized.lowestEnabledFor l.subscription then .reading l candidate rest
      else .finished
  | .reading l candidate rest => some <| reads s fun b =>
      match found? l.subscription candidate b with
      | none => nextCandidate l rest
      | some f =>
          if maxAttempts ≤ l.attempts then .finished
          else
            let l := { l with attempts := l.attempts + 1 }
            if 1 < l.attempts then .cooling l candidate f rest
            else if a.status = .disconnected then .rechecking l candidate f rest
            else .finished
  | .cooling l candidate f rest => some <| reads s fun b =>
      if b.activeLocationId = some l.expectedId then
        .allowedAgain l candidate f rest
      else .finished
  | .allowedAgain l candidate f rest => some <| reads s fun b =>
      if b.settings.normalized.lowestEnabledFor l.subscription ∧ a.status = .disconnected then
        .rechecking l candidate f rest
      else .finished
  | .rechecking l candidate f rest => some <| reads s fun b =>
      match found? l.subscription f.entry b with
      | none => nextCandidate l rest
      | some g => if g.entry.mismatched then nextCandidate l rest
          else .setting l candidate (f.again g) rest
  | .setting l _ f rest => some <|
      match s.store.setActiveLocationId (some f.entry.storageId) with
      | .ok store =>
          { s with
            store, stage := .onSelected { l with expectedId := f.entry.storageId } rest
            sets := s.sets + 1 }
      | .error _ => { s with store := s.store.afterRead, stage := .finished }
  | .onSelected l rest => some { s with stage := .connecting l rest, starts := s.starts + 1 }
  | .connecting l rest =>
      let retry := stopAndWait a.status (nextCandidate l rest) (.retry l rest)
      match a.seen with
      | some .disconnected | some .stopping => some { s with stage := .finished }
      | some .connected => some { s with stage := .connected l rest }
      | some (.error _) | none => some { s with stage := retry }
      | some .connecting | some .reconnecting => none
  | .connected l rest =>
      match a.seen with
      | some .disconnected | some .stopping => some { s with stage := .finished }
      | some (.error _) =>
          some { s with stage := stopAndWait a.status (nextCandidate l rest) (.retry l rest) }
      | _ => none
  | .finished => none

def step (s : State) : Event → Option State
  | .other e => (s.store.step e).map fun store => { s with store }
  | .go a => go s a
  | .cancel => some { s with stage := .finished }

end

end LowestConnection

end Ghostlane.App
