import Ghostlane.Lib.Runs
import Ghostlane.Phone.RoomList

/-!
# Ghostlane.Phone.RoomKeeper

The phone's tunnel asks for its room list (`PacketTunnel/RoomKeeper.swift`): when a session is
opened, every five minutes, and half a minute after an answer that was a failure. Two requests
closer than `minRefreshInterval` are to be one, but a retry does not look at the last request. It
keeps the distance all the same as long as it is the last failure's and nothing was asked since.

Everything happens on one serial queue, so an event is handled at once and a timer that was
cancelled does not fire. A timer fires when it is due or later. Instants are nanoseconds, and the
clock does not go back. Notes and what is kept on disk are left out.
-/

namespace Ghostlane.Phone

open Ghostlane.Lib

/-- Whether two names are one carrier. -/
def RoomList.sameCarrier [SwiftText] (lhs rhs : Text) : Bool :=
  let carrier := normalizedCarrier lhs
  carrier != [] && same carrier (normalizedCarrier rhs)

/-- `==` of two lists of rooms. -/
def RoomList.Parsed.same [SwiftText] (a b : Parsed) : Bool :=
  Phone.same a.primary b.primary && a.extras.length == b.extras.length &&
    (a.extras.zip b.extras).all fun (x, y) => Phone.same x y

namespace RoomKeeper

open RoomList

def seconds (n : Int) : Int := n * 1000000000

def minRefreshInterval : Int := seconds 15
def periodicRefresh : Int := seconds (5 * 60)
def retryAfterFailure : Int := seconds 30
def watchdogTick : Int := seconds 3
def restartBackoff : List Int := [seconds 2, seconds 4, seconds 8, seconds 16, seconds 20]

/-- What of a location's parameters is read here. -/
structure Parameters where
  /-- There is a subscription, and its address is one. -/
  hasURL : Bool
  keyHex : Text
  carrierName : Text
  deriving DecidableEq, Repr

/-- What a request comes back with. -/
inductive Answer
  | error
  /-- The status, whether a header says that the device is turned away, and the body where it is
  UTF-8. -/
  | http (status : Nat) (flagged : Bool) (body : Option Text)
  deriving DecidableEq, Repr

namespace Answer

/-- `DeviceHeaders.refusal`: only an answer can be one. -/
def refusal : Answer → Bool
  | error => false
  | http status flagged _ => 200 ≤ status && status < 300 && flagged

/-- The body of an answer that is none of an error. -/
def list : Answer → Option Text
  | error => none
  | http status _ body => if 200 ≤ status ∧ status < 300 then body else none

/-- An answer that is tried again. -/
def failure (a : Answer) : Bool := !a.refusal && a.list.isNone

/-- A list, whether or not it has a line of the location. -/
def served (a : Answer) : Bool := !a.refusal && a.list.isSome

end Answer

/-- The keeper between `begin` and `stop`. -/
structure Keeper where
  parameters : Parameters
  rooms : Parsed
  running : Bool := true
  sessions : Nat := 0
  firstSessionRefreshes : Bool := false
  /-- Nothing: the distant past. -/
  lastRefresh : Option Int := none
  fetching : Bool := false
  /-- When each timer that is set fires next. -/
  periodic : Option Int := none
  retry : Option Int := none
  watchdog : Option Int := none
  restartAttempt : Nat := 0
  restartNotBefore : Option Int := none
  deriving DecidableEq, Repr

/-- What others see of it. -/
inductive Seen
  /-- A list request is sent. -/
  | sent (time : Int)
  /-- A request is answered. -/
  | answered (failure : Bool) (time : Int)
  /-- A retry fires. -/
  | retried (time : Int)
  deriving DecidableEq, Repr

namespace Keeper

/-- `begin`. A request of an earlier run may be under way. -/
def begin (parameters : Parameters) (rooms : Parsed) (fetching : Bool) : Keeper :=
  { parameters, rooms, fetching }

def cancelTimers (k : Keeper) : Keeper :=
  { k with periodic := none, retry := none, watchdog := none }

def startTimers (k : Keeper) (now : Int) : Keeper :=
  { k.cancelTimers with
    periodic := some (now + periodicRefresh)
    watchdog := some (now + watchdogTick) }

/-- `refresh` sends a request. -/
def asks (k : Keeper) (now : Int) : Bool :=
  k.running && !k.fetching && k.parameters.hasURL &&
    k.lastRefresh.all fun last => minRefreshInterval ≤ now - last

/-- `refresh`, with what is seen of it. -/
def refresh (k : Keeper) (now : Int) : Keeper × List Seen :=
  if k.asks now then ({ k with lastRefresh := some now, fetching := true }, [.sent now])
  else (k, [])

def scheduleRetry (k : Keeper) (now : Int) : Keeper :=
  { k with retry := some (now + retryAfterFailure) }

/-- `apply` of a list that was read; the engine may refuse it. -/
def applyParsed [SwiftText] (k : Keeper) (next : Parsed) (accepted : Bool) : Keeper :=
  if next.same k.rooms then k else if accepted then { k with rooms := next } else k

/-- `fetched`. -/
def fetched [SwiftText] (k : Keeper) (now : Int) (a : Answer) (accepted : Bool) : Keeper :=
  let k := { k with fetching := false }
  if !k.running then k
  else if a.refusal then { k with retry := none }
  else match a.list with
    | none => k.scheduleRetry now
    | some body =>
        match RoomList.parse body k.parameters.keyHex k.parameters.carrierName with
        | none => k
        | some parsed => k.applyParsed parsed accepted

/-- `apply` of a list the app sends. -/
def apply [SwiftText] (k : Keeper) (primary : Text) (extras : List Text) (carrier : Text)
    (accepted : Bool) : Keeper :=
  if k.running && sameCarrier carrier k.parameters.carrierName then
    k.applyParsed ⟨primary, extras⟩ accepted
  else k

/-- `onSessionOpened`. -/
def onSessionOpened (k : Keeper) (now : Int) : Keeper × List Seen :=
  if !k.running then (k, [])
  else
    let k := { k with sessions := k.sessions + 1, restartAttempt := 0, restartNotBefore := none }
    if 1 < k.sessions ∨ k.firstSessionRefreshes then k.refresh now else (k, [])

/-- `checkEngine`. -/
def checkEngine (k : Keeper) (now : Int) (isRunning : Bool) : Keeper :=
  if !k.running || isRunning || k.restartNotBefore.any (now < ·) then k
  else
    let restartAttempt := k.restartAttempt + 1
    let delay := restartBackoff.getD (min restartAttempt restartBackoff.length - 1) 0
    { k with
      restartAttempt
      restartNotBefore := some (now + delay)
      sessions := 0
      firstSessionRefreshes := true }

end Keeper

/-- What happens to the keeper. -/
inductive Event
  | armed
  | sessionOpened
  | periodic
  | retry
  | watchdog (engineRuns : Bool)
  | fetched (a : Answer) (accepted : Bool)
  | apply (primary : Text) (extras : List Text) (carrier : Text) (accepted : Bool)
  /-- The flag of `stop`, from another thread. -/
  | stop
  /-- The rest of `stop`, on the queue. -/
  | stopped
  deriving DecidableEq, Repr

/-- A timer that is set has come due. -/
def due (timer : Option Int) (now : Int) : Bool := timer.any (· ≤ now)

/-- What an event does, and what is seen of it; nothing where it cannot happen. -/
def Keeper.handle [SwiftText] (k : Keeper) (now : Int) : Event → Option (Keeper × List Seen)
  | .armed => some (if k.running then k.startTimers now else k, [])
  | .sessionOpened => some (k.onSessionOpened now)
  | .periodic =>
      if due k.periodic now then
        some ({ k with periodic := k.periodic.map (· + periodicRefresh) }.refresh now)
      else none
  | .retry =>
      if due k.retry now then
        let (k, seen) := { k with retry := none, lastRefresh := none }.refresh now
        some (k, if k.running then seen ++ [.retried now] else seen)
      else none
  | .watchdog engineRuns =>
      if due k.watchdog now then
        some ({ k with watchdog := k.watchdog.map (· + watchdogTick) }.checkEngine now engineRuns,
          [])
      else none
  | .fetched a accepted =>
      if k.fetching then
        some (k.fetched now a accepted, if k.running then [.answered a.failure now] else [])
      else none
  | .apply primary extras carrier accepted => some (k.apply primary extras carrier accepted, [])
  | .stop => some ({ k with running := false }, [])
  | .stopped => some (k.cancelTimers, [])

/-- A run: the keeper, the clock, and what was seen so far, the last first. -/
structure Run where
  keeper : Keeper
  now : Int
  seen : List Seen := []
  deriving DecidableEq, Repr

/-- An event at a time. -/
def step [SwiftText] (r : Run) (e : Int × Event) : Option Run :=
  if r.now ≤ e.1 then
    (r.keeper.handle e.1 e.2).map fun (keeper, seen) => ⟨keeper, e.1, seen ++ r.seen⟩
  else none

/-! ### What is wanted of a run -/

/-- When requests were sent, the last first. -/
def sentTimes (seen : List Seen) : List Int :=
  seen.filterMap fun s => match s with
    | .sent time => some time
    | _ => none

/-- Any two requests are `minRefreshInterval` apart. -/
def Spaced (seen : List Seen) : Prop :=
  (sentTimes seen).Pairwise fun later earlier => minRefreshInterval ≤ later - earlier

/-- Whether the last answer was a failure. -/
def lastFailed : List Seen → Bool
  | [] => false
  | .answered failure _ :: _ => failure
  | _ :: seen => lastFailed seen

/-- Every retry was for a failure that no later answer followed. -/
def Owed : List Seen → Prop
  | [] => True
  | .retried _ :: seen => lastFailed seen = true ∧ Owed seen
  | _ :: seen => Owed seen

/-- **What keeps the distance.** No list is served while a retry of an earlier failure is still to
come, and no retry comes while a request is under way. -/
def Timely (r : Run) (e : Int × Event) : Prop :=
  match e.2 with
  | .fetched a _ => r.keeper.running = true → a.served = true → r.keeper.retry = none
  | .retry => r.keeper.fetching = false
  | _ => True

instance (r : Run) (e : Int × Event) : Decidable (Timely r e) :=
  match e with
  | (_, .fetched a _) =>
      inferInstanceAs (Decidable
        (r.keeper.running = true → a.served = true → r.keeper.retry = none))
  | (_, .retry) => inferInstanceAs (Decidable (r.keeper.fetching = false))
  | (_, .armed) | (_, .sessionOpened) | (_, .periodic) | (_, .watchdog _) | (_, .apply ..)
  | (_, .stop) | (_, .stopped) => isTrue trivial

/-! ### What an event leaves -/

@[simp] theorem sentTimes_nil : sentTimes [] = [] := rfl

@[simp] theorem sentTimes_sent (time : Int) (seen : List Seen) :
    sentTimes (.sent time :: seen) = time :: sentTimes seen := rfl

@[simp] theorem sentTimes_answered (failure : Bool) (time : Int) (seen : List Seen) :
    sentTimes (.answered failure time :: seen) = sentTimes seen := rfl

@[simp] theorem sentTimes_retried (time : Int) (seen : List Seen) :
    sentTimes (.retried time :: seen) = sentTimes seen := rfl

namespace Keeper

/-- What the requests of a run depend on. -/
structure SameTimes (k k' : Keeper) : Prop where
  parameters : k'.parameters = k.parameters
  running : k'.running = k.running
  lastRefresh : k'.lastRefresh = k.lastRefresh
  fetching : k'.fetching = k.fetching
  retry : k'.retry = k.retry

theorem applyParsed_sameTimes [SwiftText] (k : Keeper) (next : Parsed) (accepted : Bool) :
    SameTimes k (k.applyParsed next accepted) := by
  unfold applyParsed
  split
  · exact ⟨rfl, rfl, rfl, rfl, rfl⟩
  · split <;> exact ⟨rfl, rfl, rfl, rfl, rfl⟩

theorem apply_sameTimes [SwiftText] (k : Keeper) (primary : Text) (extras : List Text)
    (carrier : Text) (accepted : Bool) : SameTimes k (k.apply primary extras carrier accepted) := by
  unfold apply
  split
  · exact k.applyParsed_sameTimes _ _
  · exact ⟨rfl, rfl, rfl, rfl, rfl⟩

theorem checkEngine_sameTimes (k : Keeper) (now : Int) (isRunning : Bool) :
    SameTimes k (k.checkEngine now isRunning) := by
  unfold checkEngine
  split <;> exact ⟨rfl, rfl, rfl, rfl, rfl⟩

end Keeper

/-- What holds after every event. -/
structure Sound (r : Run) : Prop where
  past : ∀ t ∈ sentTimes r.seen, t ≤ r.now
  spaced : Spaced r.seen
  owed : Owed r.seen
  asked : r.keeper.parameters.hasURL = false → sentTimes r.seen = []
  last : r.keeper.running = true → r.keeper.lastRefresh = (sentTimes r.seen).head?
  /-- A retry that is set is the last failure's, and comes late enough after every request but one
  that is under way. -/
  pending : r.keeper.running = true → ∀ time ∈ r.keeper.retry, lastFailed r.seen = true ∧
    (r.keeper.fetching = false → ∀ t ∈ sentTimes r.seen, minRefreshInterval ≤ time - t)

theorem Sound.later {r : Run} (h : Sound r) {now : Int} (hnow : r.now ≤ now) :
    Sound { r with now } :=
  { h with past := fun t ht => Int.le_trans (h.past t ht) hnow }

theorem Sound.sameTimes {r : Run} (h : Sound r) {k : Keeper} (hk : Keeper.SameTimes r.keeper k) :
    Sound { r with keeper := k } where
  past := h.past
  spaced := h.spaced
  owed := h.owed
  asked hurl := h.asked (hk.parameters ▸ hurl)
  last hrunning := hk.lastRefresh.trans (h.last (hk.running ▸ hrunning))
  pending hrunning time htime := by
    rw [hk.retry] at htime
    obtain ⟨hfailed, hapart⟩ := h.pending (hk.running ▸ hrunning) time htime
    exact ⟨hfailed, fun hfetching => hapart (hk.fetching ▸ hfetching)⟩

/-- Without a retry nothing is to come. -/
theorem Sound.noRetry {r : Run} (h : Sound r) {k : Keeper} (hretry : k.retry = none)
    (hparameters : k.parameters = r.keeper.parameters)
    (hlast : k.running = true → r.keeper.running = true ∧ k.lastRefresh = r.keeper.lastRefresh) :
    Sound { r with keeper := k } where
  past := h.past
  spaced := h.spaced
  owed := h.owed
  asked hurl := h.asked (hparameters ▸ hurl)
  last hrunning := (hlast hrunning).2.trans (h.last (hlast hrunning).1)
  pending _ time htime := by
    rw [hretry] at htime
    cases htime

/-- Nothing is to come once it was stopped. -/
theorem Sound.stopped {r : Run} (h : Sound r) {k : Keeper}
    (hparameters : k.parameters = r.keeper.parameters) (hstopped : k.running = false) :
    Sound { r with keeper := k } where
  past := h.past
  spaced := h.spaced
  owed := h.owed
  asked hurl := h.asked (hparameters ▸ hurl)
  last hrunning := absurd hrunning (by simp [hstopped])
  pending hrunning := absurd hrunning (by simp [hstopped])

/-- A request that is far enough from the last one is far enough from all. -/
theorem spaced_cons {seen : List Seen} {now : Int} (h : Spaced seen)
    (hlast : ∀ t ∈ (sentTimes seen).head?, minRefreshInterval ≤ now - t) :
    ∀ t ∈ sentTimes seen, minRefreshInterval ≤ now - t := by
  unfold Spaced at h
  cases htimes : sentTimes seen with
  | nil =>
      intro t ht
      cases ht
  | cons last times =>
      rw [htimes] at h hlast
      have hnow := hlast last rfl
      intro t ht
      rcases List.mem_cons.mp ht with rfl | ht
      · exact hnow
      · have hbefore := (List.pairwise_cons.mp h).1 t ht
        have hpositive : 0 < minRefreshInterval := by decide
        omega

/-- Sending a request, once it is far enough from all that were sent. -/
theorem Sound.sent {r : Run} (h : Sound r) (hurl : r.keeper.parameters.hasURL = true)
    (hapart : ∀ t ∈ sentTimes r.seen, minRefreshInterval ≤ r.now - t) :
    Sound {
      keeper := { r.keeper with lastRefresh := some r.now, fetching := true }
      now := r.now
      seen := .sent r.now :: r.seen } where
  past t ht := by
    rcases List.mem_cons.mp ht with rfl | ht
    · exact Int.le_refl _
    · exact h.past t ht
  spaced := List.pairwise_cons.mpr ⟨hapart, h.spaced⟩
  owed := h.owed
  asked hno := by
    rw [hurl] at hno
    cases hno
  last _ := rfl
  pending hrunning time htime := by
    refine ⟨(h.pending hrunning time htime).1, fun hfetching => ?_⟩
    cases hfetching

/-- A refresh keeps the distance to the last one. -/
theorem Sound.refresh {r : Run} (h : Sound r) :
    Sound ⟨(r.keeper.refresh r.now).1, r.now, (r.keeper.refresh r.now).2 ++ r.seen⟩ := by
  unfold Keeper.refresh
  by_cases hasks : r.keeper.asks r.now = true
  · rw [if_pos hasks]
    simp only [Keeper.asks, Bool.and_eq_true, Option.all_eq_true, decide_eq_true_eq] at hasks
    obtain ⟨⟨⟨hrunning, -⟩, hurl⟩, hlast⟩ := hasks
    refine h.sent hurl (spaced_cons h.spaced fun t ht => hlast t ?_)
    rw [h.last hrunning]
    exact ht
  · rw [if_neg hasks]
    exact h

/-- A retry that fires for the last failure. -/
theorem Sound.retried {r : Run} (h : Sound r) (hfailed : lastFailed r.seen = true) {k : Keeper}
    (hretry : k.retry = none) (hparameters : k.parameters = r.keeper.parameters)
    (hlast : k.running = true → k.lastRefresh = (sentTimes r.seen).head?) :
    Sound { keeper := k, now := r.now, seen := .retried r.now :: r.seen } where
  past := h.past
  spaced := h.spaced
  owed := ⟨hfailed, h.owed⟩
  asked hurl := h.asked (hparameters ▸ hurl)
  last := hlast
  pending _ time htime := by
    rw [hretry] at htime
    cases htime

/-- A retry, when nothing is under way. -/
theorem Sound.retry {r : Run} (h : Sound r) (hdue : due r.keeper.retry r.now = true)
    (hfetching : r.keeper.fetching = false) :
    let sent := { r.keeper with retry := none, lastRefresh := none }.refresh r.now
    Sound ⟨sent.1, r.now, (if sent.1.running then sent.2 ++ [.retried r.now] else sent.2) ++
      r.seen⟩ := by
  obtain ⟨time, htime, hcome⟩ := (Option.any_eq_true _ _).mp hdue
  unfold Keeper.refresh Keeper.asks
  dsimp only
  rw [hfetching]
  cases hrunning : r.keeper.running with
  | false => exact h.noRetry rfl rfl fun hstill => absurd hstill (by simp)
  | true =>
      obtain ⟨hfailed, hapart⟩ := h.pending hrunning time htime
      have hnow : ∀ t ∈ sentTimes r.seen, minRefreshInterval ≤ r.now - t := by
        intro t ht
        have hbefore := hapart hfetching t ht
        have hcome := of_decide_eq_true hcome
        omega
      cases hurl : r.keeper.parameters.hasURL with
      | false =>
          simp only [Bool.not_false, Bool.and_false, Bool.false_and, Bool.false_eq_true, if_false,
            if_true, List.nil_append]
          refine h.retried hfailed rfl rfl fun _ => ?_
          rw [h.asked hurl]
          rfl
      | true =>
          simp only [Bool.not_false, Bool.and_true, Option.all_none, if_true]
          have hfired : Sound ⟨{ r.keeper with running := true, retry := none }, r.now,
              .retried r.now :: r.seen⟩ := h.retried hfailed rfl rfl fun _ => h.last hrunning
          exact hfired.sent hurl hnow

/-- What is seen of an answer moves no request. -/
theorem Sound.answered {r : Run} (h : Sound r) {k : Keeper} (failure : Bool)
    (hparameters : k.parameters = r.keeper.parameters)
    (hlast : k.lastRefresh = r.keeper.lastRefresh) (hrunning : r.keeper.running = true)
    (hretry : ∀ time ∈ k.retry, failure = true ∧ r.now + minRefreshInterval ≤ time) :
    Sound { keeper := k, now := r.now, seen := .answered failure r.now :: r.seen } where
  past := h.past
  spaced := h.spaced
  owed := h.owed
  asked hurl := h.asked (hparameters ▸ hurl)
  last _ := hlast.trans (h.last hrunning)
  pending _ time htime := by
    obtain ⟨hfailure, hcome⟩ := hretry time htime
    refine ⟨hfailure, fun _ t ht => ?_⟩
    have hpast := h.past t ht
    omega

/-- An answer, when what is served finds no retry. -/
theorem Sound.fetched [SwiftText] {r : Run} (h : Sound r) (a : Answer) (accepted : Bool)
    (hserved : r.keeper.running = true → a.served = true → r.keeper.retry = none) :
    Sound ⟨r.keeper.fetched r.now a accepted, r.now,
      (if r.keeper.running then [.answered a.failure r.now] else []) ++ r.seen⟩ := by
  unfold Keeper.fetched
  dsimp only
  by_cases hrunning : r.keeper.running = true
  · rw [if_neg (by rw [hrunning]; decide), if_pos hrunning]
    by_cases hrefusal : a.refusal = true
    · rw [if_pos hrefusal]
      refine h.answered _ rfl rfl hrunning fun time htime => ?_
      cases htime
    · rw [if_neg hrefusal]
      rw [Bool.not_eq_true] at hrefusal
      cases hlist : a.list with
      | none =>
          refine h.answered _ rfl rfl hrunning fun time htime => ⟨?_, ?_⟩
          · rw [Answer.failure, hlist, hrefusal]
            rfl
          · cases htime
            have hlonger : minRefreshInterval ≤ retryAfterFailure := by decide
            omega
      | some body =>
          have hretry : r.keeper.retry = none := by
            refine hserved hrunning ?_
            rw [Answer.served, hlist, hrefusal]
            rfl
          dsimp only
          cases hparse : RoomList.parse body r.keeper.parameters.keyHex
              r.keeper.parameters.carrierName with
          | none =>
              refine h.answered _ rfl rfl hrunning fun time htime => ?_
              rw [hretry] at htime
              cases htime
          | some parsed =>
              dsimp only
              have hsame := Keeper.applyParsed_sameTimes
                { r.keeper with fetching := false } parsed accepted
              refine h.answered _ hsame.parameters hsame.lastRefresh hrunning fun time htime => ?_
              rw [hsame.retry, hretry] at htime
              cases htime
  · rw [if_pos (by rw [Bool.not_eq_true] at hrunning; rw [hrunning]; rfl), if_neg hrunning]
    exact h.stopped rfl (Bool.not_eq_true _ |>.mp hrunning)

/-- **One event.** -/
theorem step_sound [SwiftText] {r r' : Run} {e : Int × Event} (h : Sound r) (htimely : Timely r e)
    (hstep : step r e = some r') : Sound r' := by
  obtain ⟨now, event⟩ := e
  obtain ⟨hnow, handled, hhandled, rfl⟩ : r.now ≤ now ∧ ∃ handled,
      r.keeper.handle now event = some handled ∧ r' = ⟨handled.1, now, handled.2 ++ r.seen⟩ := by
    unfold step at hstep
    split at hstep
    · rename_i hnow
      obtain ⟨handled, hhandled, hr'⟩ := Option.map_eq_some_iff.mp hstep
      exact ⟨hnow, handled, hhandled, hr'.symm⟩
    · cases hstep
  have hlater := h.later hnow
  cases event with
  | armed =>
      cases hhandled
      split
      · exact hlater.noRetry rfl rfl fun hrunning => ⟨hrunning, rfl⟩
      · exact hlater
  | sessionOpened =>
      cases hhandled
      unfold Keeper.onSessionOpened
      dsimp only
      split
      · exact hlater
      · split
        · refine Sound.refresh (r := ⟨_, now, r.seen⟩) (hlater.sameTimes ?_)
          exact ⟨rfl, rfl, rfl, rfl, rfl⟩
        · exact hlater.sameTimes ⟨rfl, rfl, rfl, rfl, rfl⟩
  | periodic =>
      simp only [Keeper.handle] at hhandled
      split at hhandled
      · cases hhandled
        refine Sound.refresh (r := ⟨_, now, r.seen⟩) (hlater.sameTimes ?_)
        exact ⟨rfl, rfl, rfl, rfl, rfl⟩
      · cases hhandled
  | retry =>
      simp only [Keeper.handle] at hhandled
      split at hhandled
      · rename_i hdue
        cases hhandled
        exact hlater.retry hdue htimely
      · cases hhandled
  | watchdog engineRuns =>
      simp only [Keeper.handle] at hhandled
      split at hhandled
      · cases hhandled
        have hset := hlater.sameTimes (k := { r.keeper with
          watchdog := r.keeper.watchdog.map (· + watchdogTick) }) ⟨rfl, rfl, rfl, rfl, rfl⟩
        exact hset.sameTimes (Keeper.checkEngine_sameTimes _ _ _)
      · cases hhandled
  | fetched a accepted =>
      simp only [Keeper.handle] at hhandled
      split at hhandled
      · cases hhandled
        exact hlater.fetched a accepted htimely
      · cases hhandled
  | apply primary extras carrier accepted =>
      cases hhandled
      exact hlater.sameTimes (Keeper.apply_sameTimes _ _ _ _ _)
  | stop =>
      cases hhandled
      exact hlater.stopped rfl rfl
  | stopped =>
      cases hhandled
      exact hlater.noRetry rfl rfl fun hrunning => ⟨hrunning, rfl⟩

/-! ### A run -/

theorem begin_sound (parameters : Parameters) (rooms : Parsed) (fetching : Bool) (now : Int) :
    Sound ⟨.begin parameters rooms fetching, now, []⟩ where
  past _ ht := nomatch ht
  spaced := List.Pairwise.nil
  owed := trivial
  asked _ := rfl
  last _ := rfl
  pending _ _ htime := nomatch htime

/-- **The host is asked at most every fifteen seconds**, and a retry is the last failure's, in every
run whose answers and retries come in time. -/
theorem requests_apart [SwiftText] {parameters : Parameters} {rooms : Parsed} {fetching : Bool}
    {now : Int} {events : List (Int × Event)} {r : Run}
    (htimely : AllSteps step Timely ⟨.begin parameters rooms fetching, now, []⟩ events)
    (hrun : run step ⟨.begin parameters rooms fetching, now, []⟩ events = some r) :
    Spaced r.seen ∧ Owed r.seen := by
  have hsound : Sound r := run_inv (fun _ _ _ hs hc hstep => step_sound hs hc hstep)
    (begin_sound parameters rooms fetching now) htimely hrun
  exact ⟨hsound.spaced, hsound.owed⟩

/-! ### A list served before the retry -/

/-- ASCII, without base64. -/
local instance asciiText : SwiftText where
  combines _ := false
  prepends _ := false
  canonical t := t
  lowercased t := t.map Char.toLower
  base64Decoded _ := none

def room : Parameters := ⟨true, txt "6b", txt "wbstream"⟩

/-- A session opened, and a second one: the list is asked for and not had. -/
def hop : List (Int × Event) :=
  [(0, .armed), (0, .sessionOpened), (0, .sessionOpened), (seconds 1, .fetched .error true)]

/-- A retry that finds the list. -/
def found : List (Int × Event) :=
  hop ++ [(seconds 31, .retry), (seconds 32, .fetched (.http 200 false (some [])) true)]

def opened : Run := ⟨.begin room ⟨txt "r", []⟩ false, 0, []⟩

theorem requests_apart_found : ∃ r, run step opened found = some r ∧
    sentTimes r.seen = [seconds 31, 0] ∧ Spaced r.seen ∧ Owed r.seen := by
  have htimely : AllSteps step Timely opened found := by decide
  exact ⟨_, rfl, by decide, requests_apart htimely rfl⟩

/-- Another hop is served in between, and the retry comes eleven seconds after it was asked for. -/
theorem retry_after_served :
    ¬ ∀ [SwiftText] {parameters : Parameters} {rooms : Parsed} {fetching : Bool} {now : Int}
      {events : List (Int × Event)} {r : Run},
      run step ⟨.begin parameters rooms fetching, now, []⟩ events = some r →
        Spaced r.seen ∧ Owed r.seen := by
  intro h
  have hspaced : Spaced [.sent (seconds 31), .retried (seconds 31), .answered false (seconds 21),
      .sent (seconds 20), .answered true (seconds 1), .sent 0] :=
    (@h _ room ⟨txt "r", []⟩ false 0 (hop ++ [(seconds 20, .sessionOpened),
      (seconds 21, .fetched (.http 200 false (some [])) true), (seconds 31, .retry)]) _ rfl).1
  exact absurd (List.pairwise_cons.mp hspaced).1 (by decide)

end RoomKeeper

end Ghostlane.Phone
