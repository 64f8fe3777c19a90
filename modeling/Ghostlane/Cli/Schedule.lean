import Ghostlane.Cli.Daemon.Requests
import Ghostlane.Cli.Fetch
import Ghostlane.Cli.Scrub
import Mathlib.Algebra.Group.Nat.Defs

/-!
# Ghostlane.Cli.Schedule

When a list is fetched again (`refresh` in `internal/daemon/connect.go`), and when `status`
says it will be (`handlers.go`). An instant is a number of nanoseconds. The interval a host
asks for, in hours, becomes a `time.Duration`, a 64-bit number of nanoseconds, so from 2562048
hours on it wraps around.
-/

namespace Ghostlane.Cli.Schedule

open Ghostlane.Lib Ghostlane.Cli.Fetch Ghostlane.Cli.Daemon

/-- `time.Hour`. -/
def hour : Int := 3600000000000

/-- `time.Duration(hours) * time.Hour`. -/
def duration (hours : Int) : Int := (hours * hour).bmod (2 ^ 64)

/-- The second `time.RFC3339` shows of an instant. -/
def second (instant : Int) : Int := instant / 1000000000

/-- `store.Cache`: a list as it was last fetched. -/
structure Cache where
  body : Bytes
  headers : Fetch.Headers
  fetchedAt : Int

/-- `ipc.SubscriptionView`. -/
structure SubscriptionView where
  url : Bytes
  title : Text
  intervalHours : Int
  fetchedAt : Option Int := none
  nextRefresh : Option Int := none
  userInfo : Option UserInfo := none
  error : Text := []
  deriving DecidableEq, Repr

/-- What `refresh` and `status` read: the config's lists, the caches in the state directory,
and what went wrong with each list the last time. -/
structure Known where
  subscriptions : List Subscription
  loadCache : Text → Option Cache
  subErr : Text → Text

/-- What `fetchInto` writes into the config of what a host said. -/
def fetched (s : Subscription) (h : Fetch.Headers) : Subscription :=
  { s with title := h.title, intervalHours := h.updateIntervalHours }

/-- The sentence for a list whose host refused this device. -/
def refusalOf (c : Cache) : Text :=
  if c.headers.refusal = .none then [] else refusalText c.headers.refusal c.headers.announce

/-- The lists a refresh starts to fetch. -/
def refresh (k : Known) (now : Int) (force : Bool) : List Subscription :=
  k.subscriptions.filter fun s =>
    if isInline s.url then false
    else
      let hours := if s.intervalHours ≤ 0 then 24 else s.intervalHours
      !(!force && (k.loadCache s.url).any fun c => now < c.fetchedAt + duration hours)

/-- What `status` says of a list. -/
def view (k : Known) (s : Subscription) : SubscriptionView :=
  let v : SubscriptionView :=
    { url := maskURL (utf8 s.url), title := s.title, intervalHours := s.intervalHours
      error := k.subErr s.url }
  if isInline s.url then { v with url := ascii "inline line" }
  else match k.loadCache s.url with
    | none => v
    | some c =>
        { v with
          fetchedAt := some (second c.fetchedAt)
          nextRefresh := some (second (c.fetchedAt + duration (max s.intervalHours 1)))
          userInfo := c.headers.userInfo
          error := if refusalOf c ≠ [] ∧ v.error = [] then
            txt "device refused: " ++ refusalOf c else v.error }

/-! ### When a list is due -/

/-- The moment a list is due at: its interval after it was fetched, a day where it has none. -/
def dueAt (s : Subscription) (c : Cache) : Int :=
  c.fetchedAt + (if 0 < s.intervalHours then s.intervalHours else 24) * hour

/-- A cached list is fetched when it is due and not before, and `status` shows that moment. -/
structure OnTime (k : Known) (s : Subscription) (c : Cache) (now : Int) : Prop where
  fetched : s ∈ refresh k now false ↔ dueAt s c ≤ now
  shown : (view k s).nextRefresh = some (second (dueAt s c))

/-- Hours that fit stay what they are. -/
theorem duration_of_le {hours : Int} (hpos : 0 < hours) (hle : hours ≤ 2562047) :
    duration hours = hours * hour := by
  unfold duration hour
  exact Int.bmod_eq_of_le_mul_two (by omega) (by omega)

/-- No duration is longer than a 64-bit number of nanoseconds. -/
theorem duration_lt (hours : Int) : duration hours < 9223372036854775808 := by
  have hlt := Int.bmod_lt (x := hours * hour) (m := 2 ^ 64) (by decide)
  unfold duration
  omega

section

variable {k : Known} {s : Subscription} {c : Cache} {now : Int}

theorem mem_refresh (hmem : s ∈ k.subscriptions) (hurl : isInline s.url = false)
    (hcache : k.loadCache s.url = some c) :
    s ∈ refresh k now false ↔
      c.fetchedAt + duration (if s.intervalHours ≤ 0 then 24 else s.intervalHours) ≤ now := by
  rw [refresh, List.mem_filter, hurl, hcache]
  simp [hmem]

theorem nextRefresh_view (hurl : isInline s.url = false) (hcache : k.loadCache s.url = some c) :
    (view k s).nextRefresh = some (second (c.fetchedAt + duration (max s.intervalHours 1))) := by
  rw [view, hurl, hcache]
  rfl

/-- **A list is fetched on time, and `status` says so, exactly when its interval is positive and
fits** a 64-bit number of nanoseconds. -/
theorem onTime_iff (hmem : s ∈ k.subscriptions) (hurl : isInline s.url = false)
    (hcache : k.loadCache s.url = some c) :
    OnTime k s c now ↔ 0 < s.intervalHours ∧ s.intervalHours ≤ 2562047 := by
  constructor
  · intro h
    have hshown := h.shown
    rw [nextRefresh_view hurl hcache, Option.some.injEq] at hshown
    have hlt := duration_lt (max s.intervalHours 1)
    unfold dueAt second hour at hshown
    by_cases hpos : 0 < s.intervalHours
    · -- a moment further off than any duration is not the one that is shown
      rw [if_pos hpos] at hshown
      omega
    · have hone : duration (max s.intervalHours 1) = 3600000000000 := by
        rw [show max s.intervalHours 1 = 1 by omega]
        decide
      rw [if_neg hpos, hone] at hshown
      omega
  · rintro ⟨hpos, hle⟩
    have hduration := duration_of_le hpos hle
    constructor
    · rw [mem_refresh hmem hurl hcache, if_neg (by omega), hduration, dueAt, if_pos hpos]
    · rw [nextRefresh_view hurl hcache, show max s.intervalHours 1 = s.intervalHours by omega,
        hduration, dueAt, if_pos hpos]

/-- A list that was fetched is on time unless its host asked for more than fits. -/
theorem onTime_fetched_iff {h : HttpHeader} (hmem : fetched s (parseHeaders h) ∈ k.subscriptions)
    (hurl : isInline s.url = false) (hcache : k.loadCache s.url = some c) :
    OnTime k (fetched s (parseHeaders h)) c now ↔
      updateInterval (h (txt "Profile-Update-Interval")) ≤ 2562047 := by
  rw [onTime_iff hmem hurl hcache]
  exact and_iff_right (updateInterval_pos _)

end

/-! ### One list -/

/-- A host that asks for an interval. -/
def asking (hours : Bytes) : HttpHeader := fun name =>
  if name = txt "Profile-Update-Interval" then hours else []

def answered (hours : Bytes) : Subscription :=
  fetched { url := txt "https://p.example/sub/a", addedAt := 0 } (parseHeaders (asking hours))

def cached (hours : Bytes) : Cache :=
  { body := [], headers := parseHeaders (asking hours), fetchedAt := 0 }

/-- One list, that was fetched at the first instant. -/
def knownOf (s : Subscription) (c : Cache) : Known :=
  { subscriptions := [s], loadCache := fun _ => some c, subErr := fun _ => [] }

/-- A list of six hours rests until the last moment before, and is fetched then. -/
theorem onTime_sixHours :
    let s := answered (ascii "6")
    let k := knownOf s (cached (ascii "6"))
    s ∉ refresh k (6 * hour - 1) false ∧ s ∈ refresh k (6 * hour) false ∧
      (view k s).nextRefresh = some (6 * 3600) := by
  intro s k
  have hbefore : OnTime k s (cached (ascii "6")) (6 * hour - 1) :=
    (onTime_iff (List.mem_singleton_self _) (by decide) rfl).mpr (by decide)
  have hafter : OnTime k s (cached (ascii "6")) (6 * hour) :=
    (onTime_iff (List.mem_singleton_self _) (by decide) rfl).mpr (by decide)
  refine ⟨fun h => ?_, hafter.fetched.mpr (by decide), ?_⟩
  · have hdue := hbefore.fetched.mp h
    revert hdue
    decide
  · rw [hafter.shown]
    decide

/-- **A list that is to rest for centuries is fetched at once**: 2562048 hours wrap around, and
`status` shows a moment before the list was fetched. -/
theorem long_interval_wraps :
    let s := answered (ascii "2562048")
    let c := cached (ascii "2562048")
    s.intervalHours = 2562048 ∧ s ∈ refresh (knownOf s c) 0 false ∧ 0 < dueAt s c ∧
      (view (knownOf s c) s).nextRefresh = some (-9223371274) ∧ ¬ OnTime (knownOf s c) s c 0 := by
  have hfetched : answered (ascii "2562048") ∈
      refresh (knownOf (answered (ascii "2562048")) (cached (ascii "2562048"))) 0 false := by
    decide
  have hnotDue : 0 < dueAt (answered (ascii "2562048")) (cached (ascii "2562048")) := by
    decide
  refine ⟨by decide, hfetched, hnotDue, by decide, ?_⟩
  intro h
  have hdue := h.fetched.mp hfetched
  omega

end Ghostlane.Cli.Schedule
