import Ghostlane.Cli.Lines
import Ghostlane.Cli.Schedule
import Ghostlane.Cli.ScrubShows

/-!
# Ghostlane.Cli.Shown

What `ghostlane list` and `ghostlane status` write of a list (`printList` and `printStatus` in
`cmd/ghostlane/commands.go`, over `list` and `status` of `internal/daemon/handlers.go`), and that
nothing a host sends drives the terminal there but the names of its lines, and what an escape
stands for in an error of a connection, which `Scrub` decodes.

Between the daemon and the printer a text goes through JSON, where a byte that is part of no
character becomes the replacement character. What a tab writer makes of the tabs is not read here.
-/

namespace Ghostlane.Cli.Shown

open Ghostlane.Lib Ghostlane.Lib.Bytes
open Ghostlane.Cli.Fetch (HttpAnswer FetchError fetch refusalText)
open Ghostlane.Cli.Daemon Ghostlane.Cli.Lines
open Ghostlane.Cli.Schedule (Cache Known SubscriptionView fetched refusalOf view)

/-! ### What is written -/

/-- A part of what is written: the printer's own words and the person's settings, or a text that
came with a list. -/
inductive Written
  | own (t : Text)
  | said (t : Text)
  deriving DecidableEq, Repr

def Written.text : Written → Text
  | own t | said t => t

/-- It drives nothing that the printer did not put there. -/
def Written.Safe : Written → Prop
  | own _ => True
  | said t => Clean t

/-- The text that is written. -/
def written (w : List Written) : Text := w.flatMap Written.text

/-- How numbers of bytes and instants are written. -/
class Formats where
  /-- `%.1f` of a number of bytes in units of 10^9. -/
  gigabytes : Int → Text
  /-- An instant in UTC, from its second: `time.RFC3339`. -/
  rfc3339 : Int → Text
  mem_gigabytes : ∀ n, ∀ c ∈ gigabytes n, c.isDigit ∨ c ∈ ['-', '.']
  mem_rfc3339 : ∀ t, ∀ c ∈ rfc3339 t, c.isDigit ∨ c ∈ ['-', ':', 'T', 'Z']

/-- `ipc.EntryView`. -/
structure EntryView where
  index : Nat
  label : Text
  country : Text
  kind : Kind
  carrier : Text
  transport : Text
  problem : Text
  deriving DecidableEq, Repr

def kindText : Kind → Text
  | .olcrtc => txt "olcrtc"
  | .vless => txt "vless"
  | .hysteria2 => txt "hysteria2"
  | .unsupported => txt "unsupported"

def entryView (i : Nat) (e : Lines.Entry) : EntryView where
  index := i + 1
  label := e.label
  country := e.country
  kind := e.kind
  carrier := e.carrier
  transport := (e.olcrtc.map OlcrtcLine.transport).getD []
  problem := e.problem

/-- A row of `printList`. -/
def row (e : EntryView) : List Written :=
  [.own (txt " " ++ (toString e.index).toList ++ txt " \t"), .said e.country, .own (txt "\t"),
    .own (kindText e.kind), .own (txt "\t"), .said e.carrier, .own (txt "\t"), .said e.label,
    .own (txt "\t"), .said e.problem, .own (txt "\n")]

def printList (entries : List EntryView) (note : List Written) : List Written :=
  [.own (txt "#\tCOUNTRY\tKIND\tCARRIER\tLABEL\tNOTE\n")] ++ entries.flatMap row ++
    (if entries = [] ∧ note = [] then [.own (txt "(no lines; ghostlane add <url>)\n")] else []) ++
    (if note = [] then [] else note ++ [.own (txt "\n")])

/-- `ipc.ProxyView`. -/
structure ProxyView where
  socks : Text
  http : Text
  deriving DecidableEq, Repr

/-- `ipc.Status`. -/
structure Status where
  state : Text
  mode : Text := []
  killSwitch : Bool := false
  selector : Text := []
  since : Text := []
  lastError : List Written := []
  line : Option EntryView := none
  proxy : Option ProxyView := none
  subscriptions : List SubscriptionView := []
  deriving DecidableEq, Repr

/-- The line of a status. -/
def printLine (e : EntryView) : List Written :=
  [.own (txt "Line:      "), .said e.label] ++
    (if e.carrier = [] then [] else [.own (txt " via "), .said e.carrier]) ++ [.own (txt "\n")]

section Printing

variable [Formats]

/-- How much of a list's volume is used. -/
def printUsage (info : Fetch.UserInfo) : List Written :=
  if 0 < info.total then
    [.own (txt "  used "), .said (Formats.gigabytes ((info.upload + info.download).bmod (2 ^ 64))),
      .own (txt " of "), .said (Formats.gigabytes info.total), .own (txt " GB")]
  else []

/-- A list of a status. -/
def printSubscription (s : SubscriptionView) : List Written :=
  [.own (txt "List:      "), .own (Strings.chars s.url)] ++
    (if s.title = [] then [] else [.own (txt "  ("), .said s.title, .own (txt ")")]) ++
    (s.nextRefresh.elim [] fun t => [.own (txt "  next refresh "), .said (Formats.rfc3339 t)]) ++
    s.userInfo.elim [] printUsage ++
    (if s.error = [] then [] else [.own (txt "  ERROR: "), .said s.error]) ++ [.own (txt "\n")]

def printStatus : Option Status → List Written
  | none => [.own (txt "no status\n")]
  | some st =>
      [.own (txt "State:     " ++ st.state ++ txt "\n")] ++
        (if st.selector = [] then [] else
          let mode := st.mode ++ txt " mode" ++ if st.killSwitch then txt ", kill switch on" else []
          [.own (txt "Selection: " ++ st.selector ++ txt " (" ++ mode ++ txt ")\n")]) ++
        st.line.elim [] printLine ++
        (if st.since = [] then [] else [.own (txt "Since:     " ++ st.since ++ txt "\n")]) ++
        (if written st.lastError = [] then [] else
          [.own (txt "Last error: ")] ++ st.lastError ++ [.own (txt "\n")]) ++
        (st.proxy.elim [] fun p =>
          [.own (txt "Proxy:     socks5://" ++ p.socks ++ txt "  http://" ++ p.http ++ txt "\n"),
            .own (txt "  export ALL_PROXY=socks5h://" ++ p.socks ++
              txt "\n  export http_proxy=http://" ++
              p.http ++ txt " https_proxy=http://" ++ p.http ++ txt "\n")]) ++
        st.subscriptions.flatMap printSubscription

end Printing

/-! ### What the daemon answers -/

section Answers

variable [Unicode]

/-- The lines of a list, from what is kept of it. -/
def keptLines (k : Known) (decrypt : Option Decryptor) (s : Subscription) : List Bytes :=
  match k.loadCache s.url with
  | none => []
  | some c => decodeBodyWith c.body decrypt

/-- `entriesFor`, of a list that was fetched before. -/
def entriesFor (k : Known) (decrypt : Option Decryptor) (s : Subscription) : List Lines.Entry :=
  Lines.entries (keptLines k decrypt s)

/-- The views of entries, numbered from a place on. -/
def viewsFrom (start : Nat) (es : List Lines.Entry) : List EntryView :=
  es.mapIdx fun i e => entryView (start + i) e

/-- What `refusals` says of one list. -/
def refusalNote (k : Known) (s : Subscription) : List Written :=
  match k.loadCache s.url with
  | none => []
  | some c =>
      if refusalOf c = [] then []
      else
        [if c.headers.title ≠ [] then .said c.headers.title
          else .own (Strings.chars (maskURL (utf8 s.url))),
          .own (txt ": device refused: "), .said (refusalOf c)]

/-- The line of a status is shown without a number. -/
def statusLine (e : Lines.Entry) : EntryView := { entryView 0 e with index := 0 }

end Answers

/-! ### How a connection fared -/

/-- `FetchError.Error`. -/
def errorText : FetchError → Text
  | .http n => txt "list: HTTP " ++ (toString n).toList
  | .tooLong => txt "list: body over 4194304 bytes"

/-- `Scrub`, on a text; empty where it panics. -/
def scrubbed (t : Text) : Text := ((scrub (utf8 t)).map Strings.chars).getD []

/-- Why there is no connection: what a round of `connectLoop` hands to `setState`, and what
`startConnectLocked` and `afterRefresh` write themselves. -/
inductive ConnectError
  /-- With what `nft` said. -/
  | killSwitch (why : Text)
  /-- No list in scope could be read. -/
  | unread (why : FetchError)
  /-- A file of the daemon could not be read or written. -/
  | file (why : Text)
  | resolve (why : ResolveError)
  | noneConnectable (selector : Text)
  /-- A line did not come up. -/
  | bringUp (why : Text)
  | gone

section LastError

variable [Unicode]

/-- `%w` of `ErrNoMatch` and what follows it. The selector is the person's; of a selector that
names none, no expression of `Scrub` reads past the quotes around it. -/
def noMatchText : SelectError → List Written
  | .emptySelector => [.own (txt "no such location: empty selector")]
  | .index n size =>
      [.own (txt "no such location: index " ++ (toString n).toList ++ txt ", the list has " ++
        (toString size).toList ++ txt " entries")]
  | .ambiguous count label =>
      [.own (scrubbed (txt "no such location: " ++ (toString count).toList ++
        txt " entries are named " ++ quote (utf8 label) ++ txt ", pick one by index"))]
  | .noMatch selector countries =>
      [.own (scrubbed (txt "no such location: " ++ quote (utf8 selector)) ++ txt "; countries: "),
        .said ((txt " ").intercalate countries),
        .own (txt "; or a label or an index from `ghostlane list`")]

def resolveText : ResolveError → List Written
  | .select why => noMatchText why
  | .goneFromList selector =>
      [.own (scrubbed (txt "no such location: the line " ++ selector ++
        txt " named is no longer in its list; pick one from `ghostlane list`"))]
  | .indexGone n =>
      [.own (txt "no such location: line " ++ (toString n).toList ++
        txt " is no longer in its list; pick one from `ghostlane list`")]
  | .deviceRefused why => [.said (scrubbed (txt "device refused: " ++ why))]

/-- `lastErr`, after `Scrub` where `setState` wrote it. -/
def lastError : ConnectError → List Written
  | .killSwitch why => [.own (txt "kill switch: " ++ why)]
  | .unread why => [.said (scrubbed (errorText why))]
  | .file why => [.own (scrubbed why)]
  | .resolve why => resolveText why
  | .noneConnectable selector =>
      [.own (scrubbed (txt "no connectable line matches " ++ selector))]
  | .bringUp why => [.said (scrubbed why)]
  | .gone => [.own (txt "the connected line is no longer in the list; still connected")]

/-- The errors there are while the selection is in one list. What the engines, the fronts and the
probe, whose code is not here, say of an entry that does not come up is `fails`. -/
def Arises (k : Known) (decrypt : Option Decryptor) (s : Subscription)
    (fails : Lines.Entry → Text → Prop) : ConnectError → Prop
  | .resolve (.deviceRefused why) => ∃ c, k.loadCache s.url = some c ∧ refusalOf c ≠ [] ∧
      why = refusalOf c
  | .resolve (.select (.noMatch _ countries)) =>
      ∀ country ∈ countries, ∃ e ∈ entriesFor k decrypt s, country = e.country
  | .bringUp why => ∃ e ∈ entriesFor k decrypt s, e.connectable ∧ fails e why
  | _ => True

end LastError

/-! ### What a host's answer leaves -/

/-- `fetchInto`, once the host answered. -/
def fetchInto (k : Known) (url : Text) (now : Int) (a : HttpAnswer) : Known :=
  let keep (body : Bytes) (headers : Fetch.Headers) : Known :=
    { subscriptions := k.subscriptions.map fun s => if s.url = url then fetched s headers else s
      loadCache := Function.update k.loadCache url (some ⟨body, headers, now⟩)
      subErr := Function.update k.subErr url [] }
  match fetch a with
  | .list body headers => keep body headers
  | .refused headers => keep [] headers
  | .failed why => { k with subErr := Function.update k.subErr url (scrubbed (errorText why)) }

/-- What is known after any answers of any hosts, and any edits of the config and restarts of the
daemon between them: a list is added without a title, and a daemon starts without errors. -/
inductive Reached : Known → Prop
  | start {k : Known} (untitled : ∀ s ∈ k.subscriptions, isInline s.url = false → s.title = [])
      (nothing : ∀ url, k.loadCache url = none ∧ k.subErr url = []) : Reached k
  | edited {k : Known} {subscriptions : List Subscription} (h : Reached k)
      (new : ∀ s ∈ subscriptions, isInline s.url = false → s ∈ k.subscriptions ∨ s.title = []) :
      Reached { k with subscriptions }
  | restarted {k : Known} (h : Reached k) : Reached { k with subErr := fun _ => [] }
  | answered {k : Known} {url : Text} {now : Int} {a : HttpAnswer} (h : Reached k) :
      Reached (fetchInto k url now a)

/-! ### What is safe to write -/

@[simp] theorem safe_own (t : Text) : (Written.own t).Safe ↔ True := Iff.rfl

@[simp] theorem safe_said (t : Text) : (Written.said t).Safe ↔ Clean t := Iff.rfl

theorem clean_of_isDigit {c : Char} (h : c.isDigit = true) : Fetch.clean c = true := by
  simp only [Char.isDigit, Bool.and_eq_true, decide_eq_true_eq, UInt32.le_iff_toNat_le,
    ge_iff_le] at h
  have hlow : '0'.val.toNat = 48 := rfl
  have hhigh : '9'.val.toNat = 57 := rfl
  have hval : c.toNat = c.val.toNat := rfl
  simp only [Fetch.clean, Fetch.isControl, Fetch.directional, Bool.and_eq_true,
    Bool.not_eq_true', Bool.or_eq_false_iff, Bool.and_eq_false_iff, decide_eq_false_iff_not,
    beq_eq_false_iff_ne]
  omega

theorem clean_of_mem {marks t : Text} (h : ∀ c ∈ t, c.isDigit ∨ c ∈ marks)
    (hmarks : Clean marks) : Clean t := by
  intro c hc
  rcases h c hc with hdigit | hmark
  · exact clean_of_isDigit hdigit
  · exact hmarks c hmark

theorem isDigit_of_mem_toString {n : Nat} {c : Char} (h : c ∈ (toString n).toList) :
    c.isDigit = true := by
  rw [Nat.toString_eq_repr, Nat.toList_repr] at h
  exact Nat.isDigit_of_mem_toDigits (by decide) (by decide) h

theorem mem_viewsFrom {start : Nat} {es : List Lines.Entry} {v : EntryView}
    (h : v ∈ viewsFrom start es) : ∃ i, ∃ e ∈ es, v = entryView i e := by
  obtain ⟨i, hi, rfl⟩ := List.mem_mapIdx.mp h
  exact ⟨start + i, es[i], List.getElem_mem hi, rfl⟩

theorem forall_mem_viewsFrom {start : Nat} {es : List Lines.Entry} {p : EntryView → Prop}
    {q : Lines.Entry → Prop} (h : ∀ i e, p (entryView i e) ↔ q e) :
    (∀ v ∈ viewsFrom start es, p v) ↔ ∀ e ∈ es, q e := by
  constructor
  · intro hviews e he
    obtain ⟨i, hi, rfl⟩ := List.getElem_of_mem he
    exact (h _ _).mp (hviews _ (List.mem_mapIdx.mpr ⟨i, hi, rfl⟩))
  · intro hes v hv
    obtain ⟨i, e, he, rfl⟩ := mem_viewsFrom hv
    exact (h i e).mpr (hes e he)

theorem row_safe_iff (i : Nat) (e : Lines.Entry) :
    (∀ w ∈ row (entryView i e), w.Safe) ↔ e.Harmless := by
  simp only [row, List.forall_mem_cons, safe_own, safe_said, true_and, List.not_mem_nil,
    false_implies, implies_true, and_true]
  constructor
  · rintro ⟨hcountry, hcarrier, hlabel, hproblem⟩
    exact ⟨hlabel, hcountry, hcarrier, hproblem⟩
  · intro h
    exact ⟨h.country, h.carrier, h.label, h.problem⟩

/-- What `printList` writes is safe as its lines and its note are. -/
theorem printList_safe_iff (start : Nat) (es : List Lines.Entry) (note : List Written) :
    (∀ w ∈ printList (viewsFrom start es) note, w.Safe) ↔
      (∀ e ∈ es, e.Harmless) ∧ ∀ w ∈ note, w.Safe := by
  have hrows : (∀ w ∈ (viewsFrom start es).flatMap row, w.Safe) ↔ ∀ e ∈ es, e.Harmless := by
    rw [List.forall_mem_flatMap]
    exact forall_mem_viewsFrom row_safe_iff
  have hnone : ∀ w ∈ (if viewsFrom start es = [] ∧ note = [] then
      [Written.own (txt "(no lines; ghostlane add <url>)\n")] else []), w.Safe := by
    intro w hw
    split at hw
    · rw [List.mem_singleton.mp hw]
      trivial
    · cases hw
  have hnote : (∀ w ∈ (if note = [] then [] else note ++ [Written.own (txt "\n")]), w.Safe) ↔
      ∀ w ∈ note, w.Safe := by
    by_cases hnil : note = []
    · rw [if_pos hnil, hnil]
    · rw [if_neg hnil, List.forall_mem_append, List.forall_mem_singleton]
      exact and_iff_left trivial
  unfold printList
  simp only [List.forall_mem_append, List.forall_mem_singleton, hrows, hnote]
  constructor
  · rintro ⟨⟨⟨-, hrows⟩, -⟩, hnote⟩
    exact ⟨hrows, hnote⟩
  · rintro ⟨hrows, hnote⟩
    exact ⟨⟨⟨trivial, hrows⟩, hnone⟩, hnote⟩

theorem not_mem_of_clean {t : Text} (h : Clean t) : '\n' ∉ t :=
  fun hmem => absurd (h _ hmem) (by decide)

/-- A harmless row is one line. -/
theorem count_row (i : Nat) {e : Lines.Entry} (h : e.Harmless) :
    (written (row (entryView i e))).count '\n' = 1 := by
  have hzero : ∀ {t : Text}, '\n' ∉ t → t.count '\n' = 0 := List.count_eq_zero.mpr
  have hdigits : '\n' ∉ (toString (entryView i e).index).toList :=
    fun hmem => absurd (isDigit_of_mem_toString hmem) (by decide)
  have hkind : '\n' ∉ kindText (entryView i e).kind := by
    cases (entryView i e).kind <;> decide
  have hlabel : '\n' ∉ (entryView i e).label := not_mem_of_clean h.label
  have hcountry : '\n' ∉ (entryView i e).country := not_mem_of_clean h.country
  have hcarrier : '\n' ∉ (entryView i e).carrier := not_mem_of_clean h.carrier
  have hproblem : '\n' ∉ (entryView i e).problem := not_mem_of_clean h.problem
  simp only [row, written, List.flatMap_cons, List.flatMap_nil, Written.text, List.count_append,
    hzero hdigits, hzero hkind, hzero hlabel, hzero hcountry, hzero hcarrier, hzero hproblem]
  decide

theorem printLine_safe {e : Lines.Entry} (h : e.Harmless) :
    ∀ w ∈ printLine (statusLine e), w.Safe := by
  have hcarrier : ∀ w ∈ (if (statusLine e).carrier = [] then []
      else [Written.own (txt " via "), .said (statusLine e).carrier]), w.Safe := by
    intro w hw
    split at hw
    · cases hw
    · simp only [List.mem_cons, List.not_mem_nil, or_false] at hw
      rcases hw with rfl | rfl
      · trivial
      · exact h.carrier
  intro w hw
  simp only [printLine, List.mem_append, List.mem_cons, List.not_mem_nil, or_false] at hw
  rcases hw with ((rfl | rfl) | hw) | rfl
  · trivial
  · exact h.label
  · exact hcarrier w hw
  · trivial

/-! ### Errors -/

theorem clean_of_ours {c : Char} (h : Ours c) : Fetch.clean c = true := by
  rcases h with ⟨hlow, hhigh, -⟩ | rfl
  · simp only [Fetch.clean, Fetch.isControl, Fetch.directional, Bool.and_eq_true,
      Bool.not_eq_true', Bool.or_eq_false_iff, Bool.and_eq_false_iff, decide_eq_false_iff_not,
      beq_eq_false_iff_ne]
    omega
  · decide

/-- **Without an escape nothing is shown that drives the terminal**, where nothing of the text
does. -/
theorem scrubbed_clean {t : Text} (h : Clean t) (hpercent : '%' ∉ t) : Clean (scrubbed t) := by
  have hours : NotOurs fun c => Fetch.clean c = false ∨ c = '%' := by
    refine ⟨.inr rfl, ?_⟩
    rintro c (hdrives | rfl) hc
    · rw [clean_of_ours hc] at hdrives
      cases hdrives
    · exact absurd hc (by decide)
  have habsent : Absent (fun c => Fetch.clean c = false ∨ c = '%') (utf8 t) := by
    refine absent_utf8_iff.mpr fun c hc => ?_
    rintro (hdrives | rfl)
    · rw [h c hc] at hdrives
      cases hdrives
    · exact hpercent hc
  unfold scrubbed
  cases hscrub : scrub (utf8 t) with
  | none => exact List.forall_mem_nil _
  | some out =>
      have hshown := absent_scrub hours habsent hscrub
      intro c hc
      obtain ⟨r, hr, rfl⟩ := List.mem_map.mp hc
      cases r with
      | stray b => rfl
      | char c =>
          by_contra hdrives
          exact hshown c (.inl (Bool.eq_false_iff.mpr hdrives)) (infix_of_mem_runes hr)

/-- An answer that is an error is told in plain words. -/
theorem errorText_clean (why : FetchError) : Clean (errorText why) ∧ '%' ∉ errorText why := by
  cases why with
  | http n =>
      have hdigits : ∀ c ∈ (toString n).toList, c.isDigit = true :=
        fun c hc => isDigit_of_mem_toString hc
      refine ⟨Clean.append (by decide) fun c hc => clean_of_isDigit (hdigits c hc), fun hmem => ?_⟩
      rcases List.mem_append.mp hmem with hmem | hmem
      · exact absurd hmem (by decide)
      · exact absurd (hdigits _ hmem) (by decide)
  | tooLong => exact ⟨by decide, by decide⟩

/-! ### What is kept of a host -/

/-- What is known of the lists drives nothing, but for their bodies. -/
structure Tame (k : Known) : Prop where
  titles : ∀ s ∈ k.subscriptions, isInline s.url = false → Clean s.title
  caches : ∀ url c, k.loadCache url = some c → Clean c.headers.title
  errors : ∀ url, Clean (k.subErr url)

theorem parseHeaders_title (h : Fetch.HttpHeader) : Clean (Fetch.parseHeaders h).title :=
  Fetch.oneLine_clean _ _

/-- The title that comes with an answer is on one line. -/
theorem fetch_title {a : HttpAnswer} {headers : Fetch.Headers}
    (h : fetch a = .refused headers ∨ ∃ body, fetch a = .list body headers) :
    Clean headers.title := by
  unfold fetch at h
  split at h
  · rcases h with h | ⟨body, h⟩ <;> cases h
  · dsimp only at h
    split at h
    · rcases h with h | ⟨body, h⟩
      · cases h
        exact parseHeaders_title a.header
      · cases h
    · split at h
      · rcases h with h | ⟨body, h⟩ <;> cases h
      · split at h
        · rcases h with h | ⟨body, h⟩ <;> cases h
        · rcases h with h | ⟨body, h⟩
          · cases h
          · cases h
            exact parseHeaders_title a.header

/-- What is kept of a list and its headers, when the title is on one line. -/
theorem Tame.keep {k : Known} (h : Tame k) {url : Text} {body : Bytes} {headers : Fetch.Headers}
    {now : Int} (htitle : Clean headers.title) :
    Tame {
      subscriptions := k.subscriptions.map fun s => if s.url = url then fetched s headers else s
      loadCache := Function.update k.loadCache url (some ⟨body, headers, now⟩)
      subErr := Function.update k.subErr url [] } := by
  constructor
  · intro s hs hinline
    obtain ⟨s', hs', rfl⟩ := List.mem_map.mp hs
    by_cases hurl : s'.url = url
    · rw [if_pos hurl]
      exact htitle
    · rw [if_neg hurl] at hinline ⊢
      exact h.titles s' hs' hinline
  · intro other c hc
    by_cases hurl : other = url
    · dsimp only at hc
      rw [hurl, Function.update_self, Option.some.injEq] at hc
      rw [← hc]
      exact htitle
    · dsimp only at hc
      rw [Function.update_of_ne hurl] at hc
      exact h.caches other c hc
  · intro other
    dsimp only
    by_cases hurl : other = url
    · rw [hurl, Function.update_self]
      exact List.forall_mem_nil _
    · rw [Function.update_of_ne hurl]
      exact h.errors other

/-- An answer leaves what is known tame. -/
theorem Tame.fetchInto {k : Known} (h : Tame k) (url : Text) (now : Int) (a : HttpAnswer) :
    Tame (fetchInto k url now a) := by
  unfold Shown.fetchInto
  cases hanswer : fetch a with
  | list body headers => exact h.keep (fetch_title (.inr ⟨body, hanswer⟩))
  | refused headers => exact h.keep (fetch_title (.inl hanswer))
  | failed why =>
      refine ⟨h.titles, h.caches, fun other => ?_⟩
      dsimp only
      by_cases hurl : other = url
      · rw [hurl, Function.update_self]
        exact scrubbed_clean (errorText_clean why).1 (errorText_clean why).2
      · rw [Function.update_of_ne hurl]
        exact h.errors other

/-- Whatever the hosts answered, what is known is tame. -/
theorem Reached.tame {k : Known} (h : Reached k) : Tame k := by
  induction h with
  | start untitled nothing =>
      refine ⟨fun s hs hinline => ?_, fun url c hc => ?_, fun url => ?_⟩
      · rw [untitled s hs hinline]
        exact List.forall_mem_nil _
      · rw [(nothing url).1] at hc
        cases hc
      · rw [(nothing url).2]
        exact List.forall_mem_nil _
  | edited _ new ih =>
      refine ⟨fun s hs hinline => ?_, ih.caches, ih.errors⟩
      rcases new s hs hinline with hold | huntitled
      · exact ih.titles s hold hinline
      · rw [huntitled]
        exact List.forall_mem_nil _
  | restarted _ ih => exact ⟨ih.titles, ih.caches, fun _ => List.forall_mem_nil _⟩
  | answered _ ih => exact ih.fetchInto _ _ _

/-! ### What a list shows -/

theorem refusalOf_clean (c : Cache) : Clean (refusalOf c) := by
  unfold refusalOf
  split
  · exact List.forall_mem_nil _
  · exact Fetch.refusalText_clean _ _

/-- What is optional is safe when what it adds is. -/
theorem safe_ite {p : Prop} [Decidable p] {w : List Written} (h : ∀ x ∈ w, x.Safe) :
    ∀ x ∈ (if p then [] else w), x.Safe := by
  split
  · exact List.forall_mem_nil _
  · exact h

theorem safe_elim {α : Type} {o : Option α} {f : α → List Written}
    (h : ∀ a ∈ o, ∀ x ∈ f a, x.Safe) : ∀ x ∈ o.elim [] f, x.Safe := by
  cases o with
  | none => exact List.forall_mem_nil _
  | some a => exact h a rfl

theorem refusalNote_safe {k : Known} (h : Tame k) (s : Subscription) :
    ∀ w ∈ refusalNote k s, w.Safe := by
  unfold refusalNote
  cases hcache : k.loadCache s.url with
  | none => exact List.forall_mem_nil _
  | some c =>
      refine safe_ite fun w hw => ?_
      simp only [List.mem_cons, List.not_mem_nil, or_false] at hw
      rcases hw with rfl | rfl | rfl
      · split
        · exact h.caches _ c hcache
        · trivial
      · trivial
      · exact refusalOf_clean c

section Views

variable [Formats]

theorem printUsage_safe (info : Fetch.UserInfo) : ∀ w ∈ printUsage info, w.Safe := by
  have hnumber : ∀ n, Clean (Formats.gigabytes n) :=
    fun n => clean_of_mem (Formats.mem_gigabytes n) (by decide)
  unfold printUsage
  split
  · intro w hw
    simp only [List.mem_cons, List.not_mem_nil, or_false] at hw
    rcases hw with rfl | rfl | rfl | rfl | rfl
    · trivial
    · exact hnumber _
    · trivial
    · exact hnumber _
    · trivial
  · exact List.forall_mem_nil _

theorem printSubscription_safe {v : SubscriptionView} (htitle : Clean v.title)
    (herror : Clean v.error) : ∀ w ∈ printSubscription v, w.Safe := by
  have htitles : ∀ w ∈ (if v.title = [] then []
      else [Written.own (txt "  ("), .said v.title, .own (txt ")")]), w.Safe := by
    refine safe_ite ?_
    simpa using htitle
  have hrefresh : ∀ w ∈ v.nextRefresh.elim [] (fun t =>
      [Written.own (txt "  next refresh "), .said (Formats.rfc3339 t)]), w.Safe := by
    refine safe_elim fun t _ => ?_
    have hinstant : Clean (Formats.rfc3339 t) :=
      clean_of_mem (Formats.mem_rfc3339 t) (by decide)
    simpa using hinstant
  have herrors : ∀ w ∈ (if v.error = [] then []
      else [Written.own (txt "  ERROR: "), .said v.error]), w.Safe := by
    refine safe_ite ?_
    simpa using herror
  unfold printSubscription
  simp only [List.forall_mem_append]
  refine ⟨⟨⟨⟨⟨?_, htitles⟩, hrefresh⟩, safe_elim fun info _ => printUsage_safe info⟩, herrors⟩, ?_⟩
  · simp
  · simp

/-- What a status shows of a list is safe. -/
theorem view_safe {k : Known} (h : Tame k) {s : Subscription} (hs : s ∈ k.subscriptions)
    (hinline : isInline s.url = false) : ∀ w ∈ printSubscription (view k s), w.Safe := by
  have htitle := h.titles s hs hinline
  have herror := h.errors s.url
  unfold view
  rw [hinline, if_neg Bool.false_ne_true]
  cases k.loadCache s.url with
  | none => exact printSubscription_safe htitle herror
  | some c =>
      refine printSubscription_safe htitle ?_
      dsimp only
      split
      · have hwords : Clean (txt "device refused: ") := by decide
        exact hwords.append (refusalOf_clean c)
      · exact herror

end Views

/-! ### What is shown of an error -/

section Errors

variable [Unicode] {k : Known} {decrypt : Option Decryptor} {s : Subscription}
  {fails : Lines.Entry → Text → Prop}

/-- What a host can have a connection fail with drives nothing. Where its refusal of this device
holds an escape, which a mask decodes, and where what is said of one of its lines that does not come
up holds one or drives something itself, `Scrub` hides that; anything else it leaves as harmless as
it is (`scrubbed_clean`). -/
structure QuietErrors (k : Known) (decrypt : Option Decryptor) (s : Subscription)
    (fails : Lines.Entry → Text → Prop) : Prop where
  refusal : ∀ c, k.loadCache s.url = some c → '%' ∈ refusalOf c →
    Clean (scrubbed (txt "device refused: " ++ refusalOf c))
  lines : ∀ e ∈ entriesFor k decrypt s, e.connectable → ∀ why, fails e why →
    ¬ Clean why ∨ '%' ∈ why → Clean (scrubbed why)

omit [Unicode] in
/-- The last error is written as safe as it is, and not where it is empty. -/
theorem lastError_safe_iff (e : List Written) :
    (∀ w ∈ (if written e = [] then [] else
      [Written.own (txt "Last error: ")] ++ e ++ [.own (txt "\n")]), w.Safe) ↔ ∀ w ∈ e, w.Safe := by
  by_cases hnil : written e = []
  · rw [if_pos hnil]
    refine iff_of_true (List.forall_mem_nil _) fun w hw => ?_
    have htext : w.text = [] := List.flatMap_eq_nil_iff.mp hnil w hw
    cases w with
    | own t => trivial
    | said t =>
        rw [safe_said, show t = [] from htext]
        exact List.forall_mem_nil _
  · rw [if_neg hnil]
    simp only [List.forall_mem_append, List.forall_mem_singleton, safe_own, true_and, and_true]

theorem noMatchText_safe {why : SelectError}
    (h : ∀ selector countries, why = .noMatch selector countries → ∀ c ∈ countries, Clean c) :
    ∀ w ∈ noMatchText why, w.Safe := by
  cases why with
  | noMatch selector countries =>
      have hcountries : Clean ((txt " ").intercalate countries) := by
        intro c hc
        rcases mem_of_mem_intercalate hc with rfl | ⟨country, hcountry, hc⟩
        · decide
        · exact h selector countries rfl country hcountry c hc
      simpa [noMatchText] using hcountries
  | _ => simp [noMatchText]

/-- **What is shown of an error of a list of harmless lines is safe exactly when** its errors are
quiet. -/
theorem lastErrors_safe_iff (hall : ∀ e ∈ entriesFor k decrypt s, e.Harmless) :
    (∀ why, Arises k decrypt s fails why → ∀ w ∈ lastError why, w.Safe) ↔
      QuietErrors k decrypt s fails := by
  constructor
  · intro h
    refine ⟨fun c hc hescape => ?_, fun e he hconnectable why hfails _ => ?_⟩
    · have hrefused : refusalOf c ≠ [] := List.ne_nil_of_mem hescape
      exact h (.resolve (.deviceRefused _)) ⟨c, hc, hrefused, rfl⟩ _ List.mem_cons_self
    · exact h (.bringUp why) ⟨e, he, hconnectable, hfails⟩ _ List.mem_cons_self
  · intro h why harises
    cases why with
    | unread why =>
        obtain ⟨hclean, hpercent⟩ := errorText_clean why
        exact List.forall_mem_singleton.mpr (scrubbed_clean hclean hpercent)
    | bringUp why =>
        obtain ⟨e, he, hconnectable, hfails⟩ := harises
        refine List.forall_mem_singleton.mpr ?_
        by_cases hplain : Clean why ∧ '%' ∉ why
        · exact scrubbed_clean hplain.1 hplain.2
        · rw [not_and_or, not_not] at hplain
          exact h.lines e he hconnectable why hfails hplain
    | resolve why =>
        cases why with
        | deviceRefused why =>
            obtain ⟨c, hc, hrefused, rfl⟩ := harises
            refine List.forall_mem_singleton.mpr ?_
            by_cases hescape : '%' ∈ refusalOf c
            · exact h.refusal c hc hescape
            · have hwords : Clean (txt "device refused: ") := by decide
              refine scrubbed_clean (hwords.append (refusalOf_clean c)) fun hmem => ?_
              rcases List.mem_append.mp hmem with hmem | hmem
              · exact absurd hmem (by decide)
              · exact hescape hmem
        | select why =>
            refine noMatchText_safe fun selector countries hwhy country hcountry => ?_
            subst hwhy
            obtain ⟨e, he, rfl⟩ := harises country hcountry
            exact (hall e he).country
        | goneFromList selector => exact List.forall_mem_singleton.mpr trivial
        | indexGone n => exact List.forall_mem_singleton.mpr trivial
    | killSwitch why => exact List.forall_mem_singleton.mpr trivial
    | file why => exact List.forall_mem_singleton.mpr trivial
    | noneConnectable selector => exact List.forall_mem_singleton.mpr trivial
    | gone => exact List.forall_mem_singleton.mpr trivial

/-- A mask shows a path without its escapes. -/
example : scrubbed (txt "device refused: https://h/%1b[2J/sub/x") =
    txt "device refused: https://h/\x1b[2J/sub/…" := by decide +kernel

end Errors

/-! ### Nothing a host sends drives the terminal -/

section Harmless

variable [Unicode] [Formats]

/-- What is written of a list, whatever number its lines begin at, whichever of them a status
shows and however the connection fared, holds nothing but the printer's own that drives a
terminal, and a line is one line. -/
structure Harmless (k : Known) (decrypt : Option Decryptor) (s : Subscription)
    (fails : Lines.Entry → Text → Prop) : Prop where
  list : ∀ start, ∀ w ∈ printList (viewsFrom start (entriesFor k decrypt s)) (refusalNote k s),
    w.Safe
  lines : ∀ start, ∀ v ∈ viewsFrom start (entriesFor k decrypt s),
    (written (row v)).count '\n' = 1
  status : ∀ st : Status, (∀ v ∈ st.line, ∃ e ∈ entriesFor k decrypt s, v = statusLine e) →
    (∀ v ∈ st.subscriptions, v = view k s) →
    (st.lastError = [] ∨ ∃ why, Arises k decrypt s fails why ∧ st.lastError = lastError why) →
    ∀ w ∈ printStatus (some st), w.Safe

end Harmless

/-! ### A list of one line -/

section OneLine

/-- The tables of `unicode`, of ASCII. -/
local instance asciiTables : Unicode where
  isPrint c := 0x20 ≤ c.toNat ∧ c.toNat < 0x7F
  toLower c := if isUpper c then Char.ofNat (c.toNat + 32) else c
  clean_of_isPrint := by
    intro c hc
    have hprint := of_decide_eq_true hc
    simp only [Fetch.clean, Fetch.isControl, Fetch.directional, Bool.and_eq_true,
      Bool.not_eq_true', Bool.or_eq_false_iff, Bool.and_eq_false_iff, decide_eq_false_iff_not,
      beq_eq_false_iff_ne]
    omega
  clean_toLower := by
    intro c
    have hall : ∀ n < 0x80, isUpper (Char.ofNat n) = true →
        Fetch.clean (Char.ofNat (n + 32)) = Fetch.clean (Char.ofNat n) := by decide +kernel
    split
    · rename_i hupper
      have hlow : c.toNat < 0x80 := by
        simp only [isUpper, Bool.and_eq_true, decide_eq_true_eq, Char.le_def,
          UInt32.le_iff_toNat_le] at hupper
        have hZ : 'Z'.val.toNat = 90 := rfl
        have hval : c.toNat = c.val.toNat := rfl
        omega
      have hsame := hall c.toNat hlow
      rw [Char.ofNat_toNat] at hsame
      exact hsame hupper
    · rfl

/-- Instants of the second day of 1970, and no volume. -/
local instance secondDay : Formats where
  gigabytes _ := txt "0.0"
  rfc3339 _ := txt "1970-01-02T00:00:00Z"
  mem_gigabytes := fun _ => by decide
  mem_rfc3339 := fun _ => by decide

/-- A list of a host, as it was added. -/
def added : Subscription where
  url := txt "https://h/l"
  addedAt := 0

/-- What a host serves under a title. -/
def serving (line : String) : HttpAnswer where
  status := 200
  header name := if name = txt "Profile-Title" then ascii "Lane" else []
  body := ascii line

/-- What is known when a host served one line at the start of 1970. -/
def served (line : String) : Known :=
  fetchInto { subscriptions := [added], loadCache := fun _ => none, subErr := fun _ => [] }
    added.url 0 (serving line)

/-- The list, once it was fetched. -/
def lane : Subscription := { added with title := txt "Lane", intervalHours := 24 }

theorem served_reached (line : String) : Reached (served line) := by
  refine .answered (.start ?_ fun _ => ⟨rfl, rfl⟩)
  intro s hs _
  rw [List.mem_singleton.mp hs]
  rfl

/-- What the front says of a line that is named by its host. -/
def hostUnknown (e : Lines.Entry) (why : Text) : Prop :=
  ∃ l, e.vless = some l ∧ why = txt "pre-flight: no traffic through the line: lookup " ++
    Strings.chars l.host

end OneLine

end Ghostlane.Cli.Shown
