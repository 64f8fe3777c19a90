import Ghostlane.Cli.Store

/-!
# Ghostlane.Cli.Links

The lines of a list as the daemon sees them (`internal/links/list.go`,
`country.go`) and how a selector names some of them.

`External` collects what this layer takes from outside: the hash behind
`entryID`, the parsers of a single line and the masking of a list's address.
Everything here is stated for every such model.
-/

namespace Ghostlane.Cli

open Ghostlane.Lib

/-- What the lines of a list are read with. The parsers answer with the reason
a line cannot be connected, or with the label of the line they read. -/
class External where
  /-- The hexadecimal digits of a hash over list, label and ordinal. -/
  entryID : (subURL label : Text) → (ordinal : Nat) → Text
  entryID_ne_nil : ∀ subURL label ordinal, entryID subURL label ordinal ≠ []
  parseOlcrtc : Text → Except Text Text
  parseVless : Text → Except Text Text
  parseHy2 : Text → Except Text Text
  /-- The label after a share link's `#`. -/
  fragmentLabel : Text → Text
  /-- A list's address with its credential hidden. -/
  maskURL : Text → Text

export External (entryID)

/-! ### Go's text functions -/

/-- `unicode.IsSpace`. -/
def isSpace (c : Char) : Bool :=
  let n := c.toNat
  (0x09 ≤ n && n ≤ 0x0D) || n == 0x20 || n == 0x85 || n == 0xA0 || n == 0x1680 ||
    (0x2000 ≤ n && n ≤ 0x200A) || n == 0x2028 || n == 0x2029 || n == 0x202F ||
    n == 0x205F || n == 0x3000

/-- `strings.TrimSpace`. -/
def trimSpace (t : Text) : Text := trimBy isSpace t

/-- `strings.HasPrefix`. -/
def hasPrefix (t needle : Text) : Bool := needle.isPrefixOf t

/-- The value of a non-empty run of ASCII digits. -/
def digits (t : Text) : Option Nat :=
  if t ≠ [] ∧ t.all Char.isDigit then
    some (t.foldl (fun n c => n * 10 + (c.toNat - '0'.toNat)) 0)
  else none

/-- `strconv.Atoi`: a sign, then digits, within 64 bits. -/
def atoi : Text → Option Int
  | '-' :: ds =>
      (digits ds).bind fun n => if n ≤ 0x8000000000000000 then some (-(n : Int)) else none
  | '+' :: ds => (digits ds).bind fun n => if n < 0x8000000000000000 then some (n : Int) else none
  | ds => (digits ds).bind fun n => if n < 0x8000000000000000 then some (n : Int) else none

/-- The fold of one character, as far as an upper-case ASCII letter on the other
side can tell: U+212A folds with `k` and U+017F with `s`. -/
def foldChar (c : Char) : Char :=
  if c.toNat == 0x212A then 'k' else if c.toNat == 0x17F then 's' else c.toLower

/-- `strings.EqualFold` against a country code. -/
def equalFold (a b : Text) : Bool := a.map foldChar == b.map foldChar

/-- What stands before the first `://`, the whole text when it has none. -/
def beforeScheme : Text → Text
  | [] => []
  | c :: rest => if hasPrefix (c :: rest) (txt "://") then [] else c :: beforeScheme rest

/-! ### Country codes -/

/-- A regional indicator, half a flag. -/
def isFlag (c : Char) : Bool := 0x1F1E6 ≤ c.toNat && c.toNat ≤ 0x1F1FF

/-- Drop leading flags and the space after each; a text has at most as many
flags as characters, which is the fuel. -/
def stripFlags : Nat → Text → Text
  | 0, s => s
  | n + 1, c :: s => if isFlag c then stripFlags n (trimSpace s) else c :: s
  | _ + 1, [] => []

def isUpper (c : Char) : Bool := 'A' ≤ c && c ≤ 'Z'

/-- The country a label leads with, `[]` when it names none. -/
def countryOf (label : Text) : Text :=
  let s := stripFlags label.length (trimSpace label)
  let first := trimSpace ((s.takeWhile (· != ' ')).takeWhile (· != '|'))
  match first with
  | [a, b] => if isUpper a && isUpper b then [a, b] else []
  | _ => []

/-! ### Entries -/

inductive Kind
  | unsupported
  | olcrtc
  | vless
  | hysteria2
  deriving DecidableEq, Repr

structure Entry where
  id : Text
  label : Text
  country : Text
  kind : Kind
  raw : Text
  /-- One of the three parsed forms is set. -/
  parsed : Bool
  /-- Why the line cannot be connected. -/
  problem : Text
  deriving DecidableEq, Repr

def Entry.connectable (e : Entry) : Bool := e.problem == [] && e.parsed

section Entries

variable [External]

/-- One line before it has its id. -/
def readLine (raw : Text) : Entry :=
  let named (kind : Kind) (label : Text) (parsed : Bool) (problem : Text) : Entry :=
    { id := [], label, country := countryOf label, kind, raw, parsed, problem }
  let share (kind : Kind) (parse : Text → Except Text Text) : Entry :=
    match parse raw with
    | .ok label => named kind label true []
    | .error why => named kind (External.fragmentLabel raw) false why
  if hasPrefix raw (txt "olcrtc://") then
    match External.parseOlcrtc raw with
    | .ok label => named .olcrtc label true []
    | .error why => named .unsupported raw false why
  else if hasPrefix raw (txt "vless://") then share .vless External.parseVless
  else if hasPrefix raw (txt "hysteria2://") || hasPrefix raw (txt "hy2://") then
    share .hysteria2 External.parseHy2
  else
    named .unsupported raw false (beforeScheme raw ++ txt ":// is not supported")

/-- The lines of a list below those whose labels are `seen`: a repeated label is
counted up, so two rooms named alike stay two entries. -/
def entriesAfter (subURL : Text) : List Text → List Text → List Entry
  | _, [] => []
  | seen, raw :: rest =>
      let e := readLine raw
      { e with id := entryID subURL e.label (seen.count e.label + 1) } ::
        entriesAfter subURL (e.label :: seen) rest

/-- `links.Entries`. -/
def entries (subURL : Text) (lines : List Text) : List Entry := entriesAfter subURL [] lines

/-- Every entry's id is the hash of its list, its label and some ordinal. -/
theorem entriesAfter_id {subURL : Text} {lines : List Text} :
    ∀ {seen : List Text} {e : Entry}, e ∈ entriesAfter subURL seen lines →
      ∃ n, e.id = entryID subURL e.label n := by
  induction lines with
  | nil => intro seen e he; simp [entriesAfter] at he
  | cons raw rest ih =>
      intro seen e he
      rw [entriesAfter, List.mem_cons] at he
      rcases he with rfl | he
      · exact ⟨_, rfl⟩
      · exact ih he

theorem entries_id {subURL : Text} {lines : List Text} {e : Entry}
    (he : e ∈ entries subURL lines) : ∃ n, e.id = entryID subURL e.label n :=
  entriesAfter_id he

end Entries

/-! ### Selecting -/

structure Group where
  country : Text
  entries : List Entry
  deriving DecidableEq, Repr

/-- File an entry under its country: into the group that has it, else as a new
last group. -/
def addToGroups (e : Entry) : List Group → List Group
  | [] => [⟨e.country, [e]⟩]
  | g :: gs =>
      if g.country = e.country then { g with entries := g.entries ++ [e] } :: gs
      else g :: addToGroups e gs

/-- Countries in the order they first appear, list order inside. -/
def groupByCountry (es : List Entry) : List Group :=
  es.foldl (fun gs e => if e.country = [] then gs else addToGroups e gs) []

/-- Why a selector names nothing. -/
inductive SelectError
  | emptySelector
  | index (n : Int) (size : Nat)
  | ambiguous (count : Nat) (label : Text)
  | noMatch (selector : Text) (countries : List Text)
  deriving DecidableEq, Repr

/-- `links.Select`: a 1-based index, an exact label, or a country code. -/
def select (es : List Entry) (selector : Text) : Except SelectError (List Entry) :=
  let sel := trimSpace selector
  if sel = [] then .error .emptySelector
  else match atoi sel with
    | some n =>
        if n < 1 ∨ n > es.length then .error (.index n es.length)
        else match es[(n - 1).toNat]? with
          | some e => .ok [e]
          | none => .error (.index n es.length)
    | none =>
        match es.filter (·.label == sel) with
        | [e] => .ok [e]
        | [] =>
            let groups := groupByCountry es
            match groups.find? (fun g => equalFold g.country sel) with
            | some g => .ok g.entries
            | none => .error (.noMatch sel (groups.map (·.country)))
        | byLabel => .error (.ambiguous byLabel.length sel)

theorem mem_addToGroups {e x : Entry} {g : Group} {gs : List Group}
    (hg : g ∈ addToGroups e gs) (hx : x ∈ g.entries) :
    x = e ∨ ∃ g' ∈ gs, x ∈ g'.entries := by
  induction gs with
  | nil =>
      simp only [addToGroups, List.mem_singleton] at hg
      subst hg
      exact Or.inl (List.mem_singleton.mp hx)
  | cons g₀ gs ih =>
      rw [addToGroups] at hg
      split at hg
      · rcases List.mem_cons.mp hg with rfl | hg
        · rcases List.mem_append.mp hx with hx | hx
          · exact Or.inr ⟨g₀, List.mem_cons_self .., hx⟩
          · exact Or.inl (List.mem_singleton.mp hx)
        · exact Or.inr ⟨g, List.mem_cons_of_mem _ hg, hx⟩
      · rcases List.mem_cons.mp hg with rfl | hg
        · exact Or.inr ⟨g, List.mem_cons_self .., hx⟩
        · rcases ih hg with h | ⟨g', hg', hx'⟩
          · exact Or.inl h
          · exact Or.inr ⟨g', List.mem_cons_of_mem _ hg', hx'⟩

/-- The entries of a country group are entries of the list. -/
theorem mem_groupByCountry {es : List Entry} {g : Group} {x : Entry}
    (hg : g ∈ groupByCountry es) (hx : x ∈ g.entries) : x ∈ es := by
  have main : ∀ (es : List Entry) (gs : List Group),
      g ∈ es.foldl (fun gs e => if e.country = [] then gs else addToGroups e gs) gs →
        x ∈ es ∨ ∃ g' ∈ gs, x ∈ g'.entries := by
    intro es
    induction es with
    | nil => intro gs hg; exact Or.inr ⟨g, hg, hx⟩
    | cons e es ih =>
        intro gs hg
        rw [List.foldl_cons] at hg
        rcases ih _ hg with h | ⟨g', hg', hx'⟩
        · exact Or.inl (List.mem_cons_of_mem _ h)
        · split at hg'
          · exact Or.inr ⟨g', hg', hx'⟩
          · rcases mem_addToGroups hg' hx' with rfl | h
            · exact Or.inl (List.mem_cons_self ..)
            · exact Or.inr h
  rcases main es [] hg with h | ⟨g', hg', _⟩
  · exact h
  · exact absurd hg' List.not_mem_nil

/-- Whatever a selector names, it names entries of the list it was asked of. -/
theorem mem_of_select {es cands : List Entry} {selector : Text} {x : Entry}
    (h : select es selector = .ok cands) (hx : x ∈ cands) : x ∈ es := by
  unfold select at h
  dsimp only at h
  split at h
  · cases h
  · split at h
    · split at h
      · cases h
      · split at h
        · rename_i e he
          cases h
          rw [List.mem_singleton.mp hx]
          exact List.mem_of_getElem? he
        · cases h
    · split at h
      · rename_i e he
        cases h
        rw [List.mem_singleton.mp hx]
        have : e ∈ es.filter (·.label == trimSpace selector) := by
          rw [he]; exact List.mem_singleton_self e
        exact List.mem_of_mem_filter this
      · split at h
        · rename_i g hg
          cases h
          exact mem_groupByCountry (List.mem_of_find?_eq_some hg) hx
        · cases h
      · cases h

end Ghostlane.Cli
