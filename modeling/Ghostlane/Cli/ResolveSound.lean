import Ghostlane.Cli.Resolve

/-!
# Ghostlane.Cli.ResolveSound

A line chosen by index or label never becomes another list's line.

The invariant over a history of list changes is `Pinned sub`: the selection
remembers the list `sub`, and the id it remembers is the hash of a line of that
list. With `entryID` injective, any line found by that id lies in `sub`
(`Pinned.sub_of_id`); a line that is gone is looked for among `sub`'s lines
only; and what either path remembers is again a line of `sub`. So one
resolution keeps the invariant (`resolve_pinned`), and a history does
(`resolveAll_pinned`).
-/

namespace Ghostlane.Cli

open Ghostlane.Lib

variable [External]

/-- The assumption on the hash: no two of list, label and ordinal share an id. -/
def EntryIDInjective : Prop :=
  ∀ ⦃s l : Text⦄ ⦃n : Nat⦄ ⦃s' l' : Text⦄ ⦃n' : Nat⦄,
    entryID s l n = entryID s' l' n' → s = s' ∧ l = l' ∧ n = n'

/-- The selection remembers a line of the list at `sub`. -/
structure Pinned (sub : Text) (sel : Selection) : Prop where
  sub_ne : sub ≠ []
  list : sel.entrySub = sub
  line : ∃ label n, sel.entryID = entryID sub label n

/-- Every line of `all` is one of its list, as `allEntries` makes them. -/
def OfLists (w : Lists) (all : List Indexed) : Prop :=
  ∀ x ∈ all, ∃ lines, w.read x.sub = some lines ∧ x.entry ∈ entries x.sub lines

/-- The answer of a resolution stays in the list at `sub`: every candidate is one
of its lines, and the selection remembers that list still. -/
structure StaysIn (sub : Text) (w : Lists) (r : Resolution) : Prop where
  pinned : Pinned sub r.sel
  cands : ∀ cands, r.cands = .ok cands → ∀ e ∈ cands,
    ∃ lines, w.read sub = some lines ∧ e ∈ entries sub lines

section OneResolution

variable {w : Lists} {all : List Indexed} {sub : Text} {sel : Selection}

theorem Pinned.entryID_ne (h : Pinned sub sel) : sel.entryID ≠ [] := by
  obtain ⟨label, n, hid⟩ := h.line
  rw [hid]
  exact External.entryID_ne_nil sub label n

/-- A line with an id of `sub`'s lies in `sub`. -/
theorem sub_of_id (hinj : EntryIDInjective) (hall : OfLists w all) {x : Indexed} (hx : x ∈ all)
    {label : Text} {n : Nat} (hid : x.entry.id = entryID sub label n) : x.sub = sub := by
  obtain ⟨lines, _, he⟩ := hall x hx
  obtain ⟨m, hm⟩ := entries_id he
  exact (hinj (hm.symm.trans hid)).1

/-- Remembering a line of `all` pins the selection to that line's list. -/
theorem pinned_of_mem (hall : OfLists w all) {x : Indexed} (hx : x ∈ all) (sel : Selection) :
    Pinned x.sub { sel with entryID := x.entry.id, entrySub := x.sub } := by
  obtain ⟨lines, hread, he⟩ := hall x hx
  obtain ⟨n, hn⟩ := entries_id he
  refine ⟨fun hnil => ?_, rfl, x.entry.label, n, hn⟩
  rw [hnil, w.read_nil] at hread
  cases hread

/-- Candidates that are all lines of `sub` keep a pinned selection pinned,
whether or not one of them is remembered. -/
theorem rememberNamed_staysIn (hinj : EntryIDInjective) (hall : OfLists w all)
    (hpin : Pinned sub sel) {cands : List Entry}
    (hcands : ∀ e ∈ cands, ∃ lines, w.read sub = some lines ∧ e ∈ entries sub lines) :
    StaysIn sub w (rememberNamed all cands sel) := by
  refine ⟨?_, fun cs hcs => ?_⟩
  · unfold rememberNamed
    split
    · rename_i line hline
      obtain ⟨hmem, c, rfl, hid⟩ := oneNamedLine_spec hline
      obtain ⟨_, _, hc⟩ := hcands c (List.mem_singleton_self c)
      obtain ⟨n, hn⟩ := entries_id hc
      have hsub : line.sub = sub := sub_of_id hinj hall hmem (hid.trans hn)
      rw [remember_sel, ← hsub]
      exact pinned_of_mem hall hmem sel
    · exact hpin
  · rw [rememberNamed_cands] at hcs
    cases hcs
    exact hcands

/-- Looking for a line that is gone stays in its list. -/
theorem lineInList_staysIn (hinj : EntryIDInjective) (hall : OfLists w all)
    (hpin : Pinned sub sel) : StaysIn sub w (lineInList w all sel) := by
  have hfail : ∀ why, StaysIn sub w ⟨.error why, sel, false⟩ := fun why => ⟨hpin, nofun⟩
  unfold lineInList
  split
  · exact hfail _
  · split
    · split
      · rename_i n line hline
        split
        · exact hfail _
        · rename_i hin
          -- the index is taken only while the line it numbers is in the list
          have hsub : line.sub = sub := by
            rw [← hpin.list]
            exact not_not.mp fun hne => hin (Or.inr hne)
          refine rememberNamed_staysIn hinj hall hpin fun e he => ?_
          rw [List.mem_singleton.mp he, ← hsub]
          exact hall line (List.mem_of_getElem? hline)
      · exact hfail _
    · split
      · exact hfail _
      · rename_i cands hsel
        refine rememberNamed_staysIn hinj hall hpin fun e he => ?_
        obtain ⟨x, hx, rfl⟩ := List.mem_map.mp (mem_of_select hsel he)
        obtain ⟨hx, hown⟩ := List.mem_filter.mp hx
        have hsub : x.sub = sub := by rw [← hpin.list]; simpa using hown
        rw [← hsub]
        exact hall x hx

/-- **One resolution.** A pinned selection resolves to lines of its list or to
nothing, and stays pinned. -/
theorem resolve_pinned (hinj : EntryIDInjective) (hall : OfLists w all)
    (hpin : Pinned sub sel) (subs : List Subscription) :
    StaysIn sub w (resolve subs w all sel) := by
  unfold resolve
  rw [if_pos hpin.entryID_ne]
  split
  · rename_i x hx
    have hmem := List.mem_of_find?_eq_some hx
    obtain ⟨label, n, hid⟩ := hpin.line
    have hsub : x.sub = sub :=
      sub_of_id hinj hall hmem (by rw [← hid]; simpa using List.find?_some hx)
    refine ⟨?_, fun cs hcs e he => ?_⟩
    · rw [remember_sel, ← hsub]
      exact pinned_of_mem hall hmem sel
    · rw [remember_cands] at hcs
      cases hcs
      rw [List.mem_singleton.mp he, ← hsub]
      exact hall x hmem
  · unfold lineInItsList
    rw [if_neg (by rw [hpin.list]; exact hpin.sub_ne)]
    exact lineInList_staysIn hinj hall hpin

/-- What a resolution writes down is a line it saw. -/
def Remembers (all : List Indexed) (r : Resolution) : Prop :=
  r.remembered = true → ∃ x ∈ all, r.sel.entryID = x.entry.id ∧ r.sel.entrySub = x.sub

omit [External] in
theorem remember_remembers {x : Indexed} (hx : x ∈ all) (cands : List Entry) (sel : Selection) :
    Remembers all (remember cands sel x.entry.id x.sub) := by
  intro _
  rw [remember_sel]
  exact ⟨x, hx, rfl, rfl⟩

omit [External] in
theorem rememberNamed_remembers (all : List Indexed) (cands : List Entry) (sel : Selection) :
    Remembers all (rememberNamed all cands sel) := by
  unfold rememberNamed
  split
  · rename_i line hline
    exact remember_remembers (oneNamedLine_spec hline).1 cands sel
  · exact nofun

omit [External] in
theorem lineInList_remembers (w : Lists) (all : List Indexed) (sel : Selection) :
    Remembers all (lineInList w all sel) := by
  unfold lineInList
  split
  · exact nofun
  · split
    · split
      · split
        · exact nofun
        · exact rememberNamed_remembers _ _ _
      · exact nofun
    · split
      · exact nofun
      · exact rememberNamed_remembers _ _ _

theorem resolve_remembers (subs : List Subscription) (w : Lists) (all : List Indexed)
    (sel : Selection) : Remembers all (resolve subs w all sel) := by
  unfold resolve lineInItsList
  split
  · split
    · rename_i x hx
      exact remember_remembers (List.mem_of_find?_eq_some hx) _ sel
    · split
      · split
        · exact nofun
        · exact lineInList_remembers _ _ _
      · exact lineInList_remembers _ _ _
  · split
    · exact nofun
    · exact rememberNamed_remembers _ _ _

/-- A resolution that remembered something pinned the selection to the list it remembered. -/
theorem pinned_of_remembered (hall : OfLists w all) {subs : List Subscription}
    (h : (resolve subs w all sel).remembered = true) :
    Pinned (resolve subs w all sel).sel.entrySub (resolve subs w all sel).sel := by
  obtain ⟨x, hx, hid, hsub⟩ := resolve_remembers subs w all sel h
  have hpin := pinned_of_mem hall hx sel
  rw [hsub]
  obtain ⟨label, n, hn⟩ := hpin.line
  exact ⟨hpin.sub_ne, hsub, label, n, hid.trans hn⟩

end OneResolution

/-! ### Histories of list changes -/

/-- The config's subscriptions and what their lists hold, at one moment. -/
structure Moment where
  subs : List Subscription
  lists : Lists

/-- The resolution a round makes at a moment; none when no list can be read. -/
def Moment.resolve (m : Moment) (sel : Selection) : Option Resolution :=
  (allEntries m.subs m.lists sel.subscription).map fun all => Cli.resolve m.subs m.lists all sel

/-- The selection after a history of rounds. -/
def resolveAll (sel : Selection) (ms : List Moment) : Selection :=
  ms.foldl (fun sel m => ((m.resolve sel).map (·.sel)).getD sel) sel

/-- One line in scope is labelled with the selector, so that it names the line and no country. -/
def Moment.NamesLine (m : Moment) (sel : Selection) : Prop :=
  trimSpace sel.selector ≠ [] ∧ ∃ all, allEntries m.subs m.lists sel.subscription = some all ∧
    ∃ e, (flatten all).filter (·.label == trimSpace sel.selector) = [e]

theorem Moment.resolve_eq_some {m : Moment} {sel : Selection} {r : Resolution}
    (h : m.resolve sel = some r) :
    ∃ all, OfLists m.lists all ∧ allEntries m.subs m.lists sel.subscription = some all ∧
      r = Cli.resolve m.subs m.lists all sel := by
  obtain ⟨all, hall, rfl⟩ := Option.map_eq_some_iff.mp h
  exact ⟨all, fun x hx => mem_allEntries hall hx, hall, rfl⟩

/-- **A whole history.** A pinned selection stays pinned, however the lists change. -/
theorem resolveAll_pinned (hinj : EntryIDInjective) {sub : Text} (ms : List Moment) :
    ∀ {sel : Selection}, Pinned sub sel → Pinned sub (resolveAll sel ms) := by
  induction ms with
  | nil => exact id
  | cons m ms ih =>
      intro sel hpin
      have hstep : Pinned sub (((m.resolve sel).map (·.sel)).getD sel) := by
        cases hr : m.resolve sel with
        | none => exact hpin
        | some r =>
            obtain ⟨all, hall, -, rfl⟩ := Moment.resolve_eq_some hr
            exact (resolve_pinned hinj hall hpin m.subs).pinned
      exact ih hstep

omit [External] in
/-- A selector that is no index selects one line of its label only where there is no other. -/
theorem filter_of_select {es : List Entry} {selector : Text} {c : Entry}
    (hindex : atoi (trimSpace selector) = none) (h : select es selector = .ok [c])
    (hlabel : c.label = trimSpace selector) :
    trimSpace selector ≠ [] ∧ es.filter (·.label == trimSpace selector) = [c] := by
  have hmem : c ∈ es.filter (·.label == trimSpace selector) :=
    List.mem_filter.mpr ⟨mem_of_select h (List.mem_singleton_self c), by simp [hlabel]⟩
  unfold select at h
  dsimp only at h
  split at h
  · cases h
  · rename_i hne
    rw [hindex] at h
    dsimp only at h
    refine ⟨hne, ?_⟩
    split at h
    · rename_i e he
      cases h
      exact he
    · rename_i hnil
      rw [hnil] at hmem
      cases hmem
    · cases h

/-- A country's line is not remembered. -/
theorem Moment.resolve_byCountry {m : Moment} {sel : Selection} {r : Resolution}
    (hno : sel.entryID = []) (hindex : atoi (trimSpace sel.selector) = none)
    (hc : ¬ m.NamesLine sel) (h : m.resolve sel = some r) : r.sel = sel := by
  obtain ⟨all, -, hall, rfl⟩ := Moment.resolve_eq_some h
  unfold Cli.resolve
  rw [if_neg (by simp [hno])]
  split
  · rfl
  · rename_i cands hsel
    unfold rememberNamed
    split
    · rename_i line hline
      exfalso
      obtain ⟨-, c, rfl, -⟩ := oneNamedLine_spec hline
      have hlabel : c.label = trimSpace sel.selector := by
        by_contra hne
        simp [oneNamedLine, hindex, hne] at hline
      obtain ⟨hne, hone⟩ := filter_of_select hindex hsel hlabel
      exact hc ⟨hne, all, hall, c, hone⟩
    · rfl

/-- A line that is named is remembered. -/
theorem Moment.resolve_namesLine {m : Moment} {sel : Selection} (hno : sel.entryID = [])
    (hindex : atoi (trimSpace sel.selector) = none) (hc : m.NamesLine sel) :
    ∃ r, m.resolve sel = some r ∧ r.remembered = true := by
  obtain ⟨hne, all, hall, e, hone⟩ := hc
  have hmem : e ∈ (flatten all).filter (·.label == trimSpace sel.selector) := by
    rw [hone]
    exact List.mem_singleton_self e
  obtain ⟨he, hlabel⟩ := List.mem_filter.mp hmem
  obtain ⟨x, hx, rfl⟩ := List.mem_map.mp he
  have hselect : select (flatten all) sel.selector = .ok [x.entry] := by
    unfold select
    dsimp only
    rw [if_neg hne, hindex]
    dsimp only
    rw [hone]
  obtain ⟨line, hline⟩ : ∃ line, all.find? (·.entry.id == x.entry.id) = some line := by
    rw [← Option.isSome_iff_exists, List.find?_isSome]
    exact ⟨x, hx, beq_self_eq_true _⟩
  have hnamed : oneNamedLine all [x.entry] sel.selector = some line := by
    rw [← hline, oneNamedLine, if_neg fun h => h.2 (beq_iff_eq.mp hlabel)]
  refine ⟨Cli.resolve m.subs m.lists all sel, ?_, ?_⟩
  · rw [Moment.resolve, hall]
    rfl
  · obtain ⟨lines, -, hentry⟩ := mem_allEntries hall (List.mem_of_find?_eq_some hline)
    obtain ⟨n, hn⟩ := entries_id hentry
    have hid : ¬ (sel.entryID = line.entry.id ∧ sel.entrySub = line.sub) := by
      rintro ⟨hid, -⟩
      exact External.entryID_ne_nil _ _ _ (hn.symm.trans (hid.symm.trans hno))
    rw [Cli.resolve, if_neg (by simp [hno]), hselect]
    dsimp only
    rw [rememberNamed, hnamed]
    dsimp only
    rw [remember, if_neg hid]

/-- A selection by country is given a line to remember in the first round that finds one labelled
with it. -/
theorem resolveAll_byCountry_iff (hinj : EntryIDInjective) (ms : List Moment) {sel : Selection}
    (hno : sel.entryID = []) (hindex : atoi (trimSpace sel.selector) = none) :
    (resolveAll sel ms).entryID = [] ↔ ∀ m ∈ ms, ¬ m.NamesLine sel := by
  induction ms with
  | nil => exact iff_of_true hno (List.forall_mem_nil _)
  | cons m ms ih =>
      rw [List.forall_mem_cons, resolveAll, List.foldl_cons]
      by_cases hc : m.NamesLine sel
      · obtain ⟨r, hr, hrem⟩ := Moment.resolve_namesLine hno hindex hc
        obtain ⟨all, hall, -, rfl⟩ := Moment.resolve_eq_some hr
        have hpin := resolveAll_pinned hinj ms (pinned_of_remembered hall hrem)
        rw [hr]
        exact iff_of_false hpin.entryID_ne fun h => h.1 hc
      · have hstep : ((m.resolve sel).map (·.sel)).getD sel = sel := by
          cases hr : m.resolve sel with
          | none => rfl
          | some r => exact Moment.resolve_byCountry hno hindex hc hr
        rw [hstep]
        exact ih.trans (and_iff_right hc).symm

/-- **A chosen line keeps its list.** Once a resolution has remembered a line and
its list, every later one, after any history of list changes, fails or answers
with lines of that list alone, and remembers no other. A selection by country is
never given a line to remember exactly when no round finds one line labelled with it. -/
theorem resolve_stays_in_list (hinj : EntryIDInjective) (sel : Selection) :
    (∀ (first : Moment) (r : Resolution), first.resolve sel = some r → r.remembered = true →
      ∀ (ms : List Moment) (m : Moment) (r' : Resolution),
        m.resolve (resolveAll r.sel ms) = some r' →
          r'.sel.entrySub = r.sel.entrySub ∧
          ∀ cands, r'.cands = .ok cands → ∀ e ∈ cands,
            ∃ lines, m.lists.read r.sel.entrySub = some lines ∧
              e ∈ entries r.sel.entrySub lines) ∧
    (∀ ms : List Moment, sel.entryID = [] → atoi (trimSpace sel.selector) = none →
      ((resolveAll sel ms).entryID = [] ↔ ∀ m ∈ ms, ¬ m.NamesLine sel)) := by
  refine ⟨fun first r hfirst hrem ms m r' hr' => ?_, fun ms hno hindex =>
    resolveAll_byCountry_iff hinj ms hno hindex⟩
  obtain ⟨all, hall, -, rfl⟩ := Moment.resolve_eq_some hfirst
  have hpin := resolveAll_pinned hinj ms (pinned_of_remembered hall hrem)
  obtain ⟨all', hall', -, rfl⟩ := Moment.resolve_eq_some hr'
  have hstay := resolve_pinned hinj hall' hpin m.subs
  exact ⟨hstay.pinned.list, hstay.cands⟩

/-! ### A model to evaluate -/

omit [External]

/-- Escape a text so that `|` ends it. -/
def spell (t : Text) : Text := t.flatMap fun c => ['.', c]

theorem spell_append_inj : ∀ {s s' r r' : Text},
    spell s ++ '|' :: r = spell s' ++ '|' :: r' → s = s' ∧ r = r'
  | [], [], _, _, h => by simpa [spell] using h
  | [], _ :: _, _, _, h => by simp [spell] at h
  | _ :: _, [], _, _, h => by simp [spell] at h
  | a :: s, b :: s', r, r', h => by
      have h' : a = b ∧ spell s ++ '|' :: r = spell s' ++ '|' :: r' := by simpa [spell] using h
      obtain ⟨hs, hr⟩ := spell_append_inj h'.2
      exact ⟨by rw [h'.1, hs], hr⟩

/-- An id that spells out what it stands for, and share links read by their fragment. -/
@[reducible] def spelledIDs : External where
  entryID s l n := spell s ++ '|' :: (spell l ++ '|' :: List.replicate n '1')
  entryID_ne_nil := by simp
  parseOlcrtc _ := .error (txt "not read here")
  parseVless raw := .ok ((raw.dropWhile (· != '#')).drop 1)
  parseHy2 raw := .ok ((raw.dropWhile (· != '#')).drop 1)
  fragmentLabel raw := (raw.dropWhile (· != '#')).drop 1
  maskURL url := url

theorem spelledIDs_injective : @EntryIDInjective spelledIDs := by
  intro s l n s' l' n' h
  obtain ⟨hs, h⟩ := spell_append_inj h
  obtain ⟨hl, h⟩ := spell_append_inj h
  exact ⟨hs, hl, by simpa using congrArg List.length h⟩

/-- One list with the given lines, and another provider's below it. -/
def twoLists (own : Option (List Text)) : Moment where
  subs := [⟨txt "https://a.example/l", [], 24, 0⟩, ⟨txt "https://b.example/l", [], 24, 0⟩]
  lists :=
    { read := fun u => if u = txt "https://a.example/l" then own
        else if u = txt "https://b.example/l" then some [txt "hy2://p@b.example:443#Berlin"]
          else none
      refusal := fun _ => none
      read_nil := by simp [txt] }

/-- The chosen line's list loses it and then cannot be read at all: the second
list's line moves up to index 1 and is not taken. A country keeps no line while none is labelled as
it is. -/
theorem resolve_stays_in_list_index :
    let sel : Selection := ⟨[], txt "1", .tun, false, [], []⟩
    (∃ r, @Moment.resolve spelledIDs (twoLists (some [txt "hy2://p@a.example:443#Paris"])) sel =
      some r ∧
      r.remembered = true ∧ r.sel.entrySub = txt "https://a.example/l" ∧
      ∃ r', @Moment.resolve spelledIDs (twoLists none)
          (@resolveAll spelledIDs r.sel [twoLists (some [txt "hy2://p@a.example:443#Lyon"])]) =
            some r' ∧
        r'.sel.entrySub = r.sel.entrySub) ∧
    (@resolveAll spelledIDs ⟨[], txt "DE", .tun, false, [], []⟩
      [twoLists (some [txt "hy2://p@a.example:443#DE Koeln"]), twoLists none]).entryID = [] := by
  refine ⟨⟨_, rfl, by decide, by decide, _, rfl, ?_⟩, ?_⟩
  · exact ((@resolve_stays_in_list spelledIDs spelledIDs_injective
      ⟨[], txt "1", .tun, false, [], []⟩).1
      (twoLists (some [txt "hy2://p@a.example:443#Paris"])) _ rfl (by decide)
      [twoLists (some [txt "hy2://p@a.example:443#Lyon"])] (twoLists none) _ rfl).1
  · refine ((@resolve_stays_in_list spelledIDs spelledIDs_injective
      ⟨[], txt "DE", .tun, false, [], []⟩).2 _ rfl (by decide)).mpr fun m hm => ?_
    simp only [List.mem_cons, List.not_mem_nil, or_false] at hm
    rcases hm with rfl | rfl
    all_goals
      rintro ⟨-, all, hall, e, hone⟩
      cases hall
      cases hone

/-- A country of two lines; then its host names a third line as the country is named. -/
theorem resolve_pins_country :
    let sel : Selection := ⟨[], txt "DE", .tun, false, [], []⟩
    let lines := [txt "hy2://p@a.example:443#DE Koeln", txt "hy2://p@b.example:443#DE Mainz"]
    (∃ r cands, @Moment.resolve spelledIDs (twoLists (some lines)) sel = some r ∧
      r.cands = .ok cands ∧
      cands.map (·.label) = [txt "DE Koeln", txt "DE Mainz"] ∧ r.sel = sel) ∧
    (@resolveAll spelledIDs sel
      [twoLists (some lines),
        twoLists (some (txt "hy2://p@c.example:443#DE" :: lines))]).entryID ≠ [] := by
  refine ⟨⟨_, _, rfl, rfl, rfl, rfl⟩, ?_⟩
  decide

end Ghostlane.Cli
