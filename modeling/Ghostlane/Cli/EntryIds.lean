import Ghostlane.Cli.FragmentLabels
import Ghostlane.Cli.Shown
import Ghostlane.Lib.Collections

/-!
# Ghostlane.Cli.EntryIds

The ids `Entries` gives the lines of a list (`internal/links/list.go`): a hash of the list, the
label and the label's number among its equals, by which a line is found again in a list that has
changed. A label is bytes here, as the hash takes it.

A VLESS line that is read takes its label from `splitShare`, and one whose transport is not
supported from `fragmentLabel`. The two decode a fragment differently (`fragmentLabel_iff`).
-/

namespace Ghostlane.Cli.Lines

open Ghostlane.Lib Ghostlane.Lib.Bytes Ghostlane.Cli.Share

/-! ### Labels -/

/-- The label of a room's line that is read: what follows the `$`, else the room. -/
def olcrtcLabel (raw : Bytes) : Bytes :=
  let payload := (Strings.trimSpace raw).drop olcrtcPrefix.length
  let rest := after (byte '@') (after (byte '?') payload)
  orElse (Strings.trimSpace (after (byte '$') (after (byte '#') rest)))
    (Strings.trimSpace (before (byte '#') rest))

section

variable [Unicode]

/-- The label of a line of `Entries`. -/
def labelOf (raw : Bytes) : Bytes :=
  if starts raw (ascii "olcrtc://") then
    match parseOlcrtc (Strings.chars raw) with
    | .error _ => raw
    | .ok _ => olcrtcLabel raw
  else if starts raw (ascii "vless://") then
    match parseVless raw with
    | .error _ => fragmentLabel raw
    | .ok l => l.label
  else if starts raw (ascii "hysteria2://") || starts raw (ascii "hy2://") then
    match parseHy2 raw with
    | .error _ => fragmentLabel raw
    | .ok l => l.label
  else raw

/-! ### Ids -/

/-- `entryID`: of the list, the label and its number. -/
abbrev EntryID (ι : Type) := Bytes → Bytes → Nat → ι

/-- The ids of lines; `seen` of each label were met before. -/
def idsFrom {ι : Type} (entryID : EntryID ι) (subURL : Bytes) (seen : Bytes → Nat) :
    List Bytes → List ι
  | [] => []
  | raw :: lines =>
      let label := labelOf raw
      let seen := Function.update seen label (seen label + 1)
      entryID subURL label (seen label) :: idsFrom entryID subURL seen lines

/-- The ids of `Entries`. -/
def ids {ι : Type} (entryID : EntryID ι) (subURL : Bytes) (lines : List Bytes) : List ι :=
  idsFrom entryID subURL (fun _ => 0) lines

/-- No two triples have one id. -/
def Injective {ι : Type} (entryID : EntryID ι) : Prop :=
  ∀ {s l n s' l' n'}, entryID s l n = entryID s' l' n' → s = s' ∧ l = l' ∧ n = n'

/-- The lines before the `i`-th with its label. -/
def alikeBefore (lines : List Bytes) (i : Nat) (raw : Bytes) : Nat :=
  ((lines.take i).map labelOf).countP (· = labelOf raw)

/-- A line of both lists keeps its id where as many lines of its label stand before it. -/
def Stable {ι : Type} (entryID : EntryID ι) (subURL : Bytes) (lines lines' : List Bytes) : Prop :=
  ∀ (i j : Nat) (raw : Bytes), lines[i]? = some raw → lines'[j]? = some raw →
    alikeBefore lines i raw = alikeBefore lines' j raw →
      (ids entryID subURL lines)[i]? = (ids entryID subURL lines')[j]?

/-! ### A line whose transport changes -/

/-- Two lines of one share link that differ in the transport they name; of a VLESS link the one is
supported and the other not. -/
structure Retyped (scheme raw raw' : Bytes) (p p' : ShareParts) : Prop where
  known : scheme ∈ [ascii "vless://", ascii "hysteria2://", ascii "hy2://"]
  begins : starts raw scheme = true
  begins' : starts raw' scheme = true
  /-- The lines of a list are trimmed. -/
  trimmed : Strings.trimSpace raw = raw
  trimmed' : Strings.trimSpace raw' = raw'
  fragment : fragmentOf raw' = fragmentOf raw
  parts : splitShare raw scheme = .ok p
  parts' : splitShare raw' scheme = .ok p'
  userinfo : p'.userinfo = p.userinfo
  host : p'.host = p.host
  port : p'.port = p.port
  query : p'.query.filter (·.1 ≠ ascii "type") = p.query.filter (·.1 ≠ ascii "type")
  transport : scheme = ascii "vless://" →
    (transportOf p.query).isSome = true ∧ transportOf p'.query = none

/-- The line keeps its label and its id, whatever stands around it. -/
def KeepsId {ι : Type} (entryID : EntryID ι) (subURL raw raw' : Bytes) : Prop :=
  labelOf raw' = labelOf raw ∧ ∀ above below : List Bytes,
    (ids entryID subURL (above ++ raw' :: below))[above.length]? =
      (ids entryID subURL (above ++ raw :: below))[above.length]?

end

/-! ### Ids of lines -/

section

variable [Unicode]

variable {ι : Type} {entryID : EntryID ι} {subURL : Bytes}

theorem idsFrom_eq (seen : Bytes → Nat) (lines : List Bytes) :
    idsFrom entryID subURL seen lines =
      (numberFrom seen (lines.map labelOf)).map fun p => entryID subURL p.1 p.2 := by
  induction lines generalizing seen with
  | nil => rfl
  | cons raw lines ih =>
      rw [idsFrom, List.map_cons, numberFrom, List.map_cons]
      dsimp only
      rw [Function.update_self, ih]

theorem getElem?_ids (lines : List Bytes) (i : Nat) :
    (ids entryID subURL lines)[i]? =
      lines[i]?.map fun raw => entryID subURL (labelOf raw) (alikeBefore lines i raw + 1) := by
  rw [ids, idsFrom_eq, List.getElem?_map, getElem?_numberFrom, List.getElem?_map, Option.map_map,
    Option.map_map]
  refine Option.map_congr fun raw _ => ?_
  simp only [Function.comp_apply, alikeBefore, List.map_take, Nat.zero_add]
  rfl

/-- **No two lines have one id.** -/
theorem nodup_ids (hinj : Injective entryID) (lines : List Bytes) :
    (ids entryID subURL lines).Nodup := by
  rw [ids, idsFrom_eq]
  refine (nodup_numberFrom _ _).map fun p q heq => ?_
  obtain ⟨-, hlabel, hnumber⟩ := hinj heq
  exact Prod.ext hlabel hnumber

/-- **A line keeps its id** where as many of its label stand before it. -/
theorem stable_ids (lines lines' : List Bytes) : Stable entryID subURL lines lines' := by
  intro i j raw hi hj halike
  rw [getElem?_ids, getElem?_ids, hi, hj, Option.map_some, Option.map_some, halike]

/-- A line that changes keeps its id where it keeps its label. -/
theorem keepsId_iff (raw raw' : Bytes) :
    KeepsId entryID subURL raw raw' ↔ labelOf raw' = labelOf raw := by
  refine ⟨And.left, fun hlabel => ⟨hlabel, fun above below => ?_⟩⟩
  rw [getElem?_ids, getElem?_ids, List.getElem?_append_right le_rfl,
    List.getElem?_append_right le_rfl, Nat.sub_self, List.getElem?_cons_zero,
    List.getElem?_cons_zero, Option.map_some, Option.map_some, alikeBefore, alikeBefore,
    List.take_left, List.take_left, hlabel]

end

section

variable [Unicode]

/-! ### A line whose transport changes -/

namespace Retyped

variable {scheme raw raw' : Bytes} {p p' : ShareParts}

theorem free (h : Retyped scheme raw raw' p p') : byte '#' ∉ scheme := by
  have hfree : ∀ s ∈ [ascii "vless://", ascii "hysteria2://", ascii "hy2://"], byte '#' ∉ s := by
    decide
  exact hfree scheme h.known

theorem after_eq (h : Retyped scheme raw raw' p p') :
    after (byte '#') raw' = after (byte '#') raw := by
  have hof : ∀ r, after (byte '#') r = (fragmentOf r).getD [] := by
    intro r
    rw [fragmentOf]
    split
    · rfl
    · rename_i hnot
      exact after_of_not_mem hnot
  rw [hof, hof, h.fragment]

/-- The parts of both make one label. -/
theorem label_eq (h : Retyped scheme raw raw' p p') : p'.label = p.label := by
  rw [ShareParts.label, ShareParts.label, (splitShare_spec h.begins h.free h.parts).1,
    (splitShare_spec h.begins' h.free h.parts').1, h.after_eq, h.host]

theorem labelOf_vless (h : Retyped scheme raw raw' p p') (hscheme : scheme = ascii "vless://") :
    labelOf raw = p.label ∧ labelOf raw' = fragmentLabel raw' := by
  have hof : ∀ r, starts r (ascii "vless://") = true → Strings.trimSpace r = r →
      ∀ q, splitShare r (ascii "vless://") = .ok q →
        labelOf r = if (transportOf q.query).isSome then q.label else fragmentLabel r := by
    intro r hbegins htrim q hparts
    have hother : starts r (ascii "olcrtc://") = false := by
      obtain ⟨rest, rfl⟩ := List.isPrefixOf_iff_prefix.mp hbegins
      rfl
    rw [labelOf, hother, if_neg Bool.false_ne_true, if_pos hbegins, parseVless, htrim,
      if_pos hbegins, hparts]
    dsimp only
    cases transportOf q.query <;> rfl
  subst hscheme
  obtain ⟨hsome, hnone⟩ := h.transport rfl
  rw [hof raw h.begins h.trimmed p h.parts, hof raw' h.begins' h.trimmed' p' h.parts', hsome, hnone]
  exact ⟨rfl, rfl⟩

theorem labelOf_hysteria2 (h : Retyped scheme raw raw' p p') (hscheme : scheme ≠ ascii "vless://") :
    labelOf raw = p.label ∧ labelOf raw' = p'.label := by
  have hof : ∀ r, starts r scheme = true → Strings.trimSpace r = r →
      ∀ q, splitShare r scheme = .ok q → labelOf r = q.label := by
    intro r hbegins htrim q hparts
    have hother : starts r (ascii "olcrtc://") = false ∧ starts r (ascii "vless://") = false ∧
        (starts r (ascii "hysteria2://") || starts r (ascii "hy2://")) = true ∧
          hy2Scheme r = some scheme := by
      obtain ⟨rest, rfl⟩ := List.isPrefixOf_iff_prefix.mp hbegins
      have hknown := h.known
      simp only [List.mem_cons, List.not_mem_nil, or_false, hscheme, false_or] at hknown
      rcases hknown with rfl | rfl
      · exact ⟨rfl, rfl, rfl, rfl⟩
      · exact ⟨rfl, rfl, rfl, rfl⟩
    obtain ⟨holcrtc, hvless, hhysteria, hfound⟩ := hother
    rw [labelOf, holcrtc, hvless, if_neg Bool.false_ne_true, if_neg Bool.false_ne_true,
      if_pos hhysteria, parseHy2, htrim, hfound]
    dsimp only
    rw [hparts]
  exact ⟨hof raw h.begins h.trimmed p h.parts, hof raw' h.begins' h.trimmed' p' h.parts'⟩

end Retyped

/-- **The ids of the lines are distinct and stable, and a line keeps its own as its transport
changes,** exactly where it is no VLESS line or its fragment is read alike. -/
theorem ids_iff {ι : Type} {entryID : EntryID ι} (hinj : Injective entryID) {subURL : Bytes}
    (lines lines' : List Bytes) {scheme raw raw' : Bytes} {p p' : ShareParts}
    (h : Retyped scheme raw raw' p p') :
    (ids entryID subURL lines).Nodup ∧ Stable entryID subURL lines lines' ∧
        KeepsId entryID subURL raw raw' ↔
      (scheme = ascii "vless://" → ReadAlike p.host (fragmentOf raw)) := by
  rw [and_iff_right (nodup_ids hinj lines), and_iff_right (stable_ids lines lines'), keepsId_iff]
  by_cases hscheme : scheme = ascii "vless://"
  · obtain ⟨hlabel, hlabel'⟩ := h.labelOf_vless hscheme
    obtain ⟨htag, hshort⟩ := splitShare_spec h.begins' h.free h.parts'
    have hparts : p'.label =
        orElse (Strings.trimSpace (unescaped .queryComponent (after (byte '#') raw'))) p'.host := by
      rw [ShareParts.label, htag, orElse]
    rw [hlabel, hlabel', ← h.label_eq, hparts, fragmentLabel_iff h.trimmed' hshort, h.host,
      h.fragment]
    exact ⟨fun halike _ => halike, fun halike => halike hscheme⟩
  · obtain ⟨hlabel, hlabel'⟩ := h.labelOf_hysteria2 hscheme
    exact iff_of_true (by rw [hlabel, hlabel', h.label_eq]) fun heq => absurd heq hscheme

end

/-! ### Two lines of a list -/

attribute [local instance] Shown.asciiTables

/-- The triple itself for an id. -/
def tripleID : EntryID (Bytes × Bytes × Nat) := fun subURL label ordinal => (subURL, label, ordinal)

theorem tripleID_injective : Injective tripleID := by
  intro s l n s' l' n' heq
  cases heq
  exact ⟨rfl, rfl, rfl⟩

/-- A line to a host, of a transport and with a fragment. -/
def lineOf (type fragment : String) : Bytes :=
  ascii "vless://id@host:443?type=" ++ ascii type ++ byte '#' :: ascii fragment

def partsOf (type tag : String) : ShareParts where
  userinfo := ascii "id"
  host := ascii "host"
  port := 443
  query := [(ascii "type", ascii type)]
  tag := ascii tag

theorem transportOf_types : (transportOf [(ascii "type", ascii "tcp")]).isSome = true ∧
    transportOf [(ascii "type", ascii "ws")] = none := by
  decide +kernel

/-- A line over tcp, and over a transport that is not supported. -/
theorem retyped_of {fragment : String} (tag : String)
    (hplain : ∀ x ∈ ascii fragment, x < 0x80 ∧ isSpace (Char.ofUInt8 x) = false)
    (hparts : splitShare (lineOf "tcp" fragment) (ascii "vless://") = .ok (partsOf "tcp" tag))
    (hparts' : splitShare (lineOf "ws" fragment) (ascii "vless://") = .ok (partsOf "ws" tag))
    (hfragment : fragmentOf (lineOf "ws" fragment) = fragmentOf (lineOf "tcp" fragment)) :
    Retyped (ascii "vless://") (lineOf "tcp" fragment) (lineOf "ws" fragment)
      (partsOf "tcp" tag) (partsOf "ws" tag) where
  known := List.mem_cons_self
  begins := rfl
  begins' := rfl
  trimmed := Strings.trimSpace_of_forall
    (List.forall_mem_append.mpr ⟨by decide +kernel,
      List.forall_mem_cons.mpr ⟨by decide, hplain⟩⟩)
  trimmed' := Strings.trimSpace_of_forall
    (List.forall_mem_append.mpr ⟨by decide +kernel,
      List.forall_mem_cons.mpr ⟨by decide, hplain⟩⟩)
  fragment := hfragment
  parts := hparts
  parts' := hparts'
  userinfo := rfl
  host := rfl
  port := rfl
  query := rfl
  transport := fun _ => transportOf_types

theorem ids_iff_berlin :
    (ids tripleID [] [lineOf "tcp" "Berlin"]).Nodup ∧
      Stable tripleID [] [lineOf "tcp" "Berlin"] [lineOf "ws" "Berlin"] ∧
      KeepsId tripleID [] (lineOf "tcp" "Berlin") (lineOf "ws" "Berlin") :=
  (ids_iff tripleID_injective [lineOf "tcp" "Berlin"] [lineOf "ws" "Berlin"]
    (retyped_of "Berlin" (by decide +kernel) (by decide +kernel) (by decide +kernel)
      (by decide))).mpr
      fun _ => ⟨by decide, by decide +kernel, .inl (by decide)⟩

/-- **A plus sign in the fragment changes the label** as the transport changes: it is a blank in the
tag of a line that is read, and a plus sign in the label of one that is not. -/
theorem plus_changes_id :
    ¬ ∀ (lines lines' : List Bytes) (scheme raw raw' : Bytes) (p p' : ShareParts),
      Retyped scheme raw raw' p p' →
        (ids tripleID [] lines).Nodup ∧ Stable tripleID [] lines lines' ∧
          KeepsId tripleID [] raw raw' := by
  intro hall
  have hretyped : Retyped (ascii "vless://") (lineOf "tcp" "New+York") (lineOf "ws" "New+York")
      (partsOf "tcp" "New York") (partsOf "ws" "New York") :=
    retyped_of "New York" (by decide +kernel) (by decide +kernel) (by decide +kernel) (by decide)
  have hlabel := (hall [] [] _ _ _ _ _ hretyped).2.2.1
  have hread : labelOf (lineOf "tcp" "New+York") = ascii "New York" := by decide +kernel
  have hunread : labelOf (lineOf "ws" "New+York") = ascii "New+York" := by decide +kernel
  rw [hread, hunread] at hlabel
  exact absurd hlabel (by decide)

end Ghostlane.Cli.Lines
