import Ghostlane.App.TransportGroup
import Ghostlane.Lib.Cut

/-!
# Ghostlane.App.SessionFailover

Where a session may go by itself. `candidates` puts its answer together from four
selections, each with a rule of its own; `candidates_perm` says that together they are
one selection from the stored list, `reachable`, with nothing repeated, and everything
else about the answer is read off that predicate.

Two facts about names carry it. A transport's suffix does not touch the country a name
leads with (`countryOf_baseName`), so lines of one exit are lines of one country; and a
room may be called what a core line is called, so that a base name does not tell a room
from the exits around it.
-/

namespace Ghostlane.App

open Ghostlane.Lib SmartConnect TransportGroup TransportSelector

/-! ### The country of a base name -/

/-- White space after a text adds white space, if anything, to what stands before a character. -/
theorem substringBefore_append_blank {c : Char} (t : Text) {w : Text} (hw : isBlank w = true) :
    ∃ w', isBlank w' = true ∧ substringBefore c (t ++ w) = substringBefore c t ++ w' := by
  by_cases hall : t.takeWhile (· != c) = t
  · refine ⟨w.takeWhile (· != c), ?_, ?_⟩
    · rw [isBlank, List.all_eq_true] at hw ⊢
      intro d hd
      exact hw d ((List.takeWhile_prefix _).subset hd)
    · rw [substringBefore, substringBefore, List.takeWhile_append, hall, if_pos rfl]
  · refine ⟨[], rfl, ?_⟩
    rw [substringBefore, substringBefore, List.takeWhile_append, if_neg, List.append_nil]
    intro hlen
    exact hall ((List.takeWhile_prefix _).eq_of_length hlen)

theorem countryOf_trim (name : Text) : countryOf (trim name) = countryOf name := by
  simp only [countryOf, trim_trim]

/-- What follows a blank is not part of the country. -/
theorem countryOf_append_space {t rest : Text} (ht : t ≠ [])
    (hname : trim (t ++ ' ' :: rest) = t ++ ' ' :: rest) :
    countryOf (t ++ ' ' :: rest) = countryOf t := by
  have hhead : ∀ c, t.head? = some c → isWhitespace c = false := by
    intro c hc
    refine head?_trimBy (t := t ++ ' ' :: rest) c ?_
    rw [← trim, hname, List.head?_append, hc]
    rfl
  -- the trimmed text is the text less white space at its end
  have hdrop : t.dropWhile isWhitespace = t := by
    cases t with
    | nil => rfl
    | cons d t => rw [List.dropWhile_cons, hhead d rfl, if_neg Bool.false_ne_true]
  have hsplit : t = trim t ++ t.rtakeWhile isWhitespace := by
    rw [trim, trimBy, hdrop, List.rdropWhile_append_rtakeWhile]
  have hblank : isBlank (t.rtakeWhile isWhitespace) = true := by
    rw [isBlank, List.all_eq_true]
    exact fun c hc => List.mem_rtakeWhile_imp hc
  have hfirst : substringBefore ' ' (t ++ ' ' :: rest) = substringBefore ' ' t := by
    rw [substringBefore, substringBefore, List.takeWhile_append]
    split
    · rename_i hlen
      rw [(List.takeWhile_prefix _).eq_of_length hlen]
      simp
    · rfl
  obtain ⟨w, hw, hspace⟩ := substringBefore_append_blank (c := ' ') (trim t) hblank
  obtain ⟨w', hw', hbar⟩ := substringBefore_append_blank (c := '|')
    (substringBefore ' ' (trim t)) hw
  have hread : trim (substringBefore '|' (substringBefore ' ' t)) =
      trim (substringBefore '|' (substringBefore ' ' (trim t))) := by
    conv_lhs => rw [hsplit]
    rw [hspace, hbar]
    exact trimBy_append_right hw'
  simp only [countryOf, hname, hfirst, hread]

/-- **A transport's suffix leaves the country alone.** -/
theorem countryOf_baseName (name : Text) : countryOf (baseName name) = countryOf name := by
  rw [baseName]
  split
  · rename_i suffix hfound
    have hmem := List.mem_of_find?_eq_some hfound
    have hends : List.isSuffixOf suffix (trim name) = true := by
      have h := List.find?_some hfound
      exact h
    obtain ⟨t, ht⟩ := List.isSuffixOf_iff_suffix.mp hends
    obtain ⟨rest, hrest⟩ : ∃ rest, suffix = ' ' :: rest := by
      have hspaces : ∀ s ∈ transportSuffixes, s.head? = some ' ' := by decide
      have hhead := hspaces suffix hmem
      cases suffix with
      | nil => cases hhead
      | cons c rest => exact ⟨rest, by rw [Option.some.inj hhead]⟩
    have htake : (trim name).take ((trim name).length - suffix.length) = t := by
      rw [← ht, List.length_append, Nat.add_sub_cancel, List.take_left]
    rw [htake, countryOf_trim, ← countryOf_trim name, ← ht, hrest]
    -- a trimmed name does not begin with the suffix's blank
    have hne : t ≠ [] := by
      rintro rfl
      have hblank := head?_trimBy (p := isWhitespace) (t := name) ' '
        (by rw [← trim, ← ht, hrest]; rfl)
      exact absurd hblank (by decide)
    refine (countryOf_append_space hne ?_).symm
    rw [← hrest, ht, trim_trim]
  · exact countryOf_trim name

/-! ### What is selected -/

/-- The country a line says it serves. -/
def country (e : LocationEntry) : Option Text := countryOf (nameOf e)

theorem countryOf_keyOf (e : LocationEntry) : countryOf (keyOf e).baseName = country e :=
  countryOf_baseName (nameOf e)

/-- An address that is not blank is the list's exactly when it is the one stored, trimmed. -/
theorem map_trim_eq_iff {e : LocationEntry} {url : Text} (hurl : isBlank url = false) :
    e.subscriptionUrl.map trim = some url ↔ e.listUrl = some url := by
  rw [LocationEntry.listUrl]
  cases e.subscriptionUrl with
  | none => simp
  | some stored =>
      rw [Option.map_some, Option.bind_some, nonBlank_eq_some]
      constructor
      · intro h
        rw [Option.some.inj h]
        exact ⟨hurl, rfl⟩
      · rintro ⟨_, rfl⟩
        rfl

theorem not_blank_of_listUrl {e : LocationEntry} {url : Text} (h : e.listUrl = some url) :
    isBlank url = false := by
  obtain ⟨stored, _, hstored⟩ := Option.bind_eq_some_iff.mp h
  obtain ⟨hblank, rfl⟩ := nonBlank_eq_some.mp hstored
  exact hblank

/-- Of one list and one country, both of which are said. -/
def sameCountry (active e : LocationEntry) : Bool :=
  active.listUrl.isSome && e.listUrl == active.listUrl && (country active).isSome &&
    country e == country active

/-- The other transports of the active line's exit. -/
def sibling (active e : LocationEntry) : Bool :=
  !isRoom active && !isRoom e && keyOf e == keyOf active

/-- The lines a session on the active one may go to. -/
def reachable (active e : LocationEntry) : Bool :=
  e.storageId != active.storageId &&
    (sibling active e || sameCountry active e && (isRoom e || keyOf e != keyOf active))

section Selections

variable {active e : LocationEntry}

/-- `sameCountry` as the selections test it. -/
theorem sameCountry_eq {url c : Text} (hurl : active.listUrl = some url)
    (hcountry : country active = some c) :
    sameCountry active e = (e.subscriptionUrl.map trim == some url && country e == some c) := by
  have haddress := map_trim_eq_iff (e := e) (not_blank_of_listUrl hurl)
  rw [Bool.eq_iff_iff]
  simp only [sameCountry, hurl, hcountry, Option.isSome_some, Bool.true_and, Bool.and_true,
    Bool.and_eq_true, beq_iff_eq, haddress]

/-- A line that says no list or no country shares none. -/
theorem sameCountry_eq_false
    (hnone : ∀ url c, active.listUrl = some url → country active = some c → False) :
    sameCountry active e = false := by
  by_contra hsame
  simp only [sameCountry, Bool.not_eq_false, Bool.and_eq_true, Option.isSome_iff_exists] at hsame
  obtain ⟨⟨⟨⟨url, hurl⟩, _⟩, c, hc⟩, _⟩ := hsame
  exact hnone url c hurl hc

variable (active) (all : List LocationEntry)

theorem sameCountryExits_eq :
    sameCountryExits active all = all.filter fun e =>
      sameCountry active e && (!isRoom e && keyOf e != keyOf active) := by
  simp only [sameCountryExits, countryOf_keyOf]
  split
  · rename_i url c hurl hcountry
    refine List.filter_congr fun e _ => ?_
    rw [sameCountry_eq hurl hcountry]
    simp only [Bool.and_assoc, Bool.and_comm, Bool.and_left_comm]
  · rename_i hnone
    simp only [sameCountry_eq_false hnone, Bool.false_and, List.filter_false]

theorem otherRooms_eq (hroom : isRoom active = true) :
    otherRooms active all = all.filter fun e =>
      e.storageId != active.storageId && (sameCountry active e && isRoom e) := by
  simp only [otherRooms, hroom, Bool.not_true, Bool.false_eq_true, if_false]
  split
  · rename_i url c hurl hcountry
    refine List.filter_congr fun e _ => ?_
    rw [sameCountry_eq hurl hcountry]
    simp only [country, Bool.and_assoc, Bool.and_comm, Bool.and_left_comm]
  · rename_i hnone
    simp only [sameCountry_eq_false hnone, Bool.false_and, Bool.and_false, List.filter_false]

theorem olcrtcFallbacks_eq (hcore : isRoom active = false) :
    olcrtcFallbacks active all = all.filter fun e => sameCountry active e && isRoom e := by
  simp only [olcrtcFallbacks, hcore, Bool.false_eq_true, if_false, countryOf_keyOf]
  split
  · rename_i url c hurl hcountry
    refine List.filter_congr fun e _ => ?_
    rw [sameCountry_eq hurl hcountry]
    simp only [country, Bool.and_assoc, Bool.and_comm, Bool.and_left_comm]
  · rename_i hnone
    simp only [sameCountry_eq_false hnone, Bool.false_and, List.filter_false]

theorem siblings_eq (hcore : isRoom active = false) :
    siblings active all = all.filter (sibling active) := by
  simp only [siblings, hcore, Bool.false_eq_true, if_false]
  refine List.filter_congr fun e _ => ?_
  simp only [sibling, hcore, Bool.not_false, Bool.true_and]

end Selections

/-! ### Ordering keeps the lines -/

/-- Ids that are distinct among the stored lines are distinct among those selected. -/
theorem nodup_ids_filter {all : List LocationEntry} (hids : (all.map (·.storageId)).Nodup)
    (p : LocationEntry → Bool) : ((all.filter p).map (·.storageId)).Nodup :=
  hids.sublist (List.filter_sublist.map _)

/-- With distinct ids, all but the one of some id and that one are all. -/
theorem cons_filter_id_perm {es : List LocationEntry} (hids : (es.map (·.storageId)).Nodup)
    {e : LocationEntry} (he : e ∈ es) :
    List.Perm (e :: es.filter fun x => x.storageId != e.storageId) es := by
  have hone : (es.filter fun x => x.storageId == e.storageId) = [e] := by
    refine List.perm_singleton.mp ?_
    rw [List.perm_ext_iff_of_nodup ((hids.of_map _).filter _) (List.nodup_singleton e)]
    intro x
    rw [List.mem_filter, List.mem_singleton, beq_iff_eq]
    constructor
    · rintro ⟨hx, hid⟩
      exact List.inj_on_of_nodup_map hids hx he hid
    · rintro rfl
      exact ⟨he, rfl⟩
  have hsplit := List.filter_append_perm (fun x => x.storageId == e.storageId) es
  rw [hone] at hsplit
  exact hsplit

section Ordered

variable [JsonReader]

/-- **Ordering loses no core line and repeats none.** -/
theorem orderCandidates_perm {group : List LocationEntry} (hids : (group.map (·.storageId)).Nodup)
    (hcores : ∀ e ∈ group, isRoom e = false) (lastKnownGood : Option Text) :
    List.Perm (orderCandidates group lastKnownGood) group := by
  have husable : (group.filter fun e => !isRoom e) = group := by
    rw [List.filter_eq_self]
    intro e he
    rw [hcores e he]
    rfl
  have hsort := List.perm_insertionSort (fun a b => rank a ≤ rank b) group
  simp only [orderCandidates, husable]
  split
  · exact hsort
  · rename_i promoted hfound
    have hmem := List.mem_of_find?_eq_some hfound
    exact (cons_filter_id_perm ((hsort.map _).nodup_iff.mpr hids) hmem).trans hsort

/-- The country's other exits, exit by exit, are the country's other exits. -/
theorem otherExits_perm (active : LocationEntry) {all : List LocationEntry}
    (hids : (all.map (·.storageId)).Nodup) :
    List.Perm ((groupBy keyOf (sameCountryExits active all)).flatMap fun group =>
        orderCandidates group none)
      (sameCountryExits active all) := by
  have hexits : ((sameCountryExits active all).map (·.storageId)).Nodup := by
    rw [sameCountryExits_eq]
    exact nodup_ids_filter hids _
  refine List.Perm.trans ?_ (flatten_groupBy_perm keyOf (sameCountryExits active all))
  rw [← List.flatMap_id]
  refine List.Perm.flatMap_left _ fun group hgroup => ?_
  obtain ⟨key, _, rfl⟩ := List.mem_map.mp hgroup
  refine orderCandidates_perm (nodup_ids_filter hexits _) ?_ none
  intro e he
  have hmem := (List.mem_filter.mp he).1
  rw [sameCountryExits_eq] at hmem
  have hcore := (List.mem_filter.mp hmem).2
  simp only [Bool.and_eq_true, Bool.not_eq_true'] at hcore
  exact hcore.2.1

end Ordered

/-! ### The candidates -/

namespace SessionFailover

section Candidates

variable [JsonReader]

variable {active : LocationEntry} {all : List LocationEntry}

omit [JsonReader] in
@[simp]
theorem map_entry_probe (es : List LocationEntry) : (es.map Step.probe).map Step.entry = es := by
  simp [Function.comp_def, Step.entry]

omit [JsonReader] in
@[simp]
theorem map_entry_connect (es : List LocationEntry) :
    (es.map Step.connect).map Step.entry = es := by
  simp [Function.comp_def, Step.entry]

/-- The transports of the active core line's exit but the active one. -/
theorem sameExit_perm (hids : (all.map (·.storageId)).Nodup) (hcore : isRoom active = false)
    (lastKnownGood : Option Text) :
    List.Perm ((orderCandidates (siblings active all) lastKnownGood).filter fun e =>
        e.storageId != active.storageId)
      (all.filter fun e => e.storageId != active.storageId && sibling active e) := by
  rw [siblings_eq active all hcore]
  have hcores : ∀ e ∈ all.filter (sibling active), isRoom e = false := by
    intro e he
    have h := (List.mem_filter.mp he).2
    simp only [sibling, Bool.and_eq_true, Bool.not_eq_true'] at h
    exact h.1.2
  refine ((orderCandidates_perm (nodup_ids_filter hids _) hcores lastKnownGood).filter _).trans ?_
  rw [List.filter_filter]

/-- Core lines are probed, rooms connected. -/
theorem candidates_kind (hids : (all.map (·.storageId)).Nodup) (lastKnownGood : Option Text)
    (whitelist : Bool) :
    ∀ s ∈ candidates active all lastKnownGood whitelist,
      (∃ e, s = .probe e ∧ isRoom e = false) ∨ (∃ e, s = .connect e ∧ isRoom e = true) := by
  have hexits : ∀ e ∈ (groupBy keyOf (sameCountryExits active all)).flatMap fun group =>
      orderCandidates group none, isRoom e = false := by
    intro e he
    have hmem := (otherExits_perm active hids).mem_iff.mp he
    rw [sameCountryExits_eq] at hmem
    have hcore := (List.mem_filter.mp hmem).2
    simp only [Bool.and_eq_true, Bool.not_eq_true'] at hcore
    exact hcore.2.1
  intro s hs
  cases hroom : isRoom active with
  | true =>
      simp only [candidates, hroom, if_true, List.mem_append, List.mem_map] at hs
      rcases hs with ⟨e, he, rfl⟩ | ⟨e, he, rfl⟩
      · rw [otherRooms_eq active all hroom] at he
        have h := (List.mem_filter.mp he).2
        simp only [Bool.and_eq_true] at h
        exact .inr ⟨e, rfl, h.2.2⟩
      · exact .inl ⟨e, rfl, hexits e he⟩
  | false =>
      have hs' : (∃ e, (e ∈ (orderCandidates (siblings active all) lastKnownGood).filter (fun e =>
          e.storageId != active.storageId) ∨
            e ∈ (groupBy keyOf (sameCountryExits active all)).flatMap
            fun group => orderCandidates group none) ∧ Step.probe e = s) ∨
          ∃ e, e ∈ olcrtcFallbacks active all ∧ Step.connect e = s := by
        cases whitelist with
        | true =>
            simp only [candidates, hroom, Bool.false_eq_true, if_false, if_true, List.mem_append,
              List.mem_map] at hs
            exact hs.symm
        | false =>
            simp only [candidates, hroom, Bool.false_eq_true, if_false, List.mem_append,
              List.mem_map] at hs
            exact hs
      rcases hs' with ⟨e, he | he, rfl⟩ | ⟨e, he, rfl⟩
      · have hmem := (sameExit_perm hids hroom lastKnownGood).mem_iff.mp he
        have h := (List.mem_filter.mp hmem).2
        simp only [sibling, Bool.and_eq_true, Bool.not_eq_true'] at h
        exact .inl ⟨e, rfl, h.2.1.2⟩
      · exact .inl ⟨e, rfl, hexits e he⟩
      · rw [olcrtcFallbacks_eq active all hroom] at he
        have h := (List.mem_filter.mp he).2
        simp only [Bool.and_eq_true] at h
        exact .inr ⟨e, rfl, h.2⟩

omit [JsonReader] in
/-- What is reachable from a line that says its list and its country: the other lines that say the
same, except that a room does not reach a core line of its own base name. -/
theorem reachable_iff {e : LocationEntry} {url c : Text} (hurl : active.listUrl = some url)
    (hcountry : country active = some c) :
    reachable active e = true ↔
      e.storageId ≠ active.storageId ∧ e.listUrl = active.listUrl ∧ country e = country active ∧
        ¬ (isRoom active = true ∧ isRoom e = false ∧ keyOf e = keyOf active) := by
  have hsame : sameCountry active e = true ↔
      e.listUrl = active.listUrl ∧ country e = country active := by
    simp only [sameCountry, hurl, hcountry, Option.isSome_some, Bool.true_and, Bool.and_true,
      Bool.and_eq_true, beq_iff_eq]
  have hkeyed : keyOf e = keyOf active → sameCountry active e = true := by
    intro hkey
    refine hsame.mpr ⟨congrArg Key.subscriptionUrl hkey, ?_⟩
    rw [← countryOf_keyOf, ← countryOf_keyOf, hkey]
  simp only [reachable, Bool.and_eq_true, bne_iff_ne, Bool.or_eq_true]
  refine and_congr_right fun _ => ?_
  rw [← and_assoc, ← hsame]
  by_cases hkey : keyOf e = keyOf active
  · have hs := hkeyed hkey
    cases ha : isRoom active <;> cases he : isRoom e <;> simp [sibling, hs, hkey, ha, he]
  · simp [sibling, hkey]

section Reachable

variable (hids : (all.map (·.storageId)).Nodup) (hactive : active ∈ all)

include hids hactive

omit [JsonReader] in
/-- A line that differs from the active one in anything has another id. -/
theorem id_ne_of_ne {e : LocationEntry} (he : e ∈ all) (hne : e ≠ active) :
    (e.storageId != active.storageId) = true := by
  rw [bne_iff_ne]
  intro hid
  exact hne (List.inj_on_of_nodup_map hids he hactive hid)

omit [JsonReader] in
theorem id_ne_iff {e : LocationEntry} (he : e ∈ all) :
    e ≠ active ↔ e.storageId ≠ active.storageId := by
  constructor
  · intro hne
    exact bne_iff_ne.mp (id_ne_of_ne hids hactive he hne)
  · intro hid heq
    exact hid (by rw [heq])

omit [JsonReader] in
theorem reachable_room (hroom : isRoom active = true) :
    List.Perm
      ((all.filter fun e =>
        e.storageId != active.storageId && (sameCountry active e && isRoom e)) ++
        all.filter fun e => sameCountry active e && (!isRoom e && keyOf e != keyOf active))
      (all.filter (reachable active)) := by
  refine (filter_append_filter_perm ?_).trans (List.Perm.of_eq (List.filter_congr ?_))
  · intro e _ he
    simp only [Bool.and_eq_true] at he
    rw [he.2.2]
    simp
  · intro e he
    simp only [reachable, sibling, hroom, Bool.not_true, Bool.false_and, Bool.false_or]
    cases hr : isRoom e with
    | true => simp
    | false =>
        have hid := id_ne_of_ne hids hactive he (fun heq => by rw [heq, hroom] at hr; cases hr)
        simp [hid]

omit [JsonReader] in
theorem reachable_core (hcore : isRoom active = false) :
    List.Perm
      (((all.filter fun e => e.storageId != active.storageId && sibling active e) ++
          all.filter fun e => sameCountry active e && (!isRoom e && keyOf e != keyOf active)) ++
        all.filter fun e => sameCountry active e && isRoom e)
      (all.filter (reachable active)) := by
  refine ((filter_append_filter_perm ?_).append_right _).trans ?_
  · intro e _ he
    simp only [sibling, Bool.and_eq_true, beq_iff_eq] at he
    rw [he.2.2]
    simp
  · refine (filter_append_filter_perm ?_).trans (List.Perm.of_eq (List.filter_congr ?_))
    · intro e _ he
      simp only [sibling, Bool.and_eq_true, Bool.or_eq_true, Bool.not_eq_true'] at he
      rcases he with ⟨_, hs⟩ | ⟨_, hr, _⟩
      · rw [hs.1.2, Bool.and_false]
      · rw [hr, Bool.and_false]
    · intro e he
      have hself : e.storageId ≠ active.storageId ∨ e = active := by
        by_cases hid : e.storageId = active.storageId
        · exact .inr (List.inj_on_of_nodup_map hids he hactive hid)
        · exact .inl hid
      rcases hself with hid | rfl
      · simp only [reachable, bne_iff_ne.mpr hid, Bool.true_and, Bool.or_assoc]
        cases isRoom e <;> simp
      · simp [reachable, hcore]

/-- **The candidates are one selection from the stored lines**, in some order. -/
theorem candidates_perm (lastKnownGood : Option Text) (whitelist : Bool) :
    List.Perm ((candidates active all lastKnownGood whitelist).map Step.entry)
      (all.filter (reachable active)) := by
  have hexits := otherExits_perm active hids
  rw [sameCountryExits_eq] at hexits
  cases hroom : isRoom active with
  | true =>
      simp only [candidates, hroom, if_true, List.map_append, map_entry_probe, map_entry_connect]
      rw [otherRooms_eq active all hroom, sameCountryExits_eq]
      exact (hexits.append_left _).trans (reachable_room hids hactive hroom)
  | false =>
      have hcores := (sameExit_perm hids hroom lastKnownGood).append hexits
      have hall := (hcores.append_right _).trans (reachable_core hids hactive hroom)
      simp only [candidates, hroom, Bool.false_eq_true, if_false]
      rw [olcrtcFallbacks_eq active all hroom, sameCountryExits_eq]
      cases whitelist with
      | true =>
          simp only [if_true, List.map_append, map_entry_probe, map_entry_connect]
          exact List.perm_append_comm.trans hall
      | false =>
          simp only [Bool.false_eq_true, if_false, List.map_append, map_entry_probe,
            map_entry_connect]
          exact hall

/-- **A session stays in its country and its list.** Every step is about another stored line of the
active one's list, which is a transport of the very same exit or of the same country; no line comes
twice; core lines are probed and rooms connected. -/
theorem candidates_stay (lastKnownGood : Option Text) (whitelist : Bool) :
    (∀ s ∈ candidates active all lastKnownGood whitelist,
        s.entry ∈ all ∧ s.entry ≠ active ∧ s.entry.listUrl = active.listUrl ∧
          ((isRoom active = false ∧ isRoom s.entry = false ∧
              baseName (nameOf s.entry) = baseName (nameOf active)) ∨
            ∃ c, country s.entry = some c ∧ country active = some c)) ∧
      ((candidates active all lastKnownGood whitelist).map (·.entry.storageId)).Nodup ∧
      ∀ s ∈ candidates active all lastKnownGood whitelist,
        (∃ e, s = .probe e ∧ isRoom e = false) ∨ (∃ e, s = .connect e ∧ isRoom e = true) := by
  have hperm := candidates_perm hids hactive lastKnownGood whitelist
  refine ⟨?_, ?_, ?_⟩
  · intro s hs
    have hmem := hperm.mem_iff.mp (List.mem_map_of_mem hs)
    obtain ⟨hall, hreach⟩ := List.mem_filter.mp hmem
    simp only [reachable, Bool.and_eq_true, bne_iff_ne, Bool.or_eq_true] at hreach
    obtain ⟨hid, hsel⟩ := hreach
    refine ⟨hall, fun heq => hid (by rw [heq]), ?_⟩
    rcases hsel with hsib | ⟨hsame, _⟩
    · simp only [sibling, Bool.and_eq_true, Bool.not_eq_true', beq_iff_eq] at hsib
      obtain ⟨⟨ha, he⟩, hkey⟩ := hsib
      exact ⟨congrArg Key.subscriptionUrl hkey, .inl ⟨ha, he, congrArg Key.baseName hkey⟩⟩
    · simp only [sameCountry, Bool.and_eq_true, Option.isSome_iff_exists, beq_iff_eq] at hsame
      obtain ⟨⟨⟨_, hurl⟩, c, hc⟩, hcountry⟩ := hsame
      exact ⟨hurl, .inr ⟨c, hcountry.trans hc, hc⟩⟩
  · have hnodup : ((all.filter (reachable active)).map (·.storageId)).Nodup :=
      nodup_ids_filter hids _
    have hmap := (hperm.map (·.storageId)).nodup_iff.mpr hnodup
    simpa only [List.map_map, Function.comp_def] using hmap
  · exact candidates_kind hids lastKnownGood whitelist

/-- **The lines of the country.** For an active line of a list that says its country, the candidates
are the list's other lines of that country, unless the active line is a room and a core line of the
list has the room's own base name. -/
theorem candidates_complete_iff {url c : Text} (hurl : active.listUrl = some url)
    (hcountry : country active = some c) (lastKnownGood : Option Text) (whitelist : Bool) :
    (∀ e, e ∈ (candidates active all lastKnownGood whitelist).map Step.entry ↔
        e ∈ all ∧ e ≠ active ∧ e.listUrl = active.listUrl ∧ country e = country active) ↔
      ¬ (isRoom active = true ∧
          ∃ e ∈ all, isRoom e = false ∧ e.listUrl = active.listUrl ∧
            baseName (nameOf e) = baseName (nameOf active)) := by
  have hmem : ∀ e, e ∈ (candidates active all lastKnownGood whitelist).map Step.entry ↔
      e ∈ all ∧ (e ≠ active ∧ e.listUrl = active.listUrl ∧ country e = country active) ∧
        ¬ (isRoom active = true ∧ isRoom e = false ∧ keyOf e = keyOf active) := by
    intro e
    rw [(candidates_perm hids hactive lastKnownGood whitelist).mem_iff, List.mem_filter]
    refine and_congr_right fun he => ?_
    rw [reachable_iff hurl hcountry, ← id_ne_iff hids hactive he]
    exact ⟨fun h => ⟨⟨h.1, h.2.1, h.2.2.1⟩, h.2.2.2⟩, fun h => ⟨h.1.1, h.1.2.1, h.1.2.2, h.2⟩⟩
  constructor
  · rintro hcomplete ⟨hroom, e, he, hcore, hlist, hbase⟩
    have hkey : keyOf e = keyOf active := by
      simp only [keyOf, hlist, hbase]
    have hsame : country e = country active := by
      rw [← countryOf_keyOf, ← countryOf_keyOf, hkey]
    have hne : e ≠ active := by
      rintro rfl
      rw [hroom] at hcore
      cases hcore
    exact ((hmem e).mp ((hcomplete e).mpr ⟨he, hne, hlist, hsame⟩)).2.2 ⟨hroom, hcore, hkey⟩
  · intro hnone e
    rw [hmem]
    constructor
    · rintro ⟨he, hother, _⟩
      exact ⟨he, hother⟩
    · rintro ⟨he, hother⟩
      refine ⟨he, hother, ?_⟩
      rintro ⟨hroom, hcore, hkey⟩
      exact hnone ⟨hroom, e, he, hcore, hother.2.1, congrArg Key.baseName hkey⟩

end Reachable

end Candidates

section Lines

/-- A JSON library, for lines that hold no JSON. -/
@[reducible] def noJson : JsonReader where
  parseToJsonElement := fun _ => none
  intOrNull := fun _ => none

attribute [local instance] noJson

def lineOf (id name : String) (kind : LocationKind) : LocationEntry where
  storageId := txt id
  name := txt name
  subscriptionUrl := some (txt "https://l.example")
  kind := kind

/-- A German exit over two transports, another exit and a room. -/
def german : List LocationEntry :=
  [lineOf "a" "DE Direct" .hysteria2, lineOf "b" "DE Direct · XHTTP" .trojan,
    lineOf "c" "DE via RU" .hysteria2, lineOf "d" "DE · olcRTC" .olcrtc]

theorem candidates_stay_german :
    ((candidates (lineOf "a" "DE Direct" .hysteria2) german (some (txt "b")) false).map
        (·.entry.storageId)).Nodup ∧
      candidates (lineOf "a" "DE Direct" .hysteria2) german (some (txt "b")) false =
        [.probe (lineOf "b" "DE Direct · XHTTP" .trojan),
          .probe (lineOf "c" "DE via RU" .hysteria2),
          .connect (lineOf "d" "DE · olcRTC" .olcrtc)] :=
  ⟨(candidates_stay (by decide) (by decide) (some (txt "b")) false).2.1,
    by decide⟩

theorem candidates_complete_german :
    country (lineOf "d" "DE · olcRTC" .olcrtc) = some (txt "DE") ∧
      ∀ e, e ∈ (candidates (lineOf "d" "DE · olcRTC" .olcrtc) german none false).map Step.entry ↔
        e ∈ german ∧ e ≠ lineOf "d" "DE · olcRTC" .olcrtc ∧
          e.listUrl = (lineOf "d" "DE · olcRTC" .olcrtc).listUrl ∧
          country e = country (lineOf "d" "DE · olcRTC" .olcrtc) :=
  ⟨by decide, (@candidates_complete_iff _ (lineOf "d" "DE · olcRTC" .olcrtc) german
    (by decide) (by decide) (txt "https://l.example") (txt "DE") (by decide)
    (by decide) none false).mpr (by decide)⟩

/-- A room and a core line of one base name. -/
def sameName : List LocationEntry := [lineOf "a" "DE" .hysteria2, lineOf "d" "DE · olcRTC" .olcrtc]

/-- The room's only other line of the country is no candidate. -/
theorem candidates_miss_line :
    candidates (lineOf "d" "DE · olcRTC" .olcrtc) sameName none false = [] ∧
      lineOf "a" "DE" .hysteria2 ∈ sameName ∧
      (lineOf "a" "DE" .hysteria2).listUrl = (lineOf "d" "DE · olcRTC" .olcrtc).listUrl ∧
      country (lineOf "a" "DE" .hysteria2) = some (txt "DE") ∧
      country (lineOf "d" "DE · olcRTC" .olcrtc) = some (txt "DE") :=
  ⟨by decide, by decide, by decide, by decide, by decide⟩

end Lines

end SessionFailover

end Ghostlane.App
