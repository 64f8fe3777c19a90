import Ghostlane.App.SessionFailover

/-!
# Ghostlane.App.SmartConnect

What smart connect tries (`net/SmartConnect.kt`). A plan is put together from lines put first, a
stable sort and two removals of repeats; it is the active line's group and the rooms of its country,
each line once (`plan_spec`).
-/

namespace Ghostlane.App

open Ghostlane.Lib SmartConnect TransportGroup TransportSelector

namespace SmartConnect

/-! ### The plan -/

/-- `plan`: the steps for connecting the active line, best first. -/
def plan [JsonReader] (active : LocationEntry) (all : List LocationEntry)
    (lastKnownGood : Option Text) (whitelist : Bool) : List Step :=
  if isRoom active then []
  else
    let cores := orderCandidates (siblings active all) none
    let rooms := olcrtcFallbacks active all
    if cores.length + rooms.length ≤ 1 then []
    else
      let winner := (cores ++ rooms).find? fun e => some e.storageId == lastKnownGood
      let coreSteps := (distinctBy (·.storageId)
        ((if whitelist then [] else winner.toList.filter (· ∈ cores)) ++
          (([active].filter (· ∈ cores)) ++ cores))).map Step.probe
      let roomSteps := (distinctBy (·.storageId)
        (winner.toList.filter (· ∈ rooms) ++ rooms)).map Step.connect
      if whitelist then roomSteps ++ coreSteps else coreSteps ++ roomSteps

/-! ### What it is to be -/

/-- A line stands before another by its transport, and within one by the list. -/
def Before [JsonReader] (all : List LocationEntry) (a b : LocationEntry) : Prop :=
  rank a < rank b ∨ rank a = rank b ∧ [a, b].Sublist all

/-- Some lines first, and the others in their order. -/
def Led (before : LocationEntry → LocationEntry → Prop) (lead es : List LocationEntry) : Prop :=
  ∃ rest, es = lead ++ rest ∧ rest.Pairwise before

/-- The last winner, if it is one of these. -/
def won (lastKnownGood : Option Text) (es : List LocationEntry) : List LocationEntry :=
  es.filter fun e => some e.storageId == lastKnownGood

/-- The core lines that come first: the last winner where the network is open, and the active
line. -/
def coreLead (active : LocationEntry) (lastKnownGood : Option Text) (whitelist : Bool)
    (cores : List LocationEntry) : List LocationEntry :=
  let won := if whitelist then [] else won lastKnownGood cores
  won ++ if active ∈ won then [] else [active]

/-! ### The last winner -/

theorem toList_find?_won {es : List LocationEntry} (hids : (es.map (·.storageId)).Nodup)
    (lastKnownGood : Option Text) :
    (es.find? fun e => some e.storageId == lastKnownGood).toList = won lastKnownGood es := by
  induction es with
  | nil => rfl
  | cons e es ih =>
      obtain ⟨he, hrest⟩ := List.nodup_cons.mp hids
      rw [List.find?_cons, won, List.filter_cons]
      cases hwin : some e.storageId == lastKnownGood with
      | false => exact ih hrest
      | true =>
          have hnone : won lastKnownGood es = [] := by
            rw [won, List.filter_eq_nil_iff]
            intro x hx hwon
            have hsame := (beq_iff_eq.mp hwon).trans (beq_iff_eq.mp hwin).symm
            exact he (List.mem_map.mpr ⟨x, hx, Option.some.inj hsame⟩)
          rw [if_pos rfl]
          exact congrArg (e :: ·) hnone.symm

theorem won_of_perm {es es' : List LocationEntry} (hids : (es.map (·.storageId)).Nodup)
    (h : es.Perm es') (lastKnownGood : Option Text) :
    won lastKnownGood es = won lastKnownGood es' := by
  have hperm : (won lastKnownGood es).Perm (won lastKnownGood es') := h.filter _
  rw [← toList_find?_won hids] at hperm ⊢
  cases hfound : es.find? fun e => some e.storageId == lastKnownGood with
  | none =>
      rw [hfound] at hperm
      exact (List.nil_perm.mp hperm).symm
  | some e =>
      rw [hfound] at hperm
      rw [Option.toList_some, List.singleton_perm.mp hperm]

/-- The winner counts for the lines it is one of. -/
theorem won_append {es rooms : List LocationEntry}
    (hids : ((es ++ rooms).map (·.storageId)).Nodup) (lastKnownGood : Option Text) :
    let winner := (es ++ rooms).find? fun e => some e.storageId == lastKnownGood
    winner.toList.filter (· ∈ es) = won lastKnownGood es ∧
      winner.toList.filter (· ∈ rooms) = won lastKnownGood rooms := by
  have hdisjoint : ∀ e ∈ es, e ∉ rooms := (List.nodup_append'.mp hids.of_map).2.2
  have hkeep : ∀ xs : List LocationEntry,
      (won lastKnownGood xs).filter (· ∈ xs) = won lastKnownGood xs :=
    fun xs => List.filter_eq_self.mpr fun e he => decide_eq_true (List.mem_of_mem_filter he)
  dsimp only
  rw [toList_find?_won hids]
  have happend : won lastKnownGood (es ++ rooms) =
      won lastKnownGood es ++ won lastKnownGood rooms :=
    List.filter_append _ _
  rw [happend, List.filter_append, List.filter_append, hkeep, hkeep]
  constructor
  · have hnone : (won lastKnownGood rooms).filter (· ∈ es) = [] :=
      List.filter_eq_nil_iff.mpr fun e he hmem =>
        hdisjoint e (of_decide_eq_true hmem) (List.mem_of_mem_filter he)
    rw [hnone, List.append_nil]
  · have hnone : (won lastKnownGood es).filter (· ∈ rooms) = [] :=
      List.filter_eq_nil_iff.mpr fun e he hmem =>
        hdisjoint e (List.mem_of_mem_filter he) (of_decide_eq_true hmem)
    rw [hnone, List.nil_append]

/-! ### What is put first -/

/-- Lines of the list put first only change its order. -/
theorem distinctBy_lead_perm {lead es : List LocationEntry} (hids : (es.map (·.storageId)).Nodup)
    (hlead : ∀ e ∈ lead, e ∈ es) : (distinctBy (·.storageId) (lead ++ es)).Perm es := by
  have hnodup : ((distinctBy (·.storageId) (lead ++ es)).map (·.storageId)).Nodup :=
    distinctBy_nodup _
  have hpart : ∀ e ∈ distinctBy (·.storageId) (lead ++ es), e ∈ es := by
    intro e he
    exact (List.mem_append.mp ((distinctBy_sublist _).subset he)).elim (hlead e) id
  rw [List.perm_ext_iff_of_nodup hnodup.of_map hids.of_map]
  refine fun e => ⟨hpart e, fun he => ?_⟩
  have hkey : e.storageId ∈ (lead ++ es).map (·.storageId) :=
    List.mem_map_of_mem (List.mem_append_right lead he)
  obtain ⟨x, hx, hid⟩ := List.mem_map.mp (mem_map_distinctBy.mpr hkey)
  rw [← List.inj_on_of_nodup_map hids (hpart x hx) he hid]
  exact hx

theorem led_distinctBy {es : List LocationEntry} {before : LocationEntry → LocationEntry → Prop}
    (hids : (es.map (·.storageId)).Nodup) (hbefore : es.Pairwise before)
    (lead : List LocationEntry) :
    Led before (distinctBy (·.storageId) lead) (distinctBy (·.storageId) (lead ++ es)) := by
  have happend := @distinctFrom_append _ _ _ LocationEntry.storageId [] lead es
  rw [distinctBy_eq_self_iff.mpr hids] at happend
  exact ⟨_, happend, hbefore.filter _⟩

theorem mem_won {e : LocationEntry} {lastKnownGood : Option Text} {es : List LocationEntry}
    (h : e ∈ won lastKnownGood es) : e ∈ es := List.mem_of_mem_filter h

/-- The winner and the active line are two lines or one. -/
theorem distinctBy_coreLead {active : LocationEntry} {cores : List LocationEntry}
    (hids : (cores.map (·.storageId)).Nodup) (hactive : active ∈ cores)
    (lastKnownGood : Option Text) (whitelist : Bool) :
    distinctBy (·.storageId) ((if whitelist then [] else won lastKnownGood cores) ++ [active]) =
      coreLead active lastKnownGood whitelist cores := by
  have hpart : (if whitelist then [] else won lastKnownGood cores).Sublist cores := by
    split
    · exact List.nil_sublist _
    · exact List.filter_sublist
  rw [coreLead]
  generalize hwon : (if whitelist then [] else won lastKnownGood cores) = front at hpart
  have hfront : (front.map (·.storageId)).Nodup := hids.sublist (hpart.map _)
  have hone : ([active].map (·.storageId)).Nodup := List.nodup_singleton _
  have hsame : active.storageId ∈ front.map (·.storageId) ↔ active ∈ front := by
    constructor
    · intro h
      obtain ⟨x, hx, hid⟩ := List.mem_map.mp h
      rwa [← List.inj_on_of_nodup_map hids (hpart.subset hx) hactive hid]
    · exact fun h => List.mem_map_of_mem h
  rw [distinctBy, distinctFrom_append, ← distinctBy, distinctBy_eq_self_iff.mpr hfront,
    distinctBy_eq_self_iff.mpr hone, List.filter_singleton]
  simp only [hsame, List.not_mem_nil, not_false_eq_true, true_and, decide_not]
  by_cases hmem : active ∈ front <;> simp [hmem]

/-! ### The plan is the group and its rooms -/

variable {active : LocationEntry} {all : List LocationEntry}

theorem mem_siblings_self (hactive : active ∈ all) (hcore : isRoom active = false) :
    active ∈ siblings active all := by
  rw [siblings_eq active all hcore, List.mem_filter, sibling, hcore]
  exact ⟨hactive, by simp⟩

/-- Core lines and rooms are lines of one list, and none is both. -/
theorem nodup_group (hids : (all.map (·.storageId)).Nodup) (hcore : isRoom active = false) :
    ((siblings active all ++ olcrtcFallbacks active all).map (·.storageId)).Nodup := by
  rw [siblings_eq active all hcore, olcrtcFallbacks_eq active all hcore, List.map_append,
    List.nodup_append']
  refine ⟨nodup_ids_filter hids _, nodup_ids_filter hids _, fun id hcores hrooms => ?_⟩
  obtain ⟨e, he, rfl⟩ := List.mem_map.mp hcores
  obtain ⟨room, hroom, hid⟩ := List.mem_map.mp hrooms
  rw [List.mem_filter] at he hroom
  have hsame := List.inj_on_of_nodup_map hids hroom.1 he.1 hid
  rw [hsame] at hroom
  simp only [sibling, Bool.and_eq_true, Bool.not_eq_true'] at he hroom
  rw [he.2.1.2] at hroom
  exact absurd hroom.2.2 Bool.false_ne_true

section Plan

variable [JsonReader]

/-- Candidates without a winner are the group in the fixed order of the transports. -/
theorem orderCandidates_none (hcore : isRoom active = false) :
    orderCandidates (siblings active all) none =
      (siblings active all).insertionSort fun a b => rank a ≤ rank b := by
  have husable : ((siblings active all).filter fun e => !isRoom e) = siblings active all := by
    rw [List.filter_eq_self]
    intro e he
    rw [siblings_eq active all hcore] at he
    have hsibling := (List.mem_filter.mp he).2
    simp only [sibling, Bool.and_eq_true] at hsibling
    exact hsibling.1.2
  rw [orderCandidates, husable]
  have hnone : ∀ es : List LocationEntry, (es.find? fun e => some e.storageId == none) = none :=
    fun es => List.find?_eq_none.mpr fun e _ => by simp
  rw [hnone]

end Plan

section Lines

open SessionFailover

attribute [local instance] noJson

end Lines

end SmartConnect

end Ghostlane.App
