import Ghostlane.App.Strings
import Ghostlane.Lib.Collections
import Mathlib.Algebra.BigOperators.Group.Finset.Basic
import Mathlib.Algebra.Order.Ring.Int

/-!
# Ghostlane.Desktop.TunnelTraffic

What a desktop tunnel has carried for its user (`vpn/desktop/TunnelTraffic.kt`). A sing-box tells
its totals and the flows that are open; the flows of the session's own lines are taken off the
totals, a flow that is gone at what it had moved when it was last listed.

Bytes are moved between the flows listed (`opened`), a sum of those gone (`closed`) and the most
that was answered. `Counted` says what they are together, whatever appears and goes in between: of
each own flow, once, what it was last seen with.

The JSON library that reads an answer of the API is a parameter (`ApiReader`).
-/

namespace Ghostlane.Desktop

open Ghostlane.Lib App

/-! ### Counts -/

/-- A `Long`. -/
def wrap (n : Int) : Int := n.bmod (2 ^ 64)

inductive Direction
  | received
  | sent
  deriving DecidableEq, Repr

structure Moved where
  received : Int
  sent : Int
  deriving DecidableEq, Repr

namespace Moved

def zero : Moved := ⟨0, 0⟩

def plus (a b : Moved) : Moved := ⟨wrap (a.received + b.received), wrap (a.sent + b.sent)⟩

def get (m : Moved) : Direction → Int
  | .received => m.received
  | .sent => m.sent

end Moved

/-! ### Answers of the API -/

structure Flow where
  id : Text
  download : Int
  upload : Int
  processPath : Text
  deriving DecidableEq, Repr

structure Snapshot where
  downloadTotal : Int
  uploadTotal : Int
  connections : Option (List Flow)
  deriving DecidableEq, Repr

/-- The JSON library, nothing where it throws. -/
class ApiReader where
  decode : Text → Option Snapshot

namespace Snapshot

def totals (s : Snapshot) : Moved := ⟨s.downloadTotal, s.uploadTotal⟩

def flows (s : Snapshot) : List Flow := s.connections.getD []

end Snapshot

def Flow.moved (f : Flow) : Moved := ⟨f.download, f.upload⟩

/-- `isALines`: one of these binaries, with whoever runs it in brackets behind it. -/
def isALines (ownBinaries : List Text) (program : Text) : Bool :=
  ownBinaries.any fun binary => program == binary ||
    (startsWith program binary && (
      let behind := program.drop binary.length
      2 < (behind.map units).sum && startsWith behind (txt " (") && behind.getLast? == some ')'))

/-! ### What is kept between answers -/

structure SingBoxFlows where
  /-- What each of the lines' open flows had moved at the last reading. -/
  opened : List (Text × Moved) := []
  /-- What their flows that have since closed had moved, all told. -/
  closed : Moved := .zero
  totals : Moved := .zero
  answered : Moved := .zero

/-- The lines' flows of a snapshot, by id. -/
def Snapshot.own (ownBinaries : List Text) (s : Snapshot) : List (Text × Moved) :=
  associateBy Prod.fst
    ((s.flows.filter fun f => isALines ownBinaries f.processPath).map fun f => (f.id, f.moved))

namespace SingBoxFlows

variable (ownBinaries : List Text)

/-- Less than before is another sing-box. -/
def restarted (f : SingBoxFlows) (now : Moved) : Bool :=
  now.received < f.totals.received || now.sent < f.totals.sent

/-- The flows of a snapshot, counted with those before it. -/
def count (f : SingBoxFlows) (s : Snapshot) : SingBoxFlows :=
  let own := s.own ownBinaries
  let gone := f.opened.filter fun p => p.1 ∉ own.map Prod.fst
  let closed := gone.foldl (fun c p => c.plus p.2) f.closed
  let theirs := own.foldl (fun t p => t.plus p.2) closed
  { opened := own, closed, totals := s.totals
    answered := ⟨max f.answered.received (wrap (s.totals.received - theirs.received)),
      max f.answered.sent (wrap (s.totals.sent - theirs.sent))⟩ }

def take (f : SingBoxFlows) (s : Snapshot) : SingBoxFlows :=
  (if f.restarted s.totals then {} else f).count ownBinaries s

/-- `carried`: takes one answer of the API, and says what the tunnel has carried; nothing for an
answer that cannot be read. -/
def carried [ApiReader] (f : SingBoxFlows) (connections : Text) : SingBoxFlows × Option Moved :=
  match ApiReader.decode connections with
  | none => (f, none)
  | some s => (f.take ownBinaries s, some (f.take ownBinaries s).answered)

/-- After a run of answers. -/
def after [ApiReader] (answers : List Text) : SingBoxFlows :=
  answers.foldl (fun f connections => (f.carried ownBinaries connections).1) {}

end SingBoxFlows

/-! ### What it is to say -/

/-- A total is less than it was. -/
def Snapshot.below (s before : Snapshot) : Bool :=
  s.downloadTotal < before.downloadTotal || s.uploadTotal < before.uploadTotal

/-- The snapshots of the sing-box that answers now: less than before begins them anew. -/
def since (era : List Snapshot) (s : Snapshot) : List Snapshot :=
  match era.getLast? with
  | none => [s]
  | some before => if s.below before then [s] else era ++ [s]

def era (snapshots : List Snapshot) : List Snapshot := snapshots.foldl since []

section Spec

variable (ownBinaries : List Text)

/-- The own flows of a history. -/
def seen (era : List Snapshot) : Finset Text :=
  (era.flatMap fun s => (s.own ownBinaries).map Prod.fst).toFinset

/-- What an own flow had moved when it was last seen. -/
def lastSeen (era : List Snapshot) (id : Text) : Moved :=
  (era.reverse.findSome? fun s => (s.own ownBinaries).lookup id).getD .zero

/-- The last total of a history, less what the own flows moved. -/
def net (d : Direction) (era : List Snapshot) : Int :=
  match era.getLast? with
  | none => 0
  | some s => s.totals.get d - ∑ id ∈ seen ownBinaries era, (lastSeen ownBinaries era id).get d

/-- The largest of these over the beginnings of a history. -/
def most (d : Direction) (era : List Snapshot) : Int :=
  (era.inits.map (net ownBinaries d)).foldl max 0

/-- The snapshots of one sing-box. -/
structure OneSingBox (era : List Snapshot) : Prop where
  /-- An id names one flow. -/
  ids : ∀ s ∈ era, (s.flows.map Flow.id).Nodup
  program : ∀ s ∈ era, ∀ t ∈ era, ∀ f ∈ s.flows, ∀ g ∈ t.flows, f.id = g.id →
    f.processPath = g.processPath
  /-- A flow is listed as long as it is open. -/
  listed : ∀ a b c, [a, b, c].Sublist era → ∀ id ∈ a.flows.map Flow.id,
    id ∈ c.flows.map Flow.id → id ∈ b.flows.map Flow.id
  /-- What it has carried is a `Long`. -/
  fits : ∀ part ∈ era.inits, ∀ d, -2 ^ 63 ≤ net ownBinaries d part ∧ net ownBinaries d part < 2 ^ 63

end Spec

/-! ### Own flows -/

section Own

variable {ownBinaries : List Text}

theorem nodup_own (s : Snapshot) : ((s.own ownBinaries).map Prod.fst).Nodup := associateBy_nodup _

/-- The own flows, one by one. -/
theorem mem_own {s : Snapshot} (h : (s.flows.map Flow.id).Nodup) {p : Text × Moved} :
    p ∈ s.own ownBinaries ↔
      ∃ f ∈ s.flows, isALines ownBinaries f.processPath = true ∧ p = (f.id, f.moved) := by
  have hkeys : (((s.flows.filter fun f => isALines ownBinaries f.processPath).map
      fun f => (f.id, f.moved)).map Prod.fst).Nodup := by
    rw [List.map_map]
    exact h.sublist (List.filter_sublist.map _)
  rw [Snapshot.own, associateBy_eq_self hkeys, List.mem_map]
  constructor
  · rintro ⟨f, hf, rfl⟩
    obtain ⟨hf, hown⟩ := List.mem_filter.mp hf
    exact ⟨f, hf, hown, rfl⟩
  · rintro ⟨f, hf, hown, rfl⟩
    exact ⟨f, List.mem_filter.mpr ⟨hf, hown⟩, rfl⟩

theorem mem_seen {era : List Snapshot} {id : Text} :
    id ∈ seen ownBinaries era ↔ ∃ s ∈ era, id ∈ (s.own ownBinaries).map Prod.fst := by
  rw [seen, List.mem_toFinset, List.mem_flatMap]

theorem seen_concat (era : List Snapshot) (s : Snapshot) : seen ownBinaries (era ++ [s]) =
    seen ownBinaries era ∪ ((s.own ownBinaries).map Prod.fst).toFinset := by
  rw [seen, List.flatMap_append, List.toFinset_append, List.flatMap_singleton]
  rfl

theorem lastSeen_concat_of_mem {era : List Snapshot} {s : Snapshot} {p : Text × Moved}
    (h : p ∈ s.own ownBinaries) : lastSeen ownBinaries (era ++ [s]) p.1 = p.2 := by
  have hlookup : (s.own ownBinaries).lookup p.1 = some p.2 := by
    obtain ⟨front, back, hsplit⟩ := List.append_of_mem h
    refine List.lookup_eq_some_iff.mpr ⟨front, back, hsplit, fun q hq => bne_iff_ne.mpr ?_⟩
    have hkeys : ((s.own ownBinaries).map Prod.fst).Nodup := nodup_own s
    rw [hsplit, List.map_append, List.nodup_append'] at hkeys
    intro heq
    exact hkeys.2.2 (List.mem_map_of_mem hq) (heq ▸ List.mem_cons_self)
  rw [lastSeen, List.reverse_append, List.reverse_singleton, List.singleton_append,
    List.findSome?_cons, hlookup]
  rfl

theorem lastSeen_concat_of_notMem {era : List Snapshot} {s : Snapshot} {id : Text}
    (h : id ∉ (s.own ownBinaries).map Prod.fst) :
    lastSeen ownBinaries (era ++ [s]) id = lastSeen ownBinaries era id := by
  have hlookup : (s.own ownBinaries).lookup id = none :=
    List.lookup_eq_none_iff.mpr fun p hp => bne_iff_ne.mpr fun heq =>
      h (heq ▸ List.mem_map_of_mem hp)
  rw [lastSeen, List.reverse_append, List.reverse_singleton, List.singleton_append,
    List.findSome?_cons, hlookup]
  rfl

/-- An own flow that is listed again was listed just before. -/
theorem own_of_seen {era : List Snapshot} {before s : Snapshot}
    (hone : OneSingBox ownBinaries (era ++ [before] ++ [s])) {id : Text}
    (hseen : id ∈ seen ownBinaries (era ++ [before])) (hs : id ∈ (s.own ownBinaries).map Prod.fst) :
    id ∈ (before.own ownBinaries).map Prod.fst := by
  obtain ⟨first, hfirst, hid⟩ := mem_seen.mp hseen
  rcases List.mem_append.mp hfirst with hearlier | hlast
  · have hall : ∀ t ∈ era ++ [before], t ∈ era ++ [before] ++ [s] :=
      fun t ht => List.mem_append_left [s] ht
    have hbefore : before ∈ era ++ [before] := List.mem_append_right era List.mem_cons_self
    have hsmem : s ∈ era ++ [before] ++ [s] := List.mem_append_right _ List.mem_cons_self
    have hthree : [first, before, s].Sublist (era ++ [before] ++ [s]) :=
      ((List.singleton_sublist.mpr hearlier).append (List.Sublist.refl [before])).append
        (List.Sublist.refl [s])
    obtain ⟨p, hp, rfl⟩ := List.mem_map.mp hid
    obtain ⟨f, hf, hown, rfl⟩ := (mem_own (hone.ids first (hall first hfirst))).mp hp
    obtain ⟨q, hq, hsame⟩ := List.mem_map.mp hs
    obtain ⟨g, hg, -, rfl⟩ := (mem_own (hone.ids s hsmem)).mp hq
    have hg' : f.id ∈ s.flows.map Flow.id := List.mem_map.mpr ⟨g, hg, hsame⟩
    obtain ⟨k, hk, hkid⟩ := List.mem_map.mp
      (hone.listed first before s hthree f.id (List.mem_map_of_mem hf) hg')
    have hprogram := hone.program first (hall first hfirst) before (hall before hbefore) f hf k hk
      hkid.symm
    refine List.mem_map.mpr ⟨(k.id, k.moved), ?_, hkid⟩
    exact (mem_own (hone.ids before (hall before hbefore))).mpr ⟨k, hk, hprogram ▸ hown, rfl⟩
  · rwa [List.mem_singleton.mp hlast] at hid

end Own

/-! ### Sums of counts -/

section Sums

theorem get_plus (a b : Moved) (d : Direction) : (a.plus b).get d = wrap (a.get d + b.get d) := by
  cases d <;> rfl

theorem get_foldl_plus {d : Direction} (l : List (Text × Moved)) {c : Moved} {x : Int}
    (hc : c.get d = wrap x) :
    (l.foldl (fun t p => t.plus p.2) c).get d = wrap (x + (l.map fun p => p.2.get d).sum) := by
  induction l generalizing c x with
  | nil => rw [List.foldl_nil, List.map_nil, List.sum_nil, add_zero, hc]
  | cons p l ih =>
      have hnext : (c.plus p.2).get d = wrap (x + p.2.get d) := by
        rw [get_plus, hc, wrap, wrap, Int.bmod_add_bmod, wrap]
      rw [List.foldl_cons, ih hnext, List.map_cons, List.sum_cons, add_assoc]

/-- A sum over listed flows, by what each was last seen with. -/
theorem sum_listed {l : List (Text × Moved)} (hkeys : (l.map Prod.fst).Nodup) {g : Text → Moved}
    (hl : ∀ p ∈ l, g p.1 = p.2) (d : Direction) :
    (l.map fun p => p.2.get d).sum = ∑ id ∈ (l.map Prod.fst).toFinset, (g id).get d := by
  rw [List.sum_toFinset _ hkeys, List.map_map]
  refine congrArg List.sum (List.map_congr_left fun p hp => ?_)
  rw [Function.comp_apply, hl p hp]

end Sums

/-! ### What is kept is what was seen -/

variable {ownBinaries : List Text}

/-- Between two answers: the flows listed, and in one sum those that are gone. -/
structure Counted (ownBinaries : List Text) (era : List Snapshot) (f : SingBoxFlows) : Prop where
  opened : f.opened = (era.getLast?.map (Snapshot.own ownBinaries)).getD []
  closed : ∀ d, f.closed.get d =
    wrap (∑ id ∈ seen ownBinaries era \ (f.opened.map Prod.fst).toFinset,
      (lastSeen ownBinaries era id).get d)
  answered : ∀ d, f.answered.get d = most ownBinaries d era

theorem counted_nothing : Counted ownBinaries [] {} where
  opened := rfl
  closed d := by cases d <;> rfl
  answered d := by cases d <;> rfl

theorem most_concat (d : Direction) (era : List Snapshot) (s : Snapshot) :
    most ownBinaries d (era ++ [s]) =
      max (most ownBinaries d era) (net ownBinaries d (era ++ [s])) := by
  have hinits : (era ++ [s]).inits = era.inits ++ [era ++ [s]] := by
    rw [List.inits_append]
    rfl
  rw [most, hinits, List.map_append, List.foldl_append]
  rfl

/-- The flows listed are of those seen, each with what it has moved. -/
theorem Counted.listed {era : List Snapshot} {f : SingBoxFlows} (h : Counted ownBinaries era f)
    {s : Snapshot} (hone : OneSingBox ownBinaries (era ++ [s])) :
    (f.opened.map Prod.fst).Nodup ∧ (∀ p ∈ f.opened, lastSeen ownBinaries era p.1 = p.2) ∧
      (f.opened.map Prod.fst).toFinset ⊆ seen ownBinaries era ∧
      ∀ id ∈ seen ownBinaries era, id ∈ (s.own ownBinaries).map Prod.fst →
        id ∈ f.opened.map Prod.fst := by
  rw [h.opened]
  rcases List.eq_nil_or_concat' era with rfl | ⟨era, before, rfl⟩
  · refine ⟨List.nodup_nil, fun p hp => absurd hp List.not_mem_nil, Finset.empty_subset _, ?_⟩
    intro id hid
    obtain ⟨t, ht, -⟩ := mem_seen.mp hid
    cases ht
  · rw [List.getLast?_concat, Option.map_some, Option.getD_some]
    refine ⟨nodup_own before, fun p hp => lastSeen_concat_of_mem hp, ?_, fun id => own_of_seen hone⟩
    rw [seen_concat]
    exact Finset.subset_union_right

/-- **One snapshot** moves what is gone into the sum, and keeps what is left. -/
theorem Counted.count {era : List Snapshot} {f : SingBoxFlows} (h : Counted ownBinaries era f)
    {s : Snapshot} (hone : OneSingBox ownBinaries (era ++ [s])) :
    Counted ownBinaries (era ++ [s]) (f.count ownBinaries s) := by
  obtain ⟨hnodup, hlast, hsub, hagain⟩ := h.listed hone
  have hclosed : ∀ d, (f.count ownBinaries s).closed.get d =
      wrap (∑ id ∈ seen ownBinaries (era ++ [s]) \ ((s.own ownBinaries).map Prod.fst).toFinset,
        (lastSeen ownBinaries (era ++ [s]) id).get d) := by
    intro d
    have hkeys : ((f.opened.filter fun p => p.1 ∉ (s.own ownBinaries).map Prod.fst).map
        Prod.fst).Nodup := hnodup.sublist (List.filter_sublist.map _)
    have hsum := sum_listed hkeys (fun p hp => hlast p (List.mem_of_mem_filter hp)) d
    have hfold := get_foldl_plus (f.opened.filter fun p => p.1 ∉ (s.own ownBinaries).map Prod.fst)
      (h.closed d)
    have hfiltered : ∀ id, id ∈ ((f.opened.filter fun p =>
        p.1 ∉ (s.own ownBinaries).map Prod.fst).map Prod.fst).toFinset ↔
          id ∈ f.opened.map Prod.fst ∧ id ∉ (s.own ownBinaries).map Prod.fst := by
      intro id
      rw [List.mem_toFinset]
      constructor
      · intro hid
        obtain ⟨p, hp, rfl⟩ := List.mem_map.mp hid
        obtain ⟨hp, hnot⟩ := List.mem_filter.mp hp
        exact ⟨List.mem_map_of_mem hp, of_decide_eq_true hnot⟩
      · rintro ⟨hid, hnot⟩
        obtain ⟨p, hp, rfl⟩ := List.mem_map.mp hid
        exact List.mem_map_of_mem (List.mem_filter.mpr ⟨hp, decide_eq_true hnot⟩)
    have hapart : Disjoint (seen ownBinaries era \ (f.opened.map Prod.fst).toFinset)
        ((f.opened.filter fun p => p.1 ∉ (s.own ownBinaries).map Prod.fst).map
          Prod.fst).toFinset := by
      rw [Finset.disjoint_left]
      intro id hid hopen
      rw [Finset.mem_sdiff, List.mem_toFinset] at hid
      exact hid.2 ((hfiltered id).mp hopen).1
    rw [hsum, ← Finset.sum_union hapart] at hfold
    refine hfold.trans (congrArg wrap (Finset.sum_congr ?_ fun id hid => ?_))
    · -- Those seen before and not listed now: gone already, or gone since.
      ext id
      rw [Finset.mem_union, hfiltered, Finset.mem_sdiff, Finset.mem_sdiff, List.mem_toFinset,
        List.mem_toFinset, seen_concat, Finset.mem_union, List.mem_toFinset]
      constructor
      · rintro (⟨hid, hopen⟩ | ⟨hopen, hnot⟩)
        · exact ⟨.inl hid, fun hagain' => hopen (hagain id hid hagain')⟩
        · exact ⟨.inl (hsub (List.mem_toFinset.mpr hopen)), hnot⟩
      · rintro ⟨hid, hnot⟩
        have hid := hid.resolve_right hnot
        by_cases hopen : id ∈ f.opened.map Prod.fst
        · exact .inr ⟨hopen, hnot⟩
        · exact .inl ⟨hid, hopen⟩
    · rw [Finset.mem_sdiff, List.mem_toFinset] at hid
      rw [lastSeen_concat_of_notMem hid.2]
  refine ⟨?_, hclosed, fun d => ?_⟩
  · rw [List.getLast?_concat]
    rfl
  · have hpart : ((s.own ownBinaries).map Prod.fst).toFinset ⊆ seen ownBinaries (era ++ [s]) := by
      rw [seen_concat]
      exact Finset.subset_union_right
    have htheirs := get_foldl_plus (s.own ownBinaries) (hclosed d)
    have hlisted : ∀ p ∈ s.own ownBinaries, lastSeen ownBinaries (era ++ [s]) p.1 = p.2 :=
      fun p hp => lastSeen_concat_of_mem hp
    rw [sum_listed (nodup_own s) hlisted d, Finset.sum_sdiff hpart] at htheirs
    have hfits := hone.fits (era ++ [s]) ((List.mem_inits _ _).mpr (List.prefix_rfl)) d
    have hnet : net ownBinaries d (era ++ [s]) = s.totals.get d -
        ∑ id ∈ seen ownBinaries (era ++ [s]), (lastSeen ownBinaries (era ++ [s]) id).get d := by
      rw [net, List.getLast?_concat]
    have hanswer : (f.count ownBinaries s).answered.get d = max (f.answered.get d)
        (wrap (s.totals.get d - ((s.own ownBinaries).foldl (fun t p => t.plus p.2)
          (f.count ownBinaries s).closed).get d)) := by
      cases d <;> rfl
    rw [hanswer, htheirs, h.answered, most_concat, wrap, wrap, Int.sub_bmod_bmod, ← hnet,
      Int.bmod_eq_of_le_mul_two (by omega) (by omega)]

/-! ### Runs -/

theorem OneSingBox.before {era : List Snapshot} {s : Snapshot}
    (h : OneSingBox ownBinaries (era ++ [s])) : OneSingBox ownBinaries era where
  ids t ht := h.ids t (List.mem_append_left [s] ht)
  program t ht u hu := h.program t (List.mem_append_left [s] ht) u (List.mem_append_left [s] hu)
  listed a b c habc := h.listed a b c (habc.trans (List.sublist_append_left era [s]))
  fits part hpart := h.fits part ((List.mem_inits _ _).mpr
    (((List.mem_inits _ _).mp hpart).trans (List.prefix_append era [s])))

theorem era_concat (snapshots : List Snapshot) (s : Snapshot) :
    era (snapshots ++ [s]) = since (era snapshots) s := by
  rw [era, List.foldl_append]
  rfl

theorem getLast?_era (snapshots : List Snapshot) :
    (era snapshots).getLast? = snapshots.getLast? := by
  rcases List.eq_nil_or_concat' snapshots with rfl | ⟨front, s, rfl⟩
  · rfl
  · rw [era_concat, since, List.getLast?_concat]
    split
    · rfl
    · split
      · rfl
      · exact List.getLast?_concat

/-- After a run of snapshots. -/
def SingBoxFlows.run (ownBinaries : List Text) (snapshots : List Snapshot) : SingBoxFlows :=
  snapshots.foldl (fun f s => f.take ownBinaries s) {}

theorem run_concat (snapshots : List Snapshot) (s : Snapshot) :
    SingBoxFlows.run ownBinaries (snapshots ++ [s]) =
      (SingBoxFlows.run ownBinaries snapshots).take ownBinaries s := by
  rw [SingBoxFlows.run, List.foldl_append]
  rfl

theorem totals_run (snapshots : List Snapshot) : (SingBoxFlows.run ownBinaries snapshots).totals =
    (snapshots.getLast?.map Snapshot.totals).getD .zero := by
  rcases List.eq_nil_or_concat' snapshots with rfl | ⟨front, s, rfl⟩
  · rfl
  · rw [run_concat, List.getLast?_concat]
    rfl

/-- **Every run** counts what the sing-box that answers now has said. -/
theorem counted_run {snapshots : List Snapshot} (h : OneSingBox ownBinaries (era snapshots)) :
    Counted ownBinaries (era snapshots) (SingBoxFlows.run ownBinaries snapshots) := by
  induction snapshots using List.reverseRecOn with
  | nil => exact counted_nothing
  | append_singleton front s ih =>
      have htotals : (SingBoxFlows.run ownBinaries front).totals = _ := totals_run front
      rw [run_concat, SingBoxFlows.take]
      rw [era_concat, since, getLast?_era] at h ⊢
      cases hlast : front.getLast? with
      | none =>
          have hfront : front = [] := List.getLast?_eq_none_iff.mp hlast
          rw [hlast] at h
          rw [hfront, show SingBoxFlows.run ownBinaries [] = {} from rfl, ite_self]
          exact counted_nothing.count h
      | some before =>
          rw [hlast] at h
          rw [hlast] at htotals
          have hrestarted : (SingBoxFlows.run ownBinaries front).restarted s.totals =
              s.below before := by
            rw [SingBoxFlows.restarted, htotals]
            rfl
          rw [hrestarted]
          cases hless : s.below before with
          | true =>
              dsimp only at h ⊢
              rw [hless] at h ⊢
              exact counted_nothing.count h
          | false =>
              dsimp only at h ⊢
              rw [hless] at h ⊢
              exact (ih h.before).count h

section Answers

variable [ApiReader]

theorem after_eq_run (answers : List Text) : SingBoxFlows.after ownBinaries answers =
    SingBoxFlows.run ownBinaries (answers.filterMap ApiReader.decode) := by
  induction answers using List.reverseRecOn with
  | nil => rfl
  | append_singleton front connections ih =>
      rw [SingBoxFlows.after, List.foldl_append, ← SingBoxFlows.after, ih, List.filterMap_append,
        List.foldl_cons, List.foldl_nil, SingBoxFlows.carried]
      cases hread : ApiReader.decode connections with
      | none => rw [List.filterMap_cons_none hread, List.filterMap_nil, List.append_nil]
      | some s => rw [List.filterMap_cons_some hread, List.filterMap_nil, run_concat]

/-- **What a tunnel is said to have carried** after any answers: in each direction, of the sing-box
that answers now, the most that a total was ahead of what its own flows had moved by then, each as
it was last seen. An answer that cannot be read changes nothing, and no answer is less than the one
before while the totals do not drop. -/
theorem carried_spec (ownBinaries answers : List Text) (connections : Text) :
    let f := SingBoxFlows.after ownBinaries answers
    (ApiReader.decode connections = none → f.carried ownBinaries connections = (f, none)) ∧
      ∀ s, ApiReader.decode connections = some s →
        let now := era ((answers ++ [connections]).filterMap ApiReader.decode)
        (OneSingBox ownBinaries now → (f.carried ownBinaries connections).2 =
          some ⟨most ownBinaries .received now, most ownBinaries .sent now⟩) ∧
        (f.restarted s.totals = false →
          ∀ d, f.answered.get d ≤ (f.carried ownBinaries connections).1.answered.get d) := by
  dsimp only
  refine ⟨fun hread => by rw [SingBoxFlows.carried, hread], fun s hread => ⟨fun hone => ?_, ?_⟩⟩
  · rw [List.filterMap_append, List.filterMap_cons_some hread, List.filterMap_nil] at hone ⊢
    have hcounted := counted_run hone
    rw [run_concat, ← after_eq_run] at hcounted
    rw [SingBoxFlows.carried, hread, ← hcounted.answered, ← hcounted.answered]
    rfl
  · intro hsame d
    have htake : (SingBoxFlows.after ownBinaries answers).take ownBinaries s =
        (SingBoxFlows.after ownBinaries answers).count ownBinaries s := by
      rw [SingBoxFlows.take, hsame]
      rfl
    rw [SingBoxFlows.carried, hread]
    dsimp only
    rw [htake]
    cases d <;> exact le_max_left _ _

end Answers

section

/-- A flow of the app's own line, and none. -/
def twoSnapshots : List Snapshot :=
  [⟨100, 10, some [⟨txt "a", 40, 4, txt "/bin/line (me)"⟩]⟩, ⟨150, 15, none⟩]

def firstAnswer : Text :=
  txt "\x7b\"downloadTotal\":100,\"uploadTotal\":10,\"connections\":[\x7b\"id\":\"a\"," ++
    txt "\"download\":40,\"upload\":4,\"metadata\":\x7b\"processPath\":" ++
    txt "\"/bin/line (me)\"\x7d\x7d]\x7d"

def secondAnswer : Text := txt "\x7b\"downloadTotal\":150,\"uploadTotal\":15\x7d"

local instance : ApiReader where
  decode t := ([firstAnswer, secondAnswer].zip twoSnapshots).lookup t

theorem oneSingBox_twoSnapshots : OneSingBox [txt "/bin/line"] twoSnapshots where
  ids := by decide
  program := by decide
  listed a b c habc := by
    have hlength := habc.length_le
    exact absurd hlength (by simp [twoSnapshots])
  fits := by
    have hall : ∀ part ∈ twoSnapshots.inits, ∀ d ∈ [Direction.received, .sent],
        -2 ^ 63 ≤ net [txt "/bin/line"] d part ∧ net [txt "/bin/line"] d part < 2 ^ 63 := by
      decide
    intro part hpart d
    refine hall part hpart d ?_
    cases d <;> decide

/-- The flow that is gone is still taken off. -/
theorem carried_spec_two : ((SingBoxFlows.after [txt "/bin/line"] [firstAnswer]).carried
    [txt "/bin/line"] secondAnswer).2 = some ⟨110, 11⟩ := by
  have hera : era (([firstAnswer] ++ [secondAnswer]).filterMap ApiReader.decode) =
      twoSnapshots := by
    decide
  have h := ((carried_spec [txt "/bin/line"] [firstAnswer] secondAnswer).2 ⟨150, 15, none⟩
    (by decide)).1
  rw [hera] at h
  exact (h oneSingBox_twoSnapshots).trans (by decide)

end

end Ghostlane.Desktop
