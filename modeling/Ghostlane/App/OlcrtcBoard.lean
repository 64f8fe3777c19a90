import Ghostlane.App.RoutingRule
import Ghostlane.Lib.Runs
import Ghostlane.Lib.Since
import Mathlib.Data.Finset.Basic
import Mathlib.Data.List.DropRight

/-!
# Ghostlane.App.OlcrtcBoard

What the board says of the olcRTC rooms: how many seats are taken, how that went lately, and which
keys are no longer valid (`LocationViewModel.refreshOlcrtcSlots`, `OlcrtcProbePlan.kt`,
`net/OlcrtcStatus.kt`). A pass asks the coordinator about the rooms one by one, and what it was told
is put on the board when it has asked about the last.

A new pass cancels the one under way. The cancelled one does not end there: what its next request
throws is caught as any failure is, so it goes through its rooms and puts what it has on the board
all the same. Any number of passes are on their way here, and each is answered when the schedule
says so.
-/

namespace Ghostlane.App.OlcrtcBoard

open Ghostlane.Lib

/-! ### The coordinator's answers -/

/-- How full a node is, and whether this key is one of the occupants. -/
structure OlcrtcSlots where
  slotsTotal : Int
  slotsFree : Int
  holdsSlot : Bool := false
  deriving DecidableEq, Repr

/-- `it.isDigit() || it in 'a'..'f'`. A digit of any script is one. -/
def isKeyDigit (c : Char) : Bool := (digitOf 10 c).isSome || ('a' ≤ c && c ≤ 'f')

/-- The bytes of a key, or nothing for what is no key. -/
def keyBytes (keyHex : Text) : Option (List Nat) :=
  let hex := lowercase (trim keyHex)
  if hex.length ≠ 64 ∨ !hex.all isKeyDigit then none
  else some ((List.range 32).map fun i =>
    ((hex[i * 2]?.bind (digitOf 16)).getD 0) * 16 + ((hex[i * 2 + 1]?.bind (digitOf 16)).getD 0))

/-- What comes of a request: nothing, or a status with what its body is read as. -/
inductive Reply
  | failed
  | response (status : Nat) (body : Option OlcrtcSlots)
  deriving DecidableEq, Repr

inductive NodeStatus
  | occupancy (slots : OlcrtcSlots)
  /-- The coordinator does not recognise this key. -/
  | keyGone
  | unavailable
  deriving DecidableEq, Repr

/-- A key that is none is not asked about. -/
def statusFor (keyHex : Text) (reply : Reply) : NodeStatus :=
  match keyBytes keyHex, reply with
  | none, _ | _, .failed => .unavailable
  | some _, .response status body =>
      if status = 200 then (body.map .occupancy).getD .unavailable
      else if status = 404 then .keyGone
      else .unavailable

/-! ### The plan of a pass -/

structure LocationItem where
  storageId : Text
  config : Option LocationConfig := none
  subscriptionUrl : Option Text := none
  deriving DecidableEq, Repr

def target (item : LocationItem) : Option (Text × Text) := do
  let config ← item.config
  guard (config.kind = .olcrtc)
  guard (!isNullOrBlank item.subscriptionUrl)
  let key ← nonBlank config.key
  return (item.storageId, key)

/-- The rooms with a key that came from a list. -/
def targets (locations : List LocationItem) : List (Text × Text) := locations.filterMap target

def hostOf (url : Text) : Option Text :=
  let afterScheme := (RoutingRule.substringAfter.go (txt "://") url).getD []
  if afterScheme = [] then none
  else
    let authority := substringBefore '?' (substringBefore '/' afterScheme)
    nonBlank (substringBefore ':' (RoutingRule.substringAfterLast '@' authority))

/-- `equals(_, ignoreCase = true)` of a character and one of ASCII: beside its two cases, `ſ` is an
`s`, the kelvin sign a `k`, and the dotted and the dotless letter an `i`. -/
def sameCaseless (a b : Char) : Bool :=
  a.toLower == b.toLower || (a.toNat == 0x17F && b.toLower == 's') ||
    (a.toNat == 0x212A && b.toLower == 'k') ||
    ((a.toNat == 0x130 || a.toNat == 0x131) && b.toLower == 'i')

def equalsCaseless (t host : Text) : Bool :=
  t.length == host.length && (t.zip host).all fun (a, b) => sameCaseless a b

def defaultBaseUrl : Text := txt "https://proofkit.org"

def isRevocable (coordinator : Text) (item : LocationItem) : Bool :=
  match item.subscriptionUrl.bind nonBlank with
  | none => false
  | some subscription => (hostOf subscription).any (equalsCaseless · coordinator)

/-- Those whose `404` is a revocation: rooms from a list of the coordinator's own host. -/
def revocable (locations : List LocationItem) (coordinatorBaseUrl : Text) : Finset Text :=
  match hostOf coordinatorBaseUrl with
  | none => ∅
  | some coordinator =>
      ((locations.filter (isRevocable coordinator)).map LocationItem.storageId).toFinset

def nextRevoked (previous probed alive gone : Finset Text) : Finset Text :=
  (previous ∩ probed) \ alive ∪ gone

/-! ### Passes -/

/-- A pass on its way: what it has been told, and the rooms still to ask about. -/
structure Pass where
  locations : List LocationItem
  rest : List (Text × Text)
  fetched : Text → Option OlcrtcSlots := fun _ => none
  gone : Finset Text := ∅
  alive : Finset Text := ∅
  /-- Every answer it had, for what is said of it below. -/
  told : List (Text × NodeStatus) := []

namespace Pass

def begun (locations : List LocationItem) : Pass := { locations, rest := targets locations }

def revocable (p : Pass) : Finset Text := OlcrtcBoard.revocable p.locations defaultBaseUrl

def probed (p : Pass) : Finset Text := ((targets p.locations).map Prod.fst).toFinset ∩ p.revocable

/-- One turn of the loop. -/
def hear (p : Pass) (storageId : Text) (status : NodeStatus) (rest : List (Text × Text)) : Pass :=
  let p := { p with rest, told := p.told ++ [(storageId, status)] }
  match status with
  | .occupancy slots =>
      { p with
        fetched := Function.update p.fetched storageId (some slots)
        alive := insert storageId p.alive }
  | .keyGone => if storageId ∈ p.revocable then { p with gone := insert storageId p.gone } else p
  | .unavailable => p

end Pass

/-! ### The board -/

def occupancyHistoryLimit : Nat := 16

-- How full a node was, as a number the trace draws.
variable {ρ : Type} (sample : OlcrtcSlots → ρ)

def appendOccupancy (history : Option (List ρ)) (slots : OlcrtcSlots) : List ρ :=
  (history.getD [] ++ [sample slots]).rtake occupancyHistoryLimit

structure Board (ρ : Type) where
  slots : Text → Option OlcrtcSlots := fun _ => none
  history : Text → Option (List ρ) := fun _ => none
  revoked : Finset Text := ∅

/-- What a pass that has asked about its last room puts on the board. -/
def Board.after (b : Board ρ) (p : Pass) : Board ρ where
  revoked := nextRevoked b.revoked p.probed p.alive p.gone
  slots := fun id => (p.fetched id).or (b.slots id)
  history := fun id => match p.fetched id with
    | some slots => some (appendOccupancy sample (b.history id) slots)
    | none => b.history id

structure Sys (ρ : Type) where
  board : Board ρ := {}
  flight : List Pass := []
  /-- The passes that are through, in that order. -/
  finished : List Pass := []

inductive Event
  /-- The screen's tick, a change of the connection, or locations that were loaded. -/
  | refreshOlcrtcSlots (locations : List LocationItem)
  /-- The coordinator answers the pass at this place. -/
  | answered (pass : Nat) (reply : Reply)

/-- A pass after an answer: on its way to the next room, or through. -/
def Sys.put (s : Sys ρ) (i : Nat) (p : Pass) : Sys ρ :=
  if p.rest = [] then
    { board := s.board.after sample p
      flight := s.flight.eraseIdx i
      finished := s.finished ++ [p] }
  else { s with flight := s.flight.set i p }

def step (s : Sys ρ) : Event → Option (Sys ρ)
  | .refreshOlcrtcSlots locations =>
      some (if targets locations = [] then s
        else { s with flight := s.flight ++ [Pass.begun locations] })
  | .answered i reply =>
      match s.flight[i]? with
      | none => none
      | some p => match p.rest with
        | [] => none
        | (storageId, key) :: rest =>
            some (s.put sample i (p.hear storageId (statusFor key reply) rest))

/-! ### What a pass has by its answers -/

/-- The seats an answer counts for a room. -/
def seatsOf (id : Text) : Text × NodeStatus → Option OlcrtcSlots
  | (room, .occupancy slots) => if room = id then some slots else none
  | (_, .keyGone) | (_, .unavailable) => none

/-- An answer to the question about a room, which came while the board was shown. -/
def Answers (es : List Event) (room : Text × Text) (answer : Text × NodeStatus) : Prop :=
  answer.1 = room.1 ∧ ∃ i reply, .answered i reply ∈ es ∧ answer.2 = statusFor room.2 reply

/-- A pass was begun with its locations, has asked about the rooms of its plan one after the other,
and holds what it was told. -/
structure Pass.Sound (es : List Event) (p : Pass) : Prop where
  begun : .refreshOlcrtcSlots p.locations ∈ es
  asked : ∃ asked, targets p.locations = asked ++ p.rest ∧ List.Forall₂ (Answers es) asked p.told
  fetched : ∀ id, p.fetched id = lastSaid (seatsOf id) p.told
  alive : ∀ id, id ∈ p.alive ↔ ∃ slots, (id, .occupancy slots) ∈ p.told
  gone : ∀ id, id ∈ p.gone ↔ (id, .keyGone) ∈ p.told ∧ id ∈ p.revocable

theorem sound_begun {es : List Event} {locations : List LocationItem}
    (h : .refreshOlcrtcSlots locations ∈ es) : (Pass.begun locations).Sound es where
  begun := h
  asked := ⟨[], rfl, .nil⟩
  fetched := fun _ => rfl
  alive := by simp [Pass.begun]
  gone := by simp [Pass.begun]

@[simp] theorem Pass.hear_locations (p : Pass) (id : Text) (status : NodeStatus)
    (rest : List (Text × Text)) : (p.hear id status rest).locations = p.locations := by
  unfold hear
  cases status with
  | occupancy | unavailable => rfl
  | keyGone =>
      dsimp only
      split <;> rfl

@[simp] theorem Pass.hear_rest (p : Pass) (id : Text) (status : NodeStatus)
    (rest : List (Text × Text)) : (p.hear id status rest).rest = rest := by
  unfold hear
  cases status with
  | occupancy | unavailable => rfl
  | keyGone =>
      dsimp only
      split <;> rfl

@[simp] theorem Pass.hear_told (p : Pass) (id : Text) (status : NodeStatus)
    (rest : List (Text × Text)) : (p.hear id status rest).told = p.told ++ [(id, status)] := by
  unfold hear
  cases status with
  | occupancy | unavailable => rfl
  | keyGone =>
      dsimp only
      split <;> rfl

theorem Pass.hear_fetched (p : Pass) (id : Text) (status : NodeStatus) (rest : List (Text × Text))
    (other : Text) :
    (p.hear id status rest).fetched other = (seatsOf other (id, status)).or (p.fetched other) := by
  unfold hear
  cases status with
  | occupancy slots =>
      simp only [seatsOf, Function.update_apply, eq_comm (a := other)]
      split <;> rfl
  | unavailable => rfl
  | keyGone =>
      dsimp only
      split <;> rfl

theorem Pass.mem_hear_alive (p : Pass) (id : Text) (status : NodeStatus) (rest : List (Text × Text))
    (other : Text) : other ∈ (p.hear id status rest).alive ↔
      other ∈ p.alive ∨ other = id ∧ ∃ slots, status = .occupancy slots := by
  unfold hear
  cases status with
  | occupancy slots => simp [or_comm]
  | unavailable => simp
  | keyGone =>
      dsimp only
      split <;> simp

theorem Pass.mem_hear_gone (p : Pass) (id : Text) (status : NodeStatus) (rest : List (Text × Text))
    (other : Text) : other ∈ (p.hear id status rest).gone ↔
      other ∈ p.gone ∨ (other = id ∧ status = .keyGone) ∧ other ∈ p.revocable := by
  unfold hear
  cases status with
  | occupancy | unavailable => simp
  | keyGone =>
      dsimp only
      split
      · rename_i hmem
        simp only [Finset.mem_insert]
        constructor
        · rintro (rfl | hgone)
          · exact .inr ⟨⟨rfl, trivial⟩, hmem⟩
          · exact .inl hgone
        · rintro (hgone | ⟨⟨rfl, -⟩, -⟩)
          · exact .inr hgone
          · exact .inl rfl
      · rename_i hmem
        constructor
        · exact .inl
        · rintro (hgone | ⟨⟨rfl, -⟩, hrevocable⟩)
          · exact hgone
          · exact absurd hrevocable hmem

/-- The next answer is put with the others. -/
theorem Pass.Sound.hear {es : List Event} {p : Pass} (h : p.Sound es) {i : Nat} {reply : Reply}
    (hreply : .answered i reply ∈ es) {id key : Text} {rest : List (Text × Text)}
    (hrest : p.rest = (id, key) :: rest) : (p.hear id (statusFor key reply) rest).Sound es where
  begun := by
    rw [Pass.hear_locations]
    exact h.begun
  asked := by
    obtain ⟨asked, htargets, hanswers⟩ := h.asked
    refine ⟨asked ++ [(id, key)], ?_, ?_⟩
    · rw [Pass.hear_locations, Pass.hear_rest, htargets, hrest, List.append_assoc]
      rfl
    · rw [Pass.hear_told]
      exact List.rel_append hanswers (.cons ⟨rfl, i, reply, hreply, rfl⟩ .nil)
  fetched := fun other => by
    rw [Pass.hear_fetched, Pass.hear_told, lastSaid_concat, h.fetched]
  alive := fun other => by
    rw [Pass.mem_hear_alive, Pass.hear_told, h.alive]
    simp only [List.mem_append, List.mem_singleton, Prod.mk.injEq, exists_or]
    refine or_congr_right ⟨?_, ?_⟩
    · rintro ⟨rfl, slots, hslots⟩
      exact ⟨slots, rfl, hslots.symm⟩
    · rintro ⟨slots, rfl, hslots⟩
      exact ⟨rfl, slots, hslots.symm⟩
  gone := fun other => by
    have hrevocable : (p.hear id (statusFor key reply) rest).revocable = p.revocable := by
      rw [Pass.revocable, Pass.hear_locations, Pass.revocable]
    rw [Pass.mem_hear_gone, Pass.hear_told, h.gone, hrevocable, ← or_and_right]
    simp only [List.mem_append, List.mem_singleton, Prod.mk.injEq,
      eq_comm (a := NodeStatus.keyGone)]

/-! ### What the passes leave on the board -/

/-- Every pass is sound, and the board is what those that are through have put there. -/
structure Inv (es : List Event) (s : Sys ρ) : Prop where
  flight : ∀ p ∈ s.flight, p.Sound es
  finished : ∀ p ∈ s.finished, p.Sound es ∧ p.rest = []
  board : s.board = s.finished.foldl (Board.after sample) {}

theorem Inv.put {es : List Event} {s : Sys ρ} (h : Inv sample es s) {p : Pass} (hp : p.Sound es)
    (i : Nat) : Inv sample es (s.put sample i p) := by
  unfold Sys.put
  split
  · rename_i hrest
    exact {
      flight := fun q hq => h.flight q (List.mem_of_mem_eraseIdx hq)
      finished := fun q hq => by
        rcases List.mem_append.mp hq with hq | hq
        · exact h.finished q hq
        · rw [List.mem_singleton.mp hq]
          exact ⟨hp, hrest⟩
      board := by
        rw [List.foldl_append, ← h.board]
        rfl }
  · exact { h with
      flight := fun q hq => by
        rcases List.mem_or_eq_of_mem_set hq with hq | rfl
        · exact h.flight q hq
        · exact hp }

theorem inv_step {es : List Event} {s s' : Sys ρ} {e : Event} (h : Inv sample es s) (he : e ∈ es)
    (hs : step sample s e = some s') : Inv sample es s' := by
  cases e with
  | refreshOlcrtcSlots locations =>
      simp only [step, Option.some.injEq] at hs
      subst hs
      split
      · exact h
      · exact { h with
          flight := fun p hp => by
            rcases List.mem_append.mp hp with hp | hp
            · exact h.flight p hp
            · rw [List.mem_singleton.mp hp]
              exact sound_begun he }
  | answered i reply =>
      simp only [step] at hs
      split at hs
      · cases hs
      · rename_i p hp
        split at hs
        · cases hs
        · rename_i hrest
          cases hs
          exact h.put sample ((h.flight p (List.mem_of_getElem? hp)).hear he hrest) i

theorem inv_run {es : List Event} {s : Sys ρ} (hrun : run (step sample) {} es = some s) :
    Inv sample es s :=
  run_inv (C := fun _ e => e ∈ es) (fun _ _ _ h he hs => inv_step sample h he hs)
    { flight := by simp, finished := by simp, board := rfl }
    (allSteps_of_forall fun _ _ he => he) hrun

/-- A key is marked when a pass found it gone and every one since has judged the room and not found
it alive. -/
theorem mem_revoked_foldl (id : Text) (passes : List Pass) :
    id ∈ (passes.foldl (Board.after sample) {}).revoked ↔
      Since (fun p : Pass => id ∈ p.probed ∧ id ∉ p.alive) (fun p => id ∈ p.gone) passes := by
  refine @since_iff_foldl _ (Board ρ) _ _ _ (id ∈ ·.revoked) _ (by simp) (fun b p => ?_) passes
  simp only [Board.after, nextRevoked, Finset.mem_union, Finset.mem_sdiff, Finset.mem_inter]
  tauto

theorem slots_foldl {es : List Event} (id : Text) {passes : List Pass}
    (h : ∀ p ∈ passes, p.Sound es) : (passes.foldl (Board.after sample) {}).slots id =
      lastSaid (seatsOf id) (passes.flatMap Pass.told) := by
  induction passes using List.reverseRecOn with
  | nil => rfl
  | append_singleton passes p ih =>
      have hpasses := ih fun q hq => h q (List.mem_append_left _ hq)
      have hp := (h p (by simp)).fetched id
      rw [List.foldl_append, List.flatMap_append, lastSaid_append, ← hpasses]
      simp only [List.foldl_cons, List.foldl_nil, Board.after, List.flatMap_cons,
        List.flatMap_nil, List.append_nil, hp]

/-- The last sixteen of the samples; none, and there is no trace. -/
def traceOf (samples : List ρ) : Option (List ρ) :=
  if samples = [] then none else some (samples.rtake occupancyHistoryLimit)

theorem rtake_rtake_concat (n : Nat) (l : List ρ) (x : ρ) :
    (l.rtake (n + 1) ++ [x]).rtake (n + 1) = (l ++ [x]).rtake (n + 1) := by
  rw [List.rtake_concat_succ, List.rtake_concat_succ, List.rtake_eq_reverse_take_reverse,
    List.rtake_eq_reverse_take_reverse, List.rtake_eq_reverse_take_reverse, List.reverse_reverse,
    List.take_take, Nat.min_eq_left (Nat.le_succ n)]

theorem appendOccupancy_traceOf (samples : List ρ) (slots : OlcrtcSlots) :
    some (appendOccupancy sample (traceOf samples) slots) =
      traceOf (samples ++ [sample slots]) := by
  have hne : samples ++ [sample slots] ≠ [] := List.append_ne_nil_of_right_ne_nil _ (by simp)
  rw [appendOccupancy, traceOf, traceOf, if_neg hne]
  split
  · rename_i hnil
    rw [hnil]
    rfl
  · exact congrArg some (rtake_rtake_concat 15 samples (sample slots))

theorem history_foldl {es : List Event} (id : Text) {passes : List Pass}
    (h : ∀ p ∈ passes, p.Sound es) : (passes.foldl (Board.after sample) {}).history id =
      traceOf (passes.filterMap fun p => (lastSaid (seatsOf id) p.told).map sample) := by
  induction passes using List.reverseRecOn with
  | nil => rfl
  | append_singleton passes p ih =>
      have hpasses := ih fun q hq => h q (List.mem_append_left _ hq)
      have hp := (h p (by simp)).fetched id
      rw [List.foldl_append, List.filterMap_append]
      simp only [List.foldl_cons, List.foldl_nil, Board.after, List.filterMap_cons, ← hp,
        List.filterMap_nil]
      cases p.fetched id with
      | none => simpa using hpasses
      | some slots => simp only [hpasses, appendOccupancy_traceOf, Option.map_some]

/-- The pass was told that the coordinator has no such key, of a room from a list of its own. -/
def Pass.FoundGone (p : Pass) (id : Text) : Prop := (id, .keyGone) ∈ p.told ∧ id ∈ p.revocable

/-- The pass judged the room, and had no number for it. -/
def Pass.LeavesMark (p : Pass) (id : Text) : Prop :=
  (id ∈ (targets p.locations).map Prod.fst ∧ id ∈ p.revocable) ∧
    ∀ slots, (id, .occupancy slots) ∉ p.told

/-- **The board says what the coordinator said.** In whatever order passes are begun, answered and
overtaken by others, each pass that is through was begun with its locations and has an answer for
every room of its plan. A room's key is marked exactly when one of these was told `404` for it and
the room was from a list of the coordinator's own, and every pass through since has asked about it
from such a list and had no number for it. The seats shown are the last number that came for the
room, and the trace is the last sixteen of those the passes took. -/
theorem board_of_answers {es : List Event} {s : Sys ρ}
    (hrun : run (step sample) {} es = some s) (id : Text) :
    (∀ p ∈ s.finished, .refreshOlcrtcSlots p.locations ∈ es ∧
      List.Forall₂ (Answers es) (targets p.locations) p.told) ∧
    (id ∈ s.board.revoked ↔ Since (·.LeavesMark id) (·.FoundGone id) s.finished) ∧
    s.board.slots id = lastSaid (seatsOf id) (s.finished.flatMap Pass.told) ∧
    s.board.history id =
      traceOf (s.finished.filterMap fun p => (lastSaid (seatsOf id) p.told).map sample) := by
  have hinv : Inv sample es s := inv_run sample hrun
  have hsound : ∀ p ∈ s.finished, p.Sound es := fun p hp => (hinv.finished p hp).1
  refine ⟨fun p hp => ?_, ?_, ?_, ?_⟩
  · obtain ⟨hp, hrest⟩ := hinv.finished p hp
    obtain ⟨asked, htargets, hanswers⟩ := hp.asked
    rw [hrest, List.append_nil] at htargets
    rw [htargets]
    exact ⟨hp.begun, hanswers⟩
  · rw [hinv.board, mem_revoked_foldl]
    refine since_congr (fun p hp => ?_) (fun p hp => (hsound p hp).gone id)
    simp only [Pass.probed, Finset.mem_inter, List.mem_toFinset, (hsound p hp).alive, not_exists,
      Pass.LeavesMark]
  · rw [hinv.board]
    exact slots_foldl sample id hsound
  · rw [hinv.board]
    exact history_foldl sample id hsound

/-- A room of the coordinator's whose key it withdrew. The pass that learns so has overtaken one
that gets no answer. -/
def withdrawn : List Event :=
  let room : LocationItem := {
    storageId := txt "a1"
    config := some { key := List.replicate 64 'a' }
    subscriptionUrl := some (txt "https://ProofKit.org/s/1") }
  [.refreshOlcrtcSlots [room], .refreshOlcrtcSlots [room], .answered 0 .failed,
    .answered 0 (.response 404 none)]

theorem withdrawn_run : (run (step fun slots => slots) {} withdrawn).isSome = true := by
  decide +kernel

theorem board_of_answers_withdrawn :
    ∃ s, run (step fun slots => slots) {} withdrawn = some s ∧ txt "a1" ∈ s.board.revoked ∧
      Since (·.LeavesMark (txt "a1")) (·.FoundGone (txt "a1")) s.finished :=
  have hrun := (Option.some_get withdrawn_run).symm
  have hmarked : txt "a1" ∈ ((run (step fun slots => slots) {} withdrawn).get
    withdrawn_run).board.revoked := by decide +kernel
  ⟨_, hrun, hmarked, (board_of_answers _ hrun _).2.1.mp hmarked⟩

end Ghostlane.App.OlcrtcBoard
