import Mathlib.Algebra.BigOperators.Group.List.Basic
import Mathlib.Algebra.Order.BigOperators.Group.List
import Mathlib.Algebra.Order.Ring.Int
import Mathlib.Data.List.GetD
import Mathlib.Data.List.Infix
import Mathlib.Data.List.SplitBy

/-!
# Ghostlane.App.SessionTraffic

What a session has carried (`ui/features/home/SessionTraffic.kt`), and the chart of its last seconds
(`ThroughputWindow` in `ui/components/kit/PkTraffic.kt`). Each direction is counted by itself: a
counter that reads less than it did has started again, and the totals go on from where they were.
The window sets the differences of the totals down on the seconds between two readings.

The counters are within 64 bits, as the platforms' own are.
-/

namespace Ghostlane.App

structure TrafficCounters where
  bytesIn : Int
  bytesOut : Int
  deriving DecidableEq, Repr

/-! ### The window -/

/-- `ThroughputWindow`. The bars stand oldest first; what was last recorded is there with its
time. -/
structure ThroughputWindow where
  received : List Int
  sent : List Int
  count : Nat := 0
  previous : Option (TrafficCounters × Int) := none
  deriving DecidableEq, Repr

namespace ThroughputWindow

def new (seconds : Nat) : ThroughputWindow where
  received := List.replicate seconds 0
  sent := List.replicate seconds 0

/-- The seconds from one reading to another, to the nearest. -/
def overSeconds (previousAt atMillis : Int) : Int :=
  let elapsed := atMillis - previousAt
  -- A clock that was set back measures nothing: one second has passed all the same.
  if elapsed < 0 then 1 else (elapsed + 500) / 1000

/-- `spread`, of one direction. -/
def spread (seconds : Nat) (bytes secs : Int) (bars : List Int) : List Int :=
  let n := (min secs seconds).toNat
  let each := bytes / secs
  let filled := bars.drop n ++ List.replicate n each
  -- What did not divide went by in the newest second.
  if secs ≤ seconds then filled.modify (seconds - 1) (· + (bytes - each * secs)) else filled

/-- `record`: takes the totals as they stood at a moment. -/
def record (seconds : Nat) (w : ThroughputWindow) (total : TrafficCounters) (atMillis : Int) :
    ThroughputWindow :=
  match w.previous with
  | none => { w with previous := some (total, atMillis) }
  | some (previous, previousAt) =>
      let n := overSeconds previousAt atMillis
      if n < 1 then w
      else
        { received := spread seconds (max (total.bytesIn - previous.bytesIn) 0) n w.received
          sent := spread seconds (max (total.bytesOut - previous.bytesOut) 0) n w.sent
          count := min seconds (w.count + (min n seconds).toNat)
          previous := some (total, atMillis) }

/-- `reset`. -/
def reset (w : ThroughputWindow) : ThroughputWindow where
  received := w.received.map fun _ => 0
  sent := w.sent.map fun _ => 0

def recorded (w : ThroughputWindow) : Nat := w.count

/-- A bar by its age; 0 is the newest. -/
def ago (w : ThroughputWindow) (seconds : Nat) (bars : List Int) (secondsAgo : Nat) : Int :=
  if secondsAgo < w.count then bars.getD (seconds - 1 - secondsAgo) 0 else 0

def receivedAgo (w : ThroughputWindow) (seconds secondsAgo : Nat) : Int :=
  w.ago seconds w.received secondsAgo

def sentAgo (w : ThroughputWindow) (seconds secondsAgo : Nat) : Int :=
  w.ago seconds w.sent secondsAgo

end ThroughputWindow

/-! ### The session -/

/-- `SessionTraffic`. -/
structure SessionTraffic where
  window : ThroughputWindow
  totals : Option TrafficCounters := none
  /-- What the counters that have since started again had reached. -/
  carriedIn : Int := 0
  carriedOut : Int := 0
  lastIn : Int := 0
  lastOut : Int := 0
  deriving DecidableEq, Repr

namespace SessionTraffic

def new (seconds : Nat) : SessionTraffic where
  window := .new seconds

/-- `take`: takes the platform's counters as they stood at a moment. -/
def take (seconds : Nat) (s : SessionTraffic) (reading : TrafficCounters) (atMillis : Int) :
    SessionTraffic :=
  let carriedIn :=
    if s.totals.isSome ∧ reading.bytesIn < s.lastIn then s.carriedIn + s.lastIn else s.carriedIn
  let carriedOut :=
    if s.totals.isSome ∧ reading.bytesOut < s.lastOut then s.carriedOut + s.lastOut
    else s.carriedOut
  let soFar := ⟨carriedIn + reading.bytesIn, carriedOut + reading.bytesOut⟩
  { window := s.window.record seconds soFar atMillis
    totals := some soFar
    carriedIn, carriedOut, lastIn := reading.bytesIn, lastOut := reading.bytesOut }

def reset (s : SessionTraffic) : SessionTraffic where
  window := s.window.reset

/-- What is asked of a session's count. -/
inductive Call
  | take (reading : TrafficCounters) (atMillis : Int)
  | reset
  deriving DecidableEq, Repr

def step (seconds : Nat) (s : SessionTraffic) : Call → SessionTraffic
  | .take reading atMillis => s.take seconds reading atMillis
  | .reset => s.reset

def run (seconds : Nat) (calls : List Call) : SessionTraffic :=
  calls.foldl (step seconds) (new seconds)

end SessionTraffic

/-! ### What it is to say -/

/-- What the last readings of the non-decreasing runs add up to. -/
def carried (readings : List Int) : Int :=
  ((readings.splitBy fun a b => decide (a ≤ b)).map fun run => run.getLastD 0).sum

theorem carried_nil : carried [] = 0 := rfl

/-- A reading that is no less goes on with the last run; one that is less begins another. -/
theorem carried_concat (readings : List Int) (last x : Int) :
    carried (readings ++ [last] ++ [x]) = carried (readings ++ [last]) + x -
      (if x < last then 0 else last) := by
  unfold carried
  split
  · rename_i hless
    have hsplit : (readings ++ [last] ++ [x]).splitBy (fun a b => decide (a ≤ b)) =
        (readings ++ [last]).splitBy (fun a b => decide (a ≤ b)) ++ [[x]] := by
      refine List.splitBy_append fun a ha b hb => ?_
      rw [List.getLast?_concat] at ha
      cases ha
      cases hb
      exact decide_eq_false (not_le.mpr hless)
    rw [hsplit, List.map_append, List.sum_append, List.map_singleton, List.sum_singleton, sub_zero]
    rfl
  · rename_i hless
    obtain ⟨hflat, hnil, hchain, hbound⟩ := List.splitBy_eq_iff.mp
      (rfl : (readings ++ [last]).splitBy (fun a b => decide (a ≤ b)) = _)
    rcases List.eq_nil_or_concat' ((readings ++ [last]).splitBy fun a b => decide (a ≤ b)) with
      hempty | ⟨front, run, hruns⟩
    · rw [hempty] at hflat
      exact absurd hflat (List.append_ne_nil_of_right_ne_nil _ (List.cons_ne_nil _ _))
    · rw [hruns] at hflat hnil hchain hbound ⊢
      have hrun : run ≠ [] := fun h => hnil (h ▸ List.mem_append_right front List.mem_cons_self)
      have hlast : run.getLast? = some last := by
        have hends := congrArg List.getLast? hflat
        rw [List.getLast?_concat, List.flatten_append, List.flatten_singleton,
          List.getLast?_append_of_ne_nil _ hrun] at hends
        exact hends.symm
      have hsplit : (readings ++ [last] ++ [x]).splitBy (fun a b => decide (a ≤ b)) =
          front ++ [run ++ [x]] := by
        rw [List.splitBy_eq_iff]
        refine ⟨?_, ?_, ?_, ?_⟩
        · rw [hflat, List.flatten_append, List.flatten_append, List.append_assoc,
            List.flatten_singleton, List.flatten_singleton]
        · intro h
          rcases List.mem_append.mp h with h | h
          · exact hnil (List.mem_append_left [run] h)
          · exact List.append_ne_nil_of_left_ne_nil hrun [x] (List.mem_singleton.mp h).symm
        · intro m hm
          rcases List.mem_append.mp hm with hm | hm
          · exact hchain m (List.mem_append_left [run] hm)
          · rw [List.mem_singleton.mp hm, List.isChain_append]
            refine ⟨hchain run (List.mem_append_right front List.mem_cons_self),
              List.isChain_singleton x, fun a ha b hb => ?_⟩
            rw [hlast] at ha
            cases ha
            cases hb
            exact decide_eq_true (not_lt.mp hless)
        · rw [List.isChain_append] at hbound ⊢
          refine ⟨hbound.1, List.isChain_singleton _, fun a ha b hb => ?_⟩
          obtain ⟨hne, _, hbetween⟩ := hbound.2.2 a ha run rfl
          cases hb
          refine ⟨hne, List.append_ne_nil_of_left_ne_nil hrun [x], ?_⟩
          rw [List.head_append_of_ne_nil hrun]
          exact hbetween
      rw [hsplit, List.map_append, List.map_append, List.sum_append, List.sum_append,
        List.map_singleton, List.map_singleton, List.sum_singleton, List.sum_singleton,
        List.getLastD_concat, List.getLastD_eq_getLast?, hlast, Option.getD_some]
      omega

/-! ### One direction of the window -/

open ThroughputWindow

/-- The bars of one direction, with so many seconds spread and so much moved. -/
structure Bars (seconds : Nat) (spent moved : Int) (count : Nat) (bars : List Int) : Prop where
  length : bars.length = seconds
  spent_nonneg : 0 ≤ spent
  count_eq : (count : Int) = min (seconds : Int) spent
  nonneg : ∀ x ∈ bars, 0 ≤ x
  /-- Seconds before the recorded ones are empty. -/
  old : ∀ x ∈ bars.take (seconds - count), x = 0
  most : bars.sum ≤ moved
  all : spent ≤ seconds → bars.sum = moved

theorem bars_new (seconds : Nat) : Bars seconds 0 0 0 (List.replicate seconds 0) where
  length := List.length_replicate
  spent_nonneg := le_rfl
  count_eq := by omega
  nonneg x hx := le_of_eq (List.eq_of_mem_replicate hx).symm
  old x hx := List.eq_of_mem_replicate (List.mem_of_mem_take hx)
  most := by simp
  all _ := by simp

theorem sum_drop_le {bars : List Int} (h : ∀ x ∈ bars, 0 ≤ x) (n : Nat) :
    (bars.drop n).sum ≤ bars.sum := by
  rw [← List.sum_take_add_sum_drop bars n]
  have hfront : 0 ≤ (bars.take n).sum :=
    List.sum_nonneg fun x hx => h x (List.mem_of_mem_take hx)
  omega

theorem modify_concat (l : List Int) (x : Int) (f : Int → Int) :
    (l ++ [x]).modify l.length f = l ++ [f x] := by
  induction l with
  | nil => rfl
  | cons y l ih =>
      rw [List.cons_append, List.length_cons, List.modify_succ_cons, ih, List.cons_append]

/-- What is spread is the newest bars, and the others move along. -/
theorem spread_eq {seconds : Nat} {bytes secs : Int} {bars : List Int} (h : bars.length = seconds)
    (hover : 1 ≤ secs) : ∃ n newest, n = (min secs seconds).toNat ∧
      spread seconds bytes secs bars = bars.drop n ++ newest ∧ newest.length = n ∧
      (0 ≤ bytes → (∀ x ∈ newest, 0 ≤ x) ∧ newest.sum ≤ bytes ∧
        (secs ≤ seconds → newest.sum = bytes)) := by
  have hdiv : secs * (bytes / secs) + bytes % secs = bytes := Int.mul_ediv_add_emod bytes secs
  have hmod := Int.emod_nonneg bytes (show secs ≠ 0 by omega)
  have heach : 0 ≤ bytes → 0 ≤ bytes / secs := fun hbytes => Int.ediv_nonneg hbytes (by omega)
  refine ⟨(min secs seconds).toNat, ?_⟩
  unfold spread
  dsimp only
  split
  · rename_i hfits
    obtain ⟨n, hn⟩ : ∃ n : Nat, (min secs seconds).toNat = n + 1 :=
      Nat.exists_eq_add_one.mpr (by omega)
    have hlast : ((bars.drop (n + 1) ++ List.replicate n (bytes / secs))).length = seconds - 1 := by
      rw [List.length_append, List.length_drop, List.length_replicate, h]
      omega
    have hsum : (List.replicate n (bytes / secs) ++
        [bytes / secs + (bytes - bytes / secs * secs)]).sum = bytes := by
      have hover' : secs = n + 1 := by omega
      rw [List.sum_append, List.sum_replicate, List.sum_singleton, nsmul_eq_mul]
      have hexpand : bytes / secs * secs = n * (bytes / secs) + bytes / secs := by
        conv_lhs => rw [mul_comm]
        nth_rewrite 1 [hover']
        rw [add_mul, one_mul]
      omega
    refine ⟨List.replicate n (bytes / secs) ++ [bytes / secs + (bytes - bytes / secs * secs)], rfl,
      ?_, ?_, fun hbytes => ⟨?_, ?_, fun _ => ?_⟩⟩
    · rw [hn, List.replicate_succ', ← List.append_assoc, ← hlast, modify_concat, List.append_assoc]
    · rw [hn, List.length_append, List.length_replicate, List.length_singleton]
    · intro x hx
      rcases List.mem_append.mp hx with hx | hx
      · rw [List.eq_of_mem_replicate hx]
        exact heach hbytes
      · rw [List.mem_singleton.mp hx, mul_comm]
        have heach := heach hbytes
        omega
    · exact le_of_eq hsum
    · exact hsum
  · rename_i hlong
    refine ⟨_, rfl, rfl, List.length_replicate, fun hbytes => ⟨?_, ?_, fun h => absurd h hlong⟩⟩
    · intro x hx
      rw [List.eq_of_mem_replicate hx]
      exact heach hbytes
    · have hn : ((min secs seconds).toNat : Int) = seconds := by omega
      have hle : (seconds : Int) * (bytes / secs) ≤ secs * (bytes / secs) :=
        Int.mul_le_mul_of_nonneg_right (by omega) (heach hbytes)
      rw [List.sum_replicate, nsmul_eq_mul, hn]
      omega

/-- **One reading** is set down whole as far as the window goes, and what it moves out is gone. -/
theorem Bars.spread {seconds count : Nat} {spent moved bytes secs : Int} {bars : List Int}
    (h : Bars seconds spent moved count bars) (hbytes : 0 ≤ bytes) (hover : 1 ≤ secs) :
    Bars seconds (spent + secs) (moved + bytes) (min seconds (count + (min secs seconds).toNat))
      (ThroughputWindow.spread seconds bytes secs bars) := by
  obtain ⟨n, newest, hn, hspread, hlength, hnewest⟩ := spread_eq h.length hover
  obtain ⟨hnonneg, hle, hall⟩ := hnewest hbytes
  have hspent := h.spent_nonneg
  have hcount := h.count_eq
  rw [← hn, hspread]
  refine { length := ?_, spent_nonneg := by omega, count_eq := by omega, nonneg := ?_, old := ?_,
           most := ?_, all := ?_ }
  · rw [List.length_append, List.length_drop, h.length, hlength]
    omega
  · refine List.forall_mem_append.mpr ⟨fun x hx => h.nonneg x (List.mem_of_mem_drop hx), hnonneg⟩
  · intro x hx
    by_cases hfull : seconds ≤ count + n
    · rw [Nat.min_eq_left hfull, Nat.sub_self] at hx
      cases hx
    · rw [Nat.min_eq_right (by omega), List.take_append_of_le_length, List.take_drop] at hx
      · have hpart : x ∈ bars.take (n + (seconds - (count + n))) := List.mem_of_mem_drop hx
        rw [show n + (seconds - (count + n)) = seconds - count by omega] at hpart
        exact h.old x hpart
      · rw [List.length_drop, h.length]
        omega
  · rw [List.sum_append]
    have hdrop := sum_drop_le h.nonneg n
    have hmost := h.most
    omega
  · intro hfits
    have hgone : (bars.take n).sum = 0 := by
      refine List.sum_eq_zero fun x hx => h.old x ?_
      exact (List.take_prefix_take_left (by omega)).subset hx
    have hsplit := List.sum_take_add_sum_drop bars n
    rw [List.sum_append, hall (by omega), ← h.all (by omega)]
    omega

/-- The bars by their age are the bars. -/
theorem sum_ago {seconds : Nat} {spent moved : Int} {w : ThroughputWindow} {bars : List Int}
    (h : Bars seconds spent moved w.count bars) :
    ((List.range w.count).map (w.ago seconds bars)).sum = bars.sum := by
  have hle : w.count ≤ seconds := by
    have hcount := h.count_eq
    omega
  have hnewest : (List.range w.count).map (w.ago seconds bars) =
      (bars.drop (seconds - w.count)).reverse := by
    have hlength := h.length
    refine List.ext_getElem ?_ fun i hi hi' => ?_
    · rw [List.length_map, List.length_range, List.length_reverse, List.length_drop, hlength]
      omega
    · rw [List.length_map, List.length_range] at hi
      rw [List.getElem_map, List.getElem_range, List.getElem_reverse, List.getElem_drop, ago,
        if_pos hi, List.getD_eq_getElem _ _ (by omega)]
      congr 1
      rw [List.length_drop, hlength]
      omega
  have hold : (bars.take (seconds - w.count)).sum = 0 := List.sum_eq_zero h.old
  have hsplit := List.sum_take_add_sum_drop bars (seconds - w.count)
  rw [hnewest, List.sum_reverse]
  omega

theorem ago_nonneg {seconds : Nat} {w : ThroughputWindow} {bars : List Int}
    (h : ∀ x ∈ bars, 0 ≤ x) (i : Nat) : 0 ≤ w.ago seconds bars i := by
  unfold ago
  split
  · rw [List.getD_eq_getElem?_getD]
    cases hx : bars[seconds - 1 - i]? with
    | none => exact le_rfl
    | some x => exact h x (List.mem_of_getElem? hx)
  · exact le_rfl

/-! ### What the window is to hold -/

/-- A reading with its time. -/
abbrev Reading := TrafficCounters × Int

/-- Less than half a second after another: the reading is held over. -/
abbrev HeldOver (previousAt atMillis : Int) : Prop :=
  0 ≤ atMillis - previousAt ∧ atMillis - previousAt < 500

/-- So many seconds are taken to have passed: one where the clock was set back, else the nearest
number, half a second being a whole one. -/
def Passed (previousAt atMillis seconds : Int) : Prop :=
  atMillis < previousAt ∧ seconds = 1 ∨
    previousAt ≤ atMillis ∧ 1000 * seconds - 500 ≤ atMillis - previousAt ∧
      atMillis - previousAt < 1000 * seconds + 500

theorem heldOver_iff (previousAt atMillis : Int) :
    HeldOver previousAt atMillis ↔ overSeconds previousAt atMillis < 1 := by
  unfold HeldOver overSeconds
  dsimp only
  split <;> omega

theorem passed_iff (previousAt atMillis seconds : Int) :
    Passed previousAt atMillis seconds ↔ seconds = overSeconds previousAt atMillis := by
  unfold Passed overSeconds
  dsimp only
  split <;> omega

/-- The readings that complete a second, of which the first is the starting point. -/
def mark (marks : List Reading) (r : Reading) : List Reading :=
  match marks.getLast? with
  | none => [r]
  | some previous => if HeldOver previous.2 r.2 then marks else marks ++ [r]

def marks (readings : List Reading) : List Reading := readings.foldl mark []

/-- The seconds that are taken to have passed from the first of these readings to the last. -/
inductive Spent : List Reading → Int → Prop
  | nil : Spent [] 0
  | one (r : Reading) : Spent [r] 0
  | cons {a b : Reading} {rest : List Reading} {m n : Int} (h : Passed a.2 b.2 m)
      (hrest : Spent (b :: rest) n) : Spent (a :: b :: rest) (m + n)

/-- They as the code rounds them. -/
def spent : List Reading → Int
  | a :: b :: rest => overSeconds a.2 b.2 + spent (b :: rest)
  | _ => 0

theorem spent_iff (ms : List Reading) (n : Int) : Spent ms n ↔ n = spent ms := by
  constructor
  · intro h
    induction h with
    | nil | one => rfl
    | cons h _ ih => rw [spent, ih, (passed_iff _ _ _).mp h]
  · rintro rfl
    induction ms with
    | nil => exact .nil
    | cons a ms ih =>
        cases ms with
        | nil => exact .one a
        | cons b rest => exact .cons ((passed_iff _ _ _).mpr rfl) ih

theorem spent_concat (ms : List Reading) (a b : Reading) :
    spent (ms ++ [a] ++ [b]) = spent (ms ++ [a]) + overSeconds a.2 b.2 := by
  induction ms with
  | nil => simp [spent]
  | cons m ms ih =>
      cases ms with
      | nil => simp [spent]
      | cons n ms =>
          have hcons : ∀ rest, spent (m :: n :: rest) = overSeconds m.2 n.2 + spent (n :: rest) :=
            fun _ => rfl
          rw [List.cons_append, List.cons_append, List.cons_append, List.cons_append, hcons, hcons,
            ← List.cons_append, ← List.cons_append, ih, add_assoc]

/-- The window after some marks: in each direction the bars hold what moved between the first mark
and the last. -/
structure Kept (seconds : Nat) (ms : List Reading) (w : ThroughputWindow) : Prop where
  previous : w.previous = ms.getLast?
  received : Bars seconds (spent ms) (((ms.getLast?.map (·.1.bytesIn)).getD 0) -
    ((ms.head?.map (·.1.bytesIn)).getD 0)) w.count w.received
  sent : Bars seconds (spent ms) (((ms.getLast?.map (·.1.bytesOut)).getD 0) -
    ((ms.head?.map (·.1.bytesOut)).getD 0)) w.count w.sent

theorem kept_new (seconds : Nat) : Kept seconds [] (.new seconds) where
  previous := rfl
  received := bars_new seconds
  sent := bars_new seconds

/-- Totals that have not gone back. -/
def Ahead (ms : List Reading) (total : TrafficCounters) : Prop :=
  ∀ previous ∈ ms.getLast?, previous.1.bytesIn ≤ total.bytesIn ∧
    previous.1.bytesOut ≤ total.bytesOut

theorem Kept.record {seconds : Nat} {ms : List Reading} {w : ThroughputWindow}
    (h : Kept seconds ms w) {r : Reading} (hahead : Ahead ms r.1) :
    Kept seconds (mark ms r) (w.record seconds r.1 r.2) := by
  obtain ⟨hprevious, hreceived, hsent⟩ := h
  rcases List.eq_nil_or_concat' ms with rfl | ⟨front, last, rfl⟩
  · -- the first mark moves nothing
    have hmark : mark [] r = [r] := rfl
    have hrecord : w.record seconds r.1 r.2 = { w with previous := some r } := by
      rw [ThroughputWindow.record, hprevious]
      rfl
    rw [hmark, hrecord]
    refine ⟨rfl, ?_, ?_⟩
    · rw [List.getLast?_singleton, List.head?_cons, Option.map_some, Option.getD_some, sub_self]
      exact hreceived
    · rw [List.getLast?_singleton, List.head?_cons, Option.map_some, Option.getD_some, sub_self]
      exact hsent
  · rw [List.getLast?_concat] at hprevious
    have hmark : mark (front ++ [last]) r =
        if overSeconds last.2 r.2 < 1 then front ++ [last] else front ++ [last] ++ [r] := by
      rw [mark, List.getLast?_concat]
      exact if_congr (heldOver_iff _ _) rfl rfl
    by_cases hshort : overSeconds last.2 r.2 < 1
    · -- held over: neither a mark nor a bar
      have hrecord : w.record seconds r.1 r.2 = w := by
        rw [ThroughputWindow.record, hprevious]
        exact if_pos hshort
      rw [hmark, if_pos hshort, hrecord]
      exact ⟨by rw [hprevious, List.getLast?_concat], hreceived, hsent⟩
    · -- what moved since the last mark is spread over the seconds since
      have hrecord : w.record seconds r.1 r.2 =
          { received := spread seconds (max (r.1.bytesIn - last.1.bytesIn) 0)
              (overSeconds last.2 r.2) w.received
            sent := spread seconds (max (r.1.bytesOut - last.1.bytesOut) 0)
              (overSeconds last.2 r.2) w.sent
            count := min seconds (w.count + (min (overSeconds last.2 r.2) seconds).toNat)
            previous := some r } := by
        rw [ThroughputWindow.record, hprevious]
        exact if_neg hshort
      obtain ⟨hin, hout⟩ := hahead last (List.getLast?_concat)
      have hreceived' := hreceived.spread (sub_nonneg.mpr hin) (not_lt.mp hshort)
      have hsent' := hsent.spread (sub_nonneg.mpr hout) (not_lt.mp hshort)
      have hhead : (front ++ [last] ++ [r]).head? = (front ++ [last]).head? := by
        cases front <;> rfl
      rw [hmark, if_neg hshort, hrecord, max_eq_left (by omega), max_eq_left (by omega)]
      refine ⟨List.getLast?_concat.symm, ?_, ?_⟩
      · rw [spent_concat, hhead, List.getLast?_concat]
        convert hreceived' using 1
        rw [List.getLast?_concat, Option.map_some, Option.map_some, Option.getD_some,
          Option.getD_some]
        omega
      · rw [spent_concat, hhead, List.getLast?_concat]
        convert hsent' using 1
        rw [List.getLast?_concat, Option.map_some, Option.map_some, Option.getD_some,
          Option.getD_some]
        omega

/-! ### A session's readings -/

theorem carried_singleton (x : Int) : carried [x] = x := by
  simp [carried, List.splitBy, List.splitBy.loop]

/-- One reading, as it is counted. -/
theorem carried_step {readings : List Int} {c last : Int} (hc : c + last = carried readings)
    (hlast : last = readings.getLast?.getD 0) {started : Prop} [Decidable started]
    (hstarted : started ↔ readings ≠ []) (x : Int) :
    (if started ∧ x < last then c + last else c) + x = carried (readings ++ [x]) := by
  rcases List.eq_nil_or_concat' readings with rfl | ⟨front, l, rfl⟩
  · rw [if_neg fun h => hstarted.mp h.1 rfl, List.nil_append, carried_singleton]
    rw [List.getLast?_nil, Option.getD_none] at hlast
    rw [carried_nil] at hc
    omega
  · rw [List.getLast?_concat, Option.getD_some] at hlast
    have hstart : started :=
      hstarted.mpr (List.append_ne_nil_of_right_ne_nil _ (List.cons_ne_nil _ _))
    rw [carried_concat, ← hc, hlast]
    simp only [hstart, true_and]
    split <;> omega

theorem carried_le_concat (readings : List Int) {x : Int} (hx : 0 ≤ x) :
    carried readings ≤ carried (readings ++ [x]) := by
  rcases List.eq_nil_or_concat' readings with rfl | ⟨front, last, rfl⟩
  · rw [List.nil_append, carried_singleton]
    exact hx
  · rw [carried_concat]
    split <;> omega

/-- What the readings say was carried. -/
def soFar (readings : List Reading) : TrafficCounters where
  bytesIn := carried (readings.map (·.1.bytesIn))
  bytesOut := carried (readings.map (·.1.bytesOut))

/-- The totals that were recorded, each with its time. -/
def recordings (readings : List Reading) : List Reading :=
  readings.inits.filterMap fun front => front.getLast?.map fun r => (soFar front, r.2)

theorem recordings_concat (readings : List Reading) (r : Reading) :
    recordings (readings ++ [r]) = recordings readings ++ [(soFar (readings ++ [r]), r.2)] := by
  have hinits : (readings ++ [r]).inits = readings.inits ++ [readings ++ [r]] := by
    rw [List.inits_append]
    rfl
  rw [recordings, hinits, List.filterMap_append, ← recordings, List.filterMap_cons,
    List.getLast?_concat]
  rfl

theorem marks_concat (readings : List Reading) (r : Reading) :
    marks (readings ++ [r]) = mark (marks readings) r := by
  rw [marks, List.foldl_append]
  rfl

/-- A reading of counters that count up from nothing. -/
def NonNegative (reading : TrafficCounters) : Prop := 0 ≤ reading.bytesIn ∧ 0 ≤ reading.bytesOut

/-- A session after these readings. -/
structure Follows (seconds : Nat) (readings : List Reading) (s : SessionTraffic) : Prop where
  totals : s.totals = if readings = [] then none else some (soFar readings)
  lastIn : s.lastIn = (readings.map (·.1.bytesIn)).getLast?.getD 0
  lastOut : s.lastOut = (readings.map (·.1.bytesOut)).getLast?.getD 0
  carriedIn : s.carriedIn + s.lastIn = carried (readings.map (·.1.bytesIn))
  carriedOut : s.carriedOut + s.lastOut = carried (readings.map (·.1.bytesOut))
  window : Kept seconds (marks (recordings readings)) s.window
  ahead : Ahead (marks (recordings readings)) (soFar readings)

theorem follows_new (seconds : Nat) : Follows seconds [] (.new seconds) where
  totals := rfl
  lastIn := rfl
  lastOut := rfl
  carriedIn := rfl
  carriedOut := rfl
  window := kept_new seconds
  ahead _ hprevious := by cases hprevious

theorem Follows.take {seconds : Nat} {readings : List Reading} {s : SessionTraffic}
    (h : Follows seconds readings s) {reading : TrafficCounters} (hreading : NonNegative reading)
    (atMillis : Int) :
    Follows seconds (readings ++ [(reading, atMillis)]) (s.take seconds reading atMillis) := by
  have hstarted : s.totals.isSome = true ↔ readings ≠ [] := by
    rw [h.totals]
    split
    · rename_i hnil
      exact iff_of_false Bool.false_ne_true (not_not.mpr hnil)
    · rename_i hnil
      exact iff_of_true rfl hnil
  have hmap : ∀ {f : Reading → Int}, s.totals.isSome = true ↔ readings.map f ≠ [] := by
    intro f
    rw [hstarted, Ne, Ne, List.map_eq_nil_iff]
  have hin := carried_step h.carriedIn h.lastIn hmap reading.bytesIn
  have hout := carried_step h.carriedOut h.lastOut hmap reading.bytesOut
  have hsoFar : soFar (readings ++ [(reading, atMillis)]) =
      ⟨carried (readings.map (·.1.bytesIn) ++ [reading.bytesIn]),
        carried (readings.map (·.1.bytesOut) ++ [reading.bytesOut])⟩ := by
    rw [soFar, List.map_append, List.map_append]
    rfl
  have hle : (soFar readings).bytesIn ≤ (soFar (readings ++ [(reading, atMillis)])).bytesIn ∧
      (soFar readings).bytesOut ≤ (soFar (readings ++ [(reading, atMillis)])).bytesOut := by
    rw [hsoFar]
    exact ⟨carried_le_concat _ hreading.1, carried_le_concat _ hreading.2⟩
  have hahead : Ahead (marks (recordings readings)) (soFar (readings ++ [(reading, atMillis)])) :=
    fun m hm => ⟨(h.ahead m hm).1.trans hle.1, (h.ahead m hm).2.trans hle.2⟩
  have htotal : (s.take seconds reading atMillis).totals =
      some (soFar (readings ++ [(reading, atMillis)])) := by
    rw [hsoFar, ← hin, ← hout]
    rfl
  have hwindow : (s.take seconds reading atMillis).window =
      s.window.record seconds (soFar (readings ++ [(reading, atMillis)])) atMillis := by
    rw [hsoFar, ← hin, ← hout]
    rfl
  refine ⟨?_, ?_, ?_, ?_, ?_, ?_, ?_⟩
  · rw [htotal, if_neg (List.append_ne_nil_of_right_ne_nil _ (List.cons_ne_nil _ _))]
  · rw [List.map_append, List.map_singleton, List.getLast?_concat]
    rfl
  · rw [List.map_append, List.map_singleton, List.getLast?_concat]
    rfl
  · rw [List.map_append, List.map_singleton]
    exact hin
  · rw [List.map_append, List.map_singleton]
    exact hout
  · rw [recordings_concat, marks_concat, hwindow]
    exact h.window.record hahead
  · rw [recordings_concat, marks_concat]
    intro m hm
    unfold mark at hm
    split at hm
    · cases hm
      exact ⟨le_rfl, le_rfl⟩
    · split at hm
      · exact hahead m hm
      · rw [List.getLast?_concat] at hm
        cases hm
        exact ⟨le_rfl, le_rfl⟩

/-- The readings since the session was last forgotten. -/
def sinceReset (calls : List SessionTraffic.Call) : List Reading :=
  calls.foldl (fun readings call =>
    match call with
    | .take reading atMillis => readings ++ [(reading, atMillis)]
    | .reset => []) []

theorem reset_eq_new {seconds : Nat} {readings : List Reading} {s : SessionTraffic}
    (h : Follows seconds readings s) : s.reset = .new seconds := by
  have hzeros : ∀ bars : List Int, bars.length = seconds →
      bars.map (fun _ => (0 : Int)) = List.replicate seconds 0 := by
    intro bars hlength
    rw [List.map_const', hlength]
  rw [SessionTraffic.reset, ThroughputWindow.reset, hzeros _ h.window.received.length,
    hzeros _ h.window.sent.length]
  rfl

/-- The readings among the calls are not negative. -/
def CountsUp (calls : List SessionTraffic.Call) : Prop :=
  ∀ reading atMillis, .take reading atMillis ∈ calls → NonNegative reading

theorem follows_run (seconds : Nat) {calls : List SessionTraffic.Call} (h : CountsUp calls) :
    Follows seconds (sinceReset calls) (SessionTraffic.run seconds calls) := by
  induction calls using List.reverseRecOn with
  | nil => exact follows_new seconds
  | append_singleton front call ih =>
      have hfront := ih fun reading atMillis hmem =>
        h reading atMillis (List.mem_append_left _ hmem)
      rw [sinceReset, SessionTraffic.run, List.foldl_append, List.foldl_append, ← sinceReset,
        ← SessionTraffic.run]
      cases call with
      | take reading atMillis =>
          have hreading := h reading atMillis (List.mem_append_right _ List.mem_cons_self)
          exact hfront.take hreading atMillis
      | reset =>
          have hnew := follows_new seconds
          rw [← reset_eq_new hfront] at hnew
          exact hnew

/-- **A session's traffic is counted once.** In each direction the totals are what the last readings
of the non-decreasing runs add up to, and no reading makes them less; the window holds the seconds
that passed, no more than it has; no bar of it is negative, and its bars are what moved between the
first mark and the last, less what fell out of the window. -/
theorem traffic_spec (seconds : Nat) {calls : List SessionTraffic.Call} (h : CountsUp calls) :
    let s := SessionTraffic.run seconds calls
    let ms := marks (recordings (sinceReset calls))
    s.totals = (if sinceReset calls = [] then none else some (soFar (sinceReset calls))) ∧
      (∀ total ∈ s.totals, ∀ reading, NonNegative reading → ∀ atMillis,
        ∃ total' ∈ (s.take seconds reading atMillis).totals,
          total.bytesIn ≤ total'.bytesIn ∧ total.bytesOut ≤ total'.bytesOut) ∧
      s.window.recorded ≤ seconds ∧
      (∀ i, 0 ≤ s.window.receivedAgo seconds i ∧ 0 ≤ s.window.sentAgo seconds i) ∧
      s.window.previous = ms.getLast? ∧
      (∃ n, Spent ms n) ∧
      ∀ n, Spent ms n → (s.window.recorded : Int) = min (seconds : Int) n ∧
        ∀ first ∈ ms.head?, ∀ last ∈ ms.getLast?,
          let received := ((List.range s.window.recorded).map (s.window.receivedAgo seconds)).sum
          let sent := ((List.range s.window.recorded).map (s.window.sentAgo seconds)).sum
          received ≤ last.1.bytesIn - first.1.bytesIn ∧ sent ≤ last.1.bytesOut - first.1.bytesOut ∧
            (n ≤ seconds → received = last.1.bytesIn - first.1.bytesIn ∧
              sent = last.1.bytesOut - first.1.bytesOut) := by
  dsimp only
  have hs := follows_run seconds h
  have hreceived := hs.window.received
  have hsent := hs.window.sent
  have hcount := hreceived.count_eq
  refine ⟨hs.totals, ?_, ?_, fun i => ⟨ago_nonneg hreceived.nonneg i, ago_nonneg hsent.nonneg i⟩,
    hs.window.previous, ⟨_, (spent_iff _ _).mpr rfl⟩, fun n hn => ?_⟩
  · intro total htotal reading hreading atMillis
    have hnext := hs.take hreading atMillis
    rw [hs.totals] at htotal
    rw [hnext.totals, if_neg (List.append_ne_nil_of_right_ne_nil _ (List.cons_ne_nil _ _))]
    refine ⟨_, rfl, ?_⟩
    split at htotal
    · cases htotal
    · cases htotal
      rw [soFar, soFar, List.map_append, List.map_append]
      exact ⟨carried_le_concat _ hreading.1, carried_le_concat _ hreading.2⟩
  · rw [ThroughputWindow.recorded]
    omega
  · rw [(spent_iff _ _).mp hn]
    refine ⟨hcount, fun first hfirst last hlast => ?_⟩
    rw [Option.mem_def] at hfirst hlast
    rw [hfirst, hlast] at hreceived hsent
    have hin := sum_ago hreceived
    have hout := sum_ago hsent
    exact ⟨hin.le.trans hreceived.most, hout.le.trans hsent.most,
      fun hfits => ⟨hin.trans (hreceived.all hfits), hout.trans (hsent.all hfits)⟩⟩

/-- A counter that laps while the other goes on, a reading that is held over, and a clock that is
set back. -/
def lap : List SessionTraffic.Call :=
  [.take ⟨100, 10⟩ 0, .take ⟨300, 20⟩ 1000, .take ⟨310, 21⟩ 1300, .take ⟨50, 25⟩ 3400,
    .take ⟨60, 25⟩ 3000]

theorem lap_countsUp (rest : List SessionTraffic.Call) (h : CountsUp rest) :
    CountsUp (lap ++ rest) := by
  have hlap : ∀ call ∈ lap, ∀ reading atMillis, call = .take reading atMillis →
      NonNegative reading := by
    intro call hcall reading atMillis heq
    simp only [lap, List.mem_cons, List.not_mem_nil, or_false] at hcall
    rcases hcall with rfl | rfl | rfl | rfl | rfl
    all_goals
      cases heq
      exact ⟨by decide, by decide⟩
  intro reading atMillis hmem
  rcases List.mem_append.mp hmem with hmem | hmem
  · exact hlap _ hmem reading atMillis rfl
  · exact h reading atMillis hmem

/-- Four seconds hold all of it; after seven more they hold a part. -/
theorem traffic_spec_lap :
    let s := SessionTraffic.run 4 lap
    let later := SessionTraffic.run 4 (lap ++ [.take ⟨760, 30⟩ 10000])
    s.totals = some ⟨370, 25⟩ ∧ s.window.recorded = 4 ∧
      ((List.range 4).map (s.window.receivedAgo 4)).sum = 370 - 100 ∧
      ((List.range 4).map (s.window.sentAgo 4)).sum = 25 - 10 ∧
      later.totals = some ⟨1070, 30⟩ ∧ later.window.recorded = 4 ∧
      ((List.range 4).map (later.window.receivedAgo 4)).sum ≤ 1070 - 100 := by
  have hcounts : CountsUp lap := List.append_nil lap ▸ lap_countsUp [] nofun
  have hlater : CountsUp [.take ⟨760, 30⟩ 10000] := by
    intro reading atMillis hmem
    cases List.mem_singleton.mp hmem
    exact ⟨by decide, by decide⟩
  have hmarks : marks (recordings (sinceReset lap)) =
      [(⟨100, 10⟩, 0), (⟨300, 20⟩, 1000), (⟨360, 25⟩, 3400), (⟨370, 25⟩, 3000)] := by decide
  have hmarks' : marks (recordings (sinceReset (lap ++ [.take ⟨760, 30⟩ 10000]))) =
      [(⟨100, 10⟩, 0), (⟨300, 20⟩, 1000), (⟨360, 25⟩, 3400), (⟨370, 25⟩, 3000),
        (⟨1070, 30⟩, 10000)] := by
    decide
  have hone : Passed 0 1000 1 := .inr (by decide)
  have htwo : Passed 1000 3400 2 := .inr (by decide)
  have hback : Passed 3400 3000 1 := .inl (by decide)
  have hseven : Passed 3000 10000 7 := .inr (by decide)
  obtain ⟨htotals, -, -, -, -, -, hspec⟩ := traffic_spec 4 hcounts
  obtain ⟨htotals', -, -, -, -, -, hspec'⟩ := traffic_spec 4 (lap_countsUp _ hlater)
  rw [hmarks] at hspec
  rw [hmarks'] at hspec'
  obtain ⟨hrecorded, hbars⟩ := hspec _ (.cons hone (.cons htwo (.cons hback (.one _))))
  obtain ⟨hrecorded', hbars'⟩ :=
    hspec' _ (.cons hone (.cons htwo (.cons hback (.cons hseven (.one _)))))
  replace hrecorded : (SessionTraffic.run 4 lap).window.recorded = 4 := by omega
  replace hrecorded' :
      (SessionTraffic.run 4 (lap ++ [.take ⟨760, 30⟩ 10000])).window.recorded = 4 := by omega
  obtain ⟨-, -, hall⟩ := hbars _ rfl _ rfl
  obtain ⟨hmost, -, -⟩ := hbars' _ rfl _ rfl
  rw [hrecorded] at hall
  rw [hrecorded'] at hmost
  obtain ⟨hin, hout⟩ := hall (by decide)
  exact ⟨htotals.trans (by decide), hrecorded, hin, hout, htotals'.trans (by decide), hrecorded',
    hmost⟩

end Ghostlane.App
