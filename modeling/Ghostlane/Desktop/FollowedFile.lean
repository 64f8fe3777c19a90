import Ghostlane.Lib.Runs

/-!
# Ghostlane.Desktop.FollowedFile

The output of a line's program that the Mac's tunnel helper runs (`vpn/desktop/HelperLine.kt`). The
program is the helper's child and appends to a file; the app has no pipe to it, and reads the file
as it would read one. Nothing says the end of a file that may still grow: the reader takes it from
whether the program is alive.

Program and reader are two threads here, and so are whoever closes the stream and whoever
interrupts the reader; a schedule says which of them moves. `alive()` and `channel.read` are two
steps of the reader, and the program may print and end between them.
-/

namespace Ghostlane.Desktop.FollowedFile

open Ghostlane.Lib

/-- Where the reading thread stands in `read(b, off, len)`. -/
inductive Point
  | idle
  /-- At the loop's condition. -/
  | turn (len : Nat)
  | ask (len : Nat)
  /-- `alive()` has answered, and `channel.read` comes next. -/
  | fill (len : Nat) (wasAlive : Bool)
  | sleep (len : Nat)
  deriving DecidableEq, Repr

/-- What a call of `read` came to. -/
inductive Answer
  | bytes (read : List UInt8)
  /-- The `-1` that is the end of a stream. -/
  | ended
  /-- Thrown: the channel is closed. -/
  | failed
  deriving DecidableEq, Repr

def Answer.given : Answer → List UInt8
  | bytes read => read
  | ended | failed => []

structure Sys where
  /-- All that the file holds. -/
  file : List UInt8
  /-- Whether the program that appends to it runs. -/
  alive : Bool := true
  position : Nat := 0
  closed : Bool := false
  channelOpen : Bool := true
  /-- The interrupt flag of the reading thread. -/
  interrupted : Bool := false
  point : Point := .idle
  said : List Answer := []
  deriving DecidableEq, Repr

/-- What the reader has been handed, call after call. -/
def Sys.given (s : Sys) : List UInt8 := s.said.flatMap Answer.given

/-- What the file holds that has not been read. -/
def Sys.unread (s : Sys) : List UInt8 := s.file.drop s.position

inductive Event
  | append (printed : List UInt8)
  | die
  /-- `closed = true`. -/
  | close
  /-- `channel.close()`. -/
  | closeChannel
  | interrupt
  | call (len : Nat)
  | check
  | askAlive
  /-- `channel.read`, and how much of what is there it takes. -/
  | fill (count : Nat)
  | wake
  deriving DecidableEq, Repr

/-- The call returns. -/
def Sys.answer (s : Sys) (a : Answer) : Sys := { s with point := .idle, said := s.said ++ [a] }

/-- The program appends while it lives. -/
def Sys.write (s : Sys) (printed : List UInt8) : Option Sys :=
  if s.alive then some { s with file := s.file ++ printed } else none

/-- A call that asks for nothing is answered at once. -/
def Sys.called (s : Sys) (len : Nat) : Sys :=
  if len = 0 then s.answer (.bytes []) else { s with point := .turn len }

/-- `while (!closed)`. -/
def Sys.checked (s : Sys) (len : Nat) : Sys :=
  if s.closed then s.answer .ended else { s with point := .ask len }

/-- `channel.read`, and what the loop does with its count. A thread that is interrupted closes the
channel it reads from. -/
def Sys.filled (s : Sys) (len count : Nat) (wasAlive : Bool) : Option Sys :=
  if !s.channelOpen then some (s.answer .failed)
  else if s.interrupted then some ({ s with channelOpen := false }.answer .failed)
  else if s.unread = [] then
    some (if wasAlive then { s with point := .sleep len } else s.answer .ended)
  else if 0 < count ∧ count ≤ len ∧ count ≤ s.unread.length then
    some ({ s with position := s.position + count }.answer (.bytes (s.unread.take count)))
  else none

/-- The sleep ends by itself, or by an interrupt. -/
def Sys.woken (s : Sys) (len : Nat) : Sys :=
  if s.interrupted then s.answer .ended else { s with point := .turn len }

def step (s : Sys) : Event → Option Sys
  | .append printed => s.write printed
  | .die => some { s with alive := false }
  | .close => some { s with closed := true }
  | .closeChannel => if s.closed then some { s with channelOpen := false } else none
  | .interrupt => some { s with interrupted := true }
  | .call len => match s.point with
    | .idle => some (s.called len)
    | _ => none
  | .check => match s.point with
    | .turn len => some (s.checked len)
    | _ => none
  | .askAlive => match s.point with
    | .ask len => some { s with point := .fill len s.alive }
    | _ => none
  | .fill count => match s.point with
    | .fill len wasAlive => s.filled len count wasAlive
    | _ => none
  | .wake => match s.point with
    | .sleep len => some (s.woken len)
    | _ => none

/-- The stream is opened on a file that may hold something already. -/
def start (file : List UInt8) : Sys := { file }

/-! ### What every schedule keeps -/

/-- Nobody but the program has made an end of the stream. -/
def Sys.Undisturbed (s : Sys) : Prop := s.closed = false ∧ s.interrupted = false

instance (s : Sys) : Decidable s.Undisturbed :=
  inferInstanceAs (Decidable (s.closed = false ∧ s.interrupted = false))

/-- How much the call under way asks for; a call of its own would ask for one byte. -/
def Point.room : Point → Nat
  | idle => 1
  | turn len | ask len | fill len _ | sleep len => len

structure Inv (s : Sys) : Prop where
  room : s.point.room ≠ 0
  within : s.position ≤ s.file.length
  given_eq : s.given = s.file.take s.position
  /-- An answer that the program is gone is still true when the file is read. -/
  gone : ∀ len, s.point = .fill len false → s.alive = false
  ended : .ended ∈ s.said → s.Undisturbed → s.alive = false ∧ s.unread = []
  isOpen : s.Undisturbed → s.channelOpen = true

@[simp] theorem Sys.given_answer (s : Sys) (a : Answer) :
    (s.answer a).given = s.given ++ a.given := by
  simp [given, answer]

theorem inv_start (file : List UInt8) : Inv (start file) where
  room := Nat.one_ne_zero
  within := Nat.zero_le _
  given_eq := rfl
  gone := fun _ h => nomatch h
  ended := fun h => nomatch h
  isOpen := fun _ => rfl

/-- A call may come back with nothing read, and with the end where the end may be said. -/
theorem Inv.answer {s : Sys} (h : Inv s) {a : Answer} (hgiven : a.given = [])
    (hended : a = .ended → s.Undisturbed → s.alive = false ∧ s.unread = []) : Inv (s.answer a) where
  room := Nat.one_ne_zero
  within := h.within
  given_eq := by
    rw [Sys.given_answer, hgiven, List.append_nil]
    exact h.given_eq
  gone := fun _ hp => nomatch hp
  ended := fun hmem hund => by
    rcases List.mem_append.mp hmem with hmem | hmem
    · exact h.ended hmem hund
    · exact hended (List.mem_singleton.mp hmem).symm hund
  isOpen := h.isOpen

/-- The reader moves on inside a call. -/
theorem Inv.moved {s : Sys} (h : Inv s) {p : Point} (hroom : p.room ≠ 0)
    (hp : ∀ len, p = .fill len false → s.alive = false) : Inv { s with point := p } where
  room := hroom
  within := h.within
  given_eq := h.given_eq
  gone := hp
  ended := h.ended
  isOpen := h.isOpen

/-- What is printed is printed by a program that lives, before any end was said. -/
theorem Inv.written {s s' : Sys} (h : Inv s) {printed : List UInt8}
    (hs : s.write printed = some s') : Inv s' := by
  unfold Sys.write at hs
  split at hs
  · rename_i halive
    cases hs
    have hwithin := h.within
    exact {
      room := h.room
      within := by
        simp only [List.length_append]
        omega
      given_eq := by
        rw [List.take_append_of_le_length h.within]
        exact h.given_eq
      gone := h.gone
      ended := fun hmem hund => absurd halive (by simp [(h.ended hmem hund).1])
      isOpen := h.isOpen }
  · cases hs

theorem Inv.called {s : Sys} (h : Inv s) (len : Nat) : Inv (s.called len) := by
  unfold Sys.called
  split
  · exact h.answer rfl (fun ha => nomatch ha)
  · rename_i hlen
    exact h.moved hlen (fun _ hp => nomatch hp)

theorem Inv.checked {s : Sys} {len : Nat} (h : Inv s) (hpoint : s.point = .turn len) :
    Inv (s.checked len) := by
  have hroom := h.room
  rw [hpoint] at hroom
  unfold Sys.checked
  split
  · rename_i hclosed
    exact h.answer rfl fun _ hund => absurd hclosed (by simp [hund.1])
  · exact h.moved hroom (fun _ hp => nomatch hp)

theorem Inv.woken {s : Sys} {len : Nat} (h : Inv s) (hpoint : s.point = .sleep len) :
    Inv (s.woken len) := by
  have hroom := h.room
  rw [hpoint] at hroom
  unfold Sys.woken
  split
  · rename_i hint
    exact h.answer rfl fun _ hund => absurd hint (by simp [hund.2])
  · exact h.moved hroom (fun _ hp => nomatch hp)

/-- The step that reads. Its end is honest for the order of the two questions: a program that was
gone before the file was read adds nothing after. -/
theorem Inv.filled {s s' : Sys} {len count : Nat} {wasAlive : Bool} (h : Inv s)
    (hpoint : s.point = .fill len wasAlive) (hs : s.filled len count wasAlive = some s') :
    Inv s' := by
  have hroom := h.room
  rw [hpoint] at hroom
  unfold Sys.filled at hs
  split at hs
  · cases hs
    exact h.answer rfl (fun ha => nomatch ha)
  split at hs
  · rename_i hint
    cases hs
    have hshut : Inv { s with channelOpen := false } := {
      room := h.room
      within := h.within
      given_eq := h.given_eq
      gone := h.gone
      ended := h.ended
      isOpen := fun hund => absurd (hint.symm.trans hund.2) (by decide) }
    exact hshut.answer rfl (fun ha => nomatch ha)
  split at hs
  · rename_i hunread
    cases hs
    cases wasAlive with
    | true => exact h.moved hroom (fun _ hp => nomatch hp)
    | false => exact h.answer rfl fun _ _ => ⟨h.gone len hpoint, hunread⟩
  split at hs
  · rename_i hunread hcount
    cases hs
    have hlen : s.unread.length = s.file.length - s.position := List.length_drop
    exact {
      room := Nat.one_ne_zero
      within := by
        simp only [Sys.answer]
        omega
      given_eq := by
        rw [Sys.given_answer]
        calc s.given ++ s.unread.take count
            = s.file.take s.position ++ (s.file.drop s.position).take count := by
              rw [h.given_eq, Sys.unread]
          _ = s.file.take (s.position + count) := List.take_add.symm
      gone := fun _ hp => nomatch hp
      ended := fun hmem hund => by
        have hmem : Answer.ended ∈ s.said := by simpa [Sys.answer] using hmem
        exact absurd (h.ended hmem hund).2 hunread
      isOpen := h.isOpen }
  · cases hs

theorem inv_step {s s' : Sys} {e : Event} (h : Inv s) (hs : step s e = some s') : Inv s' := by
  cases e with
  | append printed => exact h.written hs
  | die =>
      cases hs
      exact { h with
        gone := fun _ _ => rfl
        ended := fun hmem hund => ⟨rfl, (h.ended hmem hund).2⟩ }
  | close =>
      cases hs
      exact { h with
        ended := fun _ hund => nomatch hund.1
        isOpen := fun hund => nomatch hund.1 }
  | closeChannel =>
      simp only [step] at hs
      split at hs
      · rename_i hclosed
        cases hs
        exact { h with isOpen := fun hund => absurd (hclosed.symm.trans hund.1) (by decide) }
      · cases hs
  | interrupt =>
      cases hs
      exact { h with
        ended := fun _ hund => nomatch hund.2
        isOpen := fun hund => nomatch hund.2 }
  | call len =>
      simp only [step] at hs
      split at hs
      · cases hs
        exact h.called len
      · cases hs
  | check =>
      simp only [step] at hs
      split at hs
      · rename_i hpoint
        cases hs
        exact h.checked hpoint
      · cases hs
  | askAlive =>
      simp only [step] at hs
      split at hs
      · rename_i hpoint
        have hroom := h.room
        rw [hpoint] at hroom
        cases hs
        refine h.moved hroom fun len hp => ?_
        injection hp
      · cases hs
  | fill count =>
      simp only [step] at hs
      split at hs
      · rename_i hpoint
        exact h.filled hpoint hs
      · cases hs
  | wake =>
      simp only [step] at hs
      split at hs
      · rename_i hpoint
        cases hs
        exact h.woken hpoint
      · cases hs

/-! ### A reader that reads on -/

/-- What the reader does by itself, each call with room for something. -/
def Event.reads : Event → Bool
  | call len => len ≠ 0
  | check | askAlive | fill _ | wake => true
  | append _ | die | close | closeChannel | interrupt => false

/-- How far the end of a call is, with nothing left to read. -/
def Point.toEnd : Point → Nat
  | idle | sleep _ => 3
  | turn _ => 2
  | ask _ => 1
  | fill _ false => 0
  | fill _ true => 4

/-- The steps that are left to a reader whose program is gone. -/
def Sys.left (s : Sys) : Nat := 4 * s.unread.length + s.point.toEnd

/-- The program is gone and nobody else ends the stream: only reading is left. -/
structure Rest (s : Sys) : Prop extends Inv s where
  dead : s.alive = false
  undisturbed : s.Undisturbed

/-- The step that reads says the end when there is nothing left, and takes something else. -/
theorem Rest.filled {s s' : Sys} {len count : Nat} {wasAlive : Bool} (h : Rest s)
    (hpoint : s.point = .fill len wasAlive) (hs : s.filled len count wasAlive = some s') :
    Rest s' ∧ (.ended ∈ s'.said ∨ s'.left < s.left) := by
  have hinv : Inv s' := h.toInv.filled hpoint hs
  have hopen : ¬(!s.channelOpen) = true := by simp [h.isOpen h.undisturbed]
  have hint : ¬s.interrupted = true := by simp [h.undisturbed.2]
  simp only [Sys.filled, if_neg hopen, if_neg hint] at hs
  split at hs
  · cases wasAlive with
    | true =>
        cases hs
        refine ⟨⟨hinv, h.dead, h.undisturbed⟩, .inr ?_⟩
        simp [Sys.left, Sys.unread, hpoint, Point.toEnd]
    | false =>
        cases hs
        exact ⟨⟨hinv, h.dead, h.undisturbed⟩, .inl (by simp [Sys.answer])⟩
  · split at hs
    · rename_i hcount
      cases hs
      refine ⟨⟨hinv, h.dead, h.undisturbed⟩, .inr ?_⟩
      have htoEnd : 0 ≤ s.point.toEnd := Nat.zero_le _
      simp only [Sys.left, Sys.unread, Sys.answer, Point.toEnd, List.length_drop] at hcount ⊢
      omega
    · cases hs

/-- What a step of the reader comes to once the program is gone: the end, or a step less left. -/
theorem rest_step {s s' : Sys} {e : Event} (h : Rest s) (hreads : e.reads = true)
    (hs : step s e = some s') : Rest s' ∧ (.ended ∈ s'.said ∨ s'.left < s.left) := by
  have hinv : Inv s' := inv_step h.toInv hs
  have hclosed : ¬s.closed = true := by simp [h.undisturbed.1]
  have hint : ¬s.interrupted = true := by simp [h.undisturbed.2]
  cases e with
  | append | die | close | closeChannel | interrupt => cases hreads
  | call len =>
      have hlen : len ≠ 0 := by simpa [Event.reads] using hreads
      simp only [step] at hs
      split at hs
      · rename_i hpoint
        simp only [Sys.called, if_neg hlen, Option.some.injEq] at hs
        cases hs
        refine ⟨⟨hinv, h.dead, h.undisturbed⟩, .inr ?_⟩
        simp [Sys.left, Sys.unread, hpoint, Point.toEnd]
      · cases hs
  | check =>
      simp only [step] at hs
      split at hs
      · rename_i hpoint
        simp only [Sys.checked, if_neg hclosed, Option.some.injEq] at hs
        cases hs
        refine ⟨⟨hinv, h.dead, h.undisturbed⟩, .inr ?_⟩
        simp [Sys.left, Sys.unread, hpoint, Point.toEnd]
      · cases hs
  | askAlive =>
      simp only [step] at hs
      split at hs
      · rename_i hpoint
        cases hs
        refine ⟨⟨hinv, h.dead, h.undisturbed⟩, .inr ?_⟩
        simp [Sys.left, Sys.unread, hpoint, h.dead, Point.toEnd]
      · cases hs
  | fill count =>
      simp only [step] at hs
      split at hs
      · rename_i hpoint
        exact h.filled hpoint hs
      · cases hs
  | wake =>
      simp only [step] at hs
      split at hs
      · rename_i hpoint
        simp only [Sys.woken, if_neg hint, Option.some.injEq] at hs
        cases hs
        refine ⟨⟨hinv, h.dead, h.undisturbed⟩, .inr ?_⟩
        simp [Sys.left, Sys.unread, hpoint, Point.toEnd]
      · cases hs

/-- The reader is never stuck. -/
theorem Rest.exists_reads {s : Sys} (h : Rest s) :
    ∃ e, e.reads = true ∧ (step s e).isSome = true := by
  have hopen : ¬(!s.channelOpen) = true := by simp [h.isOpen h.undisturbed]
  have hint : ¬s.interrupted = true := by simp [h.undisturbed.2]
  have hroom := h.room
  cases hpoint : s.point with
  | idle => exact ⟨.call 1, rfl, by simp [step, hpoint]⟩
  | turn len => exact ⟨.check, rfl, by simp [step, hpoint]⟩
  | ask len => exact ⟨.askAlive, rfl, by simp [step, hpoint]⟩
  | sleep len => exact ⟨.wake, rfl, by simp [step, hpoint]⟩
  | fill len wasAlive =>
      refine ⟨.fill 1, rfl, ?_⟩
      rw [hpoint] at hroom
      simp only [step, hpoint, Sys.filled, if_neg hopen, if_neg hint]
      split
      · rfl
      · rename_i hunread
        have hlen : 0 < s.unread.length := List.length_pos_iff.mpr hunread
        have hroom : len ≠ 0 := hroom
        rw [if_pos (by omega)]
        rfl

/-! ### The stream -/

/-- What the program prints. -/
def Event.printed : Event → List UInt8
  | append printed => printed
  | die | close | closeChannel | interrupt | call _ | check | askAlive | fill _ | wake => []

theorem Sys.said_answer (s : Sys) (a : Answer) : s.said <+: (s.answer a).said :=
  List.prefix_append ..

/-- Reading writes nothing, and takes back no answer. -/
theorem Sys.filled_writes {s s' : Sys} {len count : Nat} {wasAlive : Bool}
    (hs : s.filled len count wasAlive = some s') : s'.file = s.file ∧ s.said <+: s'.said := by
  unfold Sys.filled at hs
  split at hs
  · cases hs
    exact ⟨rfl, s.said_answer _⟩
  split at hs
  · cases hs
    exact ⟨rfl, s.said_answer _⟩
  split at hs
  · cases wasAlive with
    | true =>
        cases hs
        exact ⟨rfl, List.prefix_rfl⟩
    | false =>
        cases hs
        exact ⟨rfl, s.said_answer _⟩
  split at hs
  · cases hs
    exact ⟨rfl, s.said_answer _⟩
  · cases hs

/-- A step writes what it prints, and takes back no answer. -/
theorem step_writes {s s' : Sys} {e : Event} (hs : step s e = some s') :
    s'.file = s.file ++ e.printed ∧ s.said <+: s'.said := by
  cases e with
  | append printed =>
      simp only [step, Sys.write] at hs
      split at hs
      · cases hs
        exact ⟨rfl, List.prefix_rfl⟩
      · cases hs
  | die | close | interrupt =>
      cases hs
      exact ⟨(List.append_nil _).symm, List.prefix_rfl⟩
  | closeChannel =>
      simp only [step] at hs
      split at hs
      · cases hs
        exact ⟨(List.append_nil _).symm, List.prefix_rfl⟩
      · cases hs
  | call len =>
      simp only [step, Sys.called] at hs
      split at hs
      · cases hs
        split
        · exact ⟨(List.append_nil _).symm, s.said_answer _⟩
        · exact ⟨(List.append_nil _).symm, List.prefix_rfl⟩
      · cases hs
  | check =>
      simp only [step, Sys.checked] at hs
      split at hs
      · cases hs
        split
        · exact ⟨(List.append_nil _).symm, s.said_answer _⟩
        · exact ⟨(List.append_nil _).symm, List.prefix_rfl⟩
      · cases hs
  | askAlive =>
      simp only [step] at hs
      split at hs
      · cases hs
        exact ⟨(List.append_nil _).symm, List.prefix_rfl⟩
      · cases hs
  | fill count =>
      simp only [step] at hs
      split at hs
      · obtain ⟨hfile, hsaid⟩ := Sys.filled_writes hs
        exact ⟨hfile.trans (List.append_nil _).symm, hsaid⟩
      · cases hs
  | wake =>
      simp only [step, Sys.woken] at hs
      split at hs
      · cases hs
        split
        · exact ⟨(List.append_nil _).symm, s.said_answer _⟩
        · exact ⟨(List.append_nil _).symm, List.prefix_rfl⟩
      · cases hs

theorem file_run {s s' : Sys} {es : List Event} (hrun : run step s es = some s') :
    s'.file = s.file ++ es.flatMap Event.printed := by
  induction es generalizing s with
  | nil =>
      cases hrun
      exact (List.append_nil _).symm
  | cons e es ih =>
      obtain ⟨t, ht, hrest⟩ := run_cons_eq_some.mp hrun
      rw [ih hrest, (step_writes ht).1, List.append_assoc, List.flatMap_cons]

theorem inv_run {s : Sys} {file : List UInt8} {es : List Event}
    (hrun : run step (start file) es = some s) : Inv s :=
  run_inv (C := fun _ _ => True) (fun _ _ _ h _ hs => inv_step h hs) (inv_start file)
    (allSteps_of_forall fun _ _ _ => trivial) hrun

/-- Where all is read, all that was written has been given. -/
theorem Inv.given_of_unread {s : Sys} (h : Inv s) (hunread : s.unread = []) : s.given = s.file := by
  rw [h.given_eq]
  exact List.take_of_length_le (List.drop_eq_nil_iff.mp hunread)

/-- A reader that reads on comes to the end of a program that is gone. -/
theorem Rest.comes_to_end {s s' : Sys} (h : Rest s) {es : List Event}
    (hes : ∀ e ∈ es, e.reads = true) (hlen : s.left < es.length)
    (hrun : run step s es = some s') : .ended ∈ s'.said :=
  run_variant (C := fun _ e => e.reads = true) Sys.left
    (fun _ _ _ h hreads hs => rest_step h hreads hs)
    (fun _ _ _ hmem hs => (step_writes hs).2.subset hmem)
    h (allSteps_of_forall fun _ => hes) hlen hrun

/-- **A followed file reads as the program's output.** Whatever the two threads do in whatever
order, what the reader was handed is a beginning of what the program printed, in order and with
nothing lost or given twice. The stream ends, unless it was closed or its reader interrupted, when
the program is gone and all of it has been read, the last words too; and once the program is gone a
reader that reads on is never stuck and comes to that end. -/
theorem followed {file : List UInt8} {es : List Event} {s : Sys}
    (hrun : run step (start file) es = some s) :
    s.given <+: file ++ es.flatMap Event.printed ∧
      (.ended ∈ s.said → s.Undisturbed →
        s.alive = false ∧ s.given = file ++ es.flatMap Event.printed) ∧
      (s.alive = false → s.Undisturbed →
        (∃ e, e.reads = true ∧ (step s e).isSome = true) ∧
          ∀ fs s', (∀ e ∈ fs, e.reads = true) → 4 * s.unread.length + 4 < fs.length →
            run step s fs = some s' → .ended ∈ s'.said) := by
  have hinv : Inv s := inv_run hrun
  have hfile : s.file = file ++ es.flatMap Event.printed := file_run hrun
  refine ⟨?_, ?_, ?_⟩
  · rw [hinv.given_eq, hfile]
    exact List.take_prefix ..
  · intro hmem hund
    obtain ⟨hdead, hunread⟩ := hinv.ended hmem hund
    exact ⟨hdead, (hinv.given_of_unread hunread).trans hfile⟩
  · intro hdead hund
    have hrest : Rest s := ⟨hinv, hdead, hund⟩
    refine ⟨hrest.exists_reads, fun fs s' hfs hlen hrun' => hrest.comes_to_end hfs ?_ hrun'⟩
    have htoEnd : s.point.toEnd ≤ 4 := by
      cases s.point with
      | fill len wasAlive => cases wasAlive <;> simp [Point.toEnd]
      | idle | turn _ | ask _ | sleep _ => simp [Point.toEnd]
    unfold Sys.left
    omega

/-- The program prints its last words and ends between the reader's two questions; they are read
on this turn, and the end is said on the next. -/
def lastWords : List Event :=
  [.append [111], .call 8, .check, .askAlive, .fill 1, .call 8, .check, .askAlive, .append [107],
    .die, .fill 1, .call 8, .check, .askAlive, .fill 0]

theorem lastWords_run : (run step (start []) lastWords).isSome = true := by decide

theorem followed_lastWords :
    ∃ s, run step (start []) lastWords = some s ∧ .ended ∈ s.said ∧ s.given = [111, 107] :=
  have hrun := (Option.some_get lastWords_run).symm
  ⟨_, hrun, by decide, ((followed hrun).2.1 (by decide) (by decide)).2⟩

end Ghostlane.Desktop.FollowedFile
