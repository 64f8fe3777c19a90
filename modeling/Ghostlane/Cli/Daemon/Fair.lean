import Mathlib.Data.List.Chain
import Mathlib.Data.List.Nodup
import Ghostlane.Lib.Outcomes
import Ghostlane.Cli.Daemon.KillSwitch

/-!
# Ghostlane.Cli.Daemon.Fair

What one run of `connectLoop` attempts, round by round. The order of a round is fixed by
what the round before it ended on (`order`): the first is `orderCandidates`, each later one
`rotateAfter` of the candidates as they came, not of the order last tried. Along any schedule
the attempts are these orders in turn, the last of them perhaps cut short (`AtLoop`); that
no line is skipped, or tried twice in a row, is then a fact about the orders alone.
-/

namespace Ghostlane.Cli

open Ghostlane.Lib

/-! ### The order of one round -/

section Order

variable {cands : List Entry} {id : Text}

theorem findIdx?_id {i : Nat} (h : cands.findIdx? (·.id == id) = some i) :
    ∃ c, cands[i]? = some c ∧ c.id = id := by
  obtain ⟨hi, hid, -⟩ := List.findIdx?_eq_some_iff_getElem.mp h
  exact ⟨cands[i], List.getElem?_eq_getElem hi, by simpa using hid⟩

theorem rotateAfter_perm (cands : List Entry) (id : Text) : (rotateAfter cands id).Perm cands := by
  unfold rotateAfter
  split
  · rename_i i _
    exact List.perm_append_comm.trans (.of_eq (List.take_append_drop (i + 1) cands))
  · exact .refl _

/-- A rotated round ends on the line it was rotated after. -/
theorem getLast?_rotateAfter (h : ∃ c ∈ cands, c.id = id) :
    ∃ c, (rotateAfter cands id).getLast? = some c ∧ c.id = id := by
  unfold rotateAfter
  split
  · rename_i i hfind
    obtain ⟨c, hc, hid⟩ := findIdx?_id hfind
    refine ⟨c, ?_, hid⟩
    rw [List.take_add_one, hc, Option.toList_some, ← List.append_assoc, List.getLast?_concat]
  · rename_i hnone
    obtain ⟨c, hmem, hid⟩ := h
    rw [List.findIdx?_eq_none_iff] at hnone
    exact absurd hid (by simpa using hnone c hmem)

theorem orderCandidates_perm (good : Text) (cands : List Entry) :
    (orderCandidates good cands).Perm cands := by
  unfold orderCandidates
  split
  · rename_i i _
    have hsplit : cands.take (i + 1) ++ (cands.drop (i + 1)).take 1 ++ cands.drop (i + 2) =
        cands := by
      have hdrop : cands.drop (i + 2) = (cands.drop (i + 1)).drop 1 := by rw [List.drop_drop]
      rw [hdrop, List.append_assoc, List.take_append_drop, List.take_append_drop]
    exact (List.perm_append_comm.append_right _).trans (.of_eq hsplit)
  · exact .refl _

/-- The first round begins with the last good line, when that is a candidate. -/
theorem head?_orderCandidates {good : Text} (h : ∃ c ∈ cands, c.id = good) :
    ∃ c, (orderCandidates good cands).head? = some c ∧ c.id = good := by
  unfold orderCandidates
  split
  · rename_i i hfind
    obtain ⟨c, hc, hid⟩ := findIdx?_id hfind
    refine ⟨c, ?_, hid⟩
    rw [List.getElem?_drop, Nat.add_comm] at hc
    rw [List.take_one, List.head?_drop, hc]
    rfl
  · rename_i hnone
    obtain ⟨c, hmem, hid⟩ := h
    rw [List.findIdx?_eq_none_iff] at hnone
    cases cands with
    | nil => cases hmem
    | cons d rest =>
        rcases List.mem_cons.mp hmem with rfl | hmem
        · exact ⟨c, rfl, hid⟩
        · exact absurd hid (by simpa using hnone c hmem)

end Order

/-! ### One round after another -/

/-- The id of the line a round ends on. -/
def endsOn (round : List Entry) : Text := (round.getLast?.map (·.id)).getD []

/-- The order of each round. -/
def order (good : Text) (cands : List Entry) : Nat → List Entry
  | 0 => orderCandidates good cands
  | n + 1 => rotateAfter cands (endsOn (order good cands n))

section Rounds

variable {good : Text} {cands : List Entry}

theorem order_perm (n : Nat) : (order good cands n).Perm cands := by
  cases n with
  | zero => exact orderCandidates_perm good cands
  | succ n => exact rotateAfter_perm cands _

/-- Neighbours of a list have different ids. -/
abbrev NoneTwice (attempts : List Entry) : Prop := attempts.IsChain (·.id ≠ ·.id)

theorem noneTwice_of_nodup {t : List Entry} (h : (t.map (·.id)).Nodup) : NoneTwice t := by
  have hchain : (t.map (·.id)).IsChain (· ≠ ·) := h.isChain
  rwa [List.isChain_map] at hchain

theorem nodup_order (hids : (cands.map (·.id)).Nodup) (n : Nat) :
    ((order good cands n).map (·.id)).Nodup :=
  ((order_perm n).map _).nodup_iff.mpr hids

/-- A round does not begin with the line the round before it ended on. -/
theorem head?_order_succ (hids : (cands.map (·.id)).Nodup) (htwo : 2 ≤ cands.length) (n : Nat)
    {last first : Entry} (hlast : (order good cands n).getLast? = some last)
    (hfirst : (order good cands (n + 1)).head? = some first) : last.id ≠ first.id := by
  have hmem : last ∈ cands := (order_perm n).mem_iff.mp (List.mem_of_mem_getLast? hlast)
  have hends : endsOn (order good cands n) = last.id := by rw [endsOn, hlast]; rfl
  have hended : ∃ c ∈ cands, c.id = endsOn (order good cands n) := ⟨last, hmem, hends.symm⟩
  obtain ⟨c, hc, hid⟩ := getLast?_rotateAfter hended
  have hnodup : ((order good cands (n + 1)).map (·.id)).Nodup := nodup_order hids (n + 1)
  have hlen : (order good cands (n + 1)).length = cands.length := (order_perm (n + 1)).length_eq
  rw [← hends, ← hid]
  rw [show rotateAfter cands (endsOn (order good cands n)) = order good cands (n + 1)
    from rfl] at hc
  generalize order good cands (n + 1) = t at *
  -- a list of two lines or more whose ids differ does not end with what it begins with
  match t, hlen with
  | [], hlen => simp at hlen; omega
  | [d], hlen => simp at hlen; omega
  | d :: e :: rest, _ =>
      cases hfirst
      rw [List.getLast?_cons_cons] at hc
      have hin : c.id ∈ (e :: rest).map (·.id) :=
        List.mem_map_of_mem (List.mem_of_mem_getLast? hc)
      rw [List.map_cons, List.nodup_cons] at hnodup
      intro heq
      exact hnodup.1 (heq ▸ hin)

/-- The lines of the first `n` rounds, in the order they are attempted in. -/
def firstRounds (good : Text) (cands : List Entry) (n : Nat) : List Entry :=
  ((List.range n).map (order good cands)).flatten

theorem firstRounds_succ (n : Nat) :
    firstRounds good cands (n + 1) = firstRounds good cands n ++ order good cands n := by
  simp [firstRounds, List.range_succ]

theorem noneTwice_firstRounds (hids : (cands.map (·.id)).Nodup) (htwo : 2 ≤ cands.length) (n : Nat)
    {begun : List Entry} (hbegun : begun <+: order good cands n) :
    NoneTwice (firstRounds good cands n ++ begun) := by
  induction n generalizing begun with
  | zero =>
      refine noneTwice_of_nodup ?_
      exact (nodup_order hids 0).sublist (hbegun.sublist.map _)
  | succ n ih =>
      rw [firstRounds_succ, NoneTwice, List.isChain_append]
      refine ⟨ih (List.prefix_refl _), ?_, ?_⟩
      · exact noneTwice_of_nodup ((nodup_order hids (n + 1)).sublist (hbegun.sublist.map _))
      · intro last hlast first hfirst
        have hne : order good cands n ≠ [] := by
          intro hnil
          have hlen : (order good cands n).length = cands.length := (order_perm n).length_eq
          rw [hnil] at hlen
          simp at hlen
          omega
        rw [List.getLast?_append_of_ne_nil _ hne] at hlast
        refine head?_order_succ hids htwo n hlast ?_
        obtain ⟨rest, hrest⟩ := hbegun
        rw [← hrest, List.head?_append, hfirst]
        rfl

end Rounds

/-- Remembering a line leaves its selection's key. -/
theorem lastGoodKey_resolve [External] (subs : List Subscription) (w : Lists) (all : List Indexed)
    (sel : Selection) : lastGoodKey (resolve subs w all sel).sel = lastGoodKey sel := by
  have hasked := resolve_asked subs w all sel
  simp only [Selection.asked, Prod.mk.injEq] at hasked
  rw [lastGoodKey, lastGoodKey, hasked.1, hasked.2.1]

/-! ### What a loop attempts -/

/-- The attempts of a loop: the rounds that are over, oldest first, and the lines attempted
in the one under way. -/
structure Rounds where
  ended : List (List Entry) := []
  current : List Entry := []
  deriving DecidableEq

/-- Every line attempted, in order. -/
def Rounds.attempts (r : Rounds) : List Entry := r.ended.flatten ++ r.current

/-- The rest of the round a loop is in. -/
def Phase.rest : Phase → Option (List Entry)
  | .trying rest _ | .bringing _ _ rest _ | .up _ _ rest => some rest
  | .head | .remembering .. => none

/-- What the loop reads of its lists. -/
def Event.lists : Event → Option Lists
  | .loop (.readLists lists) => some lists
  | _ => none

namespace Daemon

/-- What one step adds: `connectLoop` takes the next line of its round, or the round is over. -/
def record (s : Daemon) (e : Event) (r : Rounds) : Rounds :=
  match s.loop, e with
  | some l, .loop .next =>
      match l.phase with
      | .trying [] _ => { ended := r.ended ++ [r.current] }
      | .trying (c :: _) _ =>
          if s.cancelledIn l then r else { r with current := r.current ++ [c] }
      | _ => r
  | _, _ => r

variable [External]

/-- What is attempted along a schedule. -/
def rounds (s : Daemon) : List Event → Rounds → Rounds
  | [], r => r
  | e :: es, r =>
      match s.step e with
      | some t => rounds t es (s.record e r)
      | none => r

/-- Where the loop goes round again in `s`, the connectable candidates it finds are `cands`. -/
def Offers (cands : List Entry) (s : Daemon) (e : Event) : Prop :=
  ∀ l ∈ s.loop, s.cancelledIn l = false → ∀ lists ∈ e.lists,
    ∀ all ∈ allEntries s.cfg.subscriptions lists l.sel.subscription,
      ((resolve s.cfg.subscriptions lists all l.sel).cands.map fun found =>
        found.filter Entry.connectable) = .ok cands

instance (cands : List Entry) (s : Daemon) (e : Event) : Decidable (s.Offers cands e) :=
  inferInstanceAs (Decidable (∀ l ∈ s.loop, _ → ∀ lists ∈ e.lists, _))

/-- A loop runs. -/
def LoopLives (s : Daemon) (_ : Event) : Prop := s.loop.isSome = true

instance (s : Daemon) (e : Event) : Decidable (s.LoopLives e) :=
  inferInstanceAs (Decidable (s.loop.isSome = true))

/-! ### What a step does to the attempts -/

/-- The outcomes of a step for the loop at `l`. -/
inductive Walks (s : Daemon) (l : Loop) : Event → Daemon → Prop
  /-- Not a move of the loop; its context may have been cancelled. -/
  | beside {e s'} (cancelled : Bool) (hloop : s'.loop = some { l with cancelled })
      (hgood : s'.lastGood = s.lastGood) (hsame : ∀ r, s.record e r = r) : Walks s l e s'
  | ends {e s'} (hloop : s'.loop = none) (hsame : ∀ r, s.record e r = r) : Walks s l e s'
  /-- The lists cannot be read now. -/
  | waits {lists} (hphase : l.phase = .head) : Walks s l (.loop (.readLists lists)) s
  | remembers {lists s'} (all : List Indexed) (clone : Config) (hphase : l.phase = .head)
      (hlive : s.cancelledIn l = false)
      (hall : allEntries s.cfg.subscriptions lists l.sel.subscription = some all)
      (hloop : s'.loop = some { l with
        sel := (resolve s.cfg.subscriptions lists all l.sel).sel
        phase := .remembering clone (resolve s.cfg.subscriptions lists all l.sel).cands })
      (hgood : s'.lastGood = s.lastGood) : Walks s l (.loop (.readLists lists)) s'
  | begins {lists} (all : List Indexed) (hphase : l.phase = .head)
      (hlive : s.cancelledIn l = false)
      (hall : allEntries s.cfg.subscriptions lists l.sel.subscription = some all) :
      Walks s l (.loop (.readLists lists))
        (s.startRound { l with sel := (resolve s.cfg.subscriptions lists all l.sel).sel }
          (resolve s.cfg.subscriptions lists all l.sel).cands)
  | remembered {ok clone found} (file : Config) (hphase : l.phase = .remembering clone found) :
      Walks s l (.loop (.saved ok)) ({ s with file }.startRound l found)
  | roundOver {anyUp s'} (hphase : l.phase = .trying [] anyUp)
      (hloop : s'.loop = some { l with phase := .head }) : Walks s l (.loop .next) s'
  | attempts {c rest anyUp s'} (hphase : l.phase = .trying (c :: rest) anyUp)
      (hlive : s.cancelledIn l = false)
      (hloop : s'.loop = some
        { l with lastTried := c.id, phase := .bringing .proving c rest anyUp }) :
      Walks s l (.loop .next) s'
  /-- The line that was attempted comes up, goes down or is given up. -/
  | goesOn {e s' phase rest} (hrest : l.phase.rest = some rest) (hrest' : phase.rest = some rest)
      (hloop : s'.loop = some { l with phase }) (hsame : ∀ r, s.record e r = r) : Walks s l e s'

omit [External] in
theorem record_beside (s : Daemon) {e : Event} (h : ∀ f, e ≠ .loop f) (r : Rounds) :
    s.record e r = r := by
  unfold record
  split
  · exact absurd rfl (h _)
  · rfl

omit [External] in
theorem record_of_ne (s : Daemon) {e : LoopEvent} (h : e ≠ .next) (r : Rounds) :
    s.record (.loop e) r = r := by
  unfold record
  split
  · rename_i heq
    cases heq
    exact absurd rfl h
  · rfl

theorem loopStep_walks {s s' : Daemon} {l : Loop} {e : LoopEvent} (hl : s.loop = some l)
    (h : s.loopStep e = some s') : Walks s l (.loop e) s' := by
  unfold loopStep at h
  rw [hl] at h
  dsimp only at h
  have hkept : ∀ f : LoopEvent, f ≠ .next → ∀ r, s.record (.loop f) r = r :=
    fun f hf => s.record_of_ne hf
  split at h
  · rename_i lists hphase
    cases h
    unfold beginRound
    split
    · exact .ends rfl (hkept _ nofun)
    · rename_i hlive
      have hlive : s.cancelledIn l = false := by simpa using hlive
      split
      · exact .waits hphase
      · rename_i all hall
        dsimp only
        split
        · exact .remembers all _ hphase hlive hall rfl rfl
        · exact .begins all hphase hlive hall
  · rename_i hphase
    cases h
    exact .remembered _ hphase
  · rename_i hphase
    cases h
    exact .roundOver hphase rfl
  · rename_i c rest anyUp hphase
    split at h <;> cases h
    · rename_i hended
      refine .ends rfl fun r => ?_
      simp only [record, hl, hphase, hended, if_true]
    · rename_i hlive
      exact .attempts hphase (by simpa using hlive) rfl
  · rename_i hphase
    split at h
    · cases h
      exact .goesOn (by rw [hphase]; rfl) rfl rfl (hkept _ nofun)
    · split at h <;> cases h <;> exact .goesOn (by rw [hphase]; rfl) rfl rfl (hkept _ nofun)
  · rename_i hphase
    split at h
    · cases h
      exact .goesOn (by rw [hphase]; rfl) rfl rfl (hkept _ nofun)
    · split at h <;> cases h <;> exact .goesOn (by rw [hphase]; rfl) rfl rfl (hkept _ nofun)
  · rename_i hphase
    split at h <;> cases h <;> exact .goesOn (by rw [hphase]; rfl) rfl rfl (hkept _ nofun)
  · rename_i hphase
    split at h <;> cases h <;> exact .goesOn (by rw [hphase]; rfl) rfl rfl (hkept _ nofun)
  · rename_i hphase
    split at h <;> cases h <;> exact .goesOn (by rw [hphase]; rfl) rfl rfl (hkept _ nofun)
  · rename_i hphase
    split at h <;> cases h
    · exact .ends rfl (hkept _ nofun)
    · exact .goesOn (by rw [hphase]; rfl) rfl rfl (hkept _ nofun)
  · cases h

/-- What is not the loop's leaves it where it stands, and the last good lines alone. -/
theorem beside_of_step {s s' : Daemon} {l : Loop} {e : Event} (hl : s.loop = some l)
    (he : ∀ f, e ≠ .loop f) (h : s.step e = some s') :
    ∃ cancelled, s'.loop = some { l with cancelled } ∧ s'.lastGood = s.lastGood := by
  have hstays : s.loop = some { l with cancelled := l.cancelled } := hl
  have hcancels : s.cancelLoop.loop = some { l with cancelled := true } := by
    rw [cancelLoop, hl]
    rfl
  cases step_move h with
  | request hmove => exact ⟨_, hmove.frame.loop.trans hstays, hmove.frame.lastGood⟩
  | section_ hmove =>
      cases hmove with
      | refused => exact ⟨_, hstays, rfl⟩
      | checked | refreshLeaves => exact ⟨_, hstays, rfl⟩
      | stores | storedStarts | storedLeaves | runEnds => exact ⟨_, hstays, rfl⟩
      | locksStart | locksStop | refreshStarts | locksRun => exact ⟨_, hcancels, rfl⟩
      | waited _ hloop | starts hloop | stops hloop | serves hloop | returns hloop =>
          rw [hl] at hloop
          cases hloop
  | loop => exact absurd rfl (he _)
  | syncs => exact ⟨_, hstays, rfl⟩
  | unread => exact ⟨_, hstays, rfl⟩

theorem step_walks {s s' : Daemon} {l : Loop} {e : Event} (hl : s.loop = some l)
    (h : s.step e = some s') : Walks s l e s' := by
  by_cases he : ∃ f, e = .loop f
  · obtain ⟨f, rfl⟩ := he
    unfold step at h
    split at h
    · cases h
    · exact loopStep_walks hl h
  · have hnot : ∀ f, e ≠ .loop f := fun f hf => he ⟨f, hf⟩
    obtain ⟨cancelled, hloop, hgood⟩ := beside_of_step hl hnot h
    exact .beside cancelled hloop hgood (s.record_beside hnot)

/-! ### The attempts are the orders -/

/-- Where a loop stands among its rounds: those before are over, and of the order of this one
what is not attempted is what remains. -/
def AtLoop (good : Text) (cands : List Entry) (s : Daemon) (l : Loop) (r : Rounds) : Prop :=
  match l.phase.rest with
  | some rest =>
      l.round = r.ended.length + 1 ∧ cands ≠ [] ∧
        r.current ++ rest = order good cands r.ended.length ∧
        (r.current ≠ [] → l.lastTried = endsOn r.current)
  | none =>
      l.round = r.ended.length ∧ r.current = [] ∧
        (r.ended = [] → s.lastGood (lastGoodKey l.sel) = good) ∧
        (∀ n, r.ended.length = n + 1 → l.lastTried = endsOn (order good cands n)) ∧
        ∀ clone found, l.phase = .remembering clone found →
          ∃ found', found = .ok found' ∧ found'.filter Entry.connectable = cands

/-- The attempts so far are the first rounds, and a part of the next. -/
structure InOrder (good : Text) (cands : List Entry) (s : Daemon) (r : Rounds) : Prop where
  ended : r.ended = (List.range r.ended.length).map (order good cands)
  current : r.current <+: order good cands r.ended.length
  atLoop : ∀ l, s.loop = some l → AtLoop good cands s l r

omit [External] in
/-- A round begins in its order. -/
theorem atLoop_startRound {good : Text} {cands found : List Entry} {s : Daemon} {l : Loop}
    {r : Rounds} (hround : l.round = r.ended.length) (hcurrent : r.current = [])
    (hgood : r.ended = [] → s.lastGood (lastGoodKey l.sel) = good)
    (hlast : ∀ n, r.ended.length = n + 1 → l.lastTried = endsOn (order good cands n))
    (hfound : found.filter Entry.connectable = cands) {l' : Loop}
    (hl' : (s.startRound l (.ok found)).loop = some l') :
    AtLoop good cands (s.startRound l (.ok found)) l' r := by
  have hround' : (if l.round = 0 then orderCandidates (s.lastGood (lastGoodKey l.sel)) cands
      else rotateAfter cands l.lastTried) = order good cands r.ended.length := by
    cases hn : r.ended.length with
    | zero =>
        rw [if_pos (hround.trans hn), hgood (List.length_eq_zero_iff.mp hn)]
        rfl
    | succ n =>
        rw [if_neg (by omega), hlast n hn]
        rfl
  unfold startRound at hl' ⊢
  dsimp only at hl' ⊢
  rw [hfound] at hl' ⊢
  cases hcands : cands with
  | nil =>
      rw [hcands] at hl'
      cases hl'
  | cons c rest =>
      rw [hcands] at hl' hround'
      cases hl'
      simp only [AtLoop, Phase.rest]
      refine ⟨by rw [hround], by simp, ?_, fun hne => absurd hcurrent hne⟩
      rw [hcurrent, List.nil_append]
      exact hround'

/-- **A step keeps the order.** -/
theorem inOrder_step {good : Text} {cands : List Entry} {s s' : Daemon} {e : Event} {r : Rounds}
    (h : InOrder good cands s r) (hruns : s.LoopLives e) (hoffers : Offers cands s e)
    (hstep : s.step e = some s') : InOrder good cands s' (s.record e r) := by
  obtain ⟨l, hl⟩ := Option.isSome_iff_exists.mp hruns
  have hat := h.atLoop l hl
  -- a step that attempts nothing has the loop's place to show only
  have hstays : s.record e r = r → (∀ l', s'.loop = some l' → AtLoop good cands s' l' r) →
      InOrder good cands s' (s.record e r) := by
    intro hsame hplace
    rw [hsame]
    exact ⟨h.ended, h.current, hplace⟩
  cases step_walks hl hstep with
  | beside cancelled hloop hgood hsame =>
      refine hstays (hsame r) fun l' hl' => ?_
      rw [hloop] at hl'
      cases hl'
      unfold AtLoop at hat ⊢
      rw [hgood]
      exact hat
  | ends hloop hsame =>
      refine hstays (hsame r) fun l' hl' => ?_
      rw [hloop] at hl'
      cases hl'
  | waits hphase => exact hstays (s.record_of_ne (by simp) r) h.atLoop
  | remembers all clone hphase hlive hall hloop hgood =>
      obtain ⟨found, hfound, hcands⟩ := map_eq_ok.mp (hoffers l hl hlive _ rfl all hall)
      refine hstays (s.record_of_ne (by simp) r) fun l' hl' => ?_
      rw [hloop] at hl'
      cases hl'
      rw [AtLoop, hphase] at hat
      obtain ⟨hround, hcurrent, hgood₀, hlast, -⟩ := hat
      refine ⟨hround, hcurrent, fun hover => ?_, hlast, ?_⟩
      · rw [hgood, ← hgood₀ hover, lastGoodKey_resolve]
      · intro clone' found' heq
        cases heq
        exact ⟨found, hfound, hcands⟩
  | @begins lists all hphase hlive hall =>
      obtain ⟨found, hfound, hcands⟩ := map_eq_ok.mp (hoffers l hl hlive _ rfl all hall)
      refine hstays (s.record_of_ne (by simp) r) fun l' hl' => ?_
      rw [AtLoop, hphase] at hat
      obtain ⟨hround, hcurrent, hgood, hlast, -⟩ := hat
      rw [hfound] at hl' ⊢
      refine atLoop_startRound
        (l := { l with sel := (resolve s.cfg.subscriptions lists all l.sel).sel })
        hround hcurrent (fun hover => ?_) hlast hcands hl'
      rw [← hgood hover, lastGoodKey_resolve]
  | remembered file hphase =>
      refine hstays (s.record_of_ne (by simp) r) fun l' hl' => ?_
      rw [AtLoop, hphase] at hat
      obtain ⟨hround, hcurrent, hgood, hlast, hsaved⟩ := hat
      obtain ⟨found, rfl, hcands⟩ := hsaved _ _ rfl
      exact atLoop_startRound (s := { s with file }) hround hcurrent hgood hlast hcands hl'
  | roundOver hphase hloop =>
      rw [AtLoop, hphase] at hat
      obtain ⟨hround, hne, hcurrent, hlast⟩ := hat
      rw [List.append_nil] at hcurrent
      have hrecord : s.record (.loop .next) r = { ended := r.ended ++ [r.current] } := by
        simp only [record, hl, hphase]
      have hlength : (r.ended ++ [r.current]).length = r.ended.length + 1 := by
        rw [List.length_append, List.length_singleton]
      rw [hrecord]
      refine ⟨?_, List.nil_prefix, fun l' hl' => ?_⟩
      · dsimp only
        rw [hlength, List.range_succ, List.map_append, ← h.ended, hcurrent]
        rfl
      · rw [hloop] at hl'
        cases hl'
        refine ⟨by dsimp only; rw [hlength, hround], rfl, ?_, ?_, ?_⟩
        · intro hnil
          simp at hnil
        · intro n hn
          dsimp only at hn ⊢
          rw [hlength, Nat.add_right_cancel_iff] at hn
          rw [← hn, ← hcurrent]
          refine hlast fun hnil => hne ?_
          rw [hnil] at hcurrent
          exact List.nil_perm.mp (hcurrent ▸ order_perm r.ended.length)
        · intro clone found heq
          cases heq
  | @attempts c rest anyUp _ hphase hlive hloop =>
      rw [AtLoop, hphase] at hat
      obtain ⟨hround, hne, hcurrent, -⟩ := hat
      have hrecord : s.record (.loop .next) r = { r with current := r.current ++ [c] } := by
        simp only [record, hl, hphase, hlive, Bool.false_eq_true, if_false]
      have hnow : r.current ++ [c] ++ rest = order good cands r.ended.length := by
        rw [List.append_assoc]
        exact hcurrent
      rw [hrecord]
      refine ⟨h.ended, ⟨rest, hnow⟩, fun l' hl' => ?_⟩
      rw [hloop] at hl'
      cases hl'
      refine ⟨hround, hne, hnow, fun _ => ?_⟩
      simp [endsOn]
  | goesOn hrest hrest' hloop hsame =>
      refine hstays (hsame r) fun l' hl' => ?_
      rw [hloop] at hl'
      cases hl'
      rw [AtLoop, hrest] at hat
      rw [AtLoop, hrest']
      exact hat

theorem inOrder_rounds {good : Text} {cands : List Entry} {s s' : Daemon} {es : List Event}
    {r : Rounds} (h : InOrder good cands s r) (hruns : AllSteps step LoopLives s es)
    (hoffers : AllSteps step (Offers cands) s es) (hrun : run step s es = some s') :
    InOrder good cands s' (s.rounds es r) := by
  induction es generalizing s r with
  | nil =>
      cases hrun
      exact h
  | cons e es ih =>
      obtain ⟨t, ht, hrest⟩ := run_cons_eq_some.mp hrun
      rw [rounds, ht]
      exact ih (inOrder_step h hruns.1 hoffers.1 ht) (hruns.2 t ht) (hoffers.2 t ht) hrest

end Daemon

/-! ### Fairness -/

/-- Every round that is over attempted each candidate once, the one under way none twice; the
first began with the last good line; and no line was attempted twice in a row. -/
structure Fair (good : Text) (cands : List Entry) (r : Rounds) : Prop where
  each : ∀ round ∈ r.ended, round.Perm cands
  current : ∃ rest, (r.current ++ rest).Perm cands
  first : ∀ c ∈ cands, c.id = good → ∀ d, r.attempts.head? = some d → d = c
  noneTwice : 2 ≤ cands.length → NoneTwice r.attempts

theorem fair_of_orders {good : Text} {cands : List Entry} (hids : (cands.map (·.id)).Nodup)
    {r : Rounds} (hover : r.ended = (List.range r.ended.length).map (order good cands))
    (hcurrent : r.current <+: order good cands r.ended.length) : Fair good cands r := by
  have hattempts : r.attempts = firstRounds good cands r.ended.length ++ r.current := by
    rw [Rounds.attempts, firstRounds, ← hover]
  refine ⟨?_, ?_, ?_, ?_⟩
  · intro round hround
    rw [hover] at hround
    obtain ⟨n, -, rfl⟩ := List.mem_map.mp hround
    exact order_perm n
  · obtain ⟨rest, hrest⟩ := hcurrent
    exact ⟨rest, hrest ▸ order_perm _⟩
  · intro c hc hgood d hd
    -- the attempts begin as the first order does
    have hprefix : r.attempts <+: order good cands 0 ∨ order good cands 0 <+: r.attempts := by
      rw [hattempts]
      cases hn : r.ended.length with
      | zero =>
          rw [hn] at hcurrent
          exact .inl hcurrent
      | succ n =>
          refine .inr ?_
          rw [firstRounds, List.range_succ_eq_map, List.map_cons, List.flatten_cons,
            List.append_assoc]
          exact List.prefix_append _ _
    have hfound : ∃ c ∈ cands, c.id = good := ⟨c, hc, hgood⟩
    obtain ⟨c', hc', hid⟩ := head?_orderCandidates hfound
    have hfirst : d = c' := by
      rw [show orderCandidates good cands = order good cands 0 from rfl] at hc'
      rcases hprefix with ⟨t, ht⟩ | ⟨t, ht⟩
      · rw [← ht, List.head?_append, hd] at hc'
        exact Option.some.inj hc'
      · rw [← ht, List.head?_append, hc'] at hd
        exact (Option.some.inj hd).symm
    have hmem : c' ∈ cands :=
      (orderCandidates_perm good cands).mem_iff.mp (List.mem_of_mem_head? hc')
    rw [hfirst]
    exact List.inj_on_of_nodup_map hids hmem hc (hid.trans hgood.symm)
  · intro htwo
    rw [hattempts]
    exact noneTwice_firstRounds hids htwo _ hcurrent

namespace Daemon

variable [External]

/-- **The connect loop is fair.** From its start to its end, whatever else the daemon does and
whatever becomes of a line, if the lists offer the same candidates in every round. -/
theorem connectLoop_fair {s s' : Daemon} {sel : Selection} {cands : List Entry} {es : List Event}
    (hstart : s.loop = some { sel }) (hids : (cands.map (·.id)).Nodup)
    (hruns : AllSteps step LoopLives s es) (hoffers : AllSteps step (Offers cands) s es)
    (hrun : run step s es = some s') :
    Fair (s.lastGood (lastGoodKey sel)) cands (s.rounds es {}) := by
  have hinit : InOrder (s.lastGood (lastGoodKey sel)) cands s {} := by
    refine ⟨rfl, List.nil_prefix, fun l hl => ?_⟩
    rw [hstart] at hl
    cases hl
    refine ⟨rfl, rfl, fun _ => rfl, ?_, ?_⟩
    · intro n hn
      cases hn
    · intro clone found heq
      cases heq
  have hend := inOrder_rounds hinit hruns hoffers hrun
  exact fair_of_orders hids hend.ended hend.current

/-! ### A country of two lines -/

omit [External]

/-- A list with two lines of one country, and one of another between them. -/
def twoGermans : Lists :=
  (twoLists (some [txt "hy2://p@a.example:443#DE 1", txt "hy2://p@a.example:443#FR 1",
    txt "hy2://p@a.example:443#DE 2"])).lists

def germans : List Entry :=
  (@entries spelledIDs (txt "https://a.example/l") [txt "hy2://p@a.example:443#DE 1",
    txt "hy2://p@a.example:443#FR 1", txt "hy2://p@a.example:443#DE 2"]).filter (·.country =
      txt "DE")

def lastGerman : Text := (germans.getLast?.map (·.id)).getD []

/-- A loop over the country has just been started; its second line was the last good one. -/
def afresh : Daemon :=
  { init { guarded with selection := none } with
    lastGood := fun _ => lastGerman
    loop := some { sel := { subscription := [], selector := txt "DE", mode := .proxy } } }

/-- Neither line comes up in the first round; in the second one does, and goes down again. -/
def twoRounds : List Event :=
  [.loop (.readLists twoGermans), .loop .next, .loop (.proved false), .loop .next,
    .loop (.proved false), .loop .next, .request (.refresh 0 []), .loop (.readLists twoGermans),
    .loop .next, .loop (.proved true), .loop (.probed true .ok), .loop (.fronted true .ok),
    .loop (.confirmed true .ok true), .loop (.exited .ok), .loop .next]

theorem connectLoop_fair_twoRounds :
    Fair lastGerman germans (@rounds spelledIDs afresh twoRounds {}) ∧
      (@rounds spelledIDs afresh twoRounds {}).ended = [germans.reverse] ∧
      (@rounds spelledIDs afresh twoRounds {}).current = germans.reverse :=
  ⟨@connectLoop_fair spelledIDs afresh _ _ germans twoRounds rfl (by decide)
    (by decide) (by decide) rfl, by decide, by decide⟩

end Daemon

end Ghostlane.Cli
