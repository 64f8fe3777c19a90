import Ghostlane.Cli.Daemon.SavedConfig

/-!
# Ghostlane.Cli.Daemon.Rollback

A failed add takes back only itself, when it does. `add` appends its
subscription, lets go of `mu` for the fetch, and on a failure cuts the last
subscription off — whichever that is by then.

The statement compares two runs: one with the failing add, and one in which the
other requests take the same steps without it. While the add is in flight the
first list is the second with its subscription somewhere in it (`Beside`); the
rollback gives the second list back exactly when that place is the end.
-/

namespace Ghostlane.Cli

open Ghostlane.Lib

/-! ### A list with one subscription too many -/

/-- With the failing add in flight, the list holds its subscription beside the
others; otherwise it is theirs. -/
inductive Beside (u : Text) : Flight → List Subscription → List Subscription → Prop
  | same (l : List Subscription) : Beside u .idle l l
  | more {f : Flight} (pre post : List Subscription) (x : Subscription)
      (hf : f = .fetching u .add ∨ f = .rollingBack u)
      (hu : hasPrefix u (txt "https://") = true) (hx : x.url = u)
      (hothers : ∀ y ∈ pre ++ post, y.url ≠ u) : Beside u f (pre ++ x :: post) (pre ++ post)

namespace Beside

variable {u : Text} {f : Flight} {l l' : List Subscription}

/-- Where the failing add may be. -/
theorem flight (h : Beside u f l l') :
    (f = .idle ∧ l = l') ∨
      ((f = .fetching u .add ∨ f = .rollingBack u) ∧ hasPrefix u (txt "https://") = true) := by
  cases h with
  | same => exact .inl ⟨rfl, rfl⟩
  | more _ _ _ hf hu => exact .inr ⟨hf, hu⟩

theorem fails (h : Beside u (.fetching u .add) l l') : Beside u (.rollingBack u) l l' := by
  cases h with
  | more pre post x hf hu hx hothers => exact .more pre post x (.inr rfl) hu hx hothers

theorem append (h : Beside u f l l') (y : Subscription) (hy : f ≠ .idle → y.url ≠ u) :
    Beside u f (l ++ [y]) (l' ++ [y]) := by
  cases h with
  | same => exact .same _
  | more pre post x hf hu hx hothers =>
      have hne : f ≠ .idle := by rcases hf with rfl | rfl <;> simp
      have h' := Beside.more (f := f) pre (post ++ [y]) x hf hu hx (fun z hz => ?_)
      · simpa using h'
      · rw [← List.append_assoc] at hz
        rcases List.mem_append.mp hz with hz | hz
        · exact hothers z hz
        · rw [List.mem_singleton.mp hz]
          exact hy hne

theorem map (h : Beside u f l l') {g : Subscription → Subscription} (hg : ∀ x, (g x).url = x.url) :
    Beside u f (l.map g) (l'.map g) := by
  cases h with
  | same => exact .same _
  | more pre post x hf hu hx hothers =>
      rw [List.map_append, List.map_append, List.map_cons]
      refine .more _ _ _ hf hu ((hg x).trans hx) (fun y hy => ?_)
      rw [← List.map_append] at hy
      obtain ⟨z, hz, rfl⟩ := List.mem_map.mp hy
      rw [hg]
      exact hothers z hz

/-- Filters that keep its subscription. -/
theorem filter (h : Beside u f l l') {p : Subscription → Bool}
    (hp : f ≠ .idle → ∀ x ∈ l, x.url = u → p x = true) :
    Beside u f (l.filter p) (l'.filter p) := by
  cases h with
  | same => exact .same _
  | more pre post x hf hu hx hothers =>
      have hne : f ≠ .idle := by rcases hf with rfl | rfl <;> simp
      rw [List.filter_append, List.filter_append,
        List.filter_cons_of_pos (hp hne x (by simp) hx)]
      refine .more _ _ _ hf hu hx (fun y hy => ?_)
      rw [← List.filter_append] at hy
      exact hothers y (List.mem_of_mem_filter hy)

/-- Tests that do not see its subscription. -/
theorem any (h : Beside u f l l') {p : Subscription → Bool}
    (hp : f ≠ .idle → ∀ x ∈ l, x.url = u → p x = false) : l.any p = l'.any p := by
  cases h with
  | same => rfl
  | more pre post x hf hu hx hothers =>
      have hne : f ≠ .idle := by rcases hf with rfl | rfl <;> simp
      simp [hp hne x (by simp) hx]

/-- Another add's rollback, while its subscription is not the last. -/
theorem dropLast (h : Beside u f l l')
    (hlast : f ≠ .idle → l.getLast?.map Subscription.url ≠ some u) :
    Beside u f l.dropLast l'.dropLast ∧ (l = [] ↔ l' = []) := by
  cases h with
  | same => exact ⟨.same _, Iff.rfl⟩
  | more pre post x hf hu hx hothers =>
      have hne : f ≠ .idle := by rcases hf with rfl | rfl <;> simp
      have hpost : post ≠ [] := by
        rintro rfl
        exact hlast hne (by simp [hx])
      refine ⟨?_, by simp [hpost]⟩
      rw [List.dropLast_append_of_ne_nil (by simp), List.dropLast_append_of_ne_nil hpost,
        List.dropLast_cons_of_ne_nil hpost]
      refine .more _ _ _ hf hu hx (fun y hy => hothers y ?_)
      rcases List.mem_append.mp hy with hy | hy
      · exact List.mem_append_left _ hy
      · exact List.mem_append_right _ ((List.dropLast_sublist post).subset hy)

/-- Its own rollback, while its subscription is the last. -/
theorem rollBack (h : Beside u (.rollingBack u) l l')
    (hlast : l.getLast?.map Subscription.url = some u) : l.dropLast = l' := by
  cases h with
  | more pre post x hf hu hx hothers =>
      have hpost : post = [] := by
        by_contra hne
        obtain ⟨y, hy, hyu⟩ := Option.map_eq_some_iff.mp hlast
        rw [List.getLast?_append_of_ne_nil _ (by simp), List.getLast?_cons_of_ne_nil hne] at hy
        exact hothers y (List.mem_append_right _ (List.mem_of_getLast? hy)) hyu
      subst hpost
      simp

end Beside

/-! ### Flights up to what they have to save -/

/-- A flight without the clone it has to save. -/
def Flight.forget : Flight → Flight
  | saving _ after => saving Config.defaults after
  | f => f

theorem Flight.refreshing_of_forget {f : Flight} {due : List Text} {n : Nat}
    (h : (Flight.refreshing due n).forget = f.forget) : f = .refreshing due n := by
  cases f with
  | refreshing due' n' => exact h.symm
  | _ => cases h

namespace Daemon

/-- The run with the failing add in flight `i` and the run without it. -/
structure WithAdd (i : Nat) (u : Text) (s t : Daemon) : Prop where
  flights : ∀ j, j ≠ i → (s.flights j).forget = (t.flights j).forget
  lists : Beside u (s.flights i) s.cfg.subscriptions t.cfg.subscriptions
  idle : t.flights i = .idle
  sel : s.sel = t.sel
  crashed : s.crashed = t.crashed

variable {i : Nat} {u : Text} {s s' t t' : Daemon}

/-- Another flight moves, in both runs to the same point. -/
theorem WithAdd.moves (h : WithAdd i u s t) {j : Nat} {f g : Flight} (hj : j ≠ i)
    (hfl : s'.flights = Function.update s.flights j f)
    (hfl' : t'.flights = Function.update t.flights j g) (hfg : f.forget = g.forget)
    (hlists : Beside u (s.flights i) s'.cfg.subscriptions t'.cfg.subscriptions)
    (hsel : s'.sel = t'.sel) (hcrashed : s'.crashed = t'.crashed) : WithAdd i u s' t' where
  flights k hk := by
    rw [hfl, hfl']
    by_cases hkj : k = j
    · rw [hkj, Function.update_self, Function.update_self, hfg]
    · rw [Function.update_of_ne hkj, Function.update_of_ne hkj, h.flights k hk]
  lists := by
    rw [hfl, Function.update_of_ne hj.symm]
    exact hlists
  idle := by
    rw [hfl', Function.update_of_ne hj.symm, h.idle]
  sel := hsel
  crashed := hcrashed

theorem WithAdd.set (h : WithAdd i u s t) {j : Nat} {f g : Flight} (hj : j ≠ i)
    (hfg : f.forget = g.forget) : WithAdd i u (s.set j f) (t.set j g) :=
  h.moves hj rfl rfl hfg h.lists h.sel h.crashed

theorem WithAdd.write (h : WithAdd i u s t) (clone clone' : Config) (ok : Bool) :
    WithAdd i u (s.write clone ok) (t.write clone' ok) :=
  ⟨h.flights, h.lists, h.idle, h.sel, h.crashed⟩

/-- A goroutine's refresh is another flight, or the failing add, which counts none. -/
theorem WithAdd.childDone (h : WithAdd i u s t) (parent : Nat) :
    WithAdd i u (s.childDone parent) (t.childDone parent) := by
  by_cases hp : parent = i
  · subst hp
    have hs : s.childDone parent = s := by
      unfold Daemon.childDone
      split
      · rename_i hfl
        rcases h.lists.flight with ⟨hf, -⟩ | ⟨hf | hf, -⟩ <;> rw [hfl] at hf <;> cases hf
      · rfl
    have ht : t.childDone parent = t := by simp [Daemon.childDone, h.idle]
    rw [hs, ht]
    exact h
  · have hlike := h.flights parent hp
    unfold Daemon.childDone
    split
    · rename_i hfl
      rw [hfl] at hlike
      have ht : t.flights parent = _ := Flight.refreshing_of_forget hlike
      rw [ht]
      exact h.set hp rfl
    · rename_i hfl
      split
      · rename_i due n hfl'
        rw [hfl'] at hlike
        exact absurd (Flight.refreshing_of_forget hlike.symm) (hfl due n)
      · exact h

theorem WithAdd.fetchReturns (h : WithAdd i u s t) {j : Nat} (hj : j ≠ i) (caller : Caller) :
    WithAdd i u (s.fetchReturns j caller) (t.fetchReturns j caller) := by
  cases caller with
  | add => exact h.set hj rfl
  | refresh parent => exact (h.set hj rfl).childDone parent
  | reader => exact h.set hj rfl

theorem WithAdd.fetchFails (h : WithAdd i u s t) {j : Nat} (hj : j ≠ i) (url : Text)
    (caller : Caller) : WithAdd i u (s.fetchFails j url caller) (t.fetchFails j url caller) := by
  cases caller with
  | add => exact h.set hj rfl
  | refresh parent => exact (h.set hj rfl).childDone parent
  | reader => exact h.set hj rfl

theorem WithAdd.saved (h : WithAdd i u s t) {j : Nat} (hj : j ≠ i) (ok : Bool) (after : After) :
    WithAdd i u (s.saved j ok after) (t.saved j ok after) := by
  cases after with
  | reply => exact h.set hj rfl
  | connect sel => exact h.set hj rfl
  | fetchInto caller => exact h.fetchReturns hj caller

/-! ### The schedules compared -/

/-- Adds, inline adds, removes and what follows them. Flight `i` adds `u`, and
its fetch fails. -/
def FailingAdd (i : Nat) (u : Text) : Event → Prop
  | .request (.add j url _) => j = i → url = u
  | .request (.fetchAnswer j answer) => j = i → answer = none
  | .request (.rollBack _) => True
  | .request (.addInline j ..) | .request (.remove j _) | .request (.noteTitle j)
  | .request (.clone j) | .request (.save j _) => j ≠ i
  | .section_ (.lock j) | .section_ (.unlock j _) => j ≠ i
  | .section_ .waited | .loop _ | .addressChange .. => True
  | _ => False

variable [External]

/-- While the add is in flight: its own rollback finds its subscription last and
another's does not, nobody else adds its address, and no remove takes it. -/
def OnlyItself (i : Nat) (u : Text) (s : Daemon) : Event → Prop
  | .request (.rollBack j) =>
      s.flights i ≠ .idle → (s.cfg.subscriptions.getLast?.map Subscription.url = some u ↔ j = i)
  | .request (.add j url _) => s.flights i ≠ .idle → j ≠ i → url ≠ u
  | .request (.remove _ needle) =>
      s.flights i ≠ .idle → ∀ x ∈ s.cfg.subscriptions, x.url = u → removes needle x = false
  | _ => True

/-! ### One step of both runs -/

omit [External] in
/-- The others see the same addresses, but for the failing one. -/
theorem WithAdd.holds_url (h : WithAdd i u s t) {url : Text} (hne : s.flights i ≠ .idle → url ≠ u) :
    s.cfg.holds url = t.cfg.holds url := by
  refine h.lists.any (fun hpend x _ hx => ?_)
  rw [hx]
  exact beq_eq_false_iff_ne.mpr (fun heq => hne hpend heq.symm)

omit [External] in
/-- An inline subscription is none a URL add made. -/
theorem WithAdd.inline_ne (h : WithAdd i u s t) (text : Text) (hpend : s.flights i ≠ .idle) :
    inlinePrefix ++ text ≠ u := by
  rintro rfl
  rcases h.lists.flight with ⟨hidle, -⟩ | ⟨-, hu⟩
  · exact hpend hidle
  · have hno : hasPrefix (inlinePrefix ++ text) (txt "https://") = false := rfl
    rw [hno] at hu
    cases hu

omit [External] in
theorem noteTitle_url (url : Text) (hd : Headers) (x : Subscription) :
    (if x.url = url then { x with title := hd.title, intervalHours := hd.intervalHours }
      else x : Subscription).url = x.url := by
  split <;> rfl

theorem WithAdd.request (h : WithAdd i u s t) {e : RequestEvent} (hwho : e.who ≠ i)
    (hevent : FailingAdd i u (.request e)) (hC : OnlyItself i u s (.request e))
    (hs : RequestMove s e s') (ht : RequestMove t e t') : WithAdd i u s' t' := by
  cases hs with
  | @addRefused j url now hi hheld =>
      have hholds : s.cfg.holds url = t.cfg.holds url := h.holds_url fun hpend => hC hpend hwho
      cases ht with
      | addRefused => exact h
      | added _ hheld' => simp [← hholds, hheld] at hheld'
  | @added j url now hi hheld =>
      have hne : s.flights i ≠ .idle → url ≠ u := fun hpend => hC hpend hwho
      have hholds := h.holds_url hne
      cases ht with
      | addRefused _ hheld' => simp [← hholds, hheld] at hheld'
      | added => exact h.moves hwho rfl rfl rfl (h.lists.append _ hne) h.sel h.crashed
  | @inlineHeld j text title now hi hheld =>
      have hholds := h.holds_url (h.inline_ne text)
      cases ht with
      | inlineHeld => exact h
      | inlineAdded _ hheld' => simp [← hholds, hheld] at hheld'
  | @inlineAdded j text title now cfg hi hheld hcfg =>
      have hne := h.inline_ne text
      have hholds := h.holds_url hne
      cases ht with
      | inlineHeld _ hheld' => simp [← hholds, hheld] at hheld'
      | inlineAdded _ _ hcfg' =>
          subst hcfg hcfg'
          exact h.moves hwho rfl rfl rfl (h.lists.append _ hne) h.sel h.crashed
  | @removesNone j needle hi hany =>
      have hsame := h.lists.any (p := removes needle) hC
      cases ht with
      | removesNone => exact h
      | removed _ hany' => simp [← hsame, hany] at hany'
  | @removed j needle f hi hany hf =>
      have hsame := h.lists.any (p := removes needle) hC
      cases ht with
      | removesNone _ hany' => simp [← hsame, hany] at hany'
      | @removed _ _ f' _ _ hf' =>
          have hdrops : dropsSelection s.cfg s.sel needle = dropsSelection t.cfg t.sel needle := by
            unfold dropsSelection
            rw [h.sel]
            split
            · refine h.lists.any (fun hpend x hx hxu => ?_)
              rw [hC hpend x hx hxu, Bool.false_and]
            · rfl
          refine h.moves hwho rfl rfl (by rw [hf, hf', hdrops]) ?_ h.sel h.crashed
          exact h.lists.filter fun hpend x hx hxu => by rw [hC hpend x hx hxu]; rfl
  | disconnects | refreshes | spawns | reads => cases hevent
  | @answered j url hd caller hi =>
      have hlike := h.flights j hwho
      cases ht with
      | answered hi' =>
          rw [hi, hi'] at hlike
          cases hlike
          exact h.set hwho rfl
  | @fails j url caller hi =>
      have hlike := h.flights j hwho
      cases ht with
      | fails hi' =>
          rw [hi, hi'] at hlike
          cases hlike
          exact h.fetchFails hwho url caller
  | @noted j url hd caller cfg hi hcfg =>
      have hlike := h.flights j hwho
      cases ht with
      | noted hi' hcfg' =>
          rw [hi, hi'] at hlike
          cases hlike
          subst hcfg hcfg'
          exact h.moves hwho rfl rfl rfl (h.lists.map (noteTitle_url url hd)) h.sel h.crashed
  | @panics j url hi hnil =>
      have hnil' := (h.lists.dropLast fun hpend hlast => hwho ((hC hpend).mp hlast)).2.mp hnil
      cases ht with
      | panics => exact ⟨h.flights, h.lists, h.idle, h.sel, rfl⟩
      | rolledBack _ hne => exact absurd hnil' hne
  | @rolledBack j url hi hne =>
      obtain ⟨hlists, hnil⟩ := h.lists.dropLast fun hpend hlast => hwho ((hC hpend).mp hlast)
      cases ht with
      | panics _ hnil' => exact absurd (hnil.mpr hnil') hne
      | rolledBack => exact h.moves hwho rfl rfl rfl hlists h.sel h.crashed
  | cloned hi =>
      cases ht with
      | cloned => exact h.set hwho rfl
  | @saved j ok clone after hi =>
      have hlike := h.flights j hwho
      cases ht with
      | saved hi' =>
          rw [hi, hi'] at hlike
          cases hlike
          exact (h.write _ _ ok).saved hwho ok after

omit [External] in
/-- The failing add moves alone. -/
theorem WithAdd.alone (h : WithAdd i u s t) {f : Flight}
    (hfl : s'.flights = Function.update s.flights i f)
    (hlists : Beside u f s'.cfg.subscriptions t.cfg.subscriptions) (hsel : s'.sel = s.sel)
    (hcrashed : s'.crashed = s.crashed) : WithAdd i u s' t where
  flights k hk := by
    rw [hfl, Function.update_of_ne hk]
    exact h.flights k hk
  lists := by
    rw [hfl, Function.update_self]
    exact hlists
  idle := h.idle
  sel := hsel.trans h.sel
  crashed := hcrashed.trans h.crashed

/-- A step of the failing add itself, which the other run does not take. -/
theorem WithAdd.own (h : WithAdd i u s t) {e : RequestEvent} (hwho : e.who = i)
    (hevent : FailingAdd i u (.request e)) (hC : OnlyItself i u s (.request e))
    (hs : RequestMove s e s') : WithAdd i u s' t := by
  cases hs with
  | addRefused | inlineHeld | removesNone => exact h
  | @added j url now hi hheld =>
      obtain rfl : j = i := hwho
      obtain rfl : url = u := hevent rfl
      obtain ⟨hurl, hheld⟩ := Bool.or_eq_false_iff.mp hheld
      have hsame : s.cfg.subscriptions = t.cfg.subscriptions := by
        rcases h.lists.flight with ⟨-, hsame⟩ | ⟨hf | hf, -⟩
        · exact hsame
        · rw [hi] at hf
          cases hf
        · rw [hi] at hf
          cases hf
      refine h.alone rfl ?_ rfl rfl
      have hmore := Beside.more (u := url) (f := .fetching url .add) s.cfg.subscriptions []
        { url, addedAt := now } (.inl rfl) (by simpa using hurl) rfl ?_
      · rw [List.append_nil] at hmore
        rw [← hsame]
        exact hmore
      · rw [List.append_nil]
        intro y hy heq
        have hany : s.cfg.holds url = true :=
          List.any_eq_true.mpr ⟨y, hy, by simp [heq]⟩
        rw [hany] at hheld
        cases hheld
  | inlineAdded => exact absurd hwho hevent
  | removed => exact absurd hwho hevent
  | disconnects | refreshes | spawns | reads => cases hevent
  | answered => cases hevent hwho
  | @fails j url caller hi =>
      obtain rfl : j = i := hwho
      rcases h.lists.flight with ⟨hf, -⟩ | ⟨hf | hf, -⟩
      · rw [hi] at hf
        cases hf
      · rw [hi] at hf
        cases hf
        have hlists := h.lists
        rw [hi] at hlists
        exact h.alone rfl hlists.fails rfl rfl
      · rw [hi] at hf
        cases hf
  | noted => exact absurd hwho hevent
  | @panics j url hi hnil =>
      obtain rfl : j = i := hwho
      have hlast := (hC (by simp [hi])).mpr rfl
      rw [hnil] at hlast
      cases hlast
  | @rolledBack j url hi hne =>
      obtain rfl : j = i := hwho
      have hlast := (hC (by simp [hi])).mpr rfl
      have hlists := h.lists
      obtain rfl : url = u := by
        rcases hlists.flight with ⟨hf, -⟩ | ⟨hf | hf, -⟩ <;> rw [hi] at hf <;> cases hf
        rfl
      rw [hi] at hlists
      have hback := hlists.rollBack hlast
      refine h.alone rfl ?_ rfl rfl
      rw [← hback]
      exact .same _
  | cloned => exact absurd hwho hevent
  | saved => exact absurd hwho hevent

theorem WithAdd.section_ (h : WithAdd i u s t) {e : SectionEvent}
    (hevent : FailingAdd i u (.section_ e)) (hs : SectionMove s e s') (ht : SectionMove t e t') :
    WithAdd i u s' t' := by
  cases hs with
  | @locksStart j sel hmu hi =>
      have hlike := h.flights j hevent
      cases ht with
      | locksStart _ hi' =>
          rw [hi, hi'] at hlike
          cases hlike
          exact h.moves hevent rfl rfl rfl h.lists h.sel h.crashed
      | locksStop _ hi' =>
          rw [hi, hi'] at hlike
          cases hlike
  | @locksStop j hmu hi =>
      have hlike := h.flights j hevent
      cases ht with
      | locksStart _ hi' =>
          rw [hi, hi'] at hlike
          cases hlike
      | locksStop => exact h.moves hevent rfl rfl rfl h.lists h.sel h.crashed
  | waited =>
      cases ht with
      | waited => exact ⟨h.flights, h.lists, h.idle, rfl, h.crashed⟩
  | @starts j a sel hloop hi =>
      have hlike := h.flights j hevent
      cases ht with
      | starts _ hi' =>
          rw [hi, hi'] at hlike
          cases hlike
          obtain ⟨_, _, _, _, heq⟩ := startConnectLocked_eq s sel a
          obtain ⟨_, _, _, _, heq'⟩ := startConnectLocked_eq t sel a
          rw [heq, heq']
          exact h.moves hevent rfl rfl rfl h.lists rfl h.crashed
      | stops _ hi' =>
          rw [hi, hi'] at hlike
          cases hlike
  | @stops j a hloop hi =>
      have hlike := h.flights j hevent
      cases ht with
      | starts _ hi' =>
          rw [hi, hi'] at hlike
          cases hlike
      | stops =>
          obtain ⟨_, _, _, heq⟩ := stopAll_true_eq s a
          obtain ⟨_, _, _, heq'⟩ := stopAll_true_eq t a
          rw [heq, heq']
          exact h.moves hevent rfl rfl rfl h.lists rfl h.crashed
  | _ => cases hevent

/-- The loop and the address watchers move nothing the runs are compared by. -/
theorem silent_frame {e : Event} (he : e.ofRequests = false) (hstep : s.step e = some s') :
    s'.flights = s.flights ∧ s'.cfg.subscriptions = s.cfg.subscriptions ∧ s'.sel = s.sel ∧
      s'.crashed = s.crashed := by
  cases step_move hstep with
  | request => cases he
  | section_ => cases he
  | loop hl hm =>
      refine ⟨hm.frame.flights, ?_, hm.frame.sel, hm.frame.crashed⟩
      cases hm.config with
      | keeps hcfg => rw [hcfg]
      | remembers sel hcfg => rw [hcfg, Config.rememberLine_subscriptions]
      | saves _ hcfg => rw [hcfg]
  | syncs => exact ⟨rfl, rfl, rfl, rfl⟩
  | unread => exact ⟨rfl, rfl, rfl, rfl⟩

/-- **A failed add takes back only itself.** Run adds, inline adds and removes
with a failing add in flight `i` that stays the only one to touch its place; and
run the same steps of the other requests without it, the loop doing as it likes.
Once the add is done the lists are the same, and its rollback crashed nothing. -/
theorem failed_add_takes_back_itself {i : Nat} {u : Text} {s₀ s t : Daemon} {es fs : List Event}
    (hidle : s₀.flights i = .idle) (hes : ∀ e ∈ es, FailingAdd i u e)
    (hC : AllSteps step (OnlyItself i u) s₀ es) (hrun : run step s₀ es = some s)
    (hfs : fs.filter Event.ofRequests =
      (es.filter Event.ofRequests).filter fun e => e.flight != some i)
    (hrun' : run step s₀ fs = some t) :
    s.crashed = t.crashed ∧
      (s.flights i = .idle → s.cfg.subscriptions = t.cfg.subscriptions) := by
  have hall : AllSteps step (fun s e => FailingAdd i u e ∧ OnlyItself i u s e) s₀ es :=
    (allSteps_of_forall fun _ e he => hes e he).and hC
  have h₀ : WithAdd i u s₀ s₀ :=
    ⟨fun _ _ => rfl, by rw [hidle]; exact .same _, hidle, rfl, rfl⟩
  have h : WithAdd i u s t := by
    refine run_erased (C := fun s e => FailingAdd i u e ∧
      OnlyItself i u s e) ?_ ?_ ?_ ?_ h₀ hall hfs
      hrun hrun'
    · intro s t e s' h _ he hstep
      obtain ⟨hfl, hsubs, hsel, hcr⟩ := silent_frame he hstep
      exact ⟨by rw [hfl]; exact h.flights, by rw [hfl, hsubs]; exact h.lists, h.idle,
        hsel.trans h.sel, hcr.trans h.crashed⟩
    · intro s t e t' h he hstep
      obtain ⟨hfl, hsubs, hsel, hcr⟩ := silent_frame he hstep
      exact ⟨by rw [hfl]; exact h.flights, by rw [hsubs]; exact h.lists, by rw [hfl]; exact h.idle,
        h.sel.trans hsel.symm, h.crashed.trans hcr.symm⟩
    · intro s t e s' h hc he hkeep hstep
      have hflight : e.flight = some i := by simpa using hkeep
      cases step_move hstep with
      | request hm => exact h.own (Option.some.inj hflight) hc.1 hc.2 hm
      | section_ hm =>
          cases hm with
          | locksStart | locksStop | starts | stops =>
              exact absurd (Option.some.inj hflight) hc.1
          | waited => cases hflight
          | _ => cases hc.1
      | _ => cases he
    · intro s t e s' t' h hc he hkeep hstep hstep'
      cases step_move hstep with
      | @request e _ hm =>
          have hwho : e.who ≠ i := by simpa [Event.flight] using hkeep
          cases step_move hstep' with
          | request hm' => exact h.request hwho hc.1 hc.2 hm hm'
      | section_ hm =>
          cases step_move hstep' with
          | section_ hm' => exact h.section_ hc.1 hm hm'
      | _ => cases he
  refine ⟨h.crashed, fun hdone => ?_⟩
  have hlists := h.lists
  rw [hdone] at hlists
  rcases hlists.flight with ⟨-, hsame⟩ | ⟨hf | hf, -⟩
  · exact hsame
  · cases hf
  · cases hf

/-- A list whose fetch fails, and a line added beside it. -/
def failing : Event := .request (.add 0 (txt "https://a.example/l") 0)

def inlineAdd : Event :=
  .request (.addInline 1 (txt "hy2://p@b.example:443#Berlin") (txt "Berlin") 0)

/-- The end of the failing add. -/
def failed : List Event := [.request (.fetchAnswer 0 none), .request (.rollBack 0)]

omit [External] in
/-- The line comes first, and stays. -/
theorem failed_add_takes_back_itself_last :
    ∃ s t, run (@step spelledIDs) (init Config.defaults)
        ([inlineAdd, failing, .request (.save 1 true)] ++ failed) = some s ∧
      run (@step spelledIDs) (init Config.defaults) [inlineAdd, .request (.save 1 true)] = some t ∧
      s.cfg.subscriptions.length = 1 ∧ s.cfg.subscriptions = t.cfg.subscriptions := by
  refine ⟨_, _, rfl, rfl, rfl, ?_⟩
  refine (@failed_add_takes_back_itself spelledIDs 0 (txt "https://a.example/l")
    (init Config.defaults) _ _ ([inlineAdd, failing, .request (.save 1 true)] ++ failed)
    [inlineAdd, .request (.save 1 true)] rfl ?_ ?_ rfl rfl rfl).2 rfl
  · simp [inlineAdd, failing, failed, FailingAdd]
  · refine allSteps_cons rfl trivial <| allSteps_cons rfl (fun h => absurd rfl h) <|
      allSteps_cons rfl trivial <| allSteps_cons rfl trivial <|
      allSteps_cons rfl (fun _ => iff_of_true rfl rfl) trivial

omit [External] in
/-- The line is added during the fetch: the rollback cuts it off and leaves the
failed list behind. And when a remove has emptied the list by then, it panics. -/
theorem failed_add_takes_back_another :
    (∃ s t, run (@step spelledIDs) (init Config.defaults)
        ([failing, inlineAdd, .request (.save 1 true)] ++ failed) = some s ∧
      run (@step spelledIDs) (init Config.defaults) [inlineAdd, .request (.save 1 true)] = some t ∧
      s.Quiet ∧ t.Quiet ∧
      s.cfg.subscriptions.map Subscription.url = [txt "https://a.example/l"] ∧
      t.cfg.subscriptions.map Subscription.title = [txt "Berlin"]) ∧
    ∃ s, run (@step spelledIDs) (init Config.defaults)
        ([failing, .request (.remove 1 (txt "https://a.example/l"))] ++ failed) = some s ∧
      s.crashed = true := by
  refine ⟨⟨_, _, rfl, rfl, fun i => ?_, fun i => ?_, rfl, rfl⟩, _, rfl, rfl⟩
  · match i with
    | 0 => rfl
    | 1 => rfl
    | i + 2 => rfl
  · match i with
    | 0 => rfl
    | 1 => rfl
    | i + 2 => rfl

end Daemon

end Ghostlane.Cli
