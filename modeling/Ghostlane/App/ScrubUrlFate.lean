import Ghostlane.App.ScrubUrls

/-!
# Ghostlane.App.ScrubUrlFate

URLs and a slot. A URL that begins before the slot ends before it, or the slot is its scheme, in
its credentials, its host, at its port or in what follows (`UrlSlot`): which of these is decided by
what stands around the slot. Only as the host is the slot looked at, and then it is tagged; in the
credentials and behind a host that is hidden it goes; else it stays (`url_fate`).
-/

namespace Ghostlane.App.LogScrubber

open Ghostlane.Lib CharTables UrlMatch

variable [CharTables]

/-! ### Where the slot is in a URL -/

/-- A URL that begins with `b` before a slot, when `q` follows it, as a function of the slot. -/
inductive UrlSlot (b q : Text) : (Text → UrlMatch) → Prop
  /-- It ends before the slot; what may follow the host goes on to a blank. -/
  | inside (m : UrlMatch) (rest : Text) (hok : m.Ok) (hb : b = m.text ++ rest) (hne : rest ≠ [])
      (hend : m.suffix = [] ∨ ∃ c z, rest = c :: z ∧ blank c = true) : UrlSlot b q fun _ => m
  | scheme (m : UrlMatch) (front rest : Text) (hok : m.Ok) (hfront : ∀ c ∈ front, blank c = false)
      (hq : q = front ++ ([':', '/', '/'] ++ (m.body ++ rest))) :
      UrlSlot b q fun s => { m with scheme := b ++ (s ++ (front ++ [':', '/', '/'])) }
  | credentials (m : UrlMatch) (before after rest : Text) (hhost : m.host ≠ [])
      (hb : b = m.scheme ++ before)
      (hq : q = after ++ '@' :: (m.host ++ (m.portText ++ (m.suffix ++ rest)))) :
      UrlSlot b q fun s => { m with credentials := before ++ (s ++ after) }
  | host (m : UrlMatch) (rest : Text) (hok : m.Ok) (hb : b = m.scheme ++ m.login)
      (hq : q = m.portText ++ (m.suffix ++ rest))
      (hsuffix : ∀ c, m.suffix.head? = some c → c ∈ ['/', '?', '#']) :
      UrlSlot b q fun s => { m with host := s }
  | port (m : UrlMatch) (hok : m.Ok) (hport : m.port = []) (hsuffix : m.suffix = [])
      (hb : b = m.scheme ++ (m.login ++ (m.host ++ [':']))) :
      UrlSlot b q fun s => { m with port := s.takeWhile Char.isDigit }
  | suffix (m : UrlMatch) (front : Text) (hok : m.Ok)
      (hb : b = m.scheme ++ (m.login ++ (m.host ++ (m.portText ++ front))))
      (hfront : ∀ c ∈ front, blank c = false) (hne : front ≠ []) :
      UrlSlot b q fun s => { m with suffix := front ++ (s ++ q.takeWhile fun c => !blank c) }

/-- `u` of the slot is no URL, whatever is in it, or the slot is at one place of one. -/
def Reads (K : Text → Prop) (b q : Text) (u : Text → Option UrlMatch) : Prop :=
  (∀ s, K s → u s = none) ∨ ∃ f, UrlSlot b q f ∧ ∀ s, K s → u s = some (f s)

section Slot

variable {K : Text → Prop} {b q : Text}

/-- Where one way of reading finds nothing, the other is taken. -/
theorem Reads.or {u v w : Text → Option UrlMatch} (hu : Reads K b q u) (hv : Reads K b q v)
    (hw : ∀ s, K s → w s = (u s).or (v s)) : Reads K b q w := by
  rcases hu with hu | ⟨f, hf, hu⟩
  · have hsame : ∀ s, K s → w s = v s := fun s hs => by rw [hw s hs, hu s hs, Option.none_or]
    rcases hv with hv | ⟨f, hf, hv⟩
    · exact .inl fun s hs => (hsame s hs).trans (hv s hs)
    · exact .inr ⟨f, hf, fun s hs => (hsame s hs).trans (hv s hs)⟩
  · exact .inr ⟨f, hf, fun s hs => by rw [hw s hs, hu s hs, Option.some_or]⟩

/-! ### The authority -/

theorem EndsClear.of_suffix {a b : Text} (h : EndsClear (a ++ b)) (hb : b ≠ []) : EndsClear b :=
  fun c hc => h c (by rw [List.getLast?_append_of_ne_nil a hb, hc])

/-- What ends clear has a character of no name in it. -/
theorem EndsClear.exists_of_class {p : Char → Bool} (hp : ∀ c, clear c = true → p c = false)
    {b : Text} (h : EndsClear b) (hb : b ≠ []) : ∃ c ∈ b, p c = false :=
  ⟨b.getLast hb, List.getLast_mem hb, hp _ (h _ (List.getLast?_eq_some_getLast hb))⟩

theorem isDigit_of_clear {c : Char} (h : clear c = true) : c.isDigit = false := by
  by_contra hd
  have := alnum_of_isAlphanum (isAlphanum_of_isDigit (by simpa using hd))
  rw [clear_of_alnum this] at h
  cases h

omit [CharTables] in
theorem portOf_cons_of_ne {c : Char} (h : c ≠ ':') (t : Text) : portOf (c :: t) = [] := by
  unfold portOf
  split
  · rename_i heq
    exact absurd (List.cons.inj heq).1 h
  · rfl

/-- A port before the slot, when more than its colon is there. -/
theorem portOf_append (hb : EndsClear b) (hne : b ≠ []) (hcolon : b ≠ [':']) :
    ∃ port rest, rest ≠ [] ∧ EndsClear rest ∧ b = portTextOf port ++ rest ∧
      (∀ c ∈ port, c.isDigit = true) ∧ ∀ z, portOf (b ++ z) = port ∧
        afterPort (b ++ z) = rest ++ z := by
  have hport : ∀ z, portOf (b ++ z) = portOf b := fun z => by
    by_cases hhead : ∃ b', b = ':' :: b'
    · obtain ⟨b', rfl⟩ := hhead
      have hne' : b' ≠ [] := fun h => hcolon (by rw [h])
      have hb' : EndsClear b' := EndsClear.of_suffix (a := [':']) hb hne'
      exact takeWhile_append_of_exists (hb'.exists_of_class (fun c => isDigit_of_clear) hne') z
    · obtain ⟨c, b', rfl⟩ := List.exists_cons_of_ne_nil hne
      have hc : c ≠ ':' := fun h => hhead ⟨b', by rw [h]⟩
      rw [List.cons_append, portOf_cons_of_ne hc, portOf_cons_of_ne hc]
  have hwhole := portText_append_afterPort b
  have hrest : afterPort b ≠ [] := fun hnil => by
    -- a port does not end clear
    rw [hnil, List.append_nil, portTextOf] at hwhole
    by_cases hp : portOf b = []
    · rw [if_pos hp] at hwhole
      exact hne hwhole.symm
    · rw [if_neg hp] at hwhole
      have hclear : EndsClear (portOf b) := EndsClear.of_suffix (a := [':'])
          (by rwa [List.singleton_append, hwhole]) hp
      have hlast := isDigit_of_clear (hclear _ (List.getLast?_eq_some_getLast hp))
      rw [portOf_isDigit b _ (List.getLast_mem hp)] at hlast
      cases hlast
  refine ⟨portOf b, afterPort b, hrest, EndsClear.of_suffix (by rwa [hwhole]) hrest, hwhole.symm,
    portOf_isDigit b, fun z => ⟨hport z, ?_⟩⟩
  refine @List.append_cancel_left _ (portTextOf (portOf b)) _ _ ?_
  have := portText_append_afterPort (b ++ z)
  rw [hport] at this
  rw [this, ← List.append_assoc, hwhole]

omit [CharTables] in
theorem suffixOf_of_head {t : Text} (h : ∀ c, t.head? = some c → c ∉ ['/', '?', '#']) :
    suffixOf t = [] := by
  cases t with
  | nil => rfl
  | cons c t =>
      have hc := h c rfl
      simp only [List.mem_cons, List.not_mem_nil, or_false, not_or] at hc
      simp [suffixOf, hc]

omit [CharTables] in
theorem suffixOf_of_mem {c : Char} (h : c ∈ ['/', '?', '#']) (t : Text) :
    suffixOf (c :: t) = (c :: t).takeWhile fun c => !blank c := by
  have hc : (c == '/' || c == '?' || c == '#') = true := by
    simp only [List.mem_cons, List.not_mem_nil, or_false] at h
    rcases h with rfl | rfl | rfl <;> decide
  simp only [suffixOf, hc, ↓reduceIte]

omit [CharTables] in
theorem suffixOf_head {t : Text} {c : Char} (h : (suffixOf t).head? = some c) :
    c ∈ ['/', '?', '#'] := by
  by_contra hc
  rw [suffixOf_of_head fun d hd => ?_] at h
  · cases h
  · obtain ⟨rest, hrest⟩ := suffixOf_isPrefix t
    rw [← hrest, List.head?_append, h, Option.some_or, Option.some.injEq] at hd
    exact hd ▸ hc

omit [CharTables] in
/-- What follows the port, before the slot. -/
theorem suffixOf_append (hne : b ≠ []) :
    (∀ z, suffixOf (b ++ z) = []) ∨
      (∃ suffix c rest, b = suffix ++ c :: rest ∧ blank c = true ∧
        ∀ z, suffixOf (b ++ z) = suffix) ∨
      ((∀ c ∈ b, blank c = false) ∧
        ∀ z, suffixOf (b ++ z) = b ++ z.takeWhile fun c => !blank c) := by
  obtain ⟨c, b', rfl⟩ := List.exists_cons_of_ne_nil hne
  by_cases hc : c ∈ ['/', '?', '#']
  · right
    rcases forall_or_exists_false (fun c => !blank c) (c :: b') with hall | hbreak
    · refine .inr ⟨fun d hd => by simpa using hall d hd, fun z => ?_⟩
      rw [List.cons_append, suffixOf_of_mem hc, ← List.cons_append,
        List.takeWhile_append_of_pos hall]
    · obtain ⟨u, d, v, hcut, hu, hd⟩ := cut_of_exists hbreak
      refine .inl ⟨u, d, v, hcut, by simpa using hd, fun z => ?_⟩
      rw [List.cons_append, suffixOf_of_mem hc, ← List.cons_append,
        takeWhile_append_of_exists hbreak, hcut, takeWhile_append_of_head hu fun e he =>
          by rwa [← Option.some.inj he]]
  · refine .inl fun z => suffixOf_of_head fun d hd => ?_
    rw [List.cons_append, List.head?_cons, Option.some.injEq] at hd
    exact hd ▸ hc

/-- A slot where a port would be has its digits taken for one, and then goes on. -/
theorem digits_of_slot {s : Text} (hs : Name s) (q : Text) :
    portOf ([':'] ++ (s ++ q)) = s.takeWhile Char.isDigit ∧
      suffixOf (afterPort ([':'] ++ (s ++ q))) = [] := by
  have hdot : ∃ c ∈ s, c.isDigit = false := by
    obtain ⟨w, rest, rfl, -⟩ := hs.cut_first
    exact ⟨'.', by simp, by decide⟩
  have hport : portOf ([':'] ++ (s ++ q)) = s.takeWhile Char.isDigit :=
    takeWhile_append_of_exists hdot q
  refine ⟨hport, suffixOf_of_head fun c hc => ?_⟩
  have hname : ∀ e ∈ s, e ∉ ['/', '?', '#'] := fun e he hmem => by
    have hall : ∀ d ∈ ['/', '?', '#'], schemeChar d = false := by decide
    have := (hs.char he).2.1
    rw [hall e hmem] at this
    cases this
  rw [afterPort, hport] at hc
  split at hc
  · obtain rfl := Option.some.inj hc
    decide
  · have hdrop : ([':'] ++ (s ++ q)).drop (1 + (s.takeWhile Char.isDigit).length) =
        s.dropWhile Char.isDigit ++ q := by
      rw [List.singleton_append, Nat.add_comm, List.drop_succ_cons,
        List.drop_append_of_le_length (List.takeWhile_prefix _).length_le]
      congr 1
      nth_rewrite 2 [← List.takeWhile_append_dropWhile (p := Char.isDigit) (l := s)]
      exact List.drop_left
    obtain ⟨d, hd, hnot⟩ := hdot
    have hne : s.dropWhile Char.isDigit ≠ [] := fun hnil => by
      rw [List.dropWhile_eq_nil_iff] at hnil
      rw [hnil d hd] at hnot
      cases hnot
    rw [hdrop, List.head?_append_of_ne_nil _ hne] at hc
    exact hname c ((List.dropWhile_suffix _).subset (List.mem_of_mem_head? hc))

/-- **The authority and a slot.** -/
theorem authority_slot (hK : ∀ s, K s → Name s) (hq : BeginsClear q) (hb : EndsClear b)
    {scheme credentials : Text}
    {s₀ : Text} (hs₀ : K s₀)
    (hscheme : ∃ run, scheme = run ++ [':', '/', '/'] ∧
      (∃ c, run.head? = some c ∧ c.isAlpha = true) ∧
      ∀ c ∈ run, schemeChar c = true) (hcred : ∀ c ∈ credentials, credentialChar c = true) :
    Reads K (scheme ++ (loginOf credentials ++ b)) q fun s =>
      authority scheme credentials (b ++ (s ++ q)) := by
  by_cases hnil : b = []
  · -- the slot is the host
    subst hnil
    right
    obtain ⟨rest, hrest⟩ := suffixOf_isPrefix (afterPort q)
    have hhost : ∀ s, K s → urlHost (s ++ q) = s := fun s hs => (hK s hs).urlHost hq
    refine ⟨_, .host ⟨scheme, credentials, s₀, portOf q, suffixOf (afterPort q)⟩ rest
      ⟨hscheme, hcred, ?_, portOf_isDigit q, blank_suffixOf _⟩ ?_ ?_ (fun c hc => suffixOf_head hc),
      fun s hs => ?_⟩
    · have := @urlHost_spec _ (s₀ ++ q) (by rw [hhost s₀ hs₀]; exact (hK s₀ hs₀).ne_nil)
      rwa [hhost s₀ hs₀] at this
    · rw [List.append_nil]
      rfl
    · simp only [portText]
      rw [hrest, portText_append_afterPort]
    · simp only [List.nil_append, authority, hhost s hs, (hK s hs).ne_nil, ↓reduceIte,
        List.drop_left]
  · have hhost : ∀ z, urlHost (b ++ z) = urlHost b := fun z =>
      urlHost_congr
        (takeWhile_append_of_exists (hb.exists_of_class (fun c => nameChar_of_clear) hnil) z)
    by_cases hempty : urlHost b = []
    · exact .inl fun s _ => by simp only [authority, hhost, hempty, ↓reduceIte]
    · right
      have htext := urlHost_spec hempty
      obtain ⟨rest, hrest⟩ := (urlHost_isPrefix b).trans (List.takeWhile_prefix _)
      generalize urlHost b = host at hhost hempty htext hrest
      subst hrest
      have hne : rest ≠ [] := by
        rintro rfl
        rw [List.append_nil] at hb
        have := hb _ (List.getLast?_eq_some_getLast hempty)
        rw [clear_of_nameChar (htext.name _ (List.getLast_mem hempty))] at this
        cases this
      have hauth : ∀ z, authority scheme credentials (host ++ rest ++ z) = some
          { scheme, credentials, host, port := portOf (rest ++ z),
            suffix := suffixOf (afterPort (rest ++ z)) } :=
        fun z => by
          simp only [authority, hhost, hempty, ↓reduceIte]
          simp only [List.append_assoc, List.drop_left]
      by_cases hcolon : rest = [':']
      · -- the slot is where a port would be
        subst hcolon
        refine ⟨_, .port ⟨scheme, credentials, host, [], []⟩
          ⟨hscheme, hcred, htext, by simp, by simp⟩ rfl rfl
          rfl, fun s hs => (hauth _).trans ?_⟩
        obtain ⟨hport, hsuffix⟩ := digits_of_slot (hK s hs) q
        rw [hport, hsuffix]
      · obtain ⟨port, rest', hne', hclear', rfl, hdigit, hport⟩ :=
          portOf_append (hb.of_suffix hne) hne hcolon
        rcases suffixOf_append hne' with hsuffix | ⟨suffix, c, tail, rfl, hc, hsuffix⟩ |
          ⟨hblank, hsuffix⟩
        · refine ⟨_, .inside ⟨scheme, credentials, host, port, []⟩ rest'
            ⟨hscheme, hcred, htext, hdigit, by simp⟩ ?_ hne' (.inl rfl), fun s hs => ?_⟩
          · simp [text_eq, body, login, portText]
          · exact (hauth _).trans (by rw [(hport _).1, (hport _).2, hsuffix])
        · refine ⟨_, .inside ⟨scheme, credentials, host, port, suffix⟩ (c :: tail)
            ⟨hscheme, hcred, htext, hdigit, ?_⟩ ?_ (by simp) (.inr ⟨c, tail, rfl, hc⟩),
            fun s hs => ?_⟩
          · rw [← hsuffix []]
            exact blank_suffixOf _
          · simp [text_eq, body, login, portText]
          · exact (hauth _).trans (by rw [(hport _).1, (hport _).2, hsuffix])
        · refine ⟨_, .suffix ⟨scheme, credentials, host, port, []⟩ rest'
            ⟨hscheme, hcred, htext, hdigit, by simp⟩ ?_ hblank hne', fun s hs => ?_⟩
          · simp [login, portText]
          · refine (hauth _).trans ?_
            rw [(hport _).1, (hport _).2, hsuffix,
              List.takeWhile_append_of_pos fun c hc => by simp [((hK s hs).char hc).2.2.2]]

/-! ### The credentials and the scheme -/

theorem afterScheme_eq_or (scheme t : Text) : afterScheme scheme t =
    ((afterCredentials t).bind (authority scheme (t.takeWhile credentialChar))).or
      (authority scheme [] t) := by
  rw [afterScheme]
  split
  · rename_i m h
    rw [h, Option.some_or]
  · rename_i h
    rw [h, Option.none_or]

omit [CharTables] in
theorem afterCredentials_append {u v : Text} (hu : ∀ c ∈ u, credentialChar c = true)
    (hv : ∀ c, v.head? = some c → credentialChar c = false) :
    afterCredentials (u ++ v) = if u ≠ [] ∧ v.head? = some '@' then some v.tail else none := by
  have htake : (u ++ v).takeWhile credentialChar = u := takeWhile_append_of_head hu hv
  have hdrop : (u ++ v).dropWhile credentialChar = v := by
    have := List.takeWhile_append_dropWhile (p := credentialChar) (l := u ++ v)
    rw [htake] at this
    exact List.append_cancel_left this
  simp only [afterCredentials, htake, hdrop]
  split
  · rfl
  · rename_i hnot
    refine (if_neg fun h => ?_).symm
    obtain ⟨c, u', rfl⟩ := List.exists_cons_of_ne_nil h.1
    obtain ⟨v', rfl⟩ := List.head?_eq_some_iff.mp h.2
    exact hnot c u' v' rfl rfl

/-- What an authority is does not hang on what stands before it. -/
theorem authority_scheme (scheme credentials t : Text) : authority scheme credentials t =
    (authority [] credentials t).map fun m => { m with scheme } := by
  simp only [authority]
  split <;> rfl

theorem authority_credentials (scheme credentials t : Text) : authority scheme credentials t =
    (authority scheme [] t).map fun m => { m with credentials } := by
  simp only [authority]
  split <;> rfl

theorem afterScheme_scheme (scheme t : Text) :
    afterScheme scheme t = (afterScheme [] t).map fun m => { m with scheme } := by
  have hlogin : (afterCredentials t).bind (authority scheme (t.takeWhile credentialChar)) =
      ((afterCredentials t).bind (authority [] (t.takeWhile credentialChar))).map
        fun m => { m with scheme } := by
    cases afterCredentials t with
    | none => rfl
    | some rest => exact authority_scheme scheme _ rest
  rw [afterScheme_eq_or, afterScheme_eq_or, authority_scheme scheme [] t, hlogin, Option.map_or]

/-- **Credentials and a slot.** -/
theorem afterScheme_slot (hK : ∀ s, K s → Name s) (hq : BeginsClear q) (hb : EndsClear b)
    {scheme : Text}
    {s₀ : Text} (hs₀ : K s₀)
    (hscheme : ∃ run, scheme = run ++ [':', '/', '/'] ∧
      (∃ c, run.head? = some c ∧ c.isAlpha = true) ∧
      ∀ c ∈ run, schemeChar c = true) :
    Reads K (scheme ++ b) q fun s => afterScheme scheme (b ++ (s ++ q)) := by
  have hplain := @authority_slot _ K b q hK hq hb scheme [] s₀ hs₀ hscheme (by simp)
  rw [loginOf, if_pos rfl, List.nil_append] at hplain
  rcases forall_or_exists_false credentialChar b with hall | hbreak
  · -- credentials that begin before the slot go on over it
    have hrun : ∀ s, K s → (b ++ (s ++ q)).takeWhile credentialChar =
        b ++ (s ++ q.takeWhile credentialChar) := fun s hs => by
      rw [List.takeWhile_append_of_pos hall,
        List.takeWhile_append_of_pos fun c hc => ((hK s hs).char hc).2.2.1]
    have hrest : ∀ s, K s → b ++ (s ++ q) =
        (b ++ (s ++ q.takeWhile credentialChar)) ++ q.dropWhile credentialChar := fun s hs => by
      simp [List.takeWhile_append_dropWhile]
    have hall' : ∀ s, K s → ∀ c ∈ b ++ (s ++ q.takeWhile credentialChar), credentialChar c = true :=
      fun s hs c hc => by
        rw [← hrun s hs] at hc
        exact List.mem_takeWhile_imp hc
    have hend : ∀ c, (q.dropWhile credentialChar).head? = some c → credentialChar c = false :=
      fun c hc => by
      have := List.head?_dropWhile_not credentialChar q
      rwa [hc] at this
    have hafter : ∀ s, K s → afterCredentials (b ++ (s ++ q)) =
        if (q.dropWhile credentialChar).head? = some '@' then some (q.dropWhile credentialChar).tail
        else none := fun s hs => by
      have hne : b ++ (s ++ q.takeWhile credentialChar) ≠ [] := by simp [(hK s hs).ne_nil]
      rw [hrest s hs, afterCredentials_append (hall' s hs) hend]
      simp only [hne, ne_eq, not_false_eq_true, true_and]
    by_cases hat : (q.dropWhile credentialChar).head? = some '@'
    · obtain ⟨rest, hrest'⟩ := List.head?_eq_some_iff.mp hat
      have hread : ∀ s, K s → afterScheme scheme (b ++ (s ++ q)) =
          ((authority scheme [] rest).map fun m =>
            { m with credentials := b ++ (s ++ q.takeWhile credentialChar) }).or
          (authority scheme [] (b ++ (s ++ q))) := fun s hs => by
        rw [afterScheme_eq_or, hafter s hs, if_pos hat, hrun s hs, hrest', List.tail_cons,
          Option.bind_some, authority_credentials]
      refine Reads.or ?_ hplain hread
      cases hm : authority scheme [] rest with
      | none => exact .inl fun _ _ => rfl
      | some m =>
          right
          obtain ⟨hmscheme, -, hhost, -, -, tail, htail⟩ := authority_spec hm
          refine ⟨_, .credentials m b (q.takeWhile credentialChar) tail hhost.nonempty
            (by rw [hmscheme]) ?_,
            fun s _ => rfl⟩
          have hwhole := List.takeWhile_append_dropWhile (p := credentialChar) (l := q)
          rw [hrest', ← htail] at hwhole
          simpa using hwhole.symm
    · refine Reads.or (u := fun _ => none) (.inl fun _ _ => rfl) hplain fun s hs => ?_
      rw [afterScheme_eq_or, hafter s hs, if_neg hat, Option.bind_none]
  · obtain ⟨u, c, v, rfl, hu, hc⟩ := cut_of_exists hbreak
    have hrun : ∀ z, (u ++ c :: v ++ z).takeWhile credentialChar = u := fun z => by
      rw [List.append_assoc, takeWhile_append_of_head hu fun d hd => by
        rw [List.cons_append, List.head?_cons, Option.some.injEq] at hd
        exact hd ▸ hc]
    have hafter : ∀ z, afterCredentials (u ++ c :: v ++ z) =
        if u ≠ [] ∧ c = '@' then some (v ++ z) else none := fun z => by
      rw [List.append_assoc, afterCredentials_append hu fun d hd => by
        rw [List.cons_append, List.head?_cons, Option.some.injEq] at hd
        exact hd ▸ hc]
      simp
    by_cases hlogin : u ≠ [] ∧ c = '@'
    · have hv : EndsClear v := by
        by_cases hnil : v = []
        · simp [hnil, EndsClear]
        · exact EndsClear.of_suffix (a := u ++ [c]) (by simpa using hb) hnil
      have hnamed := @authority_slot _ K v q hK hq hv scheme u s₀ hs₀ hscheme hu
      rw [loginOf, if_neg hlogin.1] at hnamed
      refine Reads.or (by simpa [hlogin.2] using hnamed) hplain fun s hs => ?_
      rw [afterScheme_eq_or, hafter, if_pos hlogin, hrun, Option.bind_some]
    · refine Reads.or (u := fun _ => none) (.inl fun _ _ => rfl) hplain fun s hs => ?_
      rw [afterScheme_eq_or, hafter, if_neg hlogin, Option.bind_none]

/-- What a URL goes on with behind a run of its scheme's characters. -/
def goesOn (q : Text) : Option UrlMatch :=
  if startsWith (q.dropWhile schemeChar) (txt "://") then
    afterScheme [] ((q.dropWhile schemeChar).drop 3)
  else none

theorem urlAt_of_run {w : Text} (hw : ∀ c ∈ w, schemeChar c = true) (hne : w ≠ []) (q : Text) :
    urlAt (w ++ q) = if w.head?.any Char.isAlpha then
      (goesOn q).map fun m => { m with scheme := w ++ (q.takeWhile schemeChar ++ [':', '/', '/']) }
    else none := by
  simp only [urlAt, goesOn, List.takeWhile_append_of_pos hw, List.dropWhile_append_of_pos hw,
    List.head?_append_of_ne_nil w hne]
  cases w.head?.any Char.isAlpha with
  | false => rfl
  | true =>
      simp only [Bool.true_and, ↓reduceIte]
      split
      · rw [afterScheme_scheme, List.append_assoc]
        rfl
      · rfl

theorem goesOn_spec {q : Text} {m : UrlMatch} (h : goesOn q = some m) :
    (∀ c ∈ m.credentials, credentialChar c = true) ∧ HostText m.host ∧
      (∀ c ∈ m.port, c.isDigit = true) ∧
      (∀ c ∈ m.suffix, blank c = false) ∧
      ∃ rest, q = q.takeWhile schemeChar ++ ([':', '/', '/'] ++ (m.body ++ rest)) := by
  rw [goesOn, Option.ite_none_right_eq_some] at h
  obtain ⟨hsep, hm⟩ := h
  obtain ⟨rest, hrest⟩ := List.isPrefixOf_iff_prefix.mp hsep
  obtain ⟨-, hcred, hhost, hport, hsuffix, tail, htail⟩ := afterScheme_spec hm
  refine ⟨hcred, hhost, hport, hsuffix, tail, ?_⟩
  have hwhole := List.takeWhile_append_dropWhile (p := schemeChar) (l := q)
  have hdrop : (q.dropWhile schemeChar).drop 3 = rest := by
    rw [← hrest]
    rfl
  rw [hdrop] at htail
  rw [← hrest, ← htail] at hwhole
  exact hwhole.symm

/-- **A URL and a slot.** -/
theorem urlAt_slot (hK : ∀ s, K s → Name s) (hq : BeginsClear q) (hb : EndsClear b) (hne : b ≠ [])
    {s₀ : Text} (hs₀ : K s₀) : Reads K b q fun s => urlAt (b ++ (s ++ q)) := by
  obtain ⟨first, b', hbcons⟩ := List.exists_cons_of_ne_nil hne
  have hhead : ∀ z, (b ++ z).head? = some first := fun z => by rw [hbcons]; rfl
  by_cases halpha : first.isAlpha = true
  · rcases forall_or_exists_false schemeChar b with hall | hbreak
    · -- a scheme that begins before the slot goes on over it
      have hread : ∀ s, K s → urlAt (b ++ (s ++ q)) = (goesOn q).map fun m =>
          { m with scheme := b ++ (s ++ (q.takeWhile schemeChar ++ [':', '/', '/'])) } :=
            fun s hs => by
        have hrun : ∀ c ∈ b ++ s, schemeChar c = true := fun c hc =>
          (List.mem_append.mp hc).elim (hall c) fun hc => ((hK s hs).char hc).2.1
        rw [← List.append_assoc, urlAt_of_run hrun (by simp [hne]), hhead,
          if_pos (by simpa using halpha)]
        simp only [List.append_assoc]
      cases hm : goesOn q with
      | none => exact .inl fun s hs => (hread s hs).trans (by rw [hm]; rfl)
      | some m =>
          right
          obtain ⟨hcred, hhost, hport, hsuffix, rest, hrest⟩ := goesOn_spec hm
          refine ⟨_, .scheme
            { m with scheme := b ++ (s₀ ++ q.takeWhile schemeChar) ++ [':', '/', '/'] }
            (q.takeWhile schemeChar) rest
            ⟨⟨_, rfl, ⟨first, hhead _, halpha⟩, fun c hc => ?_⟩, hcred, hhost, hport, hsuffix⟩
            (fun c hc => blank_of_schemeChar (List.mem_takeWhile_imp hc)) hrest,
            fun s hs => (hread s hs).trans (by rw [hm]; rfl)⟩
          simp only [List.mem_append] at hc
          rcases hc with hc | hc | hc
          · exact hall c hc
          · exact ((hK s₀ hs₀).char hc).2.1
          · exact List.mem_takeWhile_imp hc
    · obtain ⟨u, c, v, rfl, hu, hc⟩ := cut_of_exists hbreak
      have hc' : ∀ z d, (c :: v ++ z).head? = some d → schemeChar d = false := fun z d hd => by
        rw [List.cons_append, List.head?_cons, Option.some.injEq] at hd
        exact hd ▸ hc
      have hrun : ∀ z, (u ++ c :: v ++ z).takeWhile schemeChar = u := fun z => by
        rw [List.append_assoc, takeWhile_append_of_head hu (hc' z)]
      have hrest : ∀ z, (u ++ c :: v ++ z).dropWhile schemeChar = c :: v ++ z := fun z => by
        have := List.takeWhile_append_dropWhile (p := schemeChar) (l := u ++ c :: v ++ z)
        rw [hrun] at this
        exact List.append_cancel_left (this.trans (List.append_assoc ..))
      have hufirst : ∃ d, u.head? = some d ∧ d.isAlpha = true := by
        cases u with
        | nil =>
            obtain rfl : c = first := (List.cons.inj hbcons).1
            rw [schemeChar_of_isAlpha halpha] at hc
            cases hc
        | cons d u =>
            obtain rfl : d = first := (List.cons.inj hbcons).1
            exact ⟨d, rfl, halpha⟩
      have hsep : ∀ s, K s → startsWith (c :: v ++ (s ++ q)) (txt "://") =
          startsWith (c :: v) (txt "://") :=
        fun s hs => startsWith_append (fun d hd hmem => by
          obtain ⟨e, he, hal⟩ := (hK s hs).head?
          rw [List.head?_append, he, Option.some_or, Option.some.injEq] at hd
          subst hd
          have hall : ∀ d ∈ txt "://", d ∈ [':', '/', '/'] := by decide
          have := clear_of_mem_schemeEnd (hall e hmem)
          rw [clear_of_alnum hal] at this
          cases this) _
      have hread : ∀ s, K s → urlAt (u ++ c :: v ++ (s ++ q)) =
          if startsWith (c :: v) (txt "://") then
            afterScheme (u ++ txt "://") ((c :: v ++ (s ++ q)).drop 3)
          else none := fun s hs => by
        simp only [urlAt, hhead, hrun, hrest, Option.any_some, halpha, Bool.true_and, hsep s hs]
      cases hstart : startsWith (c :: v) (txt "://") with
      | false =>
          refine .inl fun s hs => (hread s hs).trans ?_
          rw [hstart]
          rfl
      | true =>
          obtain ⟨w, hw⟩ := List.isPrefixOf_iff_prefix.mp hstart
          have hwclear : EndsClear w := by
            by_cases hnil : w = []
            · simp [hnil, EndsClear]
            · exact EndsClear.of_suffix (a := u ++ txt "://")
                (by rw [List.append_assoc, hw]; exact hb) hnil
          have hslot := @afterScheme_slot _ K w q hK hq hwclear (u ++ txt "://") s₀ hs₀
              ⟨u, rfl, hufirst, hu⟩
          rw [List.append_assoc, hw] at hslot
          refine Reads.or (u := fun _ => none) (.inl fun _ _ => rfl) hslot fun s hs =>
            (hread s hs).trans ?_
          rw [if_pos hstart, Option.none_or, ← hw]
          rfl
  · refine .inl fun s _ => ?_
    simp only [urlAt, hhead, Option.any_some, Bool.not_eq_true _ ▸ halpha, Bool.false_and,
      Bool.false_eq_true, ↓reduceIte]

/-! ### The pass -/

theorem url_looksBackOne (salt : UInt64) : LooksBackOne (url salt) := fun l l' t h => by
  rw [url, url, h]

theorem url_beginsUnclear (salt : UInt64) : BeginsUnclear (url salt) := fun l c t hc => by
  have halpha : c.isAlpha = false := by
    by_contra halpha
    rw [clear_of_alnum (alnum_of_isAlphanum (by simp [Char.isAlphanum, halpha]))] at hc
    cases hc
  have hnone : urlAt (c :: t) = none := by
    simp only [urlAt, List.head?_cons, Option.any_some, halpha, Bool.false_and, Bool.false_eq_true,
      ↓reduceIte]
  rw [url, hnone]
  split <;> rfl

namespace UrlMatch

theorem Ok.text_ne_nil {m : UrlMatch} (h : m.Ok) : m.text ≠ [] := by
  rw [text_eq, body]
  simp [h.host.nonempty]

end UrlMatch

/-- A URL at a place. -/
theorem url_go {salt : UInt64} {l t rest : Text} {m : UrlMatch} (hne : m.text ≠ [])
    (hboundary : boundary l.head? t.head? = true) (h : urlAt t = some m)
    (hsplit : t = m.text ++ rest) :
    (url salt).go 0 l t = m.replaced salt ++ (url salt).go 0 (m.text.reverse ++ l) rest := by
  subst hsplit
  refine Pass.go_of_found hne ?_
  rw [url, if_pos hboundary, h]
  rfl

theorem url_rsim (salt : UInt64) (l t : Text) : RSim ((url salt).go 0 l t) t := by
  refine Pass.go_right (.refl []) (fun c u' u h => h.append [c])
    (fun l t n out u' _ hhit h => ?_) l t
  rw [url, Option.ite_none_right_eq_some] at hhit
  obtain ⟨m, hm, heq⟩ := Option.map_eq_some_iff.mp hhit.2
  obtain ⟨rfl, rfl⟩ := Prod.mk.inj heq
  obtain ⟨hok, hpre⟩ := urlAt_spec hm
  rw [Nat.sub_add_cancel (List.length_pos_iff.mpr hok.text_ne_nil)] at h
  have := h.hit (hok.rightOk salt)
  rwa [List.prefix_iff_eq_append.mp hpre] at this

/-- Behind what was put for something, only its last character is looked at. -/
theorem url_go_behind (salt : UInt64) {x : Text} (hx : x ≠ []) (w l rest : Text) :
    (url salt).go 0 ((w ++ x).reverse ++ l) rest = (url salt).go 0 x.reverse rest := by
  refine (url_looksBackOne salt).go ?_ 0 rest
  rw [List.reverse_append, List.append_assoc, List.head?_append_of_ne_nil _ (by simpa using hx)]

/-- From a place in a run of scheme characters on which a letter begins a label, wherever the URL
begins. -/
theorem url_goesOn (salt : UInt64) {m : UrlMatch} (hm : goesOn q = some m) :
    ∃ q', RSim q' q ∧ ∀ v l, (∀ c ∈ v, schemeChar c = true) →
      ((∃ u w, v = u ++ '.' :: w ∧ w.head?.any Char.isAlpha = true) ∨
        (v.head?.any Char.isAlpha = true ∧ l.head?.any word = false)) →
      (url salt).go 0 l (v ++ q) = v ++ q' := by
  obtain ⟨hcred, hhost, hport, hsuffix, rest, hrest⟩ := goesOn_spec hm
  have hok : ({ m with scheme := 'a' :: [':', '/', '/'] } : UrlMatch).Ok :=
    ⟨⟨['a'], rfl, ⟨'a', rfl, by decide⟩, by decide⟩, hcred, hhost, hport, hsuffix⟩
  have hbody : m.body ≠ [] := by
    rw [body]
    simp [hhost.nonempty]
  refine ⟨q.takeWhile schemeChar ++ ([':', '/', '/'] ++
    (m.bodyMark salt ++ (url salt).go 0 m.body.reverse rest)), ?_, fun v => ?_⟩
  · have hright := @rightOk_scheme _ (q.takeWhile schemeChar) m.body (m.bodyMark salt)
      (fun c hc => blank_of_schemeChar (List.mem_takeWhile_imp hc)) hok.blank_body
      hok.blank_bodyMark fun c hc hcode => code_bodyMark hc hcode
    have := (url_rsim salt m.body.reverse rest).hit hright
    simp only [List.append_assoc] at this
    rwa [← hrest] at this
  · induction v with
    | nil =>
        rintro l - (⟨u, w, h, -⟩ | ⟨h, -⟩)
        · simp at h
        · cases h
    | cons c v ih =>
        intro l hv hcond
        by_cases hhit : c.isAlpha = true ∧ l.head?.any word = false
        · have hurl := urlAt_of_run hv (List.cons_ne_nil c v) q
          rw [hm, List.head?_cons, Option.any_some, if_pos hhit.1, Option.map_some] at hurl
          have hboundary : boundary l.head? (c :: v ++ q).head? = true := by
            rw [boundary, hhit.2, List.cons_append, List.head?_cons, Option.any_some,
              word_of_isAlphanum (by simp [Char.isAlphanum, hhit.1])]
            rfl
          have hsplit : c :: v ++ q = (UrlMatch.text
              { m with scheme := (c :: v) ++ (q.takeWhile schemeChar ++ [':', '/', '/']) }) ++
                rest := by
            rw [text_eq]
            nth_rewrite 1 [hrest]
            simp only [List.append_assoc]
            rfl
          rw [url_go (by rw [text_eq]; simp) hboundary hurl hsplit, text_eq, replaced_eq]
          have hbehind : ∀ w : Text, (url salt).go 0 ((w ++ m.body).reverse ++ l) rest =
              (url salt).go 0 m.body.reverse rest := fun w => url_go_behind salt hbody w l rest
          refine (congrArg _ (hbehind _)).trans ?_
          simp only [List.append_assoc]
          rfl
        · have hnone : url salt l (c :: (v ++ q)) = none := by
            rw [url]
            split
            · rename_i hboundary
              have hurl := urlAt_of_run hv (List.cons_ne_nil c v) q
              rw [List.head?_cons, Option.any_some, if_neg fun halpha => hhit ⟨halpha, ?_⟩] at hurl
              · rw [← List.cons_append, hurl]
                rfl
              · rw [boundary, List.head?_cons, Option.any_some,
                  word_of_isAlphanum (by simp [Char.isAlphanum, halpha])] at hboundary
                simpa using hboundary
            · rfl
          have hrest : (∃ u w, v = u ++ '.' :: w ∧ w.head?.any Char.isAlpha = true) ∨
              (v.head?.any Char.isAlpha = true ∧ (c :: l).head?.any word = false) := by
            rcases hcond with ⟨u, w, hcut, hw⟩ | hhead
            · cases u with
              | nil =>
                  obtain ⟨rfl, rfl⟩ := List.cons.inj hcut
                  refine .inr ⟨hw, ?_⟩
                  rw [List.head?_cons, Option.any_some, word_ascii _ (by decide)]
                  decide
              | cons d u => exact .inl ⟨u, w, (List.cons.inj hcut).2, hw⟩
            · exact absurd hhead hhit
          rw [List.cons_append, Pass.go_of_none hnone,
            ih (c :: l) (fun d hd => hv d (List.mem_cons_of_mem c hd)) hrest]
          rfl

/-- A name that begins a URL stays as its scheme does; behind it the URL has put for it what it has
wherever it begins. -/
theorem url_through {salt : UInt64} (hq : BeginsClear q)
    (hkind : (∀ s, K s → ∀ c ∈ s, c.isAlpha = false) ∨
      ∀ s, K s → ∃ u w, s = u ++ '.' :: w ∧ w.head?.any Char.isAlpha = true)
    (hK : ∀ s, K s → Name s) :
    ∃ q', RSim q' q ∧ ∀ s, K s → ∀ a b l, s = a ++ b → '.' ∉ a →
      (url salt).go 0 l (b ++ q) = b ++ q' := by
  have hmiss : (∀ s, K s → ∀ a b, s = a ++ b → b ≠ [] → urlAt (b ++ q) = none) →
      ∃ q', RSim q' q ∧ ∀ s, K s → ∀ a b l, s = a ++ b → '.' ∉ a →
        (url salt).go 0 l (b ++ q) = b ++ q' := by
    intro hnone
    refine ⟨(url salt).apply q, url_rsim salt [] q, fun s hs a b l hab _ => ?_⟩
    rw [Pass.go_append_of_none fun a' b' hab' hb' => ?_,
      (url_looksBackOne salt).go_clear (url_beginsUnclear salt) hq]
    rw [url, hnone s hs (a ++ a') b' (by rw [hab, hab', List.append_assoc]) hb']
    split <;> rfl
  have hrun : ∀ s, K s → ∀ a b, s = a ++ b → ∀ c ∈ b, schemeChar c = true :=
    fun s hs a b hab c hc =>
    ((hK s hs).char (by rw [hab]; exact List.mem_append_right _ hc)).2.1
  rcases hkind with hdigits | hletter
  · refine hmiss fun s hs a b hab hb => ?_
    rw [urlAt_of_run (hrun s hs a b hab) hb, if_neg]
    intro h
    obtain ⟨c, hc, halpha⟩ := (Option.any_eq_true _ _).mp h
    rw [hdigits s hs c
      (by rw [hab]; exact List.mem_append_right _ (List.mem_of_mem_head? hc))] at halpha
    cases halpha
  · cases hm : goesOn q with
    | none =>
        refine hmiss fun s hs a b hab hb => ?_
        rw [urlAt_of_run (hrun s hs a b hab) hb, hm]
        split <;> rfl
    | some m =>
        obtain ⟨q', hq', hgo⟩ := url_goesOn salt hm
        refine ⟨q', hq', fun s hs a b l hab ha => hgo b l (hrun s hs a b hab) (.inl ?_)⟩
        -- the dot is not in what was taken before
        obtain ⟨u, w, hdot, hw⟩ := hletter s hs
        rcases List.append_eq_append_iff.mp (hab.symm.trans hdot) with ⟨x, -, hx⟩ | ⟨x, hx, hx'⟩
        · exact ⟨x, w, hx, hw⟩
        · cases x with
          | nil => exact ⟨[], w, by simpa using hx'.symm, hw⟩
          | cons c x =>
              obtain rfl : '.' = c := (List.cons.inj hx').1
              exact absurd (by rw [hx]; simp) ha

end Slot

/-! ### What becomes of the slot -/

/-- What becomes of a slot between `p` and `q`: nothing of it is left, it stays between what is as
harmless as what was there, or a tag stands for it. -/
inductive Fate (salt : UInt64) (K : Text → Prop) (p q : Text) (f : Text → Text) : Prop
  | gone (out : Text) (h : ∀ s, K s → f s = out)
  | kept (p' q' : Text) (hl : Left p' p) (hr : Right q' q) (h : ∀ s, K s → f s = p' ++ (s ++ q'))
  | tagged (p' q' : Text) (hp : EndsClear p') (hend : p'.rtakeWhile colonOrHex = [])
      (hq : BeginsClear q') (hrun : q'.takeWhile colonOrHex <+: q.takeWhile colonOrHex)
      (h : ∀ s, K s → f s = p' ++ (tag salt s ++ q'))

theorem Fate.congr {salt : UInt64} {K : Text → Prop} {p q : Text} {f g : Text → Text}
    (hf : Fate salt K p q f) (h : ∀ s, K s → g s = f s) : Fate salt K p q g := by
  cases hf with
  | gone out hout => exact .gone out fun s hs => (h s hs).trans (hout s hs)
  | kept p' q' hl hr hout => exact .kept p' q' hl hr fun s hs => (h s hs).trans (hout s hs)
  | tagged p' q' hp hend hq hrun hout =>
      exact .tagged p' q' hp hend hq hrun fun s hs => (h s hs).trans (hout s hs)

namespace UrlMatch

variable {m : UrlMatch} {salt : UInt64} {o i : Text}

theorem Ok.slash_mem_text (h : m.Ok) : '/' ∈ m.text := by
  rw [text_eq]
  exact List.mem_append_left _ h.slash_mem_scheme

/-- A URL before the slot, up to its port. -/
theorem Ok.sim (h : m.Ok) (hsim : Sim o i) (salt : UInt64) :
    Sim (o ++ (m.scheme ++ (m.loginMark ++ (m.shown salt ++ m.portText))))
      (i ++ (m.scheme ++ (m.login ++ (m.host ++ m.portText)))) := by
  have := (hsim.hit (h.leftOk salt)).append m.portText
  simpa only [List.append_assoc] using this

omit [CharTables] in
theorem text_of_suffixless (h : m.suffix = []) :
    m.text = m.scheme ++ (m.login ++ (m.host ++ m.portText)) := by
  rw [text_eq, body, h, List.append_nil]

theorem replaced_of_suffixless (h : m.suffix = []) :
    m.replaced salt = m.scheme ++ (m.loginMark ++ (m.shown salt ++ m.portText)) := by
  rw [replaced_eq, bodyMark, suffixMark, if_pos h, List.append_nil]

end UrlMatch

section Fate

variable {salt : UInt64} {K : Text → Prop} {p q i b o : Text}

/-- At a place of `p` the pass goes on, or what becomes of the slot is settled. -/
def UrlStep (salt : UInt64) (K : Text → Prop) (p q o i b : Text) : Prop :=
  (∃ k out, 0 < k ∧ k ≤ b.length ∧ Sim (o ++ out) (i ++ b.take k) ∧
    ∀ s, K s → (url salt).go 0 i.reverse (b ++ (s ++ q)) =
      out ++ (url salt).go 0 (i ++ b.take k).reverse (b.drop k ++ (s ++ q))) ∨
  Fate salt K p q fun s => o ++ (url salt).go 0 i.reverse (b ++ (s ++ q))

theorem urlStep_of_none (hb : b ≠ []) (hsim : Sim o i)
    (h : ∀ s, K s → url salt i.reverse (b ++ (s ++ q)) = none) : UrlStep salt K p q o i b := by
  obtain ⟨c, b, rfl⟩ := List.exists_cons_of_ne_nil hb
  refine .inl ⟨1, [c], Nat.one_pos, by simp, hsim.append [c], fun s hs => ?_⟩
  have hnone : url salt i.reverse (c :: (b ++ (s ++ q))) = none := h s hs
  rw [List.cons_append, Pass.go_of_none hnone]
  simp

/-- A URL that ends before the slot. -/
theorem urlStep_inside {m : UrlMatch} {rest : Text} (hok : m.Ok) (hsim : Sim o i)
    (hend : m.suffix = [] ∨ ∃ c z, rest = c :: z ∧ blank c = true)
    (hgo : ∀ s, K s → (url salt).go 0 i.reverse (m.text ++ rest ++ (s ++ q)) =
      m.replaced salt ++ (url salt).go 0 (m.text.reverse ++ i.reverse) (rest ++ (s ++ q))) :
    UrlStep salt K p q o i (m.text ++ rest) := by
  have hpos : 0 < m.text.length := List.length_pos_iff.mpr hok.text_ne_nil
  rcases hend with hsuffix | ⟨c, z, rfl, hc⟩
  · refine .inl ⟨m.text.length, m.replaced salt, hpos, by simp, ?_, fun s hs => ?_⟩
    · rw [List.take_left, text_of_suffixless hsuffix, replaced_of_suffixless hsuffix]
      exact hok.sim hsim salt
    · rw [hgo s hs, List.take_left, List.drop_left, List.reverse_append]
  · -- what stands after the host went to the blank
    have htake : (m.text ++ c :: z).take (m.text.length + 1) = m.text ++ [c] := by
      simp [List.take_append]
    have hdrop : (m.text ++ c :: z).drop (m.text.length + 1) = z := by
      simp [List.drop_append]
    refine .inl ⟨m.text.length + 1, m.replaced salt ++ [c], Nat.succ_pos _, by simp, ?_,
      fun s hs => ?_⟩
    · rw [htake]
      exact hsim.hit_blank hok.slash_mem_text (hok.rightOk salt).blank_found
        (hok.rightOk salt).code hc
    · rw [hgo s hs, htake, hdrop, List.cons_append,
        Pass.go_of_none (url_beginsUnclear salt _ c _ (clear_of_blank hc))]
      simp

/-- A URL that begins at a place before the slot. -/
theorem url_go_at {m : UrlMatch} {z rest : Text} (hat : urlAt (b ++ z) = some m) (hb : b ≠ [])
    (hbound : boundary i.reverse.head? b.head? = true) (hne : m.host ≠ [])
    (hsplit : b ++ z = m.text ++ rest) :
    (url salt).go 0 i.reverse (b ++ z) =
      m.replaced salt ++ (url salt).go 0 (m.text.reverse ++ i.reverse) rest := by
  have hhead : (b ++ z).head? = b.head? := List.head?_append_of_ne_nil b hb
  refine url_go ?_ (by rw [hhead, hbound]) hat hsplit
  rw [text_eq, body]
  simp [hne]

/-- The slot is in the scheme: what is behind that is put for the URL as for one that is not. -/
theorem urlStep_scheme {m : UrlMatch} {front rest : Text} (hib : i ++ b = p) (hsim : Sim o i)
    (hb : b ≠ []) (hbound : boundary i.reverse.head? b.head? = true) (hok : m.Ok)
    (hfront : ∀ c ∈ front, blank c = false)
    (hq : q = front ++ ([':', '/', '/'] ++ (m.body ++ rest)))
    (hat : ∀ s, K s → urlAt (b ++ (s ++ q)) =
      some { m with scheme := b ++ (s ++ (front ++ [':', '/', '/'])) }) :
    UrlStep salt K p q o i b := by
  have hright : RightOk (front ++ ([':', '/', '/'] ++ m.body))
      (front ++ ([':', '/', '/'] ++ m.bodyMark salt)) :=
    rightOk_scheme hfront hok.blank_body hok.blank_bodyMark fun c hc hcode => code_bodyMark hc hcode
  have hrest := (url_rsim salt m.body.reverse rest).hit hright
  simp only [List.append_assoc] at hrest
  rw [← hq] at hrest
  have hleft := (hsim.append b).left
  rw [hib] at hleft
  have hbody : m.body ≠ [] := by simp [body, hok.host.nonempty]
  refine .inr (.kept (o ++ b) _ hleft hrest.right fun s hs => ?_)
  have htext : ({ m with scheme := b ++ (s ++ (front ++ [':', '/', '/'])) } : UrlMatch).text =
      b ++ (s ++ (front ++ [':', '/', '/'])) ++ m.body := text_eq _
  have hout :
      ({ m with scheme := b ++ (s ++ (front ++ [':', '/', '/'])) } : UrlMatch).replaced salt =
      b ++ (s ++ (front ++ [':', '/', '/'])) ++ m.bodyMark salt := replaced_eq salt _
  have hgo := @url_go_at _ salt _ _ _ _ rest (hat s hs) hb hbound hok.host.nonempty (by
    rw [htext]
    nth_rewrite 1 [hq]
    simp only [List.append_assoc])
  rw [hgo, htext, hout, url_go_behind salt hbody]
  simp only [List.append_assoc]

/-- The slot is in the credentials, and goes with them. -/
theorem urlStep_credentials {m : UrlMatch} {before after rest : Text} (hK : ∀ s, K s → s ≠ [])
    (hb : b ≠ []) (hbound : boundary i.reverse.head? b.head? = true) (hhost : m.host ≠ [])
    (hbefore : b = m.scheme ++ before)
    (hq : q = after ++ '@' :: (m.host ++ (m.portText ++ (m.suffix ++ rest))))
    (hat : ∀ s, K s →
      urlAt (b ++ (s ++ q)) = some { m with credentials := before ++ (s ++ after) }) :
    UrlStep salt K p q o i b := by
  refine .inr (.gone
    (o ++ (m.scheme ++
      (txt "<credentials>@" ++ (m.shown salt ++ (m.portText ++ m.suffixMark salt))) ++
    (url salt).go 0 (m.host ++ (m.portText ++ m.suffix)).reverse rest)) fun s hs => ?_)
  have hne : before ++ (s ++ after) ≠ [] := by simp [hK s hs]
  have htext : ({ m with credentials := before ++ (s ++ after) } : UrlMatch).text =
      m.scheme ++ (before ++ (s ++ after) ++ ['@']) ++ (m.host ++ (m.portText ++ m.suffix)) := by
    rw [text_eq, body, login, loginOf, if_neg hne]
    simp only [List.append_assoc]
    rfl
  have hout : ({ m with credentials := before ++ (s ++ after) } : UrlMatch).replaced salt =
      m.scheme ++ (txt "<credentials>@" ++
        (m.shown salt ++ (m.portText ++ m.suffixMark salt))) := by
    rw [replaced_eq, bodyMark, loginMark, if_neg hne]
    rfl
  have hgo := @url_go_at _ salt _ _ _ _ rest (hat s hs) hb hbound hhost (by
    rw [htext, hbefore, hq]
    simp)
  have hbehind : m.host ++ (m.portText ++ m.suffix) ≠ [] := by simp [hhost]
  rw [hgo, htext, hout, url_go_behind salt hbehind]

/-- What stands behind a host that is hidden is no more than what stood there. -/
theorem hidden_host_right {m : UrlMatch} {rest q' : Text} (hok : m.Ok)
    (hq : BeginsClear (m.portText ++ (m.suffix ++ rest))) (hq' : RSim q' rest) :
    BeginsClear (m.portText ++ ((if m.suffix = [] then [] else txt "/<path>") ++ q')) ∧
      (m.portText ++ ((if m.suffix = [] then [] else txt "/<path>") ++ q')).takeWhile colonOrHex <+:
        (m.portText ++ (m.suffix ++ rest)).takeWhile colonOrHex := by
  by_cases hsuffix : m.suffix = []
  · rw [if_pos hsuffix, hsuffix, List.nil_append, List.nil_append]
    rw [hsuffix, List.nil_append] at hq
    have hright := hq' m.portText
    exact ⟨hright.clear hq, hright.run⟩
  · rw [if_neg hsuffix]
    have hport : ∀ c ∈ m.portText, colonOrHex c = true := fun c hc => by
      rw [portText, portTextOf] at hc
      split at hc
      · cases hc
      · rcases List.mem_cons.mp hc with rfl | hc
        · decide
        · simp [colonOrHex, hexDigit, hok.port c hc]
    constructor
    · intro c hc
      cases hport' : m.portText with
      | nil =>
          rw [hport'] at hc
          obtain rfl : '/' = c := Option.some.inj hc
          exact clear_slash
      | cons d port =>
          rw [hport'] at hc hq
          exact hq c hc
    · rw [takeWhile_append_of_head hport fun c hc => by
        obtain rfl : '/' = c := Option.some.inj hc
        decide, List.takeWhile_append_of_pos hport]
      exact List.prefix_append ..

/-- The slot is the host, and is tagged. -/
theorem urlStep_host {m : UrlMatch} {rest : Text} (hb : b ≠ [])
    (hbound : boundary i.reverse.head? b.head? = true) (hok : m.Ok) (hK : ∀ s, K s → s ≠ [])
    (hname : ∀ s, K s → '#' ∉ s) (hbefore : b = m.scheme ++ m.login) (hqb : BeginsClear q)
    (hq : q = m.portText ++ (m.suffix ++ rest))
    (htag : ∀ s, K s → ∀ m : UrlMatch, m.host = s → m.shown salt = tag salt s)
    (hat : ∀ s, K s → urlAt (b ++ (s ++ q)) = some { m with host := s }) :
    UrlStep salt K p q o i b := by
  have hlast : ∃ c, (o ++ (m.scheme ++ m.loginMark)).getLast? = some c ∧ c ∈ ['/', '@'] := by
    obtain ⟨run, hrun, -, -⟩ := hok.scheme
    rw [loginMark]
    split
    · refine ⟨'/', ?_, by simp⟩
      rw [hrun, List.append_nil, ← List.append_assoc, List.getLast?_append_of_ne_nil _ (by simp)]
      rfl
    · refine ⟨'@', ?_, by simp⟩
      rw [← List.append_assoc, List.getLast?_append_of_ne_nil _ (by decide)]
      rfl
  obtain ⟨e, he, hmem⟩ := hlast
  have hend : EndsClear (o ++ (m.scheme ++ m.loginMark)) := fun c hc => by
    rw [he, Option.some.injEq] at hc
    have hall : ∀ d ∈ ['/', '@'], d.toNat < 128 ∧
        (!(d.isAlphanum || d == '.' || d == '-' || d == '_')) = true := by decide
    rw [← hc, clear_ascii (hall e hmem).1]
    exact (hall e hmem).2
  have hquiet : (o ++ (m.scheme ++ m.loginMark)).rtakeWhile colonOrHex = [] := by
    rw [List.rtakeWhile_eq_nil_iff]
    intro hne
    rw [List.getLast?_eq_some_getLast hne, Option.some.injEq] at he
    have hall : ∀ d ∈ ['/', '@'], ¬ colonOrHex d = true := by decide
    exact he ▸ hall e hmem
  subst hq
  obtain ⟨hclear, hrun⟩ :=
    hidden_host_right hok hqb (url_rsim salt (m.portText ++ m.suffix).reverse rest)
  refine .inr (.tagged _ _ hend hquiet hclear hrun fun s hs => ?_)
  have hshown : ({ m with host := s } : UrlMatch).shown salt = tag salt s := htag s hs _ rfl
  have hne : tag salt s ≠ s := fun heq => by
    have hash : '#' ∈ tag salt s := by simp [tag, txt]
    rw [heq] at hash
    exact hname s hs hash
  have htext : ({ m with host := s } : UrlMatch).text =
      m.scheme ++ m.login ++ s ++ (m.portText ++ m.suffix) := by
    rw [text_eq, body]
    simp only [List.append_assoc]
    rfl
  have hout : ({ m with host := s } : UrlMatch).replaced salt =
      m.scheme ++ (m.loginMark ++ (tag salt s ++
      (m.portText ++ (if m.suffix = [] then [] else txt "/<path>")))) := by
    rw [replaced_eq, bodyMark, suffixMark, hshown, if_neg hne]
    rfl
  have hgo := @url_go_at _ salt _ _ _ _ rest (hat s hs) hb hbound (hK s hs) (by
    rw [htext, hbefore]
    simp only [List.append_assoc])
  have hbehind : (url salt).go 0 ((m.scheme ++ m.login ++ s ++ (m.portText ++ m.suffix)).reverse ++
      i.reverse) rest =
      (url salt).go 0 (m.portText ++ m.suffix).reverse rest := by
    by_cases hnil : m.portText ++ m.suffix = []
    · obtain ⟨hport, hsuffix⟩ := List.append_eq_nil_iff.mp hnil
      rw [hport, hsuffix, List.nil_append, List.nil_append] at hqb
      rw [hnil, (url_looksBackOne salt).go_clear (url_beginsUnclear salt) hqb,
        (url_looksBackOne salt).go_clear (url_beginsUnclear salt) hqb]
    · exact url_go_behind salt hnil ..
  rw [hgo, htext, hout, hbehind]
  simp only [List.append_assoc]

/-- The slot is where a port would be: its digits are taken for one, and it stays. -/
theorem urlStep_port {m : UrlMatch} {q' : Text} (hib : i ++ b = p) (hsim : Sim o i) (hb : b ≠ [])
    (hbound : boundary i.reverse.head? b.head? = true) (hok : m.Ok) (hport : m.port = [])
    (hsuffix : m.suffix = []) (hbefore : b = m.scheme ++ (m.login ++ (m.host ++ [':'])))
    (hq' : RSim q' q)
    (hthrough : ∀ s, K s → ∀ a b l, s = a ++ b → '.' ∉ a → (url salt).go 0 l (b ++ q) = b ++ q')
    (hat : ∀ s, K s → urlAt (b ++ (s ++ q)) = some { m with port := s.takeWhile Char.isDigit }) :
    UrlStep salt K p q o i b := by
  have hportText : m.portText = [] := by rw [portText, hport]; rfl
  have hleft := (hok.sim hsim salt).append [':']
  simp only [hportText, List.append_nil, List.append_assoc] at hleft
  rw [← hbefore, hib] at hleft
  refine .inr (.kept _ q' hleft.left hq'.right fun s hs => ?_)
  have hdigits : '.' ∉ s.takeWhile Char.isDigit := fun hmem => by
    have := List.mem_takeWhile_imp hmem
    revert this
    decide
  have hsplit := List.takeWhile_append_dropWhile (p := Char.isDigit) (l := s)
  have hread := hat s hs
  generalize s.takeWhile Char.isDigit = d at hsplit hdigits hread
  generalize s.dropWhile Char.isDigit = e at hsplit
  have htext : ({ m with port := d } : UrlMatch).text =
      m.scheme ++ (m.login ++ (m.host ++ portTextOf d)) := text_of_suffixless hsuffix
  have hout : ({ m with port := d } : UrlMatch).replaced salt =
      m.scheme ++ (m.loginMark ++ (m.shown salt ++ portTextOf d)) := replaced_of_suffixless hsuffix
  have hmatch : ∀ rest, b ++ (s ++ q) = m.scheme ++ (m.login ++ (m.host ++ portTextOf d)) ++ rest →
      (url salt).go 0 i.reverse (b ++ (s ++ q)) =
        m.scheme ++ (m.loginMark ++ (m.shown salt ++ portTextOf d)) ++
        (url salt).go 0 ((m.scheme ++ (m.login ++ (m.host ++ portTextOf d))).reverse ++
          i.reverse) rest := by
    intro rest hrest
    rw [url_go_at hread hb hbound hok.host.nonempty (by rw [htext, hrest]), htext, hout]
  by_cases hnil : d = []
  · -- no digits: the colon stays outside the URL
    rw [hnil, portTextOf, if_pos rfl, List.append_nil, List.append_nil] at hmatch
    have hcolon := url_beginsUnclear salt ((m.scheme ++ (m.login ++ m.host)).reverse ++
        i.reverse) ':' (s ++ q)
      (clear_of_mem_schemeEnd (by simp))
    rw [hmatch (':' :: (s ++ q)) (by rw [hbefore]; simp), Pass.go_of_none hcolon,
      hthrough s hs [] s _ rfl (by simp)]
    simp
  · rw [portTextOf, if_neg hnil] at hmatch
    rw [hmatch (e ++ q) (by rw [hbefore, ← hsplit]; simp), hthrough s hs d e _ hsplit.symm hdigits,
      ← hsplit]
    simp

/-- The slot is in what follows the host: it stays where that does. -/
theorem urlStep_suffix {m : UrlMatch} {front : Text} (hib : i ++ b = p) (hsim : Sim o i)
    (hb : b ≠ [])
    (hbound : boundary i.reverse.head? b.head? = true) (hok : m.Ok)
    (hbefore : b = m.scheme ++ (m.login ++ (m.host ++ (m.portText ++ front)))) (hne : front ≠ [])
    (hat : ∀ s, K s → urlAt (b ++ (s ++ q)) =
      some { m with suffix := front ++ (s ++ q.takeWhile fun c => !blank c) }) :
    UrlStep salt K p q o i b := by
  have hsplit := List.takeWhile_append_dropWhile (p := fun c => !blank c) (l := q)
  have hrest : BeginsClear (q.dropWhile fun c => !blank c) := fun c hc => clear_of_blank (by
    have := List.head?_dropWhile_not (fun c => !blank c) q
    rw [hc] at this
    simpa using this)
  generalize (q.takeWhile fun c => !blank c) = qt at hsplit hat
  generalize (q.dropWhile fun c => !blank c) = rest at hsplit hrest
  have hgo : ∀ s, K s → (url salt).go 0 i.reverse (b ++ (s ++ q)) =
      m.scheme ++ (m.loginMark ++ (m.shown salt ++ (m.portText ++
        if m.shown salt = m.host then front ++ (s ++ qt) else txt "/<path>"))) ++
          (url salt).apply rest := by
    intro s hs
    have hnil : front ++ (s ++ qt) ≠ [] := by simp [hne]
    have htext : ({ m with suffix := front ++ (s ++ qt) } : UrlMatch).text =
        m.scheme ++ (m.login ++ (m.host ++ (m.portText ++ (front ++ (s ++ qt))))) := text_eq _
    have hout : ({ m with suffix := front ++ (s ++ qt) } : UrlMatch).replaced salt =
        m.scheme ++ (m.loginMark ++ (m.shown salt ++ (m.portText ++
          if m.shown salt = m.host then front ++ (s ++ qt) else txt "/<path>"))) := by
      rw [replaced_eq, bodyMark, suffixMark, if_neg hnil]
      rfl
    rw [@url_go_at _ _ _ _ _ _ rest (hat s hs) hb hbound hok.host.nonempty (by
      rw [htext, hbefore, ← hsplit]
      simp only [List.append_assoc]), hout, (url_looksBackOne salt).go_clear
        (url_beginsUnclear salt) hrest]
  by_cases hshown : m.shown salt = m.host
  · have hleft := (hok.sim hsim salt).append front
    simp only [List.append_assoc] at hleft
    rw [← hbefore, hib] at hleft
    have hright := (url_rsim salt [] rest).append qt
    rw [hsplit] at hright
    refine .inr (.kept _ _ hleft.left hright.right fun s hs => ?_)
    rw [hgo s hs, if_pos hshown]
    simp only [List.append_assoc]
    rfl
  · refine .inr
      (.gone (o ++ (m.scheme ++ (m.loginMark ++ (m.shown salt ++ (m.portText ++ txt "/<path>"))) ++
      (url salt).apply rest)) fun s hs => ?_)
    rw [hgo s hs, if_neg hshown]

/-- **URLs and a slot.** A name that is a host is hidden, whatever hides it. -/
theorem url_fate (hK : ∀ s, K s → Name s) (hp : EndsClear p) (hq : BeginsClear q)
    (hkind : (∀ s, K s → ∀ c ∈ s, c.isAlpha = false) ∨
      ∀ s, K s → ∃ u w, s = u ++ '.' :: w ∧ w.head?.any Char.isAlpha = true)
    (htag : ∀ s, K s → ∀ m : UrlMatch, m.host = s → m.shown salt = tag salt s) :
    Fate salt K p q fun s => (url salt).apply (p ++ (s ++ q)) := by
  by_cases hsome : ∃ s, K s
  · obtain ⟨s₀, hs₀⟩ := hsome
    have hne : ∀ s, K s → s ≠ [] := fun s hs => (hK s hs).ne_nil
    have hname : ∀ s, K s → '#' ∉ s := fun s hs hmem => by
      have := ((hK s hs).char hmem).2.1
      revert this
      decide
    obtain ⟨q', hq', hthrough⟩ := @url_through _ _ _ salt hq hkind hK
    refine Pass.apply_slot (fun f g hf h => hf.congr h) ?_ ?_ (Sim.refl [])
    · intro o i b hib hb hsim
      have hbclear : EndsClear b := fun c hc => hp c (by
        rw [← hib, List.getLast?_append_of_ne_nil i hb, hc])
      have hhead : ∀ z, (b ++ z).head? = b.head? := fun z => List.head?_append_of_ne_nil b hb
      change UrlStep salt K p q o i b
      by_cases hbound : boundary i.reverse.head? b.head? = true
      · rcases urlAt_slot hK hq hbclear hb hs₀ with hnone | ⟨f, hf, hat⟩
        · refine urlStep_of_none hb hsim fun s hs => ?_
          have hmiss : urlAt (b ++ (s ++ q)) = none := hnone s hs
          rw [url, hhead, if_pos hbound, hmiss]
          rfl
        · cases hf with
          | inside m rest hok hsplit _ hend =>
              subst hsplit
              refine urlStep_inside hok hsim hend fun s hs => ?_
              exact url_go_at (hat s hs) hb hbound hok.host.nonempty (by simp)
          | scheme m front rest hok hfront hsplit =>
              exact urlStep_scheme hib hsim hb hbound hok hfront hsplit hat
          | credentials m before after rest hhost hbefore hsplit =>
              exact urlStep_credentials hne hb hbound hhost hbefore hsplit hat
          | host m rest hok hbefore hsplit _ =>
              exact urlStep_host hb hbound hok hne hname hbefore hq hsplit htag hat
          | port m hok hport hsuffix hbefore =>
              exact urlStep_port hib hsim hb hbound hok hport hsuffix hbefore hq' hthrough hat
          | suffix m front hok hbefore _ hfront =>
              exact urlStep_suffix hib hsim hb hbound hok hbefore hfront hat
      · refine urlStep_of_none hb hsim fun s _ => ?_
        rw [url, hhead, if_neg hbound]
    · intro o hsim
      exact .kept o q' hsim.left hq'.right fun s hs => by rw [hthrough s hs [] s _ rfl (by simp)]
  · exact .gone [] fun s hs => absurd ⟨s, hs⟩ hsome

end Fate

end Ghostlane.App.LogScrubber
