import Ghostlane.App.ScrubUrlFate

/-!
# Ghostlane.App.ScrubSound

What is hidden by all the expressions together. A slot that goes with a link or a URL is gone; a
host of a URL is tagged there, and the tag comes through what follows; a slot that stays comes to
the expressions for names and addresses between what is as harmless as what was around it in the
line. So a public address is hidden wherever it stands (`public_address_hidden`), and a host's name
where it stands as a host (`host_name_hidden`).
-/

namespace Ghostlane.App.LogScrubber

open Ghostlane.Lib CharTables UrlMatch

/-! ### Tags in the result -/

/-- A match that began before a tag does not go on into it: `n` is the first character only. -/
theorem tagMatch_append {x : Text} (hx : x ≠ []) (z : Text) :
    tagMatch (x ++ 'n' :: z) = tagMatch x := by
  obtain ⟨c, x, rfl⟩ := List.exists_cons_of_ne_nil hx
  have hclasses : literal "node#" ++ .replicate 12 (fun c => c.isDigit || ('a' ≤ c && c ≤ 'f')) =
      (fun d => d == 'n') ::
        (literal "ode#" ++ .replicate 12 (fun c => c.isDigit || ('a' ≤ c && c ≤ 'f'))) := rfl
  have htail : fitsEach
      (literal "ode#" ++ .replicate 12 (fun c => c.isDigit || ('a' ≤ c && c ≤ 'f')))
      (x ++ 'n' :: z) = fitsEach (literal "ode#" ++
        .replicate 12 (fun c => c.isDigit || ('a' ≤ c && c ≤ 'f'))) x := by
    refine fitsEach_append (fun d hd p hp => ?_) x
    obtain rfl : 'n' = d := Option.some.inj hd
    rcases List.mem_append.mp hp with hp | hp
    · obtain ⟨e, he, rfl⟩ := List.mem_map.mp hp
      have hall : ∀ e ∈ "ode#".toList, ('n' == e) = false := by decide
      exact hall e he
    · rw [List.eq_of_mem_replicate hp]
      decide
  simp only [tagMatch, hclasses, List.cons_append, fitsEach, htail]

theorem tagMatch_le (x : Text) : tagMatch x ≤ x.length := by
  rw [tagMatch]
  split
  · rename_i h
    exact (fitsEach_spec h).1
  · exact Nat.zero_le _

theorem tagMatch_of_head {c : Char} (h : c ≠ 'n') (t : Text) : tagMatch (c :: t) = 0 := by
  have hclass : (c == 'n') = false := by simpa using h
  have hno : fitsEach
      (literal "node#" ++ .replicate 12 (fun c => c.isDigit || ('a' ≤ c && c ≤ 'f')))
      (c :: t) = false := by
    change ((c == 'n') && _) = false
    rw [hclass, Bool.false_and]
  rw [tagMatch, hno]
  rfl

theorem fitsEach_replicate {p : Char → Bool} {h : Text} (hall : ∀ c ∈ h, p c = true) (q : Text) :
    fitsEach (.replicate h.length p) (h ++ q) = true := by
  induction h with
  | nil => rfl
  | cons c h ih =>
      rw [List.length_cons, List.replicate_succ, List.cons_append, fitsEach, Bool.and_eq_true]
      exact ⟨hall c List.mem_cons_self, ih fun d hd => hall d (List.mem_cons_of_mem c hd)⟩

theorem tagMatch_tag (salt : UInt64) (value q : Text) : tagMatch (tag salt value ++ q) = 17 := by
  obtain ⟨hlen, hdigits⟩ := shortHash_spec (fnv salt value)
  have hhash := fitsEach_replicate (p := fun c => c.isDigit || ('a' ≤ c && c ≤ 'f')) (fun c hc => by
    simpa using hdigits c hc) q
  rw [hlen] at hhash
  have hfits : fitsEach
      (literal "node#" ++ .replicate 12 (fun c => c.isDigit || ('a' ≤ c && c ≤ 'f')))
      (tag salt value ++ q) = true :=
    (fitsEach_literal _ _ _).mpr ⟨shortHash (fnv salt value) ++ q, by rw [tag, List.append_assoc],
      hhash⟩
  rw [tagMatch, if_pos hfits]

/-- Every tag is masked the same. -/
theorem maskTags_around (salt : UInt64) (p value q : Text) :
    maskTags (p ++ (tag salt value ++ q)) = maskTags p ++ (txt "node#" ++ maskTags q) := by
  obtain ⟨hlen, hdigits⟩ := shortHash_spec (fnv salt value)
  have htag : ∃ rest, tag salt value = 'n' :: rest ∧ rest.length = 16 ∧ 'n' ∉ rest := by
    refine ⟨txt "ode#" ++ shortHash (fnv salt value), rfl, by simp [hlen, txt], fun hmem => ?_⟩
    rcases List.mem_append.mp hmem with hmem | hmem
    · revert hmem
      decide
    · have := hdigits 'n' hmem
      revert this
      decide
  obtain ⟨rest, htag, hrest, hn⟩ := htag
  have hbefore : Separates tagMatch p (tag salt value ++ q) := fun x _ hne => by
    rw [htag, List.cons_append]
    exact ⟨tagMatch_append hne _, tagMatch_le x⟩
  have hbehind : Separates tagMatch (tag salt value) q := fun x hx hne => by
    refine ⟨?_, tagMatch_le x⟩
    rw [htag] at hx
    rcases List.suffix_cons_iff.mp hx with rfl | hx
    · rw [← htag, tagMatch_tag, ← List.append_nil (tag salt value), tagMatch_tag]
    · -- a part of the tag does not begin like one
      obtain ⟨c, x, rfl⟩ := List.exists_cons_of_ne_nil hne
      have hc : c ≠ 'n' := fun heq => hn (heq ▸ hx.subset List.mem_cons_self)
      rw [List.cons_append, tagMatch_of_head hc, tagMatch_of_head hc]
  have hwhole : tagMatch (tag salt value) = (tag salt value).length := by
    rw [← List.append_nil (tag salt value), tagMatch_tag, List.append_nil, htag, List.length_cons,
      hrest]
  rw [maskTags, replaceAll_append hbefore, replaceAll_append hbehind,
    replaceAll_of_whole _ (by rw [htag]; simp) hwhole]
  rfl

/-- Of a slot nothing is left but a tag, if that. -/
def Hidden (salt : UInt64) (K : Text → Prop) (f : Text → Text) : Prop :=
  (∃ out, ∀ s, K s → f s = out) ∨ ∃ p q, ∀ s, K s → f s = p ++ (tag salt s ++ q)

theorem Hidden.mask {salt : UInt64} {K : Text → Prop} {f : Text → Text} (h : Hidden salt K f)
    {s s' : Text} (hs : K s) (hs' : K s') : maskTags (f s) = maskTags (f s') := by
  rcases h with ⟨out, hout⟩ | ⟨p, q, hout⟩
  · rw [hout s hs, hout s' hs']
  · rw [hout s hs, hout s' hs', maskTags_around, maskTags_around]

theorem Hidden.congr {salt : UInt64} {K : Text → Prop} {f g : Text → Text} (h : Hidden salt K f)
    (hfg : ∀ s, K s → g s = f s) : Hidden salt K g := by
  rcases h with ⟨out, hout⟩ | ⟨p, q, hout⟩
  · exact .inl ⟨out, fun s hs => (hfg s hs).trans (hout s hs)⟩
  · exact .inr ⟨p, q, fun s hs => (hfg s hs).trans (hout s hs)⟩

/-! ### What is around a slot -/

variable [CharTables]

/-- Around a slot: a name neither begins before it nor goes on after it, and no address in colons
does. -/
structure Around (p q : Text) : Prop where
  ends : EndsClear p
  begins : BeginsClear q
  left : Quiet (p.rtakeWhile colonOrHex)
  right : Quiet (q.takeWhile colonOrHex)

section Slot

variable {salt : UInt64} {K : Text → Prop} {p q p' q' : Text}

theorem Around.through (h : Around p q) (hl : Left p' p) (hr : Right q' q) : Around p' q' :=
  ⟨hl.clear h.ends, hr.clear h.begins, hl.run h.left, h.right.of_part hr.run.isInfix⟩

/-! ### Tags on their way -/

theorem ourHostFrom_of_absent {t : Text} (h : ¬ ourName <:+: t) (pos : Nat) (fresh : Bool)
    (best : Nat) :
    ourHostFrom pos fresh best t = best := by
  induction t generalizing pos fresh best with
  | nil => rfl
  | cons c t ih =>
      have htail : ¬ ourName <:+: t := fun hin => h (hin.trans (List.suffix_cons c t).isInfix)
      have hhead : startsWith (c :: t) ourName = false := by
        by_contra hs
        exact h (List.isPrefixOf_iff_prefix.mp (eq_true_of_ne_false hs)).isInfix
      simp only [ourHostFrom, hhead, Bool.and_false, Bool.false_and, Bool.false_eq_true, ↓reduceIte,
        ih htail, ite_self]

theorem ourHost_of_absent {l t : Text} (h : ¬ ourName <:+: t) : ourHost l t = none := by
  rw [ourHost, ourHostFrom_of_absent h]

/-- The tags of a kind of slot. -/
def TagOf (salt : UInt64) (K : Text → Prop) (t : Text) : Prop := ∃ s, K s ∧ t = tag salt s

omit [CharTables] in
theorem dot_notMem_tag (s : Text) : '.' ∉ tag salt s := tag_not_mem (by decide) (by decide)

theorem mild_tag (s : Text) : Mild (tag salt s) where
  nonempty := (put_tag salt s).nonempty
  token c hc := tokenEnd_of_blank ((put_tag salt s).blank c hc)
  plain c hc hmem := by
    have hall : ∀ d ∈ ['(', ')', '/', '\\', ':'], d.isAlphanum = false ∧ d ≠ '#' := by decide
    exact tag_not_mem (hall c hmem).1 (hall c hmem).2 hc

/-- A tag comes through the expressions for names. -/
theorem names_keep_tag (hp : EndsClear p) (hq : BeginsClear q) : ∃ p' q', Left p' p ∧ Right q' q ∧
    ∀ s, K s → (hostname salt).apply (ourHost.apply (p ++ (tag salt s ++ q))) =
      p' ++ (tag salt s ++ q') := by
  obtain ⟨p₁, q₁, hl₁, hr₁, hours⟩ := ourHost_local.keeps (K := TagOf salt K) hp hq (by
    rintro t ⟨s, -, rfl⟩
    refine Pass.finds_of_none fun a b hab _ => ourHost_of_absent fun hin => ?_
    have hdot : '.' ∈ b := hin.subset (by decide)
    exact dot_notMem_tag s (hab ▸ List.mem_append_right a hdot))
  obtain ⟨p₂, q₂, hl₂, hr₂, hnames⟩ := @hostname_gives _ salt (TagOf salt K) id p₁ q₁ (hl₁.clear hp)
    (hr₁.clear hq) (by rintro t ⟨s, -, rfl⟩; exact mild_tag s) (by
      rintro t ⟨s, -, rfl⟩
      refine Pass.go_append_of_none fun a b hab _ => ?_
      have hdot : '.' ∉ b := fun hmem => dot_notMem_tag s (hab ▸ List.mem_append_right a hmem)
      have hwhole : wholeHost (b ++ q₁) = [] := by
        rw [wholeHost_append (hr₁.clear hq), wholeHost_of_dotless hdot]
      simp only [hostname, hwhole, decide_true, Bool.true_or, ↓reduceIte])
  refine ⟨p₂, q₂, hl₂.trans hl₁, hr₂.trans hr₁, fun s hs => ?_⟩
  rw [hours _ ⟨s, hs, rfl⟩]
  exact hnames _ ⟨s, hs, rfl⟩

/-- And through those for addresses. -/
theorem addresses_keep_tag (h : Around p q) : ∃ p' q', ∀ s, K s →
    (ipv4 salt).apply ((ipv6 salt).apply (p ++ (tag salt s ++ q))) = p' ++ (tag salt s ++ q') := by
  obtain ⟨p₁, q₁, hp₁, hq₁, hcolons⟩ :=
    @ipv6_keeps _ salt (TagOf salt K) p q h.ends h.begins h.left h.right (by
    rintro t ⟨s, -, rfl⟩
    exact ⟨tag_not_mem (by decide) (by decide), '#', by simp [tag, txt], by decide⟩)
  obtain ⟨p₂, q₂, -, -, hdots⟩ := (ipv4_local salt).keeps (K := TagOf salt K) hp₁ hq₁ (by
    rintro t ⟨s, -, rfl⟩
    refine Pass.finds_of_none fun a b hab _ => ipv4_of_dotless fun hmem => ?_
    exact dot_notMem_tag s (hab ▸ List.mem_append_right a hmem))
  refine ⟨p₂, q₂, fun s hs => ?_⟩
  rw [hcolons _ ⟨s, hs, rfl⟩]
  exact hdots _ ⟨s, hs, rfl⟩

/-! ### The whole -/

/-- **What comes through the links and the URLs** is hidden when the last expressions hide it. -/
theorem scrub_hidden (hK : ∀ s, K s → Name s) (h : Around p q)
    (hlink : (∀ s, K s → ∀ c ∈ s, c.isAlpha = false) ∨ ¬ [':', '/', '/'] <+: q)
    (hkind : (∀ s, K s → ∀ c ∈ s, c.isAlpha = false) ∨
      ∀ s, K s → ∃ u w, s = u ++ '.' :: w ∧ w.head?.any Char.isAlpha = true)
    (hids : ∀ s, K s → uuid.finds [] s = false) (hours : ∀ s, K s → ourHost.finds [] s = false)
    (htag : ∀ s, K s → ∀ m : UrlMatch, m.host = s → m.shown salt = tag salt s)
    (hlast : ∀ p' q', Left p' p → Right q' q →
      Hidden salt K fun s =>
        (ipv4 salt).apply ((ipv6 salt).apply ((hostname salt).apply (p' ++ (s ++ q'))))) :
    Hidden salt K fun s => scrub salt (p ++ (s ++ q)) := by
  rcases cryptLink_fate hK h.ends h.begins hlink with ⟨out, hgone⟩ | ⟨p₁, q₁, hl₁, hr₁, hlinks⟩
  · refine .inl ⟨(ipv4 salt).apply ((ipv6 salt).apply ((hostname salt).apply (ourHost.apply
      ((url salt).apply (uuid.apply out))))), fun s hs => ?_⟩
    simp only [scrub, hideNamed, hgone s hs]
  have h₁ := h.through hl₁ hr₁
  obtain ⟨p₂, q₂, hl₂, hr₂, huuid⟩ := uuid_local.keeps h₁.ends h₁.begins hids
  have h₂ := h₁.through hl₂ hr₂
  have hfront : ∀ s, K s → scrub salt (p ++ (s ++ q)) =
      (ipv4 salt).apply ((ipv6 salt).apply ((hostname salt).apply (ourHost.apply
        ((url salt).apply (p₂ ++ (s ++ q₂)))))) := fun s hs => by
    have hid : uuid.apply (p₁ ++ (id s ++ q₁)) = p₂ ++ (s ++ q₂) := huuid s hs
    simp only [scrub, hideNamed, hlinks s hs, hid]
  refine Hidden.congr ?_ hfront
  cases url_fate hK h₂.ends h₂.begins hkind htag with
  | gone out hgone =>
      exact .inl ⟨(ipv4 salt).apply ((ipv6 salt).apply ((hostname salt).apply (ourHost.apply out))),
        fun s hs => by simp only [hgone s hs]⟩
  | kept p₃ q₃ hl₃ hr₃ hurls =>
      have h₃ := h₂.through hl₃ hr₃
      obtain ⟨p₄, q₄, hl₄, hr₄, hhost⟩ := ourHost_local.keeps h₃.ends h₃.begins hours
      refine (hlast p₄ q₄ (hl₄.trans (hl₃.trans (hl₂.trans hl₁)))
        (hr₄.trans (hr₃.trans (hr₂.trans hr₁)))).congr
        fun s hs => ?_
      simp only [hurls s hs]
      exact congrArg (fun t => (ipv4 salt).apply ((ipv6 salt).apply ((hostname salt).apply t)))
        (hhost s hs)
  | tagged p₃ q₃ hp₃ hend hq₃ hrun hurls =>
      obtain ⟨p₄, q₄, hl₄, hr₄, hnames⟩ := @names_keep_tag _ salt K _ _ hp₃ hq₃
      have h₃ : Around p₃ q₃ := ⟨hp₃, hq₃, by rw [hend]; exact quiet_of_colonless (by simp),
        h₂.right.of_part hrun.isInfix⟩
      obtain ⟨p₅, q₅, haddr⟩ := @addresses_keep_tag _ salt K _ _ (h₃.through hl₄ hr₄)
      exact .inr ⟨p₅, q₅, fun s hs => by simp only [hurls s hs, hnames s hs, haddr s hs]⟩

/-! ### Addresses -/

omit [CharTables] in
theorem length_of_isV4 {x : Text} (h : isV4 x = true) : x.length ≤ 15 := by
  obtain ⟨hlen, hoctets, -⟩ := isV4_spec h
  have hoctet : ∀ part ∈ x.splitOn '.', part.length ≤ 3 := fun part hpart => by
    have := hoctets part hpart
    simp only [octet, Bool.and_eq_true, decide_eq_true_eq] at this
    exact this.1.2
  rw [← Name.joined_splitOn x]
  obtain ⟨a, b, c, d, hparts⟩ := List.length_eq_four.mp hlen
  rw [hparts] at hoctet ⊢
  simp only [List.mem_cons, List.not_mem_nil, or_false, forall_eq_or_imp, forall_eq] at hoctet
  have hjoined : joined [a, b, c, d] = a ++ ('.' :: b ++ ('.' :: c ++ '.' :: d)) := by
    simp [joined, txt, List.intercalate]
  rw [hjoined]
  simp only [List.length_append, List.length_cons]
  omega

theorem uuid_of_short {l t : Text} (h : t.length < 36) : uuid l t = none := by
  have hfits : fitsEach uuidClasses t = false := by
    by_contra hfits
    have hlen := (fitsEach_spec (eq_true_of_ne_false hfits)).1
    have hclasses : uuidClasses.length = 36 := by decide
    omega
  simp [uuid, hfits]

omit [CharTables] in
/-- Digits and dots hold no name of ours. -/
theorem ourName_absent {x : Text} (h : isV4 x = true) {a b : Text} (hab : x = a ++ b) :
    ¬ ourName <:+: b := fun hin => by
  have hp : 'p' ∈ b := hin.subset (by decide)
  rcases (isV4_spec h).2.2 'p' (hab ▸ List.mem_append_right a hp) with hd | hd
  · revert hd
    decide
  · revert hd
    decide

omit [CharTables] in
theorem isAlpha_of_isDigit {c : Char} (h : c.isDigit = true) : c.isAlpha = false := by
  delta Char.isDigit at h
  delta Char.isAlpha Char.isUpper Char.isLower
  simp only [Bool.and_eq_true, decide_eq_true_eq, ge_iff_le, UInt32.le_iff_toNat_le] at h
  have h9 : '9'.val.toNat = 57 := rfl
  have hA : 'A'.val.toNat = 65 := rfl
  have ha : 'a'.val.toNat = 97 := rfl
  simp only [Bool.or_eq_false_iff, Bool.and_eq_false_iff, decide_eq_false_iff_not, ge_iff_le,
    UInt32.le_iff_toNat_le]
  omega

theorem hostShaped_of_isV4 {x : Text} (h : isV4 x = true) : hostShaped x = false := by
  have hdigits : (x.splitOn '.').all (fun part => part.all digit) = true := by
    simp only [List.all_eq_true]
    intro part hpart c hc
    have := (isV4_spec h).2.1 part hpart
    simp only [octet, Bool.and_eq_true, List.all_eq_true] at this
    have hd := this.2 c hc
    rw [digit_ascii c (toNat_lt_of_isAlphanum (isAlphanum_of_isDigit hd)), hd]
  rw [hostShaped, hdigits]
  simp

theorem Name.mild {s : Text} (h : Name s) : Mild s where
  nonempty := h.ne_nil
  token c hc := tokenEnd_of_blank (h.char hc).2.2.2
  plain c hc hmem := by
    have hall : ∀ d ∈ ['(', ')', '/', '\\', ':'], schemeChar d = false := by decide
    have := (h.char hc).2.1
    rw [hall c hmem] at this
    cases this

/-- Four numbers up to 255 that are not an address of this machine or its network. -/
def PublicAddress (x : Text) : Prop := isV4 x = true ∧ publicV4 x = true

namespace PublicAddress

variable {x : Text}

theorem name (h : PublicAddress x) : Name x := name_of_isV4 h.1

omit [CharTables] in
theorem isAlpha (h : PublicAddress x) {c : Char} (hc : c ∈ x) : c.isAlpha = false := by
  rcases (isV4_spec h.1).2.2 c hc with hd | rfl
  · exact isAlpha_of_isDigit hd
  · decide

theorem shown {m : UrlMatch} (h : PublicAddress m.host) : m.shown salt = tag salt m.host := by
  have hpos : (0 == m.host.length) = false := by
    cases hm : m.host with
    | nil => exact absurd hm h.name.ne_nil
    | cons c t => rfl
  have hours : isOurHost m.host = false := by
    rw [isOurHost, ourHostFrom_of_absent (ourName_absent h.1 (List.nil_append _).symm), hpos,
      Bool.false_and]
  simp [UrlMatch.shown, hours, h.1, tagIfPublicV4, h.2]

/-- The last three expressions: an address is no destination's name, and breaks a run of digits and
colons. -/
theorem hidden (h : Around p q) : Hidden salt PublicAddress fun x =>
    (ipv4 salt).apply ((ipv6 salt).apply ((hostname salt).apply (p ++ (x ++ q)))) := by
  obtain ⟨p₁, q₁, hl₁, hr₁, hnames⟩ := @hostname_gives _ salt PublicAddress id p q h.ends h.begins
    (fun x hx => hx.name.mild) (fun x hx => by
      rw [hostname_at h.ends h.begins hx.name, hostShaped_of_isV4 hx.1]
      rfl)
  have h₁ := h.through hl₁ hr₁
  obtain ⟨p₂, q₂, hp₂, hq₂, hcolons⟩ :=
    @ipv6_keeps _ salt PublicAddress p₁ q₁ h₁.ends h₁.begins h₁.left
    h₁.right (fun x hx => by
      obtain ⟨w, rest, hcut, -, -⟩ := hx.name.cut_first
      exact ⟨fun hmem => hx.name.mild.plain ':' hmem (by simp), '.', by rw [hcut]; simp, by decide⟩)
  obtain ⟨p₃, q₃, -, -, hdots⟩ := @ipv4_gives _ salt PublicAddress _ _ hp₂ hq₂ fun x hx => hx.1
  refine .inr ⟨p₃, q₃, fun x hx => ?_⟩
  have hname : (hostname salt).apply (p ++ (x ++ q)) = p₁ ++ (x ++ q₁) := hnames x hx
  have htag : tagIfPublicV4 salt x = tag salt x := by rw [tagIfPublicV4, if_pos hx.2]
  beta_reduce
  rw [hname, hcolons x hx, hdots x hx, htag]

end PublicAddress

/-- **A public address is hidden** wherever it stands between what is clear of names and of
addresses in colons: in a link, anywhere in a URL, or bare. -/
theorem public_address_hidden (salt : UInt64) {p q : Text} (h : Around p q) {s s' : Text}
    (hs : PublicAddress s) (hs' : PublicAddress s') :
    maskTags (scrub salt (p ++ (s ++ q))) = maskTags (scrub salt (p ++ (s' ++ q))) := by
  have halpha : ∀ x, PublicAddress x → ∀ c ∈ x, c.isAlpha = false := fun x hx c hc => hx.isAlpha hc
  refine (scrub_hidden (K := PublicAddress) (fun x hx => hx.name) h (.inl halpha) (.inl halpha)
    (fun x hx => ?_) (fun x hx => ?_) (fun x hx m hm => ?_) fun p' q' hl hr => ?_).mask hs hs'
  · refine Pass.finds_of_none fun a b hab _ => uuid_of_short ?_
    have hlen := length_of_isV4 hx.1
    rw [hab, List.length_append] at hlen
    omega
  · exact Pass.finds_of_none fun a b hab _ => ourHost_of_absent (ourName_absent hx.1 hab)
  · subst hm
    exact hx.shown
  · exact PublicAddress.hidden (h.through hl hr)

omit [CharTables] in
theorem around_bracketed : @Around asciiTables (txt "dial tcp [") (txt "]:443: refused") := by
  refine @Around.mk asciiTables _ _ (fun c hc => ?_) (fun c hc => ?_) ?_ ?_
  · obtain rfl : '[' = c := Option.some.inj hc
    decide
  · obtain rfl : ']' = c := Option.some.inj hc
    decide
  all_goals
    unfold Quiet
    decide

omit [CharTables] in
theorem public_address_hidden_dial :
    maskTags (@scrub asciiTables 7 (txt "dial tcp [" ++ (txt "8.8.8.8" ++ txt "]:443: refused"))) =
      maskTags (@scrub asciiTables 7
        (txt "dial tcp [" ++ (txt "93.184.216.34" ++ txt "]:443: refused"))) :=
  @public_address_hidden asciiTables 7 _ _ around_bracketed _ _ ⟨by decide, by decide⟩
    ⟨by decide, by decide⟩

/-! ### Names of hosts -/

/-- Where a host's name stands as one: where a URL has its host, or in a word without a path. -/
def Placed (p q : Text) : Prop := Authority p ∨
  ('/' ∉ p.rtakeWhile (fun c => !tokenEnd c) ∧ '/' ∉ q.takeWhile fun c => !tokenEnd c)

theorem Placed.through (h : Placed p q) (hl : Left p' p) (hr : Right q' q) : Placed p' q' :=
  h.imp hl.authority fun ⟨hp, hq⟩ =>
    ⟨fun hmem => hp (hl.slash hmem), fun hmem => hq (hr.slash hmem)⟩

omit [CharTables] in
theorem Authority.ofUrl (h : Authority p) :
    [':', '/', '/'] <:+: p.rtakeWhile (fun c => !tokenEnd c) ∧
    (p.reverse.head? = some '@' ∨ ['/', '/', ':'] <+: p.reverse) := by
  have htoken : ∀ d ∈ [':', '/', '/'], (!tokenEnd d) = true := by decide
  rcases h with ⟨u, rfl⟩ | ⟨hat, hscheme⟩
  · refine ⟨?_, .inr ⟨u.reverse, by simp⟩⟩
    rw [rtakeWhile_append_of_forall htoken]
    exact List.infix_append_right
  · refine ⟨hscheme.trans (List.IsSuffix.isInfix ?_), .inl (by rw [List.head?_reverse, hat])⟩
    have hsplit := List.rdropWhile_append_rtakeWhile (p := fun c => !blank c) (l := p)
    have hword : ∀ c ∈ p.rtakeWhile (fun c => !blank c), (!tokenEnd c) = true := fun c hc => by
      have := List.mem_rtakeWhile_imp hc
      rw [tokenEnd_of_blank (by simpa using this)]
      rfl
    nth_rewrite 2 [← hsplit]
    rw [rtakeWhile_append_of_forall hword]
    exact List.suffix_append ..

omit [CharTables] in
theorem hostPlaced_of_placed {s : Text} (hs : Mild s) (hcode : ∀ c ∈ p ++ q, codeChar c = false)
    (h : Placed p q) : hostPlaced p.reverse s q = true := by
  have htoken : tokenAround p.reverse s q = p.rtakeWhile (fun c => !tokenEnd c) ++ s ++
      q.takeWhile fun c => !tokenEnd c := rfl
  have hclean : ∀ c ∈ ['(', ')', '\\'], (tokenAround p.reverse s q).contains c = false := by
    intro c hc
    have hall : ∀ d ∈ ['(', ')', '\\'], codeChar d = true ∧ d ∈ ['(', ')', '/', '\\', ':'] := by
      decide
    rw [← Bool.not_eq_true, List.contains_iff_mem, htoken]
    intro hmem
    have hpq : c ∈ p ++ q := by
      simp only [List.mem_append] at hmem ⊢
      rcases hmem with (hmem | hmem) | hmem
      · exact .inl ((List.rtakeWhile_suffix _ _).subset hmem)
      · exact absurd (hall c hc).2 (hs.plain c hmem)
      · exact .inr ((List.takeWhile_prefix _).subset hmem)
    have hcc := (hall c hc).1
    rw [hcode c hpq] at hcc
    cases hcc
  rw [hostPlaced, hclean '(' (by simp), hclean ')' (by simp), hclean '\\' (by simp)]
  rcases h with h | ⟨hp, hq⟩
  · obtain ⟨hscheme, hbefore⟩ := h.ofUrl
    have hcontains : contains (tokenAround p.reverse s q) (txt "://") = true := by
      rw [contains_iff, htoken]
      exact (hscheme.trans List.infix_append_left).trans List.infix_append_left
    rcases hbefore with hat | hstart
    · simp [hcontains, hat]
    · have hstart' : startsWith p.reverse (txt "//:") = true :=
        List.isPrefixOf_iff_prefix.mpr hstart
      simp [hcontains, hstart']
  · have hslash : (tokenAround p.reverse s q).contains '/' = false := by
      rw [← Bool.not_eq_true, List.contains_iff_mem, htoken]
      intro hmem
      simp only [List.mem_append] at hmem
      rcases hmem with (hmem | hmem) | hmem
      · exact hp hmem
      · exact hs.plain '/' hmem (by simp)
      · exact hq hmem
    rw [hslash]
    simp

/-- A host's name in lower case, with a last label of letters that is no file's suffix, and with
nothing in it that the narrower expressions take for something of theirs. -/
structure HostName (s : Text) : Prop where
  name : Name s
  lower : ∀ c ∈ s, c.isUpper = false
  last : ∀ c ∈ lastLabel s, c.isAlpha = true
  suffix : lastLabel s ∉ nonHostSuffixes
  noId : uuid.finds [] s = false
  notOurs : ourHost.finds [] s = false

namespace HostName

variable {s : Text}

theorem lowercase (h : HostName s) {t : Text} (ht : ∀ c ∈ t, c ∈ s) : CharTables.lowercase t = t :=
  lowercase_ascii t fun c hc => ⟨h.name.toNat_lt (ht c hc), h.lower c (ht c hc)⟩

/-- The last label, which begins with a letter. -/
theorem cut_last (h : HostName s) : ∃ u c v, s = u ++ '.' :: c :: v ∧ lastLabel s = c :: v ∧
    c.isAlpha = true ∧ s.splitOn '.' = u.splitOn '.' ++ [c :: v] := by
  obtain ⟨u, v, hs, -, hlabel, hsplit⟩ := h.name.cut_last
  obtain ⟨⟨c, hc, -⟩, -⟩ := Name.label_spec hlabel
  obtain ⟨v, rfl⟩ := List.head?_eq_some_iff.mp hc
  have hlast : lastLabel s = c :: v := by simp [lastLabel, hsplit]
  exact ⟨u, c, v, hs, hlast, h.last c (by simp [hlast]), hsplit⟩

theorem shaped (h : HostName s) : hostShaped s = true := by
  obtain ⟨u, c, v, hs, hlast, halpha, hsplit⟩ := h.cut_last
  have hlabel : ∀ d ∈ lastLabel s, d ∈ s := fun d hd => by
    rw [hlast] at hd
    rw [hs]
    exact List.mem_append_right u (List.mem_cons_of_mem '.' hd)
  have hc : c ∈ s := hlabel c (by simp [hlast])
  have hsuffix : nonHostSuffixes.contains (CharTables.lowercase (lastLabel s)) = false := by
    rw [h.lowercase hlabel, ← Bool.not_eq_true, List.contains_iff_mem]
    exact h.suffix
  have hdigits : (s.splitOn '.').all (fun part => part.all digit) = false := by
    rw [← Bool.not_eq_true, List.all_eq_true]
    intro hall
    have hd := List.all_eq_true.mp (hall (c :: v) (by rw [hsplit]; simp)) c List.mem_cons_self
    rw [digit_ascii c (h.name.toNat_lt hc)] at hd
    rw [isAlpha_of_isDigit hd] at halpha
    cases halpha
  have hupper : (lastLabel s).head?.any upper = false := by
    rw [hlast, List.head?_cons, Option.any_some, upper_ascii c (h.name.toNat_lt hc), h.lower c hc]
  rw [hostShaped, hsuffix, hdigits, hupper]
  rfl

theorem not_isV4 (h : HostName s) : isV4 s = false := by
  by_contra hv4
  obtain ⟨u, c, v, hs, -, halpha, -⟩ := h.cut_last
  rcases (isV4_spec (eq_true_of_ne_false hv4)).2.2 c (by rw [hs]; simp) with hd | rfl
  · rw [isAlpha_of_isDigit hd] at halpha
    cases halpha
  · revert halpha
    decide

theorem not_isOurHost (h : HostName s) : isOurHost s = false := by
  by_contra hours
  obtain ⟨c, t, rfl⟩ := List.exists_cons_of_ne_nil h.name.ne_nil
  have hnone : ourHost [] (c :: t) = none :=
    Pass.none_of_finds (a := []) h.notOurs rfl (List.cons_ne_nil c t)
  have hwhole := eq_true_of_ne_false hours
  rw [isOurHost, Bool.and_eq_true, beq_iff_eq, List.length_cons] at hwhole
  have hboundary : boundary none (some c) = true := hwhole.2
  rw [ourHost, hwhole.1] at hnone
  simp [hboundary] at hnone

theorem shown {m : UrlMatch} (h : HostName m.host) : m.shown salt = tag salt m.host := by
  simp [UrlMatch.shown, h.not_isOurHost, h.not_isV4, h.lowercase fun c hc => hc]

/-- The last three expressions: the first of them tags it. -/
theorem hidden (h : Around p q) (hcode : ∀ c ∈ p ++ q, codeChar c = false) (hplaced : Placed p q) :
    Hidden salt HostName fun x =>
      (ipv4 salt).apply ((ipv6 salt).apply ((hostname salt).apply (p ++ (x ++ q)))) := by
  obtain ⟨p₁, q₁, hl₁, hr₁, hnames⟩ := @hostname_gives _ salt HostName
    (tag salt) p q h.ends h.begins
    (fun x hx => hx.name.mild) (fun x hx => by
      rw [hostname_at h.ends h.begins hx.name, hx.shaped,
        hostPlaced_of_placed hx.name.mild hcode hplaced, hx.lowercase fun c hc => hc]
      rfl)
  obtain ⟨p₂, q₂, haddr⟩ := @addresses_keep_tag _ salt HostName _ _ (h.through hl₁ hr₁)
  exact .inr ⟨p₂, q₂, fun x hx => by simp only [hnames x hx, haddr x hx]⟩

end HostName

/-- **A host's name is hidden** where it stands as a host, in a line that holds no code. -/
theorem host_name_hidden (salt : UInt64) {p q : Text} (h : Around p q)
    (hcode : ∀ c ∈ p ++ q, codeChar c = false) (hplaced : Placed p q)
    (hscheme : ¬ [':', '/', '/'] <+: q) {s s' : Text} (hs : HostName s) (hs' : HostName s') :
    maskTags (scrub salt (p ++ (s ++ q))) = maskTags (scrub salt (p ++ (s' ++ q))) := by
  refine (scrub_hidden (K := HostName) (fun x hx => hx.name) h (.inr hscheme) (.inr fun x hx => ?_)
    (fun x hx => hx.noId) (fun x hx => hx.notOurs) (fun x hx m hm => ?_) fun p' q' hl hr =>
      ?_).mask hs hs'
  · obtain ⟨u, c, v, hcut, -, halpha, -⟩ := hx.cut_last
    exact ⟨u, c :: v, hcut, by simpa using halpha⟩
  · subst hm
    exact hx.shown
  · refine HostName.hidden (h.through hl hr) (fun c hc => ?_) (hplaced.through hl hr)
    by_contra hcc
    rcases List.mem_append.mp hc with hmem | hmem
    · exact hcc (hcode c (List.mem_append_left q (hl.code c hmem (eq_true_of_ne_false hcc))))
    · exact hcc (hcode c (List.mem_append_right p (hr.code c hmem (eq_true_of_ne_false hcc))))

end Slot

omit [CharTables] in
theorem hostName_mail : @HostName asciiTables (txt "mail.example.com") := by
  refine @HostName.mk asciiTables _ (@Name.mk asciiTables _ ?_ ?_ ?_) ?_ ?_ ?_ ?_ ?_ <;> decide

omit [CharTables] in
theorem hostName_cdn : @HostName asciiTables (txt "cdn.proofkit.net") := by
  refine @HostName.mk asciiTables _ (@Name.mk asciiTables _ ?_ ?_ ?_) ?_ ?_ ?_ ?_ ?_ <;> decide

omit [CharTables] in
theorem around_lookup : @Around asciiTables (txt "lookup ") (txt ": no such host") := by
  refine @Around.mk asciiTables _ _ (fun c hc => ?_) (fun c hc => ?_) ?_ ?_
  · obtain rfl : ' ' = c := Option.some.inj hc
    decide
  · obtain rfl : ':' = c := Option.some.inj hc
    decide
  all_goals
    unfold Quiet
    decide

omit [CharTables] in
theorem host_name_hidden_lookup :
    maskTags (@scrub asciiTables 7
      (txt "lookup " ++ (txt "mail.example.com" ++ txt ": no such host"))) =
      maskTags (@scrub asciiTables 7
        (txt "lookup " ++ (txt "cdn.proofkit.net" ++ txt ": no such host"))) :=
  @host_name_hidden asciiTables 7 _ _ around_lookup (by decide) (.inr ⟨by decide, by decide⟩)
    (by decide)
    _ _ hostName_mail hostName_cdn

end Ghostlane.App.LogScrubber
