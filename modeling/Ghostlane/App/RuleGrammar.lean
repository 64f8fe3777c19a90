import Ghostlane.App.RuleSpelling

/-!
# Ghostlane.App.RuleGrammar

What is taken for an address. The grammar is one (`Address`), over what counts as a number in it: as
a person writes one (`written`), or as the number readers take it, with a sign and with the digits
of any script (`taken`). The two part at a sign or a character outside ASCII, and nowhere else
(`parse_address_iff`).
-/

namespace Ghostlane.App.RoutingRule

open Ghostlane.Lib Ghostlane.Lib.Inet

/-! ### Case -/

/-- What an address is made of. -/
def Telling (c : Char) : Prop := c ∈ ['.', '/', ':', '+', '-'] ∨ (digitOf 16 c).isSome = true

instance : DecidablePred Telling := fun c =>
  inferInstanceAs (Decidable (c ∈ ['.', '/', ':', '+', '-'] ∨ (digitOf 16 c).isSome = true))

/-- The lower case of what an address is made of. -/
def fold (c : Char) : Char :=
  if c.toNat < 0x80 then c.toLower
  else if 0xFF21 ≤ c.toNat ∧ c.toNat ≤ 0xFF3A then Char.ofNat (c.toNat + 0x20)
  else c

/-- Two characters that are read the same in an address. -/
structure Alike (c d : Char) : Prop where
  digit : ∀ radix ∈ [10, 16], digitOf radix d = digitOf radix c
  decimal : isDigit d = isDigit c
  units : units d = units c
  mark : ∀ m ∈ ['.', '/', ':', '+', '-'], d = m ↔ c = m

instance (c d : Char) : Decidable (Alike c d) :=
  decidable_of_iff ((∀ radix ∈ [10, 16], digitOf radix d = digitOf radix c) ∧
      isDigit d = isDigit c ∧ App.units d = App.units c ∧
        ∀ m ∈ ['.', '/', ':', '+', '-'], d = m ↔ c = m)
    ⟨fun h => ⟨h.1, h.2.1, h.2.2.1, h.2.2.2⟩, fun h => ⟨h.1, h.2, h.3, h.4⟩⟩

theorem alike_fold (c : Char) : Alike c (fold c) := by
  have hwide : ∀ i ∈ List.range 26,
      Alike (Char.ofNat (0xFF21 + i)) (Char.ofNat (0xFF21 + i + 0x20)) := by
    decide
  rw [fold]
  split
  · rename_i hlt
    exact forall_ascii (p := fun c => Alike c c.toLower) (by decide +kernel) hlt
  · split
    · rename_i hrange
      obtain ⟨i, hi⟩ := Nat.exists_eq_add_of_le hrange.1
      have hspec := hwide i (List.mem_range.mpr (by omega))
      rwa [← hi, Char.ofNat_toNat] at hspec
    · exact ⟨fun _ _ => rfl, rfl, rfl, fun _ _ => Iff.rfl⟩

section Case

variable [Casing]

theorem lowerOf_telling {c : Char} (h : Telling c) (before after : Text) :
    lowerOf before c after = [fold c] := by
  have hnot : ∀ n : Nat, ¬ Telling (Char.ofNat n) → c.toNat ≠ n := by
    rintro n hn rfl
    rw [Char.ofNat_toNat] at hn
    exact hn h
  rw [lowerOf, fold]
  split
  · rfl
  · rename_i hforeign
    rw [if_neg (hnot 0x212A (by decide)), if_neg (hnot 0x130 (by decide))]
    split
    · rfl
    · rcases h with hmark | hdigit
      · have hascii : ∀ m ∈ ['.', '/', ':', '+', '-'], m.toNat < 0x80 := by decide
        exact absurd (hascii c hmark) hforeign
      · rw [if_pos hdigit]

theorem telling_of_lowerOf {c : Char} {before after : Text}
    (h : ∀ d ∈ lowerOf before c after, Telling d) : Telling c := by
  have hwide : ∀ i ∈ List.range 26,
      Telling (Char.ofNat (0xFF21 + i + 0x20)) → Telling (Char.ofNat (0xFF21 + i)) := by
    decide
  unfold lowerOf at h
  dsimp only at h
  split at h
  · rename_i hlt
    exact forall_ascii (p := fun c => Telling c.toLower → Telling c) (by decide +kernel) hlt
      (h _ (List.mem_singleton_self _))
  · split at h
    · exact absurd (h 'k' (List.mem_singleton_self _)) (by decide)
    · split at h
      · exact absurd (h 'i' List.mem_cons_self) (by decide)
      · split at h
        · rename_i hrange
          obtain ⟨i, hi⟩ := Nat.exists_eq_add_of_le hrange.1
          have hspec := hwide i (List.mem_range.mpr (by omega))
          rw [← hi, Char.ofNat_toNat] at hspec
          exact hspec (h _ (List.mem_singleton_self _))
        · split at h
          · rename_i hdigit
            exact .inr hdigit
          · -- What comes of the others is no part of an address.
            obtain ⟨d, hd⟩ := List.exists_mem_of_ne_nil _ (Casing.other_ne_nil before c after)
            obtain ⟨hforeign, hdigit⟩ := Casing.other_foreign before c after d hd
            rcases h d hd with hmark | hsome
            · have hlow : ∀ m ∈ ['.', '/', ':', '+', '-'], m.toNat < 0x80 := by decide
              exact absurd (hlow d hmark) (not_lt.mpr hforeign)
            · rw [hdigit] at hsome
              cases hsome

theorem lowerFrom_telling {t : Text} (h : ∀ c ∈ t, Telling c) (before : Text) :
    lowerFrom before t = t.map fold := by
  induction t generalizing before with
  | nil => rfl
  | cons c t ih =>
      obtain ⟨hc, ht⟩ := List.forall_mem_cons.mp h
      rw [lowerFrom, lowerOf_telling hc, ih ht]
      rfl

theorem telling_of_lowerFrom {t before : Text} (h : ∀ d ∈ lowerFrom before t, Telling d) :
    ∀ c ∈ t, Telling c := by
  induction t generalizing before with
  | nil => exact List.forall_mem_nil _
  | cons c t ih =>
      obtain ⟨hc, ht⟩ := List.forall_mem_append.mp h
      exact List.forall_mem_cons.mpr ⟨telling_of_lowerOf hc, ih ht⟩

end Case

/-! ### Reading is blind to case -/

theorem fold_eq_iff {c m : Char} (hm : m ∈ ['.', '/', ':', '+', '-']) : fold c = m ↔ c = m :=
  (alike_fold c).mark m hm

theorem splitOn_fold {m : Char} (hm : m ∈ ['.', '/', ':', '+', '-']) (t : Text) :
    (t.map fold).splitOn m = (t.splitOn m).map (List.map fold) := by
  induction t with
  | nil => rfl
  | cons c t ih =>
      rw [List.splitOn] at ih ⊢
      rw [List.splitOn] at ih ⊢
      rw [List.map_cons, List.splitOnP_cons_eq_if_modifyHead, List.splitOnP_cons_eq_if_modifyHead,
        ih]
      by_cases hc : c = m
      · rw [if_pos (beq_iff_eq.mpr ((fold_eq_iff hm).mpr hc)), if_pos (beq_iff_eq.mpr hc)]
        rfl
      · rw [if_neg (by rw [beq_iff_eq, fold_eq_iff hm]; exact hc), if_neg (by rwa [beq_iff_eq])]
        cases t.splitOnP (· == m) <;> rfl

theorem splitFirst_fold {m : Char} (hm : m ∈ ['.', '/', ':', '+', '-']) (t : Text) :
    splitFirst m (t.map fold) =
      ((splitFirst m t).1.map fold, (splitFirst m t).2.map (List.map fold)) := by
  have hcut : cutFirst m (t.map fold) =
      (cutFirst m t).map fun p => (p.1.map fold, p.2.map fold) := by
    induction t with
    | nil => rfl
    | cons c t ih =>
        rw [List.map_cons, cutFirst, cutFirst]
        by_cases hc : c = m
        · rw [if_pos ((fold_eq_iff hm).mpr hc), if_pos hc]
          rfl
        · rw [if_neg (by rwa [fold_eq_iff hm]), if_neg hc, ih, Option.map_map, Option.map_map]
          rfl
  rw [splitFirst, splitFirst, cut_eq_cutFirst, cut_eq_cutFirst, hcut]
  cases cutFirst m t <;> rfl

theorem count_fold {m : Char} (hm : m ∈ ['.', '/', ':', '+', '-']) (t : Text) :
    (t.map fold).count m = t.count m := by
  rw [List.count_eq_countP, List.countP_map, List.count_eq_countP]
  refine List.countP_congr fun c _ => ?_
  rw [Function.comp_apply, beq_iff_eq, beq_iff_eq, fold_eq_iff hm]

theorem utf16Length_fold (t : Text) : utf16Length (t.map fold) = utf16Length t := by
  rw [utf16Length, utf16Length, List.map_map]
  congr 1
  exact List.map_congr_left fun c _ => (alike_fold c).units

theorem digitsValue_fold {radix : Nat} (h : radix ∈ [10, 16]) (t : Text) :
    digitsValue radix (t.map fold) = digitsValue radix t := by
  rw [digitsValue, digitsValue, List.foldlM_map]
  simp only [List.map_eq_nil_iff, (alike_fold _).digit radix h]

/-- Without a sign it is the digits alone. -/
theorem toIntOrNull_unsigned {radix : Nat} {t : Text} (h : t.head? ≠ some '-')
    (h' : t.head? ≠ some '+') : toIntOrNull radix t =
      (digitsValue radix t).bind fun n => if n < 0x80000000 then some (n : Int) else none := by
  unfold toIntOrNull
  split
  · exact absurd rfl h
  · exact absurd rfl h'
  · rfl

theorem toIntOrNull_fold {radix : Nat} (h : radix ∈ [10, 16]) (t : Text) :
    toIntOrNull radix (t.map fold) = toIntOrNull radix t := by
  by_cases hminus : t.head? = some '-'
  · obtain ⟨u, rfl⟩ := List.head?_eq_some_iff.mp hminus
    rw [List.map_cons, (fold_eq_iff (by decide)).mpr rfl, toIntOrNull, toIntOrNull,
      digitsValue_fold h]
  · by_cases hplus : t.head? = some '+'
    · obtain ⟨u, rfl⟩ := List.head?_eq_some_iff.mp hplus
      rw [List.map_cons, (fold_eq_iff (by decide)).mpr rfl, toIntOrNull, toIntOrNull,
        digitsValue_fold h]
    · have hhead : ∀ m ∈ ['.', '/', ':', '+', '-'], t.head? ≠ some m →
          (t.map fold).head? ≠ some m := by
        intro m hm hne heq
        rw [List.head?_map] at heq
        obtain ⟨c, hc, hfold⟩ := Option.map_eq_some_iff.mp heq
        exact hne (hc.trans (congrArg some ((fold_eq_iff hm).mp hfold)))
      rw [toIntOrNull_unsigned (hhead '-' (by decide) hminus) (hhead '+' (by decide) hplus),
        toIntOrNull_unsigned hminus hplus, digitsValue_fold h]

theorem octet_fold (part : Text) : octet (part.map fold) = octet part := by
  have hall : (part.map fold).all isDigit = part.all isDigit := by
    rw [List.all_map]
    exact List.all_congr rfl fun c => (alike_fold c).decimal
  rw [octet, octet, utf16Length_fold, hall, toIntOrNull_fold (by decide)]
  simp only [List.map_eq_nil_iff]

theorem hextet_fold (group : Text) : hextet (group.map fold) = hextet group := by
  rw [hextet, hextet, utf16Length_fold, toIntOrNull_fold (by decide)]
  simp only [List.map_eq_nil_iff]

theorem ipv4_fold (t : Text) : ipv4 (t.map fold) = ipv4 t := by
  have hoctet : octet ∘ List.map fold = octet := funext octet_fold
  rw [ipv4, ipv4, splitOn_fold (by decide), List.length_map, List.mapM_map, hoctet]

theorem groups_fold (part : Text) : groups (part.map fold) = groups part := by
  have hhextet : hextet ∘ List.map fold = hextet := funext hextet_fold
  rw [groups, groups, splitOn_fold (by decide), List.mapM_map, hhextet]
  simp only [List.map_eq_nil_iff]

theorem halves_fold (t : Text) : halves (t.map fold) = (halves t).map (List.map fold) := by
  fun_induction halves t with
  | case1 t ih =>
      have hcolon : fold ':' = ':' := by decide
      rw [List.map_cons, List.map_cons, hcolon, halves_pair, ih]
      rfl
  | case2 c t hpair ih =>
      rw [List.map_cons, halves_cons, ih]
      · cases halves t <;> rfl
      · intro hc hhead
        rw [fold_eq_iff (by decide)] at hc
        rw [List.head?_map] at hhead
        obtain ⟨d, hd, hfold⟩ := Option.map_eq_some_iff.mp hhead
        rw [fold_eq_iff (by decide)] at hfold
        subst hfold
        obtain ⟨u, rfl⟩ := List.head?_eq_some_iff.mp hd
        exact hpair u hc rfl
  | case3 => rfl

theorem ipv6_fold (t : Text) : ipv6 (t.map fold) = ipv6 t := by
  have hcount := count_fold (m := ':') (by decide) t
  have hmem : ':' ∉ t.map fold ↔ ':' ∉ t := by
    rw [← List.count_eq_zero, ← List.count_eq_zero, hcount]
  rw [ipv6, ipv6, halves_fold, hcount]
  simp only [hmem]
  split
  · rfl
  · rcases halves t with _ | ⟨head, _ | ⟨tail, _ | ⟨other, rest⟩⟩⟩
    · rfl
    · simp only [List.map_cons, List.map_nil, groups_fold]
    · simp only [List.map_cons, List.map_nil, groups_fold]
    · rfl

theorem readAddress_fold (t : Text) : readAddress (t.map fold) = readAddress t := by
  rw [readAddress, readAddress, splitFirst_fold (by decide)]
  dsimp only
  rw [ipv4_fold, ipv6_fold]
  cases (splitFirst '/' t).2 with
  | none => rfl
  | some bits =>
      simp only [Option.map_some, toIntOrNull_fold (show 10 ∈ [10, 16] by decide)]

/-! ### What is read is telling -/

theorem telling_of_isDigit {c : Char} (h : isDigit c = true) : Telling c := by
  obtain ⟨z, hz, hrange⟩ := List.any_eq_true.mp h
  have hfind : (zeros.find? fun z => z ≤ c.toNat && c.toNat < z + 10).isSome = true :=
    List.find?_isSome.mpr ⟨z, hz, hrange⟩
  obtain ⟨z', hfound⟩ := Option.isSome_iff_exists.mp hfind
  have hin := List.find?_some hfound
  rw [Bool.and_eq_true, decide_eq_true_eq, decide_eq_true_eq] at hin
  refine .inr ?_
  rw [digitOf, hfound]
  exact Option.isSome_iff_exists.mpr
    ⟨_, Option.filter_eq_some_iff.mpr ⟨rfl, decide_eq_true (by omega)⟩⟩

theorem telling_of_number {radix : Nat} (hradix : radix ≤ 16) {t : Text} {n : Int}
    (h : toIntOrNull radix t = some n) : ∀ c ∈ t, Telling c := by
  intro c hc
  rcases toIntOrNull_chars h c hc with hdigit | rfl | rfl
  · refine .inr ?_
    obtain ⟨d, hd⟩ := Option.isSome_iff_exists.mp hdigit
    obtain ⟨hvalue, hlt⟩ := Option.filter_eq_some_iff.mp hd
    have hlt := of_decide_eq_true hlt
    rw [Option.isSome_iff_exists]
    exact ⟨d, Option.filter_eq_some_iff.mpr ⟨hvalue, decide_eq_true (by omega)⟩⟩
  · exact .inl (by decide)
  · exact .inl (by decide)

theorem telling_of_ipv6 {t : Text} {values : List Int} (h : ipv6 t = some values) :
    ∀ c ∈ t, Telling c := by
  have hcolons : ∀ {gs : List Text} {vs : List Int}, gs.mapM hextet = some vs →
      ∀ c ∈ colons gs, Telling c := by
    intro gs vs hgs c hc
    rcases mem_of_mem_intercalate hc with rfl | ⟨g, hg, hin⟩
    · exact .inl (by decide)
    · obtain ⟨n, -, hn⟩ := of_mapM_eq_some hgs g hg
      exact telling_of_number le_rfl (hextet_eq_some hn).2.2 c hin
  cases ipv6_iff.mp h with
  | whole hgs hlength => exact hcolons hgs
  | gap hhs hts hlength =>
      refine List.forall_mem_append.mpr ⟨List.forall_mem_append.mpr ⟨hcolons hhs, ?_⟩, hcolons hts⟩
      exact List.forall_mem_cons.mpr ⟨.inl (by decide),
        List.forall_mem_singleton.mpr (.inl (by decide))⟩

theorem ipv4_eq_none {t : Text} (h : (ipv6 t).isSome = true) : ipv4 t = none := by
  obtain ⟨hextets, hread⟩ := Option.isSome_iff_exists.mp h
  cases hipv4 : ipv4 t with
  | none => rfl
  | some octets => exact absurd (ipv4_chars hipv4 ':' (ipv6_chars hread).1) (by decide)

/-- What is read as an address without a length, and how wide it is. -/
def IsHost (width : Nat) (t : Text) : Prop :=
  width = 32 ∧ (ipv4 t).isSome = true ∨ width = 128 ∧ (ipv6 t).isSome = true

theorem IsHost.not_slash {width : Nat} {t : Text} (h : IsHost width t) : '/' ∉ t := by
  rcases h with ⟨-, hipv4⟩ | ⟨-, hipv6⟩
  · obtain ⟨octets, hread⟩ := Option.isSome_iff_exists.mp hipv4
    exact fun hmem => absurd (ipv4_chars hread '/' hmem) (by decide)
  · obtain ⟨hextets, hread⟩ := Option.isSome_iff_exists.mp hipv6
    exact (ipv6_chars hread).2

theorem IsHost.telling {width : Nat} {t : Text} (h : IsHost width t) : ∀ c ∈ t, Telling c := by
  rcases h with ⟨-, hipv4⟩ | ⟨-, hipv6⟩
  · obtain ⟨octets, hread⟩ := Option.isSome_iff_exists.mp hipv4
    intro c hc
    rcases ipv4_chars hread c hc with hdigit | rfl
    · exact telling_of_isDigit hdigit
    · exact .inl (by decide)
  · obtain ⟨hextets, hread⟩ := Option.isSome_iff_exists.mp hipv6
    exact telling_of_ipv6 hread

/-- The length written behind an address, or the one it has without. -/
def lengthBehind (behind : Option Text) (default : Int) : Option Int :=
  match behind with
  | none => some default
  | some bits => toIntOrNull 10 bits

/-- An address is a host, with a length behind it or without. -/
theorem readAddress_isSome_iff {t : Text} : (readAddress t).isSome = true ↔
    (∃ width, IsHost width t) ∨ ∃ width host bits n, t = host ++ '/' :: bits ∧
      IsHost width host ∧ toIntOrNull 10 bits = some n ∧ 0 ≤ n ∧ n ≤ width := by
  constructor
  · intro h
    obtain ⟨a, ha⟩ := Option.isSome_iff_exists.mp h
    unfold readAddress at ha
    rcases splitFirst_cases '/' t with ⟨hsplit, -⟩ | ⟨host, bits, hsplit, rfl, -⟩
    · rw [hsplit] at ha
      dsimp only at ha
      split at ha
      · rename_i octets hipv4
        exact .inl ⟨32, .inl ⟨rfl, by rw [hipv4]; rfl⟩⟩
      · obtain ⟨hextets, hipv6, -⟩ := Option.bind_eq_some_iff.mp ha
        exact .inl ⟨128, .inr ⟨rfl, by rw [hipv6]; rfl⟩⟩
    · rw [hsplit] at ha
      dsimp only at ha
      refine .inr ?_
      split at ha
      · rename_i octets hipv4
        obtain ⟨n, hn, -⟩ := Option.map_eq_some_iff.mp ha
        obtain ⟨hread, hrange⟩ := Option.filter_eq_some_iff.mp hn
        have hrange := of_decide_eq_true hrange
        exact ⟨32, host, bits, n, rfl, .inl ⟨rfl, by rw [hipv4]; rfl⟩, hread, hrange⟩
      · obtain ⟨hextets, hipv6, ha⟩ := Option.bind_eq_some_iff.mp ha
        obtain ⟨n, hn, -⟩ := Option.map_eq_some_iff.mp ha
        obtain ⟨hread, hrange⟩ := Option.filter_eq_some_iff.mp hn
        have hrange := of_decide_eq_true hrange
        exact ⟨128, host, bits, n, rfl, .inr ⟨rfl, by rw [hipv6]; rfl⟩, hread, hrange⟩
  · have hboth : ∀ {width : Nat} {t host : Text} {behind : Option Text} {n : Int},
        splitFirst '/' t = (host, behind) → IsHost width host →
        (∀ default : Int, default = width →
          lengthBehind behind default = some n) → 0 ≤ n ∧ n ≤ width →
        (readAddress t).isSome = true := by
      intro width t host behind n hsplit hhost hlength hrange
      rw [readAddress, hsplit]
      dsimp only
      rcases hhost with ⟨rfl, hipv4⟩ | ⟨rfl, hipv6⟩
      · obtain ⟨octets, hread⟩ := Option.isSome_iff_exists.mp hipv4
        rw [hread]
        exact Option.isSome_iff_exists.mpr ⟨_, Option.map_eq_some_iff.mpr
          ⟨n, Option.filter_eq_some_iff.mpr ⟨hlength 32 rfl, decide_eq_true hrange⟩, rfl⟩⟩
      · obtain ⟨hextets, hread⟩ := Option.isSome_iff_exists.mp hipv6
        rw [ipv4_eq_none hipv6, hread]
        exact Option.isSome_iff_exists.mpr ⟨_, Option.map_eq_some_iff.mpr
          ⟨n, Option.filter_eq_some_iff.mpr ⟨hlength 128 rfl, decide_eq_true hrange⟩, rfl⟩⟩
    rintro (⟨width, hhost⟩ | ⟨width, host, bits, n, rfl, hhost, hn, hrange⟩)
    · exact hboth (splitFirst_of_notMem hhost.not_slash) hhost
        (fun default hdefault => congrArg some hdefault) ⟨Int.natCast_nonneg width, le_rfl⟩
    · exact hboth (splitFirst_append hhost.not_slash bits) hhost (fun _ _ => hn) hrange

theorem telling_of_readAddress {t : Text} (h : (readAddress t).isSome = true) :
    ∀ c ∈ t, Telling c := by
  rcases readAddress_isSome_iff.mp h with ⟨width, hhost⟩ | ⟨width, host, bits, n, rfl, hhost, hn, -⟩
  · exact hhost.telling
  · exact List.forall_mem_append.mpr ⟨hhost.telling, List.forall_mem_cons.mpr
      ⟨.inl (by decide), telling_of_number (by decide) hn⟩⟩

/-- **What `parse` takes for an address** is what is read as one before its case is changed. -/
theorem parse_eq_cidr_iff [Casing] {input : Text} :
    (∃ range, parse input = some (.cidr range)) ↔ (readAddress (trim input)).isSome = true := by
  have hlower : (readAddress (lowerCase (trim input))).isSome =
      (readAddress (trim input)).isSome := by
    by_cases htelling : ∀ c ∈ trim input, Telling c
    · rw [lowerCase, lowerFrom_telling htelling, readAddress_fold]
    · have hnot : (readAddress (trim input)).isSome = false := by
        rw [Bool.eq_false_iff]
        exact fun h => htelling (telling_of_readAddress h)
      rw [hnot, Bool.eq_false_iff]
      exact fun h => htelling (telling_of_lowerFrom (telling_of_readAddress h))
  rw [← hlower]
  constructor
  · rintro ⟨range, h⟩
    rcases parse_eq_some h with ⟨a, ha, -⟩ | ⟨name, labels, hr, -⟩
    · rw [ha]
      rfl
    · cases hr
  · intro h
    obtain ⟨a, ha⟩ := Option.isSome_iff_exists.mp h
    have hne : lowerCase (trim input) ≠ [] := by
      intro hnil
      rw [hnil] at ha
      cases ha
    refine ⟨a.written, ?_⟩
    rw [parse, if_neg hne, parseCidr_eq, ha]
    rfl

/-! ### The grammar -/

/-- What counts as a number in an address. -/
structure Numerals where
  octet : Text → Prop
  group : Text → Prop
  length : Nat → Text → Prop

namespace Numerals

/-- Numbers as a person writes them: digits of ASCII, and no sign. -/
def written : Numerals where
  octet part := part ≠ [] ∧ part.length ≤ 3 ∧ (∀ c ∈ part, c.isDigit = true) ∧
    Nat.ofDigitChars 10 part 0 ≤ 255
  group g := g ≠ [] ∧ g.length ≤ 4 ∧ ∀ c ∈ g, c ∈ txt "0123456789abcdefABCDEF"
  length width bits := bits ≠ [] ∧ (∀ c ∈ bits, c.isDigit = true) ∧
    Nat.ofDigitChars 10 bits 0 ≤ width

/-- Numbers as the library's reader takes them: digits of any script, and a sign before a group or a
length. -/
def taken : Numerals where
  octet part := part ≠ [] ∧ utf16Length part ≤ 3 ∧ (∀ c ∈ part, isDigit c = true) ∧
    ∃ n, toIntOrNull 10 part = some n ∧ 0 ≤ n ∧ n ≤ 255
  group g := g ≠ [] ∧ utf16Length g ≤ 4 ∧ ∃ n, toIntOrNull 16 g = some n
  length width bits := ∃ n, toIntOrNull 10 bits = some n ∧ 0 ≤ n ∧ n ≤ width

end Numerals

/-- Four groups joined by dots, or the grammar of RFC 4291 without an IPv4 part: eight groups joined
by colons, or fewer with one gap. -/
inductive Host (number : Numerals) : Nat → Text → Prop
  | ipv4 {parts : List Text} (hcount : parts.length = 4) (h : ∀ part ∈ parts, number.octet part) :
      Host number 32 (['.'].intercalate parts)
  | ipv6 {gs : List Text} (hcount : gs.length = 8) (h : ∀ g ∈ gs, number.group g) :
      Host number 128 (colons gs)
  | gap {hs ts : List Text} (hcount : hs.length + ts.length < 8) (hhs : ∀ g ∈ hs, number.group g)
      (hts : ∀ g ∈ ts, number.group g) : Host number 128 (colons hs ++ txt "::" ++ colons ts)

/-- A host, with a slash and a length behind it or without. -/
inductive Address (number : Numerals) : Text → Prop
  | bare {width : Nat} {t : Text} (h : Host number width t) : Address number t
  | sized {width : Nat} {t bits : Text} (h : Host number width t)
      (hbits : number.length width bits) : Address number (t ++ '/' :: bits)

/-- Neither a sign nor outside ASCII. -/
def Ordinary (c : Char) : Prop := c.toNat < 0x80 ∧ c ≠ '+' ∧ c ≠ '-'

instance : DecidablePred Ordinary := fun c =>
  inferInstanceAs (Decidable (c.toNat < 0x80 ∧ c ≠ '+' ∧ c ≠ '-'))

/-! ### What is read is what the grammar takes -/

theorem exists_mapM_iff {α β : Type} {f : α → Option β} {as : List α} :
    (∃ bs, as.mapM f = some bs) ↔ ∀ a ∈ as, ∃ b, f a = some b := by
  constructor
  · rintro ⟨bs, h⟩ a ha
    obtain ⟨b, -, hb⟩ := of_mapM_eq_some h a ha
    exact ⟨b, hb⟩
  · intro h
    induction as with
    | nil => exact ⟨[], rfl⟩
    | cons a as ih =>
        obtain ⟨⟨b, hb⟩, hrest⟩ := List.forall_mem_cons.mp h
        obtain ⟨bs, hbs⟩ := ih hrest
        exact ⟨b :: bs, by rw [List.mapM_cons, hb, hbs]; rfl⟩

theorem octet_iff {part : Text} : (∃ n, octet part = some n) ↔ Numerals.taken.octet part := by
  constructor
  · rintro ⟨n, hn⟩
    obtain ⟨hne, hlength, hdigits, hread, hrange⟩ := octet_eq_some hn
    exact ⟨hne, hlength, hdigits, n, hread, hrange⟩
  · rintro ⟨hne, hlength, hdigits, n, hread, hrange⟩
    have hshape : ¬ (part = [] ∨ 3 < utf16Length part ∨ (!part.all isDigit) = true) := by
      rw [List.all_eq_true.mpr hdigits, not_or, not_or, not_lt]
      exact ⟨hne, hlength, Bool.false_ne_true⟩
    rw [octet, if_neg hshape, hread]
    exact ⟨n, Option.filter_eq_some_iff.mpr ⟨rfl, decide_eq_true hrange⟩⟩

theorem hextet_iff {g : Text} : (∃ n, hextet g = some n) ↔ Numerals.taken.group g := by
  constructor
  · rintro ⟨n, hn⟩
    obtain ⟨hne, hlength, hread⟩ := hextet_eq_some hn
    exact ⟨hne, hlength, n, hread⟩
  · rintro ⟨hne, hlength, n, hread⟩
    refine ⟨n, ?_⟩
    rw [hextet, if_neg (by rw [not_or, not_lt]; exact ⟨hne, hlength⟩), hread]

theorem host_iff {width : Nat} {t : Text} : IsHost width t ↔ Host .taken width t := by
  constructor
  · rintro (⟨rfl, h⟩ | ⟨rfl, h⟩)
    · obtain ⟨octets, hread⟩ := Option.isSome_iff_exists.mp h
      obtain ⟨parts, hcount, hoctets, rfl⟩ := ipv4_iff.mp hread
      exact .ipv4 hcount fun part hpart => octet_iff.mp (exists_mapM_iff.mp ⟨_, hoctets⟩ part hpart)
    · obtain ⟨hextets, hread⟩ := Option.isSome_iff_exists.mp h
      have hgroups : ∀ {gs : List Text} {vs : List Int}, gs.mapM hextet = some vs →
          ∀ g ∈ gs, Numerals.taken.group g :=
        fun hgs g hg => hextet_iff.mp (exists_mapM_iff.mp ⟨_, hgs⟩ g hg)
      cases ipv6_iff.mp hread with
      | whole hgs hlength => exact .ipv6 ((length_of_mapM hgs).symm.trans hlength) (hgroups hgs)
      | gap hhs hts hlength =>
          rw [length_of_mapM hhs, length_of_mapM hts] at hlength
          exact .gap hlength (hgroups hhs) (hgroups hts)
  · have hread : ∀ {gs : List Text}, (∀ g ∈ gs, Numerals.taken.group g) →
        ∃ vs, gs.mapM hextet = some vs :=
      fun h => exists_mapM_iff.mpr fun g hg => hextet_iff.mpr (h g hg)
    intro h
    cases h with
    | ipv4 hcount h =>
        obtain ⟨octets, hoctets⟩ := exists_mapM_iff.mpr fun part hpart =>
          octet_iff.mpr (h part hpart)
        exact .inl ⟨rfl,
          Option.isSome_iff_exists.mpr ⟨octets, ipv4_iff.mpr ⟨_, hcount, hoctets, rfl⟩⟩⟩
    | ipv6 hcount h =>
        obtain ⟨hextets, hgs⟩ := hread h
        exact .inr ⟨rfl, Option.isSome_iff_exists.mpr
          ⟨hextets, ipv6_iff.mpr (.whole hgs ((length_of_mapM hgs).trans hcount))⟩⟩
    | gap hcount hhs hts =>
        obtain ⟨head, hhead⟩ := hread hhs
        obtain ⟨tail, htail⟩ := hread hts
        rw [← length_of_mapM hhead, ← length_of_mapM htail] at hcount
        exact .inr ⟨rfl, Option.isSome_iff_exists.mpr ⟨_, ipv6_iff.mpr (.gap hhead htail hcount)⟩⟩

theorem address_iff {t : Text} : (readAddress t).isSome = true ↔ Address .taken t := by
  rw [readAddress_isSome_iff]
  constructor
  · rintro (⟨width, hhost⟩ | ⟨width, host, bits, n, rfl, hhost, hn, hrange⟩)
    · exact .bare (host_iff.mp hhost)
    · exact .sized (host_iff.mp hhost) ⟨n, hn, hrange⟩
  · intro h
    cases h with
    | bare h => exact .inl ⟨_, host_iff.mpr h⟩
    | sized h hbits =>
        obtain ⟨n, hn, hrange⟩ := hbits
        exact .inr ⟨_, _, _, n, rfl, host_iff.mpr h, hn, hrange⟩

/-! ### Where the two part -/

theorem ordinary_of_isDigit {c : Char} (h : c.isDigit = true) : Ordinary c := by
  refine ⟨toNat_lt_of_isDigit h, ?_, ?_⟩
  · rintro rfl
    exact absurd h (by decide)
  · rintro rfl
    exact absurd h (by decide)

theorem toIntOrNull_ordinary {radix : Nat} {t : Text} (h : ∀ c ∈ t, Ordinary c) :
    toIntOrNull radix t =
      (digitsValue radix t).bind fun n => if n < 0x80000000 then some (n : Int) else none :=
  toIntOrNull_unsigned (fun hhead => (h '-' (List.mem_of_mem_head? hhead)).2.2 rfl)
    (fun hhead => (h '+' (List.mem_of_mem_head? hhead)).2.1 rfl)

/-- A number without a sign is digits. -/
theorem number_iff {t : Text} (h : ∀ c ∈ t, Ordinary c) {width : Nat}
    (hwidth : width < 0x80000000) :
    (∃ n, toIntOrNull 10 t = some n ∧ 0 ≤ n ∧ n ≤ width) ↔
      t ≠ [] ∧ (∀ c ∈ t, c.isDigit = true) ∧ Nat.ofDigitChars 10 t 0 ≤ width := by
  rw [toIntOrNull_ordinary h]
  constructor
  · rintro ⟨n, hn, -, hle⟩
    obtain ⟨m, hm, hmn⟩ := Option.bind_eq_some_iff.mp hn
    obtain ⟨hne, hdigits⟩ := digitsValue_eq_some hm
    have hall : ∀ c ∈ t, c.isDigit = true := by
      intro c hc
      exact forall_ascii (p := fun c => (digitOf 10 c).isSome = true → c.isDigit = true)
        (by decide +kernel) (h c hc).1 (hdigits c hc)
    rw [digitsValue_decimal hne hall, Option.some.injEq] at hm
    subst hm
    split at hmn
    · cases hmn
      exact ⟨hne, hall, Int.ofNat_le.mp hle⟩
    · cases hmn
  · rintro ⟨hne, hall, hle⟩
    refine ⟨(Nat.ofDigitChars 10 t 0 : Nat), ?_, Int.natCast_nonneg _, Int.ofNat_le.mpr hle⟩
    rw [digitsValue_decimal hne hall, Option.bind_some, if_pos (lt_of_le_of_lt hle hwidth)]

/-- Digits have a value, less than so many allow. -/
theorem digitsValue_lt {t : Text} (hne : t ≠ []) (h : ∀ c ∈ t, (digitOf 16 c).isSome = true) :
    ∃ n, digitsValue 16 t = some n ∧ n < 16 ^ t.length := by
  have hfold : ∀ (t : Text) (m k : Nat), m < 16 ^ k → (∀ c ∈ t, (digitOf 16 c).isSome = true) →
      ∃ n, t.foldlM (fun n c => (digitOf 16 c).map (n * 16 + ·)) m = some n ∧
        n < 16 ^ (k + t.length) := by
    intro t
    induction t with
    | nil =>
        intro m k hm _
        exact ⟨m, rfl, hm⟩
    | cons c t ih =>
        intro m k hm h
        obtain ⟨hc, ht⟩ := List.forall_mem_cons.mp h
        obtain ⟨d, hd⟩ := Option.isSome_iff_exists.mp hc
        have hlt := of_decide_eq_true (Option.filter_eq_some_iff.mp hd).2
        obtain ⟨n, hn, hle⟩ := ih (m * 16 + d) (k + 1) (by rw [pow_succ]; omega) ht
        refine ⟨n, ?_, ?_⟩
        · rw [List.foldlM_cons, hd]
          exact hn
        · rwa [List.length_cons, Nat.add_comm t.length, ← Nat.add_assoc]
  rw [digitsValue, if_neg hne]
  obtain ⟨n, hn, hlt⟩ := hfold t 0 0 (by decide) h
  exact ⟨n, hn, by rwa [Nat.zero_add] at hlt⟩

namespace Numerals

theorem octet_written {part : Text} :
    written.octet part ↔ taken.octet part ∧ ∀ c ∈ part, Ordinary c := by
  constructor
  · rintro ⟨hne, hlength, hdigits, hle⟩
    have hordinary : ∀ c ∈ part, Ordinary c := fun c hc => ordinary_of_isDigit (hdigits c hc)
    refine ⟨⟨hne, ?_, fun c hc => isDigit_of_ascii (hdigits c hc), ?_⟩, hordinary⟩
    · rw [utf16Length_ascii fun c hc => (hordinary c hc).1]
      exact hlength
    · exact (number_iff hordinary (by decide)).mpr ⟨hne, hdigits, hle⟩
  · rintro ⟨⟨hne, hlength, -, hread⟩, hordinary⟩
    obtain ⟨-, hdigits, hle⟩ := (number_iff hordinary (by decide)).mp hread
    rw [utf16Length_ascii fun c hc => (hordinary c hc).1] at hlength
    exact ⟨hne, hlength, hdigits, hle⟩

theorem group_written {g : Text} : written.group g ↔ taken.group g ∧ ∀ c ∈ g, Ordinary c := by
  have hhex : ∀ c ∈ txt "0123456789abcdefABCDEF", Ordinary c ∧ (digitOf 16 c).isSome = true := by
    decide
  constructor
  · rintro ⟨hne, hlength, hdigits⟩
    have hordinary : ∀ c ∈ g, Ordinary c := fun c hc => (hhex c (hdigits c hc)).1
    obtain ⟨n, hn, hlt⟩ := digitsValue_lt hne fun c hc => (hhex c (hdigits c hc)).2
    have hsmall : n < 0x80000000 :=
      lt_of_lt_of_le hlt ((Nat.pow_le_pow_right (by decide) hlength).trans (by decide))
    refine ⟨⟨hne, ?_, n, ?_⟩, hordinary⟩
    · rw [utf16Length_ascii fun c hc => (hordinary c hc).1]
      exact hlength
    · rw [toIntOrNull_ordinary hordinary, hn, Option.bind_some, if_pos hsmall]
  · rintro ⟨⟨hne, hlength, n, hread⟩, hordinary⟩
    rw [utf16Length_ascii fun c hc => (hordinary c hc).1] at hlength
    rw [toIntOrNull_ordinary hordinary] at hread
    obtain ⟨m, hm, -⟩ := Option.bind_eq_some_iff.mp hread
    refine ⟨hne, hlength, fun c hc => ?_⟩
    exact forall_ascii
      (p := fun c => (digitOf 16 c).isSome = true → c ∈ txt "0123456789abcdefABCDEF")
      (by decide +kernel) (hordinary c hc).1 ((digitsValue_eq_some hm).2 c hc)

theorem length_written {width : Nat} (hwidth : width < 0x80000000) {bits : Text} :
    written.length width bits ↔ taken.length width bits ∧ ∀ c ∈ bits, Ordinary c := by
  constructor
  · rintro ⟨hne, hdigits, hle⟩
    have hordinary : ∀ c ∈ bits, Ordinary c := fun c hc => ordinary_of_isDigit (hdigits c hc)
    exact ⟨(number_iff hordinary hwidth).mpr ⟨hne, hdigits, hle⟩, hordinary⟩
  · rintro ⟨hread, hordinary⟩
    exact (number_iff hordinary hwidth).mp hread

end Numerals

/-- What is said of a joined text is said of its parts. -/
theorem forall_mem_intercalate {p : Char → Prop} {s : Char} (hs : p s) {parts : List Text} :
    (∀ c ∈ [s].intercalate parts, p c) ↔ ∀ part ∈ parts, ∀ c ∈ part, p c := by
  induction parts with
  | nil => exact iff_of_true (List.forall_mem_nil _) (List.forall_mem_nil _)
  | cons part parts ih =>
      cases parts with
      | nil => rw [List.intercalate_singleton, List.forall_mem_singleton]
      | cons part' parts =>
          rw [List.intercalate_cons_cons, List.forall_mem_append, List.forall_mem_append,
            List.forall_mem_singleton, ih, List.forall_mem_cons (a := part), and_iff_left hs]

theorem host_written {width : Nat} {t : Text} :
    Host .written width t ↔ Host .taken width t ∧ ∀ c ∈ t, Ordinary c := by
  have hdot : Ordinary '.' := by decide
  have hcolon : Ordinary ':' := by decide
  have hgap : ∀ c ∈ txt "::", Ordinary c := by decide
  constructor
  · intro h
    cases h with
    | ipv4 hcount h =>
        have hboth := fun part hpart => Numerals.octet_written.mp (h part hpart)
        exact ⟨.ipv4 hcount fun part hpart => (hboth part hpart).1,
          (forall_mem_intercalate hdot).mpr fun part hpart => (hboth part hpart).2⟩
    | ipv6 hcount h =>
        have hboth := fun g hg => Numerals.group_written.mp (h g hg)
        exact ⟨.ipv6 hcount fun g hg => (hboth g hg).1,
          (forall_mem_intercalate hcolon).mpr fun g hg => (hboth g hg).2⟩
    | gap hcount hhs hts =>
        have hhead := fun g hg => Numerals.group_written.mp (hhs g hg)
        have htail := fun g hg => Numerals.group_written.mp (hts g hg)
        refine ⟨.gap hcount (fun g hg => (hhead g hg).1) fun g hg => (htail g hg).1, ?_⟩
        rw [List.forall_mem_append, List.forall_mem_append, colons, colons,
          forall_mem_intercalate hcolon, forall_mem_intercalate hcolon]
        exact ⟨⟨fun g hg => (hhead g hg).2, hgap⟩, fun g hg => (htail g hg).2⟩
  · rintro ⟨h, hordinary⟩
    cases h with
    | ipv4 hcount h =>
        rw [forall_mem_intercalate hdot] at hordinary
        exact .ipv4 hcount fun part hpart =>
          Numerals.octet_written.mpr ⟨h part hpart, hordinary part hpart⟩
    | ipv6 hcount h =>
        rw [colons, forall_mem_intercalate hcolon] at hordinary
        exact .ipv6 hcount fun g hg => Numerals.group_written.mpr ⟨h g hg, hordinary g hg⟩
    | gap hcount hhs hts =>
        rw [List.forall_mem_append, List.forall_mem_append, colons, colons,
          forall_mem_intercalate hcolon, forall_mem_intercalate hcolon] at hordinary
        exact .gap hcount
          (fun g hg => Numerals.group_written.mpr ⟨hhs g hg, hordinary.1.1 g hg⟩)
          (fun g hg => Numerals.group_written.mpr ⟨hts g hg, hordinary.2 g hg⟩)

theorem Host.width_lt {number : Numerals} {width : Nat} {t : Text} (h : Host number width t) :
    width < 0x80000000 := by
  cases h <;> decide

theorem address_written {t : Text} :
    Address .written t ↔ Address .taken t ∧ ∀ c ∈ t, Ordinary c := by
  have hslash : Ordinary '/' := by decide
  constructor
  · intro h
    cases h with
    | bare h =>
        obtain ⟨hhost, hordinary⟩ := host_written.mp h
        exact ⟨.bare hhost, hordinary⟩
    | sized h hbits =>
        obtain ⟨hhost, hordinary⟩ := host_written.mp h
        obtain ⟨hlength, hplain⟩ := (Numerals.length_written h.width_lt).mp hbits
        exact ⟨.sized hhost hlength, List.forall_mem_append.mpr
          ⟨hordinary, List.forall_mem_cons.mpr ⟨hslash, hplain⟩⟩⟩
  · rintro ⟨h, hordinary⟩
    cases h with
    | bare h => exact .bare (host_written.mpr ⟨h, hordinary⟩)
    | sized h hbits =>
        obtain ⟨hhost, hrest⟩ := List.forall_mem_append.mp hordinary
        exact .sized (host_written.mpr ⟨h, hhost⟩) ((Numerals.length_written h.width_lt).mpr
          ⟨hbits, (List.forall_mem_cons.mp hrest).2⟩)

/-! ### Only addresses -/

/-- **Where only addresses are taken for addresses:** of every text but the addresses that are
written with a sign, or with a digit outside ASCII. -/
theorem parse_address_iff [Casing] (input : Text) :
    ((∃ range, parse input = some (.cidr range)) ↔ Address .written (trim input)) ↔
      ¬ (Address .taken (trim input) ∧ ∃ c ∈ trim input, ¬ Ordinary c) := by
  rw [parse_eq_cidr_iff, address_iff, address_written]
  constructor
  · rintro h ⟨htaken, c, hc, hnot⟩
    exact hnot ((h.mp htaken).2 c hc)
  · intro h
    constructor
    · intro htaken
      refine ⟨htaken, fun c hc => ?_⟩
      by_contra hnot
      exact h ⟨htaken, c, hc, hnot⟩
    · exact And.left

section

local instance : Casing := uncased

/-- A length with a sign. -/
theorem parse_address_plus : ¬ ((∃ range, parse (txt "1.2.3.4/+24") = some (.cidr range)) ↔
    Address .written (trim (txt "1.2.3.4/+24"))) := by
  rw [address_written]
  intro h
  have hread : parse (txt "1.2.3.4/+24") = some (.cidr (txt "1.2.3.0/24")) := by decide
  exact absurd ((h.mp ⟨_, hread⟩).2 '+' (by decide)) (by decide)

end

end Ghostlane.App.RoutingRule
