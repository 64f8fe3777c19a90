import Ghostlane.Lib.Cut
import Ghostlane.Lib.Outcomes

/-!
# Ghostlane.Lib.Inet

Internet addresses as the C library reads them (`inet_pton`). An IPv4 address is four decimal
numbers without a leading zero; an IPv6 address is eight groups of up to four hexadecimal digits,
where `::` stands for one or more groups of zeros, once, and an IPv4 address may stand for the last
two groups. What is read is only digits, dots and colons, and the colon tells the two families
apart.
-/

namespace Ghostlane.Lib.Inet

inductive Family
  | inet
  | inet6
  deriving DecidableEq, Repr

inductive Address
  | v4 (value : BitVec 32)
  | v6 (value : BitVec 128)
  deriving DecidableEq, Repr

def Address.family : Address → Family
  | v4 _ => .inet
  | v6 _ => .inet6

/-! ### Digits -/

/-- The value of a hexadecimal digit. -/
def hexValue (c : Char) : Option Nat :=
  if c.isDigit then some (c.toNat - 0x30)
  else if 'a' ≤ c ∧ c ≤ 'f' then some (c.toNat - 0x61 + 10)
  else if 'A' ≤ c ∧ c ≤ 'F' then some (c.toNat - 0x41 + 10)
  else none

def isHex (c : Char) : Bool := (hexValue c).isSome

/-- A run of hexadecimal digits as a number. -/
def ofHex (t : Text) : Nat := t.foldl (fun n c => n * 16 + (hexValue c).getD 0) 0

/-! ### Addresses -/

/-- A decimal number up to 255. -/
def octet (t : Text) : Option Nat :=
  if t ≠ [] ∧ t.length ≤ 3 ∧ t.all Char.isDigit ∧ (t.head? = some '0' → t.length = 1) then
    (some (Nat.ofDigitChars 10 t 0)).filter (· ≤ 255)
  else none

/-- An IPv4 address. -/
def quad (t : Text) : Option (BitVec 32) :=
  match (t.splitOn '.').mapM octet with
  | some [a, b, c, d] => some (BitVec.ofNat 32 (((a * 256 + b) * 256 + c) * 256 + d))
  | _ => none

/-- A group of an IPv6 address. -/
def hextet (t : Text) : Option Nat :=
  if t ≠ [] ∧ t.length ≤ 4 ∧ t.all isHex then some (ofHex t) else none

/-- What may stand last: a group, or an IPv4 address for two. -/
def lastGroups (t : Text) : Option (List Nat) :=
  match hextet t with
  | some group => some [group]
  | none => (quad t).map fun q => [q.toNat / 65536, q.toNat % 65536]

def groups : List Text → Option (List Nat)
  | [] => some []
  | [t] => lastGroups t
  | t :: ts => (hextet t).bind fun group => (groups ts).map (group :: ·)

/-- What stands before and after the first `::`. -/
def cutPair : Text → Option (Text × Text)
  | [] => none
  | c :: t =>
      if c = ':' ∧ t.head? = some ':' then some ([], t.tail)
      else (cutPair t).map fun (before, after) => (c :: before, after)

/-- The parts of one side of `::`. -/
def side (t : Text) : List Text := if t = [] then [] else t.splitOn ':'

/-- The eight groups of an IPv6 address. -/
def colonHex (t : Text) : Option (List Nat) :=
  match cutPair t with
  | none => (groups (t.splitOn ':')).filter (·.length = 8)
  | some (before, after) => do
      let head ← (side before).mapM hextet
      let tail ← groups (side after)
      if head.length + tail.length ≤ 7 then
        some (head ++ List.replicate (8 - head.length - tail.length) 0 ++ tail)
      else none

/-- An IPv6 address. -/
def hexGroups (t : Text) : Option (BitVec 128) :=
  (colonHex t).map fun gs => BitVec.ofNat 128 (gs.foldl (· * 65536 + ·) 0)

/-- An address of either family. -/
def address (t : Text) : Option Address :=
  match quad t with
  | some value => some (.v4 value)
  | none => (hexGroups t).map .v6

/-! ### Prefixes -/

/-- The addresses that begin as one does, for so many bits. -/
structure Prefix where
  base : Address
  length : Nat
  deriving DecidableEq, Repr

def Prefix.contains (p : Prefix) (a : Address) : Bool :=
  match p.base, a with
  | .v4 x, .v4 y => x >>> (32 - p.length) == y >>> (32 - p.length)
  | .v6 x, .v6 y => x >>> (128 - p.length) == y >>> (128 - p.length)
  | _, _ => false

/-- One address as a prefix. -/
def Address.whole : Address → Prefix
  | v4 value => ⟨v4 value, 32⟩
  | v6 value => ⟨v6 value, 128⟩

/-- An address, or one with a length behind a slash. -/
def readPrefix (t : Text) : Option Prefix :=
  match cutFirst '/' t with
  | none => (address t).map Address.whole
  | some (base, length) => do
      let base ← address base
      if length ≠ [] ∧ length.all Char.isDigit ∧ Nat.ofDigitChars 10 length 0 ≤
        base.whole.length then
        some ⟨base, Nat.ofDigitChars 10 length 0⟩
      else none

/-! ### What an address is made of -/

/-- What stands between two splits is free of what was split at, and what stands in one of them
stands in the whole. -/
theorem forall_of_splitOn {p : Char → Prop} {sep : Char} {t : Text} (hsep : p sep)
    (h : ∀ part ∈ t.splitOn sep, ∀ c ∈ part, p c) : ∀ c ∈ t, p c := by
  intro c hc
  have hin : c ∈ List.intercalate [sep] (t.splitOn sep) := by
    rwa [List.intercalate_splitOn sep]
  rcases mem_of_mem_intercalate hin with rfl | ⟨part, hpart, hin⟩
  · exact hsep
  · exact h part hpart c hin

theorem octet_digits {t : Text} {n : Nat} (h : octet t = some n) : ∀ c ∈ t, c.isDigit = true := by
  unfold octet at h
  split at h
  · rename_i hall
    exact List.all_eq_true.mp hall.2.2.1
  · cases h

theorem quad_octets {t : Text} {q : BitVec 32} (h : quad t = some q) :
    ∃ a b c d, (t.splitOn '.').mapM octet = some [a, b, c, d] ∧
      q = BitVec.ofNat 32 (((a * 256 + b) * 256 + c) * 256 + d) := by
  unfold quad at h
  split at h
  · rename_i a b c d hoctets
    exact ⟨a, b, c, d, hoctets, (Option.some.inj h).symm⟩
  · cases h

/-- An IPv4 address is digits and dots. -/
theorem quad_chars {t : Text} {q : BitVec 32} (h : quad t = some q) :
    ∀ c ∈ t, c.isDigit = true ∨ c = '.' := by
  obtain ⟨a, b, c, d, hoctets, -⟩ := quad_octets h
  refine forall_of_splitOn (.inr rfl) fun part hpart c hc => ?_
  obtain ⟨n, -, hn⟩ := of_mapM_eq_some hoctets part hpart
  exact .inl (octet_digits hn c hc)

theorem isHex_of_isDigit {c : Char} (h : c.isDigit = true) : isHex c = true := by
  rw [isHex, hexValue, if_pos h]
  rfl

theorem hextet_hex {t : Text} {n : Nat} (h : hextet t = some n) : ∀ c ∈ t, isHex c = true := by
  unfold hextet at h
  split at h
  · rename_i hall
    exact List.all_eq_true.mp hall.2.2
  · cases h

theorem lastGroups_chars {t : Text} {gs : List Nat} (h : lastGroups t = some gs) :
    ∀ c ∈ t, isHex c = true ∨ c = '.' := by
  unfold lastGroups at h
  cases hhextet : hextet t with
  | some group => exact fun c hc => .inl (hextet_hex hhextet c hc)
  | none =>
      rw [hhextet] at h
      obtain ⟨q, hq, -⟩ := Option.map_eq_some_iff.mp h
      exact fun c hc => (quad_chars hq c hc).imp_left isHex_of_isDigit

theorem groups_cons_cons (t u : Text) (ts : List Text) :
    groups (t :: u :: ts) = (hextet t).bind fun group => (groups (u :: ts)).map (group :: ·) := by
  rw [groups]
  exact List.cons_ne_nil u ts

theorem groups_chars {ts : List Text} {gs : List Nat} (h : groups ts = some gs) :
    ∀ t ∈ ts, ∀ c ∈ t, isHex c = true ∨ c = '.' := by
  induction ts generalizing gs with
  | nil => exact List.forall_mem_nil _
  | cons t ts ih =>
      cases ts with
      | nil => exact List.forall_mem_singleton.mpr (lastGroups_chars h)
      | cons u ts =>
          rw [groups_cons_cons] at h
          obtain ⟨group, hgroup, hrest⟩ := Option.bind_eq_some_iff.mp h
          obtain ⟨rest, hrest, -⟩ := Option.map_eq_some_iff.mp hrest
          refine List.forall_mem_cons.mpr ⟨fun c hc => .inl (hextet_hex hgroup c hc), ih hrest⟩

/-- A text without a colon gives two groups at most. -/
theorem groups_singleton_length {t : Text} {gs : List Nat} (h : groups [t] = some gs) :
    gs.length ≤ 2 := by
  rw [groups, lastGroups] at h
  cases hhextet : hextet t with
  | some group =>
      rw [hhextet] at h
      cases h
      exact Nat.le_succ 1
  | none =>
      rw [hhextet] at h
      obtain ⟨q, -, rfl⟩ := Option.map_eq_some_iff.mp h
      exact le_refl 2

theorem cutPair_eq_some {t before after : Text} (h : cutPair t = some (before, after)) :
    t = before ++ ':' :: ':' :: after := by
  induction t generalizing before with
  | nil => cases h
  | cons c t ih =>
      rw [cutPair] at h
      split at h
      · rename_i hpair
        obtain ⟨rfl, hhead⟩ := hpair
        cases h
        rw [List.nil_append, List.cons_inj_right]
        exact List.eq_cons_of_mem_head? hhead
      · obtain ⟨⟨before', after'⟩, hcut, heq⟩ := Option.map_eq_some_iff.mp h
        cases heq
        rw [ih hcut]
        rfl

theorem forall_of_side {p : Char → Prop} {t : Text} (hsep : p ':')
    (h : ∀ part ∈ side t, ∀ c ∈ part, p c) : ∀ c ∈ t, p c := by
  unfold side at h
  split at h
  · rename_i hnil
    rw [hnil]
    exact List.forall_mem_nil _
  · exact forall_of_splitOn hsep h

/-- An IPv6 address is hexadecimal digits, colons and dots, and has a colon. -/
theorem hexGroups_chars {t : Text} {a : BitVec 128} (h : hexGroups t = some a) :
    (∀ c ∈ t, isHex c = true ∨ c = '.' ∨ c = ':') ∧ ':' ∈ t := by
  obtain ⟨gs, hgs, -⟩ := Option.map_eq_some_iff.mp h
  unfold colonHex at hgs
  split at hgs
  · obtain ⟨hgroups, hlength⟩ := Option.filter_eq_some_iff.mp hgs
    constructor
    · refine forall_of_splitOn (.inr (.inr rfl)) fun part hpart c hc => ?_
      exact (groups_chars hgroups part hpart c hc).imp_right .inl
    · by_contra hcolon
      rw [List.splitOn_eq_singleton hcolon] at hgroups
      have hshort := groups_singleton_length hgroups
      have hlength := of_decide_eq_true hlength
      omega
  · rename_i before after hcut
    rw [cutPair_eq_some hcut]
    obtain ⟨head, hhead, hrest⟩ := Option.bind_eq_some_iff.mp hgs
    obtain ⟨tail, htail, -⟩ := Option.bind_eq_some_iff.mp hrest
    have hbefore : ∀ c ∈ before, isHex c = true ∨ c = '.' ∨ c = ':' := by
      refine forall_of_side (.inr (.inr rfl)) fun part hpart c hc => ?_
      obtain ⟨n, -, hn⟩ := of_mapM_eq_some hhead part hpart
      exact .inl (hextet_hex hn c hc)
    have hafter : ∀ c ∈ after, isHex c = true ∨ c = '.' ∨ c = ':' := by
      refine forall_of_side (.inr (.inr rfl)) fun part hpart c hc => ?_
      exact (groups_chars htail part hpart c hc).imp_right .inl
    constructor
    · refine List.forall_mem_append.mpr ⟨hbefore, ?_⟩
      exact List.forall_mem_cons.mpr ⟨.inr (.inr rfl), List.forall_mem_cons.mpr
        ⟨.inr (.inr rfl), hafter⟩⟩
    · exact List.mem_append_right _ List.mem_cons_self

/-- What an address is written with. -/
abbrev Plain (c : Char) : Prop := isHex c = true ∨ c = '.' ∨ c = ':'

theorem address_chars {t : Text} {a : Address} (h : address t = some a) : ∀ c ∈ t, Plain c := by
  unfold address at h
  split at h
  · rename_i hquad
    intro c hc
    rcases quad_chars hquad c hc with hdigit | hdot
    · exact .inl (isHex_of_isDigit hdigit)
    · exact .inr (.inl hdot)
  · obtain ⟨value, hvalue, -⟩ := Option.map_eq_some_iff.mp h
    exact (hexGroups_chars hvalue).1

/-- The colon tells the families apart. -/
theorem mem_colon_iff {t : Text} {a : Address} (h : address t = some a) :
    ':' ∈ t ↔ a.family = .inet6 := by
  unfold address at h
  split at h
  · rename_i hquad
    cases h
    refine iff_of_false (fun hcolon => ?_) Family.noConfusion
    rcases quad_chars hquad ':' hcolon with hdigit | hdot
    · exact absurd hdigit (by decide)
    · exact absurd hdot (by decide)
  · obtain ⟨value, hvalue, rfl⟩ := Option.map_eq_some_iff.mp h
    exact iff_of_true (hexGroups_chars hvalue).2 rfl

/-- An address is read as the prefix of itself. -/
theorem readPrefix_address {t : Text} {a : Address} (h : address t = some a) :
    readPrefix t = some a.whole := by
  have hslash : '/' ∉ t := by
    intro hslash
    rcases address_chars h '/' hslash with hhex | hdot | hcolon
    · exact absurd hhex (by decide)
    · exact absurd hdot (by decide)
    · exact absurd hcolon (by decide)
  rw [readPrefix, cutFirst_eq_none_iff.mpr hslash, h]
  rfl

theorem Prefix.family_of_contains {p : Prefix} {a : Address} (h : p.contains a = true) :
    p.base.family = a.family := by
  obtain ⟨base, length⟩ := p
  cases base <;> cases a
  · rfl
  · cases h
  · cases h
  · rfl

@[simp] theorem contains_whole (a b : Address) : a.whole.contains b ↔ a = b := by
  cases a <;> cases b <;> simp [Address.whole, Prefix.contains]

end Ghostlane.Lib.Inet
