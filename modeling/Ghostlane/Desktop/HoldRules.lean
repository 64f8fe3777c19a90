import Ghostlane.Desktop.HoldRequest
import Ghostlane.Lib.PacketFilter

/-!
# Ghostlane.Desktop.HoldRules

What the block lets out. The rules of `TrafficHold.rules(for:)` are read as pf reads them
(`readRules`), and then taken in order. Everything is let out twice over, by a rule for connections
that are opened under the block and one for those that were open before, so no verdict depends on
the flags of a TCP packet (`holds`).
-/

namespace Ghostlane.Desktop.TrafficHold

open Ghostlane.Lib Ghostlane.Lib.Inet Ghostlane.Lib.PacketFilter

/-! ### What the rules say -/

def group : Nat := 7302243

/-- Without state: everything on an interface. -/
def onInterface (interface : Text) : Rule :=
  { pass := true, interface := some interface, anyFlags := true, keepsState := false }

def ofGroup : Rule := { pass := true, protocols := [.tcp, .udp], group := some group }

def dhcp (family : Family) (client server : Nat) : Rule :=
  { pass := true, family := some family, protocols := [.udp], sourcePort := some client
    destinationPort := some server }

def toPrefixes (family : Family) (destinations : List Prefix) : Rule :=
  { pass := true, family := some family, destinations }

def names : Rule :=
  { pass := false, protocols := [.tcp, .udp], destinationPort := some 53, keepsState := false }

def rest : Rule := { pass := false, keepsState := false }

def localPrefixesV4 : List Prefix :=
  [⟨.v4 0x0A000000, 8⟩, ⟨.v4 0xAC100000, 12⟩, ⟨.v4 0xC0A80000, 16⟩, ⟨.v4 0xA9FE0000, 16⟩,
    ⟨.v4 0xE0000000, 4⟩, ⟨.v4 0xFFFFFFFF, 32⟩]

def localPrefixesV6 : List Prefix :=
  [⟨.v6 (0xFE80 <<< 112), 10⟩, ⟨.v6 (0xFC00 <<< 112), 7⟩, ⟨.v6 (0xFF02 <<< 112), 16⟩]

/-- A rule and the one for what was open before, where anything is listed. -/
def listedRules (family : Family) (destinations : List Prefix) : List Rule :=
  if destinations = [] then []
  else [toPrefixes family destinations, (toPrefixes family destinations).opened]

def openingRules (n : Nat) : List Rule :=
  [onInterface (txt "lo0"), onInterface (utun n), ofGroup, ofGroup.opened, dhcp .inet 68 67,
    dhcp .inet6 546 547]

def closingRules : List Rule :=
  names :: listedRules .inet localPrefixesV4 ++ listedRules .inet6 localPrefixesV6 ++ [rest]

/-! ### They are what is written -/

theorem mapM_append_some {α β : Type} {f : α → Option β} {as bs : List α} {xs ys : List β}
    (ha : as.mapM f = some xs) (hb : bs.mapM f = some ys) :
    (as ++ bs).mapM f = some (xs ++ ys) := by
  rw [List.mapM_append, ha, hb]
  rfl

theorem readRules_opening (n : Nat) : (opening n).mapM readRule = some (openingRules n) := by
  have htunnel : readRule (txt "pass quick on " ++ utun n ++ txt " all flags any no state") =
      some (onInterface (utun n)) := by
    have hblank : ' ' ∉ utun n := by
      intro hmem
      rcases List.mem_append.mp hmem with hmem | hmem
      · exact absurd hmem (by decide)
      · rw [Nat.toString_eq_repr, Nat.toList_repr] at hmem
        have hdigit := Nat.isDigit_of_mem_toDigits (by decide) (by decide) hmem
        exact absurd hdigit (by decide)
    have hwords : (txt "pass quick on " ++ utun n ++ txt " all flags any no state").splitOn ' ' =
        [txt "pass", txt "quick", txt "on", utun n, txt "all", txt "flags", txt "any", txt "no",
          txt "state"] := by
      have hsplit : txt "pass quick on " ++ utun n ++ txt " all flags any no state" =
          txt "pass quick on" ++ ' ' :: (utun n ++ ' ' :: txt "all flags any no state") := by
        rw [List.append_assoc]
        rfl
      rw [hsplit, List.splitOn_append_cons_self, List.splitOn_append_cons_self_of_not_mem hblank]
      rfl
    rw [readRule, hwords]
    rfl
  have hlo : readRule (txt "pass out quick on lo0 all flags any" ++ txt " no state") =
      some (onInterface (txt "lo0")) := by decide
  have hgroup : (lets (txt "any group 7302243") none (some (braced [txt "tcp", txt "udp"]))).mapM
      readRule = some [ofGroup, ofGroup.opened] := by decide
  have hdhcp : [txt "pass out quick inet proto udp" ++ txt " from any port 68 to any port 67",
      txt "pass out quick inet6 proto udp" ++ txt " from any port 546 to any port 547"].mapM
      readRule = some [dhcp .inet 68 67, dhcp .inet6 546 547] := by decide
  have hinterfaces := mapM_eq_some_iff.mpr (.cons hlo (.cons htunnel .nil))
  exact mapM_append_some (mapM_append_some hinterfaces hgroup) hdhcp

/-- The words of a rule with a list. -/
theorem splitOn_braced (before : Text) (ts : List Text) (after : Text) :
    (before ++ ' ' :: (braced ts ++ after)).splitOn ' ' = before.splitOn ' ' ++ txt "\x7b" ::
      (((txt ", ").intercalate ts).splitOn ' ' ++ ('\x7d' :: after).splitOn ' ') := by
  have hsplit : braced ts ++ after =
      txt "\x7b" ++ ' ' :: ((txt ", ").intercalate ts ++ ' ' :: ('\x7d' :: after)) := by
    simp only [braced, List.append_assoc]
    rfl
  rw [List.splitOn_append_cons_self, hsplit, List.splitOn_append_cons_self_of_not_mem (by decide),
    List.splitOn_append_cons_self]

/-- A line with a list is read as what it lists. -/
theorem readRule_braced {before after : Text} {ts : List Text} {ps : List Prefix}
    (front rest : List Text) (head : Head) (tail : Tail) (hwords : ∀ t ∈ ts, Word t)
    (h : ts.mapM readPrefix = some ps)
    (hne : ts ≠ []) (hbefore : before.splitOn ' ' = front ++ [txt "from", txt "any", txt "to"])
    (hafter : ('\x7d' :: after).splitOn ' ' = txt "\x7d" :: rest)
    (hhead : ∀ ws, readHead (front ++ txt "from" :: ws) = some (head, txt "from" :: ws))
    (hport : numbered ["port"] rest = some (none, rest)) (htail : readTail rest = some tail) :
    readRule (before ++ ' ' :: (braced ts ++ after)) =
      some (.ofParts head { destinations := ps } tail) := by
  rw [readRule, splitOn_braced, hbefore, hafter, List.append_assoc]
  exact readWords_eq (hhead _) (readEnds_listed hwords h hne hport) htail

/-- The rules with a list are read as what they list. -/
theorem readRules_passLists {family : String} {f : Family}
    (hfamily : family = "inet" ∧ f = .inet ∨ family = "inet6" ∧ f = .inet6) {ts : List Text}
    {ps : List Prefix} (hwords : ∀ t ∈ ts, Word t) (h : ts.mapM readPrefix = some ps) :
    (passLists family ts).mapM readRule = some (listedRules f ps) := by
  by_cases hnil : ts = []
  · subst hnil
    cases h
    rfl
  · have hps : ps ≠ [] := by
      rintro rfl
      exact hnil (List.forall₂_nil_right_iff.mp (mapM_eq_some_iff.mp h))
    have hlets : lets (braced ts) (some (txt family)) none =
        [(txt "pass out quick" ++ ' ' :: txt family ++ txt " from any to") ++ ' ' ::
          (braced ts ++ []),
          (txt "pass out quick" ++ ' ' :: txt family ++ txt " proto tcp from any to") ++
            ' ' :: (braced ts ++ txt " flags any no state")] := by
      have hto : txt " from any to " = txt " from any to" ++ [' '] := rfl
      have hproto : txt " proto tcp from any to " = txt " proto tcp from any to" ++ [' '] := rfl
      simp only [lets, Option.map_some, Option.map_none, Option.getD_some, Option.getD_none, hto,
        hproto, List.append_assoc, List.cons_append, List.nil_append, List.append_nil]
    rw [passLists, if_neg hnil, hlets, listedRules, if_neg hps]
    refine mapM_eq_some_iff.mpr (.cons ?_ (.cons ?_ .nil))
    · rcases hfamily with ⟨rfl, rfl⟩ | ⟨rfl, rfl⟩
      · exact readRule_braced [txt "pass", txt "out", txt "quick", txt "inet"] []
          ⟨true, none, some .inet, []⟩ {} hwords h hnil (by decide) (by decide)
          (fun _ => by rfl) rfl rfl
      · exact readRule_braced [txt "pass", txt "out", txt "quick", txt "inet6"] []
          ⟨true, none, some .inet6, []⟩ {} hwords h hnil (by decide) (by decide)
          (fun _ => by rfl) rfl rfl
    · rcases hfamily with ⟨rfl, rfl⟩ | ⟨rfl, rfl⟩
      · exact readRule_braced
          [txt "pass", txt "out", txt "quick", txt "inet", txt "proto", txt "tcp"]
          [txt "flags", txt "any", txt "no", txt "state"] ⟨true, none, some .inet, [.tcp]⟩
          { anyFlags := true, noState := true } hwords h hnil (by decide) (by decide)
          (fun _ => by rfl) rfl rfl
      · exact readRule_braced
          [txt "pass", txt "out", txt "quick", txt "inet6", txt "proto", txt "tcp"]
          [txt "flags", txt "any", txt "no", txt "state"] ⟨true, none, some .inet6, [.tcp]⟩
          { anyFlags := true, noState := true } hwords h hnil (by decide) (by decide)
          (fun _ => by rfl) rfl rfl

theorem readRules_closing : closing.mapM readRule = some closingRules := by
  have hnames : [txt "block return out quick proto " ++ braced [txt "tcp", txt "udp"] ++
      txt " from any to any port 53"].mapM readRule = some [names] := by decide
  have hrest : [txt "block return out quick all"].mapM readRule = some [rest] := by decide
  have h4 : localV4.mapM readPrefix = some localPrefixesV4 := by decide
  have h6 : localV6.mapM readPrefix = some localPrefixesV6 := by decide
  have hlocal := mapM_append_some (readRules_passLists (.inl ⟨rfl, rfl⟩) (by decide) h4)
    (readRules_passLists (.inr ⟨rfl, rfl⟩) (by decide) h6)
  have hall := mapM_append_some hnames (mapM_append_some hlocal hrest)
  simp only [closing, closingRules, List.append_assoc] at hall ⊢
  exact hall

/-! ### Whom a rule concerns -/

theorem concerns_onInterface {interface : Text} {p : Packet} :
    (onInterface interface).concerns p = true ↔ p.interface = interface := by
  simp [onInterface, Rule.concerns, eq_comm (a := p.interface)]

theorem concerns_ofGroup {p : Packet} :
    ofGroup.concerns p = true ↔ p.isTcpOrUdp = true ∧ p.group = group := by
  cases hprotocol : p.protocol <;>
    simp [ofGroup, Rule.concerns, Packet.isTcpOrUdp, hprotocol, eq_comm (a := p.group)]

theorem concerns_dhcp {family : Family} {client server : Nat} {p : Packet} :
    (dhcp family client server).concerns p = true ↔ p.protocol = .udp ∧
      p.family = family ∧ p.sourcePort = client ∧ p.destinationPort = server := by
  cases hprotocol : p.protocol <;>
    simp [dhcp, Rule.concerns, Packet.isTcpOrUdp, hprotocol, eq_comm (a := p.family),
      eq_comm (a := p.sourcePort), eq_comm (a := p.destinationPort), and_assoc]

theorem concerns_names {p : Packet} :
    names.concerns p = true ↔ p.isTcpOrUdp = true ∧ p.destinationPort = 53 := by
  cases hprotocol : p.protocol <;>
    simp [names, Rule.concerns, Packet.isTcpOrUdp, hprotocol, eq_comm (a := p.destinationPort)]

theorem concerns_toPrefixes {family : Family} {destinations : List Prefix}
    (hfamily : ∀ d ∈ destinations, d.base.family = family) (hne : destinations ≠ [])
    (p : Packet) : (toPrefixes family destinations).concerns p =
      destinations.any (·.contains p.destination) := by
  have hempty : destinations.isEmpty = false := by rw [List.isEmpty_eq_false_iff]; exact hne
  cases hany : destinations.any (·.contains p.destination) with
  | false => simp [toPrefixes, Rule.concerns, hempty, hany]
  | true =>
      obtain ⟨d, hd, hcontains⟩ := List.any_eq_true.mp hany
      have hsame : family = p.family := by
        rw [← hfamily d hd]
        exact Prefix.family_of_contains hcontains
      simp [toPrefixes, Rule.concerns, hempty, hany, hsame]

/-- What is listed is let out, whatever its flags. -/
theorem letsOut_listedRules {family : Family} {destinations : List Prefix}
    (hfamily : ∀ d ∈ destinations, d.base.family = family) (rules : List Rule) (p : Packet) :
    letsOut (listedRules family destinations ++ rules) p =
      if destinations.any (·.contains p.destination) = true then true else letsOut rules p := by
  by_cases hnil : destinations = []
  · rw [listedRules, if_pos hnil, hnil]
    rfl
  · rw [listedRules, if_neg hnil, List.cons_append, List.cons_append, List.nil_append,
      letsOut_opened rfl (.inl rfl), concerns_toPrefixes hfamily hnil]

/-! ### What the block lets out -/

/-- A request for an address. -/
def IsDhcp (p : Packet) : Prop :=
  p.protocol = .udp ∧
    (p.family = .inet ∧ p.sourcePort = 68 ∧ p.destinationPort = 67 ∨
      p.family = .inet6 ∧ p.sourcePort = 546 ∧ p.destinationPort = 547)

def IsLocal (a : Address) : Prop := ∃ d ∈ localPrefixesV4 ++ localPrefixesV6, d.contains a = true

/-- The loopback, the tunnel, the group, the lease, what is listed, and the local network, names
aside. -/
def LetOut (request : HoldRequest) (p : Packet) : Prop :=
  p.interface = txt "lo0" ∨ p.interface = request.interface ∨
  (p.isTcpOrUdp = true ∧ p.group = group) ∨ IsDhcp p ∨
  (∃ t ∈ request.passes, address t = some p.destination) ∨
  (¬ (p.isTcpOrUdp = true ∧ p.destinationPort = 53) ∧ IsLocal p.destination)

/-- The addresses that are listed for a family. -/
def listedOf (ofFamily : Text → Bool) (passes : List Text) : List Prefix :=
  ((passes.filter ofFamily).filterMap address).map Address.whole

def rulesOf (n : Nat) (passes : List Text) : List Rule :=
  openingRules n ++ listedRules .inet (listedOf (fun t => !t.contains ':') passes) ++
    listedRules .inet6 (listedOf (fun t => t.contains ':') passes) ++ closingRules

theorem mapM_of_isSome {α β : Type} {f : α → Option β} {as : List α}
    (h : ∀ a ∈ as, ∃ b, f a = some b) : as.mapM f = some (as.filterMap f) := by
  induction as with
  | nil => rfl
  | cons a as ih =>
      obtain ⟨⟨b, hb⟩, has⟩ := List.forall_mem_cons.mp h
      rw [List.mapM_cons, hb, ih has, List.filterMap_cons_some hb]
      rfl

/-- pf reads the rules, each as what it says. -/
theorem readRules {n : Nat} {passes : List Text} (h : ∀ t ∈ passes, ∃ a, address t = some a) :
    (rules ⟨utun n, passes⟩).mapM readRule = some (rulesOf n passes) := by
  have hlisted : ∀ (family : String) (f : Family) (ofFamily : Text → Bool),
      (family = "inet" ∧ f = .inet ∨ family = "inet6" ∧ f = .inet6) →
      (passLists family (passes.filter ofFamily)).mapM readRule =
        some (listedRules f (listedOf ofFamily passes)) := by
    intro family f ofFamily hfamily
    have hsome : ∀ t ∈ passes.filter ofFamily, ∃ a, address t = some a :=
      fun t ht => h t (List.mem_of_mem_filter ht)
    refine readRules_passLists hfamily (fun t ht => ?_)
      (readPrefix_addresses (mapM_of_isSome hsome))
    obtain ⟨a, ha⟩ := hsome t ht
    exact word_of_address ha
  rw [rules_eq_sequence, sequence]
  exact mapM_append_some (mapM_append_some (mapM_append_some (readRules_opening n)
    (hlisted "inet" .inet _ (.inl ⟨rfl, rfl⟩))) (hlisted "inet6" .inet6 _ (.inr ⟨rfl, rfl⟩)))
    readRules_closing

/-- What is listed for a family is of that family. -/
theorem family_of_listedOf {ofFamily : Text → Bool} {f : Family} {passes : List Text}
    (h : ∀ t ∈ passes, ofFamily t = true → ∀ a, address t = some a → a.family = f) :
    ∀ d ∈ listedOf ofFamily passes, d.base.family = f := by
  intro d hd
  obtain ⟨a, ha, rfl⟩ := List.mem_map.mp hd
  obtain ⟨t, ht, haddress⟩ := List.mem_filterMap.mp ha
  obtain ⟨hmem, hof⟩ := List.mem_filter.mp ht
  rw [← h t hmem hof a haddress]
  cases a <;> rfl

theorem contains_listedOf {ofFamily : Text → Bool} {passes : List Text} {b : Address} :
    (listedOf ofFamily passes).any (·.contains b) = true ↔
      ∃ t ∈ passes, ofFamily t = true ∧ address t = some b := by
  rw [List.any_eq_true]
  constructor
  · rintro ⟨d, hd, hcontains⟩
    obtain ⟨a, ha, rfl⟩ := List.mem_map.mp hd
    obtain ⟨t, ht, haddress⟩ := List.mem_filterMap.mp ha
    obtain ⟨hmem, hof⟩ := List.mem_filter.mp ht
    rw [contains_whole] at hcontains
    exact ⟨t, hmem, hof, hcontains ▸ haddress⟩
  · rintro ⟨t, hmem, hof, haddress⟩
    refine ⟨b.whole, ?_, (contains_whole b b).mpr rfl⟩
    exact List.mem_map_of_mem
      (List.mem_filterMap.mpr ⟨t, List.mem_filter.mpr ⟨hmem, hof⟩, haddress⟩)

/-- What the rules before the lists do. -/
theorem letsOut_opening (n : Nat) (rules : List Rule) (p : Packet) :
    letsOut (openingRules n ++ rules) p = true ↔
      p.interface = txt "lo0" ∨ p.interface = utun n ∨
      (p.isTcpOrUdp = true ∧ p.group = group) ∨ IsDhcp p ∨ letsOut rules p = true := by
  have hudp : ∀ (family : Family) (client server : Nat) (q : Packet),
      (dhcp family client server).concerns q = true → q.protocol ≠ .tcp := by
    intro family client server q hconcerns htcp
    rw [concerns_dhcp, htcp] at hconcerns
    simp at hconcerns
  have hconcerns : letsOut (openingRules n ++ rules) p =
      if (onInterface (txt "lo0")).concerns p = true then true
      else if (onInterface (utun n)).concerns p = true then true
      else if ofGroup.concerns p = true then true
      else if (dhcp .inet 68 67).concerns p = true then true
      else if (dhcp .inet6 546 547).concerns p = true then true else letsOut rules p := by
    rw [openingRules, List.cons_append, List.cons_append, List.cons_append, List.cons_append,
      List.cons_append, List.cons_append, List.nil_append, letsOut_cons_anyFlags (.inr rfl),
      letsOut_cons_anyFlags (.inr rfl), letsOut_opened rfl (.inr (by decide)),
      letsOut_cons_notTcp (hudp _ _ _), letsOut_cons_notTcp (hudp _ _ _)]
    rfl
  rw [hconcerns]
  simp only [concerns_onInterface, concerns_ofGroup, concerns_dhcp, Bool.if_true_left,
    Bool.or_eq_true, decide_eq_true_eq, IsDhcp, and_or_left, or_assoc]

/-- What the rules behind them do. -/
theorem letsOut_closing (p : Packet) : letsOut closingRules p = true ↔
    ¬ (p.isTcpOrUdp = true ∧ p.destinationPort = 53) ∧ IsLocal p.destination := by
  have hrest : letsOut [rest] p = false := by
    rw [letsOut_cons_anyFlags (.inl rfl), if_pos (by rfl)]
    rfl
  have hconcerns : letsOut closingRules p = if names.concerns p = true then false
      else if localPrefixesV4.any (·.contains p.destination) = true then true
      else if localPrefixesV6.any (·.contains p.destination) = true then true else false := by
    rw [closingRules, List.append_assoc, List.cons_append, letsOut_cons_anyFlags (.inl rfl),
      letsOut_listedRules (by decide), letsOut_listedRules (by decide), hrest]
    rfl
  rw [hconcerns]
  by_cases hnames : names.concerns p = true
  · rw [if_pos hnames]
    exact iff_of_false Bool.false_ne_true fun h => h.1 (concerns_names.mp hnames)
  · have hnot := mt concerns_names.mpr hnames
    rw [if_neg hnames]
    simp only [Bool.if_true_left, Bool.or_eq_true, decide_eq_true_eq, Bool.false_eq_true, or_false,
      hnot, not_false_eq_true, true_and, IsLocal, List.any_eq_true, List.mem_append, or_and_right,
      exists_or]

/-- What the lists let out. -/
theorem letsOut_listed (passes : List Text) (rules : List Rule) (p : Packet) :
    letsOut (listedRules .inet (listedOf (fun t => !t.contains ':') passes) ++
      (listedRules .inet6 (listedOf (fun t => t.contains ':') passes) ++ rules)) p = true ↔
      (∃ t ∈ passes, address t = some p.destination) ∨ letsOut rules p = true := by
  have h4 : ∀ t ∈ passes, (!t.contains ':') = true → ∀ a, address t = some a →
      a.family = .inet := by
    intro t _ hcolon a ha
    have hnot : ':' ∉ t := by simpa using hcolon
    cases a with
    | v4 value => rfl
    | v6 value => exact absurd ((mem_colon_iff ha).mpr rfl) hnot
  have h6 : ∀ t ∈ passes, t.contains ':' = true → ∀ a, address t = some a → a.family = .inet6 :=
    fun t _ hcolon a ha => (mem_colon_iff ha).mp (List.contains_iff_mem.mp hcolon)
  rw [letsOut_listedRules (family_of_listedOf h4), letsOut_listedRules (family_of_listedOf h6)]
  simp only [Bool.if_true_left, Bool.or_eq_true, decide_eq_true_eq, contains_listedOf]
  constructor
  · rintro (⟨t, ht, -, haddress⟩ | ⟨t, ht, -, haddress⟩ | hrest)
    · exact .inl ⟨t, ht, haddress⟩
    · exact .inl ⟨t, ht, haddress⟩
    · exact .inr hrest
  · rintro (⟨t, ht, haddress⟩ | hrest)
    · cases hcolon : t.contains ':' with
      | false => exact .inl ⟨t, ht, by rw [hcolon]; rfl, haddress⟩
      | true => exact .inr (.inl ⟨t, ht, hcolon, haddress⟩)
    · exact .inr (.inr hrest)

/-- **The block lets out what it says,** and a TCP packet whatever its flags. -/
theorem holds {request : HoldRequest} (hinterface : HoldRequest.isUtun request.interface = true)
    (haddresses : ∀ t ∈ request.passes, ∃ a, address t = some a) :
    ∃ read, (rules request).mapM readRule = some read ∧
      (∀ p, letsOut read p = true ↔ LetOut request p) ∧
      ∀ p flags, letsOut read { p with flags } = letsOut read p := by
  obtain ⟨n, hn⟩ := isUtun_eq_true hinterface
  obtain ⟨interface, passes⟩ := request
  cases hn
  have hverdict : ∀ p, letsOut (rulesOf n passes) p = true ↔ LetOut ⟨utun n, passes⟩ p := by
    intro p
    rw [rulesOf, List.append_assoc, List.append_assoc, letsOut_opening, letsOut_listed,
      letsOut_closing]
    exact Iff.rfl
  refine ⟨rulesOf n passes, readRules haddresses, hverdict, fun p flags => ?_⟩
  rw [Bool.eq_iff_iff, hverdict, hverdict]
  exact Iff.rfl

/-- With an address of each family. -/
theorem holds_listed :
    ∃ read, (rules ⟨utun 3, [txt "192.0.2.7", txt "2001:db8::1"]⟩).mapM readRule =
    some read ∧ (∀ p, letsOut read p = true ↔
      LetOut ⟨utun 3, [txt "192.0.2.7", txt "2001:db8::1"]⟩ p) ∧
      ∀ p flags, letsOut read { p with flags } = letsOut read p := by
  refine holds (by decide) (List.forall_mem_cons.mpr ⟨⟨.v4 0xC0000207, by decide⟩,
    List.forall_mem_singleton.mpr ⟨.v6 0x20010DB8000000000000000000000001, by decide⟩⟩)

end Ghostlane.Desktop.TrafficHold
