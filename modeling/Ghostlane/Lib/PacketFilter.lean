import Ghostlane.Lib.FirstMatch
import Ghostlane.Lib.Inet

/-!
# Ghostlane.Lib.PacketFilter

Rules of a packet filter as they are written (pf's `pass out quick proto tcp from any to any`), and
what they do with a packet that goes out before any connection is known. Every rule here is
`quick`, so the first that matches decides, and what none matches is let out.

A rule that passes and says nothing of flags takes a TCP packet only when it opens a connection: the
rest of the connection is passed by the state that packet leaves.
-/

namespace Ghostlane.Lib.PacketFilter

open Ghostlane.Lib.Inet

/-! ### Packets -/

inductive Protocol
  | tcp
  | udp
  | other
  deriving DecidableEq, Repr

/-- A packet that goes out. -/
structure Packet where
  interface : Text
  protocol : Protocol
  source : Address
  destination : Address
  /-- Of TCP and UDP. -/
  sourcePort : Nat
  destinationPort : Nat
  /-- The group of the process whose socket it leaves by. -/
  group : Nat
  /-- Of TCP. -/
  flags : BitVec 8
  sameFamily : source.family = destination.family
  deriving DecidableEq, Repr

namespace Packet

def family (p : Packet) : Family := p.destination.family

/-- It has ports, and a socket. -/
def isTcpOrUdp (p : Packet) : Bool := p.protocol != .other

/-- SYN without ACK. -/
def opens (p : Packet) : Bool := p.flags &&& 0x12 == 0x02

end Packet

/-! ### Rules -/

/-- A `quick` rule. What it does not name is nothing. -/
structure Rule where
  pass : Bool
  interface : Option Text := none
  family : Option Family := none
  protocols : List Protocol := []
  sourcePort : Option Nat := none
  destinations : List Prefix := []
  destinationPort : Option Nat := none
  group : Option Nat := none
  anyFlags : Bool := false
  keepsState : Bool := true
  deriving DecidableEq, Repr

namespace Rule

/-- Whether a packet is the rule's, whatever its flags. -/
def concerns (r : Rule) (p : Packet) : Bool :=
  r.interface.all (· == p.interface) && r.family.all (· == p.family) &&
    (r.protocols.isEmpty || r.protocols.contains p.protocol) &&
    r.sourcePort.all (fun n => p.isTcpOrUdp && n == p.sourcePort) &&
    (r.destinations.isEmpty || r.destinations.any (·.contains p.destination)) &&
    r.destinationPort.all (fun n => p.isTcpOrUdp && n == p.destinationPort) &&
    r.group.all (fun n => p.isTcpOrUdp && n == p.group)

/-- Whether the rule takes a packet that goes out. -/
def takes (r : Rule) (p : Packet) : Bool :=
  r.concerns p && (!r.pass || r.anyFlags || p.protocol != .tcp || p.opens)

def ruling (r : Rule) (p : Packet) : Ruling Packet Bool :=
  if r.takes p = true then .ends r.pass else .passes p

/-- The rule for connections that were open before. -/
def opened (r : Rule) : Rule :=
  { r with protocols := [.tcp], anyFlags := true, keepsState := false }

end Rule

/-- Whether rules let a packet out. -/
def letsOut (rules : List Rule) (p : Packet) : Bool := firstMatch Rule.ruling true rules p

@[simp] theorem letsOut_nil (p : Packet) : letsOut [] p = true := rfl

theorem letsOut_cons (r : Rule) (rules : List Rule) (p : Packet) :
    letsOut (r :: rules) p = if r.takes p = true then r.pass else letsOut rules p :=
  firstMatch_cons_ite (by rfl) rules

/-- A rule that says nothing of a connection being opened. -/
theorem letsOut_cons_anyFlags {r : Rule} (h : r.pass = false ∨ r.anyFlags = true)
    (rules : List Rule) (p : Packet) :
    letsOut (r :: rules) p = if r.concerns p = true then r.pass else letsOut rules p := by
  have htakes : r.takes p = r.concerns p := by
    rw [Rule.takes]
    rcases h with h | h <;> simp [h]
  rw [letsOut_cons, htakes]

/-- A rule without TCP. -/
theorem letsOut_cons_notTcp {r : Rule} (h : ∀ p, r.concerns p = true → p.protocol ≠ .tcp)
    (rules : List Rule) (p : Packet) :
    letsOut (r :: rules) p = if r.concerns p = true then r.pass else letsOut rules p := by
  have htakes : r.takes p = r.concerns p := by
    rw [Rule.takes]
    cases hconcerns : r.concerns p with
    | false => rfl
    | true => simp [h p hconcerns]
  rw [letsOut_cons, htakes]

/-- **Let out twice over.** A rule and the one for open connections let out what the rule concerns,
whatever its flags. -/
theorem letsOut_opened {r : Rule} (hpass : r.pass = true)
    (htcp : r.protocols = [] ∨ .tcp ∈ r.protocols) (rules : List Rule) (p : Packet) :
    letsOut (r :: r.opened :: rules) p = if r.concerns p = true then true else letsOut rules p := by
  have hopened : r.opened.takes p = (r.concerns p && p.protocol == .tcp) := by
    cases hp : p.protocol with
    | tcp =>
        have hin : (r.protocols.isEmpty || r.protocols.contains .tcp) = true := by
          rcases htcp with hnil | hmem
          · rw [hnil]
            rfl
          · rw [List.contains_iff_mem.mpr hmem, Bool.or_true]
        simp only [Rule.takes, Rule.concerns, Rule.opened, hp, hin]
        simp
    | udp => simp [Rule.takes, Rule.concerns, Rule.opened, hp]
    | other => simp [Rule.takes, Rule.concerns, Rule.opened, hp]
  rw [letsOut_cons, letsOut_cons, hopened, Rule.takes, hpass]
  have hsame : r.opened.pass = true := hpass
  rw [hsame]
  cases r.concerns p <;> cases p.protocol <;> cases r.anyFlags <;> cases p.opens <;> rfl

/-! ### Reading -/

/-- The rest of the words behind one. -/
def word (w : String) : List Text → Option (List Text)
  | [] => none
  | v :: ws => if v = txt w then some ws else none

/-- Whether a word, or several, are there, and what is behind them. -/
def flag (ws : List String) (text : List Text) : Bool × List Text :=
  match ws.foldlM (fun text w => word w text) text with
  | some rest => (true, rest)
  | none => (false, text)

/-- A number behind words. -/
def numbered (ws : List String) (text : List Text) : Option (Option Nat × List Text) :=
  match flag ws text with
  | (false, _) => some (none, text)
  | (true, n :: rest) =>
      if n ≠ [] ∧ n.all Char.isDigit then some (some (Nat.ofDigitChars 10 n 0), rest) else none
  | (true, []) => none

/-- The items of a list up to its brace, each with a comma behind it or not. -/
def items : List Text → Option (List Text × List Text)
  | [] => none
  | w :: ws =>
      if w = txt "\x7d" then some ([], ws)
      else (items ws).map fun (more, rest) =>
        ((if w.getLast? = some ',' then w.dropLast else w) :: more, rest)

/-- One item, or several in braces. -/
def listed : List Text → Option (List Text × List Text)
  | [] => none
  | w :: ws => if w = txt "\x7b" then items ws else some ([w], ws)

def readProtocol (w : Text) : Option Protocol :=
  if w = txt "tcp" then some .tcp else if w = txt "udp" then some .udp else none

def readFamily (ws : List Text) : Option Family × List Text :=
  match flag ["inet"] ws with
  | (true, rest) => (some .inet, rest)
  | (false, _) =>
      match flag ["inet6"] ws with
      | (true, rest) => (some .inet6, rest)
      | (false, _) => (none, ws)

def readProtocols (ws : List Text) : Option (List Protocol × List Text) :=
  match word "proto" ws with
  | none => some ([], ws)
  | some ws => do
      let (names, ws) ← listed ws
      return (← names.mapM readProtocol, ws)

/-- What stands before the ends. -/
structure Head where
  pass : Bool
  interface : Option Text
  family : Option Family
  protocols : List Protocol

def readHead (ws : List Text) : Option (Head × List Text) := do
  let (pass, ws) ← match flag ["pass"] ws with
    | (true, ws) => some (true, ws)
    | (false, ws) => (word "block" ws).map fun ws => (false, (flag ["return"] ws).2)
  let ws ← word "quick" (flag ["out"] ws).2
  let (interface, ws) ← match flag ["on"] ws with
    | (false, ws) => some (none, ws)
    | (true, name :: ws) => some (some name, ws)
    | (true, []) => none
  let (family, ws) := readFamily ws
  let (protocols, ws) ← readProtocols ws
  return ({ pass, interface, family, protocols }, ws)

/-- Where a packet comes from and where it goes to. -/
structure Ends where
  sourcePort : Option Nat := none
  destinations : List Prefix := []
  destinationPort : Option Nat := none

def readEnds (ws : List Text) : Option (Ends × List Text) :=
  match word "all" ws with
  | some ws => some ({}, ws)
  | none => do
      let ws ← word "any" (← word "from" ws)
      let (sourcePort, ws) ← numbered ["port"] ws
      let (hosts, ws) ← listed (← word "to" ws)
      let destinations ← if hosts = [txt "any"] then some [] else hosts.mapM readPrefix
      let (destinationPort, ws) ← numbered ["port"] ws
      return ({ sourcePort, destinations, destinationPort }, ws)

/-- What stands behind the ends. -/
structure Tail where
  group : Option Nat := none
  anyFlags : Bool := false
  noState : Bool := false

def readTail (ws : List Text) : Option Tail := do
  let (group, ws) ← numbered ["group"] ws
  let (anyFlags, ws) := flag ["flags", "any"] ws
  let (noState, ws) := flag ["no", "state"] ws
  if ws = [] then some { group, anyFlags, noState } else none

def Rule.ofParts (head : Head) (ends : Ends) (tail : Tail) : Rule where
  pass := head.pass
  interface := head.interface
  family := head.family
  protocols := head.protocols
  sourcePort := ends.sourcePort
  destinations := ends.destinations
  destinationPort := ends.destinationPort
  group := tail.group
  anyFlags := tail.anyFlags
  keepsState := head.pass && !tail.noState

/-- A rule, word by word. -/
def readWords (ws : List Text) : Option Rule := do
  let (head, ws) ← readHead ws
  let (ends, ws) ← readEnds ws
  let tail ← readTail ws
  return .ofParts head ends tail

/-- A rule as it is written. -/
def readRule (line : Text) : Option Rule := readWords (line.splitOn ' ')

/-! ### Lists of addresses -/

theorem readWords_eq {ws ws' ws'' : List Text} {head : Head} {ends : Ends} {tail : Tail}
    (hhead : readHead ws = some (head, ws')) (hends : readEnds ws' = some (ends, ws''))
    (htail : readTail ws'' = some tail) : readWords ws = some (.ofParts head ends tail) := by
  rw [readWords, hhead, Option.bind_eq_bind, Option.bind_some]
  dsimp only
  rw [hends, Option.bind_eq_bind, Option.bind_some]
  dsimp only
  rw [htail]
  rfl

/-- A text that is one word, and no comma or brace of a list. -/
abbrev Word (t : Text) : Prop := ' ' ∉ t ∧ ',' ∉ t ∧ '\x7d' ∉ t

theorem word_of_address {t : Text} {a : Address} (h : address t = some a) : Word t := by
  have hplain : ∀ c ∈ [' ', ',', '\x7d'], ¬ Plain c := by decide
  refine ⟨fun hc => ?_, fun hc => ?_, fun hc => ?_⟩
  · exact hplain ' ' (by decide) (address_chars h _ hc)
  · exact hplain ',' (by decide) (address_chars h _ hc)
  · exact hplain '\x7d' (by decide) (address_chars h _ hc)

/-- A list is read back as its items. -/
theorem items_intercalate {ts : List Text} (h : ∀ t ∈ ts, Word t) (hne : ts ≠ [])
    (rest : List Text) :
    items (((txt ", ").intercalate ts).splitOn ' ' ++ txt "\x7d" :: rest) = some (ts, rest) := by
  have hlast : ∀ {t : Text}, Word t → t.getLast? ≠ some ',' := by
    intro t ht hlast
    exact ht.2.1 (List.mem_of_getLast? hlast)
  induction ts with
  | nil => exact absurd rfl hne
  | cons t ts ih =>
      obtain ⟨ht, hts⟩ := List.forall_mem_cons.mp h
      have hbrace : t ≠ txt "\x7d" := by
        rintro rfl
        exact ht.2.2 (by decide)
      cases ts with
      | nil =>
          rw [List.intercalate_singleton, List.splitOn_eq_singleton ht.1]
          rw [List.cons_append, items, if_neg hbrace, if_neg (hlast ht)]
          rfl
      | cons u ts =>
          have hcomma : ' ' ∉ t ++ [','] := by
            rw [List.mem_append, List.mem_singleton]
            rintro (hblank | hblank)
            · exact ht.1 hblank
            · exact absurd hblank (by decide)
          have hbrace' : t ++ [','] ≠ txt "\x7d" := by
            intro heq
            have hmem : ',' ∈ txt "\x7d" :=
              heq ▸ List.mem_append_right t (List.mem_singleton_self _)
            exact absurd hmem (by decide)
          have hsplit : (txt ", ").intercalate (t :: u :: ts) =
              (t ++ [',']) ++ ' ' :: (txt ", ").intercalate (u :: ts) := by
            rw [List.intercalate_cons_cons]
            simp only [List.append_assoc]
            rfl
          rw [hsplit, List.splitOn_append_cons_self_of_not_mem hcomma, List.cons_append, items,
            if_neg hbrace', ih hts (List.cons_ne_nil u ts)]
          rw [Option.map_some, if_pos List.getLast?_concat, List.dropLast_concat]

@[simp] theorem word_self (w : String) (ws : List Text) : word w (txt w :: ws) = some ws :=
  if_pos rfl

theorem word_of_ne {v w : String} (h : txt v ≠ txt w) (ws : List Text) :
    word w (txt v :: ws) = none := if_neg h

theorem numbered_of_ne {v w : String} (h : txt v ≠ txt w) (ws : List Text) :
    numbered [w] (txt v :: ws) = some (none, txt v :: ws) := by
  have hflag : flag [w] (txt v :: ws) = (false, txt v :: ws) := by
    rw [flag, List.foldlM_cons, word_of_ne h]
    rfl
  rw [numbered, hflag]

theorem readPrefix_addresses {ts : List Text} {as : List Address} (h : ts.mapM address = some as) :
    ts.mapM readPrefix = some (as.map Address.whole) := by
  rw [mapM_eq_some_iff] at h ⊢
  rw [List.forall₂_map_right_iff]
  exact h.imp fun _ _ => readPrefix_address

/-- What goes from anywhere to what is listed. -/
theorem readEnds_listed {ts : List Text} {ps : List Prefix} {rest : List Text}
    (hwords : ∀ t ∈ ts, Word t) (h : ts.mapM readPrefix = some ps) (hne : ts ≠ [])
    (hrest : numbered ["port"] rest = some (none, rest)) :
    readEnds (txt "from" :: txt "any" :: txt "to" :: txt "\x7b" ::
      (((txt ", ").intercalate ts).splitOn ' ' ++ txt "\x7d" :: rest)) =
        some ({ destinations := ps }, rest) := by
  have hany : ts ≠ [txt "any"] := by
    rintro rfl
    obtain ⟨p, -, hp⟩ := of_mapM_eq_some h _ (List.mem_singleton_self _)
    have hnone : readPrefix (txt "any") = none := by decide
    rw [hnone] at hp
    cases hp
  have hlisted : listed (txt "\x7b" :: (((txt ", ").intercalate ts).splitOn ' ' ++
      txt "\x7d" :: rest)) = some (ts, rest) := items_intercalate hwords hne rest
  rw [readEnds, word_of_ne (by decide)]
  simp only [word_self, Option.bind_eq_bind, Option.bind_some,
    numbered_of_ne (by decide : txt "to" ≠ txt "port"), hlisted, if_neg hany, h, hrest]
  rfl

end Ghostlane.Lib.PacketFilter
