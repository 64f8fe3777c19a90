import Ghostlane.Lib.Collections
import Ghostlane.Lib.Cut

/-!
# Ghostlane.Phone.RoomList

The rooms of one location as the phone's tunnel reads them out of a list's body
(`PacketTunnel/RoomList.swift`): the process that outlives the app re-reads the list
after every handover, and needs the line whose carrier and key are the running
location's with the rooms beside it.

A string of Swift is a sequence of characters, each one or more scalars, and equal
to every other spelling of the same characters. `SwiftText` has what of that comes
from Unicode's tables and from Foundation. An ASCII character stands alone unless a
combining scalar follows it or a prepended one precedes it, and a line break always
does, so a text is its scalars here and a search for an ASCII character looks at the
scalars beside it.
-/

namespace Ghostlane.Phone

open Ghostlane.Lib

/-- Swift's strings as the tables and Foundation have them. -/
class SwiftText where
  /-- A scalar that joins the character before it: an extending one, a joiner, a spacing mark. -/
  combines : Char → Bool
  /-- A scalar that joins the character after it. -/
  prepends : Char → Bool
  /-- The normal form by which two strings are equal. -/
  canonical : Text → Text
  lowercased : Text → Text
  /-- `Data(base64Encoded:)`, read as UTF-8. -/
  base64Decoded : Text → Option Text

/-! ### Classes of characters -/

/-- Unicode's space separators. -/
def isSpaceSeparator (c : Char) : Bool :=
  let n := c.toNat
  n == 0x20 || n == 0xA0 || n == 0x1680 || (0x2000 ≤ n && n ≤ 0x200A) || n == 0x202F ||
    n == 0x205F || n == 0x3000

/-- `Character.isNewline`. -/
def isNewline (c : Char) : Bool :=
  let n := c.toNat
  (0x0A ≤ n && n ≤ 0x0D) || n == 0x85 || n == 0x2028 || n == 0x2029

/-- `CharacterSet.whitespaces`. -/
def whitespaces (c : Char) : Bool := isSpaceSeparator c || c == '\t'

/-- `CharacterSet.whitespacesAndNewlines`. -/
def whitespacesAndNewlines (c : Char) : Bool := whitespaces c || isNewline c

/-- `Character.isWhitespace`. -/
def isWhitespace (c : Char) : Bool := whitespaces c || isNewline c

/-! ### Strings -/

section

variable [SwiftText]

open SwiftText

/-- `==` of two strings. -/
def same (a b : Text) : Bool := canonical a == canonical b

/-- `hasPrefix` of an ASCII text, whose last character must stand alone. -/
def hasPrefix (t needle : Text) : Bool :=
  needle.isPrefixOf t && !(t.drop needle.length).head?.any combines

/-- What stands before and after the first character that is one of these ASCII
ones (`firstIndex`); `before` is the scalar the text follows. -/
def cutCharacter (p : Char → Bool) (before : Option Char) : Text → Option (Text × Text)
  | [] => none
  | c :: t =>
      if p c && !before.any prepends && !t.head?.any combines then some ([], t)
      else (cutCharacter p (some c) t).map fun q => (c :: q.1, q.2)

/-- `contains` of an ASCII text. -/
def containsText (needle : Text) (before : Option Char) : Text → Bool
  | [] => false
  | c :: t => (hasPrefix (c :: t) needle && !before.any prepends) || containsText needle (some c) t

/-- The parts between the commas and the white space. A combining scalar is part of
the white space it follows; a tab is a control character and joins nothing. -/
def roomParts (inSpace : Bool) (before : Option Char) : Text → List Text
  | [] => [[]]
  | c :: t =>
      if inSpace && combines c then roomParts true (some c) t
      else if isWhitespace c && (c == '\t' || !before.any prepends) then
        [] :: roomParts (c != '\t') (some c) t
      else if c == ',' && !before.any prepends && !t.head?.any combines then
        [] :: roomParts false (some c) t
      else match roomParts false (some c) t with
        | [] => [[c]]
        | part :: parts => (c :: part) :: parts

namespace RoomList

structure Parsed where
  /-- The room the matching line names. -/
  primary : Text
  /-- The other rooms of the group. -/
  extras : List Text
  deriving DecidableEq, Repr

/-- Primary first, then the extras, no duplicates. -/
def Parsed.all (p : Parsed) : List Text := distinctBy canonical (p.primary :: p.extras)

def uriPrefix : Text := txt "olcrtc://"

/-- A carrier as the engine names it; one it does not know stays itself. -/
def normalizedCarrier (name : Text) : Text :=
  let value := lowercased (trimBy whitespacesAndNewlines name)
  if [txt "telemost", txt "yandex", txt "yandex_telemost"].any (same value) then txt "telemost"
  else if [txt "wbstream", txt "wb-stream", txt "wildberries"].any (same value) then txt "wbstream"
  else if [txt "jitsi", txt "jitsi-meet", txt "jitsi_meet", txt "meet"].any (same value) then
    txt "jitsi"
  else if [txt "salutejazz", txt "jazz", txt "sberjazz", txt "sber_jazz"].any (same value) then
    txt "salutejazz"
  else if [txt "vkcalls", txt "vk", txt "vkcall", txt "vk_calls", txt "vk-calls"].any
    (same value) then
    txt "vkcalls"
  else if [txt "mtslink", txt "mts", txt "mts-link", txt "mts_link"].any (same value) then
    txt "mtslink"
  else value

/-- The carrier, the room and the key of a line. -/
structure Fields where
  carrier : Text
  room : Text
  key : Text
  deriving DecidableEq, Repr

/-- `fields(of:)`. -/
def fields (line : Text) : Option Fields := do
  let (carrier, rest) ← cutCharacter (· == '?') none (line.drop uriPrefix.length)
  let (_, rest) ← cutCharacter (· == '@') none rest
  let (room, rest) ← cutCharacter (· == '#') none rest
  let key := ((cutCharacter (fun c => c == '%' || c == '$') none rest).map Prod.fst).getD rest
  let found : Fields :=
    { carrier := normalizedCarrier carrier, room := trimBy whitespaces room
      key := trimBy whitespaces key }
  if found.carrier = [] ∨ found.room = [] ∨ found.key = [] then none
  return found

def splitRooms (value : Text) : List Text := (roomParts false none value).filter (!·.isEmpty)

/-- The value of a `##rooms:` header. -/
def roomsHeader (line : Text) : Option Text := do
  let (name, value) ← cutCharacter (· == ':') none (line.drop 2)
  if same (lowercased (trimBy whitespaces name)) (txt "rooms") then some value else none

def decodeBody (body : Text) : Text :=
  if containsText (txt "://") none body then body
  else
    let compact := body.filter (!isWhitespace ·)
    -- Letters and digits outside ASCII pass the check here and no decoder after it.
    if compact.length < 16 ||
        !compact.all fun c => c.isAlphanum || decide (c ∈ ['+', '/', '-', '_', '=']) then body
    else
      let standard := compact.map fun c => if c = '-' then '+' else if c = '_' then '/' else c
      let padded := standard ++ List.replicate ((4 - standard.length % 4) % 4) '='
      ((base64Decoded padded).filter (containsText (txt "://") none)).getD body

/-- Is it a line of this location? -/
def isOurs (wantedKey wantedCarrier : Text) (f : Fields) : Bool :=
  same (lowercased f.key) wantedKey && same f.carrier wantedCarrier

/-- What has been found so far. -/
structure Walk where
  primary : Option Text := none
  extras : List Text := []
  lastLineIsOurs : Bool := false
  deriving DecidableEq, Repr

/-- One line of a body. -/
def Walk.read (wantedKey wantedCarrier : Text) (s : Walk) (line : Text) : Walk :=
  if hasPrefix line uriPrefix then
    match (fields line).filter (isOurs wantedKey wantedCarrier) with
    | none => { s with lastLineIsOurs := false }
    | some f =>
        match s.primary with
        | none => { s with primary := some f.room, lastLineIsOurs := true }
        | some _ => { s with extras := s.extras ++ [f.room], lastLineIsOurs := true }
  else if hasPrefix line (txt "##") && s.lastLineIsOurs then
    match roomsHeader line with
    | none => s
    | some value => { s with extras := s.extras ++ splitRooms value }
  else s

/-- The lines of a body, trimmed. -/
def bodyLines (text : Text) : List Text :=
  (parts isNewline text).map (trimBy whitespaces)

def wantedKey (keyHex : Text) : Text := lowercased (trimBy whitespacesAndNewlines keyHex)

def parse (body keyHex carrier : Text) : Option Parsed := do
  if wantedKey keyHex = [] ∨ normalizedCarrier carrier = [] then none
  let walk := (bodyLines (decodeBody body)).foldl
    (Walk.read (wantedKey keyHex) (normalizedCarrier carrier)) {}
  let primary ← walk.primary
  let unique := Parsed.all { primary, extras := walk.extras }
  return { primary, extras := unique.drop 1 }

/-! ### A walk past one line of the location -/

variable {wantedKey₀ wantedCarrier : Text}

/-- What a line says, where it is one of this location. -/
def ours (wantedKey wantedCarrier line : Text) : Option Fields :=
  if hasPrefix line uriPrefix then (fields line).filter (isOurs wantedKey wantedCarrier) else none

/-- The rooms of a header. -/
def headerRooms (line : Text) : List Text :=
  if hasPrefix line (txt "##") then ((roomsHeader line).map splitRooms).getD [] else []

/-- Away from the location's line, lines of others change nothing. -/
theorem foldl_read_away {s : Walk} (hs : s.lastLineIsOurs = false) {ls : List Text}
    (h : ∀ line ∈ ls, ours wantedKey₀ wantedCarrier line = none) :
    ls.foldl (Walk.read wantedKey₀ wantedCarrier) s = s := by
  induction ls with
  | nil => rfl
  | cons line ls ih =>
      have hline := h line (List.mem_cons_self ..)
      have hread : s.read wantedKey₀ wantedCarrier line = s := by
        unfold ours at hline
        unfold Walk.read
        split
        · rename_i hstart
          rw [if_pos hstart] at hline
          rw [hline, ← hs]
        · rw [hs, Bool.and_false, if_neg Bool.false_ne_true]
      rw [List.foldl_cons, hread]
      exact ih fun line' hline' => h line' (List.mem_cons_of_mem line hline')

/-- **Below the location's line** the headers are its own up to the next line of any. -/
theorem foldl_read_below {s : Walk} (hs : s.lastLineIsOurs = true) {ls : List Text}
    (h : ∀ line ∈ ls, ours wantedKey₀ wantedCarrier line = none) :
    (ls.foldl (Walk.read wantedKey₀ wantedCarrier) s).primary = s.primary ∧
      (ls.foldl (Walk.read wantedKey₀ wantedCarrier) s).extras =
        s.extras ++ (ls.takeWhile (!hasPrefix · uriPrefix)).flatMap headerRooms := by
  induction ls generalizing s with
  | nil => exact ⟨rfl, (List.append_nil _).symm⟩
  | cons line ls ih =>
      have hline := h line (List.mem_cons_self ..)
      have hrest : ∀ line ∈ ls, ours wantedKey₀ wantedCarrier line = none :=
        fun line' hline' => h line' (List.mem_cons_of_mem line hline')
      rw [List.foldl_cons, List.takeWhile_cons]
      cases hstart : hasPrefix line uriPrefix with
      | true =>
          -- another line ends it
          have hread : s.read wantedKey₀ wantedCarrier line =
              { s with lastLineIsOurs := false } := by
            rw [ours, if_pos hstart] at hline
            rw [Walk.read, if_pos hstart, hline]
          rw [hread, foldl_read_away rfl hrest]
          exact ⟨rfl, (List.append_nil _).symm⟩
      | false =>
          have hread : s.read wantedKey₀ wantedCarrier line =
              { s with extras := s.extras ++ headerRooms line } := by
            have hkeep : s = { s with extras := s.extras ++ [] } := by rw [List.append_nil]
            have hheader : (hasPrefix line (txt "##") && s.lastLineIsOurs) =
                hasPrefix line (txt "##") := by
              rw [hs, Bool.and_true]
            rw [Walk.read, hstart, if_neg Bool.false_ne_true, hheader, headerRooms]
            split
            · cases roomsHeader line with
              | none => exact hkeep
              | some value => rfl
            · exact hkeep
          have hread' := ih (s := s.read wantedKey₀ wantedCarrier line)
              (by rw [hread]; exact hs) hrest
          rw [hread'.1, hread'.2, hread]
          refine ⟨rfl, ?_⟩
          rw [Bool.not_false, if_pos rfl, List.flatMap_cons, List.append_assoc]

/-- Does the line begin like a location or a header? -/
def begins (line : Text) : Bool := uriPrefix.isPrefixOf line || (txt "##").isPrefixOf line

theorem hasPrefix_of_not_begins {line : Text} (h : begins line = false) :
    hasPrefix line uriPrefix = false ∧ hasPrefix line (txt "##") = false := by
  rw [begins, Bool.or_eq_false_iff] at h
  rw [hasPrefix, hasPrefix, h.1, h.2]
  exact ⟨rfl, rfl⟩

/-- Every other line is passed over. -/
theorem foldl_read_filter (s : Walk) (ls : List Text) :
    ls.foldl (Walk.read wantedKey₀ wantedCarrier) s =
      (ls.filter begins).foldl (Walk.read wantedKey₀ wantedCarrier) s := by
  induction ls generalizing s with
  | nil => rfl
  | cons line ls ih =>
      rw [List.foldl_cons, List.filter_cons]
      cases hline : begins line with
      | true => exact ih _
      | false =>
          obtain ⟨huri, hheader⟩ := hasPrefix_of_not_begins hline
          have hread : s.read wantedKey₀ wantedCarrier line = s := by
            rw [Walk.read, huri, hheader, Bool.false_and]
            rfl
          rw [hread]
          exact ih s

/-- **What the tunnel reads** of a body with one line of the location: that line's room,
then the rooms of the headers below it, up to the next line of any. -/
theorem parse_all {body keyHex carrier : Text} {before after : List Text} {line : Text} {f : Fields}
    (hkey : wantedKey keyHex ≠ []) (hcarrier : normalizedCarrier carrier ≠ [])
    (hlines : (bodyLines (decodeBody body)).filter begins = before ++ line :: after)
    (hours : ours (wantedKey keyHex) (normalizedCarrier carrier) line = some f)
    (hothers : ∀ l ∈ before ++ after, ours (wantedKey keyHex) (normalizedCarrier carrier) l =
      none) :
    (parse body keyHex carrier).map Parsed.all =
      some (distinctBy canonical
        (f.room :: (after.takeWhile (!hasPrefix · uriPrefix)).flatMap headerRooms)) := by
  set read := Walk.read (wantedKey keyHex) (normalizedCarrier carrier) with hread
  have hat : read {} line = { primary := some f.room, lastLineIsOurs := true } := by
    unfold ours at hours
    split at hours
    · rename_i hstart
      rw [hread, Walk.read, if_pos hstart, hours]
    · cases hours
  have hbelow := foldl_read_below (s := { primary := some f.room, lastLineIsOurs := true }) rfl
    (fun l hl => hothers l (List.mem_append_right before hl))
  have hfound : ((bodyLines (decodeBody body)).foldl read {}).primary = some f.room ∧
      ((bodyLines (decodeBody body)).foldl read {}).extras =
        (after.takeWhile (!hasPrefix · uriPrefix)).flatMap headerRooms := by
    rw [hread, foldl_read_filter, hlines, List.foldl_append, List.foldl_cons,
      foldl_read_away rfl (fun l hl => hothers l (List.mem_append_left _ hl)), ← hread, hat]
    exact hbelow
  set extras := (after.takeWhile (!hasPrefix · uriPrefix)).flatMap headerRooms
  have hparse : parse body keyHex carrier =
      some { primary := f.room, extras := (distinctBy canonical (f.room :: extras)).drop 1 } := by
    unfold parse
    rw [if_neg (not_or.mpr ⟨hkey, hcarrier⟩), ← hread]
    simp only [bind, Option.bind, pure, hfound.1, hfound.2, Parsed.all]
  rw [hparse, Option.map_some, Parsed.all]
  have hunique : distinctBy canonical (f.room :: extras) =
      f.room :: (distinctBy canonical (f.room :: extras)).drop 1 := by
    simp [distinctBy, distinctFrom]
  rw [← hunique, distinctBy_eq_self_iff.mpr (distinctBy_nodup _)]

end RoomList

/-! ### Texts whose marks stand alone -/

/-- The characters a line is searched for. -/
def isMark (c : Char) : Bool :=
  decide (c ∈ ['?', '@', '#', '%', '$', '/', ':', ',']) || isSpaceSeparator c

/-- No mark of the text is part of a longer character. -/
def Unglued (t : Text) : Prop :=
  ∀ x y, [x, y] <:+: t →
    (isMark x = true → combines y = false) ∧ (isMark y = true → prepends x = false)

theorem Unglued.part {s t : Text} (h : Unglued t) (hs : s <:+: t) : Unglued s :=
  fun x y hxy => h x y (hxy.trans hs)

/-- Nothing joins a mark from behind. -/
theorem Unglued.after {m : Char} {a t : Text} (h : Unglued (a ++ m :: t)) (hm : isMark m = true) :
    t.head?.any combines = false := by
  cases t with
  | nil => rfl
  | cons y t =>
      exact (h m y ⟨a, t, by simp⟩).1 hm

/-- Nothing joins a mark from before. -/
theorem Unglued.before {m : Char} {b : Option Char} {t : Text}
    (h : Unglued (b.toList ++ m :: t)) (hm : isMark m = true) :
    b.any prepends = false := by
  cases b with
  | none => rfl
  | some x => exact (h x m ⟨[], t, rfl⟩).2 hm

theorem Unglued.step {c : Char} {b : Option Char} {t : Text}
    (h : Unglued (b.toList ++ c :: t)) : Unglued ((some c).toList ++ t) :=
  h.part (List.suffix_append _ _).isInfix

theorem cutCharacter_eq {p : Char → Bool} (hp : ∀ c, p c = true → isMark c = true) {t : Text}
    {b : Option Char} (h : Unglued (b.toList ++ t)) :
    cutCharacter p b t = cutWhere p t := by
  induction t generalizing b with
  | nil => rfl
  | cons c t ih =>
      rw [cutCharacter, cutWhere, ih h.step]
      cases hc : p c with
      | false => rfl
      | true =>
          rw [h.before (hp c hc), h.after (hp c hc)]
          rfl

/-- The first of one mark. -/
theorem cutCharacter_mark {m : Char} (hm : isMark m = true) {t : Text} (h : Unglued t) :
    cutCharacter (· == m) none t = cutFirst m t := by
  have hp : ∀ c, (c == m) = true → isMark c = true := fun c hc => by
    rw [beq_iff_eq.mp hc]
    exact hm
  rw [cutCharacter_eq hp (b := none) h, cutWhere_beq]

theorem hasPrefix_eq {t needle : Text} {m : Char} (h : Unglued t) (hm : isMark m = true)
    (hneedle : needle.getLast? = some m) : hasPrefix t needle = needle.isPrefixOf t := by
  rw [hasPrefix]
  cases hstart : needle.isPrefixOf t with
  | false => rfl
  | true =>
      obtain ⟨rest, rfl⟩ := List.isPrefixOf_iff_prefix.mp hstart
      obtain ⟨init, rfl⟩ := List.getLast?_eq_some_iff.mp hneedle
      rw [List.append_assoc] at h
      rw [List.drop_left, Unglued.after (m := m) (t := rest) h hm]
      rfl

/-- A needle is found between two characters that do not join it. -/
theorem containsText_of_between {needle t : Text} {x y : Char} (hx : prepends x = false)
    (hy : combines y = false) (hne : needle ≠ []) (hheld : x :: (needle ++ [y]) <:+: t)
    (b : Option Char) : containsText needle b t = true := by
  induction t generalizing b with
  | nil => cases List.infix_nil.mp hheld
  | cons c t ih =>
      rw [containsText, Bool.or_eq_true]
      right
      rcases List.infix_cons_iff.mp hheld with ⟨rest, hrest⟩ | hlater
      · rw [List.cons_append, List.append_assoc] at hrest
        obtain ⟨rfl, rfl⟩ := List.cons.inj hrest
        have hstart : hasPrefix (needle ++ ([y] ++ rest)) needle = true := by
          rw [hasPrefix, List.isPrefixOf_iff_prefix.mpr (List.prefix_append _ _), List.drop_left]
          simp [hy]
        obtain ⟨d, needle', rfl⟩ := List.exists_cons_of_ne_nil hne
        rw [List.cons_append] at hstart ⊢
        rw [containsText, hstart, Option.any_some, hx]
        rfl
      · exact ih hlater (some c)

/-- What a room is divided from the next by. -/
def dividesRooms (c : Char) : Bool := c == ',' || isWhitespace c

theorem roomParts_eq {t : Text} (hline : ∀ c ∈ t, isNewline c = false) {b : Option Char}
    {inSpace : Bool} (h : Unglued (b.toList ++ t))
    (hin : inSpace = true → ∃ c, b = some c ∧ isMark c = true) :
    roomParts inSpace b t = t.splitOnP dividesRooms := by
  induction t generalizing b inSpace with
  | nil => rfl
  | cons c t ih =>
      have hrest : ∀ c ∈ t, isNewline c = false := fun d hd => hline d (List.mem_cons_of_mem c hd)
      have hjoin : (inSpace && combines c) = false := by
        cases inSpace with
        | false => rfl
        | true =>
            obtain ⟨x, rfl, hx⟩ := hin rfl
            exact (h x c ⟨[], t, rfl⟩).1 hx
      rw [roomParts, hjoin, if_neg Bool.false_ne_true, List.splitOnP_cons_eq_if_modifyHead]
      by_cases hspace : isWhitespace c = true
      · -- a tab joins nothing, and nothing joins another space
        have halone : (c == '\t' || !b.any prepends) = true ∧
            ((c != '\t') = true → ∃ d, some c = some d ∧ isMark d = true) := by
          by_cases htab : c = '\t'
          · rw [htab]
            exact ⟨rfl, fun hne => absurd hne (by decide)⟩
          · have hseparator : isSpaceSeparator c = true := by
              rw [isWhitespace, hline c (List.mem_cons_self ..), Bool.or_false, whitespaces,
                Bool.or_eq_true, beq_iff_eq] at hspace
              exact hspace.resolve_right htab
            have hmark : isMark c = true := by rw [isMark, hseparator, Bool.or_true]
            rw [h.before hmark]
            exact ⟨Bool.or_true _, fun _ => ⟨c, rfl, hmark⟩⟩
        have hdivides : dividesRooms c = true := by rw [dividesRooms, hspace, Bool.or_true]
        rw [hspace, halone.1, hdivides, Bool.and_self, if_pos rfl, if_pos rfl,
          ih hrest h.step halone.2]
      · rw [Bool.not_eq_true] at hspace
        rw [hspace, Bool.false_and, if_neg Bool.false_ne_true, ih hrest h.step (by simp)]
        by_cases hcomma : c = ','
        · subst hcomma
          rw [h.before rfl, h.after rfl,
            if_pos (show (',' == ',' && !false && !false) = true from rfl),
            if_pos (show dividesRooms ',' = true from rfl)]
        · have hdivides : dividesRooms c = false := by
            rw [dividesRooms, hspace, Bool.or_false, beq_eq_false_iff_ne]
            exact hcomma
          rw [hdivides, if_neg Bool.false_ne_true, if_neg (by simp [hcomma])]
          cases hparts : t.splitOnP dividesRooms with
          | nil => exact absurd hparts (List.splitOnP_ne_nil _ _)
          | cons part parts => rfl

theorem RoomList.splitRooms_eq {value : Text} (hline : ∀ c ∈ value, isNewline c = false)
    (h : Unglued value) : RoomList.splitRooms value = parts dividesRooms value := by
  rw [RoomList.splitRooms, parts, roomParts_eq hline (b := none) h (by simp)]

end

end Ghostlane.Phone
