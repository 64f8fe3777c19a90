import Ghostlane.App.Decoding
import Ghostlane.Desktop.ProxyTarget
import Ghostlane.Lib.Delimiter
import Ghostlane.Lib.Fields

/-!
# Ghostlane.App.PhoneImport

The form a television serves on the home network (`data/importer/PhoneImportServer.kt`): one client
at a time, its bytes read up to the first blank line and then as many as it said, and the link it
posted given to the app. `link_given_iff` says for every stream of bytes, however it ends, which
link that is; `posted_link_arrives` that the link a person typed is the one, whatever a browser
escaped of it.

The words of the page are a parameter, since nothing reads them. What a write to the client throws,
and what is read and thrown away behind a refusal, is left out: neither changes what was answered.
-/

namespace Ghostlane.App.PhoneImport

open Ghostlane.Lib Ghostlane.Desktop

/-! ### Reading -/

/-- What a client sends, and whether it then closes its side. If it does not, the next read waits
until the timeout. -/
structure Incoming where
  bytes : Bytes
  closes : Bool

inductive Read (α : Type)
  | got (value : α) (left : Incoming)
  /-- Null: the client closed its side, or sent too much. -/
  | short
  | timedOut

def maxHead : Nat := 8 * 1024
def maxBody : Int := 16 * 1024

/-- `end`: the blank line. -/
def headEnd : Bytes := [13, 10, 13, 10]

/-- `matched`, at the next byte. -/
def advance (matched : Nat) (b : UInt8) : Nat :=
  if headEnd[matched]? = some b then matched + 1 else if b = 13 then 1 else 0

/-- The loop of `readHead`, with room for so many bytes more. -/
def readHeadFrom (room matched : Nat) (bytes : Bytes) (input : Incoming) : Read Text :=
  match room, input with
  | 0, _ => .short
  | _, ⟨[], closes⟩ => if closes then .short else .timedOut
  | room + 1, ⟨b :: rest, closes⟩ =>
      if advance matched b = headEnd.length then
        .got (decodeToString ((bytes ++ [b]).map UInt8.toNat)) ⟨rest, closes⟩
      else readHeadFrom room (advance matched b) (bytes ++ [b]) ⟨rest, closes⟩

def readHead (input : Incoming) : Read Text := readHeadFrom maxHead 0 [] input

/-- `readExactly`, however many reads it takes. -/
def readExactly (input : Incoming) (length : Nat) : Read Bytes :=
  if length ≤ input.bytes.length then
    .got (input.bytes.take length) { input with bytes := input.bytes.drop length }
  else if input.closes then .short else .timedOut

def header (head name : Text) : Option Text :=
  (((lines head).drop 1).find? fun line => equalsWord (trim (substringBefore ':' line)) name).map
    fun line => trim (afterColon line)

/-- `URLDecoder.decode`, with the bytes of the run of escapes read so far. What is no escape throws.
The server runs on Android, and a run is decoded as Android does. -/
def decodeFrom (pending : List Nat) : Text → Option Text
  | [] => some (decodeToString pending)
  | '%' :: a :: b :: t =>
      match toIntOrNull 16 [a, b] with
      | some value => if value < 0 then none else decodeFrom (pending ++ [value.toNat]) t
      | none => none
  | '%' :: _ => none
  | c :: t => (decodeFrom [] t).map fun rest => decodeToString pending ++ blanked c :: rest

def formField (body name : Text) : Option Text :=
  ((splitAll (· == '&') body).find? fun part => substringBefore '=' part == name).bind fun part =>
    decodeFrom [] (((cut '=' part).map Prod.snd).getD [])

/-! ### Serving -/

/-- `PhoneImportPage`. -/
structure Page where
  form : (showEmpty : Bool) → Text
  sent : Text

structure Reply where
  status : Nat
  reason : Text
  html : Text
  deriving DecidableEq, Repr

/-- What a client is answered, if it is, and the link the app is given. -/
structure Served where
  reply : Option Reply := none
  link : Option Text := none
  deriving DecidableEq, Repr

def respond (status : Nat) (reason : String) (html : Text) : Served :=
  { reply := some ⟨status, reason.toList, html⟩ }

variable (token : Text) (page : Page)

/-- The body of a post, and what comes of it. -/
def servePost (head : Text) (input : Incoming) : Served :=
  match (header head (txt "content-length")).bind (toIntOrNull 10) with
  | none => respond 411 "Length Required" []
  | some length =>
      if length < 0 ∨ maxBody < length then respond 413 "Payload Too Large" []
      else match readExactly input length.toNat with
        | .timedOut => {}
        | .short => respond 400 "Bad Request" []
        | .got body _ =>
            let link :=
              ((formField (decodeToString (body.map UInt8.toNat)) (txt "link")).map trim).getD []
            if link = [] then respond 200 "OK" (page.form true)
            else { respond 200 "OK" page.sent with link := some link }

/-- What is answered to a request. -/
def serveHead (head : Text) (input : Incoming) : Served :=
  match splitAll (· == ' ') ((lines head).headD []) with
  | method :: target :: _ :: _ =>
      if substringBefore '?' target ≠ '/' :: token then respond 404 "Not Found" []
      else if method = txt "GET" then respond 200 "OK" (page.form false)
      else if method = txt "POST" then servePost page head input
      else respond 405 "Method Not Allowed" []
  | _ => respond 400 "Bad Request" []

def serve (input : Incoming) : Served :=
  match readHead input with
  | .timedOut => {}
  | .short => respond 400 "Bad Request" []
  | .got head left => serveHead token page head left

/-! ### The head -/

theorem advances_headEnd : Advances headEnd advance := by
  intro m hm b
  by_cases hb : b ∈ headEnd
  · have hboth : b = 13 ∨ b = 10 := by
      simp only [headEnd, List.mem_cons, List.not_mem_nil, or_false] at hb
      tauto
    have htable : ∀ m < 4, advance m 13 = overlap headEnd (headEnd.take m ++ [13]) ∧
        advance m 10 = overlap headEnd (headEnd.take m ++ [10]) := by
      decide
    rcases hboth with rfl | rfl
    · exact (htable m hm).1
    · exact (htable m hm).2
  · have hneither : b ≠ 13 ∧ headEnd[m]? ≠ some b := by
      refine ⟨?_, fun h => hb (List.mem_of_getElem? h)⟩
      rintro rfl
      exact hb (by decide)
    rw [overlap_concat_of_notMem hb, advance, if_neg hneither.2, if_neg hneither.1]

/-- The bytes of a head: they end in the first blank line, and there is room for them. -/
structure IsHead (bytes : Bytes) : Prop where
  room : bytes.length ≤ maxHead
  ends : headEnd <:+ bytes
  first : ∀ v, v <+: bytes → v ≠ bytes → ¬ headEnd <:+ v

theorem readHeadFrom_eq (room matched : Nat) (read bytes : Bytes) (closes : Bool) :
    readHeadFrom room matched read ⟨bytes, closes⟩ =
      match scanFor advance headEnd.length room matched bytes with
      | some (more, left) => .got (decodeToString ((read ++ more).map UInt8.toNat)) ⟨left, closes⟩
      | none => if bytes.length < room ∧ closes = false then .timedOut else .short := by
  induction room generalizing matched read bytes with
  | zero =>
      cases bytes <;> simp [readHeadFrom, scanFor]
  | succ room ih =>
      cases bytes with
      | nil => cases closes <;> simp [readHeadFrom, scanFor]
      | cons b rest =>
          rw [readHeadFrom, scanFor]
          by_cases hend : advance matched b = headEnd.length
          · rw [if_pos hend, if_pos hend]
          · rw [if_neg hend, if_neg hend, ih]
            cases scanFor advance headEnd.length room (advance matched b) rest with
            | none => simp
            | some found => simp

/-- **The head is read up to the first blank line.** -/
theorem readHead_eq_got_iff {input left : Incoming} {head : Text} :
    readHead input = .got head left ↔
      ∃ bytes, IsHead bytes ∧ input.bytes = bytes ++ left.bytes ∧ input.closes = left.closes ∧
        head = decodeToString (bytes.map UInt8.toNat) := by
  obtain ⟨bytes, closes⟩ := input
  obtain ⟨leftBytes, leftCloses⟩ := left
  have hscan := fun read left =>
    @scanFor_eq_some_iff _ _ headEnd _ advances_headEnd (by decide) maxHead bytes read left
  rw [readHead, readHeadFrom_eq]
  constructor
  · intro h
    cases hfound : scanFor advance headEnd.length maxHead 0 bytes with
    | none =>
        rw [hfound] at h
        dsimp only at h
        split at h <;> cases h
    | some found =>
        obtain ⟨read, left⟩ := found
        rw [hfound] at h
        obtain ⟨rfl, hleft⟩ := Read.got.inj h
        obtain ⟨rfl, rfl⟩ := Incoming.mk.inj hleft
        obtain ⟨hbytes, hroom, hends, hfirst⟩ := (hscan read left).mp hfound
        exact ⟨read, ⟨hroom, hends, hfirst⟩, hbytes, rfl, rfl⟩
  · rintro ⟨read, ⟨hroom, hends, hfirst⟩, hbytes, hcloses, rfl⟩
    dsimp only at hbytes hcloses
    rw [(hscan read leftBytes).mpr ⟨hbytes, hroom, hends, hfirst⟩, hcloses]
    rfl

/-! ### What is answered, and what the app is given -/

/-- The request line asks for the form, by this method. -/
def Asks (head method : Text) : Prop :=
  ∃ target version rest, splitAll (· == ' ') ((lines head).headD []) =
    method :: target :: version :: rest ∧
    substringBefore '?' target = '/' :: token

/-- The link in a form's fields; empty where there is none. -/
def postedLink (body : Bytes) : Text :=
  ((formField (decodeToString (body.map UInt8.toNat)) (txt "link")).map trim).getD []

variable {token page}

theorem readExactly_eq_got_iff {input left : Incoming} {length : Nat} {body : Bytes} :
    readExactly input length = .got body left ↔
      input.bytes = body ++ left.bytes ∧ body.length = length ∧ input.closes = left.closes := by
  obtain ⟨bytes, closes⟩ := input
  obtain ⟨leftBytes, leftCloses⟩ := left
  unfold readExactly
  constructor
  · intro h
    split at h
    · rename_i hlen
      obtain ⟨rfl, hleft⟩ := Read.got.inj h
      obtain ⟨rfl, rfl⟩ := Incoming.mk.inj hleft
      exact ⟨(List.take_append_drop _ _).symm, List.length_take_of_le hlen, rfl⟩
    · split at h <;> cases h
  · rintro ⟨hbytes, rfl, hcloses⟩
    dsimp only at hbytes hcloses
    subst hbytes hcloses
    simp

theorem servePost_link {head link : Text} {input : Incoming} :
    (servePost page head input).link = some link ↔
      ∃ body left, input.bytes = body ++ left ∧ (body.length : Int) ≤ maxBody ∧
        (header head (txt "content-length")).bind (toIntOrNull 10) = some (body.length : Int) ∧
        postedLink body = link ∧ link ≠ [] := by
  unfold servePost
  cases hlength : (header head (txt "content-length")).bind (toIntOrNull 10) with
  | none => simp [respond]
  | some length =>
      by_cases hrange : length < 0 ∨ maxBody < length
      · simp only [if_pos hrange, respond, reduceCtorEq, false_iff, not_exists, Option.some.injEq]
        rintro body left ⟨-, hmax, rfl, -⟩
        omega
      · simp only [if_neg hrange, Option.some.injEq]
        simp only [not_or, Int.not_lt] at hrange
        constructor
        · intro h
          split at h
          · cases h
          · cases h
          · rename_i body left hread
            obtain ⟨hbytes, hlen, -⟩ := readExactly_eq_got_iff.mp hread
            split at h
            · cases h
            · rename_i hlink
              exact ⟨body, left.bytes, hbytes, by omega, by omega, Option.some.inj h,
                fun hnil => hlink ((Option.some.inj h).trans hnil)⟩
        · rintro ⟨body, left, hbytes, hmax, rfl, hlink, hne⟩
          have hread : readExactly input (body.length : Int).toNat =
              .got body ⟨left, input.closes⟩ :=
            readExactly_eq_got_iff.mpr ⟨hbytes, by simp, rfl⟩
          rw [postedLink] at hlink
          rw [hread]
          dsimp only
          rw [hlink, if_neg hne]

theorem asks_iff {head method method' target version : Text} {rest : List Text}
    (hparts : splitAll (· == ' ') ((lines head).headD []) = method :: target :: version :: rest) :
    Asks token head method' ↔ method = method' ∧ substringBefore '?' target = '/' :: token := by
  simp only [Asks, hparts, List.cons.injEq]
  constructor
  · rintro ⟨_, _, _, ⟨rfl, rfl, rfl, rfl⟩, htarget⟩
    exact ⟨rfl, htarget⟩
  · rintro ⟨rfl, htarget⟩
    exact ⟨_, _, _, ⟨rfl, rfl, rfl, rfl⟩, htarget⟩

theorem serveHead_link {head link : Text} {input : Incoming} :
    (serveHead token page head input).link = some link ↔
      Asks token head (txt "POST") ∧ (servePost page head input).link = some link := by
  unfold serveHead
  split
  · rename_i method target version rest hparts
    rw [asks_iff hparts]
    by_cases htarget : substringBefore '?' target = '/' :: token
    · rw [if_neg (not_not.mpr htarget)]
      by_cases hget : method = txt "GET"
      · subst hget
        simp only [if_true, respond, reduceCtorEq, false_iff, not_and]
        intro hmethod
        exact absurd hmethod.1 (by decide)
      · rw [if_neg hget]
        by_cases hpost : method = txt "POST"
        · simp [hpost, htarget]
        · rw [if_neg hpost]
          simp [respond, hpost]
    · rw [if_pos htarget]
      simp [respond, htarget]
  · rename_i hparts
    simp only [respond, reduceCtorEq, false_iff, not_and]
    rintro ⟨target, version, rest, h, -⟩
    exact absurd h (hparts _ _ _ _)

/-- A value in a form's fields: a blank may be a plus sign, any character may be escaped, and those
that mean something there are. -/
inductive FormValue : Text → Text → Prop
  | nil : FormValue [] []
  | itself {c : Char} {t u : Text} (hc : c ∉ ['%', '+', '&']) (h : FormValue t u) :
      FormValue (c :: t) (c :: u)
  | blank {t u : Text} (h : FormValue t u) : FormValue (' ' :: t) ('+' :: u)
  | escaped {c : Char} {t e u : Text} (he : Escaped (String.utf8EncodeChar c) e)
      (h : FormValue t u) :
      FormValue (c :: t) (e ++ u)

theorem decodeFrom_escaped {bs : Bytes} {e : Text} (he : Escaped bs e) (pending : List Nat)
    (u : Text) :
    decodeFrom pending (e ++ u) = decodeFrom (pending ++ bs.map UInt8.toNat) u := by
  induction he generalizing pending with
  | nil => rw [List.map_nil, List.append_nil, List.nil_append]
  | @cons b bs high low t hhigh hlow h ih =>
      have hb := b.toNat_lt
      have hbyte : b.toNat / 16 * 16 + b.toNat % 16 = b.toNat := by omega
      rw [List.cons_append, List.cons_append, List.cons_append, decodeFrom,
        toIntOrNull_hex_pair (by omega) (by omega) hhigh hlow]
      dsimp only
      rw [if_neg (by omega), hbyte, Int.toNat_natCast, ih, List.map_cons, List.append_assoc,
        List.singleton_append]

theorem decodeFrom_raw {c : Char} (hc : c ≠ '%') (pending : List Nat) (t : Text) :
    decodeFrom pending (c :: t) =
      (decodeFrom [] t).map fun rest => decodeToString pending ++ blanked c :: rest := by
  rw [decodeFrom.eq_def]
  split
  · rename_i heq
    cases heq
  · rename_i heq
    exact absurd (List.cons.inj heq).1 hc
  · rename_i heq
    exact absurd (List.cons.inj heq).1 hc
  · rename_i heq
    cases heq
    rfl

/-- A value is read back. -/
theorem decodeFrom_formValue {t u : Text} (h : FormValue t u) (read : Text) :
    decodeFrom ((utf8 read).map UInt8.toNat) u = some (read ++ t) := by
  induction h generalizing read with
  | nil => rw [decodeFrom, decodeToString_utf8, List.append_nil]
  | @itself c t u hc h ih =>
      have hrest := ih []
      simp only [List.mem_cons, List.not_mem_nil, or_false, not_or] at hc
      rw [decodeFrom_raw hc.1, decodeToString_utf8, blanked, if_neg hc.2.1]
      rw [show (utf8 ([] : Text)).map UInt8.toNat = [] from rfl] at hrest
      rw [hrest]
      rfl
  | @blank t u h ih =>
      have hrest := ih []
      rw [decodeFrom_raw (by decide), decodeToString_utf8]
      rw [show (utf8 ([] : Text)).map UInt8.toNat = [] from rfl] at hrest
      rw [hrest]
      rfl
  | @escaped c t e u he h ih =>
      have hrest := ih (read ++ [c])
      rw [utf8, List.flatMap_append, List.map_append, List.flatMap_singleton] at hrest
      rw [decodeFrom_escaped he, utf8, hrest, List.append_assoc, List.singleton_append]

theorem ampersand_notMem {t u : Text} (h : FormValue t u) : '&' ∉ u := by
  induction h with
  | nil => exact List.not_mem_nil
  | itself hc h ih =>
      simp only [List.mem_cons, List.not_mem_nil, or_false, not_or] at hc
      exact List.not_mem_cons_of_ne_of_not_mem (Ne.symm hc.2.2) ih
  | blank h ih => exact List.not_mem_cons_of_ne_of_not_mem (by decide) ih
  | escaped he h ih =>
      rw [List.mem_append, not_or]
      exact ⟨not_mem_escaped he (by decide), ih⟩

theorem formField_link {link value : Text} (h : FormValue link value) :
    formField (txt "link=" ++ value) (txt "link") = some link := by
  have hfree : ∀ c ∈ txt "link=" ++ value, (c == '&') = false := by
    intro c hc
    rw [beq_eq_false_iff_ne]
    rintro rfl
    rcases List.mem_append.mp hc with hc | hc
    · exact absurd hc (by decide)
    · exact ampersand_notMem h hc
  have hcut : cut '=' (txt "link=" ++ value) = some (txt "link", value) := by
    exact @cut_append '=' (txt "link") (by decide) value
  have hname : substringBefore '=' (txt "link=" ++ value) = txt "link" := by
    rfl
  have hread := decodeFrom_formValue h []
  rw [formField, splitAll_of_free hfree, List.find?_singleton, hname, beq_self_eq_true, if_pos rfl,
    Option.bind_some, hcut]
  exact hread

/-! ### A head as it is written -/

def crlf : Text := ['\r', '\n']

/-- Lines with something on them, and the blank one. -/
def headOf (ls : List Text) : Text := Desktop.printed crlf ls ++ crlf

theorem lines_headOf {ls : List Text} (hls : ∀ line ∈ ls, OneLine line) :
    lines (headOf ls) = ls ++ [[], []] := by
  have hblank : headOf ls = Desktop.printed crlf (ls ++ [[]]) := by simp [headOf, Desktop.printed]
  have hone : ∀ line ∈ ls ++ [[]], OneLine line := by
    intro line hline
    rcases List.mem_append.mp hline with hline | hline
    · exact hls line hline
    · rw [List.mem_singleton.mp hline]
      exact fun c hc => absurd hc List.not_mem_nil
  rw [hblank, Desktop.lines_printed crlf (fun t u ht => lines_append_crlf ht u) _ hone,
    List.append_assoc]
  rfl

theorem advance_plain {b : UInt8} (hb : b ≠ 13 ∧ b ≠ 10) (matched : Nat) :
    advance matched b = 0 := by
  have hneither : headEnd[matched]? ≠ some b := by
    intro h
    have hmem := List.mem_of_getElem? h
    simp only [headEnd, List.mem_cons, List.not_mem_nil, or_false] at hmem
    tauto
  rw [advance, if_neg hneither, if_neg hb.1]

/-- A line with something on it leaves nothing matched but its own end. -/
theorem readHeadFrom_line {line : Bytes} (hline : ∀ b ∈ line, b ≠ 13 ∧ b ≠ 10) (hne : line ≠ [])
    (room matched : Nat) (read rest : Bytes) (closes : Bool) :
    readHeadFrom (room + (line.length + 2)) matched read ⟨line ++ 13 :: 10 :: rest, closes⟩ =
      readHeadFrom room 2 (read ++ (line ++ [13, 10])) ⟨rest, closes⟩ := by
  induction line generalizing matched read with
  | nil => exact absurd rfl hne
  | cons b line ih =>
      obtain ⟨hb, hrest⟩ := List.forall_mem_cons.mp hline
      have hroom : room + ((b :: line).length + 2) = (room + (line.length + 2)) + 1 := by
        rw [List.length_cons]
        omega
      rw [hroom, List.cons_append, readHeadFrom, advance_plain hb, if_neg (by decide)]
      by_cases hlast : line = []
      · subst hlast
        rw [List.length_nil, Nat.zero_add, List.nil_append, readHeadFrom, if_neg (by decide),
          readHeadFrom, if_neg (by decide)]
        simp [advance, headEnd]
      · rw [ih hrest hlast]
        simp

/-- Lines of a head: each has something on it. -/
def Shown (ls : List Text) : Prop := ∀ line ∈ ls, line ≠ [] ∧ OneLine line

theorem plain_utf8 {line : Text} (hline : OneLine line) : ∀ b ∈ utf8 line, b ≠ 13 ∧ b ≠ 10 := by
  intro b hb
  constructor
  · rintro rfl
    exact (hline '\r' ((byte_mem_utf8 (by decide)).mp hb)).2 rfl
  · rintro rfl
    exact (hline '\n' ((byte_mem_utf8 (by decide)).mp hb)).1 rfl

theorem utf8_ne_nil {t : Text} (h : t ≠ []) : utf8 t ≠ [] := by
  cases t with
  | nil => exact absurd rfl h
  | cons c t => simp [utf8_cons]

theorem readHeadFrom_lines {ls : List Text} (hls : Shown ls) (room matched : Nat)
    (read rest : Bytes) (closes : Bool) :
    readHeadFrom (room + (utf8 (Desktop.printed crlf ls)).length) matched read
        ⟨utf8 (Desktop.printed crlf ls) ++ rest, closes⟩ =
      readHeadFrom room (if ls = [] then matched else 2) (read ++ utf8 (Desktop.printed crlf ls))
        ⟨rest, closes⟩ := by
  induction ls generalizing matched read with
  | nil => simp [Desktop.printed, utf8]
  | cons line ls ih =>
      obtain ⟨⟨hne, hone⟩, hrest⟩ := List.forall_mem_cons.mp hls
      have hbytes : utf8 (Desktop.printed crlf (line :: ls)) =
          utf8 line ++ 13 :: 10 :: utf8 (Desktop.printed crlf ls) := by
        rw [Desktop.printed, List.flatMap_cons, utf8_append, utf8_append, List.append_assoc]
        rfl
      have hroom : room + (utf8 line ++ 13 :: 10 :: utf8 (Desktop.printed crlf ls)).length =
          (room + (utf8 (Desktop.printed crlf ls)).length) + ((utf8 line).length + 2) := by
        simp only [List.length_append, List.length_cons]
        omega
      rw [hbytes, hroom, List.append_assoc, List.cons_append, List.cons_append,
        readHeadFrom_line (plain_utf8 hone) (utf8_ne_nil hne), ih hrest, ite_self, if_neg (by simp)]
      simp

/-- A head as it is written is read whole, and nothing behind it. -/
theorem readHead_headOf {ls : List Text} (hls : Shown ls) (hne : ls ≠ [])
    (hlen : (utf8 (headOf ls)).length ≤ maxHead) (rest : Bytes) (closes : Bool) :
    readHead ⟨utf8 (headOf ls) ++ rest, closes⟩ = .got (headOf ls) ⟨rest, closes⟩ := by
  have hbytes : utf8 (headOf ls) = utf8 (Desktop.printed crlf ls) ++ [13, 10] := by
    rw [headOf, utf8_append]
    rfl
  have hdecoded : decodeToString ((utf8 (Desktop.printed crlf ls) ++ [13, 10]).map UInt8.toNat) =
      headOf ls := by
    rw [← hbytes, decodeToString_utf8]
  obtain ⟨room, hroom⟩ :
      ∃ room, maxHead = (room + 2) + (utf8 (Desktop.printed crlf ls)).length := by
    rw [hbytes, List.length_append] at hlen
    exact ⟨maxHead - (utf8 (Desktop.printed crlf ls)).length - 2, by simp at hlen; omega⟩
  rw [readHead, hroom, hbytes, List.append_assoc, readHeadFrom_lines hls, if_neg hne,
    List.nil_append, List.cons_append, List.cons_append, List.nil_append, readHeadFrom,
      if_neg (by decide), readHeadFrom,
    if_pos (by decide)]
  rw [List.append_assoc, List.singleton_append, hdecoded]

/-- A form with a link in it, as a browser posts it to the page it was on. -/
structure FormPost (token link : Text) where
  target : Text
  version : Text
  before : List Text
  name : Text
  length : Text
  after : List Text
  value : Text
  target_path : substringBefore '?' target = '/' :: token
  target_free : ' ' ∉ target
  shown : Shown ((txt "POST " ++ (target ++ ' ' :: version)) ::
    (before ++ (name ++ ':' :: length) :: after))
  before_other : ∀ line ∈ before,
    equalsWord (trim (substringBefore ':' line)) (txt "content-length") = false
  name_free : ':' ∉ name
  name_length : equalsWord (trim name) (txt "content-length") = true
  formValue : FormValue link value
  length_value : trim length = decimal (utf8 (txt "link=" ++ value)).length

variable {token link : Text}

def FormPost.lines (post : FormPost token link) : List Text :=
  (txt "POST " ++ (post.target ++ ' ' :: post.version)) ::
    (post.before ++ (post.name ++ ':' :: post.length) :: post.after)

def FormPost.head (post : FormPost token link) : Bytes := utf8 (headOf post.lines)

def FormPost.body (post : FormPost token link) : Bytes := utf8 (txt "link=" ++ post.value)

theorem FormPost.lines_head (post : FormPost token link) :
    App.lines (headOf post.lines) = post.lines ++ [[], []] :=
  lines_headOf fun line hline => (post.shown line hline).2

theorem FormPost.asks (post : FormPost token link) :
    Asks token (headOf post.lines) (txt "POST") := by
  have hblank : ∀ {t : Text}, ' ' ∉ t → ∀ c ∈ t, (c == ' ') = false := by
    rintro t ht c hc
    rw [beq_eq_false_iff_ne]
    rintro rfl
    exact ht hc
  have hparts : splitAll (· == ' ') (txt "POST " ++ (post.target ++ ' ' :: post.version)) =
      txt "POST" :: post.target :: splitAll (· == ' ') post.version := by
    have hmethod :=
      splitAll_append (p := (· == ' ')) (hblank (by decide : ' ' ∉ txt "POST")) (c := ' ') rfl
      (post.target ++ ' ' :: post.version)
    have htarget :=
      splitAll_append (p := (· == ' ')) (hblank post.target_free) (c := ' ') rfl post.version
    rw [htarget] at hmethod
    exact hmethod
  cases hversion : splitAll (· == ' ') post.version with
  | nil =>
      rw [splitAll_eq_splitOnP] at hversion
      exact absurd hversion (List.splitOnP_ne_nil _ _)
  | cons version rest =>
      refine ⟨post.target, version, rest, ?_, post.target_path⟩
      rw [post.lines_head, ← hversion, ← hparts]
      rfl

theorem FormPost.contentLength (post : FormPost token link)
    (hmax : (post.body.length : Int) ≤ maxBody) :
    (header (headOf post.lines) (txt "content-length")).bind (toIntOrNull 10) =
      some (post.body.length : Int) := by
  have hbefore : post.before.find? (fun line => equalsWord (trim (substringBefore ':' line))
      (txt "content-length")) = none := by
    rw [List.find?_eq_none]
    intro line hline
    rw [post.before_other line hline]
    exact Bool.false_ne_true
  have hname : substringBefore ':' (post.name ++ ':' :: post.length) = post.name := by
    have hkept : ∀ c ∈ post.name, (c != ':') = true := by
      intro c hc
      rw [bne_iff_ne]
      rintro rfl
      exact post.name_free hc
    rw [substringBefore, List.takeWhile_append_of_pos hkept, List.takeWhile_cons_of_neg (by simp),
      List.append_nil]
  have hafter : afterColon (post.name ++ ':' :: post.length) = post.length := by
    rw [afterColon, cut_append post.name_free]
    rfl
  have hlines : (App.lines (headOf post.lines)).drop 1 =
      post.before ++ ((post.name ++ ':' :: post.length) :: (post.after ++ [[], []])) := by
    rw [post.lines_head]
    simp [FormPost.lines]
  rw [header, hlines, List.find?_append, hbefore, Option.none_or, List.find?_cons_of_pos,
    Option.map_some, Option.bind_some, hafter, post.length_value]
  · have hsmall : post.body.length < 0x80000000 := by
      unfold maxBody at hmax
      omega
    exact toIntOrNull_toDigits hsmall
  · rw [hname]
    exact post.name_length

/-- **What a person types arrives.** Of a form that a browser posts, whatever it escaped of the link
and whatever other headers it sent, the app is given the link as it was typed, less the blanks
around it. -/
theorem posted_link_arrives (post : FormPost token link) (hhead : post.head.length ≤ maxHead)
    (hbody : (post.body.length : Int) ≤ maxBody) (hlink : trim link ≠ []) (left : Bytes)
    (closes : Bool) :
    serve token page ⟨post.head ++ (post.body ++ left), closes⟩ =
      { respond 200 "OK" page.sent with link := some (trim link) } := by
  have hread : readHead ⟨post.head ++ (post.body ++ left), closes⟩ =
      .got (headOf post.lines) ⟨post.body ++ left, closes⟩ :=
    readHead_headOf post.shown (List.cons_ne_nil _ _) hhead (post.body ++ left) closes
  have hbytes : readExactly ⟨post.body ++ left, closes⟩ (post.body.length : Int).toNat =
      .got post.body ⟨left, closes⟩ := readExactly_eq_got_iff.mpr ⟨rfl, rfl, rfl⟩
  have hfield : formField (decodeToString (post.body.map UInt8.toNat)) (txt "link") =
      some link := by
    rw [FormPost.body, decodeToString_utf8]
    exact formField_link post.formValue
  have hserved : servePost page (headOf post.lines) ⟨post.body ++ left, closes⟩ =
      { respond 200 "OK" page.sent with link := some (trim link) } := by
    rw [servePost, post.contentLength hbody]
    dsimp only
    rw [if_neg (by omega), hbytes]
    dsimp only
    rw [hfield, Option.map_some, Option.getD_some, if_neg hlink]
  obtain ⟨target, version, rest, hparts, htarget⟩ := post.asks
  rw [serve, hread]
  dsimp only
  rw [serveHead, hparts]
  dsimp only
  rw [if_neg (not_not.mpr htarget), if_neg (by decide), if_pos rfl, hserved]

/-- A page without words. -/
def plainPage : Page := ⟨fun _ => txt "form", txt "sent"⟩

/-- A form with a blank in front of what was typed. -/
def typedPost : FormPost (txt "5e1f") (txt " a:b") where
  target := txt "/5e1f"
  version := txt "HTTP/1.1"
  before := [txt "Host: 192.168.1.20:41233"]
  name := txt "Content-Length"
  length := txt " 11"
  after := [txt "Origin: null"]
  value := txt "+a%3Ab"
  target_path := by decide
  target_free := by decide
  shown := by
    intro line hline
    simp only [List.cons_append, List.nil_append, List.mem_cons, List.not_mem_nil,
      or_false] at hline
    rcases hline with rfl | rfl | rfl | rfl <;> exact ⟨by decide, by unfold OneLine; decide⟩
  before_other := by decide
  name_free := by decide
  name_length := by decide
  formValue := .blank (.itself (by decide) (.escaped (e := txt "%3A")
    (.cons ⟨by decide, by decide⟩ ⟨by decide, by decide⟩ .nil) (.itself (by decide) .nil)))
  length_value := by decide

theorem posted_link_arrives_typed :
    (serve (txt "5e1f") plainPage ⟨typedPost.head ++ (typedPost.body ++ []), false⟩).link =
      some (txt "a:b") := by
  rw [@posted_link_arrives plainPage _ _ typedPost (by decide) (by decide) (by decide) [] false]
  decide

end Ghostlane.App.PhoneImport
