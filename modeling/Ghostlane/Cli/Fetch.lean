import Ghostlane.Cli.Strings
import Ghostlane.Lib.Base64

/-!
# Ghostlane.Cli.Fetch

What a list host's answer says (`internal/links/fetch.go`, and `ParseHeaders` of
`list.go`): the headers, and whether it refused this device. A title and a refusal's
sentence go to a terminal, so they are put on one line first (`oneLine_clean`).
-/

namespace Ghostlane.Cli.Fetch

open Ghostlane.Lib Ghostlane.Lib.Bytes

/-- The first value of a header, empty where there is none: `http.Header.Get`. -/
abbrev HttpHeader := Text → Bytes

/-- How much of a host's sentence and of a list's title is shown. -/
def announceMax : Nat := 200
def titleMax : Nat := 200
/-- 4 MiB of a body are read. -/
def maxBody : Nat := 4194304

/-! ### One line of text -/

/-- `unicode.IsControl`: C0, DEL and C1. -/
def isControl (c : Char) : Bool := c.toNat < 0x20 || (0x7F ≤ c.toNat && c.toNat ≤ 0x9F)

/-- The format characters that turn the text after them around. -/
def directional (c : Char) : Bool :=
  let n := c.toNat
  (0x202A ≤ n && n ≤ 0x202E) || (0x2066 ≤ n && n ≤ 0x2069) ||
    n == 0x200E || n == 0x200F || n == 0x061C || n == 0xFEFF

/-- The loop of `oneLine`: what is read so far, and whether a gap is open. -/
def oneLineFrom (limit : Nat) : (out : Text) → (gap : Bool) → Text → Text
  | out, _, [] => out
  | out, gap, r :: rs =>
      if directional r then oneLineFrom limit out gap rs
      else if isSpace r || isControl r then oneLineFrom limit out (0 < out.length) rs
      else
        let out := (if gap then out ++ [' '] else out) ++ [r]
        if limit < out.length then out else oneLineFrom limit out false rs

def oneLine (s : Text) (limit : Nat) : Text :=
  ((oneLineFrom limit [] false s).take limit).rdropWhile (· == ' ')

/-! ### Headers -/

structure UserInfo where
  upload : Int := 0
  download : Int := 0
  total : Int := 0
  expire : Int := 0
  deriving DecidableEq, Repr

/-- How a host turned this device away. -/
inductive Refusal
  | none
  | limit
  | noDevice
  deriving DecidableEq, Repr

structure Headers where
  title : Text := []
  updateIntervalHours : Int := 24
  userInfo : Option UserInfo := none
  supportURL : Bytes := []
  webPageURL : Bytes := []
  announce : Bytes := []
  refusal : Refusal := .none
  deriving DecidableEq, Repr

/-- The decoders, in the order a list's text is tried with. -/
def encodings : List Base64 :=
  [⟨.std, true⟩, ⟨.std, false⟩, ⟨.url, true⟩, ⟨.url, false⟩]

/-- Base64 of UTF-8. -/
def tryBase64 (s : Bytes) : Option Bytes :=
  if s = [] then none else encodings.findSome? fun e => (e.decode s).filter Strings.valid

/-- What follows `base64:`, in any case. -/
def cutBase64Prefix (v : Bytes) : Option Bytes :=
  if 7 ≤ v.length ∧ Strings.equalFold (v.take 7) (txt "base64:") then some (v.drop 7) else none

def maybeBase64 (v : Bytes) : Bytes :=
  let v := Strings.trimSpace v
  match (cutBase64Prefix v).bind fun rest => tryBase64 (Strings.trimSpace rest) with
  | some d => Strings.trimSpace d
  | none => v

/-- A header the platform sets to true. -/
def flagTrue (h : HttpHeader) (name : Text) : Bool :=
  Strings.equalFold (Strings.trimSpace (h name)) (txt "true")

/-- One part of the usage header. -/
def UserInfo.read (info : UserInfo) (part : Bytes) : UserInfo :=
  let part := Strings.trimSpace part
  match Strings.atoi (Strings.trimSpace (after (byte '=') part)) with
  | none => info
  | some n =>
      let key := Strings.trimSpace (before (byte '=') part)
      if Strings.lowersTo key (txt "upload") then { info with upload := n }
      else if Strings.lowersTo key (txt "download") then { info with download := n }
      else if Strings.lowersTo key (txt "total") then { info with total := n }
      else if Strings.lowersTo key (txt "expire") then { info with expire := n }
      else info

/-- The interval a host asks for, in hours; a day where it asks for none. -/
def updateInterval (v : Bytes) : Int :=
  match Strings.atoi (Strings.trimSpace v) with
  | some n => if 0 < n then n else 24
  | none => 24

def parseHeaders (h : HttpHeader) : Headers :=
  let ui := Strings.trimSpace (h (txt "Subscription-Userinfo"))
  { title := oneLine (Strings.chars (maybeBase64 (h (txt "Profile-Title")))) titleMax
    updateIntervalHours := updateInterval (h (txt "Profile-Update-Interval"))
    userInfo := if ui = [] then none else some ((ui.splitOn (byte ';')).foldl .read {})
    supportURL := Strings.trimSpace (h (txt "Support-Url"))
    webPageURL := Strings.trimSpace (h (txt "Profile-Web-Page-Url"))
    announce := maybeBase64 (h (txt "Announce"))
    refusal :=
      if flagTrue h (txt "X-Hwid-Max-Devices-Reached") then .limit
      else if flagTrue h (txt "X-Hwid-Not-Supported") then .noDevice
      else .none }

/-- An interval that is kept is positive. -/
theorem updateInterval_pos (v : Bytes) : 0 < updateInterval v := by
  unfold updateInterval
  split
  · split
    · assumption
    · decide
  · decide

/-! ### Refusals -/

/-- The sentence of a refusal as it may be shown. -/
def announceText (s : Bytes) : Text :=
  let s := Strings.trimSpace s
  if s = ascii "0" ∨ Strings.valid s = false then []
  else if (cutBase64Prefix s).isSome then []
  else oneLine (Strings.chars s) announceMax

/-- What to tell about a refusal: the host's own sentence, else ours. -/
def refusalText (kind : Refusal) (announce : Bytes) : Text :=
  let s := announceText announce
  if s ≠ [] then s
  else if kind = .noDevice then
    txt "The provider could not read this device's id. Refresh the list; if it stays so, ask your provider."
  else txt "This list has no place for this device. Ask your provider."

/-! ### An answer -/

/-- What a host answers: its status, its headers and its body. -/
structure HttpAnswer where
  status : Nat
  header : HttpHeader
  body : Bytes

inductive FetchError
  /-- `list: HTTP 404`. -/
  | http (status : Nat)
  | tooLong
  deriving DecidableEq, Repr

/-- What `Fetch` makes of an answer. -/
inductive Fetched
  | list (body : Bytes) (headers : Headers)
  /-- `ErrDeviceRefused`, with the headers that came along. -/
  | refused (headers : Headers)
  | failed (why : FetchError)

/-- `Fetch`, once the host answered. -/
def fetch (a : HttpAnswer) : Fetched :=
  if a.status < 200 ∨ 299 < a.status then .failed (.http a.status)
  else
    let headers := parseHeaders a.header
    if headers.refusal ≠ .none then
      .refused { headers with announce := utf8 (announceText headers.announce) }
    else if a.status ≠ 200 then .failed (.http a.status)
    else if maxBody < a.body.length then .failed .tooLong
    else .list a.body headers

/-! ### What is put on one line -/

/-- A character that neither drives a terminal nor turns its text around. -/
def clean (c : Char) : Bool := !isControl c && !directional c

theorem oneLineFrom_clean {limit : Nat} {out s : Text} {gap : Bool}
    (h : ∀ c ∈ out, clean c = true) :
    ∀ c ∈ oneLineFrom limit out gap s, clean c = true := by
  induction s generalizing out gap with
  | nil => exact h
  | cons r rs ih =>
      unfold oneLineFrom
      split
      · exact ih h
      · rename_i hdirectional
        split
        · exact ih h
        · rename_i hblank
          have hr : clean r = true := by
            simp only [Bool.or_eq_true, not_or, Bool.not_eq_true] at hblank
            rw [Bool.not_eq_true] at hdirectional
            rw [clean, hblank.2, hdirectional]
            rfl
          have hout : ∀ c ∈ (if gap then out ++ [' '] else out) ++ [r], clean c = true := by
            intro c hc
            rcases List.mem_append.mp hc with hc | hc
            · cases gap with
              | false => exact h c hc
              | true =>
                  rcases List.mem_append.mp hc with hc | hc
                  · exact h c hc
                  · rw [List.mem_singleton.mp hc]
                    decide
            · rw [List.mem_singleton.mp hc]
              exact hr
          dsimp only
          generalize (if gap then out ++ [' '] else out) ++ [r] = new at hout ⊢
          split
          · exact hout
          · exact ih hout

/-- **What is put on one line drives nothing.** -/
theorem oneLine_clean (s : Text) (limit : Nat) : ∀ c ∈ oneLine s limit, clean c = true := by
  intro c hc
  have htake := (List.rdropWhile_prefix _ _).subset hc
  exact oneLineFrom_clean (List.forall_mem_nil _) c (List.mem_of_mem_take htake)

theorem announceText_clean (s : Bytes) : ∀ c ∈ announceText s, clean c = true := by
  unfold announceText
  dsimp only
  split
  · exact List.forall_mem_nil _
  · split
    · exact List.forall_mem_nil _
    · exact oneLine_clean _ _

theorem refusalText_clean (kind : Refusal) (announce : Bytes) :
    ∀ c ∈ refusalText kind announce, clean c = true := by
  unfold refusalText
  dsimp only
  by_cases hsaid : announceText announce = []
  · rw [if_neg (not_not.mpr hsaid)]
    split <;> decide
  · rw [if_pos hsaid]
    exact announceText_clean announce

end Ghostlane.Cli.Fetch
