import Ghostlane.App.Strings
import Ghostlane.Lib.Commands

/-!
# Ghostlane.Desktop.ProxyTarget

What the system proxy is switched on with, and what the controllers of both platforms read the
settings with (`vpn/desktop/DesktopProxyController.kt`): the lines that a program prints.
-/

namespace Ghostlane.Desktop

open Ghostlane.Lib App

/-- Where system traffic should be sent. -/
structure DesktopProxyTarget where
  pacUrl : Text
  socksHost : Text
  socksPort : Int
  username : Text := []
  password : Text := []

/-- A call of a controller, and which of its commands fail for reasons of their own. -/
inductive ProxyCall
  | enable (target : DesktopProxyTarget) (faults : Nat → Bool)
  | restore (faults : Nat → Bool)

/-- None of the commands. -/
def faultless : Nat → Bool := fun _ => false

/-- A character of a word of ASCII, in either case. `ſ` is an `s` there. -/
def sameLetter (a b : Char) : Bool :=
  a.toLower == b.toLower || (a.toNat == 0x17F && b.toLower == 's')

/-- `startsWith(word, ignoreCase = true)`. -/
def startsWithWord : (t word : Text) → Bool
  | _, [] => true
  | [], _ => false
  | c :: t, d :: word => sameLetter c d && startsWithWord t word

/-- `equals(word, ignoreCase = true)`. -/
def equalsWord (t word : Text) : Bool := t.length == word.length && startsWithWord t word

/-- `substringAfter(':')`. -/
def afterColon (t : Text) : Text := ((cut ':' t).map Prod.snd).getD t

/-- Lines as a program prints them. -/
def printed (ending : Text) (ls : List Text) : Text := ls.flatMap (· ++ ending)

/-- What is printed is read line by line, and nothing behind the last. -/
theorem lines_printed (ending : Text)
    (h : ∀ t u, OneLine t → lines (t ++ (ending ++ u)) = t :: lines u) (ls : List Text)
    (hls : ∀ t ∈ ls, OneLine t) : lines (printed ending ls) = ls ++ [[]] := by
  induction ls with
  | nil => rfl
  | cons t ls ih =>
      obtain ⟨ht, hls⟩ := List.forall_mem_cons.mp hls
      have hrest := ih hls
      rw [printed] at hrest ⊢
      rw [List.flatMap_cons, List.append_assoc, h t _ ht, hrest]
      rfl

end Ghostlane.Desktop
