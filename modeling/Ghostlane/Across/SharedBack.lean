import Ghostlane.App.Naming
import Ghostlane.App.Normal
import Ghostlane.Across.SharedRooms

/-!
# Ghostlane.Across.SharedBack

A room that one phone shares and another reads: `parseOlcRtcUri` of `olcRtcUri`. Of the five
marks a link is cut at, the first two cannot stand in what is written before them (a carrier
and a transport are names the app knows), the room must be free of the third, the key of the
last two, and the name may hold any: nothing is cut after it begins.
-/

namespace Ghostlane.Across

open Ghostlane.Lib App.ConfigShareService

/-! ### The options of a transport -/

theorem intText_of_nonneg {n : Int} (h : 0 ≤ n) : App.intText n = Nat.toDigits 10 n.toNat := by
  rw [App.intText, if_neg (by omega)]
  congr 1
  omega

/-- A number within 31 bits is read as it was written. -/
theorem toIntOrNull_intText {n : Int} (hlow : 0 ≤ n) (hhigh : n < 0x80000000) :
    App.toIntOrNull 10 (App.trim (App.intText n)) = some n := by
  rw [intText_of_nonneg hlow]
  have htrim : App.trim (Nat.toDigits 10 n.toNat) = Nat.toDigits 10 n.toNat := by
    refine trimBy_of_forall fun c hc => ?_
    exact App.isWhitespace_of_digit (Nat.isDigit_of_mem_toDigits (by decide) (by decide) hc)
  rw [htrim, App.toIntOrNull_toDigits (by omega)]
  congr 1
  omega

theorem intText_free {n : Int} (h : 0 ≤ n) {c : Char} (hc : c.isDigit = false) :
    c ∉ App.intText n := by
  intro hmem
  rw [intText_of_nonneg h] at hmem
  rw [Nat.isDigit_of_mem_toDigits (by decide) (by decide) hmem] at hc
  cases hc

/-- What an option is read as. -/
def readOption (part : Text) : Option (Text × Int) := do
  let (key, value) ← App.cut '=' part
  if key = [] then none
  return (App.lowercase (App.trim key), ← App.toIntOrNull 10 (App.trim value))

theorem readOption_written {key : Text} (hfree : '=' ∉ key) (hne : key ≠ []) {n : Int}
    (hlow : 0 ≤ n) (hhigh : n < 0x80000000) :
    readOption (key ++ '=' :: App.intText n) = some (App.lowercase (App.trim key), n) := by
  rw [readOption, App.cut_append hfree]
  simp only [Option.bind_eq_bind, Option.bind_some, if_neg hne, toIntOrNull_intText hlow hhigh]
  rfl

/-- **The token of a vp8 room** says its transport and both its options. -/
theorem parseTransportToken_vp8 {fps batch : Int} (hfps : 0 ≤ fps ∧ fps < 0x80000000)
    (hbatch : 0 ≤ batch ∧ batch < 0x80000000) :
    App.parseTransportToken (txt "vp8channel<vp8-fps=" ++ App.intText fps ++ txt "&vp8-batch=" ++
      App.intText batch ++ txt ">") =
      (App.transportVp8Channel, [(txt "vp8-fps", fps), (txt "vp8-batch", batch)]) := by
  have hcut : App.cut '<' (txt "vp8channel<vp8-fps=" ++ App.intText fps ++ txt "&vp8-batch=" ++
      App.intText batch ++ txt ">") = some (txt "vp8channel",
        (txt "vp8-fps" ++ '=' :: App.intText fps) ++ '&' :: (txt "vp8-batch" ++ '=' ::
          App.intText batch) ++ ['>']) := by
    have hshape : txt "vp8channel<vp8-fps=" ++ App.intText fps ++ txt "&vp8-batch=" ++
        App.intText batch ++ txt ">" = txt "vp8channel" ++ '<' :: ((txt "vp8-fps" ++ '=' ::
          App.intText fps) ++ '&' :: (txt "vp8-batch" ++ '=' :: App.intText batch) ++ ['>']) := by
      simp [txt]
    rw [hshape]
    exact App.cut_append (by decide) _
  have hfree : ∀ (key : Text) (n : Int), (∀ c ∈ key, (c == '&') = false) → 0 ≤ n →
      ∀ c ∈ key ++ '=' :: App.intText n, (c == '&') = false := by
    intro key n hkey hn c hc
    rcases List.mem_append.mp hc with hc | hc
    · exact hkey c hc
    · rw [beq_eq_false_iff_ne]
      rintro rfl
      rcases List.mem_cons.mp hc with hc | hc
      · exact absurd hc (by decide)
      · exact intText_free hn (by decide) hc
  have hsplit : App.splitAll (· == '&') ((txt "vp8-fps" ++ '=' :: App.intText fps) ++ '&' ::
      (txt "vp8-batch" ++ '=' :: App.intText batch)) =
      [txt "vp8-fps" ++ '=' :: App.intText fps, txt "vp8-batch" ++ '=' :: App.intText batch] := by
    rw [App.splitAll_append (hfree _ _ (by decide) hfps.1) rfl,
      App.splitAll_of_free (hfree _ _ (by decide) hbatch.1)]
  have hread : App.parseTransportToken (txt "vp8channel<vp8-fps=" ++ App.intText fps ++
      txt "&vp8-batch=" ++ App.intText batch ++ txt ">") = (App.trim (txt "vp8channel"),
        [txt "vp8-fps" ++ '=' :: App.intText fps,
          txt "vp8-batch" ++ '=' :: App.intText batch].filterMap readOption) := by
    rw [App.parseTransportToken, hcut, Option.bind_some]
    dsimp only
    rw [App.cutLast_append List.not_mem_nil, Option.map_some, ← hsplit]
    rfl
  rw [hread, List.filterMap_cons,
    readOption_written (by decide) (by decide) hfps.1 hfps.2, List.filterMap_cons,
    readOption_written (by decide) (by decide) hbatch.1 hbatch.2, List.filterMap_nil]
  rfl

/-- **A transport is read back** under its own name, a vp8 room with its own options. -/
theorem parseTransportToken_written (c : App.LocationConfig) :
    (App.parseTransportToken (App.trim (transportToken c.normalized))).1 = c.normalized.transport ∧
      (c.normalized.transport = App.transportVp8Channel →
        (App.parseTransportToken (App.trim (transportToken c.normalized))).2 =
          [(txt "vp8-fps", c.normalized.vp8Fps), (txt "vp8-batch", c.normalized.vp8Batch)]) := by
  have hmem : c.normalized.transport ∈
      [App.transportDataChannel, App.transportVp8Channel, App.transportSeiChannel] := by
    rw [transport_normalized]
    exact normalizeTransport_mem ..
  have hfps : 0 ≤ c.normalized.vp8Fps ∧ c.normalized.vp8Fps < 0x80000000 := by
    rw [show c.normalized.vp8Fps = App.coerceIn c.vp8Fps 1 120 from rfl, App.coerceIn]
    split_ifs <;> omega
  have hbatch : 0 ≤ c.normalized.vp8Batch ∧ c.normalized.vp8Batch < 0x80000000 := by
    rw [show c.normalized.vp8Batch = App.coerceIn c.vp8Batch 1 64 from rfl, App.coerceIn]
    split_ifs <;> omega
  unfold transportToken
  simp only [List.mem_cons, List.not_mem_nil, or_false] at hmem
  rcases hmem with h | h | h
  · rw [h, if_neg (by decide), if_neg (by decide)]
    exact ⟨by decide, fun hvp8 => absurd hvp8 (by decide)⟩
  · rw [h, if_pos rfl]
    have htrim : ∀ body : Text, App.trim (txt "vp8channel<vp8-fps=" ++ body ++ txt ">") =
        txt "vp8channel<vp8-fps=" ++ body ++ txt ">" := by
      intro body
      refine trimBy_eq_self (fun d hd => ?_) (fun d hd => ?_)
      · cases hd
        rfl
      · rw [show txt ">" = ['>'] from rfl, List.getLast?_concat] at hd
        cases hd
        rfl
    have hassoc : txt "vp8channel<vp8-fps=" ++ App.intText c.normalized.vp8Fps ++
        txt "&vp8-batch=" ++ App.intText c.normalized.vp8Batch ++ txt ">" =
        txt "vp8channel<vp8-fps=" ++ (App.intText c.normalized.vp8Fps ++ txt "&vp8-batch=" ++
          App.intText c.normalized.vp8Batch) ++ txt ">" := by
      simp only [List.append_assoc]
    rw [hassoc, htrim, ← hassoc, parseTransportToken_vp8 hfps hbatch]
    exact ⟨rfl, fun _ => rfl⟩
  · rw [h, if_neg (by decide), if_pos rfl]
    exact ⟨by decide, fun hvp8 => absurd hvp8 (by decide)⟩

/-! ### The key and the name -/

/-- What follows the room is a key free of both marks, and then the label. -/
theorem key_of_labelPart {key : Text} (hclient : '%' ∉ key) (hname : '$' ∉ key)
    (label : Option Text) :
    (key ++ labelPart label).takeWhile (fun c => c != '%' && c != '$') = key := by
  have hkey : ∀ d ∈ key, (d != '%' && d != '$') = true := by
    intro d hd
    rw [Bool.and_eq_true, bne_iff_ne, bne_iff_ne]
    exact ⟨fun h => hclient (h ▸ hd), fun h => hname (h ▸ hd)⟩
  rw [List.takeWhile_append_of_pos hkey]
  cases label with
  | none => exact List.append_nil key
  | some name => exact List.append_nil key

theorem cut_labelPart {key : Text} (hname : '$' ∉ key) (label : Option Text) :
    ((App.cut '$' (key ++ labelPart label)).map Prod.snd).getD [] = label.getD [] := by
  cases label with
  | none =>
      rw [labelPart, Option.elim_none, List.append_nil, App.cut_eq_cutFirst,
        cutFirst_eq_none_iff.mpr hname]
      rfl
  | some name =>
      rw [labelPart, Option.elim_some, App.cut_append hname]
      rfl

/-- The name that is read is the name that was shown, also where it was the room's own. -/
theorem name_of_writtenLabel {c : App.LocationConfig} (hroom : App.isBlank c.id = false) :
    App.ifBlank (App.trim ((writtenLabel c.normalized).getD [])) c.normalized.id =
      c.normalized.displayName := by
  have hname := displayName_normalized hroom
  unfold writtenLabel
  rw [hname.2]
  by_cases heq : c.normalized.displayName = c.normalized.id
  · rw [if_neg (by simp [heq]), Option.getD_none]
    exact heq.symm
  · rw [if_pos (by simp [heq]), Option.getD_some, hname.1, App.ifBlank, if_neg (by simp [hname.2])]

/-! ### The room -/

/-- One location says what another does. -/
structure SharedAs (c d : App.LocationConfig) : Prop where
  displayName : d.displayName = c.displayName
  room : d.id = c.id
  key : d.key = c.key
  provider : d.bypassProvider = c.bypassProvider
  transport : d.transport = c.transport
  vp8 : c.transport = App.transportVp8Channel → d.vp8Fps = c.vp8Fps ∧ d.vp8Batch = c.vp8Batch

instance (c d : App.LocationConfig) : Decidable (SharedAs c d) :=
  decidable_of_iff (d.displayName = c.displayName ∧ d.id = c.id ∧ d.key = c.key ∧
      d.bypassProvider = c.bypassProvider ∧ d.transport = c.transport ∧
      (c.transport = App.transportVp8Channel → d.vp8Fps = c.vp8Fps ∧ d.vp8Batch = c.vp8Batch))
    ⟨fun ⟨h₁, h₂, h₃, h₄, h₅, h₆⟩ => ⟨h₁, h₂, h₃, h₄, h₅, h₆⟩,
      fun ⟨h₁, h₂, h₃, h₄, h₅, h₆⟩ => ⟨h₁, h₂, h₃, h₄, h₅, h₆⟩⟩

/-- A location made of what was read says what the shared one does. -/
theorem sharedAs_of_read {c : App.LocationConfig} (hroom : App.isBlank c.id = false)
    {fps batch : Int}
    (hvp8 : c.normalized.transport = App.transportVp8Channel →
      fps = c.normalized.vp8Fps ∧ batch = c.normalized.vp8Batch) :
    SharedAs c.normalized (App.LocationConfig.normalized
      { name := c.normalized.displayName, id := c.normalized.id, key := c.normalized.key
        bypassProvider := c.normalized.bypassProvider, transport := c.normalized.transport
        vp8Fps := fps, vp8Batch := batch }) := by
  have hagain := App.LocationConfig.normalized_normalized c
  obtain ⟨htrim, hsays⟩ := displayName_normalized hroom
  have hruns : runsOver c.normalized = c.normalized.transport := by
    rw [← transport_normalized, hagain]
  have hshown : ∀ d : App.LocationConfig,
      d.normalized.displayName = App.ifBlank (App.trim d.name) (App.trim d.id) := fun _ => rfl
  -- from here on all that matters of the shared location is that it is normalized
  generalize c.normalized = n at *
  constructor
  · rw [hshown, htrim, App.ifBlank, hsays]
    exact if_neg (by decide)
  · exact congrArg (·.id) hagain
  · exact congrArg (·.key) hagain
  · exact congrArg (·.bypassProvider) hagain
  · exact (transport_normalized _).trans hruns
  · intro htransport
    obtain ⟨rfl, rfl⟩ := hvp8 htransport
    exact ⟨congrArg (·.vp8Fps) hagain, congrArg (·.vp8Batch) hagain⟩

section

variable [App.JsonReader]

/-- The parts of a link are where they were put. -/
theorem parseOlcRtcUri_olcRtcUri {c : App.LocationConfig} (hroom : '#' ∉ c.id) :
    App.parseOlcRtcUri (olcRtcUri c) =
      App.olcRtcUriOf c.normalized.bypassProvider (transportToken c.normalized) c.normalized.id
        (c.normalized.key ++ labelPart (writtenLabel c.normalized)) := by
  have hid : '#' ∉ c.normalized.id := fun hd => hroom (mem_of_mem_trimBy hd)
  obtain ⟨-, hcarrier, hne, -⟩ := carrier_facts c.bypassProvider []
  have hpayload : ∀ t : Text, App.removePrefix (Cli.olcrtcPrefix ++ t) App.olcrtcUriPrefix = t :=
    fun t => rfl
  rw [olcRtcUri_eq, App.parseOlcRtcUri, hpayload,
    show c.normalized.bypassProvider = App.normalizeProvider c.bypassProvider from rfl,
    App.cut_append hcarrier]
  simp only [Option.bind_eq_bind, Option.bind_some]
  rw [if_neg hne, App.cut_append (transportToken_free c)]
  simp only [Option.bind_some]
  rw [App.cut_append hid]
  rfl

/-- **A room that is shared is read back**, with the name it was shown under. -/
theorem shared_room_reads_back {c : App.LocationConfig} (hkind : c.kind = .olcrtc)
    (hcomplete : c.isComplete = true) (hroom : '#' ∉ c.id) (hclient : '%' ∉ c.key)
    (hname : '$' ∉ c.key) :
    ∃ p, App.parseOlcRtcUri (olcRtcUri c) = some p ∧ SharedAs c.normalized p.location := by
  obtain ⟨hid, hkey⟩ : App.isBlank c.id = false ∧ App.isBlank c.key = false := by
    rw [App.LocationConfig.isComplete, hkind] at hcomplete
    simpa using hcomplete
  have hclient' : '%' ∉ c.normalized.key := fun hd => hclient (mem_of_mem_trimBy hd)
  have hname' : '$' ∉ c.normalized.key := fun hd => hname (mem_of_mem_trimBy hd)
  obtain ⟨htransport, hoptions⟩ := parseTransportToken_written c
  rw [parseOlcRtcUri_olcRtcUri hroom, App.olcRtcUriOf]
  generalize App.parseTransportToken (App.trim (transportToken c.normalized)) = read at *
  obtain ⟨transport, options⟩ := read
  dsimp only at htransport hoptions ⊢
  subst htransport
  rw [key_of_labelPart hclient' hname', cut_labelPart hname']
  have htrimId : App.trim c.normalized.id = c.normalized.id := App.trim_trim _
  have htrimKey : App.trim c.normalized.key = c.normalized.key := App.trim_trim _
  rw [htrimId, htrimKey, name_of_writtenLabel hid]
  have hcarrier : App.trim c.normalized.bypassProvider = c.normalized.bypassProvider :=
    App.trim_normalizeProvider c.bypassProvider
  rw [hcarrier, if_pos]
  · refine ⟨_, rfl, sharedAs_of_read hid fun hvp8 => ?_⟩
    rw [hoptions hvp8]
    exact ⟨rfl, rfl⟩
  · simp only [App.LocationConfig.isComplete, App.LocationConfig.normalized, App.isBlank_trim, hid,
      hkey, Bool.not_false, Bool.and_self]

end

section

attribute [local instance] App.Build.plain

/-- A room with marks wherever they may stand. -/
def markedRoom : App.LocationConfig :=
  { name := txt "a?b@c#d%e$f", id := txt "https://meet.example/r?x=<1>&y=@z%$", key := txt "k#?@1"
    bypassProvider := App.providerJitsi, vp8Fps := 300, vp8Batch := 7 }

theorem shared_room_reads_back_markedRoom :
    ∃ p, App.parseOlcRtcUri (olcRtcUri markedRoom) = some p ∧
      SharedAs markedRoom.normalized p.location :=
  shared_room_reads_back rfl (by decide) (by decide) (by decide) (by decide)

end

end Ghostlane.Across
