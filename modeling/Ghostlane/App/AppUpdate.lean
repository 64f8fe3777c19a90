import Ghostlane.App.Strings

/-!
# Ghostlane.App.AppUpdate

Which file of a release is the update of this machine (`update/AppUpdateService.kt`). Files are
told apart by their names: what stands in them, for the system and the architecture, and how they
end.

A platform has kinds of files it takes, the first of them that a release has (`selectAsset_kinds`):
an Android asks for its own architecture, in each spelling, and then for a file that names none.
Within a kind an ending is preferred, not asked for.
-/

namespace Ghostlane.App.AppUpdate

open Ghostlane.Lib

/-- `String.endsWith`. -/
def endsWith (t end_ : Text) : Bool := end_.isSuffixOf t

/-! ### Platforms -/

structure UpdatePlatform where
  os : Text
  arch : Text
  deriving DecidableEq

namespace UpdatePlatform

variable (p : UpdatePlatform)

/-- What the name of a file says, for this platform. -/
def assetToken : List Text :=
  if p.os = txt "windows" then [txt "windows", txt "amd64"]
  else if p.os = txt "macos" then [txt "macos", p.arch]
  else if p.os = txt "linux" then [txt "linux", p.arch]
  else if p.os = txt "android" then [txt "android"]
  else [p.os, p.arch]

/-- The spellings of an Android's architecture. -/
def androidArchTokens : List Text :=
  if p.os = txt "android" then
    let arch := lowercase p.arch
    if arch = txt "armeabi-v7a" ∨ arch = txt "armeabi" then [txt "armeabi-v7a", txt "armeabi"]
    else if arch = txt "arm64" ∨ arch = txt "arm64-v8a" then [txt "arm64", txt "arm64-v8a"]
    else if arch = txt "amd64" ∨ arch = txt "x86_64" then [txt "amd64", txt "x86_64"]
    else if arch = txt "x86" then [txt "x86"]
    else []
  else []

def preferredExtensions : List Text :=
  if p.os = txt "windows" then [txt ".msi", txt ".exe", txt ".zip"]
  else if p.os = txt "macos" then [txt ".dmg"]
  else if p.os = txt "linux" then [txt ".appimage"]
  else if p.os = txt "android" then [txt ".apk"]
  else []

end UpdatePlatform

def knownAndroidArchTokens : List Text :=
  [txt "armeabi-v7a", txt "armeabi", txt "arm64-v8a", txt "arm64", txt "x86_64", txt "amd64",
    txt "x86"]

/-! ### The choice -/

structure GithubReleaseAsset where
  name : Text
  browserDownloadUrl : Text
  size : Option Int := none
  updatedAt : Option Text := none
  deriving DecidableEq

structure AppUpdateAsset where
  name : Text
  downloadUrl : Text
  sizeBytes : Option Int
  updatedAt : Option Text := none
  deriving DecidableEq

def GithubReleaseAsset.offered (a : GithubReleaseAsset) : AppUpdateAsset :=
  ⟨a.name, a.browserDownloadUrl, a.size, a.updatedAt⟩

def selectPreferredAsset (candidates : List GithubReleaseAsset) (preferredExtensions : List Text) :
    Option GithubReleaseAsset :=
  (preferredExtensions.findSome? fun extension =>
    candidates.find? fun a => endsWith (lowercase a.name) extension).or candidates.head?

def selectAssetByTokens (assets : List GithubReleaseAsset)
    (tokens preferredExtensions : List Text) : Option GithubReleaseAsset :=
  selectPreferredAsset
    (assets.filter fun a => tokens.all fun token => contains (lowercase a.name) token)
    preferredExtensions

def selectAndroidAsset (assets : List GithubReleaseAsset) (p : UpdatePlatform) :
    Option GithubReleaseAsset :=
  let exactAbiAsset := p.androidArchTokens.findSome? fun archToken =>
    selectAssetByTokens assets [txt "android", archToken] p.preferredExtensions
  let universalCandidates := assets.filter fun a =>
    let name := lowercase a.name
    contains name (txt "android") &&
      knownAndroidArchTokens.all fun token => !contains name token
  exactAbiAsset.or (selectPreferredAsset universalCandidates p.preferredExtensions)

def selectAsset (assets : List GithubReleaseAsset) (p : UpdatePlatform) : Option AppUpdateAsset :=
  let asset :=
    if p.os = txt "android" then selectAndroidAsset assets p
    else selectAssetByTokens assets p.assetToken p.preferredExtensions
  asset.map GithubReleaseAsset.offered

/-! ### What is chosen -/

/-- The kinds of names a platform takes, the first before the others. -/
def UpdatePlatform.kinds (p : UpdatePlatform) : List (Text → Bool) :=
  if p.os = txt "android" then
    p.androidArchTokens.map (fun archToken name =>
      [txt "android", archToken].all fun token => contains name token) ++
    [fun name => contains name (txt "android") &&
      knownAndroidArchTokens.all fun token => !contains name token]
  else [fun name => p.assetToken.all fun token => contains name token]

/-- The assets of a kind. -/
def ofKind (assets : List GithubReleaseAsset) (kind : Text → Bool) : List GithubReleaseAsset :=
  assets.filter fun a => kind (lowercase a.name)

/-- **The choice is made kind by kind.** -/
theorem selectAsset_kinds (assets : List GithubReleaseAsset) (p : UpdatePlatform) :
    selectAsset assets p =
      (p.kinds.findSome? fun kind =>
        selectPreferredAsset (ofKind assets kind) p.preferredExtensions).map
          GithubReleaseAsset.offered := by
  unfold selectAsset UpdatePlatform.kinds
  split
  · rw [selectAndroidAsset, List.findSome?_append, List.findSome?_map, List.findSome?_singleton]
    rfl
  · rw [List.findSome?_singleton]
    rfl

section

variable {candidates : List GithubReleaseAsset} {preferredExtensions : List Text}

theorem selectPreferredAsset_eq_none
    (h : selectPreferredAsset candidates preferredExtensions = none) : candidates = [] := by
  unfold selectPreferredAsset at h
  exact List.head?_eq_none_iff.mp (Option.or_eq_none_iff.mp h).2

/-- The first with the most preferred ending that there is; or the first, where there is none. -/
theorem selectPreferredAsset_eq_some {a : GithubReleaseAsset}
    (h : selectPreferredAsset candidates preferredExtensions = some a) :
    a ∈ candidates ∧
      ((∃ before extension after, preferredExtensions = before ++ extension :: after ∧
          endsWith (lowercase a.name) extension = true ∧
          ∀ e ∈ before, ∀ b ∈ candidates, endsWith (lowercase b.name) e = false) ∨
        ∀ e ∈ preferredExtensions, ∀ b ∈ candidates, endsWith (lowercase b.name) e = false) := by
  have hnone : ∀ {e : Text},
      (candidates.find? fun a => endsWith (lowercase a.name) e) = none →
        ∀ b ∈ candidates, endsWith (lowercase b.name) e = false := by
    intro e he b hb
    simpa using List.find?_eq_none.mp he b hb
  unfold selectPreferredAsset at h
  rcases Option.or_eq_some_iff.mp h with h | ⟨h, hhead⟩
  · obtain ⟨before, extension, after, heq, hfound, hbefore⟩ := List.findSome?_eq_some_iff.mp h
    refine ⟨List.mem_of_find?_eq_some hfound, .inl ⟨before, extension, after, heq, ?_, ?_⟩⟩
    · simpa using List.find?_some hfound
    · exact fun e he => hnone (hbefore e he)
  · refine ⟨List.mem_of_mem_head? hhead, .inr fun e he => hnone ?_⟩
    exact List.findSome?_eq_none_iff.mp h e he

end

/-- A name the platform takes says its system. -/
theorem contains_os {p : UpdatePlatform} {kind : Text → Bool} (hkind : kind ∈ p.kinds) {name : Text}
    (h : kind name = true) : contains name p.os = true := by
  unfold UpdatePlatform.kinds at hkind
  split at hkind
  · rename_i hos
    rw [hos]
    rcases List.mem_append.mp hkind with hkind | hkind
    · obtain ⟨archToken, -, rfl⟩ := List.mem_map.mp hkind
      exact List.all_eq_true.mp h _ List.mem_cons_self
    · cases List.mem_singleton.mp hkind
      exact (Bool.and_eq_true_iff.mp h).1
  · cases List.mem_singleton.mp hkind
    refine List.all_eq_true.mp h p.os ?_
    unfold UpdatePlatform.assetToken
    repeat' split
    all_goals simp_all

/-- The architecture a platform that is no Android asks for. -/
def UpdatePlatform.askedArch (p : UpdatePlatform) : Text :=
  if p.os = txt "windows" then txt "amd64" else p.arch

/-! ### What a name says -/

/-- The architectures, each with its spellings. -/
def architectures : List (List Text) :=
  [[txt "armeabi-v7a", txt "armeabi"], [txt "arm64-v8a", txt "arm64"], [txt "x86_64", txt "amd64"],
    [txt "x86"]]

/-- A longer spelling, of another architecture, that begins as this one: `x86_64` for `x86`. -/
def hides (other token : Text) : Bool :=
  startsWith other token && token.length < other.length &&
    !architectures.any fun spellings => spellings.contains token && spellings.contains other

/-- An architecture is named where a spelling of it stands, and not as the beginning of
another's. -/
def names (name archToken : Text) : Bool :=
  name.tails.any fun t =>
    startsWith t archToken && !architectures.flatten.any fun other =>
      hides other archToken && startsWith t other

/-- Another architecture stands in the name whose spelling begins as this one. -/
def misread (name archToken : Text) : Bool :=
  architectures.flatten.any fun other => hides other archToken && contains name other

theorem contains_eq_any (t needle : Text) :
    contains t needle = t.tails.any (startsWith · needle) := by
  induction t with
  | nil => cases needle <;> rfl
  | cons c t ih => rw [contains, ih, List.tails, List.any_cons]

theorem contains_of_names {name archToken : Text} (h : names name archToken = true) :
    contains name archToken = true := by
  obtain ⟨t, ht, hstarts⟩ := List.any_eq_true.mp h
  rw [contains_eq_any]
  exact List.any_eq_true.mpr ⟨t, ht, (Bool.and_eq_true_iff.mp hstarts).1⟩

/-- What is found of an architecture names it, where it is not misread. -/
theorem names_of_contains {name archToken : Text} (h : contains name archToken = true)
    (hread : misread name archToken = false) : names name archToken = true := by
  rw [contains_eq_any] at h
  obtain ⟨t, ht, hstarts⟩ := List.any_eq_true.mp h
  refine List.any_eq_true.mpr ⟨t, ht, Bool.and_eq_true_iff.mpr ⟨hstarts, ?_⟩⟩
  rw [Bool.not_eq_true', List.any_eq_false]
  intro other hother hboth
  obtain ⟨hhides, hthere⟩ := Bool.and_eq_true_iff.mp hboth
  refine List.any_eq_false.mp hread other hother (Bool.and_eq_true_iff.mpr ⟨hhides, ?_⟩)
  rw [contains_eq_any]
  exact List.any_eq_true.mpr ⟨t, ht, hthere⟩

/-- The spellings a platform asks for. -/
def UpdatePlatform.askedTokens (p : UpdatePlatform) : List Text :=
  if p.os = txt "android" then p.androidArchTokens else [p.askedArch]

/-- What an update is. -/
structure Suits (assets : List GithubReleaseAsset) (p : UpdatePlatform) (a : GithubReleaseAsset) :
    Prop where
  listed : a ∈ assets
  system : contains (lowercase a.name) p.os = true
  /-- It names its architecture; on an Android, none that is known where no file names its own. What
  is misread is left out. -/
  arch : (∀ token ∈ p.askedTokens, misread (lowercase a.name) token = false) →
    (∃ token ∈ p.askedTokens, names (lowercase a.name) token = true) ∨
      (p.os = txt "android" ∧
        (∀ token ∈ knownAndroidArchTokens, names (lowercase a.name) token = false) ∧
        ∀ b ∈ assets, contains (lowercase b.name) (txt "android") = true →
          ∀ token ∈ p.askedTokens, names (lowercase b.name) token = false)
  /-- The most preferred ending that a file of its kind has. -/
  extension : ∃ kind ∈ p.kinds, kind (lowercase a.name) = true ∧
    ((∃ before extension after, p.preferredExtensions = before ++ extension :: after ∧
        endsWith (lowercase a.name) extension = true ∧
        ∀ e ∈ before, ∀ b ∈ assets, kind (lowercase b.name) = true →
          endsWith (lowercase b.name) e = false) ∨
      ∀ e ∈ p.preferredExtensions, ∀ b ∈ assets, kind (lowercase b.name) = true →
        endsWith (lowercase b.name) e = false)

theorem askedArch_mem {p : UpdatePlatform} (h : p.os ≠ txt "android") :
    p.askedArch ∈ p.assetToken := by
  unfold UpdatePlatform.askedArch UpdatePlatform.assetToken
  repeat' split
  all_goals simp_all

/-- **An update is for this machine's system**, for the architecture it asks for, and ends as it
prefers. -/
theorem selectAsset_spec {assets : List GithubReleaseAsset} {p : UpdatePlatform}
    {offered : AppUpdateAsset} (h : selectAsset assets p = some offered) :
    ∃ a, offered = a.offered ∧ Suits assets p a := by
  rw [selectAsset_kinds] at h
  obtain ⟨a, ha, rfl⟩ := Option.map_eq_some_iff.mp h
  obtain ⟨before, kind, after, hkinds, hselect, hbefore⟩ := List.findSome?_eq_some_iff.mp ha
  have hkind : kind ∈ p.kinds := by
    rw [hkinds]
    exact List.mem_append_right _ List.mem_cons_self
  -- no file of the release is of a kind that comes first
  have hfirst : ∀ k ∈ before, ∀ b ∈ assets, k (lowercase b.name) = false := by
    intro k hk b hb
    have hempty := selectPreferredAsset_eq_none (hbefore k hk)
    simpa using List.filter_eq_nil_iff.mp hempty b hb
  obtain ⟨hmem, hextension⟩ := selectPreferredAsset_eq_some hselect
  obtain ⟨hlisted, hof⟩ := List.mem_filter.mp hmem
  have hnot : ∀ {name token : Text}, contains name token = false → names name token = false := by
    intro name token hcontains
    by_contra hnames
    rw [contains_of_names (Bool.not_eq_false _ ▸ hnames)] at hcontains
    cases hcontains
  refine ⟨a, rfl, hlisted, contains_os hkind hof, fun hread => ?_, kind, hkind, hof, ?_⟩
  · by_cases hos : p.os = txt "android"
    · have hasked : p.askedTokens = p.androidArchTokens := if_pos hos
      rw [hasked] at hread ⊢
      rw [UpdatePlatform.kinds, if_pos hos] at hkinds
      rcases List.eq_nil_or_concat after with rfl | ⟨after, last, rfl⟩
      · -- none that is known, after every spelling of its own
        obtain ⟨rfl, huniversal⟩ := List.append_inj' hkinds rfl
        cases huniversal
        refine .inr ⟨hos, fun token htoken => hnot ?_, fun b hb hsystem token htoken => hnot ?_⟩
        · have hnone := List.all_eq_true.mp (Bool.and_eq_true_iff.mp hof).2 token htoken
          simpa using hnone
        · have hspelling := hfirst _ (List.mem_map_of_mem htoken) b hb
          simpa [hsystem] using hspelling
      · rw [List.concat_eq_append, ← List.cons_append, ← List.append_assoc] at hkinds
        have hspellings := List.append_inj_left' hkinds rfl
        have hmap : kind ∈ p.androidArchTokens.map fun archToken name =>
            [txt "android", archToken].all fun token => contains name token := by
          rw [hspellings]
          exact List.mem_append_right _ List.mem_cons_self
        obtain ⟨archToken, htoken, rfl⟩ := List.mem_map.mp hmap
        have hfound : contains (lowercase a.name) archToken = true :=
          List.all_eq_true.mp hof _ (by simp)
        exact .inl ⟨archToken, htoken, names_of_contains hfound (hread archToken htoken)⟩
    · have hasked : p.askedTokens = [p.askedArch] := if_neg hos
      rw [hasked] at hread ⊢
      rw [UpdatePlatform.kinds, if_neg hos] at hkind
      cases List.mem_singleton.mp hkind
      have hfound := List.all_eq_true.mp hof _ (askedArch_mem hos)
      have hmem := List.mem_singleton_self p.askedArch
      exact .inl ⟨p.askedArch, hmem, names_of_contains hfound (hread _ hmem)⟩
  · have hcandidates : ∀ {e : Text},
        (∀ b ∈ ofKind assets kind, endsWith (lowercase b.name) e = false) →
          ∀ b ∈ assets, kind (lowercase b.name) = true → endsWith (lowercase b.name) e = false :=
      fun he b hb hb' => he b (List.mem_filter.mpr ⟨hb, hb'⟩)
    rcases hextension with ⟨before, e, after, heq, hends, hno⟩ | hno
    · exact .inl ⟨before, e, after, heq, hends, fun e he => hcandidates (hno e he)⟩
    · exact .inr fun e he => hcandidates (hno e he)

theorem selectAsset_spec_windows :
    ∃ a, (⟨txt "Ghostlane-1.0.0-windows-amd64.msi", txt "https://example/msi", none, none⟩ :
        AppUpdateAsset) = a.offered ∧
      Suits
        [⟨txt "Ghostlane-1.0.0-windows-amd64.zip", txt "https://example/zip", none, none⟩,
          ⟨txt "Ghostlane-1.0.0-windows-amd64.msi", txt "https://example/msi", none, none⟩]
        ⟨txt "windows", txt "amd64"⟩ a :=
  selectAsset_spec (by rfl)

/-! ### What a name says of this machine -/

/-- The spellings of the machine's own architecture. -/
def UpdatePlatform.ownTokens (p : UpdatePlatform) : List Text :=
  if p.os = txt "android" then p.androidArchTokens
  else (architectures.find? fun tokens => tokens.contains p.arch).getD [p.arch]

def NamesOwn (p : UpdatePlatform) (name : Text) : Prop :=
  (∃ token ∈ p.ownTokens, names name token = true) ∨
    (p.os = txt "android" ∧ ∀ token ∈ knownAndroidArchTokens, names name token = false)

def NamesNoOther (p : UpdatePlatform) (name : Text) : Prop :=
  ∀ token ∈ knownAndroidArchTokens, names name token = true → token ∈ p.ownTokens

def Ends (p : UpdatePlatform) (name : Text) : Prop :=
  ∃ e ∈ p.preferredExtensions, endsWith name e = true

instance (p : UpdatePlatform) (name : Text) : Decidable (NamesOwn p name) :=
  inferInstanceAs (Decidable (_ ∨ _))

instance (p : UpdatePlatform) (name : Text) : Decidable (NamesNoOther p name) :=
  List.decidableBAll ..

instance (p : UpdatePlatform) (name : Text) : Decidable (Ends p name) :=
  List.decidableBEx ..

/-- A checksum stands in for an installer where there is none, a Windows on ARM is given the build
there is for Windows, and `x86` is found in `x86_64`. -/
theorem selectAsset_misses :
    (∃ offered, selectAsset [⟨txt "Ghostlane-1.0.0-linux-amd64.AppImage.sha256", [], none, none⟩]
        ⟨txt "linux", txt "amd64"⟩ = some offered ∧
      ¬ Ends ⟨txt "linux", txt "amd64"⟩ (lowercase offered.name)) ∧
    (∃ offered, selectAsset [⟨txt "Ghostlane-1.0.0-windows-amd64.msi", [], none, none⟩]
        ⟨txt "windows", txt "arm64"⟩ = some offered ∧
      ¬ NamesOwn ⟨txt "windows", txt "arm64"⟩ (lowercase offered.name)) ∧
    ∃ offered, selectAsset [⟨txt "Ghostlane-1.0.0-android-x86_64.apk", [], none, none⟩]
        ⟨txt "android", txt "x86"⟩ = some offered ∧
      ¬ NamesNoOther ⟨txt "android", txt "x86"⟩ (lowercase offered.name) := by
  refine ⟨⟨_, rfl, ?_⟩, ⟨_, rfl, ?_⟩, _, rfl, ?_⟩ <;> decide

end Ghostlane.App.AppUpdate
