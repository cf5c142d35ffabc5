import Ocvpn.Profiles.Revisions

/-!
# Profiles on their way to a connection

What happens to a profile from the command line to its reservation: `ProfileStore::resolve`, the
`--browser` override of `Command::Connect` in `apps/cli/src/main.rs`, and `reserve_profile` of
`crates/client/src/configuration.rs`.  `connect::start` and `connect::run` pass the profile on as it
is.

## Main results

* `reserve_override_iff` : an overridden profile can be reserved only if the override changes
  nothing.
-/

namespace Ocvpn

open Crash

open Net (ofRun)

section

variable {Text Value : Type} [Serde Text Value] {Url : Type} [UrlCrate Url]
  [Codec Text Value (ProfileDocument Url)]

/-- What `decode` reads from a quoted browser mode. -/
def BrowserMode.decode : String → Run BrowserMode
  | "auto" => pure .auto
  | "system" => pure .system
  | "embedded" => pure .embedded
  | "manual" => pure .manual
  | _ => Exec.fail (.invalid "Invalid JSON document or fields")

/-- The `--browser` option of `Command::Connect`. -/
def Profile.overrideBrowser (p : Profile Url) : Option String → Run (Profile Url)
  | none => pure p
  | some mode => do
    let browserMode ← BrowserMode.decode mode
    pure { p with browserMode }

/-- The error of `reserve_profile` for a profile that is not the stored one. -/
def changedProfile : Error :=
  .new .conflict "Profile changed before connection reservation. Reload it and retry."

namespace ProfileStore

variable (S : ProfileStore)

/-- `resolve`. -/
def resolve (selector : String) : StoreProg Text (Profile Url) := do
  let document : ProfileDocument Url ← S.list
  ofRun (select S.uuid document.profiles selector)

/-- `lock("profile-use.lock")`. -/
def useLock : StoreProg Text Unit := Io.query fun _ => .ok ()

variable [DecidableEq Url]

/-- `reserve_profile`. -/
def reserveProfile (profile : Profile Url) : StoreProg Text Unit := do
  useLock
  let current ← S.resolve (String.ofList profile.id.text)
  if current ≠ profile then Io.fail changedProfile
  else pure ()

/-- `Command::Connect` up to the reservation. -/
def reserveFor (Url : Type) [UrlCrate Url] [Codec Text Value (ProfileDocument Url)]
    [DecidableEq Url] (selector : String) (browser : Option String) : StoreProg Text Unit := do
  let profile : Profile Url ← S.resolve selector
  let profile ← ofRun (profile.overrideBrowser browser)
  S.reserveProfile profile

end ProfileStore

omit [UrlCrate Url] in
/-- An override keeps the ID, and the whole profile only if it names the mode of the profile. -/
theorem Profile.overrideBrowser_eq_ok {p p' : Profile Url} {browser : Option String}
    (h : p.overrideBrowser browser = .ok p') :
    p'.id = p.id ∧ (p = p' ↔ ∀ mode ∈ browser, BrowserMode.decode mode = .ok p.browserMode) := by
  cases browser with
  | none =>
    cases h
    exact ⟨rfl, by simp⟩
  | some mode =>
    obtain ⟨m, hm, h⟩ := Exec.bind_eq_ok.1 h
    cases h
    refine ⟨rfl, fun heq => ?_, fun hmode => ?_⟩
    · have hmode := congrArg Profile.browserMode heq
      simpa [hm] using hmode.symm
    · have hmode := hm.symm.trans (hmode mode rfl)
      cases hmode
      rfl

/-! ### Resolving a profile again -/

namespace ProfileStore

variable {S : ProfileStore} {file : Option Text}

/-- Listing leaves the file alone; a list that is returned is valid. -/
theorem list_returns {d : ProfileDocument Url} {s : State (Option Text) Error}
    (h : S.list ⟨file, []⟩ = (.ok d, s)) : s = ⟨file, []⟩ ∧ validateProfiles d.profiles = .ok () := by
  simp only [list, lock, profilesUnlocked, read, Io.bind_eq_ok, Io.query_eq_ok,
    Io.orFail_eq_ok] at h
  obtain ⟨⟨⟩, _, ⟨-, -, rfl⟩, document, s₁, ⟨bytes, _, ⟨-, hbytes, rfl⟩, hread⟩, ⟨⟩, s₂, hvalid, hd⟩ := h
  have hs₁ : s₁ = ⟨file, []⟩ := by
    cases bytes with
    | none =>
      cases hread
      rfl
    | some bytes =>
      simp only [Io.bind_eq_ok, Io.query_eq_ok, Io.orFail_eq_ok, Net.ofRun_eq_ok] at hread
      obtain ⟨⟨⟩, _, ⟨-, -, rfl⟩, d', _, ⟨-, rfl⟩, hread⟩ := hread
      cases hread
      rfl
  obtain ⟨hprofiles, rfl⟩ := Net.ofRun_eq_ok.1 hvalid
  cases hd
  exact ⟨hs₁, hprofiles⟩

/-- A profile that was resolved is found again by its ID. -/
theorem resolve_again {selector : String} {p : Profile Url} {s : State (Option Text) Error}
    (h : S.resolve selector ⟨file, []⟩ = (.ok p, s)) :
    s = ⟨file, []⟩ ∧ S.resolve (String.ofList p.id.text) ⟨file, []⟩ = (.ok p, ⟨file, []⟩) := by
  simp only [resolve, Io.bind_eq_ok, Net.ofRun_eq_ok] at h ⊢
  obtain ⟨d, s₁, hlist, hselect, rfl⟩ := h
  obtain ⟨rfl, hvalid⟩ := list_returns hlist
  exact ⟨rfl, d, _, hlist,
    select_id S.uuid (validateProfiles_eq_ok.1 hvalid).2.1 (mem_of_select hselect), rfl⟩

variable [DecidableEq Url]

/-- **An override and its reservation.**  In a store that does not change, the profile that was
resolved is reserved; after an override it is refused as changed exactly if the mode is another
one. -/
theorem reserve_override_iff {selector : String} {browser : Option String} {p p' : Profile Url}
    {s : State (Option Text) Error} (hresolve : S.resolve selector ⟨file, []⟩ = (.ok p, s))
    (hp' : p.overrideBrowser browser = .ok p') :
    (∀ e, (S.reserveFor Url selector browser ⟨file, []⟩).1 = .err e → e.code ≠ .conflict) ↔
      ∀ mode ∈ browser, BrowserMode.decode mode = .ok p.browserMode := by
  obtain ⟨rfl, hagain⟩ := resolve_again hresolve
  have hoverride : (ofRun (p.overrideBrowser browser) : StoreProg Text (Profile Url)) ⟨file, []⟩ =
      (.ok p', ⟨file, []⟩) := Net.ofRun_eq_ok.2 ⟨hp', rfl⟩
  have hlock : (useLock : StoreProg Text Unit) ⟨file, []⟩ = (.ok (), ⟨file, []⟩) := rfl
  rw [reserveFor, Io.bind_of_ok hresolve, Io.bind_of_ok hoverride, reserveProfile,
    Io.bind_of_ok hlock]
  obtain ⟨hid, hsame⟩ := Profile.overrideBrowser_eq_ok hp'
  rw [hid, Io.bind_of_ok hagain, ← hsame]
  split_ifs with hne
  · exact iff_of_false (fun h => h changedProfile rfl rfl) hne
  · exact iff_of_true nofun (not_not.1 hne)

end ProfileStore

end

open ProfileStore

/-- A profile that is connected with the mode it has. -/
theorem reserve_override_same :
    (sampleStore.reserveFor SampleUrl "work" (some "auto") ⟨sampleFile, []⟩).1 ≠
      .err changedProfile := by
  have hresolve : sampleStore.resolve "work" ⟨sampleFile, []⟩ =
      (.ok (sampleProfile "a"), ⟨sampleFile, []⟩) := Prod.ext (by decide) rfl
  have hp : (sampleProfile "a").overrideBrowser (some "auto") = .ok (sampleProfile "a") := rfl
  exact fun h => (reserve_override_iff hresolve hp).2 (by decide) changedProfile h rfl

/-- A profile that is connected with another mode. -/
theorem reserve_override_conflict :
    (sampleStore.resolve "work" ⟨sampleFile, []⟩).1 = .ok (sampleProfile "a") ∧
      (sampleStore.reserveFor SampleUrl "work" (some "system") ⟨sampleFile, []⟩).1 =
        .err changedProfile := by
  decide

end Ocvpn
