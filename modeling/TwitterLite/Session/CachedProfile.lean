import TwitterLite.Session.Authentication

/-!
# Whose profile is cached

A cached profile with an identifier is meant to be the profile of that account. The answer to a
query of the record stamps the record of the account it was *sent* for with the identifier of the
account that is signed in *when it arrives*; so the cache belongs to one account along a run
exactly as long as every fetched record is that of the user who is signed in when it arrives, or
nobody is, or the two records show the same profile
(`Session.profileOfOneAccount_iff`). An account update whose screen has gone rewrites a record
behind the back of the cache; it must not change the profile of the cached account.

## Main definitions

* `TwitterLite.Session.ProfileOfOneAccount`, `TwitterLite.Session.AnsweredToItsSender`.

## Main results

* `TwitterLite.Session.step_profileOfOneAccount_iff`,
  `TwitterLite.Session.profileOfOneAccount_iff`.

Source: `HomeViewModel.swift`, lines 20–36; `FirebaseAuthenticationManager.swift`, lines 29–64;
`UserEndPoint.swift`, lines 16–25.
-/

namespace TwitterLite

open TransitionSystem

namespace Session

variable {s s' : Session}

/-- The path of the record of an account. -/
def recordPath (userID : String) : String := (UserEndPoint.postUserDetails userID).path none

/-- A cached profile with an identifier shows the record of that account. -/
def ProfileOfOneAccount (s : Session) : Prop :=
  ∀ user userID, s.loggedInUser = some user → user.userID = some userID →
    ∃ record, s.users (recordPath userID) = some record ∧ record.profile = user.profile

/-- The guard. A fetched record is that of the user who is signed in when it arrives, if anybody
is, or shows the same profile; an account update that is dropped leaves the profile of the cached
account as it was. -/
def AnsweredToItsSender (τ : Transition Session Event) : Prop :=
  match τ.event with
  | .detailFetched path record _ => ∀ user, τ.source.currentUser = some user →
      user.path = path ∨ ∃ own, τ.source.users user.path = some own ∧ own.profile = record.profile
  | .updateDropped path record => ∀ user userID, τ.source.loggedInUser = some user →
      user.userID = some userID → recordPath userID = path → record.profile = user.profile
  | _ => True

theorem profileOfOneAccount_initial (currentUser : Option User)
    (users : String → Option UserModel) : ProfileOfOneAccount (initial currentUser users) :=
  fun _ _ h => nomatch h

/-- The property depends on the cache and on the records only. -/
theorem ProfileOfOneAccount.congr (h : ProfileOfOneAccount s)
    (hcache : s'.loggedInUser = s.loggedInUser) (husers : s'.users = s.users) :
    ProfileOfOneAccount s' := by
  unfold ProfileOfOneAccount
  rw [hcache, husers]
  exact h

/-- A cache without an identifier claims nothing. -/
theorem profileOfOneAccount_of_userID_none {user : UserModel}
    (hcache : s.loggedInUser = some user) (hnone : user.userID = none) :
    ProfileOfOneAccount s := by
  intro user' userID huser hid
  obtain rfl := Option.some.inj (hcache.symm.trans huser)
  cases hnone.symm.trans hid

/-- Fetching a record caches it under the identifier of the signed-in user. -/
theorem detailFetched_eq {record : UserModel} {caller : DetailCaller}
    (h : s.detailFetched record caller = .ok s') :
    s'.loggedInUser = some (s.stamped record) ∧ s'.users = s.users := by
  cases caller with
  | home =>
    obtain rfl := Except.ok.inj h
    exact ⟨rfl, rfl⟩
  | signIn =>
    obtain ⟨_, _, rfl⟩ := getLoggedInUserDetail_eq h
    exact ⟨rfl, rfl⟩

theorem stamped_profileOfOneAccount_iff {path : String} {record : UserModel}
    (answer : s.users path = some record) (hcache : s'.loggedInUser = some (s.stamped record))
    (husers : s'.users = s.users) : ProfileOfOneAccount s' ↔
      ∀ user, s.currentUser = some user →
        user.path = path ∨ ∃ own, s.users user.path = some own ∧ own.profile = record.profile := by
  refine ⟨fun h user huser => .inr ?_, fun h user userID huser hid => ?_⟩
  · have hid : (s.stamped record).userID = some user.uid := by
      rw [stamped, huser, Option.map_some]
    exact husers ▸ h (s.stamped record) user.uid hcache hid
  · obtain rfl := Option.some.inj (hcache.symm.trans huser)
    obtain ⟨current, hcurrent, rfl⟩ := Option.map_eq_some_iff.mp hid
    rw [husers]
    rcases h current hcurrent with hpath | hown
    · exact ⟨record, (congrArg s.users hpath).trans answer, rfl⟩
    · exact hown

/-- **A step keeps the cached profile with its account exactly when it satisfies the guard.** -/
theorem step_profileOfOneAccount_iff {e : Event} (h : ProfileOfOneAccount s)
    (step : Step s e s') : ProfileOfOneAccount s' ↔ AnsweredToItsSender ⟨s, e, s'⟩ := by
  cases step with
  | launch launched =>
    refine iff_of_true ?_ trivial
    unfold Session.launched at launched
    dsimp only at launched
    split at launched
    · obtain rfl := Except.ok.inj launched
      exact fun _ _ h => nomatch h
    · obtain ⟨_, _, rfl⟩ := getLoggedInUserDetail_eq launched
      exact fun _ _ h => nomatch h
  | signOut error =>
    refine iff_of_true ?_ trivial
    cases error <;> exact h
  | signIn signedIn =>
    obtain ⟨_, _, rfl⟩ := getLoggedInUserDetail_eq signedIn
    exact iff_of_true (h.congr rfl rfl) trivial
  | createAccount user userDetail => exact iff_of_true (h.congr rfl rfl) trivial
  | authenticateUser user => exact iff_of_true (h.congr rfl rfl) trivial
  | detailFetched pending answer fetched =>
    obtain ⟨hcache, husers⟩ := detailFetched_eq fetched
    exact stamped_profileOfOneAccount_iff answer hcache husers
  | detailDropped pending => exact iff_of_true (h.congr rfl rfl) trivial
  | detailFailed pending => exact iff_of_true (h.congr rfl rfl) trivial
  | updated pending update completed =>
    obtain ⟨_, _, rfl⟩ := getLoggedInUserDetail_eq completed
    exact iff_of_true (profileOfOneAccount_of_userID_none rfl (userID_of_addUpdate update)) trivial
  | @updateDropped before after user record data upload path pending update =>
    refine ⟨fun h' user userID huser hid hpath => ?_, fun hguard user userID huser hid => ?_⟩
    · obtain ⟨own, hown, hprofile⟩ := h' user userID huser hid
      simp only [stored, hpath, if_true] at hown
      obtain rfl := Option.some.inj hown
      exact hprofile
    · by_cases hpath : recordPath userID = path
      · refine ⟨record, if_pos hpath, hguard user userID huser hid hpath⟩
      · obtain ⟨own, hown, hprofile⟩ := h user userID huser hid
        exact ⟨own, (if_neg hpath).trans hown, hprofile⟩
  | updateFailed pending update => exact iff_of_true (h.congr rfl rfl) trivial

/-- **The cached profile belongs to one account in every state of a run exactly when every step
satisfies the guard.** -/
theorem profileOfOneAccount_iff (currentUser : Option User) (users : String → Option UserModel)
    {ts : List (Transition Session Event)} (run : Run Step (initial currentUser users) ts s) :
    (∀ τ ∈ ts, ProfileOfOneAccount τ.target) ↔ ∀ τ ∈ ts, AnsweredToItsSender τ :=
  run.forall_good_iff ProfileOfOneAccount
    (fun _ _ _ h step hguard => (step_profileOfOneAccount_iff h step).mpr hguard)
    (fun _ _ _ h step => step_profileOfOneAccount_iff h step)
    (profileOfOneAccount_initial currentUser users)

/-- Two accounts with a record each. -/
def alice : User := { uid := "a", uid_valid := by decide }

def bob : User := { uid := "b", uid_valid := by decide }

def twoRecords (path : String) : Option UserModel :=
  if path = "Users/a" then some { displayName := some "Alice" }
  else if path = "Users/b" then some { displayName := some "Bob" }
  else none

/-- A launch, and the record of the user who is still signed in. -/
theorem profileOfOneAccount_iff_alice :
    ∃ ts s, Run Step (initial (some alice) twoRecords) ts s ∧ ts.length = 2 ∧
      s.loggedInUser = some { userID := some "a", displayName := some "Alice" } ∧
      ∀ τ ∈ ts, ProfileOfOneAccount τ.target := by
  have start : Run Step (initial (some alice) twoRecords) [] _ := .nil _
  have run := start
    |>.snoc (.launch rfl)
    |>.snoc (.detailFetched
      (show _ = [] ++ Operation.getLoggedInUserDetail "Users/a" .home :: [] from rfl) rfl rfl)
  refine ⟨_, _, run, rfl, rfl, (profileOfOneAccount_iff _ _ run).mpr ?_⟩
  simp only [List.nil_append, List.cons_append, List.forall_mem_cons]
  refine ⟨trivial, fun user huser => .inl ?_, List.forall_mem_nil _⟩
  obtain rfl := Option.some.inj huser
  rfl

/-- Alice signs out while her record is on its way, and Bob signs in before it arrives: her profile
is cached under his identifier. -/
theorem not_profileOfOneAccount_of_run :
    ¬ ∀ (currentUser : Option User) (users : String → Option UserModel)
      (ts : List (Transition Session Event)) (s : Session),
      Run Step (initial currentUser users) ts s → ProfileOfOneAccount s := by
  have start : Run Step (initial (some alice) twoRecords) [] _ := .nil _
  have run := start
    |>.snoc (.launch rfl)
    |>.snoc (.signOut none)
    |>.snoc (.signIn (show Session.signedIn _ bob = _ from rfl))
    |>.snoc (.detailFetched
      (show _ = [] ++ Operation.getLoggedInUserDetail "Users/a" .home :: _ from rfl) rfl rfl)
  intro h
  obtain ⟨record, hrecord, hprofile⟩ := h _ _ _ _ run
    { userID := some "b", displayName := some "Alice" } "b" rfl rfl
  obtain rfl : { displayName := some "Bob" } = record := Option.some.inj hrecord
  exact absurd hprofile (by decide)

end Session

end TwitterLite
