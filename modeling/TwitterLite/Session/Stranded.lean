import TwitterLite.Session.LoginFlows
import TwitterLite.Library.TransitionSystem

/-!
# Accounts that a failed creation leaves behind

Creating an account takes four stages: Auth, the content of the picked image, its upload, and the
record under `Users`. `SignUp` is the form, which the flow mutates on the way, with the accounts of
Auth and the records. An attempt that gets past Auth and fails afterwards leaves an account without
a record: the next creation is refused because the email is in use, and a sign-in finds no record.

So the form can still be completed, or signed in with, exactly if no attempt got past Auth
(`SignUp.run_recoverable_iff`).

## Main definitions

* `TwitterLite.SignUp`, `TwitterLite.SignUp.createAccount`, `TwitterLite.SignUp.Step`.
* `TwitterLite.SignUp.Recoverable`.

## Main results

* `TwitterLite.SignUp.recoverable_iff`, `TwitterLite.SignUp.run_recoverable_iff`.

Source: `FirebaseAuthenticationManager.swift`, lines 39–137; `FirebaseDatabaseManager.swift`,
lines 50–113; `CreateAccountViewModel.swift`, lines 15–43; `CreateAccountViewController.swift`,
lines 41–84.
-/

namespace TwitterLite

open TransitionSystem

/-- A form for a new account, the accounts of Auth by email address, and the records of the `Users`
collection by path. -/
structure SignUp where
  userDetail : UserModel
  currentUser : Option User := none
  accounts : String → Option (String × User)
  users : String → Option UserModel

namespace SignUp

/-- The object that an account update was called with, when the update is over: it has been cleared
if the update came to write it. -/
def updatedObject (user : UserModel) (outcomes : LoginOutcomes) : UserModel :=
  match user.photoURL, outcomes.data, user.userID, outcomes.upload with
  | some _, some _, some _, .ok url =>
    { user with photoURL := some url, password := none, userID := none }
  | _, _, _, _ => user

/-- `FirebaseAuthenticationManager.createAccount` for the form, with what it leaves behind. -/
def createAccount (s : SignUp) (outcomes : LoginOutcomes) : SignUp × Except AppError UserModel :=
  let result := FirebaseAuthenticationManager.createAccount outcomes s.currentUser s.userDetail
  match s.userDetail.emailAddress, s.userDetail.password, outcomes.auth with
  | some email, some password, .ok user =>
    let account := createdAccount s.userDetail user
    ({ userDetail := updatedObject account outcomes
       currentUser := result.currentUser
       accounts := Function.update s.accounts email (some (password, user))
       users :=
        match addUpdate account outcomes.data outcomes.upload outcomes.setValue with
        | .ok (path, record) => Function.update s.users path (some record)
        | .error _ => s.users },
      result.callBack)
  | _, _, _ => ({ s with currentUser := result.currentUser }, result.callBack)

/-- `Auth.createUser` succeeds for an unregistered email address only, and under an identifier that
nothing has been stored for. -/
structure CreateUserContract (s : SignUp) (email : String) (outcomes : LoginOutcomes) : Prop where
  unregistered : ∀ user, outcomes.auth = .ok user → s.accounts email = none
  unused : ∀ user, outcomes.auth = .ok user → s.users user.path = none

/-- What happens to the form. -/
inductive Event where
  | attempt (outcomes : LoginOutcomes)
  | refused
  | edit (userDetail : UserModel)

/-- One step with a form for the given email address and password. -/
inductive Step (email password : String) : SignUp → Event → SignUp → Prop
  /-- An attempt fails at some stage. -/
  | attempt {s s' : SignUp} {outcomes : LoginOutcomes} {error : AppError}
      (hemail : s.userDetail.emailAddress = some email)
      (hpassword : s.userDetail.password = some password)
      (contract : s.CreateUserContract email outcomes)
      (failed : s.createAccount outcomes = (s', .error error)) :
      Step email password s (.attempt outcomes) s'
  /-- The password has been cleared by an earlier attempt: the call returns at once. -/
  | refused {s : SignUp} (hpassword : s.userDetail.password = none) :
      Step email password s .refused s
  /-- The form is filled in again, for the same email address and password. -/
  | edit {s : SignUp} {userDetail : UserModel}
      (hemail : userDetail.emailAddress = some email)
      (hpassword : userDetail.password = some password) (hphoto : userDetail.photoURL ≠ none) :
      Step email password s (.edit userDetail) { s with userDetail := userDetail }

variable (email password : String)

/-- The backend no longer fails during an account creation: Auth refuses registered addresses
only. -/
structure CreateAccountWorks (s : SignUp) (outcomes : LoginOutcomes) : Prop where
  auth_iff : (∃ user, outcomes.auth = .ok user) ↔ s.accounts email = none
  data_ne : outcomes.data ≠ none
  upload_eq : ∃ url, outcomes.upload = .ok url
  setValue_eq : outcomes.setValue = none

/-- The backend no longer fails during a sign-in: Auth accepts the password of the account, and the
query of the record fails only if there is none. -/
structure SignInWorks (s : SignUp) (outcomes : LoginOutcomes) : Prop where
  auth_iff : ∀ user, outcomes.auth = .ok user ↔ s.accounts email = some (password, user)
  record_eq : ∀ user, outcomes.auth = .ok user → outcomes.record =
    match s.users user.path with
    | some record => .ok record
    | none => .error (.fireBase .failedToFetch)

/-- The form, filled in once more. -/
def filledIn (s : SignUp) : UserModel :=
  { s.userDetail with emailAddress := some email, password := some password }

/-- Once the backend no longer fails, creating the account delivers a profile, or signing in with
the same email address and password does. -/
def Recoverable (s : SignUp) : Prop :=
  (∀ outcomes, s.CreateAccountWorks email outcomes →
    ∃ model, (FirebaseAuthenticationManager.createAccount outcomes s.currentUser
      (s.filledIn email password)).callBack = .ok model) ∨
  (∀ outcomes, s.SignInWorks email password outcomes →
    ∃ model, (FirebaseAuthenticationManager.signIn outcomes s.currentUser
      (s.filledIn email password)).callBack = .ok model)

variable {email password} {s s' : SignUp} {outcomes : LoginOutcomes}

/-! ### What can be recovered -/

theorem createAccount_works_iff (hphoto : s.userDetail.photoURL ≠ none) :
    (∀ outcomes, s.CreateAccountWorks email outcomes →
      ∃ model, (FirebaseAuthenticationManager.createAccount outcomes s.currentUser
        (s.filledIn email password)).callBack = .ok model) ↔ s.accounts email = none := by
  constructor
  · intro h
    by_contra hregistered
    obtain ⟨_, hmodel⟩ := h ⟨.error (.backend "email already in use"), some [], .ok "", none,
      .error (.fireBase .failedToFetch)⟩
      ⟨iff_of_false (fun ⟨_, h⟩ => by cases h) hregistered, by simp, ⟨_, rfl⟩, rfl⟩
    cases hmodel
  · intro hnone outcomes hworks
    obtain ⟨user, hauth⟩ := hworks.auth_iff.mpr hnone
    have hid : (createdAccount (s.filledIn email password) user).userID ≠ none :=
      Option.some_ne_none _
    obtain ⟨record, hrecord⟩ := (addUpdate_eq_ok_iff hid).mpr
      ⟨hphoto, hworks.data_ne, hworks.upload_eq, hworks.setValue_eq⟩
    refine ⟨record.2, ?_⟩
    simp only [FirebaseAuthenticationManager.createAccount, filledIn, hauth]
    exact congrArg (fun x => Except.map Prod.snd x) hrecord

theorem signIn_works_iff :
    (∀ outcomes, s.SignInWorks email password outcomes →
      ∃ model, (FirebaseAuthenticationManager.signIn outcomes s.currentUser
        (s.filledIn email password)).callBack = .ok model) ↔
      ∃ user, s.accounts email = some (password, user) ∧ s.users user.path ≠ none := by
  constructor
  · intro h
    by_cases haccount : ∃ user, s.accounts email = some (password, user)
    · obtain ⟨user, haccount⟩ := haccount
      refine ⟨user, haccount, fun hnone => ?_⟩
      obtain ⟨_, hmodel⟩ := h ⟨.ok user, none, .ok "", none, .error (.fireBase .failedToFetch)⟩
        ⟨fun user' => by simp [haccount], fun user' hauth => by
          obtain rfl := Except.ok.inj hauth
          simp [hnone]⟩
      cases hmodel
    · obtain ⟨_, hmodel⟩ := h ⟨.error (.backend "wrong password"), none, .ok "", none,
        .error (.fireBase .failedToFetch)⟩
        ⟨fun user => iff_of_false (fun h => by cases h) fun h => haccount ⟨user, h⟩,
          fun user hauth => by cases hauth⟩
      cases hmodel
  · rintro ⟨user, haccount, husers⟩ outcomes hworks
    obtain ⟨record, hrecord⟩ := Option.ne_none_iff_exists'.mp husers
    have hauth := (hworks.auth_iff user).mpr haccount
    have hfetched := hworks.record_eq user hauth
    simp only [hrecord] at hfetched
    simp only [FirebaseAuthenticationManager.signIn, filledIn, hauth, hfetched]
    exact ⟨_, rfl⟩

/-- **The form can be completed or signed in with exactly if the email address is unregistered, or
registered with this password and a record.** -/
theorem recoverable_iff (hphoto : s.userDetail.photoURL ≠ none) :
    s.Recoverable email password ↔ s.accounts email = none ∨
      ∃ user, s.accounts email = some (password, user) ∧ s.users user.path ≠ none := by
  rw [Recoverable, createAccount_works_iff hphoto, signIn_works_iff]

/-! ### Attempts -/

/-- What a failed attempt leaves at the backend: nothing if Auth refused, and else an account
without a record. -/
theorem createAccount_cases (hemail : s.userDetail.emailAddress = some email)
    (hpassword : s.userDetail.password = some password) {error : AppError}
    (failed : s.createAccount outcomes = (s', .error error)) :
    s'.users = s.users ∧ match outcomes.auth with
      | .error _ => s'.accounts = s.accounts ∧ s'.userDetail = s.userDetail
      | .ok user => s'.accounts = Function.update s.accounts email (some (password, user)) ∧
          s'.userDetail = updatedObject (createdAccount s.userDetail user) outcomes := by
  cases hauth : outcomes.auth with
  | error error =>
    simp only [createAccount, hemail, hpassword, hauth] at failed
    obtain ⟨rfl, -⟩ := Prod.ext_iff.mp failed
    exact ⟨rfl, rfl, rfl⟩
  | ok user =>
    simp only [createAccount, FirebaseAuthenticationManager.createAccount, hemail, hpassword, hauth]
      at failed
    obtain ⟨rfl, hcallBack⟩ := Prod.ext_iff.mp failed
    refine ⟨?_, rfl, rfl⟩
    cases hupdate : addUpdate (createdAccount s.userDetail user) outcomes.data outcomes.upload
        outcomes.setValue with
    | error error => simp only
    | ok record =>
      rw [hupdate] at hcallBack
      cases hcallBack

theorem photoURL_updatedObject {user : UserModel} (h : user.photoURL ≠ none) :
    (updatedObject user outcomes).photoURL ≠ none := by
  unfold updatedObject
  split
  · exact Option.some_ne_none _
  · exact h

/-- Auth refused the attempt, if it was one. -/
def RefusedByAuth (e : Event) : Prop :=
  ∀ outcomes, e = .attempt outcomes → ∀ user, outcomes.auth ≠ .ok user

/-- An attempt that Auth refuses leaves what can be recovered; one that Auth lets pass, and that
fails afterwards, leaves nothing. -/
theorem step_recoverable_iff {e : Event} (hphoto : s.userDetail.photoURL ≠ none)
    (step : Step email password s e s') :
    s'.userDetail.photoURL ≠ none ∧
      (s'.Recoverable email password ↔ s.Recoverable email password ∧ RefusedByAuth e) := by
  cases step with
  | @attempt _ outcomes _ hemail hpassword contract failed =>
    obtain ⟨husers, hleft⟩ := createAccount_cases hemail hpassword failed
    cases hauth : outcomes.auth with
    | error error =>
      simp only [hauth] at hleft
      have hphoto' : s'.userDetail.photoURL ≠ none := hleft.2 ▸ hphoto
      have hrefused : RefusedByAuth (.attempt outcomes) := by
        rintro _ ⟨⟩ user huser
        cases hauth.symm.trans huser
      refine ⟨hphoto', ?_⟩
      rw [and_iff_left hrefused, recoverable_iff hphoto', recoverable_iff hphoto, husers, hleft.1]
    | ok user =>
      simp only [hauth] at hleft
      have hphoto' : s'.userDetail.photoURL ≠ none := by
        rw [hleft.2]
        exact photoURL_updatedObject hphoto
      refine ⟨hphoto', iff_of_false ?_ fun h => h.2 outcomes rfl user hauth⟩
      rw [recoverable_iff hphoto', husers, hleft.1, Function.update_self]
      rintro (h | ⟨user', h, hrecord⟩)
      · cases h
      · obtain ⟨-, rfl⟩ := Prod.mk.inj (Option.some.inj h)
        exact hrecord (contract.unused user hauth)
  | refused hpassword => exact ⟨hphoto, (and_iff_left fun _ h => by cases h).symm⟩
  | @edit userDetail hemail hpassword hphoto' =>
    have hphoto'' : ({ s with userDetail := userDetail } : SignUp).userDetail.photoURL ≠ none :=
      hphoto'
    have hrefused : RefusedByAuth (.edit userDetail) := fun _ h => by cases h
    refine ⟨hphoto', ?_⟩
    rw [and_iff_left hrefused, recoverable_iff hphoto'', recoverable_iff hphoto]

/-- **After failed attempts the account can be completed or signed in with exactly if Auth refused
every attempt**, and the email address was unregistered at the start, or registered with this
password and a record. -/
theorem run_recoverable_iff {s₀ : SignUp} {ts : List (Transition SignUp Event)}
    (hphoto : s₀.userDetail.photoURL ≠ none) (run : Run (Step email password) s₀ ts s) :
    s.Recoverable email password ↔
      (s₀.accounts email = none ∨
        ∃ user, s₀.accounts email = some (password, user) ∧ s₀.users user.path ≠ none) ∧
      ∀ τ ∈ ts, RefusedByAuth τ.event := by
  rw [← recoverable_iff hphoto]
  suffices h : s.userDetail.photoURL ≠ none ∧ (s.Recoverable email password ↔
      s₀.Recoverable email password ∧ ∀ τ ∈ ts, RefusedByAuth τ.event) from h.2
  induction run with
  | nil => exact ⟨hphoto, by simp⟩
  | snoc run step ih =>
    obtain ⟨hphoto', hiff⟩ := step_recoverable_iff ih.1 step
    refine ⟨hphoto', ?_⟩
    rw [hiff, ih.2, List.forall_mem_append, List.forall_mem_singleton, and_assoc]

/-- A form filled in for an unregistered email address. -/
private def aliceForm : SignUp where
  userDetail :=
    { photoURL := some "file:///p"
      displayName := some "Alice"
      emailAddress := some "a@b.c"
      userName := some "alice"
      password := some "Secret1!" }
  accounts _ := none
  users _ := none

private def aliceUser : User := ⟨"u", by decide, none, none, none⟩

/-- Auth creates the account, and the upload of the profile image fails: from then on the email
address is in use, and a sign-in finds no record. -/
theorem not_run_recoverable :
    ¬ ∀ (email password : String) (s₀ s : SignUp) (ts : List (Transition SignUp Event)),
      s₀.userDetail.photoURL ≠ none → s₀.accounts email = none →
        Run (Step email password) s₀ ts s → s.Recoverable email password := by
  intro h
  have start : Run (Step "a@b.c" "Secret1!") aliceForm [] _ := .nil _
  have run := start.snoc (.attempt rfl rfl ⟨fun _ _ => rfl, fun _ _ => rfl⟩
    (show aliceForm.createAccount ⟨.ok aliceUser, some [], .error (.backend "network"), none,
      .error (.fireBase .failedToFetch)⟩ = _ from rfl))
  have hrecoverable := h _ _ _ _ _ (by decide) rfl run
  rcases (recoverable_iff (by decide)).mp hrecoverable with hnone | ⟨user, haccount, hrecord⟩
  · exact absurd hnone (by decide)
  · exact hrecord rfl

/-- Auth fails, and the form is submitted again. -/
theorem run_recoverable_iff_two : ∃ ts s, Run (Step "a@b.c" "Secret1!") aliceForm ts s ∧
    ts.length = 1 ∧ s.Recoverable "a@b.c" "Secret1!" := by
  have start : Run (Step "a@b.c" "Secret1!") aliceForm [] _ := .nil _
  have run := start.snoc (.attempt rfl rfl ⟨fun _ _ => rfl, fun _ _ => rfl⟩
    (show aliceForm.createAccount ⟨.error (.backend "network"), some [], .ok "", none,
      .error (.fireBase .failedToFetch)⟩ = _ from rfl))
  refine ⟨_, _, run, rfl, (run_recoverable_iff (by decide) run).mpr ⟨.inl rfl, ?_⟩⟩
  simp [RefusedByAuth]

end SignUp

end TwitterLite
