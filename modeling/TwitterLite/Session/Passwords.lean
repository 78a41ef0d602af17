import TwitterLite.Common.Encoding
import TwitterLite.Library.Unwinding
import TwitterLite.Session.Authentication

/-!
# Passwords never reach the database

The model of a form is one object: the account creation works on it over several stages, and stores
it and hands it to the callback at the end. The encoder of a user writes the password too. What
keeps the password out of the record is that the last stage before the write clears it, whatever the
earlier stages and attempts have left in the object.

`LoginState` has the object of each flow with the stage that the flow waits at; flows on different
objects may be under way at once. While a flow is under way, the activity view covers the form. What
an observer sees are the uploads, the records that are written, and what the callbacks receive.

States that differ in the passwords only, and inputs that do, cannot be told apart
(`TwitterLite.LoginState.next_sameButPasswords`), since the record that is written does not depend
on the password (`TwitterLite.continueAddUpdate_password`).

## Main definitions

* `TwitterLite.Stage`, `TwitterLite.Slot`, `TwitterLite.LoginState`, `TwitterLite.LoginState.next`.
* `TwitterLite.Observation`, `TwitterLite.LoginEvent`.
* `TwitterLite.UserModel.SameButPassword`, `TwitterLite.LoginState.SameButPasswords`.

## Main results

* `TwitterLite.Slot.stages_of_addUpdate`.
* `TwitterLite.LoginState.passwords_unobserved`.

Source: `FirebaseAuthenticationManager.swift`, lines 39–160; `UserModel.swift`, lines 27–51;
`FirebaseDatabaseManager.swift`, lines 71–97; `CreateAccountViewController.swift`, lines 41–84;
`SigninViewController.swift`, lines 27–65; `BaseViewController.swift`, lines 158–174.
-/

namespace TwitterLite

/-! ### The flows, stage by stage -/

/-- What a flow waits for. -/
inductive Stage where
  /-- `Auth.signIn` with an email address. -/
  | signIn
  /-- The query of the record of the signed-in user. -/
  | getLoggedInUserDetail
  /-- `Auth.createUser`. -/
  | createUser
  /-- `Auth.signIn` with a credential. -/
  | authenticateUser
  /-- The upload of the profile image. -/
  | uploadAttachment
  /-- The write of the record. -/
  | post
  deriving DecidableEq, Repr

/-- The object that a flow works on, and what the flow waits for, if it is under way. -/
structure Slot where
  userDetail : UserModel := {}
  stage : Option Stage := none
  deriving DecidableEq, Repr

/-- Auth's current user and the objects of all flows. -/
structure LoginState where
  currentUser : Option User
  slots : ℕ → Slot

/-- What is typed or picked in a form. -/
inductive Edit where
  | displayName (text : Option String)
  | emailAddress (text : Option String)
  | userName (text : Option String)
  | password (text : Option String)
  | photoURL (url : String)
  deriving DecidableEq, Repr

/-- `textFieldChanged` and `imagePickerController` of the forms. -/
def Edit.apply (userModel : UserModel) : Edit → UserModel
  | .displayName text => { userModel with displayName := text }
  | .emailAddress text => { userModel with emailAddress := text }
  | .userName text => { userModel with userName := text }
  | .password text => { userModel with password := text }
  | .photoURL url => { userModel with photoURL := some url }

/-- What happens to a flow: its form is edited, it is started, or it is answered. The answer of Auth
comes with the content of the photo's URL, which is read next. -/
inductive FlowEvent where
  | edit (edit : Edit)
  | signIn
  | createAccount
  | authenticateUser
  | authAnswered (answer : Except AppError User) (data : Option Data)
  | recordAnswered (answer : Except AppError UserModel)
  | uploadAnswered (answer : Except AppError String)
  | postAnswered (error : Option AppError)

/-- What can happen. -/
inductive LoginEvent where
  | flow (i : ℕ) (event : FlowEvent)
  | signOut

/-- What can be seen of the flows: what is uploaded and what is written, and what the callbacks
receive: an error, the profile of a sign-in, or the profile of an account update. -/
inductive Observation where
  | uploaded (path : String) (data : Data)
  | written (path : String) (value : DatabaseTree)
  | failed (error : AppError)
  | signedIn (user : UserModel)
  | updated (user : UserModel)

namespace Slot

variable (slot : Slot)

/-- The callback of the flow receives an error. -/
def failed (error : AppError) : Slot × List Observation :=
  ({ slot with stage := none }, [.failed error])

/-- A flow that needs the email address and the password is started. -/
def started (stage : Stage) : Slot × List Observation :=
  match slot.userDetail.emailAddress, slot.userDetail.password with
  | some _, some _ => ({ slot with stage := some stage }, [])
  | _, _ => slot.failed (.login .missingParameters)

/-- `FirebaseAuthenticationManager.addUpdate`, up to the upload. -/
def addUpdate (user : UserModel) (data : Option Data) : Slot × List Observation :=
  match user.photoURL, data, user.userID with
  | some _, some data, some fileName =>
    (⟨user, some .uploadAttachment⟩,
      [.uploaded (PhotoEndPoint.uploadUserProfileImage fileName).path data])
  | _, _, _ => failed ⟨user, none⟩ (.fireBase .missingParameters)

/-- `FirebaseAuthenticationManager.continueAddUpdate`, up to the write: the object is cleared before
it is encoded. -/
def continueAddUpdate (url : String) : Slot × List Observation :=
  match TwitterLite.continueAddUpdate slot.userDetail url none with
  | .ok (path, userModel) =>
    (⟨userModel, some .post⟩, [.written path (encodeUserModel userModel)])
  | .error error => slot.failed error

/-- What an event makes of the object and the stage of its flow, and what is seen of it. -/
def next (currentUser : Option User) : FlowEvent → Option (Slot × List Observation)
  | .edit edit =>
    if slot.stage = none then some ({ slot with userDetail := edit.apply slot.userDetail }, [])
    else none
  | .signIn => if slot.stage = none then some (slot.started .signIn) else none
  | .createAccount => if slot.stage = none then some (slot.started .createUser) else none
  | .authenticateUser =>
    if slot.stage = none then some ({ slot with stage := some .authenticateUser }, []) else none
  | .authAnswered answer data =>
    match slot.stage, answer with
    | some .signIn, .ok _ => some ({ slot with stage := some .getLoggedInUserDetail }, [])
    | some .createUser, .ok user => some (addUpdate (createdAccount slot.userDetail user) data)
    | some .authenticateUser, .ok user => some (addUpdate (authenticationDidComplete user) data)
    | some .signIn, .error error | some .createUser, .error error
    | some .authenticateUser, .error error => some (slot.failed error)
    | _, _ => none
  | .recordAnswered answer =>
    match slot.stage, answer with
    | some .getLoggedInUserDetail, .ok record =>
      some ({ slot with stage := none },
        [.signedIn { record with userID := currentUser.map User.uid }])
    | some .getLoggedInUserDetail, .error error => some (slot.failed error)
    | _, _ => none
  | .uploadAnswered answer =>
    match slot.stage, answer with
    | some .uploadAttachment, .ok url => some (slot.continueAddUpdate url)
    | some .uploadAttachment, .error error => some (slot.failed error)
    | _, _ => none
  | .postAnswered error =>
    match slot.stage, error with
    | some .post, none => some ({ slot with stage := none }, [.updated slot.userDetail])
    | some .post, some error => some (slot.failed error)
    | _, _ => none

end Slot

/-- Auth's current user after an event. -/
def FlowEvent.currentUser (currentUser : Option User) : FlowEvent → Option User
  | .authAnswered (.ok user) _ => some user
  | _ => currentUser

namespace LoginState

/-- The state after an event, and what is seen of it. -/
def next (s : LoginState) : LoginEvent → Option (LoginState × List Observation)
  | .flow i event =>
    ((s.slots i).next s.currentUser event).map fun result =>
      (⟨event.currentUser s.currentUser, Function.update s.slots i result.1⟩, result.2)
  | .signOut => some ({ s with currentUser := none }, [])

/-- No flow is under way. -/
def Idle (s : LoginState) : Prop := ∀ i, (s.slots i).stage = none

end LoginState

/-! ### The account update as a whole -/

/-- An account update that succeeds goes through the upload, and writes the record that it hands to
the callback. -/
theorem Slot.stages_of_addUpdate {user record : UserModel} {data : Option Data} {url path : String}
    (h : TwitterLite.addUpdate user data (.ok url) none = .ok (path, record)) :
    ∃ fileName photo,
      addUpdate user data = (⟨user, some .uploadAttachment⟩,
        [.uploaded (PhotoEndPoint.uploadUserProfileImage fileName).path photo]) ∧
      continueAddUpdate ⟨user, some .uploadAttachment⟩ url = (⟨record, some .post⟩,
        [.written path (encodeUserModel record)]) := by
  unfold TwitterLite.addUpdate at h
  split at h
  next photoURL photo fileName hphotoURL hfileName =>
    have hrecord : TwitterLite.continueAddUpdate user url none = .ok (path, record) := h
    refine ⟨fileName, photo, ?_, ?_⟩
    · simp only [addUpdate, hphotoURL, hfileName]
    · simp only [continueAddUpdate, hrecord]
  · cases h

/-! ### What cannot be told apart -/

/-- The second model differs from the first in its password at most; both have one or neither. -/
def UserModel.SameButPassword (user user' : UserModel) : Prop :=
  ∃ password, (user.password = none ↔ password = none) ∧ user' = { user with password := password }

/-- The second event types another password at most. -/
inductive LoginEvent.SameButPassword : LoginEvent → LoginEvent → Prop
  | refl (event : LoginEvent) : SameButPassword event event
  | password (i : ℕ) (text text' : String) :
      SameButPassword (.flow i (.edit (.password (some text))))
        (.flow i (.edit (.password (some text'))))

/-- The flow waits at the same stage, on an object that differs in its password at most; an object
that is being written has none. -/
structure Slot.SameButPassword (slot slot' : Slot) : Prop where
  stage_eq : slot'.stage = slot.stage
  userDetail : slot.userDetail.SameButPassword slot'.userDetail
  cleared : slot.stage = some .post → slot.userDetail.password = none

/-- The states differ in the passwords of their objects at most. -/
structure LoginState.SameButPasswords (s s' : LoginState) : Prop where
  currentUser_eq : s'.currentUser = s.currentUser
  slots (i : ℕ) : (s.slots i).SameButPassword (s'.slots i)

namespace UserModel.SameButPassword

variable {user user' : UserModel}

theorem refl (user : UserModel) : user.SameButPassword user := ⟨user.password, Iff.rfl, rfl⟩

/-- Without a password the models are the same. -/
theorem eq_of_cleared (h : user.SameButPassword user') (hcleared : user.password = none) :
    user' = user := by
  obtain ⟨password, hnone, rfl⟩ := h
  rw [hnone.mp hcleared, ← hcleared]

theorem createdAccount (h : user.SameButPassword user') (account : User) :
    (createdAccount user account).SameButPassword (TwitterLite.createdAccount user' account) := by
  obtain ⟨password, hnone, rfl⟩ := h
  exact ⟨password, hnone, rfl⟩

theorem edit (h : user.SameButPassword user') (edit : Edit) :
    (edit.apply user).SameButPassword (edit.apply user') := by
  obtain ⟨password, hnone, rfl⟩ := h
  cases edit with
  | password text => exact ⟨text, Iff.rfl, rfl⟩
  | displayName text => exact ⟨password, hnone, rfl⟩
  | emailAddress text => exact ⟨password, hnone, rfl⟩
  | userName text => exact ⟨password, hnone, rfl⟩
  | photoURL url => exact ⟨password, hnone, rfl⟩

end UserModel.SameButPassword

/-- **The record that is written does not depend on the password.** -/
theorem continueAddUpdate_password (user : UserModel) (password : Option String) (url : String)
    (setValue : Option AppError) :
    continueAddUpdate { user with password := password } url setValue =
      continueAddUpdate user url setValue := by
  unfold continueAddUpdate
  cases user.userID <;> rfl

/-- The record that is written has no password. -/
theorem password_of_continueAddUpdate {user record : UserModel} {url path : String}
    {setValue : Option AppError}
    (h : continueAddUpdate user url setValue = .ok (path, record)) : record.password = none := by
  unfold continueAddUpdate at h
  split at h
  · cases h
  · split at h
    · obtain ⟨-, rfl⟩ := Prod.mk.inj (Except.ok.inj h)
      rfl
    · cases h

/-! ### One event -/

namespace Slot

/-- The objects differ in the password at most, and the same was seen. -/
def Indistinguishable (result result' : Slot × List Observation) : Prop :=
  result.1.SameButPassword result'.1 ∧ result'.2 = result.2

variable {slot slot' : Slot} {user user' : UserModel}

theorem failed_indistinguishable (h : user.SameButPassword user') (stage : Option Stage)
    (error : AppError) :
    Indistinguishable (failed ⟨user, stage⟩ error) (failed ⟨user', stage⟩ error) :=
  ⟨⟨rfl, h, fun hstage => by cases hstage⟩, rfl⟩

theorem started_eq {stage : Stage}
    (h : slot.userDetail.emailAddress ≠ none ∧ slot.userDetail.password ≠ none) :
    slot.started stage = ({ slot with stage := some stage }, []) := by
  obtain ⟨email, hemail⟩ := Option.ne_none_iff_exists'.mp h.1
  obtain ⟨text, hpassword⟩ := Option.ne_none_iff_exists'.mp h.2
  simp only [started, hemail, hpassword]

theorem started_eq_failed {stage : Stage}
    (h : ¬ (slot.userDetail.emailAddress ≠ none ∧ slot.userDetail.password ≠ none)) :
    slot.started stage = slot.failed (.login .missingParameters) := by
  unfold started
  split
  next hemail hpassword => exact absurd ⟨by simp [hemail], by simp [hpassword]⟩ h
  next => rfl

theorem started_indistinguishable (h : user.SameButPassword user') {stage : Stage}
    (hstage : stage ≠ .post) :
    Indistinguishable (started ⟨user, none⟩ stage) (started ⟨user', none⟩ stage) := by
  have hfailed := failed_indistinguishable h none (.login .missingParameters)
  obtain ⟨password, hnone, rfl⟩ := h
  by_cases htyped : user.emailAddress ≠ none ∧ user.password ≠ none
  · have htyped' : user.emailAddress ≠ none ∧ password ≠ none :=
      ⟨htyped.1, mt hnone.mpr htyped.2⟩
    have hstarted : started ⟨user, none⟩ stage = (⟨user, some stage⟩, []) := started_eq htyped
    have hstarted' : started ⟨{ user with password := password }, none⟩ stage =
        (⟨{ user with password := password }, some stage⟩, []) := started_eq htyped'
    rw [hstarted, hstarted']
    exact ⟨⟨rfl, ⟨password, hnone, rfl⟩, fun h => absurd (Option.some.inj h) hstage⟩, rfl⟩
  · have htyped' : ¬ (user.emailAddress ≠ none ∧ password ≠ none) := fun h =>
      htyped ⟨h.1, mt hnone.mp h.2⟩
    have hstarted : started ⟨user, none⟩ stage = _ := started_eq_failed htyped
    have hstarted' : started ⟨{ user with password := password }, none⟩ stage = _ :=
      started_eq_failed htyped'
    rwa [hstarted, hstarted']

theorem addUpdate_indistinguishable (h : user.SameButPassword user') (data : Option Data) :
    Indistinguishable (addUpdate user data) (addUpdate user' data) := by
  have hfailed := failed_indistinguishable h none (.fireBase .missingParameters)
  obtain ⟨password, hnone, rfl⟩ := h
  simp only [addUpdate]
  split
  · exact ⟨⟨rfl, ⟨password, hnone, rfl⟩, fun h => by cases h⟩, rfl⟩
  · exact hfailed

/-- The write of the record removes every difference. -/
theorem continueAddUpdate_indistinguishable (h : user.SameButPassword user')
    (stage : Option Stage) (url : String) :
    Indistinguishable (continueAddUpdate ⟨user, stage⟩ url)
      (continueAddUpdate ⟨user', stage⟩ url) := by
  obtain ⟨password, hnone, rfl⟩ := h
  simp only [continueAddUpdate, continueAddUpdate_password]
  split
  next path record hrecord =>
    exact ⟨⟨rfl, .refl record, fun _ => password_of_continueAddUpdate hrecord⟩, rfl⟩
  next error _ => exact failed_indistinguishable ⟨password, hnone, rfl⟩ stage error

/-- What can only be done while the flow is not under way. -/
theorem idle_indistinguishable {stage : Option Stage} {result next next' : Slot × List Observation}
    (hnext : (if stage = none then some next else none) = some result)
    (h : stage = none → Indistinguishable next next') :
    ∃ result', (if stage = none then some next' else none) = some result' ∧
      Indistinguishable result result' := by
  obtain ⟨hstage, hresult⟩ := Option.ite_none_right_eq_some.mp hnext
  obtain rfl := Option.some.inj hresult
  exact ⟨next', if_pos hstage, h hstage⟩

/-- The same event in states that differ in the passwords at most. -/
theorem next_indistinguishable (h : slot.SameButPassword slot') (currentUser : Option User)
    {event : FlowEvent} {result : Slot × List Observation}
    (hnext : slot.next currentUser event = some result) :
    ∃ result', slot'.next currentUser event = some result' ∧
      Indistinguishable result result' := by
  obtain ⟨user, stage⟩ := slot
  obtain ⟨user', stage'⟩ := slot'
  obtain ⟨hstage, hmodel, hcleared⟩ := h
  dsimp only at hstage hmodel hcleared
  subst hstage
  cases event with
  | edit edit =>
    refine idle_indistinguishable hnext fun hidle => ?_
    subst hidle
    exact ⟨⟨rfl, hmodel.edit edit, fun h => by cases h⟩, rfl⟩
  | signIn =>
    refine idle_indistinguishable hnext fun hidle => ?_
    subst hidle
    exact started_indistinguishable hmodel (by decide)
  | createAccount =>
    refine idle_indistinguishable hnext fun hidle => ?_
    subst hidle
    exact started_indistinguishable hmodel (by decide)
  | authenticateUser =>
    exact idle_indistinguishable hnext fun _ => ⟨⟨rfl, hmodel, fun h => by cases h⟩, rfl⟩
  | authAnswered answer data =>
    simp only [next] at hnext ⊢
    split at hnext <;> cases hnext
    · exact ⟨_, rfl, ⟨rfl, hmodel, fun h => by cases h⟩, rfl⟩
    next account =>
      exact ⟨_, rfl, addUpdate_indistinguishable (hmodel.createdAccount account) data⟩
    · exact ⟨_, rfl, addUpdate_indistinguishable (.refl _) data⟩
    all_goals exact ⟨_, rfl, failed_indistinguishable hmodel _ _⟩
  | recordAnswered answer =>
    simp only [next] at hnext ⊢
    split at hnext <;> cases hnext
    · exact ⟨_, rfl, ⟨rfl, hmodel, fun h => by cases h⟩, rfl⟩
    · exact ⟨_, rfl, failed_indistinguishable hmodel _ _⟩
  | uploadAnswered answer =>
    simp only [next] at hnext ⊢
    split at hnext <;> cases hnext
    · exact ⟨_, rfl, continueAddUpdate_indistinguishable hmodel _ _⟩
    · exact ⟨_, rfl, failed_indistinguishable hmodel _ _⟩
  | postAnswered error =>
    simp only [next] at hnext ⊢
    split at hnext <;> cases hnext
    · -- the object has been cleared, in both states
      have hsame : user' = user := hmodel.eq_of_cleared (hcleared rfl)
      subst hsame
      exact ⟨_, rfl, ⟨rfl, .refl _, fun h => by cases h⟩, rfl⟩
    · exact ⟨_, rfl, failed_indistinguishable hmodel _ _⟩

theorem updated_notMem_failed (error : AppError) : .updated user ∉ (slot.failed error).2 := by
  simp [failed]

theorem updated_notMem_started (stage : Stage) : .updated user ∉ (slot.started stage).2 := by
  unfold started
  split
  · exact List.not_mem_nil
  · exact updated_notMem_failed _

theorem updated_notMem_addUpdate (data : Option Data) :
    .updated user ∉ (addUpdate user' data).2 := by
  unfold addUpdate
  split
  · simp
  · exact updated_notMem_failed _

theorem updated_notMem_continueAddUpdate (url : String) :
    .updated user ∉ (slot.continueAddUpdate url).2 := by
  unfold continueAddUpdate
  split
  · simp
  · exact updated_notMem_failed _

/-- The profile of an account update is the object that has been written. -/
theorem updated_of_next {currentUser : Option User} {event : FlowEvent}
    {result : Slot × List Observation} (hnext : slot.next currentUser event = some result)
    (hmem : .updated user ∈ result.2) : slot.stage = some .post ∧ user = slot.userDetail := by
  cases event with
  | edit edit =>
    obtain rfl := Option.some.inj (Option.ite_none_right_eq_some.mp hnext).2
    exact absurd hmem List.not_mem_nil
  | signIn =>
    obtain rfl := Option.some.inj (Option.ite_none_right_eq_some.mp hnext).2
    exact absurd hmem (updated_notMem_started _)
  | createAccount =>
    obtain rfl := Option.some.inj (Option.ite_none_right_eq_some.mp hnext).2
    exact absurd hmem (updated_notMem_started _)
  | authenticateUser =>
    obtain rfl := Option.some.inj (Option.ite_none_right_eq_some.mp hnext).2
    exact absurd hmem List.not_mem_nil
  | authAnswered answer data =>
    simp only [next] at hnext
    split at hnext <;> cases hnext
    · exact absurd hmem List.not_mem_nil
    · exact absurd hmem (updated_notMem_addUpdate _)
    · exact absurd hmem (updated_notMem_addUpdate _)
    all_goals exact absurd hmem (updated_notMem_failed _)
  | recordAnswered answer =>
    simp only [next] at hnext
    split at hnext <;> cases hnext
    · simp at hmem
    · exact absurd hmem (updated_notMem_failed _)
  | uploadAnswered answer =>
    simp only [next] at hnext
    split at hnext <;> cases hnext
    · exact absurd hmem (updated_notMem_continueAddUpdate _)
    · exact absurd hmem (updated_notMem_failed _)
  | postAnswered error =>
    simp only [next] at hnext
    split at hnext
    next hstage =>
      cases hnext
      exact ⟨hstage, Observation.updated.inj (List.mem_singleton.mp hmem)⟩
    · cases hnext
      exact absurd hmem (updated_notMem_failed _)
    · cases hnext

/-- Another password is typed. -/
theorem next_password (h : slot.SameButPassword slot') (currentUser : Option User)
    (text text' : String) {result : Slot × List Observation}
    (hnext : slot.next currentUser (.edit (.password (some text))) = some result) :
    ∃ result', slot'.next currentUser (.edit (.password (some text'))) = some result' ∧
      Indistinguishable result result' := by
  obtain ⟨user, stage⟩ := slot
  obtain ⟨user', stage'⟩ := slot'
  obtain ⟨hstage, ⟨password, -, huser⟩, -⟩ := h
  dsimp only at hstage huser
  subst hstage huser
  refine idle_indistinguishable hnext fun hidle => ?_
  subst hidle
  exact ⟨⟨rfl, ⟨some text', by simp [Edit.apply], rfl⟩, fun h => by cases h⟩, rfl⟩

end Slot

namespace LoginState

variable {s s' t : LoginState} {observations : List Observation}

/-- A step of one flow. -/
theorem next_flow (h : s.SameButPasswords s') {i : ℕ} {event event' : FlowEvent}
    (hcurrent : event'.currentUser s.currentUser = event.currentUser s.currentUser)
    (hslot : ∀ result, (s.slots i).next s.currentUser event = some result →
      ∃ result', (s'.slots i).next s.currentUser event' = some result' ∧
        Slot.Indistinguishable result result')
    (hnext : s.next (.flow i event) = some (t, observations)) :
    ∃ t', s'.next (.flow i event') = some (t', observations) ∧ t.SameButPasswords t' := by
  obtain ⟨result, hresult, heq⟩ := Option.map_eq_some_iff.mp hnext
  obtain ⟨rfl, rfl⟩ := Prod.mk.inj heq
  obtain ⟨result', hresult', hsame, hseen⟩ := hslot result hresult
  refine ⟨⟨event'.currentUser s'.currentUser, Function.update s'.slots i result'.1⟩, ?_, ?_, ?_⟩
  · rw [next, h.currentUser_eq, hresult', Option.map_some, hseen]
  · rw [h.currentUser_eq]
    exact hcurrent
  · intro j
    by_cases hj : j = i
    · subst hj
      simpa only [Function.update_self] using hsame
    · simpa only [Function.update_of_ne hj] using h.slots j

/-- **One step**: states and events that differ in the passwords at most lead to such states, and
the same is seen of them. -/
theorem next_sameButPasswords {event event' : LoginEvent} (h : s.SameButPasswords s')
    (hevent : event.SameButPassword event') (hnext : s.next event = some (t, observations)) :
    ∃ t', s'.next event' = some (t', observations) ∧ t.SameButPasswords t' := by
  cases hevent with
  | refl event =>
    cases event with
    | flow i event =>
      refine next_flow h ?_ (fun result hresult => ?_) hnext
      · rfl
      · exact Slot.next_indistinguishable (h.slots i) s.currentUser hresult
    | signOut =>
      obtain ⟨rfl, rfl⟩ := Prod.mk.inj (Option.some.inj hnext)
      exact ⟨{ s' with currentUser := none }, rfl, rfl, h.slots⟩
  | password i text text' =>
    refine next_flow h ?_ (fun result hresult => ?_) hnext
    · rfl
    · exact Slot.next_password (h.slots i) s.currentUser text text' hresult

/-- An object that is being written has no password. -/
theorem cleared_of_next {event : LoginEvent} (h : s.SameButPasswords s)
    (hnext : s.next event = some (t, observations)) : t.SameButPasswords t := by
  obtain ⟨t', hnext', ht⟩ := next_sameButPasswords h (.refl event) hnext
  obtain ⟨rfl, -⟩ := Prod.mk.inj (Option.some.inj (hnext.symm.trans hnext'))
  exact ht

/-- The profile of an account update has no password. -/
theorem password_of_next {event : LoginEvent} (h : s.SameButPasswords s)
    (hnext : s.next event = some (t, observations)) :
    ∀ user, .updated user ∈ observations → user.password = none := by
  intro user hmem
  cases event with
  | flow i event =>
    obtain ⟨result, hresult, heq⟩ := Option.map_eq_some_iff.mp hnext
    obtain ⟨-, rfl⟩ := Prod.mk.inj heq
    obtain ⟨hstage, rfl⟩ := Slot.updated_of_next hresult hmem
    exact (h.slots i).cleared hstage
  | signOut =>
    obtain ⟨-, rfl⟩ := Prod.mk.inj (Option.some.inj hnext)
    exact absurd hmem List.not_mem_nil

/-- Between the flows, states with the same forms up to the passwords cannot be told apart. -/
theorem Idle.sameButPasswords (hidle : s.Idle) (hidle' : s'.Idle)
    (hcurrent : s'.currentUser = s.currentUser)
    (hforms : ∀ i, (s.slots i).userDetail.SameButPassword (s'.slots i).userDetail) :
    s.SameButPasswords s' where
  currentUser_eq := hcurrent
  slots i := ⟨(hidle' i).trans (hidle i).symm, hforms i, fun hstage => by
    rw [hidle i] at hstage
    cases hstage⟩

/-- **Passwords never reach the database.** Runs of the login flows from states that differ in the
passwords at most, with answers that are the same and other passwords typed at most, upload, write
and deliver the same; and the profile of an account update has no password. -/
theorem passwords_unobserved {events events' : List LoginEvent} (h : s.SameButPasswords s')
    (hevents : List.Forall₂ LoginEvent.SameButPassword events events')
    (hrun : Unwinding.run next s events = some (t, observations)) :
    (∃ t', Unwinding.run next s' events' = some (t', observations)) ∧
      ∀ user, .updated user ∈ observations → user.password = none := by
  constructor
  · have hstep : ∀ (s s' : LoginState) (event event' : LoginEvent) (t : LoginState)
        (o : List Observation), s.SameButPasswords s' → event.SameButPassword event' →
          s.next event = some (t, o) →
            ∃ t', s'.next event' = some (t', o) ∧ t.SameButPasswords t' :=
      fun _ _ _ _ _ _ hs hevent hnext => next_sameButPasswords hs hevent hnext
    obtain ⟨t', hrun', -⟩ := Unwinding.run_related hstep h hevents hrun
    exact ⟨t', hrun'⟩
  · have hself : s.SameButPasswords s :=
      ⟨rfl, fun i => ⟨rfl, .refl _, (h.slots i).cleared⟩⟩
    have hstep : ∀ (s : LoginState) (event : LoginEvent) (t : LoginState) (o : List Observation),
        s.SameButPasswords s → s.next event = some (t, o) → t.SameButPasswords t ∧
          ∀ x ∈ o, ∀ user, x = .updated user → user.password = none := by
      intro s event t o hs hnext
      refine ⟨cleared_of_next hs hnext, ?_⟩
      rintro _ hmem user rfl
      exact password_of_next hs hnext user hmem
    exact fun user hmem => Unwinding.run_forall hstep hself hrun _ hmem user rfl

/-- A form with the given password. -/
private def formWith (password : String) : LoginState where
  currentUser := none
  slots _ :=
    { userDetail :=
        { photoURL := some "file:///p", emailAddress := some "a@b.c", password := some password } }

private def newUser : User := ⟨"n", by decide, none, none, none⟩

/-- An account creation whose write fails, and another one with the password typed again. -/
private def attempts (password : String) : List LoginEvent :=
  [.flow 0 .createAccount, .flow 0 (.authAnswered (.ok newUser) (some [])),
    .flow 0 (.uploadAnswered (.ok "https://p")),
    .flow 0 (.postAnswered (some (.backend "network"))),
    .flow 0 (.edit (.password (some password))), .flow 0 .createAccount,
    .flow 0 (.authAnswered (.ok newUser) (some [])), .flow 0 (.uploadAnswered (.ok "https://q")),
    .flow 0 (.postAnswered none)]

/-- Two retried account creations with different passwords. -/
theorem passwords_unobserved_two : ∃ t observations,
    Unwinding.run next (formWith "Secret1!") (attempts "Secret2!") = some (t, observations) ∧
      observations.length = 6 ∧
      (∃ t', Unwinding.run next (formWith "Other1!x") (attempts "Other2!x") =
        some (t', observations)) ∧
      ∀ user, .updated user ∈ observations → user.password = none := by
  have hstart : (formWith "Secret1!").SameButPasswords (formWith "Other1!x") :=
    Idle.sameButPasswords (fun _ => rfl) (fun _ => rfl) rfl
      fun _ => ⟨some "Other1!x", by simp [formWith], rfl⟩
  have hevents : List.Forall₂ LoginEvent.SameButPassword (attempts "Secret2!")
      (attempts "Other2!x") := by
    refine .cons (.refl _) (.cons (.refl _) (.cons (.refl _) (.cons (.refl _) ?_)))
    refine .cons (.password 0 _ _) (.cons (.refl _) (.cons (.refl _) (.cons (.refl _) ?_)))
    exact .cons (.refl _) .nil
  have hrun : Unwinding.run next (formWith "Secret1!") (attempts "Secret2!") = some (_, _) := rfl
  exact ⟨_, _, hrun, rfl, passwords_unobserved hstart hevents hrun⟩

end LoginState

end TwitterLite
