import TwitterLite.Library.DispatchGroup
import TwitterLite.Library.TransitionSystem
import TwitterLite.NewTweet.AddTweet

/-!
# Publishing, step by step

`NewTweetViewModel.addTweet` is a function of the completions of its uploads. Here it is the machine
that these completions drive: each photo that can be encoded is put into the storage, then its
download URL is requested, and the answer leaves the group; the last leave submits a block, which
writes the record; the answer to the write is handed to the callback. Everything may fail, and the
uploads overlap in any order.

Every run follows `addTweet` for the completions so far (`Publishing.phase_of_run`), and every run
is finite (`Publishing.length_le_rank`). When nothing is left to happen the callback has been called
once exactly if all photos could be encoded: the group is entered for every photo, but only the
uploads leave it (`Publishing.callBack_once_iff`).

## Main definitions

* `TwitterLite.Publishing`, `TwitterLite.Publishing.begin`, `TwitterLite.Publishing.Step`.
* `TwitterLite.Publishing.Quiescent`, `TwitterLite.Publishing.Phase`.

## Main results

* `TwitterLite.Publishing.phase_of_run`, `TwitterLite.Publishing.length_le_rank`.
* `TwitterLite.Publishing.callBack_once_iff`.

Source: `NewTweetViewModel.swift`, lines 22–69; `FirebaseDatabaseManager.swift`, lines 71–113.
-/

namespace TwitterLite

open TransitionSystem NewTweetViewModel

/-- A draft that is being published: the draft, the group of its photos, the photos that are being
put into the storage and those whose download URL has been requested, the record that is being
written, and what has been passed to the callback. -/
structure Publishing where
  tweetModel : PostTweetModel
  group : DispatchGroup := {}
  uploading : List ℕ := []
  awaitingURL : List ℕ := []
  writing : Option (String × PostTweetModel) := none
  callBacks : List (Option AppError) := []

namespace Publishing

/-- `NewTweetViewModel.continueAddTweet`, up to the request. -/
def continued (s : Publishing) (tweetID : String) (now : ℚ) : Publishing :=
  let outcome := continueAddTweet s.tweetModel tweetID now none
  { s with tweetModel := outcome.tweetModel, writing := outcome.posted }

/-- The call of `NewTweetViewModel.addTweet` with the generated key `tweetID`, at the time `now`:
the group is entered for every photo, and the photos that can be encoded are uploaded. -/
def begin (vm : NewTweetViewModel) (tweetID : String) (now : ℚ) : Publishing :=
  let tweetModel := { vm.tweetModel with tweetID := some tweetID }
  match tweetModel.photos with
  | some photos =>
    { tweetModel := { tweetModel with photoURL := some [] }
      group := (DispatchGroup.enter^[photos.length] {}).notify
      uploading := started photos }
  | none => { tweetModel := tweetModel : Publishing }.continued tweetID now

/-- What the backend and the main queue do. -/
inductive Event where
  | putCompleted (index : ℕ) (error : Option AppError)
  | urlCompleted (index : ℕ) (outcome : Except AppError String)
  | notified (now : ℚ)
  | written (error : Option AppError)

/-- One step. -/
inductive Step (tweetID : String) : Publishing → Event → Publishing → Prop
  /-- The download URL is requested, whether or not the photo has been stored. -/
  | putCompleted {s : Publishing} {before after : List ℕ} {index : ℕ} {error : Option AppError}
      (pending : s.uploading = before ++ index :: after) :
      Step tweetID s (.putCompleted index error)
        { s with uploading := before ++ after, awaitingURL := s.awaitingURL ++ [index] }
  | urlCompleted {s : Publishing} {before after : List ℕ} {index : ℕ}
      {outcome : Except AppError String} (pending : s.awaitingURL = before ++ index :: after) :
      Step tweetID s (.urlCompleted index outcome)
        { s with
          tweetModel := uploadCompleted s.tweetModel outcome
          group := s.group.leave
          awaitingURL := before ++ after }
  /-- The block of the group runs. -/
  | notified {s : Publishing} {now : ℚ} (queued : s.group.queued = true) :
      Step tweetID s (.notified now)
        ({ s with
          tweetModel := { s.tweetModel with photos := none }
          group := s.group.run }.continued tweetID now)
  | written {s : Publishing} {record : String × PostTweetModel} {error : Option AppError}
      (pending : s.writing = some record) :
      Step tweetID s (.written error)
        { s with writing := none, callBacks := s.callBacks ++ [error] }

/-- No request is outstanding, and no block is queued. -/
structure Quiescent (s : Publishing) : Prop where
  uploading_eq : s.uploading = []
  awaitingURL_eq : s.awaitingURL = []
  queued_eq : s.group.queued = false
  writing_eq : s.writing = none

/-- The completion of an upload, if the event is one. -/
def Event.completion : Event → Option (Except AppError String)
  | .urlCompleted _ outcome => some outcome
  | _ => none

/-- The completions of the uploads, in their order. -/
def completions (ts : List (Transition Publishing Event)) : List (Except AppError String) :=
  ts.filterMap fun τ => τ.event.completion

theorem completions_concat (ts : List (Transition Publishing Event)) (s s' : Publishing)
    (e : Event) : completions (ts ++ [⟨s, e, s'⟩]) = completions ts ++ e.completion.toList := by
  simp only [completions, List.filterMap_append]
  cases h : e.completion <;> simp [h]

/-! ### Runs are finite -/

/-- What is left to happen, at most. -/
def rank (s : Publishing) : ℕ :=
  2 * s.uploading.length + s.awaitingURL.length + 2 * s.group.waiting.toNat +
    2 * s.group.queued.toNat + s.writing.isSome.toNat

theorem pending_leave (group : DispatchGroup) :
    group.leave.waiting.toNat + group.leave.queued.toNat ≤
      group.waiting.toNat + group.queued.toNat := by
  unfold DispatchGroup.leave
  split
  next h =>
    rw [h.2]
    exact Nat.add_comm 1 0 ▸ Nat.le_add_right _ _
  next => exact le_rfl

variable {vm : NewTweetViewModel} {tweetID : String} {s s' : Publishing} {e : Event}

theorem rank_lt_of_step (step : Step tweetID s e s') : s'.rank < s.rank := by
  cases step with
  | putCompleted pending =>
    simp only [rank, pending, List.length_append, List.length_cons, List.length_nil]
    omega
  | urlCompleted pending =>
    have hleave := pending_leave s.group
    simp only [rank, pending, List.length_append, List.length_cons]
    omega
  | notified queued =>
    simp only [rank, continued, continueAddTweet, DispatchGroup.run, queued, Bool.toNat_true,
      Bool.toNat_false, Option.isSome_some]
    omega
  | written pending =>
    simp only [rank, pending, Option.isSome_some, Option.isSome_none, Bool.toNat_true,
      Bool.toNat_false]
    omega

/-- **Publishing comes to an end**: a run has no more steps than there are requests and blocks. -/
theorem length_le_rank {ts : List (Transition Publishing Event)}
    (run : Run (Step tweetID) s ts s') : ts.length ≤ s.rank := by
  have hlength := run.length_add_rank_le (fun _ _ _ (_ : True) _ => trivial)
    (fun _ _ _ _ step => rank_lt_of_step step) trivial
  omega

/-- As long as something is outstanding, something can happen. -/
theorem exists_step_of_not_quiescent (h : ¬ s.Quiescent) : ∃ e s', Step tweetID s e s' := by
  by_contra hnone
  simp only [not_exists] at hnone
  refine h ⟨?_, ?_, ?_, ?_⟩
  · refine List.eq_nil_iff_forall_not_mem.mpr fun index hindex => ?_
    obtain ⟨before, after, pending⟩ := List.append_of_mem hindex
    exact hnone (.putCompleted index none) _ (.putCompleted pending)
  · refine List.eq_nil_iff_forall_not_mem.mpr fun index hindex => ?_
    obtain ⟨before, after, pending⟩ := List.append_of_mem hindex
    exact hnone (.urlCompleted index (.ok "")) _ (.urlCompleted pending)
  · exact Bool.eq_false_iff.mpr fun queued => hnone (.notified 0) _ (.notified queued)
  · refine Option.eq_none_iff_forall_ne_some.mpr fun record pending => ?_
    exact hnone (.written none) _ (.written pending)

/-! ### What a run has done -/

/-- The draft when its photos begin to be uploaded. -/
def uploaded (vm : NewTweetViewModel) (tweetID : String) : PostTweetModel :=
  { vm.tweetModel with tweetID := some tweetID, photoURL := some [] }

/-- What a run has done, by the completions of the uploads so far: it is joining them, it is writing
the record that `addTweet` makes of them, or it is done. -/
inductive Phase (vm : NewTweetViewModel) (tweetID : String)
    (completions : List (Except AppError String)) (s : Publishing) : Prop
  | joining (photos : List ImageWrapper) (hphotos : vm.tweetModel.photos = some photos)
      (htweet : s.tweetModel = completions.foldl uploadCompleted (uploaded vm tweetID))
      (hgroup : s.group = .joining photos.length completions.length)
      (hcount : s.uploading.length + s.awaitingURL.length + completions.length =
        (started photos).length)
      (hwriting : s.writing = none) (hcallBacks : s.callBacks = [])
  | writing (now : ℚ)
      (hencodes : ∀ photos, vm.tweetModel.photos = some photos → Encodes photos)
      (hposted : ∀ setValue, ∃ stored, vm.addTweet tweetID completions now setValue =
        ⟨s.tweetModel, s.writing, stored, some setValue⟩)
      (hgroup : s.group = {}) (huploading : s.uploading = []) (hawaiting : s.awaitingURL = [])
      (hwriting : s.writing ≠ none) (hcallBacks : s.callBacks = [])
  | done (now : ℚ) (setValue : Option AppError)
      (hencodes : ∀ photos, vm.tweetModel.photos = some photos → Encodes photos)
      (hposted : ∃ posted stored, vm.addTweet tweetID completions now setValue =
        ⟨s.tweetModel, posted, stored, some setValue⟩)
      (hgroup : s.group = {}) (huploading : s.uploading = []) (hawaiting : s.awaitingURL = [])
      (hwriting : s.writing = none) (hcallBacks : s.callBacks = [setValue])

theorem length_started_le (photos : List ImageWrapper) :
    (started photos).length ≤ photos.length := by
  rw [started_eq]
  exact (List.length_filterMap_le _ _).trans_eq List.length_zipIdx

theorem phase_begin (vm : NewTweetViewModel) (tweetID : String) (now : ℚ) :
    Phase vm tweetID [] (begin vm tweetID now) := by
  cases hphotos : vm.tweetModel.photos with
  | none =>
    simp only [begin, hphotos]
    refine .writing now (fun _ h => by cases hphotos.symm.trans h) (fun setValue => ?_) rfl rfl rfl
      (Option.some_ne_none _) rfl
    simp only [addTweet, hphotos]
    exact ⟨_, rfl⟩
  | some photos =>
    simp only [begin, hphotos]
    exact .joining photos hphotos (by simp only [List.foldl_nil, uploaded, hphotos])
      (DispatchGroup.notify_iterate_enter _) rfl rfl rfl

/-- `addTweet` goes on with the draft once every photo has been uploaded. -/
theorem addTweet_of_joined {photos : List ImageWrapper}
    (hphotos : vm.tweetModel.photos = some photos)
    {completions : List (Except AppError String)} (hlength : completions.length = photos.length)
    {now : ℚ} {setValue : Option AppError} :
    vm.addTweet tweetID completions now setValue =
      continueAddTweet
        { completions.foldl uploadCompleted (uploaded vm tweetID) with photos := none } tweetID now
        setValue := by
  simp only [addTweet, uploaded, hphotos, hlength, if_true]

/-- The block of the group runs when all photos have been uploaded, and writes what `addTweet`
makes of the draft. -/
theorem phase_notified {completions : List (Except AppError String)} {now : ℚ}
    (h : Phase vm tweetID completions s) (queued : s.group.queued = true) :
    Phase vm tweetID completions
      ({ s with tweetModel := { s.tweetModel with photos := none }, group := s.group.run }.continued
        tweetID now) := by
  cases h with
  | joining photos hphotos htweet hgroup hcount hwriting hcallBacks =>
    rw [hgroup] at queued
    have hle := DispatchGroup.queued_joining.mp queued
    have hstarted := length_started_le photos
    have hlength : completions.length = photos.length := by omega
    have huploading : s.uploading.length = 0 := by omega
    have hawaiting : s.awaitingURL.length = 0 := by omega
    refine .writing now (fun photos' hphotos' => ?_) (fun setValue => ?_)
      (hgroup ▸ DispatchGroup.run_joining queued) (List.length_eq_zero_iff.mp huploading)
      (List.length_eq_zero_iff.mp hawaiting) (Option.some_ne_none _) hcallBacks
    · obtain rfl := Option.some.inj (hphotos.symm.trans hphotos')
      exact length_started_eq_iff.mp (by omega)
    · rw [addTweet_of_joined hphotos hlength]
      simp only [continued, htweet]
      exact ⟨_, rfl⟩
  | writing _ _ _ hgroup => cases hgroup ▸ queued
  | done _ _ _ _ hgroup => cases hgroup ▸ queued

/-- **A step follows `addTweet`.** -/
theorem phase_of_step {completions : List (Except AppError String)}
    (h : Phase vm tweetID completions s) (step : Step tweetID s e s') :
    Phase vm tweetID (completions ++ e.completion.toList) s' := by
  cases step with
  | putCompleted pending =>
    simp only [Event.completion, Option.toList_none, List.append_nil]
    cases h with
    | joining photos hphotos htweet hgroup hcount hwriting hcallBacks =>
      refine .joining photos hphotos htweet hgroup ?_ hwriting hcallBacks
      simp only [pending, List.length_append, List.length_cons, List.length_nil] at hcount ⊢
      omega
    | writing _ _ _ _ huploading => simp [huploading] at pending
    | done _ _ _ _ _ huploading => simp [huploading] at pending
  | urlCompleted pending =>
    simp only [Event.completion, Option.toList_some]
    cases h with
    | joining photos hphotos htweet hgroup hcount hwriting hcallBacks =>
      have hstarted := length_started_le photos
      simp only [pending, List.length_append, List.length_cons] at hcount
      refine .joining photos hphotos ?_ ?_ ?_ hwriting hcallBacks
      · rw [List.foldl_append, ← htweet]
        rfl
      · rw [hgroup, DispatchGroup.leave_joining (by omega), List.length_append]
        rfl
      · simp only [List.length_append, List.length_cons, List.length_nil]
        omega
    | writing _ _ _ _ _ hawaiting => simp [hawaiting] at pending
    | done _ _ _ _ _ _ hawaiting => simp [hawaiting] at pending
  | notified queued =>
    simp only [Event.completion, Option.toList_none, List.append_nil]
    exact phase_notified h queued
  | @written record error pending =>
    simp only [Event.completion, Option.toList_none, List.append_nil]
    cases h with
    | joining _ _ _ _ _ hwriting => cases hwriting.symm.trans pending
    | writing now hencodes hposted hgroup huploading hawaiting hwriting hcallBacks =>
      obtain ⟨stored, hposted⟩ := hposted error
      exact .done now error hencodes ⟨_, stored, hposted⟩ hgroup huploading hawaiting rfl
        (by rw [hcallBacks]; rfl)
    | done _ _ _ _ _ _ _ hwriting => cases hwriting.symm.trans pending

variable {now : ℚ} {ts : List (Transition Publishing Event)}

/-- **Every run follows `addTweet`** for the completions of the uploads so far. -/
theorem phase_of_run (run : Run (Step tweetID) (begin vm tweetID now) ts s) :
    Phase vm tweetID (completions ts) s := by
  induction run with
  | nil => exact phase_begin vm tweetID now
  | snoc run step ih =>
    rw [completions_concat]
    exact phase_of_step ih step

/-- **When nothing is left to happen, the callback has been called once exactly if every photo could
be encoded.** -/
theorem callBack_once_iff (run : Run (Step tweetID) (begin vm tweetID now) ts s)
    (quiescent : s.Quiescent) :
    s.callBacks.length = 1 ↔
      ∀ photos, vm.tweetModel.photos = some photos → Encodes photos := by
  cases phase_of_run run with
  | joining photos hphotos htweet hgroup hcount hwriting hcallBacks =>
    rw [hcallBacks]
    refine iff_of_false (by simp) fun hencodes => ?_
    have hlength := length_started_eq_iff.mpr (hencodes photos hphotos)
    rw [quiescent.uploading_eq, quiescent.awaitingURL_eq] at hcount
    have hqueued : s.group.queued = true := by
      rw [hgroup, DispatchGroup.queued_joining]
      simp only [List.length_nil] at hcount
      omega
    cases quiescent.queued_eq.symm.trans hqueued
  | writing _ _ _ _ _ _ hwriting => exact absurd quiescent.writing_eq hwriting
  | done now setValue hencodes hposted hgroup huploading hawaiting hwriting hcallBacks =>
    rw [hcallBacks]
    exact iff_of_true rfl hencodes

/-- A draft with one photo, which has no encoding. -/
private def unencodable : NewTweetViewModel := ⟨{ photos := some [⟨⟨none, none, none⟩⟩] }⟩

/-- A draft with one photo, which has an encoding. -/
private def encodable : NewTweetViewModel := ⟨{ photos := some [⟨⟨none, none, some []⟩⟩] }⟩

/-- The only photo of the draft cannot be encoded: nothing is requested, and the block waits for
good. -/
theorem not_callBack_once :
    ¬ ∀ (vm : NewTweetViewModel) (tweetID : String) (now : ℚ) (s : Publishing)
      (ts : List (Transition Publishing Event)), Run (Step tweetID) (begin vm tweetID now) ts s →
        s.Quiescent → s.callBacks.length = 1 := by
  intro h
  have hlength := h unencodable "t" 1 _ [] (.nil _) ⟨rfl, rfl, rfl, rfl⟩
  exact absurd hlength (by decide)

/-- The photo is put, its URL arrives, the block runs, and the record is written. -/
theorem callBack_once_iff_one : ∃ ts s, Run (Step "t") (begin encodable "t" 1) ts s ∧
    s.Quiescent ∧ ts.length = 4 ∧ s.callBacks.length = 1 := by
  have start : Run (Step "t") (begin encodable "t" 1) [] _ := .nil _
  have run := start
    |>.snoc (show Step "t" _ (.putCompleted 0 none) _ from
      .putCompleted (show _ = [] ++ 0 :: [] from rfl))
    |>.snoc (show Step "t" _ (.urlCompleted 0 (.ok "u")) _ from .urlCompleted
      (show _ = [] ++ 0 :: [] from rfl))
    |>.snoc (show Step "t" _ (.notified 2) _ from .notified rfl)
    |>.snoc (show Step "t" _ (.written none) _ from .written rfl)
  refine ⟨_, _, run, ⟨rfl, rfl, rfl, rfl⟩, rfl, ?_⟩
  exact (callBack_once_iff run ⟨rfl, rfl, rfl, rfl⟩).mpr (by
    rintro _ ⟨⟩
    decide)

end Publishing

end TwitterLite
