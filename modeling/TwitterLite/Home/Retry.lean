import TwitterLite.Common.Database
import TwitterLite.Home.DeleteTweet
import TwitterLite.Library.TransitionSystem
import Mathlib.Data.Finset.Basic

/-!
# Retrying a deletion

A deletion that failed leaves the record, so that the row of the tweet is still there to be tapped
again, but some of the photos may be gone. The next attempt asks the storage to delete all of them
once more, and deleting an object that does not exist is an error.

`DeleteAttempt` is one attempt with all that the backend decides: the order in which the storage
processes the photo requests, the order in which their completions run, and the transient failures.
An attempt without transient failures succeeds exactly if the photo that completes last exists when
its request is processed (`Backend.succeeds_iff`). Whatever the orders, this is so after a sequence
of failed attempts exactly if none of these deleted a photo, and the photos are distinct and existed
at the start (`Backend.run_retriable_iff`).

## Main definitions

* `TwitterLite.DeleteAttempt`, `TwitterLite.PhotoDeletions`.
* `TwitterLite.Backend`, `TwitterLite.Backend.deleteTweet`, `TwitterLite.Backend.FailedAttempt`.
* `TwitterLite.Backend.Retriable`.

## Main results

* `TwitterLite.Backend.succeeds_iff`.
* `TwitterLite.Backend.run_retriable_iff`.

Source: `HomeViewModel.swift`, lines 84–124; `FirebaseDatabaseManager.swift`, lines 99–121.
-/

namespace TwitterLite

open Join TransitionSystem HomeViewModel

/-! ### The storage -/

/-- The objects in the storage, and the answers to the requests processed so far. -/
structure PhotoDeletions where
  objects : Finset String
  answer : ℕ → Option AppError := fun _ => none

namespace PhotoDeletions

variable (object : ℕ → String) (failed : ℕ → Option AppError) (s : PhotoDeletions)

/-- `FirebaseDatabaseManager.deleteImage` for the `i`-th photo. -/
def deleteImage (i : ℕ) : PhotoDeletions :=
  match failed i with
  | some error => { s with answer := Function.update s.answer i (some error) }
  | none =>
    if object i ∈ s.objects then
      { objects := s.objects.erase (object i), answer := Function.update s.answer i none }
    else
      { s with answer := Function.update s.answer i (some (.backend "object not found")) }

theorem mem_objects_deleteImage {name : String} {i : ℕ} :
    name ∈ (s.deleteImage object failed i).objects ↔
      name ∈ s.objects ∧ (failed i = none → object i ≠ name) := by
  unfold deleteImage
  cases hfailed : failed i with
  | some error => simp
  | none =>
    by_cases hmem : object i ∈ s.objects
    · simp only [hmem, if_true, Finset.mem_erase, true_implies, ne_comm, and_comm]
    · simp only [hmem, if_false, true_implies]
      exact ⟨fun h => ⟨h, fun heq => hmem (heq ▸ h)⟩, fun h => h.1⟩

theorem answer_deleteImage_of_ne {i j : ℕ} (h : j ≠ i) :
    (s.deleteImage object failed i).answer j = s.answer j := by
  unfold deleteImage
  cases failed i with
  | some error => simp [h]
  | none => split_ifs <;> simp [h]

theorem answer_deleteImage_eq_none_iff {i : ℕ} :
    (s.deleteImage object failed i).answer i = none ↔ failed i = none ∧ object i ∈ s.objects := by
  unfold deleteImage
  cases failed i with
  | some error => simp
  | none => split_ifs with hmem <;> simp [hmem]

/-- What the requests leave in the storage, in whatever order they are processed. -/
theorem mem_objects_foldl {name : String} (order : List ℕ) :
    name ∈ (order.foldl (deleteImage object failed) s).objects ↔
      name ∈ s.objects ∧ ∀ i ∈ order, failed i = none → object i ≠ name := by
  induction order generalizing s with
  | nil => simp
  | cons i order ih =>
    rw [List.foldl_cons, ih, mem_objects_deleteImage, List.forall_mem_cons, and_assoc]

theorem answer_foldl_of_not_mem {j : ℕ} (order : List ℕ) (h : j ∉ order) :
    (order.foldl (deleteImage object failed) s).answer j = s.answer j := by
  induction order generalizing s with
  | nil => rfl
  | cons i order ih =>
    rw [List.mem_cons, not_or] at h
    rw [List.foldl_cons, ih _ h.2, answer_deleteImage_of_ne object failed s h.1]

/-- A request is answered without an error exactly if it does not fail and its object exists when
it is processed. -/
theorem answer_foldl_eq_none_iff {before after : List ℕ} {i : ℕ} (h : i ∉ after) :
    ((before ++ i :: after).foldl (deleteImage object failed) s).answer i = none ↔
      failed i = none ∧ object i ∈ s.objects ∧
        ∀ j ∈ before, failed j = none → object j ≠ object i := by
  rw [List.foldl_append, List.foldl_cons, answer_foldl_of_not_mem object failed _ after h,
    answer_deleteImage_eq_none_iff, mem_objects_foldl]

end PhotoDeletions

/-! ### Attempts -/

/-- One attempt to delete a tweet, with what the backend decides. -/
structure DeleteAttempt (tweetModel : ViewTweetModel) where
  /-- The order in which the storage processes the photo requests. -/
  processed : Schedule (photoIndices tweetModel)
  /-- The order in which their completions run. -/
  completed : Schedule (photoIndices tweetModel)
  /-- The transient failures of the photo requests. -/
  failed : ℕ → Option AppError
  /-- The transient failure of the removal of the record. -/
  removal : Option AppError

/-- Nothing fails transiently. -/
structure DeleteAttempt.NoFailure {tweetModel : ViewTweetModel}
    (attempt : DeleteAttempt tweetModel) : Prop where
  failed_eq : ∀ i ∈ photoIndices tweetModel, attempt.failed i = none
  removal_eq : attempt.removal = none

/-- The objects of the storage, and the database. -/
structure Backend where
  objects : Finset String
  database : DatabaseTree

variable (reference : String → String) (tweetModel : ViewTweetModel)

/-- The object that the URL of the `i`-th photo refers to; `reference` is
`Storage.reference(forURL:)`. -/
def photoObject (i : ℕ) : String := reference ((tweetModel.photoURL.getD []).getD i "")

/-- The objects that the photo URLs refer to. -/
def photoObjects : List String := (tweetModel.photoURL.getD []).map reference

theorem photoObjects_eq :
    photoObjects reference tweetModel =
      (photoIndices tweetModel).map (photoObject reference tweetModel) := by
  refine List.ext_getElem (by simp [photoObjects, photoIndices]) fun i hi hi' => ?_
  have hlt : i < (tweetModel.photoURL.getD []).length := by simpa [photoObjects] using hi
  simp [photoObjects, photoIndices, photoObject, hlt]

namespace Backend

variable {tweetModel} (s : Backend) (attempt : DeleteAttempt tweetModel)

/-- The photo requests of an attempt, processed by the storage. -/
def photoDeletions : PhotoDeletions :=
  attempt.processed.order.foldl
    (PhotoDeletions.deleteImage (photoObject reference tweetModel) attempt.failed)
    { objects := s.objects }

/-- What `HomeViewModel.delete` does in an attempt, once the storage has answered. -/
def deleteOutcome : DeleteOutcome :=
  delete tweetModel (attempt.completed.order.map (s.photoDeletions reference attempt).answer)
    attempt.removal

/-- The database after the removal of the record, if it has been asked for. The path of the endpoint
is checked first; a removal that fails leaves the record. -/
def removeRecord (removal : Option AppError) (result : DeleteOutcome) (database : DatabaseTree) :
    Except Trap DatabaseTree :=
  match result.removed with
  | none => .ok database
  | some path => (removeValue path database).map fun database' =>
      if removal = none then database' else database

/-- `HomeViewModel.delete` in one attempt, with what it leaves at the backend. -/
def deleteTweet : Except Trap (Backend × DeleteOutcome) :=
  let result := s.deleteOutcome reference attempt
  (removeRecord attempt.removal result s.database).map fun database =>
    (⟨(s.photoDeletions reference attempt).objects, database⟩, result)

/-- The record of the tweet is gone, and the callback received no error. -/
def Succeeds : Prop :=
  ∃ s' result, s.deleteTweet reference attempt = .ok (s', result) ∧
    result.callBack = some none ∧
      ∀ id ∈ tweetModel.tweetID, s'.database.subtree ("Tweets" :: pathPieces id) = .empty

/-- One attempt after which the row is still there: the callback received an error. -/
inductive FailedAttempt (tweetModel : ViewTweetModel) :
    Backend → DeleteAttempt tweetModel → Backend → Prop
  | intro {s s' : Backend} {attempt : DeleteAttempt tweetModel} {result : DeleteOutcome}
      (attempted : s.deleteTweet reference attempt = .ok (s', result))
      (failed : result.callBack ≠ some none) : FailedAttempt tweetModel s attempt s'

/-- Every attempt without transient failures succeeds, whatever the orders. -/
def Retriable (tweetModel : ViewTweetModel) (s : Backend) : Prop :=
  ∀ attempt : DeleteAttempt tweetModel, attempt.NoFailure → s.Succeeds reference attempt

variable {s attempt} {reference}

/-- The objects that an attempt leaves are those it does not delete. -/
theorem mem_objects_of_deleteTweet {s' : Backend} {result : DeleteOutcome} {name : String}
    (h : s.deleteTweet reference attempt = .ok (s', result)) :
    name ∈ s'.objects ↔ name ∈ s.objects ∧ ∀ i ∈ photoIndices tweetModel,
      attempt.failed i = none → photoObject reference tweetModel i ≠ name := by
  have hobjects : s'.objects = (s.photoDeletions reference attempt).objects := by
    unfold deleteTweet at h
    cases hrecord : removeRecord attempt.removal (s.deleteOutcome reference attempt) s.database with
    | error trap =>
      simp only [hrecord] at h
      cases h
    | ok database =>
      simp only [hrecord] at h
      obtain ⟨rfl, -⟩ := Prod.ext_iff.mp (Except.ok.inj h)
      rfl
  rw [hobjects, photoDeletions, PhotoDeletions.mem_objects_foldl]
  simp only [attempt.processed.mem_order]

/-- **An attempt without transient failures succeeds exactly if the path of the record is valid and
the photo that completes last has been deleted.** -/
theorem succeeds_iff {id : String} (hid : tweetModel.tweetID = some id)
    (hattempt : attempt.NoFailure) :
    s.Succeeds reference attempt ↔ hasInvalidCharacter id = false ∧
      ∀ i ∈ attempt.completed.order.getLast?,
        (s.photoDeletions reference attempt).answer i = none := by
  have houtcome := delete_eq (s.photoDeletions reference attempt).answer attempt.completed none
  cases hlast : attempt.completed.order.getLast?.bind
      (s.photoDeletions reference attempt).answer with
  | some error =>
    obtain ⟨i, hi, herror⟩ := Option.bind_eq_some_iff.mp hlast
    rw [hlast] at houtcome
    refine iff_of_false ?_ fun h => by simp [h.2 i hi] at herror
    rintro ⟨s', result, hdelete, hcallBack, -⟩
    rw [deleteTweet, deleteOutcome, hattempt.removal_eq, houtcome] at hdelete
    obtain ⟨-, rfl⟩ := Prod.ext_iff.mp (Except.ok.inj hdelete)
    cases hcallBack
  | none =>
    have hanswered : ∀ i ∈ attempt.completed.order.getLast?,
        (s.photoDeletions reference attempt).answer i = none := by
      intro i hi
      rwa [Option.mem_def.mp hi] at hlast
    rw [hlast] at houtcome
    rw [and_iff_left hanswered, Succeeds, deleteTweet, deleteOutcome, hattempt.removal_eq, houtcome]
    simp only [continueDeleteTweet, hid, removeRecord, removeValue, child_deleteTweet]
    cases hasInvalidCharacter id with
    | true =>
      refine iff_of_false ?_ (by simp)
      rintro ⟨_, _, h, -⟩
      cases h
    | false =>
      refine iff_of_true ⟨_, _, rfl, rfl, fun id' hid' => ?_⟩ rfl
      obtain rfl := Option.some.inj hid'
      exact PathTree.subtree_remove_self

theorem range_eq_append_cons {i n : ℕ} (h : i < n) :
    List.range n = List.range i ++ i :: List.range' (i + 1) (n - (i + 1)) := by
  have happend := List.range'_append_1 (s := 0) (m := i) (n := n - (i + 1) + 1)
  rw [Nat.zero_add, List.range'_succ, show i + (n - (i + 1) + 1) = n by omega] at happend
  rw [List.range_eq_range', List.range_eq_range', happend]

/-- Any photo may complete last, after the storage has processed the requests as they were sent. So
it exists, and none of the photos before it is the same. -/
theorem Retriable.photo {id : String} (hid : tweetModel.tweetID = some id)
    (h : s.Retriable reference tweetModel) {i : ℕ} (hi : i ∈ photoIndices tweetModel) :
    photoObject reference tweetModel i ∈ s.objects ∧
      ∀ j < i, photoObject reference tweetModel j ≠ photoObject reference tweetModel i := by
  have hperm : ((photoIndices tweetModel).erase i ++ [i]).Perm (photoIndices tweetModel) :=
    (List.perm_append_singleton _ _).trans (List.perm_cons_erase hi).symm
  let attempt : DeleteAttempt tweetModel := ⟨.inOrder _, ⟨_, hperm⟩, fun _ => none, none⟩
  have hnofailure : attempt.NoFailure := ⟨fun _ _ => rfl, rfl⟩
  have hanswer : (s.photoDeletions reference attempt).answer i = none :=
    ((succeeds_iff hid hnofailure).mp (h attempt hnofailure)).2 i (by simp [attempt])
  simp only [photoDeletions, attempt, Schedule.inOrder] at hanswer
  rw [photoIndices, range_eq_append_cons (List.mem_range.mp hi),
    PhotoDeletions.answer_foldl_eq_none_iff _ _ _ (by simp)] at hanswer
  exact ⟨hanswer.2.1, fun j hj => hanswer.2.2 j (List.mem_range.mpr hj) rfl⟩

/-- If the photos are distinct and exist, each is deleted without an error. -/
theorem answer_eq_none (hattempt : attempt.NoFailure)
    (hdistinct : ((photoIndices tweetModel).map (photoObject reference tweetModel)).Nodup)
    (hexist : ∀ i ∈ photoIndices tweetModel, photoObject reference tweetModel i ∈ s.objects)
    {i : ℕ} (hi : i ∈ photoIndices tweetModel) :
    (s.photoDeletions reference attempt).answer i = none := by
  have hnodup : attempt.processed.order.Nodup :=
    attempt.processed.perm.nodup_iff.mpr List.nodup_range
  obtain ⟨before, after, hsplit⟩ := List.append_of_mem (attempt.processed.mem_order.mpr hi)
  rw [hsplit] at hnodup
  obtain ⟨-, htail, hbefore⟩ := List.nodup_append.mp hnodup
  rw [photoDeletions, hsplit,
    PhotoDeletions.answer_foldl_eq_none_iff _ _ _ (List.nodup_cons.mp htail).1]
  refine ⟨hattempt.failed_eq i hi, hexist i hi, fun j hj _ heq => ?_⟩
  have hj' : j ∈ photoIndices tweetModel :=
    attempt.processed.mem_order.mp (hsplit ▸ List.mem_append_left _ hj)
  obtain rfl := List.inj_on_of_nodup_map hdistinct hj' hi heq
  exact hbefore j hj j List.mem_cons_self rfl

/-- Whatever the orders, an attempt without transient failures succeeds exactly if the path of the
record is valid and the photos are distinct and exist. -/
theorem retriable_iff {id : String} (hid : tweetModel.tweetID = some id) :
    s.Retriable reference tweetModel ↔ hasInvalidCharacter id = false ∧
      (photoObjects reference tweetModel).Nodup ∧
        ∀ name ∈ photoObjects reference tweetModel, name ∈ s.objects := by
  rw [photoObjects_eq, List.forall_mem_map]
  constructor
  · intro h
    let attempt : DeleteAttempt tweetModel := ⟨.inOrder _, .inOrder _, fun _ => none, none⟩
    have hnofailure : attempt.NoFailure := ⟨fun _ _ => rfl, rfl⟩
    have hvalid := ((succeeds_iff hid hnofailure).mp (h attempt hnofailure)).1
    refine ⟨hvalid, List.Nodup.map_on (fun i hi j hj heq => ?_) List.nodup_range,
      fun i hi => (h.photo hid hi).1⟩
    rcases lt_trichotomy i j with hij | rfl | hij
    · exact absurd heq ((h.photo hid hj).2 i hij)
    · rfl
    · exact absurd heq.symm ((h.photo hid hi).2 j hij)
  · rintro ⟨hvalid, hdistinct, hexist⟩ attempt hattempt
    refine (succeeds_iff hid hattempt).mpr ⟨hvalid, fun i hi => ?_⟩
    exact answer_eq_none hattempt hdistinct hexist
      (attempt.completed.mem_order.mp (List.mem_of_getLast? hi))

/-! ### Sequences of attempts -/

variable {ts : List (Transition Backend (DeleteAttempt tweetModel))} {s₀ : Backend}

/-- The objects that are left after failed attempts are those that no attempt has deleted. -/
theorem mem_objects_of_run (run : Run (FailedAttempt reference tweetModel) s₀ ts s)
    (name : String) :
    name ∈ s.objects ↔ name ∈ s₀.objects ∧ ∀ τ ∈ ts, ∀ i ∈ photoIndices tweetModel,
      τ.event.failed i = none → photoObject reference tweetModel i ≠ name := by
  induction run with
  | nil => simp
  | snoc run step ih =>
    obtain ⟨attempted, -⟩ := step
    rw [mem_objects_of_deleteTweet attempted, ih, List.forall_mem_append,
      List.forall_mem_singleton, and_assoc]

/-- A tweet with two photos. -/
private def twoPhotos : ViewTweetModel := { tweetID := some "t", photoURL := some ["u", "v"] }

/-- The two photos and the record. -/
private def backendOfTwo : Backend where
  objects := {"u", "v"}
  database := ⟨[(["Tweets", "t", "tweetID"], .string "t")], List.pairwise_singleton ..⟩

/-- An attempt in which the given photo requests fail. -/
private def attemptOfTwo (failed : ℕ → Option AppError) : DeleteAttempt twoPhotos :=
  ⟨.inOrder _, .inOrder _, failed, none⟩

end Backend

end TwitterLite
