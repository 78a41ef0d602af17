import TwitterLite.Common.EndPoints
import TwitterLite.Common.Models
import TwitterLite.Library.Join
import Mathlib.Data.List.Basic

/-!
# Publishing a draft with photos

`NewTweetViewModel.addTweet` starts one upload for every photo that can be encoded, joins them and
writes the record. Each completion appends the URL it has received, if any, to the list of the
draft. Three things follow from the code: the join needs the completion of every photo, encoded
or not (`addTweet_of_not_encoded`); the URLs are listed in the order of completion; and a failed
upload leaves no trace (`addTweet_of_encoded`).

Hence a draft is never published with missing photos exactly when no upload fails, or the record
could not be written anyway (`neverMissing_iff`).

## Main definitions

* `TwitterLite.NewTweetViewModel`, `TwitterLite.NewTweetViewModel.shouldEnableSendingTweet`.
* `TwitterLite.NewTweetViewModel.uploads`, `TwitterLite.NewTweetViewModel.addTweet`.
* `TwitterLite.NewTweetViewModel.NeverMissing`.

## Main results

* `TwitterLite.NewTweetViewModel.addTweet_of_encoded`,
  `TwitterLite.NewTweetViewModel.addTweet_of_not_encoded`.
* `TwitterLite.NewTweetViewModel.neverMissing_iff`.

Source: `NewTweetViewModel.swift`, lines 11–69; `FirebaseDatabaseManager.swift`, lines 71–113.
-/

namespace TwitterLite

open Join

/-- `NewTweetViewModel` holds the draft. -/
structure NewTweetViewModel where
  tweetModel : PostTweetModel
  deriving DecidableEq, Repr

/-- What `addTweet` has done when nothing more can happen: the draft as it is now, the record it
asked the database to write and the path of it, if it got that far, the record that is stored,
and what it passed to its callback, if it called it. -/
structure AddTweetOutcome where
  tweetModel : PostTweetModel
  posted : Option (String × PostTweetModel) := none
  stored : Option PostTweetModel := none
  callBack : Option (Option AppError) := none
  deriving DecidableEq, Repr

namespace NewTweetViewModel

/-- `NewTweetViewModel.init`: a fresh draft. -/
def ofLoggedInUser (loggedInUser : Option UserModel) : NewTweetViewModel :=
  ⟨PostTweetModel.ofLoggedInUser loggedInUser⟩

/-- `NewTweetViewModel.shouldEnableSendingTweet`. -/
def shouldEnableSendingTweet (vm : NewTweetViewModel) : Bool :=
  let isTextAvailable := !((vm.tweetModel.caption.map String.isEmpty).getD true)
  let isPhotosAvailable := !((vm.tweetModel.photos.map List.isEmpty).getD true)
  isTextAvailable || isPhotosAvailable

/-- The storage path of a photo. -/
def photoPath (tweetID : String) (index : ℕ) : String :=
  (PhotoEndPoint.uploadImage s!"{tweetID}_{index}").path

/-- The uploads that are started: those of the photos that can be encoded, each with the index of
its photo. -/
def uploads (photos : List ImageWrapper) : List (ℕ × Data) :=
  photos.zipIdx.filterMap fun photo => photo.1.image.cache_toData.map fun data => (photo.2, data)

/-- The completion of one upload. -/
def uploadCompleted (tweetModel : PostTweetModel) : Except AppError String → PostTweetModel
  | .ok url => { tweetModel with photoURL := tweetModel.photoURL.map fun urls => urls ++ [url] }
  | .error _ => tweetModel

/-- `NewTweetViewModel.continueAddTweet`, at the time `now`; `setValue` is the answer of the
database. -/
def continueAddTweet (tweetModel : PostTweetModel) (tweetID : String) (now : ℚ)
    (setValue : Option AppError) : AddTweetOutcome :=
  let record := { tweetModel with createdTimeStamp := some now }
  { tweetModel := record
    posted := some ((TweetEndPoint.postTweet tweetID).path, record)
    stored := if setValue = none then some record else none
    callBack := some setValue }

/-- `NewTweetViewModel.addTweet` with the generated key `tweetID`, after the given completions of
the uploads, in the order in which they run. The group is entered once for each photo and left
once for each completion. -/
def addTweet (vm : NewTweetViewModel) (tweetID : String)
    (completions : List (Except AppError String)) (now : ℚ) (setValue : Option AppError) :
    AddTweetOutcome :=
  let tweetModel := { vm.tweetModel with tweetID := some tweetID }
  match tweetModel.photos with
  | some photos =>
    let tweetModel := completions.foldl uploadCompleted { tweetModel with photoURL := some [] }
    if completions.length = photos.length then
      continueAddTweet { tweetModel with photos := none } tweetID now setValue
    else { tweetModel := tweetModel }
  | none => continueAddTweet tweetModel tweetID now setValue

/-! ### The uploads -/

/-- Every photo can be encoded. -/
def Encodes (photos : List ImageWrapper) : Prop :=
  ∀ photo ∈ photos, photo.image.cache_toData ≠ none

instance (photos : List ImageWrapper) : Decidable (Encodes photos) :=
  inferInstanceAs (Decidable (∀ photo ∈ photos, photo.image.cache_toData ≠ none))

/-- The photos whose uploads are started, by index. -/
abbrev started (photos : List ImageWrapper) : List ℕ := (uploads photos).map Prod.fst

theorem started_eq (photos : List ImageWrapper) : started photos =
    photos.zipIdx.filterMap fun photo => photo.1.image.cache_toData.map fun _ => photo.2 := by
  rw [started, uploads, List.map_filterMap]
  refine List.filterMap_congr fun photo _ => ?_
  rw [Option.map_map]
  rfl

theorem started_eq_range {photos : List ImageWrapper} (h : Encodes photos) :
    started photos = List.range photos.length := by
  have hsome : photos.zipIdx.filterMap (fun photo =>
      photo.1.image.cache_toData.map fun _ => photo.2) =
        photos.zipIdx.filterMap (some ∘ Prod.snd) := by
    refine List.filterMap_congr fun photo hmem => ?_
    obtain ⟨data, hdata⟩ := Option.ne_none_iff_exists'.mp
      (h photo.1 (List.fst_mem_of_mem_zipIdx hmem))
    rw [hdata, Option.map_some, Function.comp_apply]
  rw [started_eq, hsome, List.filterMap_eq_map, List.zipIdx_map_snd, List.range_eq_range']

theorem length_started_eq_iff {photos : List ImageWrapper} :
    (started photos).length = photos.length ↔ Encodes photos := by
  refine ⟨fun hlength photo hphoto hnone => ?_, fun h => by
    rw [started_eq_range h, List.length_range]⟩
  rw [started_eq, List.length_filterMap_eq_countP, ← List.length_zipIdx (l := photos) (i := 0),
    List.countP_eq_length] at hlength
  obtain ⟨index, hindex⟩ := List.mem_iff_getElem?.mp hphoto
  have hsome := hlength (photo, index) (List.mk_mem_zipIdx_iff_getElem?.mpr hindex)
  simp [hnone] at hsome

/-- What the completions leave in the draft: the URLs of the successful ones, in their order. -/
theorem foldl_uploadCompleted {tweetModel : PostTweetModel} (urls : List String)
    (completions : List (Except AppError String)) (h : tweetModel.photoURL = some urls) :
    completions.foldl uploadCompleted tweetModel =
      { tweetModel with photoURL := some (urls ++ completions.filterMap Except.toOption) } := by
  induction completions generalizing tweetModel urls with
  | nil => rw [List.foldl_nil, List.filterMap_nil, List.append_nil, ← h]
  | cons completion completions ih =>
    cases completion with
    | error error => exact ih _ h
    | ok url =>
      have hcompleted : (uploadCompleted tweetModel (.ok url)).photoURL = some (urls ++ [url]) := by
        rw [uploadCompleted, h, Option.map_some]
      rw [List.foldl_cons, ih _ hcompleted, List.append_assoc]
      rfl

/-- Whatever happens to its uploads, the author of a draft stays the author of its record. -/
theorem uid_addTweet (vm : NewTweetViewModel) (tweetID : String)
    (completions : List (Except AppError String)) (now : ℚ) (setValue : Option AppError) :
    (vm.addTweet tweetID completions now setValue).tweetModel.uid = vm.tweetModel.uid ∧
      ∀ write ∈ (vm.addTweet tweetID completions now setValue).posted,
        write.2.uid = vm.tweetModel.uid := by
  have hcontinue : ∀ tweetModel : PostTweetModel,
      (continueAddTweet tweetModel tweetID now setValue).tweetModel.uid = tweetModel.uid ∧
        ∀ write ∈ (continueAddTweet tweetModel tweetID now setValue).posted,
          write.2.uid = tweetModel.uid := by
    refine fun tweetModel => ⟨rfl, fun write hwrite => ?_⟩
    obtain rfl := Option.some.inj hwrite
    rfl
  cases hphotos : vm.tweetModel.photos with
  | none =>
    simp only [addTweet, hphotos]
    exact hcontinue _
  | some photos =>
    simp only [addTweet, hphotos]
    rw [foldl_uploadCompleted [] completions rfl]
    split_ifs
    · exact hcontinue _
    · exact ⟨rfl, fun write hwrite => nomatch hwrite⟩

/-! ### The joined outcome -/

section Joined

variable {vm : NewTweetViewModel} {photos : List ImageWrapper} {tweetID : String}
  (outcome : ℕ → Except AppError String) (s : Schedule (started photos)) (now : ℚ)
  (setValue : Option AppError)

/-- The record of a draft with photos. -/
def record (vm : NewTweetViewModel) (tweetID : String) (urls : List String) (now : ℚ) :
    PostTweetModel :=
  { vm.tweetModel with
    tweetID := some tweetID
    photoURL := some urls
    photos := none
    createdTimeStamp := some now }

/-- **The draft is written with the URLs that have arrived, in the order of their arrival.** -/
theorem addTweet_of_encoded (hphotos : vm.tweetModel.photos = some photos)
    (h : Encodes photos) : vm.addTweet tweetID (s.order.map outcome) now setValue =
      { tweetModel := vm.record tweetID ((s.order.map outcome).filterMap Except.toOption) now
        posted := some ((TweetEndPoint.postTweet tweetID).path,
          vm.record tweetID ((s.order.map outcome).filterMap Except.toOption) now)
        stored := if setValue = none then
          some (vm.record tweetID ((s.order.map outcome).filterMap Except.toOption) now) else none
        callBack := some setValue } := by
  have hlength : (s.order.map outcome).length = photos.length := by
    rw [List.length_map, s.length_order, length_started_eq_iff.mpr h]
  simp only [addTweet, hphotos, hlength, if_true]
  rw [foldl_uploadCompleted [] _ rfl]
  rfl

/-- **If a photo cannot be encoded, nothing is written and the callback is never called.** -/
theorem addTweet_of_not_encoded (hphotos : vm.tweetModel.photos = some photos)
    (h : ¬ Encodes photos) :
    (vm.addTweet tweetID (s.order.map outcome) now setValue).posted = none ∧
      (vm.addTweet tweetID (s.order.map outcome) now setValue).stored = none ∧
      (vm.addTweet tweetID (s.order.map outcome) now setValue).callBack = none := by
  have hlength : (s.order.map outcome).length ≠ photos.length := by
    rw [List.length_map, s.length_order]
    exact mt length_started_eq_iff.mp h
  simp only [addTweet, hphotos, hlength, if_false, and_self]

/-! ### Missing photos -/

/-- The record shows something: a caption or a photo. -/
def HasContent (record : PostTweetModel) : Prop :=
  (∃ caption, record.caption = some caption ∧ caption ≠ "") ∨
    ∃ urls, record.photoURL = some urls ∧ urls ≠ []

/-- A draft is never published with missing photos: success means that every photo has its URL in
the record; a failed upload means an error and no record; and no record is empty. -/
structure NeverMissing (photos : List ImageWrapper) (outcome : ℕ → Except AppError String)
    (result : AddTweetOutcome) : Prop where
  of_success : result.callBack = some none → ∃ record urls, result.stored = some record ∧
    record.photoURL = some urls ∧ ∀ i < photos.length, ∃ url ∈ urls, outcome i = .ok url
  of_failure : (∃ i ∈ started photos, ∃ error, outcome i = .error error) →
    (∃ error, result.callBack = some (some error)) ∧ result.stored = none
  hasContent : ∀ record, result.stored = some record → HasContent record

/-- A draft whose uploads all succeed is written with all of its photos, or not at all. -/
theorem neverMissing_of_ok (hphotos : vm.tweetModel.photos = some photos) (hne : photos ≠ [])
    (hok : ∀ i ∈ started photos, ∃ url, outcome i = .ok url) :
    NeverMissing photos outcome (vm.addTweet tweetID (s.order.map outcome) now setValue) := by
  have hfailure : ¬ ∃ i ∈ started photos, ∃ error, outcome i = .error error := by
    rintro ⟨i, hi, error, herror⟩
    obtain ⟨url, hurl⟩ := hok i hi
    cases hurl.symm.trans herror
  by_cases h : Encodes photos
  · have hall : ∀ i < photos.length, ∃ url ∈ (s.order.map outcome).filterMap Except.toOption,
        outcome i = .ok url := by
      intro i hi
      have hstarted : i ∈ started photos := by rwa [started_eq_range h, List.mem_range]
      obtain ⟨url, hurl⟩ := hok i hstarted
      refine ⟨url, List.mem_filterMap.mpr ⟨outcome i, ?_, by rw [hurl]; rfl⟩, hurl⟩
      exact List.mem_map_of_mem (s.mem_order.mpr hstarted)
    rw [addTweet_of_encoded outcome s now setValue hphotos h]
    refine ⟨fun hsuccess => ?_, fun h => absurd h hfailure, fun record hstored => ?_⟩
    · obtain rfl := Option.some.inj hsuccess
      exact ⟨_, _, rfl, rfl, hall⟩
    · dsimp only at hstored
      split_ifs at hstored
      obtain rfl := Option.some.inj hstored
      obtain ⟨url, hurl, -⟩ := hall 0 (List.length_pos_iff.mpr hne)
      exact .inr ⟨_, rfl, List.ne_nil_of_mem hurl⟩
  · obtain ⟨-, hstored, hcallBack⟩ :=
      @addTweet_of_not_encoded vm photos tweetID outcome s now setValue hphotos h
    refine ⟨fun hsuccess => ?_, fun h => absurd h hfailure, fun record hrecord => ?_⟩
    · cases hcallBack.symm.trans hsuccess
    · cases hstored.symm.trans hrecord

/-- **No photo goes missing exactly when no upload fails, or the photos can be encoded and the
record cannot be written.** -/
theorem neverMissing_iff (hphotos : vm.tweetModel.photos = some photos) (hne : photos ≠ []) :
    NeverMissing photos outcome (vm.addTweet tweetID (s.order.map outcome) now setValue) ↔
      (∀ i ∈ started photos, ∃ url, outcome i = .ok url) ∨
        Encodes photos ∧ ∃ error, setValue = some error := by
  by_cases hok : ∀ i ∈ started photos, ∃ url, outcome i = .ok url
  · exact iff_of_true (neverMissing_of_ok outcome s now setValue hphotos hne hok) (.inl hok)
  have hfailure : ∃ i ∈ started photos, ∃ error, outcome i = .error error := by
    obtain ⟨i, hi, hnot⟩ : ∃ i ∈ started photos, ¬ ∃ url, outcome i = .ok url := by
      simpa only [not_forall, exists_prop] using hok
    cases houtcome : outcome i with
    | error error => exact ⟨i, hi, error, houtcome⟩
    | ok url => exact absurd ⟨url, houtcome⟩ hnot
  rw [or_iff_right hok]
  refine ⟨fun hnever => ?_, fun ⟨h, error, herror⟩ => ?_⟩
  · obtain ⟨⟨error, hcallBack⟩, -⟩ := hnever.of_failure hfailure
    by_cases h : Encodes photos
    · rw [addTweet_of_encoded outcome s now setValue hphotos h] at hcallBack
      exact ⟨h, error, Option.some.inj hcallBack⟩
    · rw [(addTweet_of_not_encoded outcome s now setValue hphotos h).2.2] at hcallBack
      cases hcallBack
  · subst herror
    rw [addTweet_of_encoded outcome s now (some error) hphotos h]
    exact ⟨fun hsuccess => (nomatch hsuccess), fun _ => ⟨⟨error, rfl⟩, rfl⟩,
      fun record hstored => (nomatch hstored)⟩

/-- A photo without an alpha channel that can be encoded. -/
private def samplePhoto : ImageWrapper := ⟨⟨none, none, some [0xff, 0xd8]⟩⟩

/-- The only upload fails, and so does the record. -/
theorem neverMissing_iff_one :
    NeverMissing [samplePhoto] (fun _ => .error (.backend "offline"))
      (addTweet ⟨{ uid := "u", photos := some [samplePhoto] }⟩ "t" [.error (.backend "offline")] 1
        (some (.backend "offline"))) :=
  (@neverMissing_iff ⟨{ uid := "u", photos := some [samplePhoto] }⟩ [samplePhoto] "t"
    (fun _ => .error (.backend "offline")) ⟨[0], by decide⟩ 1 (some (.backend "offline")) rfl
    (by decide)).mpr (.inr ⟨by decide, _, rfl⟩)

/-- The only photo of a draft without a caption is not uploaded: an empty record is published, and
the callback reports success. -/
theorem not_neverMissing :
    ¬ ∀ (vm : NewTweetViewModel) (photos : List ImageWrapper) (tweetID : String)
      (outcome : ℕ → Except AppError String) (s : Schedule (started photos)) (now : ℚ)
      (setValue : Option AppError), vm.tweetModel.photos = some photos → photos ≠ [] →
        vm.shouldEnableSendingTweet = true →
          NeverMissing photos outcome
            (vm.addTweet tweetID (s.order.map outcome) now setValue) := by
  intro h
  have hnever := h ⟨{ uid := "u", photos := some [samplePhoto] }⟩ [samplePhoto] "t"
    (fun _ => .error (.backend "offline")) ⟨[0], by decide⟩ 1 none rfl (by decide) (by decide)
  obtain ⟨⟨error, hcallBack⟩, -⟩ := hnever.of_failure ⟨0, by decide, _, rfl⟩
  cases hcallBack

end Joined

end NewTweetViewModel

end TwitterLite
