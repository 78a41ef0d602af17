import TwitterLite.Library.TransitionSystem
import TwitterLite.NewTweet.AddTweet
import TwitterLite.NewTweet.ComposeScreen

/-!
# Failed posts and their retries

The draft that is posted is also the one that the compose screen edits. When a post reports an
error the screen stays open, and the user may edit and post again; the draft ought to be what it was
before the post, and a later success ought to publish the caption and the photos that the screen
then shows.

`NewTweetViewModel.addTweet` takes the photos out of the draft before it writes the record, and puts
them back in no case. So a draft with photos does not survive a failed post, though the gallery
still shows them. Nor does a success publish all the photos if an upload fails. A run of edits and
posts does what it ought exactly if no post of a draft with photos fails, and every upload of a
retry that succeeds does (`Composing.postsShown_iff`). Posts with a photo that cannot be encoded
never report anything.

## Main definitions

* `TwitterLite.Post`, `TwitterLite.Post.run`.
* `TwitterLite.Composing`, `TwitterLite.Composing.Step`.
* `TwitterLite.Composing.Intact`, `TwitterLite.Composing.PublishesShown`.

## Main results

* `TwitterLite.ComposeScreen.inSync_of_edits`, `TwitterLite.Composing.postsShown_iff`.

Source: `NewTweetViewModel.swift`, lines 15–69; `NewTweetViewController.swift`, lines 78–128;
`FirebaseDatabaseManager.swift`, lines 71–97.
-/

namespace TwitterLite

open TransitionSystem Join NewTweetViewModel

/-! ### The draft and what the screen shows -/

/-- The draft and what the screen shows are the same, up to the order of the photos; and a draft for
which no photo has been picked has no URL. -/
structure ComposeScreen.InSync (s : ComposeScreen) : Prop where
  caption_eq : s.viewModel.tweetModel.caption.getD "" = s.text
  photos_perm : s.photos.Perm s.shownPhotos
  photoURL_eq : s.viewModel.tweetModel.photos = none →
    s.viewModel.tweetModel.photoURL.getD [] = []

namespace ComposeScreen

variable {s s' : ComposeScreen} {e : Edit}

theorem InSync.withPhotos (h : s.InSync) (photos : List ImageWrapper) :
    InSync ({ s with imageList := some photos }.withDraft
      { s.viewModel.tweetModel with photos := some photos }) :=
  ⟨h.caption_eq, .refl _, nofun⟩

/-- **Edits keep the draft in step with the screen.** -/
theorem inSync_of_edits (h : s.InSync) (edits : Edits s e s') : s'.InSync := by
  cases edits with
  | @replace start length replacement range =>
    cases haccepted : s.placeholderTextViewShouldReplace replacement with
    | false => rwa [replace_of_rejected haccepted]
    | true =>
      rw [replace_of_accepted haccepted]
      exact ⟨rfl, h.photos_perm, h.photoURL_eq⟩
  | confirm images =>
    rw [didFinishPicking_photo]
    exact h.withPhotos _
  | cancel => exact h.withPhotos []
  | @delete index shown =>
    obtain ⟨htext, -, photos, hdraft, hnone⟩ := deleteItem_frame s index
    refine ⟨?_, ?_, fun hphotos => ?_⟩
    · rw [htext, hdraft]
      exact h.caption_eq
    · rw [photos_deleteItem shown, shownPhotos_deleteItem shown]
      refine (h.photos_perm.erase _).trans ?_
      -- either removal leaves what the removed photo completes to the list
      refine List.Perm.cons_inv ((List.perm_cons_erase (List.getElem_mem shown)).symm.trans ?_)
      exact (List.getElem_cons_eraseIdx_perm shown).symm
    · rw [hdraft] at hphotos ⊢
      exact h.photoURL_eq (hnone hphotos)

end ComposeScreen

/-! ### Posts -/

/-- One post with all that the backend decides: the generated key, the outcome of the upload of each
photo, the order in which the uploads complete, the time, and the answer to the write. -/
structure Post where
  tweetID : String
  outcome : ℕ → Except AppError String
  order : List ℕ
  now : ℚ
  setValue : Option AppError

/-- `NewTweetViewController.tweetButtonClicked`, up to the callback. -/
def Post.run (post : Post) (vm : NewTweetViewModel) : AddTweetOutcome :=
  vm.addTweet post.tweetID (post.order.map post.outcome) post.now post.setValue

/-- The compose screen: whether a post has failed, and whether the screen has been dismissed. -/
structure Composing where
  screen : ComposeScreen
  failed : Bool := false
  dismissed : Bool := false

namespace Composing

/-- What the user does: an edit, or a post. -/
inductive Event where
  | edit (e : ComposeScreen.Edit)
  | post (post : Post)

/-- The screen after a post. It is dismissed by a success. -/
def afterPost (s : Composing) (result : AddTweetOutcome) : Composing where
  screen := { s.screen with viewModel := ⟨result.tweetModel⟩ }
  failed := s.failed || (result.callBack.bind id).isSome
  dismissed := result.callBack == some none

/-- While the screen is open the user edits the draft, and posts it. -/
inductive Step : Composing → Event → Composing → Prop
  | edit {s : Composing} {e : ComposeScreen.Edit} {screen : ComposeScreen}
      (composing : s.dismissed = false) (edits : ComposeScreen.Edits s.screen e screen) :
      Step s (.edit e) { s with screen := screen }
  | post {s : Composing} {p : Post} (composing : s.dismissed = false)
      (scheduled : p.order.Perm (started s.screen.photos)) :
      Step s (.post p) (s.afterPost (p.run s.screen.viewModel))

/-- The draft is what it was, for all that the screen lets the user do. -/
structure Intact (before after : NewTweetViewModel) : Prop where
  caption_eq : after.tweetModel.caption = before.tweetModel.caption
  photos_eq : after.tweetModel.photos = before.tweetModel.photos
  shouldEnableSendingTweet_eq : after.shouldEnableSendingTweet = before.shouldEnableSendingTweet

/-- The record has the caption that the screen shows, and the URLs of the photos that it shows. -/
structure PublishesShown (screen : ComposeScreen) (outcome : ℕ → Except AppError String)
    (record : PostTweetModel) : Prop where
  caption_eq : record.caption.getD "" = screen.text
  photos_perm : screen.photos.Perm screen.shownPhotos
  photoURL_perm : ((record.photoURL.getD []).map Except.ok).Perm
    ((List.range screen.shownPhotos.length).map outcome)

/-- A post that reports an error leaves the draft intact; and one that reports success after another
one has failed publishes what the screen shows. -/
def PostsShown (τ : Transition Composing Event) : Prop :=
  ∀ post, τ.event = .post post →
    (∀ error, (post.run τ.source.screen.viewModel).callBack = some (some error) →
      Intact τ.source.screen.viewModel τ.target.screen.viewModel) ∧
    (τ.source.failed = true → (post.run τ.source.screen.viewModel).callBack = some none →
      ∃ record, (post.run τ.source.screen.viewModel).stored = some record ∧
        PublishesShown τ.source.screen post.outcome record)

/-- The condition on a step: if the photos of a post can be encoded, then either the write fails and
no photo had been picked, or it succeeds, and so has every upload if another post has failed. -/
def Undisturbed (τ : Transition Composing Event) : Prop :=
  ∀ post, τ.event = .post post → Encodes τ.source.screen.photos →
    (post.setValue ≠ none → τ.source.screen.viewModel.tweetModel.photos = none) ∧
    (post.setValue = none → τ.source.failed = true →
      ∀ i < τ.source.screen.photos.length, ∃ url, post.outcome i = .ok url)

/-! ### One post -/

section Post

variable {vm : NewTweetViewModel} {post : Post} {photos : List ImageWrapper}

/-- A draft for which no photo has been picked is posted as it is. -/
theorem run_of_none (hphotos : vm.tweetModel.photos = none) : post.run vm =
    { tweetModel :=
        { vm.tweetModel with tweetID := some post.tweetID, createdTimeStamp := some post.now }
      posted := some ((TweetEndPoint.postTweet post.tweetID).path,
        { vm.tweetModel with tweetID := some post.tweetID, createdTimeStamp := some post.now })
      stored := if post.setValue = none then
        some { vm.tweetModel with tweetID := some post.tweetID, createdTimeStamp := some post.now }
        else none
      callBack := some post.setValue } := by
  simp only [Post.run, addTweet, hphotos, continueAddTweet]

/-- A post with a photo that cannot be encoded reports nothing, and leaves caption and photos. -/
theorem run_of_not_encoded (hphotos : vm.tweetModel.photos = some photos)
    (scheduled : post.order.Perm (started photos)) (h : ¬ Encodes photos) :
    (post.run vm).callBack = none ∧ (post.run vm).tweetModel.photos = some photos ∧
      (post.run vm).tweetModel.caption = vm.tweetModel.caption := by
  have hlength : (post.order.map post.outcome).length ≠ photos.length := by
    rw [List.length_map, scheduled.length_eq]
    exact mt length_started_eq_iff.mp h
  simp only [Post.run, addTweet, hphotos, hlength, if_false, true_and]
  rw [foldl_uploadCompleted [] _ rfl]
  exact ⟨rfl, rfl⟩

theorem run_of_encoded (hphotos : vm.tweetModel.photos = some photos)
    (scheduled : post.order.Perm (started photos)) (h : Encodes photos) :
    (post.run vm).callBack = some post.setValue ∧ (post.run vm).tweetModel.photos = none ∧
      (post.setValue = none → (post.run vm).stored = some (vm.record post.tweetID
        ((post.order.map post.outcome).filterMap Except.toOption) post.now)) := by
  rw [Post.run, addTweet_of_encoded post.outcome ⟨post.order, scheduled⟩ _ _ hphotos h]
  exact ⟨rfl, rfl, fun hnone => if_pos hnone⟩

/-- If all outcomes are URLs, they are those of their URLs. -/
theorem map_ok_filterMap {outcomes : List (Except AppError String)}
    (h : ∀ outcome ∈ outcomes, ∃ url, outcome = .ok url) :
    (outcomes.filterMap Except.toOption).map Except.ok = outcomes := by
  induction outcomes with
  | nil => rfl
  | cons outcome outcomes ih =>
    obtain ⟨⟨url, rfl⟩, hrest⟩ := List.forall_mem_cons.mp h
    exact congrArg (Except.ok url :: ·) (ih hrest)

end Post

section Step

variable {s s' : Composing} {e : Event} {post : Post} {photos : List ImageWrapper}

/-- **The record of a draft with photos publishes what the screen shows exactly if every upload
succeeds.** -/
theorem publishesShown_iff (h : s.screen.InSync) (now : ℚ)
    (hphotos : s.screen.viewModel.tweetModel.photos = some photos) (hencodes : Encodes photos)
    (scheduled : post.order.Perm (started photos)) :
    PublishesShown s.screen post.outcome (s.screen.viewModel.record post.tweetID
        ((post.order.map post.outcome).filterMap Except.toOption) now) ↔
      ∀ i < photos.length, ∃ url, post.outcome i = .ok url := by
  have hscreen : s.screen.photos = photos := congrArg (Option.getD · []) hphotos
  have hlength : s.screen.shownPhotos.length = photos.length := by
    rw [← h.photos_perm.length_eq, hscreen]
  have horder : post.order.Perm (List.range photos.length) := started_eq_range hencodes ▸ scheduled
  constructor
  · rintro ⟨-, -, hurls⟩ i hi
    rw [hlength] at hurls
    have hmem := List.mem_map_of_mem (f := post.outcome) (List.mem_range.mpr hi)
    obtain ⟨url, -, hurl⟩ := List.mem_map.mp (hurls.mem_iff.mpr hmem)
    exact ⟨url, hurl.symm⟩
  · intro hok
    have hurls : ∀ outcome ∈ post.order.map post.outcome, ∃ url, outcome = .ok url :=
      List.forall_mem_map.mpr fun i hi => hok i (List.mem_range.mp (horder.mem_iff.mp hi))
    refine ⟨h.caption_eq, h.photos_perm, ?_⟩
    rw [hlength]
    exact (map_ok_filterMap hurls).symm ▸ horder.map post.outcome

/-- What a post ought to do. -/
theorem postsShown_post_iff : PostsShown ⟨s, .post post, s'⟩ ↔
    (∀ error, (post.run s.screen.viewModel).callBack = some (some error) →
      Intact s.screen.viewModel s'.screen.viewModel) ∧
    (s.failed = true → (post.run s.screen.viewModel).callBack = some none →
      ∃ record, (post.run s.screen.viewModel).stored = some record ∧
        PublishesShown s.screen post.outcome record) := by
  constructor
  · exact fun h => h post rfl
  · rintro h _ hevent
    obtain rfl := Event.post.inj hevent
    exact h

/-- The condition on a post. -/
theorem undisturbed_post_iff : Undisturbed ⟨s, .post post, s'⟩ ↔ (Encodes s.screen.photos →
    (post.setValue ≠ none → s.screen.viewModel.tweetModel.photos = none) ∧
    (post.setValue = none → s.failed = true →
      ∀ i < s.screen.photos.length, ∃ url, post.outcome i = .ok url)) := by
  constructor
  · exact fun h => h post rfl
  · rintro h _ hevent
    obtain rfl := Event.post.inj hevent
    exact h

/-- A draft for which no photo has been picked is left intact and published as it is shown. -/
theorem postsShown_of_none (h : s.screen.InSync)
    (hphotos : s.screen.viewModel.tweetModel.photos = none) :
    PostsShown ⟨s, .post post, s.afterPost (post.run s.screen.viewModel)⟩ := by
  have hscreen : s.screen.photos = [] := congrArg (Option.getD · []) hphotos
  have hshown : s.screen.shownPhotos = [] := List.nil_perm.mp (hscreen ▸ h.photos_perm)
  rw [postsShown_post_iff]
  simp only [afterPost, run_of_none hphotos]
  constructor
  · intro error _
    exact ⟨rfl, rfl, rfl⟩
  · intro _ hsuccess
    refine ⟨_, if_pos (Option.some.inj hsuccess), h.caption_eq, h.photos_perm, ?_⟩
    dsimp only
    rw [h.photoURL_eq hphotos, hshown]
    exact .refl _

theorem undisturbed_of_none (hphotos : s.screen.viewModel.tweetModel.photos = none) :
    Undisturbed ⟨s, .post post, s'⟩ := by
  have hscreen : s.screen.photos = [] := congrArg (Option.getD · []) hphotos
  rw [undisturbed_post_iff, hscreen]
  exact fun _ => ⟨fun _ => hphotos, fun _ _ i hi => absurd hi i.not_lt_zero⟩

/-- A failed write of a draft with photos: the photos have gone. -/
theorem postsShown_iff_of_failed (hphotos : s.screen.viewModel.tweetModel.photos = some photos)
    (scheduled : post.order.Perm (started photos)) (hencodes : Encodes photos) {error : AppError}
    (hsetValue : post.setValue = some error) :
    PostsShown ⟨s, .post post, s.afterPost (post.run s.screen.viewModel)⟩ ↔
      Undisturbed ⟨s, .post post, s.afterPost (post.run s.screen.viewModel)⟩ := by
  have hscreen : s.screen.photos = photos := congrArg (Option.getD · []) hphotos
  obtain ⟨hcallBack, hgone, -⟩ := run_of_encoded hphotos scheduled hencodes
  rw [postsShown_post_iff, undisturbed_post_iff, hscreen]
  refine iff_of_false (fun hshown => ?_) fun hundisturbed => ?_
  · have hintact := hshown.1 error (hsetValue ▸ hcallBack)
    cases hphotos.symm.trans (hintact.photos_eq.symm.trans hgone)
  · have hnone := (hundisturbed hencodes).1 (by simp [hsetValue])
    cases hphotos.symm.trans hnone

/-- A successful write of a draft with photos: the record lacks the failed uploads. -/
theorem postsShown_iff_of_success (h : s.screen.InSync)
    (hphotos : s.screen.viewModel.tweetModel.photos = some photos)
    (scheduled : post.order.Perm (started photos)) (hencodes : Encodes photos)
    (hsetValue : post.setValue = none) :
    PostsShown ⟨s, .post post, s'⟩ ↔ Undisturbed ⟨s, .post post, s'⟩ := by
  have hscreen : s.screen.photos = photos := congrArg (Option.getD · []) hphotos
  have hpublishes := publishesShown_iff h post.now hphotos hencodes scheduled
  obtain ⟨hcallBack, -, hstored⟩ := run_of_encoded hphotos scheduled hencodes
  rw [hsetValue] at hcallBack
  rw [postsShown_post_iff, undisturbed_post_iff, hscreen]
  constructor
  · rintro ⟨-, hshown⟩ -
    refine ⟨fun hfailure => absurd hsetValue hfailure, fun _ hfailed => ?_⟩
    obtain ⟨record, hrecord, hrecordShown⟩ := hshown hfailed hcallBack
    obtain rfl := Option.some.inj ((hstored hsetValue).symm.trans hrecord)
    exact hpublishes.mp hrecordShown
  · intro hundisturbed
    refine ⟨fun error herror => ?_, fun hfailed _ => ?_⟩
    · cases hcallBack.symm.trans herror
    · have hok := (hundisturbed hencodes).2 hsetValue hfailed
      exact ⟨_, hstored hsetValue, hpublishes.mpr hok⟩

/-- A photo that cannot be encoded: nothing is reported. -/
theorem postsShown_of_not_encoded (hphotos : s.screen.viewModel.tweetModel.photos = some photos)
    (scheduled : post.order.Perm (started photos)) (h : ¬ Encodes photos) :
    PostsShown ⟨s, .post post, s'⟩ := by
  obtain ⟨hcallBack, -, -⟩ := run_of_not_encoded hphotos scheduled h
  refine postsShown_post_iff.mpr ⟨fun error herror => ?_, fun _ hsuccess => ?_⟩
  · cases hcallBack.symm.trans herror
  · cases hcallBack.symm.trans hsuccess

/-- **A post does what it ought exactly if the condition holds.** -/
theorem postsShown_step_iff (h : s.dismissed = false → s.screen.InSync) (step : Step s e s') :
    PostsShown ⟨s, e, s'⟩ ↔ Undisturbed ⟨s, e, s'⟩ := by
  cases step with
  | edit => exact iff_of_true nofun nofun
  | @post post composing scheduled =>
    have hsync := h composing
    cases hphotos : s.screen.viewModel.tweetModel.photos with
    | none => exact iff_of_true (postsShown_of_none hsync hphotos) (undisturbed_of_none hphotos)
    | some photos =>
      have hscreen : s.screen.photos = photos := congrArg (Option.getD · []) hphotos
      rw [hscreen] at scheduled
      by_cases hencodes : Encodes photos
      · cases hsetValue : post.setValue with
        | some error => exact postsShown_iff_of_failed hphotos scheduled hencodes hsetValue
        | none => exact postsShown_iff_of_success hsync hphotos scheduled hencodes hsetValue
      · refine iff_of_true (postsShown_of_not_encoded hphotos scheduled hencodes) ?_
        rw [undisturbed_post_iff, hscreen]
        exact fun hyes => absurd hyes hencodes

/-- **While the screen is open, the draft is in step with it**, as long as the condition holds. -/
theorem inSync_of_step (h : s.dismissed = false → s.screen.InSync) (step : Step s e s')
    (hundisturbed : Undisturbed ⟨s, e, s'⟩) : s'.dismissed = false → s'.screen.InSync := by
  cases step with
  | edit composing edits => exact fun _ => ComposeScreen.inSync_of_edits (h composing) edits
  | @post post composing scheduled =>
    have hsync := h composing
    intro hopen
    cases hphotos : s.screen.viewModel.tweetModel.photos with
    | none =>
      simp only [afterPost, run_of_none hphotos]
      exact ⟨hsync.caption_eq, hsync.photos_perm, hsync.photoURL_eq⟩
    | some photos =>
      have hscreen : s.screen.photos = photos := congrArg (Option.getD · []) hphotos
      rw [hscreen] at scheduled
      by_cases hencodes : Encodes photos
      · obtain ⟨hcallBack, -, -⟩ := run_of_encoded hphotos scheduled hencodes
        have hfailure : post.setValue ≠ none := by
          intro hnone
          simp [afterPost, hcallBack, hnone] at hopen
        cases hphotos.symm.trans ((hundisturbed post rfl (hscreen ▸ hencodes)).1 hfailure)
      · obtain ⟨-, hkept, hcaption⟩ := run_of_not_encoded hphotos scheduled hencodes
        refine ⟨?_, ?_, fun hnone => (nomatch hkept.symm.trans hnone)⟩
        · exact (congrArg (Option.getD · "") hcaption).trans hsync.caption_eq
        · have hsame : (s.afterPost (post.run s.screen.viewModel)).screen.photos = photos :=
            congrArg (Option.getD · []) hkept
          rw [hsame, ← hscreen]
          exact hsync.photos_perm

end Step

/-- **Every failed post of a run leaves the draft intact, and every later success publishes what the
screen shows**, exactly if its posts satisfy the condition. -/
theorem postsShown_iff {screen : ComposeScreen} {s : Composing} (h : screen.InSync)
    {ts : List (Transition Composing Event)} (run : Run Step { screen := screen } ts s) :
    (∀ τ ∈ ts, PostsShown τ) ↔ ∀ τ ∈ ts, Undisturbed τ :=
  run.forall_good_iff (fun t => t.dismissed = false → t.screen.InSync)
    (fun _ _ _ => inSync_of_step) (fun _ _ _ => postsShown_step_iff) fun _ => h

/-- A photo that can be encoded. -/
private def pickedPhoto : UIImage := ⟨none, none, some [0xff, 0xd8]⟩

/-- The screen with a caption. -/
private def captioned : ComposeScreen where
  viewModel := ⟨{ caption := some "hi" }⟩
  text := "hi"
  tweetButtonEnabled := true

private theorem inSync_captioned : captioned.InSync := ⟨rfl, .refl _, fun _ => rfl⟩

/-- A caption is posted in vain, and again with a photo. -/
theorem postsShown_iff_retry : ∃ ts s, Run Step { screen := captioned } ts s ∧ ts.length = 3 ∧
    s.dismissed = true ∧ ∀ τ ∈ ts, PostsShown τ := by
  have failed : Step { screen := captioned } _ _ :=
    .post (p := ⟨"s", fun _ => .ok "", [], 1, some (.backend "offline")⟩) rfl (.refl _)
  have run := (((Run.nil _).snoc failed).snoc (.edit rfl (.confirm [pickedPhoto]))).snoc
    (.post (p := ⟨"t", fun _ => .ok "url", [0], 2, none⟩) rfl (by decide))
  refine ⟨_, _, run, rfl, by decide, (postsShown_iff inSync_captioned run).mpr ?_⟩
  simp only [List.nil_append, List.forall_mem_append, List.forall_mem_singleton]
  refine ⟨⟨?_, nofun⟩, ?_⟩
  · rintro _ hevent -
    obtain rfl := Event.post.inj hevent
    exact ⟨fun _ => rfl, nofun⟩
  · rintro _ hevent -
    obtain rfl := Event.post.inj hevent
    exact ⟨nofun, fun _ _ _ _ => ⟨"url", rfl⟩⟩

/-- A photo is picked, and the write of the record fails. -/
theorem not_postsShown :
    ¬ ∀ (screen : ComposeScreen) (ts : List (Transition Composing Event)) (s : Composing),
      screen.InSync → Run Step { screen := screen } ts s → ∀ τ ∈ ts, PostsShown τ := by
  intro h
  let screen := captioned.didFinishPicking [.photo pickedPhoto] false
  have hsync : screen.InSync := inSync_captioned.withPhotos _
  have failed : Step { screen := screen } _ _ :=
    .post (p := ⟨"t", fun _ => .ok "url", [0], 1, some (.backend "offline")⟩) rfl (by decide)
  have hshown := h screen _ _ hsync ((Run.nil _).snoc failed) _ (List.mem_singleton_self _)
  have hundisturbed := (postsShown_step_iff (fun _ => hsync) failed).mp hshown
  have hnone := (hundisturbed _ rfl (by decide)).1 nofun
  cases hnone

end Composing

end TwitterLite
