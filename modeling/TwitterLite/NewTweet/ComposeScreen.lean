import TwitterLite.NewTweet.AddTweet

/-!
# The compose screen

The screen keeps two copies of what the user composes: the text view and the photo gallery show one,
the draft of the view model is the other. The text view asks before it makes an edit and reports
every change; the image picker sets both copies; the gallery removes a tapped photo by its position,
and the draft the first photo with an equal image.

## Main definitions

* `TwitterLite.ComposeScreen`, `TwitterLite.ComposeScreen.ofLoggedInUser`.
* `TwitterLite.ComposeScreen.placeholderTextViewShouldReplace`,
  `TwitterLite.ComposeScreen.placeholderTextViewDidChangeText`.
* `TwitterLite.ComposeScreen.didFinishPicking`, `TwitterLite.ComposeScreen.deleteItem`.
* `TwitterLite.ComposeScreen.Edits`: what the user can do before posting.

Source: `NewTweetViewController.swift`, lines 30–149; `TextViewWithPlaceholder.swift`, lines
117–125; `PhotoGalleryView.swift`, lines 28–45; `Utils.swift`, lines 11–17.
-/

namespace TwitterLite

/-- `Utils.maxCharacter`. -/
def maxCharacter : ℕ := 280

/-- What the image picker hands over: a photo, or something else. -/
inductive YPMediaItem where
  | photo (image : UIImage)
  | video
  deriving DecidableEq, Repr

/-- The photo of an item, if it is one. -/
def YPMediaItem.imageWrapper : YPMediaItem → Option ImageWrapper
  | .photo image => some ⟨image⟩
  | .video => none

/-- The compose screen: the draft, the content of the text view, the photos of the gallery, the
value of the progress ring, and whether the tweet button is enabled. -/
structure ComposeScreen where
  viewModel : NewTweetViewModel
  text : String := ""
  imageList : Option (List ImageWrapper) := none
  progress : ℚ := 0
  tweetButtonEnabled : Bool
  deriving DecidableEq, Repr

namespace ComposeScreen

/-- `NewTweetViewController.viewDidLoad`, with a fresh draft. -/
def ofLoggedInUser (loggedInUser : Option UserModel) : ComposeScreen where
  viewModel := .ofLoggedInUser loggedInUser
  tweetButtonEnabled := (NewTweetViewModel.ofLoggedInUser loggedInUser).shouldEnableSendingTweet

variable (s : ComposeScreen)

/-- The photos of the draft. -/
def photos : List ImageWrapper := s.viewModel.tweetModel.photos.getD []

/-- The photos that the gallery shows. -/
def shownPhotos : List ImageWrapper := s.imageList.getD []

/-- The screen with another draft, and the tweet button set accordingly. -/
def withDraft (tweetModel : PostTweetModel) : ComposeScreen :=
  { s with
    viewModel := ⟨tweetModel⟩
    tweetButtonEnabled := (⟨tweetModel⟩ : NewTweetViewModel).shouldEnableSendingTweet }

/-! ### The text view -/

/-- `NewTweetViewController.placeholderTextViewShouldReplace`, which
`PlaceholderTextView.textView(_:shouldChangeTextIn:replacementText:)` returns. -/
def placeholderTextViewShouldReplace (text : String) : Bool :=
  if 0 < text.length ∧ (text = "\n" ∨ maxCharacter - 2 < s.text.length) then false else true

/-- `NewTweetViewController.placeholderTextViewDidChangeText`. -/
def placeholderTextViewDidChangeText (text : String) : ComposeScreen :=
  { s with progress := (text.length : ℚ) / (maxCharacter : ℚ) }.withDraft
    { s.viewModel.tweetModel with caption := some text }

/-- The text in which a range has been replaced. -/
def replaceSubrange (text : String) (start length : ℕ) (replacement : String) : String :=
  String.ofList (text.toList.take start ++ replacement.toList ++ text.toList.drop (start + length))

/-- An edit of the text view: it is made and reported if it is accepted. -/
def replace (start length : ℕ) (replacement : String) : ComposeScreen :=
  if s.placeholderTextViewShouldReplace replacement then
    let text := replaceSubrange s.text start length replacement
    { s with text := text }.placeholderTextViewDidChangeText text
  else s

/-! ### The photos -/

/-- The closure passed to `YPImagePicker.didFinishPicking`. It does not look at `cancelled`. -/
def didFinishPicking (items : List YPMediaItem) (_cancelled : Bool) : ComposeScreen :=
  let photos := items.filterMap YPMediaItem.imageWrapper
  { s with imageList := some photos }.withDraft
    { s.viewModel.tweetModel with photos := some photos }

/-- The closure `PhotoGalleryView.didRemoveItem` of `NewTweetViewController.setupUI`. -/
def didRemoveItem (item : ImageWrapper) : ComposeScreen :=
  match s.viewModel.tweetModel.photos with
  | some photos =>
    match photos.findIdx? fun photo => photo.image == item.image with
    | some index =>
      s.withDraft { s.viewModel.tweetModel with photos := some (photos.eraseIdx index) }
    | none => s
  | none => s

/-- `PhotoGalleryView.deleteItem` for the cell at a position. -/
def deleteItem (index : ℕ) : ComposeScreen :=
  match s.shownPhotos[index]? with
  | some item =>
    { s.didRemoveItem item with imageList := s.imageList.map fun photos => photos.eraseIdx index }
  | none => s

/-! ### Edits -/

/-- What the user can do before posting. -/
inductive Edit where
  | replace (start length : ℕ) (replacement : String)
  | confirm (images : List UIImage)
  | cancel
  | delete (index : ℕ)

/-- One edit: a range of the text is replaced; the picker is confirmed with some photos, or
cancelled; or the button of a cell of the gallery is tapped. -/
inductive Edits : ComposeScreen → Edit → ComposeScreen → Prop
  | replace {s : ComposeScreen} {start length : ℕ} (replacement : String)
      (range : start + length ≤ s.text.length) :
      Edits s (.replace start length replacement) (s.replace start length replacement)
  | confirm {s : ComposeScreen} (images : List UIImage) :
      Edits s (.confirm images) (s.didFinishPicking (images.map .photo) false)
  | cancel {s : ComposeScreen} : Edits s .cancel (s.didFinishPicking [] true)
  | delete {s : ComposeScreen} {index : ℕ} (shown : index < s.shownPhotos.length) :
      Edits s (.delete index) (s.deleteItem index)

variable {s}

theorem replace_of_accepted {start length : ℕ} {replacement : String}
    (h : s.placeholderTextViewShouldReplace replacement = true) :
    s.replace start length replacement =
      { s with text := replaceSubrange s.text start length replacement
        }.placeholderTextViewDidChangeText (replaceSubrange s.text start length replacement) :=
  if_pos h

theorem replace_of_rejected {start length : ℕ} {replacement : String}
    (h : s.placeholderTextViewShouldReplace replacement = false) :
    s.replace start length replacement = s :=
  if_neg (by simp [h])

/-- The picker sets the photos of the draft and of the gallery. -/
theorem didFinishPicking_photo (images : List UIImage) (cancelled : Bool) :
    s.didFinishPicking (images.map .photo) cancelled =
      { s with imageList := some (images.map ImageWrapper.mk) }.withDraft
        { s.viewModel.tweetModel with photos := some (images.map ImageWrapper.mk) } := by
  have hphotos : (images.map YPMediaItem.photo).filterMap YPMediaItem.imageWrapper =
      images.map ImageWrapper.mk := by
    rw [List.filterMap_map]
    exact congrFun List.filterMap_eq_map images
  rw [didFinishPicking, hphotos]

/-- Removing a photo changes neither the text nor its progress, and nothing of the draft but its
photos, of which it leaves none if there are none. -/
theorem deleteItem_frame (s : ComposeScreen) (index : ℕ) :
    (s.deleteItem index).text = s.text ∧ (s.deleteItem index).progress = s.progress ∧
      ∃ photos, (s.deleteItem index).viewModel.tweetModel =
        { s.viewModel.tweetModel with photos := photos } ∧
          (photos = none → s.viewModel.tweetModel.photos = none) := by
  unfold deleteItem didRemoveItem
  split
  · dsimp only
    split
    · split
      · exact ⟨rfl, rfl, _, rfl, nofun⟩
      · exact ⟨rfl, rfl, _, rfl, id⟩
    · exact ⟨rfl, rfl, _, rfl, id⟩
  · exact ⟨rfl, rfl, _, rfl, id⟩

/-- Removing a photo from the draft removes the first one that is equal. -/
theorem photos_didRemoveItem (item : ImageWrapper) :
    (s.didRemoveItem item).photos = s.photos.erase item := by
  have heq (photos : List ImageWrapper) :
      (photos.findIdx? fun photo => photo.image == item.image) = photos.idxOf? item :=
    congrArg (photos.findIdx? ·) (funext fun photo => by
      rw [Bool.eq_iff_iff, beq_iff_eq, beq_iff_eq, ImageWrapper.mk.injEq])
  rw [List.erase_eq_eraseIdx]
  cases hphotos : s.viewModel.tweetModel.photos with
  | none =>
    simp only [didRemoveItem, photos, hphotos]
    rfl
  | some photos =>
    have hdraft : s.photos = photos := congrArg (Option.getD · []) hphotos
    rw [hdraft]
    cases hindex : photos.idxOf? item with
    | none =>
      simp only [didRemoveItem, hphotos, heq, hindex]
      exact hdraft
    | some index =>
      simp only [didRemoveItem, hphotos, heq, hindex]
      rfl

/-- Tapping a cell removes from the draft the first photo that is equal to that of the cell. -/
theorem photos_deleteItem {index : ℕ} (shown : index < s.shownPhotos.length) :
    (s.deleteItem index).photos = s.photos.erase s.shownPhotos[index] := by
  simp only [deleteItem, List.getElem?_eq_getElem shown]
  exact photos_didRemoveItem _

/-- Tapping a cell removes it from the gallery. -/
theorem shownPhotos_deleteItem {index : ℕ} (shown : index < s.shownPhotos.length) :
    (s.deleteItem index).shownPhotos = s.shownPhotos.eraseIdx index := by
  simp only [deleteItem, List.getElem?_eq_getElem shown]
  cases himages : s.imageList with
  | none => simp [shownPhotos, himages]
  | some photos => simp [shownPhotos, himages]

end ComposeScreen

end TwitterLite
