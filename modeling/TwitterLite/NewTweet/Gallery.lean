import TwitterLite.Library.TransitionSystem
import TwitterLite.Library.RowEdits
import TwitterLite.NewTweet.ComposeScreen

/-!
# The photos of the compose screen

The draft and the gallery of the compose screen each hold a list of photos, and the user has a third
one in mind: confirming the picker replaces it, cancelling the picker keeps it, and tapping a cell
removes the photo of that cell. The three lists are compared along every sequence of edits.

Cancelling the picker hands over no photos, which replaces both lists of the screen by the empty
one. Tapping a cell removes it from the gallery by its position, and from the draft the first photo
with an equal image. So the lists agree exactly as long as the picker is cancelled only while no
photo is chosen, and a cell is tapped only if the equal photos before it adjoin it
(`Gallery.agrees_iff`).

## Main definitions

* `TwitterLite.ComposeScreen.Edit.choose`, `TwitterLite.Gallery`, `TwitterLite.Gallery.Step`.
* `TwitterLite.Gallery.Agrees`, `TwitterLite.Gallery.KeepsOrder`.

## Main results

* `TwitterLite.Gallery.step_agrees_iff`, `TwitterLite.Gallery.agrees_iff`.

Source: `NewTweetViewController.swift`, lines 30–61 and 113–128; `PhotoGalleryView.swift`, lines
28–45.
-/

namespace TwitterLite

open TransitionSystem RowEdits ComposeScreen

/-- The photos that the user has chosen after an edit. -/
def ComposeScreen.Edit.choose (chosen : List UIImage) : Edit → List UIImage
  | .replace _ _ _ => chosen
  | .confirm images => images
  | .cancel => chosen
  | .delete index => chosen.eraseIdx index

/-- The compose screen, and the photos that its user has chosen. -/
structure Gallery where
  screen : ComposeScreen
  chosen : List UIImage := []

namespace Gallery

/-- The screen with a fresh draft. -/
def ofLoggedInUser (loggedInUser : Option UserModel) : Gallery where
  screen := .ofLoggedInUser loggedInUser

/-- An edit of the screen, with what the user means by it. -/
inductive Step : Gallery → Edit → Gallery → Prop
  | edits {s : Gallery} {e : Edit} {screen : ComposeScreen} (edits : Edits s.screen e screen) :
      Step s e ⟨screen, e.choose s.chosen⟩

/-- The photos of the draft and those of the gallery are the chosen ones, in order. -/
structure Agrees (s : Gallery) : Prop where
  photos_eq : s.screen.photos.map ImageWrapper.image = s.chosen
  shownPhotos_eq : s.screen.shownPhotos.map ImageWrapper.image = s.chosen

/-- The picker is cancelled only while no photo is chosen, and a cell is tapped only if the equal
photos before it adjoin it. -/
def KeepsOrder (τ : Transition Gallery Edit) : Prop :=
  (τ.event = .cancel → τ.source.chosen = []) ∧
    ∀ index, τ.event = .delete index → Adjoining τ.source.chosen index

variable {s s' : Gallery} {e : Edit}

theorem agrees_ofLoggedInUser (loggedInUser : Option UserModel) :
    (ofLoggedInUser loggedInUser).Agrees :=
  ⟨rfl, rfl⟩

theorem image_injective : Function.Injective ImageWrapper.image := fun ⟨_⟩ ⟨_⟩ h =>
  congrArg ImageWrapper.mk h

/-- An edit of the text changes no photo. -/
theorem photos_replace (screen : ComposeScreen) (start length : ℕ) (replacement : String) :
    (screen.replace start length replacement).photos = screen.photos ∧
      (screen.replace start length replacement).shownPhotos = screen.shownPhotos := by
  cases h : screen.placeholderTextViewShouldReplace replacement with
  | true =>
    rw [replace_of_accepted h]
    exact ⟨rfl, rfl⟩
  | false =>
    rw [replace_of_rejected h]
    exact ⟨rfl, rfl⟩

/-- The picker makes both lists the photos handed over. -/
theorem didFinishPicking_agrees_iff (screen : ComposeScreen) (images chosen : List UIImage)
    (cancelled : Bool) :
    Agrees ⟨screen.didFinishPicking (images.map .photo) cancelled, chosen⟩ ↔ images = chosen := by
  have himages : (images.map ImageWrapper.mk).map ImageWrapper.image = images := by
    rw [List.map_map]
    exact List.map_id images
  rw [didFinishPicking_photo]
  constructor
  · rintro ⟨hphotos, -⟩
    exact himages.symm.trans hphotos
  · rintro rfl
    exact ⟨himages, himages⟩

/-- The lists agree after a cell is tapped exactly if the equal photos before it adjoin it. -/
theorem deleteItem_agrees_iff (h : s.Agrees) {index : ℕ}
    (shown : index < s.screen.shownPhotos.length) :
    Agrees ⟨s.screen.deleteItem index, s.chosen.eraseIdx index⟩ ↔ Adjoining s.chosen index := by
  have hindex : index < s.chosen.length := by
    rwa [← h.shownPhotos_eq, List.length_map]
  have hitem : (s.screen.shownPhotos[index]).image = s.chosen[index] := by
    simp only [← h.shownPhotos_eq, List.getElem_map]
  have hphotos : (s.screen.deleteItem index).photos.map ImageWrapper.image =
      s.chosen.erase s.chosen[index] := by
    rw [photos_deleteItem shown, List.map_erase image_injective, h.photos_eq, hitem]
  have hshown : (s.screen.deleteItem index).shownPhotos.map ImageWrapper.image =
      s.chosen.eraseIdx index := by
    rw [shownPhotos_deleteItem shown, ← List.eraseIdx_map, h.shownPhotos_eq]
  rw [← erase_getElem_eq_iff hindex]
  constructor
  · rintro ⟨hphotos', -⟩
    exact hphotos.symm.trans hphotos'
  · intro heq
    exact ⟨hphotos.trans heq, hshown⟩

/-- **The lists still agree after an edit exactly if the edit satisfies the condition.** -/
theorem step_agrees_iff (h : s.Agrees) (step : Step s e s') :
    s'.Agrees ↔ KeepsOrder ⟨s, e, s'⟩ := by
  cases step with
  | edits edits =>
    cases edits with
    | @replace start length replacement range =>
      obtain ⟨hphotos, hshown⟩ := photos_replace s.screen start length replacement
      refine iff_of_true ⟨?_, ?_⟩ ⟨nofun, nofun⟩
      · exact (congrArg _ hphotos).trans h.photos_eq
      · exact (congrArg _ hshown).trans h.shownPhotos_eq
    | confirm images =>
      exact iff_of_true ((didFinishPicking_agrees_iff _ images images false).mpr rfl)
        ⟨nofun, nofun⟩
    | cancel =>
      refine (didFinishPicking_agrees_iff _ [] s.chosen true).trans ⟨?_, ?_⟩
      · intro hnil
        exact ⟨fun _ => hnil.symm, nofun⟩
      · rintro ⟨hcancel, -⟩
        exact (hcancel rfl).symm
    | @delete index shown =>
      refine (deleteItem_agrees_iff h shown).trans ⟨?_, ?_⟩
      · intro hadjoining
        exact ⟨nofun, fun _ hevent => Edit.delete.inj hevent ▸ hadjoining⟩
      · rintro ⟨-, hdelete⟩
        exact hdelete index rfl

/-- **The photos of the draft and of the gallery are the chosen ones in every state of a run**,
exactly if its edits satisfy the condition. -/
theorem agrees_iff (loggedInUser : Option UserModel) {ts : List (Transition Gallery Edit)}
    (run : Run Step (ofLoggedInUser loggedInUser) ts s) :
    ((ofLoggedInUser loggedInUser).Agrees ∧ ∀ τ ∈ ts, τ.target.Agrees) ↔
      ∀ τ ∈ ts, KeepsOrder τ := by
  rw [and_iff_right (agrees_ofLoggedInUser loggedInUser)]
  exact run.forall_good_iff Agrees
    (fun t e u ht step hkeeps => (step_agrees_iff ht step).mpr hkeeps)
    (fun t e u ht step => step_agrees_iff ht step) (agrees_ofLoggedInUser loggedInUser)

/-- Two photos. -/
private def firstPhoto : UIImage := ⟨none, none, some []⟩

private def secondPhoto : UIImage := ⟨none, none, none⟩

/-- Two equal photos are picked and a third one, and the second cell is tapped. -/
theorem agrees_iff_three : ∃ ts s, Run Step (ofLoggedInUser none) ts s ∧
    s.chosen = [firstPhoto, secondPhoto] ∧
    ((ofLoggedInUser none).Agrees ∧ ∀ τ ∈ ts, τ.target.Agrees) := by
  have confirm : Step (ofLoggedInUser none) (.confirm [firstPhoto, firstPhoto, secondPhoto]) _ :=
    .edits (.confirm _)
  have run := ((Run.nil (ofLoggedInUser none)).snoc confirm).snoc
    (.edits (.delete (show 1 < 3 by decide)))
  refine ⟨_, _, run, rfl, (agrees_iff none run).mpr ?_⟩
  simp only [List.nil_append, List.forall_mem_append, List.forall_mem_singleton]
  refine ⟨⟨nofun, nofun⟩, nofun, fun index hindex => ?_⟩
  obtain rfl := Edit.delete.inj hindex
  decide

/-- A photo is picked, and the picker is cancelled the next time. -/
theorem not_agrees_of_run :
    ¬ ∀ (loggedInUser : Option UserModel) (ts : List (Transition Gallery Edit)) (s : Gallery),
      Run Step (ofLoggedInUser loggedInUser) ts s → s.Agrees := by
  intro h
  have confirm : Step (ofLoggedInUser none) (.confirm [firstPhoto]) _ := .edits (.confirm _)
  have hagrees := h none _ _ (((Run.nil (ofLoggedInUser none)).snoc confirm).snoc (.edits .cancel))
  cases hagrees.photos_eq

end Gallery

end TwitterLite
