import TwitterLite.NewTweet.AddTweet

/-!
# The order of the photos

Each photo of a draft is stored in a file of its own, whose name ends with the index of the photo
(`NewTweetViewModel.photoPath_injective`). The URLs of the files are posted in the order in which
the uploads complete (`NewTweetViewModel.postedURLs_eq`), so the photos are published in the order
of the draft exactly when the uploads complete in that order
(`NewTweetViewModel.postedURLs_eq_iff`).

## Main definitions

* `TwitterLite.NewTweetViewModel.photoURLs`, `TwitterLite.NewTweetViewModel.postedURLs`.

## Main results

* `TwitterLite.NewTweetViewModel.photoPath_injective`.
* `TwitterLite.NewTweetViewModel.postedURLs_eq`, `TwitterLite.NewTweetViewModel.postedURLs_eq_iff`.

Source: `NewTweetViewModel.swift`, lines 24–56.
-/

namespace TwitterLite

open Join

namespace NewTweetViewModel

variable {vm : NewTweetViewModel} {photos : List ImageWrapper} {tweetID : String} (now : ℚ)
  (setValue : Option AppError)

/-- Different photos of a draft are stored in different files. -/
theorem photoPath_injective (tweetID : String) : Function.Injective (photoPath tweetID) := by
  intro i j h
  change "Tweet_Images" ++ "/" ++ (tweetID ++ "_" ++ i.repr) =
    "Tweet_Images" ++ "/" ++ (tweetID ++ "_" ++ j.repr) at h
  exact toString_injective ((String.append_right_inj _).mp ((String.append_right_inj _).mp h))

/-- When every upload succeeds, the URLs are those of the files in the order of completion. -/
theorem filterMap_toOption_ok (url : ℕ → String) (order : List ℕ) :
    (order.map fun i => (.ok (url i) : Except AppError String)).filterMap Except.toOption =
      order.map url := by
  rw [List.filterMap_map, ← List.filterMap_eq_map]
  rfl

/-- The list that a draft should be published with: the URL of the `i`-th photo at position `i`. -/
def photoURLs (downloadURL : String → String) (tweetID : String) (n : ℕ) : List String :=
  (List.range n).map fun i => downloadURL (photoPath tweetID i)

/-- The list of URLs in the record that is posted when all uploads succeed and complete in the
given order; `downloadURL` gives the URL of a stored file. -/
def postedURLs (vm : NewTweetViewModel) (downloadURL : String → String) (tweetID : String)
    (now : ℚ) (setValue : Option AppError) (order : List ℕ) : Option (Option (List String)) :=
  (vm.addTweet tweetID (order.map fun i => .ok (downloadURL (photoPath tweetID i))) now
    setValue).posted.map fun write => write.2.photoURL

/-- The URLs are posted in the order of completion. -/
theorem postedURLs_eq (downloadURL : String → String)
    (hphotos : vm.tweetModel.photos = some photos) (h : Encodes photos)
    (s : Schedule (started photos)) :
    vm.postedURLs downloadURL tweetID now setValue s.order =
      some (some (s.order.map fun i => downloadURL (photoPath tweetID i))) := by
  rw [postedURLs, addTweet_of_encoded _ s now setValue hphotos h, filterMap_toOption_ok]
  rfl

/-- **Two orders of completion publish the list of the photos exactly when both are the order of
the photos.** All photos can be encoded and all uploads succeed; the URL of a file names it. -/
theorem postedURLs_eq_iff {downloadURL : String → String} (hurl : Function.Injective downloadURL)
    (hphotos : vm.tweetModel.photos = some photos) (h : Encodes photos)
    (s s' : Schedule (started photos)) :
    (vm.postedURLs downloadURL tweetID now setValue s.order =
          vm.postedURLs downloadURL tweetID now setValue s'.order ∧
        vm.postedURLs downloadURL tweetID now setValue s.order =
          some (some (photoURLs downloadURL tweetID photos.length))) ↔
      s.order = List.range photos.length ∧ s'.order = List.range photos.length := by
  have hinj : Function.Injective fun i => downloadURL (photoPath tweetID i) :=
    hurl.comp (photoPath_injective tweetID)
  simp only [postedURLs_eq now setValue downloadURL hphotos h, photoURLs, Option.some.injEq,
    hinj.list_map.eq_iff]
  refine ⟨fun ⟨heq, hs⟩ => ⟨hs, heq ▸ hs⟩, fun ⟨hs, hs'⟩ => ⟨hs.trans hs'.symm, hs⟩⟩

/-- A photo that can be encoded. -/
private def opaquePhoto : ImageWrapper := ⟨⟨none, none, some [0xff, 0xd8]⟩⟩

/-- A draft with two photos. -/
private def twoPhotos : NewTweetViewModel :=
  ⟨{ uid := "u", photos := some [opaquePhoto, opaquePhoto] }⟩

/-- The URL of a stored file. -/
private def sampleURL (path : String) : String := "https://storage/" ++ path

private theorem sampleURL_injective : Function.Injective sampleURL := fun _ _ h =>
  (String.append_right_inj _).mp h

/-- Two orders that are the order of the photos. -/
theorem postedURLs_eq_iff_two :
    twoPhotos.postedURLs sampleURL "t" 1 none [0, 1] = some (some (photoURLs sampleURL "t" 2)) :=
  ((@postedURLs_eq_iff twoPhotos [opaquePhoto, opaquePhoto] "t" 1 none _ sampleURL_injective rfl
    (by decide) ⟨[0, 1], by decide⟩ ⟨[0, 1], by decide⟩).mpr ⟨rfl, rfl⟩).2

/-- The second photo is uploaded before the first one. -/
theorem not_postedURLs_eq :
    ¬ ∀ (downloadURL : String → String) (vm : NewTweetViewModel) (photos : List ImageWrapper)
      (tweetID : String) (now : ℚ) (setValue : Option AppError) (s s' : Schedule (started photos)),
      Function.Injective downloadURL → vm.tweetModel.photos = some photos → Encodes photos →
        vm.postedURLs downloadURL tweetID now setValue s.order =
            vm.postedURLs downloadURL tweetID now setValue s'.order ∧
          vm.postedURLs downloadURL tweetID now setValue s.order =
            some (some (photoURLs downloadURL tweetID photos.length)) := by
  intro h
  have hposted := (h sampleURL twoPhotos [opaquePhoto, opaquePhoto] "t" 1 none ⟨[1, 0], by decide⟩
    ⟨[0, 1], by decide⟩ sampleURL_injective rfl (by decide)).2
  exact absurd hposted (by decide)

end NewTweetViewModel

end TwitterLite
