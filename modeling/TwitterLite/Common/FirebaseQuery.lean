import TwitterLite.Common.Models
import TwitterLite.Library.Descending
import Mathlib.Data.String.Basic

/-!
# The timeline query and its answer

`FirebaseDatabaseManager.fetchWithoutObserving` builds a query on the `Tweets` collection: ordered
by the child `createdTimeStamp`, with inclusive bounds, limited to the last `pageSize` matches. The
server orders the children by that value, those of equal value by key, and keeps the last ones.
The snapshot reaches the app as a dictionary, so the decoded records come in an arbitrary order
(`FirebaseQuery.Answers`). An empty result is a null snapshot, which the manager reports as
`failedToFetch` (`FirebaseQuery.decoded`).

The collection is the list of its records, each stored under its own `tweetID`, as
`NewTweetViewModel.addTweet` writes them. When the records have distinct time stamps, the answer
to a query is, once sorted by the app, an initial segment of the matching part of the server's
descending order (`FirebaseQuery.sort_records_of_answers`).

## Main definitions

* `TwitterLite.FirebaseQuery`, `TwitterLite.FirebaseQuery.select`.
* `TwitterLite.FirebaseQuery.Answers`, `TwitterLite.FirebaseQuery.decoded`.
* `TwitterLite.Published`: a collection of published tweets without equal time stamps.
* `TwitterLite.newestFirst`: the order of the index, newest first.

## Main results

* `TwitterLite.FirebaseQuery.select_limited`.
* `TwitterLite.FirebaseQuery.select_eq`, `TwitterLite.FirebaseQuery.sort_records_of_answers`.

Source: `FirebaseDatabaseManager.swift`, lines 26–69.
-/

namespace TwitterLite

open Descending

/-- The parameters of `fetchWithoutObserving` on the timeline; the query key is always
`createdTimeStamp`. -/
structure FirebaseQuery where
  pageSize : Option ℕ := none
  queryStarting : Option ℚ := none
  queryEnding : Option ℚ := none
  deriving DecidableEq, Repr

/-- The key under which a record is stored in the collection. -/
def BaseTweetModel.key (tweet : BaseTweetModel) : String := tweet.tweetID.getD ""

/-- The order of the index: by time stamp, records of equal time stamp by key. -/
def childOrder (a b : PostTweetModel) : Prop :=
  a.stamp < b.stamp ∨ a.stamp = b.stamp ∧ a.key ≤ b.key

instance : DecidableRel childOrder := fun a b =>
  inferInstanceAs (Decidable (a.stamp < b.stamp ∨ a.stamp = b.stamp ∧ a.key ≤ b.key))

instance : Std.Total childOrder := ⟨fun a b => by
  rcases lt_trichotomy a.stamp b.stamp with hlt | heq | hgt
  · exact .inl (.inl hlt)
  · rcases le_total a.key b.key with hk | hk
    · exact .inl (.inr ⟨heq, hk⟩)
    · exact .inr (.inr ⟨heq.symm, hk⟩)
  · exact .inr (.inl hgt)⟩

instance : IsTrans PostTweetModel childOrder := ⟨fun a b c hab hbc => by
  rcases hab with hab | ⟨hab, hk⟩ <;> rcases hbc with hbc | ⟨hbc, hk'⟩
  · exact .inl (hab.trans hbc)
  · exact .inl (hbc ▸ hab)
  · exact .inl (hab ▸ hbc)
  · exact .inr ⟨hab.trans hbc, hk.trans hk'⟩⟩

theorem stamp_le_of_childOrder {a b : PostTweetModel} (h : childOrder a b) : a.stamp ≤ b.stamp := by
  rcases h with h | ⟨h, -⟩
  · exact h.le
  · exact h.le

namespace FirebaseQuery

variable (query : FirebaseQuery)

/-- The inclusive bounds of `queryStarting(atValue:)` and `queryEnding(atValue:)`. -/
def inBounds (tweet : PostTweetModel) : Bool :=
  (query.queryStarting.all fun value : ℚ => (value : WithBot ℚ) ≤ tweet.stamp) &&
    query.queryEnding.all fun value : ℚ => tweet.stamp ≤ (value : WithBot ℚ)

/-- `queryLimited(toLast:)`. -/
def limited (children : List PostTweetModel) : List PostTweetModel :=
  match query.pageSize with
  | none => children
  | some pageSize => children.rtake pageSize

/-- The children that the server sends, in the order of the index. -/
def select (tweets : List PostTweetModel) : List PostTweetModel :=
  query.limited ((tweets.insertionSort childOrder).filter query.inBounds)

/-- The decoded snapshot: the records of the selected children in some order, each with the
author field that the record itself holds. -/
def Answers (tweets : List PostTweetModel) (answer : List ViewTweetModel) : Prop :=
  (answer.map ViewTweetModel.record).Perm (query.select tweets)

instance (tweets : List PostTweetModel) (answer : List ViewTweetModel) :
    Decidable (query.Answers tweets answer) :=
  inferInstanceAs (Decidable ((answer.map ViewTweetModel.record).Perm (query.select tweets)))

/-- What `fetchWithoutObserving` passes on: an empty collection is a null snapshot, for which the
decoded value stays `nil`. -/
def decoded (answer : List ViewTweetModel) : Except AppError (List ViewTweetModel) :=
  if answer.isEmpty then .error (.fireBase .failedToFetch) else .ok answer

end FirebaseQuery

/-! ### The order of the index -/

/-- The collection in the order of the index, newest first. -/
def newestFirst (tweets : List PostTweetModel) : List PostTweetModel :=
  (tweets.insertionSort childOrder).reverse

theorem newestFirst_perm (tweets : List PostTweetModel) : (newestFirst tweets).Perm tweets :=
  (List.reverse_perm _).trans (List.perm_insertionSort childOrder tweets)

theorem pairwise_newestFirst (tweets : List PostTweetModel) :
    (newestFirst tweets).Pairwise fun a b => b.stamp ≤ a.stamp :=
  List.pairwise_reverse.mpr
    ((List.pairwise_insertionSort childOrder tweets).imp stamp_le_of_childOrder)

/-- A limited query selects the newest matching children, in ascending order. -/
theorem FirebaseQuery.select_limited {query : FirebaseQuery} {pageSize : ℕ}
    (hsize : query.pageSize = some pageSize) (tweets : List PostTweetModel) :
    query.select tweets =
      (((newestFirst tweets).filter query.inBounds).take pageSize).reverse := by
  rw [select, limited, hsize, newestFirst, List.filter_reverse]
  exact List.rtake_eq_reverse_take_reverse ..

theorem FirebaseQuery.select_subset (query : FirebaseQuery) (tweets : List PostTweetModel) :
    query.select tweets ⊆ tweets := by
  intro tweet hmem
  have hmem : tweet ∈ (tweets.insertionSort childOrder).filter query.inBounds := by
    rw [select, limited] at hmem
    cases hsize : query.pageSize with
    | none => rwa [hsize] at hmem
    | some pageSize =>
      rw [hsize] at hmem
      exact List.mem_of_mem_drop hmem
  exact (List.mem_insertionSort childOrder).mp (List.mem_of_mem_filter hmem)

/-! ### Collections without equal time stamps -/

/-- The records are published tweets (each with an identifier of its own and a time stamp), no
two of which have the same time stamp. -/
structure Published (tweets : List PostTweetModel) : Prop where
  tweetID_ne : ∀ tweet ∈ tweets, tweet.tweetID ≠ none
  tweetIDs_nodup : (tweets.map fun tweet => tweet.tweetID).Nodup
  stamp_ne : ∀ tweet ∈ tweets, tweet.createdTimeStamp ≠ none
  stamps_nodup : (tweets.map fun tweet => tweet.stamp).Nodup

/-- The descending order of the collection. -/
abbrev descending (tweets : List PostTweetModel) : List PostTweetModel :=
  sort (fun tweet => tweet.stamp) tweets

namespace Published

variable {tweets : List PostTweetModel} (h : Published tweets)

include h

theorem isDescending : IsDescending (fun tweet => tweet.stamp) (descending tweets) :=
  isDescending_sort h.stamps_nodup

theorem eq_of_tweetID_eq {a b : PostTweetModel} (ha : a ∈ tweets) (hb : b ∈ tweets)
    (hab : a.tweetID = b.tweetID) : a = b :=
  List.inj_on_of_nodup_map h.tweetIDs_nodup ha hb hab

theorem cons {tweet : PostTweetModel} (hid : tweet.tweetID ≠ none)
    (hfresh : ∀ t ∈ tweets, t.tweetID ≠ tweet.tweetID) (hstamp : tweet.createdTimeStamp ≠ none)
    (hnew : ∀ t ∈ tweets, t.stamp ≠ tweet.stamp) : Published (tweet :: tweets) where
  tweetID_ne := List.forall_mem_cons.mpr ⟨hid, h.tweetID_ne⟩
  tweetIDs_nodup := List.nodup_cons.mpr
    ⟨fun hm => let ⟨t, ht, he⟩ := List.mem_map.mp hm; hfresh t ht he, h.tweetIDs_nodup⟩
  stamp_ne := List.forall_mem_cons.mpr ⟨hstamp, h.stamp_ne⟩
  stamps_nodup := List.nodup_cons.mpr
    ⟨fun hm => let ⟨t, ht, he⟩ := List.mem_map.mp hm; hnew t ht he, h.stamps_nodup⟩

theorem sublist {tweets' : List PostTweetModel} (hs : tweets'.Sublist tweets) :
    Published tweets' where
  tweetID_ne t ht := h.tweetID_ne t (hs.subset ht)
  tweetIDs_nodup := (hs.map _).nodup h.tweetIDs_nodup
  stamp_ne t ht := h.stamp_ne t (hs.subset ht)
  stamps_nodup := (hs.map _).nodup h.stamps_nodup

/-- Without equal time stamps the index order is the descending order read backwards. -/
theorem insertionSort_childOrder :
    tweets.insertionSort childOrder = (descending tweets).reverse := by
  have hsorted := List.pairwise_insertionSort childOrder tweets
  have hperm := List.perm_insertionSort childOrder tweets
  have hasc : IsDescending (fun tweet : PostTweetModel => tweet.stamp)
      (tweets.insertionSort childOrder).reverse := by
    have hne : (tweets.insertionSort childOrder).Pairwise fun a b => a.stamp ≠ b.stamp :=
      List.pairwise_map.mp ((hperm.map _).nodup_iff.mpr h.stamps_nodup)
    refine List.pairwise_reverse.mpr (hsorted.imp₂ (fun a b hab hne => ?_) hne)
    rcases hab with hab | ⟨hab, -⟩
    · exact hab
    · exact absurd hab hne
  have hdesc : descending tweets = (tweets.insertionSort childOrder).reverse :=
    sort_eq hasc (hperm.symm.trans (List.reverse_perm _).symm)
  rw [hdesc, List.reverse_reverse]

end Published

namespace FirebaseQuery

/-- The matching part of the server's descending order, cut off at the page size. -/
def page (query : FirebaseQuery) (tweets : List PostTweetModel) : List PostTweetModel :=
  let matching := (descending tweets).filter query.inBounds
  match query.pageSize with
  | none => matching
  | some pageSize => matching.take pageSize

theorem page_sublist (query : FirebaseQuery) (tweets : List PostTweetModel) :
    (query.page tweets).Sublist (descending tweets) := by
  unfold page
  cases query.pageSize with
  | none => exact List.filter_sublist
  | some k => exact (List.take_sublist k _).trans List.filter_sublist

theorem page_all (k : ℕ) (tweets : List PostTweetModel) :
    page ⟨some k, none, none⟩ tweets = (descending tweets).take k := by
  have hmatch : (descending tweets).filter (inBounds ⟨some k, none, none⟩) = descending tweets :=
    List.filter_eq_self.mpr fun tweet _ => rfl
  simp only [page, hmatch]

theorem page_ending (k : ℕ) (value : ℚ) (tweets : List PostTweetModel) :
    page ⟨some k, none, some value⟩ tweets =
      ((descending tweets).filter fun tweet => tweet.stamp ≤ (value : WithBot ℚ)).take k := by
  refine congrArg (List.take k) (List.filter_congr fun tweet _ => ?_)
  simp only [inBounds, Option.all_none, Option.all_some, Bool.true_and]

theorem page_starting (value : ℚ) (tweets : List PostTweetModel) :
    page ⟨none, some value, none⟩ tweets =
      (descending tweets).filter fun tweet => (value : WithBot ℚ) ≤ tweet.stamp := by
  refine List.filter_congr fun tweet _ => ?_
  simp only [inBounds, Option.all_none, Option.all_some, Bool.and_true]

/-- The server selects the page, in ascending order. -/
theorem select_eq (query : FirebaseQuery) {tweets : List PostTweetModel} (h : Published tweets) :
    query.select tweets = (query.page tweets).reverse := by
  simp only [select, page, limited, h.insertionSort_childOrder, List.filter_reverse]
  cases query.pageSize with
  | none => rfl
  | some k =>
    dsimp only
    rw [List.rtake_eq_reverse_take_reverse, List.reverse_reverse]

variable {query : FirebaseQuery} {tweets : List PostTweetModel} {answer : List ViewTweetModel}

/-- **The answer to a query.** In whatever order the records arrive, sorting them gives the page:
an initial segment of the matching part of the server's descending order. -/
theorem sort_records_of_answers (h : Published tweets) (hans : query.Answers tweets answer) :
    sort (fun tweet => tweet.stamp) (answer.map ViewTweetModel.record) = query.page tweets := by
  refine sort_eq (h.isDescending.sublist (query.page_sublist tweets)) (hans.trans ?_)
  rw [query.select_eq h]
  exact List.reverse_perm _

theorem record_mem_of_answers (hans : query.Answers tweets answer) {tweet : ViewTweetModel}
    (ht : tweet ∈ answer) : tweet.record ∈ tweets :=
  query.select_subset tweets (hans.mem_iff.mp (List.mem_map_of_mem ht))

theorem stamp_ne_of_answers (h : Published tweets) (hans : query.Answers tweets answer) :
    ∀ tweet ∈ answer, tweet.createdTimeStamp ≠ none := fun tweet ht =>
  h.stamp_ne tweet.record (record_mem_of_answers hans ht)

end FirebaseQuery

end TwitterLite
