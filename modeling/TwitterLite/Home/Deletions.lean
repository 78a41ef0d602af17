import TwitterLite.Home.DeleteTweet
import TwitterLite.Home.Timeline

/-!
# Paging and refreshing with deletions

Both requests ask for one tweet too many, the cursor tweet or the first row, and drop one tweet of
the answer for it, whatever that tweet is. Deletions break this: `HomeViewController.delete`
removes a row and leaves the cursor as it is, and another client may delete any tweet.

A `fetchTweets` skips a tweet exactly when the list is not empty, the server no longer has a tweet
at the cursor and still has more than one below it; a refresh skips one exactly when the server no
longer has the first row and has a newer tweet. Along a run nothing is skipped as long as none of
this happens (`Deletions.losesNothing_iff`).

## Main definitions

* `TwitterLite.Deletions`, `TwitterLite.Deletions.Step`.
* `TwitterLite.Deletions.LosesNothing`, `TwitterLite.Deletions.AnchorKept`.
* `TwitterLite.Deletions.Sound`: the invariant.

## Main results

* `TwitterLite.Deletions.step_losesNothing_iff`, `TwitterLite.Deletions.step_sound`.
* `TwitterLite.Deletions.losesNothing_iff`.

Source: `HomeViewModel.swift`, lines 38–124; `HomeViewController.swift`, lines 68–184.
-/

namespace TwitterLite

open Descending TransitionSystem

/-- The collection with deletions: all tweets ever published, those still on the server, and the
view model. -/
structure Deletions where
  history : List PostTweetModel
  server : List PostTweetModel
  vm : HomeViewModel

namespace Deletions

/-- What can happen to a timeline with deletions. -/
inductive Event where
  | fetchTweets
  | refresh
  | post (tweet : PostTweetModel)
  | delete (tweetModel : ViewTweetModel)
  | deleteRemotely (tweet : PostTweetModel)

/-- Before the first page. -/
def initial (isiPhone : Bool) (server : List PostTweetModel) : Deletions where
  history := server
  server := server
  vm := { isiPhone := isiPhone }

/-- The collection without the record of the given identifier. -/
def removeValue (tweetID : Option String) (server : List PostTweetModel) : List PostTweetModel :=
  server.filter fun tweet => tweet.tweetID ≠ tweetID

/-- One step, whose requests are answered before the next step. -/
inductive Step : Deletions → Event → Deletions → Prop
  /-- `HomeViewController.fetchTweets`. -/
  | fetchTweets {s : Deletions} {answer : List ViewTweetModel} {loggedInUser : Option UserModel}
      {profiles : ℕ → Option UserModel} {vm' : HomeViewModel} {update : Option TableUpdate}
      (answers : s.vm.fetchTweetsQuery.Answers s.server answer)
      (answered : s.vm.fetchTweetsAnswered loggedInUser profiles answer = .ok (vm', update)) :
      Step s .fetchTweets { s with vm := vm' }
  /-- `HomeViewController.refresh` with a first row. -/
  | refresh {s : Deletions} {query : FirebaseQuery} {answer : List ViewTweetModel}
      {loggedInUser : Option UserModel} {profiles : ℕ → Option UserModel} {vm' : HomeViewModel}
      {update : Option TableUpdate} (sent : s.vm.fetchLatestTweetsQuery = some query)
      (answers : query.Answers s.server answer)
      (answered : s.vm.fetchLatestTweetsAnswered loggedInUser profiles answer =
        .ok (vm', update)) :
      Step s .refresh { s with vm := vm' }
  /-- `HomeViewController.refresh` without one. -/
  | refreshEmpty {s : Deletions} (sent : s.vm.fetchLatestTweetsQuery = none) : Step s .refresh s
  /-- A client publishes a tweet, newer than all tweets so far. -/
  | post {s : Deletions} {tweet : PostTweetModel} (hid : tweet.tweetID ≠ none)
      (fresh : ∀ t ∈ s.history, t.tweetID ≠ tweet.tweetID) (hstamp : tweet.createdTimeStamp ≠ none)
      (newest : ∀ t ∈ s.history, t.stamp < tweet.stamp) :
      Step s (.post tweet)
        { s with history := tweet :: s.history, server := tweet :: s.server }
  /-- `HomeViewController.delete` of a displayed tweet: the record is removed, then the row. -/
  | delete {s : Deletions} {tweetModel : ViewTweetModel} {update : Option TableUpdate}
      {vm' : HomeViewModel} (displayed : tweetModel ∈ s.vm.tweetList)
      (shown : s.vm.deleteShown tweetModel none = (vm', update)) :
      Step s (.delete tweetModel)
        { s with server := removeValue tweetModel.tweetID s.server, vm := vm' }
  /-- The same, when a request fails. -/
  | deleteFailed {s : Deletions} {tweetModel : ViewTweetModel} {error : AppError}
      {update : Option TableUpdate} {vm' : HomeViewModel}
      (displayed : tweetModel ∈ s.vm.tweetList)
      (shown : s.vm.deleteShown tweetModel (some error) = (vm', update)) :
      Step s (.delete tweetModel) { s with vm := vm' }
  /-- Another client deletes a tweet. -/
  | deleteRemotely {s : Deletions} {tweet : PostTweetModel} (published : tweet ∈ s.server) :
      Step s (.deleteRemotely tweet) { s with server := removeValue tweet.tweetID s.server }

variable {s s' : Deletions}

/-! ### What is promised, and the guard -/

/-- Every tweet on the server between the cursor and the first row is displayed. -/
def Covered (s : Deletions) : Prop :=
  ∀ cursor : ℚ, s.vm.lastCreatedDateTimeStamp = some cursor → ∀ first ∈ s.vm.records.head?,
    ∀ tweet ∈ s.server, (cursor : WithBot ℚ) ≤ tweet.stamp → tweet.stamp ≤ first.stamp →
      tweet ∈ s.vm.records

/-- Every tweet on the server that is at least as new as the last row is displayed. -/
def CoveredFromLast (s : Deletions) : Prop :=
  ∀ last ∈ s.vm.records.getLast?, ∀ tweet ∈ s.server, last.stamp ≤ tweet.stamp →
    tweet ∈ s.vm.records

/-- The answer that the step delivers skips no tweet. -/
def LosesNothing (τ : Transition Deletions Event) : Prop :=
  match τ.event with
  | .fetchTweets => Covered τ.target
  | .refresh => CoveredFromLast τ.target
  | _ => True

/-- Nothing is displayed, or the server still has the tweet at the cursor, or it has no more than
one tweet up to the cursor. -/
def CursorKept (s : Deletions) : Prop :=
  s.vm.records = [] ∨ ∀ cursor : ℚ, s.vm.lastCreatedDateTimeStamp = some cursor →
    (∃ tweet ∈ s.server, tweet.stamp = (cursor : WithBot ℚ)) ∨
      (s.server.filter fun tweet => tweet.stamp ≤ (cursor : WithBot ℚ)).length ≤ 1

/-- The server still has the first row, or nothing newer. -/
def FirstKept (s : Deletions) : Prop :=
  ∀ first ∈ s.vm.records.head?,
    (∃ tweet ∈ s.server, tweet.stamp = first.stamp) ∨ ∀ tweet ∈ s.server, tweet.stamp < first.stamp

/-- The guard: the tweet that the request drops is the one it is taken for. -/
def AnchorKept (τ : Transition Deletions Event) : Prop :=
  match τ.event with
  | .fetchTweets => CursorKept τ.source
  | .refresh => FirstKept τ.source
  | _ => True

/-! ### The invariant -/

/-- The list is strictly descending, ends no lower than the cursor, and shows all that the server
has between the cursor and the first row. -/
structure Sound (s : Deletions) : Prop where
  published : Published s.history
  server_sublist : s.server.Sublist s.history
  records_subset : s.vm.records ⊆ s.history
  isDescending : IsDescending (fun tweet => tweet.stamp) s.vm.records
  nil_of_no_cursor : s.vm.lastCreatedDateTimeStamp = none → s.vm.records = []
  cursor_le : ∀ cursor : ℚ, s.vm.lastCreatedDateTimeStamp = some cursor →
    ∀ tweet ∈ s.vm.records, (cursor : WithBot ℚ) ≤ tweet.stamp
  covered : Covered s

theorem sound_initial (isiPhone : Bool) {server : List PostTweetModel} (h : Published server) :
    Sound (initial isiPhone server) where
  published := h
  server_sublist := .refl server
  records_subset := List.nil_subset _
  isDescending := List.Pairwise.nil
  nil_of_no_cursor _ := rfl
  cursor_le _ h := nomatch h
  covered _ h := nomatch h

namespace Sound

variable (h : Sound s)

include h

theorem published_server : Published s.server := h.published.sublist h.server_sublist

/-- The first row is the newest one. -/
theorem le_first {first tweet : PostTweetModel} (hfirst : first ∈ s.vm.records.head?)
    (ht : tweet ∈ s.vm.records) : tweet.stamp ≤ first.stamp := by
  obtain ⟨ys, hys⟩ := List.head?_eq_some_iff.mp hfirst
  have hdesc := h.isDescending
  rw [hys] at hdesc ht
  rcases List.mem_cons.mp ht with rfl | ht
  · exact le_rfl
  · exact ((List.pairwise_cons.mp hdesc).1 tweet ht).le

/-- A list that shows something has a cursor. -/
theorem exists_cursor {first : PostTweetModel} (hfirst : first ∈ s.vm.records.head?) :
    ∃ cursor : ℚ, s.vm.lastCreatedDateTimeStamp = some cursor := by
  refine Option.ne_none_iff_exists'.mp fun hnone => ?_
  rw [h.nil_of_no_cursor hnone] at hfirst
  cases hfirst

end Sound

/-! ### Older tweets -/

section FetchTweets

variable {vm' : HomeViewModel} {rows : List PostTweetModel} {cursor : ℚ}

/-- The tweets on the server up to the cursor, newest first. -/
def upTo (s : Deletions) (cursor : ℚ) : List PostTweetModel :=
  (descending s.server).filter fun tweet => tweet.stamp ≤ (cursor : WithBot ℚ)

theorem mem_upTo {tweet : PostTweetModel} :
    tweet ∈ s.upTo cursor ↔ tweet ∈ s.server ∧ tweet.stamp ≤ (cursor : WithBot ℚ) := by
  rw [upTo, List.mem_filter, mem_sort, decide_eq_true_eq]

theorem length_upTo : (s.upTo cursor).length =
    (s.server.filter fun tweet => tweet.stamp ≤ (cursor : WithBot ℚ)).length :=
  ((sort_perm _ s.server).filter _).length_eq

namespace Sound

variable (h : Sound s)

include h

theorem isDescending_upTo (cursor : ℚ) :
    IsDescending (fun tweet => tweet.stamp) (s.upTo cursor) :=
  h.published_server.isDescending.sublist List.filter_sublist

/-- Without a cursor a request brings the first page. -/
theorem olderRows_first {answer : List ViewTweetModel}
    (answers : s.vm.fetchTweetsQuery.Answers s.server answer)
    (hcursor : s.vm.lastCreatedDateTimeStamp = none) :
    s.vm.olderRows answer = (descending s.server).take s.vm.pageSize := by
  rw [HomeViewModel.olderRows, if_pos hcursor,
    FirebaseQuery.sort_records_of_answers h.published_server answers,
    HomeViewModel.fetchTweetsQuery, if_pos hcursor, hcursor, FirebaseQuery.page_all]

/-- With a cursor it brings what comes after the first tweet up to the cursor. -/
theorem olderRows_next {answer : List ViewTweetModel}
    (answers : s.vm.fetchTweetsQuery.Answers s.server answer)
    (hcursor : s.vm.lastCreatedDateTimeStamp = some cursor) :
    s.vm.olderRows answer = (s.upTo cursor).tail.take s.vm.pageSize := by
  have hne : s.vm.lastCreatedDateTimeStamp ≠ none := by simp [hcursor]
  rw [HomeViewModel.olderRows, if_neg hne,
    FirebaseQuery.sort_records_of_answers h.published_server answers,
    HomeViewModel.fetchTweetsQuery, if_neg hne, hcursor, FirebaseQuery.page_ending]
  change ((s.upTo cursor).take (s.vm.pageSize + 1)).tail = _
  cases s.upTo cursor with
  | nil => simp
  | cons a older => rfl

/-- Rows below the cursor keep the invariant but for the coverage. -/
theorem appended (happ : s.vm.Appended rows vm') (hsub : rows ⊆ s.server)
    (hrows : IsDescending (fun tweet => tweet.stamp) rows)
    (hlt : ∀ cursor : ℚ, s.vm.lastCreatedDateTimeStamp = some cursor →
      ∀ row ∈ rows, row.stamp < (cursor : WithBot ℚ))
    (hcovered : Covered { s with vm := vm' }) : Sound { s with vm := vm' } := by
  have hbelow : ∀ tweet ∈ s.vm.records, ∀ row ∈ rows, row.stamp < tweet.stamp := by
    intro tweet ht row hrow
    cases hcursor : s.vm.lastCreatedDateTimeStamp with
    | none => simp [h.nil_of_no_cursor hcursor] at ht
    | some cursor =>
      exact (hlt cursor hcursor row hrow).trans_le (h.cursor_le cursor hcursor tweet ht)
  refine ⟨h.published, h.server_sublist, ?_, ?_, ?_, ?_, hcovered⟩
  · rw [happ.records_eq]
    exact List.append_subset.mpr
      ⟨h.records_subset, List.Subset.trans hsub h.server_sublist.subset⟩
  · rw [happ.records_eq]
    exact List.pairwise_append.mpr ⟨h.isDescending, hrows, hbelow⟩
  · rw [happ.cursor_eq, happ.records_eq]
    intro hnone
    split_ifs at hnone with hnil
    · rw [hnil, List.append_nil, h.nil_of_no_cursor hnone]
    · rw [List.getLast?_eq_some_getLast hnil, Option.bind_some] at hnone
      exact absurd hnone (h.published_server.stamp_ne _ (hsub (List.getLast_mem hnil)))
  · rw [happ.cursor_eq, happ.records_eq]
    intro cursor hcursor tweet ht
    split_ifs at hcursor with hnil
    · rw [hnil, List.append_nil] at ht
      exact h.cursor_le cursor hcursor tweet ht
    · rw [List.getLast?_eq_some_getLast hnil, Option.bind_some] at hcursor
      have hlast : (rows.getLast hnil).stamp = (cursor : WithBot ℚ) := hcursor
      rw [← hlast]
      rcases List.mem_append.mp ht with ht | ht
      · exact (hbelow tweet ht _ (List.getLast_mem hnil)).le
      · exact hrows.getLast_le hnil ht

/-- The first page covers everything down to its last row. -/
theorem covered_first (hcursor : s.vm.lastCreatedDateTimeStamp = none)
    (happ : s.vm.Appended ((descending s.server).take s.vm.pageSize) vm') :
    Covered { s with vm := vm' } := by
  intro cursor hcursor' first _ tweet ht hle _
  rw [happ.records_eq]
  rw [happ.cursor_eq] at hcursor'
  split_ifs at hcursor' with hnil
  · simp [hcursor] at hcursor'
  · rw [List.getLast?_eq_some_getLast hnil, Option.bind_some] at hcursor'
    have hlast : (List.getLast _ hnil).stamp = (cursor : WithBot ℚ) := hcursor'
    refine List.mem_append_right _ ?_
    exact h.published_server.isDescending.mem_take ((mem_sort _).mpr ht)
      (List.getLast_mem hnil) (hlast ▸ hle)

section Next

variable {a : PostTweetModel} {older : List PostTweetModel}

theorem lt_of_mem_older (hupTo : s.upTo cursor = a :: older) {tweet : PostTweetModel}
    (ht : tweet ∈ older) : tweet.stamp < a.stamp :=
  (List.pairwise_cons.mp (hupTo ▸ h.isDescending_upTo cursor)).1 tweet ht

/-- The next page reaches down to the new cursor. -/
theorem mem_take_older (hcursor : s.vm.lastCreatedDateTimeStamp = some cursor)
    (hupTo : s.upTo cursor = a :: older)
    (happ : s.vm.Appended (older.take s.vm.pageSize) vm') {cursor' : ℚ}
    (hcursor' : vm'.lastCreatedDateTimeStamp = some cursor') {tweet : PostTweetModel}
    (ht : tweet ∈ older) (hle : (cursor' : WithBot ℚ) ≤ tweet.stamp) :
    tweet ∈ older.take s.vm.pageSize := by
  have hmem : a ∈ s.upTo cursor := hupTo ▸ List.mem_cons_self
  rw [happ.cursor_eq] at hcursor'
  split_ifs at hcursor' with hnil
  · obtain rfl := Option.some.inj (hcursor.symm.trans hcursor')
    exact absurd ((h.lt_of_mem_older hupTo ht).trans_le (mem_upTo.mp hmem).2) hle.not_gt
  · rw [List.getLast?_eq_some_getLast hnil, Option.bind_some] at hcursor'
    have hlast : (List.getLast _ hnil).stamp = (cursor' : WithBot ℚ) := hcursor'
    have holder : IsDescending (fun tweet : PostTweetModel => tweet.stamp) older :=
      (hupTo ▸ h.isDescending_upTo cursor).sublist (List.sublist_cons_self a older)
    exact holder.mem_take ht (List.getLast_mem hnil) (hlast ▸ hle)

/-- If the cursor is kept, the next page covers everything down to its last row. -/
theorem covered_next (hcursor : s.vm.lastCreatedDateTimeStamp = some cursor)
    (hupTo : s.upTo cursor = a :: older)
    (happ : s.vm.Appended (older.take s.vm.pageSize) vm') (hkept : CursorKept s) :
    Covered { s with vm := vm' } := by
  intro cursor' hcursor' first hfirst tweet ht hle hge
  have hmem : a ∈ s.upTo cursor := hupTo ▸ List.mem_cons_self
  have hsplit : tweet.stamp ≤ (cursor : WithBot ℚ) → tweet = a ∨ tweet ∈ older := fun hbelow =>
    List.mem_cons.mp (hupTo ▸ mem_upTo.mpr ⟨ht, hbelow⟩)
  have hpage : tweet ∈ older → tweet ∈ older.take s.vm.pageSize := fun hm =>
    h.mem_take_older hcursor hupTo happ hcursor' hm hle
  dsimp only at hfirst ⊢
  rw [happ.records_eq] at hfirst ⊢
  by_cases hrec : s.vm.records = []
  · -- the page is all that is shown, so its first row bounds the tweet
    rw [hrec, List.nil_append] at hfirst ⊢
    have hlt := h.lt_of_mem_older hupTo (List.mem_of_mem_take (List.mem_of_mem_head? hfirst))
    rcases hsplit (hge.trans (hlt.le.trans (mem_upTo.mp hmem).2)) with rfl | hm
    · exact absurd hge hlt.not_ge
    · exact hpage hm
  · have hfirst' : first ∈ s.vm.records.head? := by
      rwa [List.head?_append_of_ne_nil _ hrec] at hfirst
    refine List.mem_append.mpr ?_
    rcases le_or_gt (cursor : WithBot ℚ) tweet.stamp with habove | hbelow
    · exact .inl (h.covered cursor hcursor first hfirst' tweet ht habove hge)
    refine .inr ?_
    rcases hsplit hbelow.le with rfl | hm
    · -- the dropped tweet is not the cursor tweet, so by the guard it is the only one left
      rcases hkept.resolve_left hrec cursor hcursor with ⟨t, ht', hstamp⟩ | hshort
      · rcases List.mem_cons.mp (hupTo ▸ mem_upTo.mpr ⟨ht', hstamp.le⟩) with rfl | hm
        · exact absurd hstamp hbelow.ne
        · exact absurd (h.lt_of_mem_older hupTo hm) (hstamp ▸ hbelow).not_gt
      · rw [← length_upTo, hupTo, List.length_cons] at hshort
        have hnil : older = [] := List.length_eq_zero_iff.mp (by omega)
        rw [happ.cursor_eq, hnil, List.take_nil, if_pos rfl] at hcursor'
        obtain rfl := Option.some.inj (hcursor.symm.trans hcursor')
        exact absurd hle hbelow.not_ge
    · exact hpage hm

/-- If it is not kept, the dropped tweet is skipped. -/
theorem cursorKept_of_covered (hcursor : s.vm.lastCreatedDateTimeStamp = some cursor)
    (hupTo : s.upTo cursor = a :: older)
    (happ : s.vm.Appended (older.take s.vm.pageSize) vm')
    (hcovered : Covered { s with vm := vm' }) : CursorKept s := by
  by_contra hkept
  obtain ⟨hrec, hcursorKept⟩ := not_or.mp hkept
  obtain ⟨first, hfirst⟩ := Option.ne_none_iff_exists'.mp (mt List.head?_eq_none_iff.mp hrec)
  have hmem := mem_upTo.mp (hupTo ▸ List.mem_cons_self : a ∈ s.upTo cursor)
  refine hcursorKept fun cursor' hcursor' => ?_
  obtain rfl := Option.some.inj (hcursor.symm.trans hcursor')
  by_contra hlost
  obtain ⟨hgone, hmore⟩ := not_or.mp hlost
  have hne : older.take s.vm.pageSize ≠ [] := by
    have hpos := s.vm.pageSize_pos
    rw [← length_upTo, hupTo, List.length_cons] at hmore
    rw [← List.length_pos_iff, List.length_take]
    omega
  obtain ⟨r, hr⟩ : ∃ r, r = (older.take s.vm.pageSize).getLast hne := ⟨_, rfl⟩
  have hrmem : r ∈ older := List.mem_of_mem_take (hr ▸ List.getLast_mem hne)
  obtain ⟨value, hvalue⟩ := Option.ne_none_iff_exists'.mp
    (h.published_server.stamp_ne r (mem_upTo.mp (hupTo ▸ List.mem_cons_of_mem a hrmem)).1)
  have hcursor' : vm'.lastCreatedDateTimeStamp = some value := by
    rw [happ.cursor_eq, if_neg hne, List.getLast?_eq_some_getLast hne, Option.bind_some, ← hr,
      hvalue]
  have hshown := hcovered value hcursor' first
    (by dsimp only; rw [happ.records_eq, List.head?_append_of_ne_nil _ hrec, hfirst]; rfl) a hmem.1
    ((show r.stamp = value from hvalue) ▸ (h.lt_of_mem_older hupTo hrmem).le)
    (hmem.2.trans (h.cursor_le cursor hcursor first (List.mem_of_mem_head? hfirst)))
  dsimp only at hshown
  rw [happ.records_eq] at hshown
  rcases List.mem_append.mp hshown with hm | hm
  · exact hgone ⟨a, hmem.1, le_antisymm hmem.2 (h.cursor_le cursor hcursor a hm)⟩
  · exact absurd rfl (h.lt_of_mem_older hupTo (List.mem_of_mem_take hm)).ne

end Next

/-- A fetch that finds no tweet up to the cursor. -/
theorem fetched_nothing {cursor : ℚ} (hcursor : s.vm.lastCreatedDateTimeStamp = some cursor)
    (hupTo : s.upTo cursor = []) (happ : s.vm.Appended [] vm') :
    (Covered { s with vm := vm' } ↔ CursorKept s) ∧
      (CursorKept s → Sound { s with vm := vm' }) := by
  have hkept : CursorKept s := by
    refine .inr fun cursor' hcursor' => .inr ?_
    obtain rfl := Option.some.inj (hcursor.symm.trans hcursor')
    rw [← length_upTo, hupTo]
    exact Nat.zero_le 1
  have hcovered : Covered { s with vm := vm' } := by
    intro cursor' hcursor' first hfirst tweet ht hle hge
    dsimp only at hfirst hcursor' ⊢
    rw [happ.records_eq, List.append_nil] at hfirst ⊢
    rw [happ.cursor_eq, if_pos rfl] at hcursor'
    exact h.covered cursor' hcursor' first hfirst tweet ht hle hge
  refine ⟨iff_of_true hcovered hkept, fun _ => ?_⟩
  exact h.appended happ (List.nil_subset _) List.Pairwise.nil
    (fun _ _ row hrow => absurd hrow List.not_mem_nil) hcovered

/-- A fetch that drops the first of the tweets up to the cursor and appends a page of the others. -/
theorem fetched_next {cursor : ℚ} (hcursor : s.vm.lastCreatedDateTimeStamp = some cursor)
    {a : PostTweetModel} {older : List PostTweetModel} (hupTo : s.upTo cursor = a :: older)
    (happ : s.vm.Appended (older.take s.vm.pageSize) vm') :
    (Covered { s with vm := vm' } ↔ CursorKept s) ∧
      (CursorKept s → Sound { s with vm := vm' }) := by
  have hmem : ∀ row ∈ older.take s.vm.pageSize, row ∈ s.upTo cursor := fun row hrow =>
    hupTo ▸ List.mem_cons_of_mem a (List.mem_of_mem_take hrow)
  have hdesc : IsDescending (fun tweet => tweet.stamp) (older.take s.vm.pageSize) :=
    (hupTo ▸ h.isDescending_upTo cursor).sublist
      ((List.take_sublist _ _).trans (List.sublist_cons_self a older))
  refine ⟨⟨h.cursorKept_of_covered hcursor hupTo happ, h.covered_next hcursor hupTo happ⟩,
    fun hkept => ?_⟩
  refine h.appended happ (fun row hrow => (mem_upTo.mp (hmem row hrow)).1) hdesc
    (fun cursor' hcursor' row hrow => ?_) (h.covered_next hcursor hupTo happ hkept)
  obtain rfl := Option.some.inj (hcursor.symm.trans hcursor')
  have ha : a ∈ s.upTo cursor := hupTo ▸ List.mem_cons_self
  exact (h.lt_of_mem_older hupTo (List.mem_of_mem_take hrow)).trans_le (mem_upTo.mp ha).2

/-- **A `fetchTweets` skips no tweet exactly when the cursor is kept, and then keeps the
invariant.** -/
theorem fetched {answer : List ViewTweetModel}
    (answers : s.vm.fetchTweetsQuery.Answers s.server answer)
    (happ : s.vm.Appended (s.vm.olderRows answer) vm') :
    (Covered { s with vm := vm' } ↔ CursorKept s) ∧
      (CursorKept s → Sound { s with vm := vm' }) := by
  have hserver := h.published_server
  cases hcursor : s.vm.lastCreatedDateTimeStamp with
  | none =>
    rw [h.olderRows_first answers hcursor] at happ
    have hcovered := h.covered_first hcursor happ
    have hsub : (descending s.server).take s.vm.pageSize ⊆ s.server := fun row hrow =>
      (mem_sort _).mp (List.mem_of_mem_take hrow)
    refine ⟨iff_of_true hcovered (.inl (h.nil_of_no_cursor hcursor)), fun _ => ?_⟩
    refine h.appended happ hsub (hserver.isDescending.sublist (List.take_sublist _ _)) ?_ hcovered
    simp [hcursor]
  | some cursor =>
    rw [h.olderRows_next answers hcursor] at happ
    cases hupTo : s.upTo cursor with
    | nil =>
      rw [hupTo, List.tail_nil, List.take_nil] at happ
      exact h.fetched_nothing hcursor hupTo happ
    | cons a older =>
      rw [hupTo, List.tail_cons] at happ
      exact h.fetched_next hcursor hupTo happ

end Sound

end FetchTweets

/-! ### Newer tweets -/

section Refresh

variable {vm' : HomeViewModel} {first : PostTweetModel} {query : FirebaseQuery}
  {answer : List ViewTweetModel}

/-- The tweets on the server down to the given one, newest first. -/
def downTo (s : Deletions) (first : PostTweetModel) : List PostTweetModel :=
  (descending s.server).filter fun tweet => first.stamp ≤ tweet.stamp

theorem mem_downTo {tweet : PostTweetModel} :
    tweet ∈ s.downTo first ↔ tweet ∈ s.server ∧ first.stamp ≤ tweet.stamp := by
  rw [downTo, List.mem_filter, mem_sort, decide_eq_true_eq]

namespace Sound

variable (h : Sound s)

include h

theorem isDescending_downTo (first : PostTweetModel) :
    IsDescending (fun tweet => tweet.stamp) (s.downTo first) :=
  h.published_server.isDescending.sublist List.filter_sublist

/-- A refresh is sent with the first row, and brings all from there on but the last. -/
theorem newerRows_eq (sent : s.vm.fetchLatestTweetsQuery = some query)
    (answers : query.Answers s.server answer) :
    ∃ first ∈ s.vm.records.head?, HomeViewModel.newerRows answer = (s.downTo first).dropLast := by
  obtain ⟨value, hfirst, rfl⟩ := Option.map_eq_some_iff.mp sent
  obtain ⟨tweet, ht, hvalue⟩ := Option.bind_eq_some_iff.mp hfirst
  have hstamp : tweet.record.stamp = (value : WithBot ℚ) := hvalue
  refine ⟨tweet.record, ?_, ?_⟩
  · rw [HomeViewModel.records, List.head?_map, ht]
    rfl
  · rw [HomeViewModel.newerRows, FirebaseQuery.sort_records_of_answers h.published_server answers,
      FirebaseQuery.page_starting, downTo, hstamp]

/-- Without a row no refresh is sent, and without a refresh there is no row. -/
theorem records_eq_nil_of_not_sent (sent : s.vm.fetchLatestTweetsQuery = none) :
    s.vm.records = [] := by
  cases hlist : s.vm.tweetList with
  | nil => rw [HomeViewModel.records, hlist, List.map_nil]
  | cons tweet tweets =>
    have hmem : tweet.record ∈ s.vm.records := by simp [HomeViewModel.records, hlist]
    simp only [HomeViewModel.fetchLatestTweetsQuery, hlist, List.head?_cons, Option.bind_some,
      Option.map_eq_none_iff] at sent
    exact absurd sent (h.published.stamp_ne _ (h.records_subset hmem))

/-- The rows of a refresh lie above the first row. -/
theorem lt_of_mem_dropLast {tweet : PostTweetModel} (ht : tweet ∈ (s.downTo first).dropLast) :
    first.stamp < tweet.stamp := by
  have hne : s.downTo first ≠ [] := fun hnil => by simp [hnil] at ht
  have hdesc := h.isDescending_downTo first
  rw [← List.dropLast_append_getLast hne] at hdesc
  exact (mem_downTo.mp (List.getLast_mem hne)).2.trans_lt
    ((List.pairwise_append.mp hdesc).2.2 tweet ht _ (List.mem_singleton_self _))

/-- If the first row is kept, a refresh shows everything from the cursor on. -/
theorem mem_of_firstKept (hfirst : first ∈ s.vm.records.head?)
    (hpre : s.vm.Prepended (s.downTo first).dropLast vm') (hkept : FirstKept s) {cursor : ℚ}
    (hcursor : s.vm.lastCreatedDateTimeStamp = some cursor) {tweet : PostTweetModel}
    (ht : tweet ∈ s.server) (hle : (cursor : WithBot ℚ) ≤ tweet.stamp) :
    tweet ∈ vm'.records := by
  rw [hpre.records_eq]
  refine List.mem_append.mpr ?_
  rcases le_or_gt tweet.stamp first.stamp with hbelow | habove
  · exact .inr (h.covered cursor hcursor first hfirst tweet ht hle hbelow)
  refine .inl ?_
  rcases hkept first hfirst with ⟨t, ht', hstamp⟩ | hall
  · have hmem : tweet ∈ s.downTo first := mem_downTo.mpr ⟨ht, habove.le⟩
    have hne : s.downTo first ≠ [] := List.ne_nil_of_mem hmem
    -- the first row is the last tweet of the answer
    have hlast : ((s.downTo first).getLast hne).stamp ≤ first.stamp :=
      hstamp ▸ (h.isDescending_downTo first).getLast_le hne (mem_downTo.mpr ⟨ht', hstamp.ge⟩)
    rw [← List.dropLast_append_getLast hne] at hmem
    refine (List.mem_append.mp hmem).resolve_right fun hm => ?_
    exact absurd (List.mem_singleton.mp hm ▸ hlast) habove.not_ge
  · exact absurd (hall tweet ht) habove.not_gt

/-- If the first row is not kept, the dropped tweet is skipped. -/
theorem firstKept_of_covered (hfirst : first ∈ s.vm.records.head?)
    (hpre : s.vm.Prepended (s.downTo first).dropLast vm')
    (hcovered : CoveredFromLast { s with vm := vm' }) : FirstKept s := by
  intro first' hfirst'
  obtain rfl := Option.some.inj (hfirst.symm.trans hfirst')
  by_contra hlost
  obtain ⟨hgone, hmore⟩ := not_or.mp hlost
  obtain ⟨t, ht, hlt⟩ : ∃ t ∈ s.server, first.stamp ≤ t.stamp := by
    simpa only [not_forall, not_lt, exists_prop] using hmore
  have hne : s.downTo first ≠ [] := List.ne_nil_of_mem (mem_downTo.mpr ⟨ht, hlt⟩)
  obtain ⟨y, hy⟩ : ∃ y, y = (s.downTo first).getLast hne := ⟨_, rfl⟩
  have hmem := mem_downTo.mp (hy ▸ List.getLast_mem hne)
  have habove : first.stamp < y.stamp :=
    lt_of_le_of_ne hmem.2 fun heq => hgone ⟨y, hmem.1, heq.symm⟩
  have hrec : s.vm.records ≠ [] := fun hnil => by simp [hnil] at hfirst
  have hshown := hcovered (s.vm.records.getLast hrec)
    (by dsimp only; rw [hpre.records_eq, List.getLast?_append_of_ne_nil _ hrec,
      List.getLast?_eq_some_getLast hrec]; rfl) y hmem.1
    ((h.le_first hfirst (List.getLast_mem hrec)).trans habove.le)
  dsimp only at hshown
  rw [hpre.records_eq] at hshown
  rcases List.mem_append.mp hshown with hm | hm
  · have hdesc := h.isDescending_downTo first
    rw [← List.dropLast_append_getLast hne, ← hy] at hdesc
    exact lt_irrefl _ ((List.pairwise_append.mp hdesc).2.2 y hm y (List.mem_singleton_self y))
  · exact absurd (h.le_first hfirst hm) habove.not_ge

/-- Rows above the first row keep the invariant, if the first row is kept. -/
theorem prepended (hfirst : first ∈ s.vm.records.head?)
    (hpre : s.vm.Prepended (s.downTo first).dropLast vm') (hkept : FirstKept s) :
    Sound { s with vm := vm' } := by
  have habove : ∀ row ∈ (s.downTo first).dropLast, ∀ tweet ∈ s.vm.records,
      tweet.stamp < row.stamp := fun row hrow tweet ht =>
    (h.le_first hfirst ht).trans_lt (h.lt_of_mem_dropLast hrow)
  refine ⟨h.published, h.server_sublist, ?_, ?_, ?_, ?_, ?_⟩
  · rw [hpre.records_eq]
    refine List.append_subset.mpr ⟨fun row hrow => ?_, h.records_subset⟩
    exact h.server_sublist.subset (mem_downTo.mp (List.dropLast_subset _ hrow)).1
  · rw [hpre.records_eq]
    exact List.pairwise_append.mpr
      ⟨(h.isDescending_downTo first).sublist (List.dropLast_sublist _), h.isDescending, habove⟩
  · intro hnone
    rw [hpre.cursor_eq] at hnone
    simp [h.nil_of_no_cursor hnone] at hfirst
  · intro cursor hcursor tweet ht
    rw [hpre.cursor_eq] at hcursor
    rw [hpre.records_eq] at ht
    rcases List.mem_append.mp ht with ht | ht
    · have hle := h.cursor_le cursor hcursor first (List.mem_of_mem_head? hfirst)
      exact hle.trans (h.lt_of_mem_dropLast ht).le
    · exact h.cursor_le cursor hcursor tweet ht
  · intro cursor hcursor _ _ tweet ht hle _
    exact h.mem_of_firstKept hfirst hpre hkept (hpre.cursor_eq ▸ hcursor) ht hle

/-- If the first row is kept, a refresh skips nothing. -/
theorem coveredFromLast (hfirst : first ∈ s.vm.records.head?)
    (hpre : s.vm.Prepended (s.downTo first).dropLast vm') (hkept : FirstKept s) :
    CoveredFromLast { s with vm := vm' } := by
  intro last hlast tweet ht hle
  obtain ⟨cursor, hcursor⟩ := h.exists_cursor hfirst
  have hsound := h.prepended hfirst hpre hkept
  exact h.mem_of_firstKept hfirst hpre hkept hcursor ht
    ((hsound.cursor_le cursor (hpre.cursor_eq.trans hcursor) last
      (List.mem_of_getLast? hlast)).trans hle)

end Sound

end Refresh

/-! ### Steps and runs -/

namespace Sound

variable (h : Sound s)

include h

/-- Removing records from the server and rows of removed records from the list. -/
theorem removed {vm' : HomeViewModel} {tweetID : Option String}
    (hcursor : vm'.lastCreatedDateTimeStamp = s.vm.lastCreatedDateTimeStamp)
    (hsub : vm'.records.Sublist s.vm.records)
    (hkeep : ∀ tweet ∈ s.vm.records, tweet.tweetID ≠ tweetID → tweet ∈ vm'.records) :
    Sound { s with server := removeValue tweetID s.server, vm := vm' } := by
  refine ⟨h.published, List.filter_sublist.trans h.server_sublist,
    fun tweet ht => h.records_subset (hsub.subset ht), h.isDescending.sublist hsub, fun hnone => ?_,
    fun cursor hc tweet ht => ?_, fun cursor hc first hfirst tweet ht hle hge => ?_⟩
  · exact List.sublist_nil.mp (h.nil_of_no_cursor (hcursor.symm.trans hnone) ▸ hsub)
  · exact h.cursor_le cursor (hcursor.symm.trans hc) tweet (hsub.subset ht)
  · obtain ⟨hserver, hid⟩ := List.mem_filter.mp ht
    have hshown := hsub.subset (List.mem_of_mem_head? hfirst)
    obtain ⟨first', hfirst'⟩ := Option.ne_none_iff_exists'.mp
      (mt List.head?_eq_none_iff.mp (List.ne_nil_of_mem hshown))
    refine hkeep tweet (h.covered cursor (hcursor.symm.trans hc) first' hfirst' tweet hserver hle
      (hge.trans (h.le_first hfirst' hshown))) (by simpa using hid)

/-- The row of a deleted tweet is the only one that goes. -/
theorem deleted {tweetModel : ViewTweetModel} {update : Option TableUpdate} {vm' : HomeViewModel}
    (shown : s.vm.deleteShown tweetModel none = (vm', update)) :
    Sound { s with server := removeValue tweetModel.tweetID s.server, vm := vm' } := by
  have hvm : vm' = _ := (congrArg Prod.fst shown).symm.trans (s.vm.deleteShown_eq tweetModel)
  refine h.removed ?_ ?_ fun tweet ht hid => ?_
  · rw [hvm]
  · rw [hvm]
    exact List.eraseP_sublist.map _
  · obtain ⟨row, hrow, rfl⟩ := List.mem_map.mp ht
    rw [hvm]
    exact List.mem_map_of_mem ((List.mem_eraseP_of_neg (by simpa using hid)).mpr hrow)

/-- A newest tweet lies above everything displayed. -/
theorem posted {tweet : PostTweetModel} (hid : tweet.tweetID ≠ none)
    (fresh : ∀ t ∈ s.history, t.tweetID ≠ tweet.tweetID) (hstamp : tweet.createdTimeStamp ≠ none)
    (newest : ∀ t ∈ s.history, t.stamp < tweet.stamp) :
    Sound { s with history := tweet :: s.history, server := tweet :: s.server } := by
  refine ⟨h.published.cons hid fresh hstamp fun t ht => (newest t ht).ne,
    h.server_sublist.cons_cons tweet, fun t ht => List.mem_cons_of_mem _ (h.records_subset ht),
    h.isDescending, h.nil_of_no_cursor, h.cursor_le, ?_⟩
  intro cursor hcursor first hfirst t ht hle hge
  rcases List.mem_cons.mp ht with rfl | ht
  · exact absurd hge (newest first (h.records_subset (List.mem_of_mem_head? hfirst))).not_ge
  · exact h.covered cursor hcursor first hfirst t ht hle hge

end Sound

/-- **A step skips no tweet exactly when its anchor is kept, and then keeps the invariant.** -/
theorem step_losesNothing_iff {e : Event} (h : Sound s) (step : Step s e s') :
    (LosesNothing ⟨s, e, s'⟩ ↔ AnchorKept ⟨s, e, s'⟩) ∧ (AnchorKept ⟨s, e, s'⟩ → Sound s') := by
  cases step with
  | @fetchTweets answer loggedInUser profiles vm' update answers answered =>
    obtain ⟨_, _, hok, happ⟩ := s.vm.fetchTweetsAnswered_spec loggedInUser profiles
      (FirebaseQuery.stamp_ne_of_answers h.published_server answers)
    obtain ⟨rfl, -⟩ := Prod.mk.inj (Except.ok.inj (hok.symm.trans answered))
    exact h.fetched answers happ
  | @refresh query answer loggedInUser profiles vm' update sent answers answered =>
    obtain ⟨_, _, hok, hpre⟩ := s.vm.fetchLatestTweetsAnswered_spec loggedInUser profiles
      (FirebaseQuery.stamp_ne_of_answers h.published_server answers)
    obtain ⟨rfl, -⟩ := Prod.mk.inj (Except.ok.inj (hok.symm.trans answered))
    obtain ⟨first, hfirst, hrows⟩ := h.newerRows_eq sent answers
    rw [hrows] at hpre
    exact ⟨⟨h.firstKept_of_covered hfirst hpre, h.coveredFromLast hfirst hpre⟩,
      h.prepended hfirst hpre⟩
  | refreshEmpty sent =>
    have hnil := h.records_eq_nil_of_not_sent sent
    refine ⟨iff_of_true (fun last hlast => ?_) fun first hfirst => ?_, fun _ => h⟩
    · simp [hnil] at hlast
    · simp [hnil] at hfirst
  | post hid fresh hstamp newest =>
    exact ⟨iff_of_true trivial trivial, fun _ => h.posted hid fresh hstamp newest⟩
  | delete displayed shown => exact ⟨iff_of_true trivial trivial, fun _ => h.deleted shown⟩
  | deleteFailed displayed shown =>
    obtain ⟨rfl, -⟩ := Prod.mk.inj shown
    exact ⟨iff_of_true trivial trivial, fun _ => h⟩
  | deleteRemotely published =>
    exact ⟨iff_of_true trivial trivial, fun _ => h.removed rfl (.refl _) fun _ ht _ => ht⟩

/-- **Deletions make a run lose a tweet exactly when a request is answered without its anchor.** -/
theorem losesNothing_iff (isiPhone : Bool) {server : List PostTweetModel}
    (hserver : Published server) {ts : List (Transition Deletions Event)}
    (run : Run Step (initial isiPhone server) ts s) :
    (∀ τ ∈ ts, LosesNothing τ) ↔ ∀ τ ∈ ts, AnchorKept τ :=
  run.forall_good_iff Sound (fun _ _ _ h step hkept => (step_losesNothing_iff h step).2 hkept)
    (fun _ _ _ h step => (step_losesNothing_iff h step).1) (sound_initial isiPhone hserver)

/-- Deleting a displayed tweet and refreshing after a post. -/
theorem losesNothing_iff_two :
    ∃ ts s, Run Step (initial true [Timeline.tweetAt "b" 2, Timeline.tweetAt "a" 1]) ts s ∧
      ts.length = 4 ∧ s.vm.records = [Timeline.tweetAt "c" 3, Timeline.tweetAt "a" 1] ∧
      ∀ τ ∈ ts, LosesNothing τ := by
  have page : FirebaseQuery.Answers ⟨some 10, none, none⟩
      [Timeline.tweetAt "b" 2, Timeline.tweetAt "a" 1]
      [{ Timeline.tweetAt "b" 2 with }, { Timeline.tweetAt "a" 1 with }] := by decide
  have latest : FirebaseQuery.Answers ⟨none, some 1, none⟩
      [Timeline.tweetAt "c" 3, Timeline.tweetAt "a" 1]
      [{ Timeline.tweetAt "a" 1 with }, { Timeline.tweetAt "c" 3 with }] := by decide
  have start : Run Step (initial true [Timeline.tweetAt "b" 2, Timeline.tweetAt "a" 1]) [] _ :=
    .nil _
  have run := start
    |>.snoc (.fetchTweets page
      (show HomeViewModel.fetchTweetsAnswered _ none (fun _ => none) _ = _ from rfl))
    |>.snoc (.delete (show { Timeline.tweetAt "b" 2 with } ∈ _ by decide) rfl)
    |>.snoc (.post (show (Timeline.tweetAt "c" 3).tweetID ≠ none by decide) (by decide)
      (by decide) (by decide))
    |>.snoc (.refresh rfl latest
      (show HomeViewModel.fetchLatestTweetsAnswered _ none (fun _ => none) _ = _ from rfl))
  refine ⟨_, _, run, rfl, by decide, (losesNothing_iff true ?_ run).mpr ?_⟩
  · constructor <;> decide
  · simp only [List.nil_append, List.cons_append, List.forall_mem_cons]
    refine ⟨.inl rfl, trivial, trivial, fun first hfirst => .inl ?_, List.forall_mem_nil _⟩
    obtain rfl := Option.some.inj hfirst
    exact ⟨Timeline.tweetAt "a" 1, by decide, rfl⟩

/-- Another client deletes the only displayed tweet; a tweet published after that never appears
by refreshing. -/
theorem not_losesNothing_of_run :
    ¬ ∀ (isiPhone : Bool) (server : List PostTweetModel) (ts : List (Transition Deletions Event))
      (s : Deletions), Published server → Run Step (initial isiPhone server) ts s →
        ∀ τ ∈ ts, LosesNothing τ := by
  have page : FirebaseQuery.Answers ⟨some 10, none, none⟩ [Timeline.tweetAt "a" 1]
      [{ Timeline.tweetAt "a" 1 with }] := by decide
  have latest : FirebaseQuery.Answers ⟨none, some 1, none⟩ [Timeline.tweetAt "b" 2]
      [{ Timeline.tweetAt "b" 2 with }] := by decide
  have start : Run Step (initial true [Timeline.tweetAt "a" 1]) [] _ := .nil _
  have run := start
    |>.snoc (.fetchTweets page
      (show HomeViewModel.fetchTweetsAnswered _ none (fun _ => none) _ = _ from rfl))
    |>.snoc (.deleteRemotely (show Timeline.tweetAt "a" 1 ∈ _ by decide))
    |>.snoc (.post (show (Timeline.tweetAt "b" 2).tweetID ≠ none by decide) (by decide)
      (by decide) (by decide))
    |>.snoc (.refresh rfl latest
      (show HomeViewModel.fetchLatestTweetsAnswered _ none (fun _ => none) _ = _ from rfl))
  intro h
  have hlost := h true _ _ _ (by constructor <;> decide) run _ (List.mem_append_right _
    (List.mem_singleton_self _))
  have hmem := hlost (Timeline.tweetAt "a" 1) rfl (Timeline.tweetAt "b" 2) (by decide) (by decide)
  exact absurd hmem (by decide)

end Deletions

end TwitterLite
