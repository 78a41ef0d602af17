import TwitterLite.Home.Timeline

/-!
# Paging over tweets of equal time stamps

The server orders the tweets by time stamp, those of equal time stamp by key, but the cursor of the
list is a bare time stamp: the next page begins with all tweets of that time stamp, one of which is
dropped, and which one depends on the order of the answer.

If no other tweet has the time stamp of the last loaded one, the page is the one below it
(`TwitterLite.Paging.Shows.next`). If another one has, the page repeats a tweet that is in the list
already, for instance when the answers arrive in the order of the index
(`TwitterLite.Paging.exists_repeated_row`). So paging lists every tweet exactly once and then stops
exactly if each page ends with a tweet whose time stamp no other one has
(`TwitterLite.Paging.listsEachOnce_iff`).

## Main definitions

* `TwitterLite.Paging.Stored`, `TwitterLite.Paging.Repeats`, `TwitterLite.Paging.ListsEachOnce`.
* `TwitterLite.Paging.PagesEndAlone`.
* `TwitterLite.Paging.Shows`: the list shows the first tweets of the server's order.

## Main results

* `TwitterLite.Paging.exists_repeats`: no call traps.
* `TwitterLite.Paging.listsEachOnce_iff`.

Source: `HomeViewModel.swift`, lines 61–82; `HomeViewController.swift`, lines 100–134.
-/

namespace TwitterLite

open Descending

namespace Paging

/-- Published tweets: each with an identifier of its own and a time stamp, which others may
share. -/
structure Stored (server : List PostTweetModel) : Prop where
  tweetIDs_nodup : (server.map fun tweet => tweet.tweetID).Nodup
  stamp_ne : ∀ tweet ∈ server, tweet.createdTimeStamp ≠ none

/-- `fetchTweets` is called again and again, and each call is answered before the next one. -/
structure Repeats (isiPhone : Bool) (server : List PostTweetModel) (σ : ℕ → HomeViewModel) :
    Prop where
  initial : σ 0 = (Timeline.initial isiPhone server).vm
  step (k : ℕ) : Timeline.Step ⟨server, σ k⟩ .fetchTweets ⟨server, σ (k + 1)⟩

/-- In whatever order the answers arrive, some call appends nothing, and then the list has every
tweet of the server exactly once. -/
def ListsEachOnce (isiPhone : Bool) (server : List PostTweetModel) : Prop :=
  ∀ σ, Repeats isiPhone server σ →
    ∃ k, (σ (k + 1)).records = (σ k).records ∧ (σ k).records.Perm server

/-- No other tweet has the time stamp of the last one of the newest `m`. -/
def EndsAlone (server : List PostTweetModel) (m : ℕ) : Prop :=
  ∀ last ∈ ((newestFirst server).take m).getLast?,
    ∀ tweet ∈ server, tweet.stamp = last.stamp → tweet = last

/-- No other tweet has the time stamp of the last one of a page. -/
def PagesEndAlone (pageSize : ℕ) (server : List PostTweetModel) : Prop :=
  ∀ j, EndsAlone server (j * pageSize)

/-- The list shows the newest `m` tweets of the server, and the cursor is the time stamp of the last
one of them. -/
structure Shows (pageSize : ℕ) (server : List PostTweetModel) (m : ℕ) (vm : HomeViewModel) :
    Prop where
  pageSize_eq : vm.pageSize = pageSize
  records_perm : vm.records.Perm ((newestFirst server).take m)
  cursor_eq : vm.lastCreatedDateTimeStamp =
    ((newestFirst server).take m).getLast?.bind fun tweet => tweet.createdTimeStamp

variable {isiPhone : Bool} {server : List PostTweetModel} {pageSize m : ℕ} {vm vm' : HomeViewModel}

theorem shows_initial : Shows (Timeline.initial isiPhone server).vm.pageSize server 0
    (Timeline.initial isiPhone server).vm where
  pageSize_eq := rfl
  records_perm := .refl _
  cursor_eq := rfl

/-! ### One call -/

theorem Stored.nodup (h : Stored server) : server.Nodup := .of_map _ h.tweetIDs_nodup

/-- An answered call appends the rows of its answer. -/
theorem exists_answer (h : Stored server)
    (step : Timeline.Step ⟨server, vm⟩ .fetchTweets ⟨server, vm'⟩) :
    ∃ answer, vm.fetchTweetsQuery.Answers server answer ∧
      vm.Appended (vm.olderRows answer) vm' := by
  cases step with
  | @fetchTweets answer loggedInUser profiles _ update answers answered =>
    obtain ⟨_, _, hok, happ⟩ := vm.fetchTweetsAnswered_spec loggedInUser profiles fun tweet ht =>
      h.stamp_ne tweet.record (FirebaseQuery.record_mem_of_answers answers ht)
    obtain ⟨rfl, -⟩ := Prod.mk.inj (Except.ok.inj (hok.symm.trans answered))
    exact ⟨answer, answers, happ⟩

/-- The answer in the order of the index. -/
def indexAnswer (server : List PostTweetModel) (vm : HomeViewModel) : List ViewTweetModel :=
  (vm.fetchTweetsQuery.select server).map fun tweet => { tweet with }

theorem map_record_indexAnswer :
    (indexAnswer server vm).map ViewTweetModel.record = vm.fetchTweetsQuery.select server := by
  rw [indexAnswer, List.map_map]
  exact List.map_id _

/-- A call with the answer in the order of the index does not trap. -/
theorem exists_next (h : Stored server) (vm : HomeViewModel) :
    ∃ vm', Timeline.Step ⟨server, vm⟩ .fetchTweets ⟨server, vm'⟩ ∧
      vm.Appended (vm.olderRows (indexAnswer server vm)) vm' := by
  have answers : vm.fetchTweetsQuery.Answers server (indexAnswer server vm) :=
    .of_eq map_record_indexAnswer
  obtain ⟨vm', update, hok, happ⟩ := vm.fetchTweetsAnswered_spec none (fun _ => none)
    fun tweet ht => h.stamp_ne tweet.record (FirebaseQuery.record_mem_of_answers answers ht)
  exact ⟨vm', .fetchTweets (s := ⟨server, vm⟩) answers hok, happ⟩

/-- **No call traps**: from the empty view model on there is always a next call. -/
theorem exists_repeats (isiPhone : Bool) (h : Stored server) :
    ∃ σ, Repeats isiPhone server σ ∧
      ∀ k, (σ k).Appended ((σ k).olderRows (indexAnswer server (σ k))) (σ (k + 1)) := by
  choose next hstep happ using exists_next h
  let σ := fun k => next^[k] (Timeline.initial isiPhone server).vm
  have hsucc (k : ℕ) : σ (k + 1) = next (σ k) := Function.iterate_succ_apply' ..
  refine ⟨σ, ⟨rfl, fun k => ?_⟩, fun k => ?_⟩
  · rw [hsucc]
    exact hstep _
  · rw [hsucc]
    exact happ _

/-- The children that the first call selects. -/
theorem select_first (hcursor : vm.lastCreatedDateTimeStamp = none) :
    vm.fetchTweetsQuery.select server = ((newestFirst server).take vm.pageSize).reverse := by
  have hsize : vm.fetchTweetsQuery.pageSize = some vm.pageSize := by
    rw [HomeViewModel.fetchTweetsQuery, if_pos hcursor]
  have hbounds : (newestFirst server).filter vm.fetchTweetsQuery.inBounds = newestFirst server := by
    refine List.filter_eq_self.mpr fun tweet _ => ?_
    rw [HomeViewModel.fetchTweetsQuery, hcursor]
    rfl
  rw [FirebaseQuery.select_limited hsize, hbounds]

/-- The children that a later call selects. -/
theorem select_next {value : ℚ} (hcursor : vm.lastCreatedDateTimeStamp = some value) :
    vm.fetchTweetsQuery.select server =
      (((newestFirst server).filter fun tweet => tweet.stamp ≤ (value : WithBot ℚ)).take
        (vm.pageSize + 1)).reverse := by
  have hsize : vm.fetchTweetsQuery.pageSize = some (vm.pageSize + 1) := by
    rw [HomeViewModel.fetchTweetsQuery, if_neg (by simp [hcursor])]
  have hbounds : (newestFirst server).filter vm.fetchTweetsQuery.inBounds =
      (newestFirst server).filter fun tweet => tweet.stamp ≤ (value : WithBot ℚ) := by
    refine List.filter_congr fun tweet _ => ?_
    rw [HomeViewModel.fetchTweetsQuery, hcursor]
    simp only [FirebaseQuery.inBounds, Option.all_none, Option.all_some, Bool.true_and]
  rw [FirebaseQuery.select_limited hsize, hbounds]

/-- A tweet that is alone splits the order: not above it are that tweet and then the older ones. -/
theorem EndsAlone.filter_le (halone : EndsAlone server m) (h : Stored server)
    {last : PostTweetModel} (hlast : last ∈ ((newestFirst server).take m).getLast?) :
    (newestFirst server).filter (fun tweet => tweet.stamp ≤ last.stamp) =
        last :: (newestFirst server).drop m ∧
      ∀ tweet ∈ (newestFirst server).drop m, tweet.stamp < last.stamp := by
  obtain ⟨xs, htake⟩ := List.getLast?_eq_some_iff.mp hlast
  have hsplit := List.take_append_drop m (newestFirst server)
  generalize (newestFirst server).drop m = older at hsplit ⊢
  rw [htake, List.append_assoc, List.singleton_append] at hsplit
  have hpairwise := pairwise_newestFirst server
  have hnodup := (newestFirst_perm server).nodup_iff.mpr h.nodup
  have hother {tweet : PostTweetModel} (ht : tweet ∈ newestFirst server) (hne : tweet ≠ last) :
      tweet.stamp ≠ last.stamp := fun heq =>
    hne (halone last hlast tweet ((newestFirst_perm server).mem_iff.mp ht) heq)
  rw [← hsplit] at hpairwise hnodup hother ⊢
  obtain ⟨-, hrest, hdisjoint⟩ := List.nodup_append.mp hnodup
  refine ⟨filter_le_of_alone hpairwise fun tweet ht => ?_, fun tweet ht => ?_⟩
  · exact hother (List.mem_append_left _ ht) (hdisjoint tweet ht last List.mem_cons_self)
  · have hle := (List.pairwise_cons.mp (List.pairwise_append.mp hpairwise).2.1).1 tweet ht
    have hne := ne_of_mem_of_not_mem ht (List.nodup_cons.mp hrest).1
    exact lt_of_le_of_ne hle
      (hother (List.mem_append_right _ (List.mem_cons_of_mem _ ht)) hne)

/-- Lists with the same time stamps have the same last one. -/
theorem getLast?_createdTimeStamp_eq {l l' : List PostTweetModel}
    (h : l.map (fun tweet => tweet.stamp) = l'.map fun tweet => tweet.stamp) :
    (l.getLast?.bind fun tweet => tweet.createdTimeStamp) =
      l'.getLast?.bind fun tweet => tweet.createdTimeStamp := by
  have hstamps : l.map (fun tweet => tweet.createdTimeStamp) =
      l'.map fun tweet => tweet.createdTimeStamp := h
  have hlast := congrArg (fun stamps => stamps.getLast?.bind id) hstamps
  simp only [List.getLast?_map, Option.bind_map] at hlast
  exact hlast

namespace Shows

variable (hs : Shows pageSize server m vm) (h : Stored server)

include hs h

/-- The cursor after some tweets have been loaded. -/
theorem exists_cursor {last : PostTweetModel}
    (hlast : last ∈ ((newestFirst server).take m).getLast?) :
    ∃ value : ℚ, vm.lastCreatedDateTimeStamp = some value ∧ last.stamp = (value : WithBot ℚ) := by
  have hmem : last ∈ server := (newestFirst_perm server).mem_iff.mp
    ((List.take_subset _ _) (List.mem_of_mem_getLast? hlast))
  obtain ⟨value, hvalue⟩ := Option.ne_none_iff_exists'.mp (h.stamp_ne last hmem)
  refine ⟨value, ?_, hvalue⟩
  rw [hs.cursor_eq, Option.mem_def.mp hlast]
  exact hvalue

omit h in
/-- The rows of the first answer. -/
theorem olderRows_first (hnil : (newestFirst server).take m = []) {answer : List ViewTweetModel}
    (answers : vm.fetchTweetsQuery.Answers server answer) :
    (vm.olderRows answer).Perm (((newestFirst server).drop m).take pageSize) ∧
      (vm.olderRows answer).map (fun tweet => tweet.stamp) =
        (((newestFirst server).drop m).take pageSize).map fun tweet => tweet.stamp := by
  have hcursor : vm.lastCreatedDateTimeStamp = none := by
    rw [hs.cursor_eq, hnil]
    rfl
  have hsplit := List.take_append_drop m (newestFirst server)
  rw [hnil, List.nil_append] at hsplit
  have hperm : (answer.map ViewTweetModel.record).Perm
      (((newestFirst server).drop m).take pageSize) := by
    refine answers.trans ?_
    rw [select_first hcursor, hs.pageSize_eq, hsplit]
    exact List.reverse_perm _
  have hsorted := (pairwise_newestFirst server).sublist
    ((List.take_sublist pageSize _).trans (List.drop_sublist m (newestFirst server)))
  rw [HomeViewModel.olderRows, if_pos hcursor]
  exact ⟨(sort_perm _ _).trans hperm, map_key_sort hsorted hperm⟩

/-- The rows of a later answer: the last loaded tweet is sorted to the front and dropped. -/
theorem olderRows_next (halone : EndsAlone server m) {last : PostTweetModel}
    (hlast : last ∈ ((newestFirst server).take m).getLast?) {answer : List ViewTweetModel}
    (answers : vm.fetchTweetsQuery.Answers server answer) :
    (vm.olderRows answer).Perm (((newestFirst server).drop m).take pageSize) ∧
      (vm.olderRows answer).map (fun tweet => tweet.stamp) =
        (((newestFirst server).drop m).take pageSize).map fun tweet => tweet.stamp := by
  obtain ⟨value, hcursor, hvalue⟩ := hs.exists_cursor h hlast
  obtain ⟨hpage, hbelow⟩ := halone.filter_le h hlast
  have hperm : (answer.map ViewTweetModel.record).Perm
      (last :: ((newestFirst server).drop m).take pageSize) := by
    refine answers.trans ?_
    rw [select_next hcursor, ← hvalue, hpage, hs.pageSize_eq, List.take_succ_cons]
    exact List.reverse_perm _
  obtain ⟨rest, hsort, hrest⟩ := exists_sort_eq_cons hperm fun tweet ht =>
    hbelow tweet (List.mem_of_mem_take ht)
  have hsorted : (last :: ((newestFirst server).drop m).take pageSize).Pairwise
      fun a b => b.stamp ≤ a.stamp := by
    refine (pairwise_newestFirst server).sublist
      (((List.take_sublist pageSize _).cons_cons last).trans ?_)
    rw [← hpage]
    exact List.filter_sublist
  have hkeys := map_key_sort hsorted hperm
  rw [HomeViewModel.olderRows, if_neg (by simp [hcursor]), hsort, List.tail_cons]
  exact ⟨hrest, (List.cons.inj (hsort ▸ hkeys)).2⟩

/-- The rows of an answer, if the last loaded tweet is alone: the next page, in which tweets of
equal time stamp may have changed places. -/
theorem olderRows (halone : EndsAlone server m) {answer : List ViewTweetModel}
    (answers : vm.fetchTweetsQuery.Answers server answer) :
    (vm.olderRows answer).Perm (((newestFirst server).drop m).take pageSize) ∧
      (vm.olderRows answer).map (fun tweet => tweet.stamp) =
        (((newestFirst server).drop m).take pageSize).map fun tweet => tweet.stamp := by
  rcases List.eq_nil_or_concat' ((newestFirst server).take m) with hnil | ⟨xs, last, hlast⟩
  · exact hs.olderRows_first hnil answers
  · have hmem : last ∈ ((newestFirst server).take m).getLast? := by
      rw [hlast, List.getLast?_concat]
      rfl
    exact hs.olderRows_next h halone hmem answers

/-- **A call after a tweet that is alone** shows the next page. -/
theorem next (halone : EndsAlone server m)
    (step : Timeline.Step ⟨server, vm⟩ .fetchTweets ⟨server, vm'⟩) :
    Shows pageSize server (m + pageSize) vm' := by
  obtain ⟨answer, answers, happ⟩ := exists_answer h step
  obtain ⟨hperm, hkeys⟩ := hs.olderRows h halone answers
  refine ⟨happ.pageSize_eq.trans hs.pageSize_eq, ?_, ?_⟩
  · rw [happ.records_eq, List.take_add]
    exact hs.records_perm.append hperm
  · rw [happ.cursor_eq, List.take_add, List.getLast?_append]
    split_ifs with hrows
    · rw [hrows, List.nil_perm] at hperm
      rw [hperm, List.getLast?_nil, Option.none_or, hs.cursor_eq]
    · rw [getLast?_createdTimeStamp_eq hkeys]
      cases hpage : (((newestFirst server).drop m).take pageSize).getLast? with
      | none => exact absurd (List.getLast?_eq_none_iff.mp hpage ▸ hperm).eq_nil hrows
      | some last => rw [Option.some_or]

/-- A call after a tweet that is not alone repeats a tweet of the list, if its answer arrives in the
order of the index. -/
theorem exists_repeated_row (hsize : 0 < pageSize) (halone : ¬ EndsAlone server m) :
    ∃ tweet ∈ vm.records, tweet ∈ vm.olderRows (indexAnswer server vm) := by
  simp only [EndsAlone, not_forall] at halone
  obtain ⟨last, hlast, tweet, htweet, hstamp, hne⟩ := halone
  obtain ⟨value, hcursor, hvalue⟩ := hs.exists_cursor h hlast
  have hpairwise := pairwise_newestFirst server
  have hmem := (newestFirst_perm server).mem_iff.mpr htweet
  rw [← List.take_append_drop m (newestFirst server)] at hpairwise hmem
  obtain ⟨first, hfirst, second, rest, hpage, hfirstStamp, hsecondStamp⟩ :=
    filter_le_of_not_alone hpairwise (List.mem_of_mem_getLast? hlast) hmem hne hstamp
  rw [List.take_append_drop] at hpage
  refine ⟨first, hs.records_perm.mem_iff.mpr hfirst, ?_⟩
  have hpair : [second, first].Sublist (vm.fetchTweetsQuery.select server) := by
    obtain ⟨size, rfl⟩ := Nat.exists_eq_add_one_of_ne_zero hsize.ne'
    rw [select_next hcursor, ← hvalue, hpage, hs.pageSize_eq, List.take_succ_cons,
      List.take_succ_cons]
    exact (((List.nil_sublist (rest.take size)).cons_cons second).cons_cons first).reverse
  rw [HomeViewModel.olderRows, if_neg (by simp [hcursor]), map_record_indexAnswer]
  exact mem_tail_sort (hfirstStamp.trans hsecondStamp.symm) hpair

end Shows

/-! ### Repeated calls -/

theorem Repeats.shows {σ : ℕ → HomeViewModel} (repeats : Repeats isiPhone server σ)
    (h : Stored server) {j : ℕ}
    (halone : ∀ i < j, EndsAlone server (i * (Timeline.initial isiPhone server).vm.pageSize)) :
    Shows (Timeline.initial isiPhone server).vm.pageSize server
      (j * (Timeline.initial isiPhone server).vm.pageSize) (σ j) := by
  induction j with
  | zero =>
    rw [repeats.initial, Nat.zero_mul]
    exact shows_initial
  | succ j ih =>
    rw [Nat.add_one_mul]
    exact (ih fun i hi => halone i (by omega)).next h (halone j (by omega)) (repeats.step j)

/-- Rows are never taken away. -/
theorem Repeats.records_isPrefix {σ : ℕ → HomeViewModel} (repeats : Repeats isiPhone server σ)
    (h : Stored server) {i j : ℕ} (hij : i ≤ j) : (σ i).records <+: (σ j).records := by
  induction j, hij using Nat.le_induction with
  | base => exact List.prefix_rfl
  | succ j _ ih =>
    obtain ⟨answer, -, happ⟩ := exists_answer h (repeats.step j)
    exact ih.trans (happ.records_eq ▸ List.prefix_append _ _)

/-- If each page ends alone, paging lists every tweet exactly once. -/
theorem listsEachOnce_of_pagesEndAlone (h : Stored server)
    (halone : PagesEndAlone (Timeline.initial isiPhone server).vm.pageSize server) :
    ListsEachOnce isiPhone server := by
  intro σ repeats
  let pageSize := (Timeline.initial isiPhone server).vm.pageSize
  -- as many calls as there are tweets are enough
  have hlength : (newestFirst server).length ≤ server.length * pageSize := by
    rw [(newestFirst_perm server).length_eq]
    exact Nat.le_mul_of_pos_right _ (HomeViewModel.pageSize_pos _)
  have hshows := repeats.shows h (j := server.length) fun i _ => halone i
  obtain ⟨answer, answers, happ⟩ := exists_answer h (repeats.step server.length)
  have hrows := (hshows.olderRows h (halone server.length) answers).1
  rw [List.drop_of_length_le hlength, List.take_nil] at hrows
  refine ⟨server.length, ?_, ?_⟩
  · rw [happ.records_eq, hrows.eq_nil, List.append_nil]
  · have hperm := hshows.records_perm
    rw [List.take_of_length_le hlength] at hperm
    exact hperm.trans (newestFirst_perm server)

/-- If paging lists every tweet exactly once, each page ends alone. -/
theorem pagesEndAlone_of_listsEachOnce (h : Stored server)
    (hlists : ListsEachOnce isiPhone server) :
    PagesEndAlone (Timeline.initial isiPhone server).vm.pageSize server := by
  by_contra hnot
  obtain ⟨σ, repeats, happ⟩ := exists_repeats isiPhone h
  obtain ⟨k, hnothing, hall⟩ := hlists σ repeats
  let pageSize := (Timeline.initial isiPhone server).vm.pageSize
  -- the first page that does not end alone
  obtain ⟨j, hj, hbefore⟩ : ∃ j, ¬ EndsAlone server (j * pageSize) ∧
      ∀ i < j, EndsAlone server (i * pageSize) := by
    classical
    have hexists : ∃ j, ¬ EndsAlone server (j * pageSize) := not_forall.mp hnot
    exact ⟨Nat.find hexists, Nat.find_spec hexists, fun i hi =>
      not_not.mp (Nat.find_min hexists hi)⟩
  have hshows := repeats.shows h hbefore
  obtain ⟨tweet, hlisted, hrepeated⟩ :=
    hshows.exists_repeated_row h (HomeViewModel.pageSize_pos _) hj
  rcases lt_trichotomy k j with hlt | rfl | hgt
  · -- all tweets were loaded before, and the last one was alone then
    have hperm := (repeats.shows h fun i hi => hbefore i (hi.trans hlt)).records_perm
    have hlength : (newestFirst server).length ≤ k * pageSize := by
      rw [(newestFirst_perm server).length_eq, ← hall.length_eq, hperm.length_eq]
      exact List.length_take_le _ _
    have hmul : k * pageSize ≤ j * pageSize := Nat.mul_le_mul_right _ hlt.le
    have halone := hbefore k hlt
    rw [EndsAlone, List.take_of_length_le hlength] at halone
    rw [EndsAlone, List.take_of_length_le (hlength.trans hmul)] at hj
    exact hj halone
  · rw [(happ k).records_eq, List.append_right_eq_self] at hnothing
    exact List.ne_nil_of_mem hrepeated hnothing
  · have hnodup := hall.nodup_iff.mpr h.nodup
    have hrow := repeats.records_isPrefix h (Nat.succ_le_of_lt hgt)
    have hrows := hnodup.sublist hrow.sublist
    rw [(happ j).records_eq] at hrows
    exact (List.nodup_append.mp hrows).2.2 tweet hlisted tweet hrepeated rfl

/-- Two tweets of equal time stamp, and a newer and an older one. -/
private def fourTweets : List PostTweetModel :=
  [Timeline.tweetAt "a" 1, Timeline.tweetAt "b" 2, Timeline.tweetAt "c" 2, Timeline.tweetAt "d" 3]

end Paging

end TwitterLite
