import TwitterLite.Home.Deletions
import TwitterLite.Home.Trigger

/-!
# Scrolling down

`HomeViewController` asks for the next page when the trigger row is displayed. The rows are
displayed one after another; a displayed row may be deleted, which moves the rows below up by one.
The trigger row is computed from the number of rows of the moment, so a deletion that takes the
number below a multiple of the page size moves it up by a page, past rows that have been displayed.

`Scrolling` is the timeline with the number of rows displayed, `Counts` what the trigger depends on:
the rows, the older tweets on the server and the rows displayed. Every step of the code is a step
on the counts (`Scrolling.step_counts`). Scrolling on reaches everything exactly if a condition on
the counts holds (`Scrolling.scrollsOn_iff`), and a run keeps it exactly if its deletions do
(`Scrolling.scrollsOn_iff_keepsTrigger`).

## Main definitions

* `TwitterLite.Scrolling`, `TwitterLite.Scrolling.Step`.
* `TwitterLite.Counts`, `TwitterLite.Counts.Ahead`.
* `TwitterLite.Scrolling.ReachedEnd`, `TwitterLite.Scrolling.ScrollsOn`,
  `TwitterLite.Scrolling.KeepsTrigger`.

## Main results

* `TwitterLite.Scrolling.step_counts`, `TwitterLite.Scrolling.scrollsOn_iff`.
* `TwitterLite.Scrolling.scrollsOn_iff_keepsTrigger`.

Source: `HomeViewModel.swift`, lines 61–82 and 126–141; `HomeViewController.swift`, lines 100–134,
161–184 and 223–229.
-/

namespace TwitterLite

open Descending TransitionSystem

/-- The timeline and how many rows, from the first on, have been displayed. -/
structure Scrolling where
  server : List PostTweetModel
  vm : HomeViewModel
  displayed : ℕ := 0

namespace Scrolling

/-- What the reader does. -/
inductive Event where
  | display
  | delete (index : ℕ)
  deriving DecidableEq

/-- `HomeViewController.tableView(_:willDisplay:forRowAt:)`: the trigger row fetches the next page,
which is answered before anything else happens. -/
inductive WillDisplay (s : Scrolling) (row : ℕ) : Scrolling → Prop
  | fetches {vm' : HomeViewModel} (trigger : s.vm.shouldFetchData row = true)
      (fetched : Timeline.Step ⟨s.server, s.vm⟩ .fetchTweets ⟨s.server, vm'⟩) :
      WillDisplay s row { s with vm := vm' }
  | rests (trigger : s.vm.shouldFetchData row = false) : WillDisplay s row s

/-- One step. After a deletion the row that is now the last displayed one is displayed. -/
inductive Step : Scrolling → Event → Scrolling → Prop
  | display {s s' : Scrolling} (below : s.displayed < s.vm.tweetList.length)
      (shown : WillDisplay { s with displayed := s.displayed + 1 } s.displayed s') :
      Step s .display s'
  /-- A row other than the last of the list is deleted on the server, then in the list. -/
  | delete {s s' : Scrolling} {index : ℕ} {tweetModel : ViewTweetModel} {vm' : HomeViewModel}
      {update : Option TableUpdate} (above : index < s.displayed)
      (row : s.vm.tweetList[index]? = some tweetModel)
      (notLast : index + 1 < s.vm.tweetList.length)
      (deleted : s.vm.deleteShown tweetModel none = (vm', update))
      (shown : WillDisplay
        { server := Deletions.removeValue tweetModel.tweetID s.server
          vm := vm'
          displayed := min s.displayed vm'.tweetList.length }
        (min s.displayed vm'.tweetList.length - 1) s') :
      Step s (.delete index) s'

/-! ### The property and its condition -/

/-- The timeline behind the rows. -/
def timeline (s : Scrolling) : Timeline := ⟨s.server, s.vm⟩

/-- If the last row has been displayed, the server has no tweet older than the list. -/
def ReachedEnd (s : Scrolling) : Prop :=
  s.displayed = s.vm.tweetList.length → s.timeline.older = []

/-- However far the reader scrolls on, the property holds. -/
def ScrollsOn (s : Scrolling) : Prop :=
  ∀ ts t, Run Step s ts t → (∀ τ ∈ ts, τ.event = .display) → t.ReachedEnd

end Scrolling

/-- What the trigger depends on: the rows, the older tweets on the server, and the rows
displayed. -/
structure Counts where
  count : ℕ
  remaining : ℕ
  displayed : ℕ
  deriving DecidableEq

namespace Counts

variable (pageSize : ℕ)

/-- A row is displayed: the trigger row takes in a page. -/
def willDisplay (row : ℕ) (c : Counts) : Counts :=
  if row = triggerRow pageSize c.count then
    { c with
      count := c.count + min pageSize c.remaining
      remaining := c.remaining - pageSize }
  else c

/-- One step of the reader. -/
def next (c : Counts) : Scrolling.Event → Counts
  | .display => willDisplay pageSize c.displayed { c with displayed := c.displayed + 1 }
  | .delete _ =>
    let displayed := min c.displayed (c.count - 1)
    willDisplay pageSize (displayed - 1) ⟨c.count - 1, c.remaining, displayed⟩

/-- Nothing is left, or the trigger row is still ahead, and if the list is shorter than a page the
page that it takes in leaves the next trigger row ahead or takes in all. -/
def Ahead (c : Counts) : Prop :=
  c.remaining = 0 ∨ c.displayed ≤ triggerRow pageSize c.count ∧
    (pageSize ≤ c.count ∨ c.count ≤ pageSize / 2 ∨ c.remaining ≤ pageSize)

instance (c : Counts) : Decidable (c.Ahead pageSize) :=
  inferInstanceAs (Decidable (_ ∨ _ ∧ (_ ∨ _ ∨ _)))

/-- The deletion of a row leaves the trigger row ahead: nothing is left, or the number of rows is no
multiple of the page size, or the trigger row of the shorter list has not been passed and, if that
is shorter than a page, no more than a page is left. -/
def KeepsTrigger (c : Counts) : Prop :=
  c.remaining = 0 ∨ ¬ pageSize ∣ c.count ∨
    c.displayed ≤ triggerRow pageSize (c.count - 1) + 1 ∧
      (c.count = pageSize → c.remaining ≤ pageSize)

variable {pageSize} {c : Counts}

theorem next_display_of_eq (h : c.displayed = triggerRow pageSize c.count) :
    c.next pageSize .display =
      ⟨c.count + min pageSize c.remaining, c.remaining - pageSize, c.displayed + 1⟩ :=
  if_pos h

theorem next_display_of_ne (h : c.displayed ≠ triggerRow pageSize c.count) :
    c.next pageSize .display = ⟨c.count, c.remaining, c.displayed + 1⟩ :=
  if_neg h

/-- The page that the trigger row takes in leaves the next trigger row ahead or takes in all. -/
theorem ahead_fetched_iff {row count remaining : ℕ} (hpos : 0 < pageSize) (hcount : 0 < count)
    (hrow : row = triggerRow pageSize count) :
    Ahead pageSize ⟨count + min pageSize remaining, remaining - pageSize, row + 1⟩ ↔
      pageSize ≤ count ∨ count ≤ pageSize / 2 ∨ remaining ≤ pageSize := by
  rcases le_or_gt remaining pageSize with hall | hmore
  · exact iff_of_true (.inl (Nat.sub_eq_zero_of_le hall)) (.inr (.inr hall))
  · have hnext := triggerRow_lt_add_iff hpos hcount
    rw [Ahead, min_eq_left hmore.le, hrow]
    dsimp only
    omega

/-- Scrolling keeps the trigger row ahead or behind. -/
theorem ahead_display_iff (hpos : 0 < pageSize) (hbelow : c.displayed < c.count) :
    (c.next pageSize .display).Ahead pageSize ↔ c.Ahead pageSize := by
  by_cases htrigger : c.displayed = triggerRow pageSize c.count
  · rw [next_display_of_eq htrigger, ahead_fetched_iff hpos (Nat.zero_lt_of_lt hbelow) htrigger,
      Ahead]
    omega
  · rw [next_display_of_ne htrigger, Ahead, Ahead]
    dsimp only
    omega

/-- Displaying a row moves tweets into the list. -/
theorem total_next_display : (c.next pageSize .display).count +
    (c.next pageSize .display).remaining = c.count + c.remaining := by
  by_cases h : c.displayed = triggerRow pageSize c.count
  · rw [next_display_of_eq h]
    dsimp only
    omega
  · rw [next_display_of_ne h]

theorem displayed_next_display : (c.next pageSize .display).displayed = c.displayed + 1 := by
  by_cases h : c.displayed = triggerRow pageSize c.count
  · rw [next_display_of_eq h]
  · rw [next_display_of_ne h]

theorem next_delete_of_eq {index : ℕ} (hlt : c.displayed < c.count)
    (h : c.displayed - 1 = triggerRow pageSize (c.count - 1)) :
    c.next pageSize (.delete index) =
      ⟨c.count - 1 + min pageSize c.remaining, c.remaining - pageSize, c.displayed⟩ := by
  have hmin : min c.displayed (c.count - 1) = c.displayed := by omega
  simp only [next, willDisplay, hmin, if_pos h]

theorem next_delete_of_ne {index : ℕ} (hlt : c.displayed < c.count)
    (h : c.displayed - 1 ≠ triggerRow pageSize (c.count - 1)) :
    c.next pageSize (.delete index) = ⟨c.count - 1, c.remaining, c.displayed⟩ := by
  have hmin : min c.displayed (c.count - 1) = c.displayed := by omega
  simp only [next, willDisplay, hmin, if_neg h]

theorem remaining_next_of_eq_zero (h : c.remaining = 0) (e : Scrolling.Event) :
    (c.next pageSize e).remaining = 0 := by
  cases e <;> simp only [next, willDisplay] <;> split_ifs <;> simp [h]

/-- **A deletion keeps the trigger row ahead exactly if the condition holds.** -/
theorem ahead_delete_iff (hsize : 2 < pageSize) (h : c.Ahead pageSize)
    {index : ℕ} (habove : index < c.displayed) (hlast : index + 1 < c.count) :
    (c.next pageSize (.delete index)).Ahead pageSize ↔ c.KeepsTrigger pageSize := by
  rcases h with hnone | ⟨hahead, hpage⟩
  · exact iff_of_true (.inl (remaining_next_of_eq_zero hnone _)) (.inl hnone)
  have hpos : 0 < pageSize := by omega
  have hlt : c.displayed < c.count := hahead.trans_lt (triggerRow_lt hpos (by omega))
  have hwhole : c.count = pageSize → pageSize ∣ c.count := fun heq => heq ▸ dvd_refl _
  by_cases htrigger : c.displayed - 1 = triggerRow pageSize (c.count - 1)
  · have hdisplayed : c.displayed = c.displayed - 1 + 1 := by omega
    rw [next_delete_of_eq hlt htrigger, hdisplayed, ahead_fetched_iff hpos (by omega) htrigger,
      KeepsTrigger]
    omega
  · rw [next_delete_of_ne hlt htrigger, Ahead, KeepsTrigger]
    dsimp only
    by_cases hdvd : pageSize ∣ c.count
    · have hle : pageSize ≤ c.count := Nat.le_of_dvd (by omega) hdvd
      omega
    · rcases lt_or_ge c.count pageSize with hshort | hlong
      · rw [triggerRow_of_lt hshort] at hahead
        rw [triggerRow_of_lt (Nat.sub_lt_of_lt hshort)] at htrigger ⊢
        omega
      · have hne : c.count ≠ pageSize := fun heq => hdvd (hwhole heq)
        rw [triggerRow_sub_one (lt_of_le_of_ne hlong hne.symm) hdvd] at htrigger ⊢
        omega

/-- When the last row has been displayed the trigger row is not ahead, so nothing is left. -/
theorem Ahead.remaining_eq (hpos : 0 < pageSize) (h : c.Ahead pageSize)
    (hlast : c.displayed = c.count) (hcount : 0 < c.count) : c.remaining = 0 := by
  rcases h with hnone | ⟨hahead, -⟩
  · exact hnone
  · have hlt := triggerRow_lt hpos hcount
    omega

end Counts

namespace Scrolling

variable {s s' : Scrolling} {pageSize : ℕ} {e : Event}

/-! ### The counts of the timeline -/

/-- The counts of the state. -/
def counts (s : Scrolling) : Counts :=
  ⟨s.vm.tweetList.length, s.timeline.older.length, s.displayed⟩

/-- The list is the newest part of the server's order, and is empty only if that is. -/
structure Sound (pageSize : ℕ) (s : Scrolling) : Prop where
  pageSize_eq : s.vm.pageSize = pageSize
  refines : ∃ feed, Timeline.Refines pageSize s.timeline feed ∧ feed.newer = [] ∧
    (feed.shown = [] → feed.older = [])
  displayed_le : s.displayed ≤ s.vm.tweetList.length

theorem length_tweetList {t : Timeline} {feed : Feed PostTweetModel}
    (h : t.Refines pageSize feed) : t.vm.tweetList.length = feed.shown.length := by
  rw [← h.records_eq, HomeViewModel.records, List.length_map]

section Erase

variable {t : Timeline} {feed : Feed PostTweetModel} {a : PostTweetModel}

/-- In a list without repeated values, taking out one value is taking out the first one. -/
theorem filter_ne_eq_eraseP {α β : Type*} [BEq β] [LawfulBEq β] [DecidableEq β] {f : α → β}
    {l : List α} (h : (l.map f).Nodup) (b : β) :
    (l.filter fun x => f x ≠ b) = l.eraseP fun x => f x == b := by
  induction l with
  | nil => rfl
  | cons x l ih =>
    rw [List.map_cons, List.nodup_cons] at h
    by_cases hx : f x = b
    · rw [List.filter_cons_of_neg (by simpa using hx), List.eraseP_cons_of_pos (by simpa using hx)]
      refine List.filter_eq_self.mpr fun y hy => ?_
      have hne : f y ≠ b := fun heq => h.1 (hx ▸ heq ▸ List.mem_map_of_mem hy)
      simpa using hne
    · rw [List.filter_cons_of_pos (by simpa using hx), List.eraseP_cons_of_neg (by simpa using hx),
        ih h.2]

theorem descending_removeValue (hserver : Published t.server) (tweetID : Option String) :
    descending (Deletions.removeValue tweetID t.server) =
      (descending t.server).eraseP fun tweet => tweet.tweetID == tweetID := by
  have hids := ((sort_perm (fun tweet : PostTweetModel => tweet.stamp) t.server).map
    fun tweet => tweet.tweetID).nodup_iff.mpr hserver.tweetIDs_nodup
  refine Eq.trans ?_ (filter_ne_eq_eraseP hids tweetID)
  exact sort_eq (hserver.isDescending.sublist List.filter_sublist)
    ((sort_perm _ t.server).symm.filter _)

/-- The deletion of a row other than the last one, on the server and in the list. -/
theorem refines_erased (h : t.Refines pageSize feed) (hnewer : feed.newer = [])
    (ha : a ∈ feed.shown.dropLast) {vm' : HomeViewModel}
    (hvm : vm' = { t.vm with
      tweetList := t.vm.tweetList.eraseP fun tweet => tweet.tweetID == a.tweetID }) :
    Timeline.Refines pageSize ⟨Deletions.removeValue a.tweetID t.server, vm'⟩
      { feed with shown := feed.shown.eraseP fun tweet => tweet.tweetID == a.tweetID } := by
  subst hvm
  have hne : feed.shown ≠ [] := fun hnil => by simp [hnil] at ha
  have hkeep : (feed.shown.eraseP fun tweet => tweet.tweetID == a.tweetID) =
      (feed.shown.dropLast.eraseP fun tweet => tweet.tweetID == a.tweetID) ++
        [feed.shown.getLast hne] := by
    rw [← List.eraseP_append_left (by simp) _ ha, List.dropLast_append_getLast]
  refine ⟨h.pageSize_eq, h.published.sublist List.filter_sublist, ?_, ?_, ?_, fun _ => hnewer⟩
  · rw [descending_removeValue h.published, h.content_eq, Feed.content, Feed.content, hnewer,
      List.nil_append, List.nil_append]
    exact List.eraseP_append_left (by simp) _ (List.dropLast_subset _ ha)
  · rw [← h.records_eq, HomeViewModel.records, HomeViewModel.records, List.eraseP_map]
    rfl
  · rw [h.cursor_eq, hkeep, List.getLast?_concat, List.getLast?_eq_some_getLast hne]

end Erase

namespace Sound

variable (h : Sound pageSize s)

include h

theorem two_lt_pageSize : 2 < pageSize := by
  rcases s.vm.pageSize_eq with hsize | hsize <;> rw [h.pageSize_eq] at hsize <;> omega

theorem pageSize_pos : 0 < pageSize := two_pos.trans h.two_lt_pageSize

/-- An empty list has nothing below it. -/
theorem count_pos (hr : s.counts.remaining ≠ 0) : 0 < s.counts.count := by
  obtain ⟨feed, hfeed, -, hempty⟩ := h.refines
  refine Nat.pos_of_ne_zero fun hzero => hr ?_
  have hnil : feed.shown = [] :=
    List.length_eq_zero_iff.mp ((length_tweetList hfeed).symm.trans hzero)
  rw [counts, hfeed.older_eq, hempty hnil]
  rfl

/-- The trigger is the row that the counts tell. -/
theorem shouldFetchData_iff {row : ℕ} (hne : 0 < s.vm.tweetList.length) :
    s.vm.shouldFetchData row = true ↔ row = triggerRow pageSize s.vm.tweetList.length := by
  rw [s.vm.shouldFetchData_iff, h.pageSize_eq, and_iff_right (List.length_pos_iff.mp hne)]

/-- Fetching appends the next page. -/
theorem fetched {vm' : HomeViewModel}
    (fetched : Timeline.Step s.timeline .fetchTweets ⟨s.server, vm'⟩) :
    Sound pageSize { s with vm := vm' } ∧ counts { s with vm := vm' } =
      ⟨s.counts.count + min pageSize s.counts.remaining, s.counts.remaining - pageSize,
        s.displayed⟩ := by
  obtain ⟨feed, hfeed, hnewer, hempty⟩ := h.refines
  have hfeed' := Timeline.step_refines hfeed fetched
  have hcount : vm'.tweetList.length = s.vm.tweetList.length + min pageSize feed.older.length := by
    have hshown := length_tweetList hfeed'
    rwa [Feed.next, Feed.loadOlder, List.length_append, List.length_take,
      ← length_tweetList hfeed] at hshown
  refine ⟨⟨hfeed'.pageSize_eq, ⟨_, hfeed', hnewer, fun hnil => ?_⟩, ?_⟩, ?_⟩
  · obtain ⟨hshown, htake⟩ := List.append_eq_nil_iff.mp hnil
    simp only [Feed.next, Feed.loadOlder, hempty hshown, List.drop_nil]
  · have hle := h.displayed_le
    dsimp only
    omega
  · simp only [counts, timeline, hcount]
    rw [hfeed'.older_eq, show Timeline.older ⟨s.server, s.vm⟩ = feed.older from hfeed.older_eq,
      Feed.next, Feed.loadOlder, List.length_drop]

/-- Displaying a row does what the counts tell. -/
theorem willDisplay {row : ℕ} (hne : 0 < s.vm.tweetList.length) (shown : WillDisplay s row s') :
    Sound pageSize s' ∧ s'.counts = s.counts.willDisplay pageSize row := by
  cases shown with
  | fetches trigger fetched =>
    have hrow := (h.shouldFetchData_iff hne).mp trigger
    obtain ⟨hsound, hcounts⟩ := h.fetched fetched
    exact ⟨hsound, hcounts.trans (if_pos hrow).symm⟩
  | rests trigger =>
    have hrow := (h.shouldFetchData_iff hne).not.mp (Bool.not_eq_true _ ▸ trigger)
    exact ⟨h, (if_neg hrow).symm⟩

/-- The deletion of a row other than the last one leaves the newest part of the order. -/
theorem deleted {index : ℕ} {tweetModel : ViewTweetModel} {vm' : HomeViewModel}
    {update : Option TableUpdate} (row : s.vm.tweetList[index]? = some tweetModel)
    (notLast : index + 1 < s.vm.tweetList.length)
    (deleted : s.vm.deleteShown tweetModel none = (vm', update)) :
    Sound pageSize
        ⟨Deletions.removeValue tweetModel.tweetID s.server, vm',
          min s.displayed vm'.tweetList.length⟩ ∧
      vm'.tweetList.length = s.vm.tweetList.length - 1 ∧
      Timeline.older ⟨Deletions.removeValue tweetModel.tweetID s.server, vm'⟩ =
        s.timeline.older := by
  obtain ⟨feed, hfeed, hnewer, hempty⟩ := h.refines
  have hvm : vm' = { s.vm with
      tweetList := s.vm.tweetList.eraseP fun tweet => tweet.tweetID == tweetModel.tweetID } := by
    rw [← HomeViewModel.deleteShown_eq, deleted]
  have hrow : tweetModel.record ∈ feed.shown.dropLast := by
    have hrecord : feed.shown[index]? = some tweetModel.record := by
      rw [← hfeed.records_eq]
      change (s.vm.tweetList.map ViewTweetModel.record)[index]? = _
      rw [List.getElem?_map, row, Option.map_some]
    have hlength := length_tweetList hfeed
    change s.vm.tweetList.length = _ at hlength
    refine List.mem_of_getElem? (i := index) ?_
    rw [List.getElem?_dropLast, if_pos (by omega), hrecord]
  have hlength : vm'.tweetList.length = s.vm.tweetList.length - 1 := by
    rw [hvm]
    exact List.length_eraseP_of_mem (List.mem_of_getElem? row) (by simp)
  have hfeed' := refines_erased hfeed hnewer hrow hvm
  refine ⟨⟨hfeed'.pageSize_eq, ⟨_, hfeed', hnewer, fun hnil => ?_⟩, Nat.min_le_right _ _⟩, hlength,
    hfeed'.older_eq.trans hfeed.older_eq.symm⟩
  have hzero := (length_tweetList hfeed').trans (congrArg List.length hnil)
  change vm'.tweetList.length = 0 at hzero
  omega

end Sound

/-- **Every step of the code is a step on the counts.** -/
theorem step_counts (h : Sound pageSize s) (step : Step s e s') :
    Sound pageSize s' ∧ s'.counts = s.counts.next pageSize e := by
  cases step with
  | display below shown =>
    have h' : Sound pageSize { s with displayed := s.displayed + 1 } :=
      ⟨h.pageSize_eq, h.refines, below⟩
    exact h'.willDisplay (Nat.zero_lt_of_lt below) shown
  | @delete _ index tweetModel vm' update above row notLast deleted shown =>
    obtain ⟨hsound, hlength, holder⟩ := h.deleted row notLast deleted
    obtain ⟨hsound', hcounts⟩ := hsound.willDisplay (by dsimp only; omega) shown
    refine ⟨hsound', hcounts.trans ?_⟩
    simp only [counts, timeline, holder, hlength, Counts.next]

/-! ### Scrolling on -/

/-- The records that a query selects are an answer to it. -/
theorem exists_answers (query : FirebaseQuery) (server : List PostTweetModel) :
    ∃ answer : List ViewTweetModel, query.Answers server answer := by
  refine ⟨(query.select server).map fun record => { record with }, ?_⟩
  rw [FirebaseQuery.Answers, List.map_map]
  exact (List.map_id _) ▸ .refl _

/-- A page can always be fetched. -/
theorem exists_fetchTweets {t : Timeline} {feed : Feed PostTweetModel}
    (h : t.Refines pageSize feed) :
    ∃ vm', Timeline.Step t .fetchTweets { t with vm := vm' } := by
  obtain ⟨answer, answers⟩ := exists_answers t.vm.fetchTweetsQuery t.server
  obtain ⟨⟨vm', update⟩, answered⟩ := h.delivers.fetchTweets answer none (fun _ => none) answers
  exact ⟨vm', .fetchTweets answers answered⟩

/-- A row can always be displayed. -/
theorem exists_willDisplay (h : Sound pageSize s) (row : ℕ) : ∃ s', WillDisplay s row s' := by
  obtain ⟨feed, hfeed, -, -⟩ := h.refines
  cases htrigger : s.vm.shouldFetchData row with
  | false => exact ⟨_, .rests htrigger⟩
  | true =>
    obtain ⟨vm', fetched⟩ := exists_fetchTweets hfeed
    exact ⟨_, .fetches htrigger fetched⟩

/-- The reader can scroll on to the last row. -/
theorem exists_display (h : Sound pageSize s) (hbelow : s.displayed < s.vm.tweetList.length) :
    ∃ s', Step s .display s' := by
  have h' : Sound pageSize { s with displayed := s.displayed + 1 } :=
    ⟨h.pageSize_eq, h.refines, hbelow⟩
  obtain ⟨s', shown⟩ := exists_willDisplay h' s.displayed
  exact ⟨s', .display hbelow shown⟩

/-- The end has been reached if nothing is left. -/
theorem reachedEnd_iff : s.ReachedEnd ↔ (s.displayed = s.counts.count → s.counts.remaining = 0) :=
  imp_congr_right fun _ => List.length_eq_zero_iff.symm

/-- If the trigger row is not ahead, the reader comes to the last row with tweets left. -/
theorem exists_stranded (h : Sound pageSize s) (hbehind : ¬ s.counts.Ahead pageSize) :
    ∃ ts t, Run Step s ts t ∧ (∀ τ ∈ ts, τ.event = .display) ∧ ¬ t.ReachedEnd := by
  induction hn : s.counts.count + s.counts.remaining - s.displayed using Nat.strong_induction_on
    generalizing s with
  | h n ih =>
    have hremaining : s.counts.remaining ≠ 0 := fun hzero => hbehind (.inl hzero)
    rcases h.displayed_le.eq_or_lt with hlast | hbelow
    · exact ⟨[], s, .nil s, List.forall_mem_nil _,
        reachedEnd_iff.not.mpr fun hend => hremaining (hend hlast)⟩
    · obtain ⟨s', step⟩ := exists_display h hbelow
      obtain ⟨h', hcounts⟩ := step_counts h step
      have hbehind' : ¬ s'.counts.Ahead pageSize := by
        rw [hcounts, Counts.ahead_display_iff h.pageSize_pos hbelow]
        exact hbehind
      have hless : s'.counts.count + s'.counts.remaining - s'.displayed < n := by
        have hdisplayed : s'.displayed = s'.counts.displayed := rfl
        have hcount : s.counts.count = s.vm.tweetList.length := rfl
        rw [hdisplayed, hcounts, Counts.total_next_display]
        change _ - (s.counts.next pageSize .display).displayed < n
        rw [Counts.displayed_next_display]
        change _ - (s.displayed + 1) < n
        omega
      obtain ⟨ts, t, run, hdisplay, hstranded⟩ := ih _ hless h' hbehind' rfl
      exact ⟨_, t, ((Run.nil s).snoc step).trans run, List.forall_mem_cons.mpr ⟨rfl, hdisplay⟩,
        hstranded⟩

/-- When the last row has been displayed the trigger row is not ahead, so nothing is left. -/
theorem Sound.reachedEnd (h : Sound pageSize s) (hahead : s.counts.Ahead pageSize) :
    s.ReachedEnd := by
  refine reachedEnd_iff.mpr fun hlast => ?_
  by_contra hremaining
  exact hremaining (hahead.remaining_eq h.pageSize_pos hlast (h.count_pos hremaining))

theorem ahead_of_display (h : Sound pageSize s) (hahead : s.counts.Ahead pageSize)
    (step : Step s .display s') : Sound pageSize s' ∧ s'.counts.Ahead pageSize := by
  obtain ⟨hsound, hcounts⟩ := step_counts h step
  cases step with
  | display below _ =>
    rw [hcounts, Counts.ahead_display_iff h.pageSize_pos below]
    exact ⟨hsound, hahead⟩

/-- **Scrolling on reaches the end exactly if the trigger row is ahead.** -/
theorem scrollsOn_iff (h : Sound pageSize s) : s.ScrollsOn ↔ s.counts.Ahead pageSize := by
  constructor
  · intro hscrolls
    by_contra hbehind
    obtain ⟨ts, t, run, hdisplay, hstranded⟩ := exists_stranded h hbehind
    exact hstranded (hscrolls ts t run hdisplay)
  · intro hahead ts t run hdisplay
    have hstep : ∀ t e u, (Sound pageSize t ∧ t.counts.Ahead pageSize) → Step t e u →
        e = .display → Sound pageSize u ∧ u.counts.Ahead pageSize := by
      rintro t e u ⟨hsound, hahead⟩ step rfl
      exact ahead_of_display hsound hahead step
    have hinv := run.invariant_of_guard hstep ⟨h, hahead⟩ hdisplay
    exact hinv.1.reachedEnd hinv.2

/-- The condition: a deletion keeps the trigger row ahead. -/
def KeepsTrigger (pageSize : ℕ) (τ : Transition Scrolling Event) : Prop :=
  ∀ index, τ.event = .delete index → τ.source.counts.KeepsTrigger pageSize

/-- A step keeps the trigger row ahead exactly if it satisfies the condition. -/
theorem step_ahead_iff (h : Sound pageSize s) (hahead : s.counts.Ahead pageSize)
    (step : Step s e s') : s'.counts.Ahead pageSize ↔ KeepsTrigger pageSize ⟨s, e, s'⟩ := by
  rw [(step_counts h step).2]
  cases step with
  | display below _ =>
    exact iff_of_true ((Counts.ahead_display_iff h.pageSize_pos below).mpr hahead) nofun
  | @delete _ index _ _ _ above _ notLast _ _ =>
    rw [Counts.ahead_delete_iff h.two_lt_pageSize hahead above notLast]
    exact ⟨fun hkeeps _ _ => hkeeps, fun hkeeps => hkeeps index rfl⟩

/-! ### Whole runs -/

section FirstPage

variable {isiPhone : Bool} {server : List PostTweetModel} {vm : HomeViewModel}

/-- The counts of the first page. -/
theorem sound_firstPage (hserver : Published server)
    (firstPage : Timeline.Step (Timeline.initial isiPhone server) .fetchTweets ⟨server, vm⟩) :
    let pageSize := (Timeline.initial isiPhone server).vm.pageSize
    Sound pageSize ⟨server, vm, 0⟩ ∧
      counts ⟨server, vm, 0⟩ = ⟨min pageSize server.length, server.length - pageSize, 0⟩ := by
  intro pageSize
  have hrefines := Timeline.step_refines (Timeline.refines_initial isiPhone hserver) firstPage
  have hpos : pageSize ≠ 0 := (Timeline.initial isiPhone server).vm.pageSize_pos.ne'
  have hcount := length_tweetList hrefines
  have holder := hrefines.older_eq
  simp only [Feed.next, Feed.loadOlder, List.nil_append, List.length_take, length_sort]
    at hcount holder
  refine ⟨⟨hrefines.pageSize_eq, ⟨_, hrefines, rfl, fun hnil => ?_⟩, Nat.zero_le _⟩, ?_⟩
  · have htake : (descending server).take pageSize = [] := hnil
    have hempty := (List.take_eq_nil_iff.mp htake).resolve_left hpos
    rw [Feed.next, Feed.loadOlder, hempty, List.drop_nil]
  · rw [counts, timeline, holder, List.length_drop, length_sort, hcount]

/-- The first page leaves the trigger row ahead. -/
theorem ahead_firstPage (hserver : Published server)
    (firstPage : Timeline.Step (Timeline.initial isiPhone server) .fetchTweets ⟨server, vm⟩) :
    Counts.Ahead (Timeline.initial isiPhone server).vm.pageSize (counts ⟨server, vm, 0⟩) := by
  rw [(sound_firstPage hserver firstPage).2, Counts.Ahead]
  dsimp only
  omega

end FirstPage

/-- **Scrolling never strands the reader** in a run whose deletions keep the trigger row ahead; and
these are exactly the runs after every step of which the reader can scroll on to the end. -/
theorem scrollsOn_iff_keepsTrigger (isiPhone : Bool) {server : List PostTweetModel}
    (hserver : Published server) {vm : HomeViewModel}
    (firstPage : Timeline.Step (Timeline.initial isiPhone server) .fetchTweets ⟨server, vm⟩)
    {ts : List (Transition Scrolling Event)} (run : Run Step ⟨server, vm, 0⟩ ts s) :
    ((∀ τ ∈ ts, KeepsTrigger (Timeline.initial isiPhone server).vm.pageSize τ) →
        s.ReachedEnd) ∧
      ((∀ τ ∈ ts, τ.target.ScrollsOn) ↔
        ∀ τ ∈ ts, KeepsTrigger (Timeline.initial isiPhone server).vm.pageSize τ) := by
  have hinit := And.intro (sound_firstPage hserver firstPage).1 (ahead_firstPage hserver firstPage)
  have hstep : ∀ t e u, (Sound (Timeline.initial isiPhone server).vm.pageSize t ∧
      t.counts.Ahead (Timeline.initial isiPhone server).vm.pageSize) → Step t e u →
      KeepsTrigger (Timeline.initial isiPhone server).vm.pageSize ⟨t, e, u⟩ →
        Sound (Timeline.initial isiPhone server).vm.pageSize u ∧
          u.counts.Ahead (Timeline.initial isiPhone server).vm.pageSize :=
    fun t e u ht step hkeeps =>
      ⟨(step_counts ht.1 step).1, (step_ahead_iff ht.1 ht.2 step).mpr hkeeps⟩
  constructor
  · intro hkeeps
    have hinv := run.invariant_of_guard hstep hinit hkeeps
    exact hinv.1.reachedEnd hinv.2
  · refine run.forall_good_iff _ hstep (fun t e u ht step => ?_) hinit
    exact (scrollsOn_iff (step_counts ht.1 step).1).trans (step_ahead_iff ht.1 ht.2 step)

/-- A row other than the last one can always be deleted. -/
theorem exists_delete (h : Sound pageSize s) {index : ℕ} (habove : index < s.displayed)
    (hlast : index + 1 < s.vm.tweetList.length) : ∃ s', Step s (.delete index) s' := by
  have row := List.getElem?_eq_getElem (Nat.lt_of_succ_lt hlast)
  obtain ⟨hsound, -, -⟩ := h.deleted row hlast rfl
  obtain ⟨s', shown⟩ := exists_willDisplay hsound _
  exact ⟨s', .delete habove row hlast rfl shown⟩

/-- So many tweets with the time stamps 0, 1 and so on. -/
private def numbered (n : ℕ) : List PostTweetModel :=
  (List.range n).map fun i : ℕ => Timeline.tweetAt (toString i) i

private theorem published_numbered (n : ℕ) : Published (numbered n) := by
  have hmem : ∀ tweet ∈ numbered n, ∃ i : ℕ, Timeline.tweetAt (toString i) i = tweet :=
    fun tweet htweet => (List.mem_map.mp htweet).imp fun _ h => h.2
  refine ⟨fun tweet htweet => ?_, ?_, fun tweet htweet => ?_, ?_⟩
  · obtain ⟨i, rfl⟩ := hmem tweet htweet
    exact Option.some_ne_none _
  · rw [numbered, List.map_map]
    exact List.nodup_range.map fun i j h => toString_injective (Option.some.inj h)
  · obtain ⟨i, rfl⟩ := hmem tweet htweet
    exact Option.some_ne_none _
  · rw [numbered, List.map_map]
    exact List.nodup_range.map fun i j h => Nat.cast_injective (WithBot.coe_injective h)

/-- The first page of such tweets. -/
private theorem exists_firstPage (n : ℕ) : ∃ vm,
    Timeline.Step (Timeline.initial true (numbered n)) .fetchTweets ⟨numbered n, vm⟩ :=
  exists_fetchTweets (Timeline.refines_initial true (published_numbered n))

/-- The reader can scroll on to the end of 21 tweets. -/
theorem scrollsOn_iff_keepsTrigger_display : ∃ vm ts s,
    Timeline.Step (Timeline.initial true (numbered 21)) .fetchTweets ⟨numbered 21, vm⟩ ∧
      Run Step ⟨numbered 21, vm, 0⟩ ts s ∧ ts.length = 1 ∧ ∀ τ ∈ ts, τ.target.ScrollsOn := by
  obtain ⟨vm, firstPage⟩ := exists_firstPage 21
  obtain ⟨hsound, hcounts⟩ := sound_firstPage (published_numbered 21) firstPage
  have hlength : vm.tweetList.length = 10 := congrArg Counts.count hcounts
  obtain ⟨s, step⟩ := exists_display hsound (by dsimp only; omega)
  have run := (Run.nil _).snoc step
  exact ⟨vm, _, s, firstPage, run, rfl,
    (scrollsOn_iff_keepsTrigger true (published_numbered 21) firstPage run).2.mpr
      (List.forall_mem_singleton.mpr nofun)⟩

/-- Of 21 tweets the first row is displayed and deleted. The last of nine rows takes in a page, and
the trigger row of the nineteen is above it: after the last one a tweet is left. -/
theorem not_reachedEnd_of_run :
    ¬ ∀ (isiPhone : Bool) (server : List PostTweetModel) (vm : HomeViewModel)
      (ts : List (Transition Scrolling Event)) (s : Scrolling), Published server →
      Timeline.Step (Timeline.initial isiPhone server) .fetchTweets ⟨server, vm⟩ →
        Run Step ⟨server, vm, 0⟩ ts s → s.ReachedEnd := by
  intro h
  obtain ⟨vm, firstPage⟩ := exists_firstPage 21
  obtain ⟨hsound, hcounts⟩ := sound_firstPage (published_numbered 21) firstPage
  have hlength : vm.tweetList.length = 10 := congrArg Counts.count hcounts
  obtain ⟨s₁, display⟩ := exists_display hsound (by dsimp only; omega)
  obtain ⟨hsound₁, hcounts₁⟩ := step_counts hsound display
  rw [hcounts] at hcounts₁
  have hcounts₁ : s₁.counts = ⟨10, 11, 1⟩ := hcounts₁.trans (by decide)
  have habove : 0 < s₁.counts.displayed := by
    rw [hcounts₁]
    decide
  have hlast : 0 + 1 < s₁.counts.count := by
    rw [hcounts₁]
    decide
  obtain ⟨s₂, delete⟩ := exists_delete hsound₁ habove hlast
  obtain ⟨hsound₂, hcounts₂⟩ := step_counts hsound₁ delete
  rw [hcounts₁] at hcounts₂
  have hbehind : ¬ s₂.counts.Ahead (Timeline.initial true (numbered 21)).vm.pageSize := by
    rw [hcounts₂]
    decide
  obtain ⟨ts, t, run, -, hstranded⟩ := exists_stranded hsound₂ hbehind
  exact hstranded (h true _ vm _ t (published_numbered 21) firstPage
    ((((Run.nil _).snoc display).snoc delete).trans run))

end Scrolling

end TwitterLite
