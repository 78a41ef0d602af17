import TwitterLite.Home.MalformedRecords

/-!
# The order of the two requests of a launch

With a user who is still signed in, `HomeViewController.viewDidLoad` asks for the first page of
tweets and for the record of that user. The answer to the second is cached as the profile that the
author join of the first reads when it begins, and that the rows read when they are rendered; and
nothing renders them again.

A user's own rows have a delete button exactly if the record has arrived by the time they are
rendered. So what the screen shows depends on the order exactly if a page that can be shown has a
tweet of the user's (`TwitterLite.Launch.orderIndependent_iff`).

## Main definitions

* `TwitterLite.Launch`, `TwitterLite.Launch.Step`.
* `TwitterLite.Cell.shown`, `TwitterLite.Launch.OrderIndependent`.

## Main results

* `TwitterLite.Launch.reached_of_step`, `TwitterLite.Launch.orderIndependent_iff`.

Source: `HomeViewController.swift`, lines 18–36 and 100–147; `HomeViewModel.swift`, lines 20–36,
61–82 and 143–174; `TweetsTableViewCell.swift`, lines 25–51.
-/

namespace TwitterLite

open TransitionSystem HomeViewModel

/-- What a row shows: the record, the photo, the name and the user name of the author, and whether
it hides its delete button. -/
def Cell.shown (cell : Cell) : PostTweetModel × Option String × String × String × Bool :=
  (cell.tweetModel.record, cell.tweetModel.user.bind UserModel.photoURL,
    (cell.tweetModel.user.bind UserModel.displayName).getD "",
    (cell.tweetModel.user.bind UserModel.userName).getD "", cell.deleteButtonHidden)

/-- The home screen after its launch: whether the page has not been answered, the join of its
authors, if that is under way, and the rows, once they have been rendered. -/
structure Launch where
  session : Session
  vm : HomeViewModel
  page : Bool := true
  join : Option AuthorJoin := none
  cells : Option (List Cell) := none

namespace Launch

/-! ### Steps -/

variable (isiPhone : Bool) (user : User) (users : String → Option UserModel)

/-- `HomeViewController.viewDidLoad` with a user who is signed in: both requests are sent. -/
def viewDidLoad : Except Trap Launch :=
  (Session.initial (some user) users).launched.map fun session =>
    { session := session, vm := ⟨isiPhone, [], none⟩ }

/-- The join of the authors has got to a state. If it has called back, the tweets are sorted and
appended, and every row is rendered. -/
def joined (s : Launch) (join : AuthorJoin) : Except Trap Launch :=
  match join.callBacks with
  | [] => .ok { s with join := some join }
  | callBack :: _ => do
    let delivered ← s.vm.fetchTweetsDelivered callBack
    let cells ← delivered.1.tweetList.mapM (render s.session.loggedInUser 0)
    return { s with vm := delivered.1, join := none, cells := some cells }

/-- What can happen after a launch. -/
inductive Event where
  | detailFetched
  | pageFetched
  | author (event : AuthorJoin.Event)

variable (outcome : ℕ × String → Option UserModel)
  (result : Except AppError (List ViewTweetModel))

/-- One step; `result` answers the query of the page, and `outcome` those of its authors. -/
inductive Step : Launch → Event → Launch → Prop
  | detailFetched {s : Launch} {path : String} {record : UserModel} {session : Session}
      (step : Session.Step s.session (.detailFetched path record .home) session) :
      Step s .detailFetched { s with session := session }
  | pageFetched {s s' : Launch} {join : AuthorJoin} (page : s.page = true)
      (begun : AuthorJoin.begin s.session.loggedInUser result = .ok join)
      (joined : { s with page := false }.joined join = .ok s') : Step s .pageFetched s'
  | author {s s' : Launch} {join join' : AuthorJoin} {event : AuthorJoin.Event}
      (joining : s.join = some join) (step : AuthorJoin.Step outcome join event join')
      (joined : s.joined join' = .ok s') : Step s (.author event) s'

/-- Both requests are complete, and the rows have been rendered. -/
structure Shows (s : Launch) (cells : List Cell) : Prop where
  inFlight_eq : s.session.inFlight = []
  cells_eq : s.cells = some cells

/-- What the screen shows does not depend on the order of the answers: a row has a delete button
exactly if the tweet is the user's, and the rows are the same in every run. -/
def OrderIndependent : Prop :=
  ∀ s, viewDidLoad isiPhone user users = .ok s →
    ∀ ts t cells, Run (Step outcome result) s ts t → t.Shows cells →
      (∀ cell ∈ cells, cell.deleteButtonHidden = false ↔ cell.tweetModel.uid = user.uid) ∧
      ∀ ts' t' cells', Run (Step outcome result) s ts' t' → t'.Shows cells' →
        cells.map Cell.shown = cells'.map Cell.shown

/-- A page can be shown if its authors can be asked for and its tweets have time stamps. -/
structure Showable (tweets : List ViewTweetModel) : Prop where
  authorsValid : Fetching.AuthorsValid none tweets
  stamped : ∀ tweet ∈ tweets, tweet.createdTimeStamp ≠ none

/-! ### What is delivered -/

/-- The view controller appends the rows that the view model hands over. -/
theorem fetchTweetsDelivered_eq (vm : HomeViewModel) (callBack : TweetsCallBack) :
    vm.fetchTweetsDelivered callBack =
      (vm.rows callBack .fetchTweets).map fun rows => vm.fetchTweetsShown (some rows, none) := by
  unfold fetchTweetsDelivered rows
  cases vm.fetchTweetsSorted callBack with
  | error trap => rfl
  | ok shown =>
    obtain ⟨_ | _ | _, _⟩ := shown <;> rfl

theorem tweetList_fetchTweetsShown (vm : HomeViewModel) (rows : List ViewTweetModel) :
    (vm.fetchTweetsShown (some rows, none)).1.tweetList = vm.tweetList ++ rows := by
  cases rows with
  | nil => exact (List.append_nil _).symm
  | cons tweet tweets => rfl

/-- The delivery of the page renders the rows that are handed over. -/
theorem joined_eq_ok_iff {s s' : Launch} {join : AuthorJoin} {callBack : TweetsCallBack}
    (hvm : s.vm.tweetList = []) (hcallBacks : join.callBacks = [callBack]) :
    s.joined join = .ok s' ↔ ∃ rows cells, s.vm.rows callBack .fetchTweets = .ok rows ∧
      rows.mapM (render s.session.loggedInUser 0) = .ok cells ∧
      s' = { s with
        vm := (s.vm.fetchTweetsShown (some rows, none)).1, join := none, cells := some cells } := by
  rw [joined, hcallBacks]
  dsimp only
  rw [fetchTweetsDelivered_eq, bind_eq_ok_iff]
  cases s.vm.rows callBack .fetchTweets with
  | error trap => exact iff_of_false (by simp [Except.map]) (by simp)
  | ok rows =>
    have hlist : (s.vm.fetchTweetsShown (some rows, none)).1.tweetList = rows := by
      rw [tweetList_fetchTweetsShown, hvm, List.nil_append]
    simp only [Except.map, Except.ok.injEq, exists_eq_left', exists_and_left, hlist,
      bind_eq_ok_iff]
    exact exists_congr fun cells => and_congr_right fun _ =>
      ⟨fun h => (Except.ok.inj h).symm, fun h => congrArg Except.ok h.symm⟩

/-- What is delivered when the join has been completed is what `HomeViewModel.deliver` renders. -/
theorem deliver_eq {vm : HomeViewModel} {cache viewer : Option UserModel}
    {outcome : ℕ × String → Option UserModel}
    {result : Except AppError (List ViewTweetModel)} {join : AuthorJoin}
    (hbegun : AuthorJoin.begin cache result = .ok join) :
    vm.deliver cache viewer 0 outcome .fetchTweets result =
      vm.rows (AuthorJoin.joined cache outcome result) .fetchTweets >>= fun rows =>
        rows.mapM (render viewer 0) := by
  rw [deliver, hbegun]
  rfl

/-! ### What a run has done -/

variable {isiPhone user users outcome result} {record : UserModel}

variable (isiPhone user users) in
/-- The screen when both requests have been sent. -/
def start : Launch where
  session := { Session.initial (some user) users with
    inFlight := [.getLoggedInUserDetail user.path .home] }
  vm := ⟨isiPhone, [], none⟩

variable (user record) in
/-- The profile that is cached when the record of the user has arrived. -/
def own : UserModel := { record with userID := some user.uid }

theorem isValidPathString_path (user : User) : isValidPathString user.path = true := by
  have hvalid := user.uid_valid
  rw [isValidPathString, Bool.and_eq_true] at hvalid
  exact (isValidPathString_interpolation user.uid rfl (by decide)).trans hvalid.2

theorem viewDidLoad_eq : viewDidLoad isiPhone user users = .ok (start isiPhone user users) := by
  have hpath : isValidPathString (UserEndPoint.getLoggedInUserDetail.path (some user.uid)) = true :=
    isValidPathString_path user
  rw [viewDidLoad, Session.launched]
  simp only [Session.initial, Session.getLoggedInUserDetail, Option.map_some, child, hpath, if_true]
  rfl

variable (user record) in
/-- Nothing or the profile of the user has been cached. -/
def Cached (cache : Option UserModel) : Prop := cache = none ∨ cache = some (own user record)

variable (isiPhone user users record) in
/-- The record of the user is under way, or has been cached. -/
def DetailReached (session : Session) : Prop :=
  session = (start isiPhone user users).session ∨
    session = { Session.initial (some user) users with
      loggedInUser := some (own user record), inFlight := [] }

variable (isiPhone user record outcome result) in
/-- The page is under way, or its authors are being joined for the profile that was cached when it
arrived, or its rows have been rendered for the profile that was cached then. -/
inductive PageReached (s : Launch) : Prop
  | waiting (hvm : s.vm = ⟨isiPhone, [], none⟩) (hpage : s.page = true) (hjoin : s.join = none)
      (hcells : s.cells = none)
  | joining {tweets : List ViewTweetModel} {cache : Option UserModel} {join : AuthorJoin}
      (hvm : s.vm = ⟨isiPhone, [], none⟩) (hpage : s.page = false) (hjoin : s.join = some join)
      (hcells : s.cells = none) (hresult : result = .ok tweets) (hcache : Cached user record cache)
      (hvalid : Fetching.AuthorsValid cache tweets)
      (hunderway : AuthorJoin.Underway cache outcome tweets join)
      (hcallBacks : join.callBacks = [])
  | rendered {cells : List Cell} {cache viewer : Option UserModel} (hpage : s.page = false)
      (hjoin : s.join = none) (hcells : s.cells = some cells) (hcache : Cached user record cache)
      (hviewer : Cached user record viewer)
      (hdeliver : deliver ⟨isiPhone, [], none⟩ cache viewer 0 outcome .fetchTweets result =
        .ok cells)

variable (isiPhone user users record outcome result) in
/-- The invariant of the launch. -/
structure Reached (s : Launch) : Prop where
  detail : DetailReached isiPhone user users record s.session
  page : PageReached isiPhone user outcome result record s

theorem reached_start :
    Reached isiPhone user users outcome result record (start isiPhone user users) :=
  ⟨.inl rfl, .waiting rfl rfl rfl rfl⟩

theorem DetailReached.cached {session : Session}
    (h : DetailReached isiPhone user users record session) :
    Cached user record session.loggedInUser := by
  rcases h with rfl | rfl
  · exact .inl rfl
  · exact .inr rfl

/-- A join that has called back is rendered; one that has not goes on. -/
theorem pageReached_of_joined {s s' : Launch} {join : AuthorJoin}
    {cache : Option UserModel} (hdetail : DetailReached isiPhone user users record s.session)
    (hvm : s.vm = ⟨isiPhone, [], none⟩) (hpage : s.page = false) (hcells : s.cells = none)
    (hcache : Cached user record cache) (h : s.joined join = .ok s')
    (hbegun : ∃ join, AuthorJoin.begin cache result = .ok join)
    (hjoin : (∃ tweets, result = .ok tweets ∧ join.callBacks = [] ∧
        AuthorJoin.Underway cache outcome tweets join) ∨
      join.callBacks = [AuthorJoin.joined cache outcome result]) :
    s'.session = s.session ∧ PageReached isiPhone user outcome result record s' := by
  rcases hjoin with ⟨tweets, rfl, hcallBacks, hunderway⟩ | hcallBacks
  · rw [joined, hcallBacks] at h
    obtain rfl := Except.ok.inj h
    have hvalid : Fetching.AuthorsValid cache tweets := by
      by_contra hinvalid
      obtain ⟨_, hbegun⟩ := hbegun
      cases (AuthorJoin.begin_of_invalid hinvalid).symm.trans hbegun
    exact ⟨rfl, .joining hvm hpage rfl hcells rfl hcache hvalid hunderway hcallBacks⟩
  · obtain ⟨rows, cells, hrows, hmapM, rfl⟩ :=
      (joined_eq_ok_iff (by rw [hvm]) hcallBacks).mp h
    obtain ⟨_, hbegun⟩ := hbegun
    rw [hvm] at hrows
    exact ⟨rfl, .rendered hpage rfl rfl hcache hdetail.cached
      ((deliver_eq hbegun).trans (bind_eq_ok_iff.mpr ⟨rows, hrows, hmapM⟩))⟩

/-- The join that the answer to the page begins. -/
theorem underway_of_begin {cache : Option UserModel} {join : AuthorJoin}
    (h : AuthorJoin.begin cache result = .ok join) :
    (∃ tweets, result = .ok tweets ∧ join.callBacks = [] ∧
        AuthorJoin.Underway cache outcome tweets join) ∨
      join.callBacks = [AuthorJoin.joined cache outcome result] := by
  cases result with
  | error error =>
    obtain rfl := Except.ok.inj h
    exact .inr rfl
  | ok tweets =>
    have hvalid : Fetching.AuthorsValid cache tweets := by
      by_contra hinvalid
      cases (AuthorJoin.begin_of_invalid hinvalid).symm.trans h
    obtain rfl := Except.ok.inj ((AuthorJoin.begin_of_valid hvalid).symm.trans h)
    exact .inl ⟨tweets, rfl, rfl, AuthorJoin.underway_begin tweets⟩

theorem callBacks_of_underway {cache : Option UserModel} {tweets : List ViewTweetModel}
    {join : AuthorJoin} (h : AuthorJoin.Underway cache outcome tweets join) :
    join.callBacks = [] ∨ join.callBacks = [AuthorJoin.joined cache outcome (.ok tweets)] := by
  cases h with
  | joining _ _ _ _ _ hcallBacks => exact .inl hcallBacks
  | done _ _ hcallBacks => exact .inr hcallBacks

theorem DetailReached.step (hrecord : users user.path = some record) {session session' : Session}
    {path : String} {fetched : UserModel}
    (h : DetailReached isiPhone user users record session)
    (step : Session.Step session (.detailFetched path fetched .home) session') :
    DetailReached isiPhone user users record session' := by
  cases step with
  | detailFetched pending answer fetched =>
    rcases h with rfl | rfl
    · obtain ⟨rfl, hquery⟩ | ⟨_, -, hnil⟩ := List.cons_eq_append_iff.mp pending
      · obtain ⟨hpath, rfl⟩ := List.cons.inj hquery
        obtain ⟨rfl, -⟩ := Operation.getLoggedInUserDetail.inj hpath
        obtain rfl := Option.some.inj (answer.symm.trans hrecord)
        exact .inr (Except.ok.inj fetched).symm
      · simp at hnil
    · simp at pending

/-- **Every step keeps the invariant of the launch.** -/
theorem reached_of_step (hrecord : users user.path = some record) {s s' : Launch} {e : Event}
    (h : Reached isiPhone user users outcome result record s) (step : Step outcome result s e s') :
    Reached isiPhone user users outcome result record s' := by
  cases step with
  | detailFetched step =>
    refine ⟨h.detail.step hrecord step, ?_⟩
    cases h.page with
    | waiting hvm hpage hjoin hcells => exact .waiting hvm hpage hjoin hcells
    | joining hvm hpage hjoin hcells hresult hcache hvalid hunderway hcallBacks =>
      exact .joining hvm hpage hjoin hcells hresult hcache hvalid hunderway hcallBacks
    | rendered hpage hjoin hcells hcache hviewer hdeliver =>
      exact .rendered hpage hjoin hcells hcache hviewer hdeliver
  | pageFetched page begun joined =>
    cases h.page with
    | waiting hvm _ _ hcells =>
      obtain ⟨hsession, hpage⟩ := pageReached_of_joined (s := { s with page := false }) h.detail hvm
        rfl hcells h.detail.cached joined ⟨_, begun⟩ (underway_of_begin begun)
      exact ⟨hsession ▸ h.detail, hpage⟩
    | joining _ hpage => cases page.symm.trans hpage
    | rendered hpage => cases page.symm.trans hpage
  | author joining step joined =>
    cases h.page with
    | waiting _ _ hjoin => cases joining.symm.trans hjoin
    | @joining tweets cache join hvm hpage hjoin hcells hresult hcache hvalid hunderway _ =>
      obtain rfl := Option.some.inj (hjoin.symm.trans joining)
      have hbegun : ∃ join, AuthorJoin.begin cache result = .ok join :=
        hresult ▸ ⟨_, AuthorJoin.begin_of_valid hvalid⟩
      have hunderway' := AuthorJoin.underway_of_step hunderway step
      obtain ⟨hsession, hpage⟩ := pageReached_of_joined h.detail hvm hpage hcells hcache joined
        hbegun ((callBacks_of_underway hunderway').imp
          (fun hcallBacks => ⟨tweets, hresult, hcallBacks, hunderway'⟩)
          fun hcallBacks => hresult ▸ hcallBacks)
      exact ⟨hsession ▸ h.detail, hpage⟩
    | rendered _ hjoin => cases joining.symm.trans hjoin

/-- The rows of a run were rendered for what had been cached. -/
theorem cells_of_run (hrecord : users user.path = some record)
    {ts : List (Transition Launch Event)} {t : Launch} {cells : List Cell}
    (run : Run (Step outcome result) (start isiPhone user users) ts t)
    (hcells : t.cells = some cells) :
    ∃ cache viewer, Cached user record cache ∧ Cached user record viewer ∧
      deliver ⟨isiPhone, [], none⟩ cache viewer 0 outcome .fetchTweets result = .ok cells := by
  have hreached := run.invariant (fun _ _ _ h step => reached_of_step hrecord h step)
    reached_start
  cases hreached.page with
  | waiting _ _ _ hnone => cases hcells.symm.trans hnone
  | joining _ _ _ hnone => cases hcells.symm.trans hnone
  | @rendered cells' cache viewer _ _ hcells' hcache hviewer hdeliver =>
    obtain rfl := Option.some.inj (hcells.symm.trans hcells')
    exact ⟨cache, viewer, hcache, hviewer, hdeliver⟩

/-! ### What the rows show -/

/-- Rows that have been rendered were loaded. -/
theorem mapM_render_eq_ok {viewer : Option UserModel} {rows : List ViewTweetModel}
    {cells : List Cell} (h : rows.mapM (render viewer 0) = .ok cells) :
    cells = rows.map (loadData viewer 0) := by
  induction rows generalizing cells with
  | nil => exact (Except.ok.inj h).symm
  | cons tweet rows ih =>
    rw [List.mapM_cons, bind_eq_ok_iff] at h
    obtain ⟨cell, hcell, h⟩ := h
    obtain ⟨rest, hrest, h⟩ := bind_eq_ok_iff.mp h
    obtain rfl := Except.ok.inj h
    unfold render at hcell
    split at hcell
    · rw [ih hrest, List.map_cons, Except.ok.inj hcell]
    · cases hcell

/-- The rows that a delivery renders for a screen without rows: the page can be shown, and the
joined tweets are loaded, newest first. -/
theorem deliver_eq_ok {cache viewer : Option UserModel} {tweets : List ViewTweetModel}
    {cells : List Cell}
    (h : deliver ⟨isiPhone, [], none⟩ cache viewer 0 outcome .fetchTweets (.ok tweets) =
      .ok cells) :
    Fetching.AuthorsValid cache tweets ∧ (∀ tweet ∈ tweets, tweet.createdTimeStamp ≠ none) ∧
      cells = (Descending.sort (fun tweet => tweet.stamp)
        (joinedTweets cache outcome tweets)).map (loadData viewer 0) := by
  have hvalid : Fetching.AuthorsValid cache tweets := by
    by_contra hinvalid
    cases (deliver_of_invalid hinvalid).symm.trans h
  have hdrops : ¬ DropsOnly ⟨isiPhone, [], none⟩ .fetchTweets := by
    rintro (hkind | hcursor)
    · cases hkind
    · exact hcursor rfl
  have hstamps : ∀ tweet ∈ tweets, tweet.createdTimeStamp ≠ none := by
    intro tweet htweet hnone
    have hnil : deliver ⟨isiPhone, [], none⟩ cache viewer 0 outcome .fetchTweets (.ok tweets) =
        .error .unwrappedNil :=
      deliver_unwrapsNil_iff.mpr ⟨hvalid, ⟨tweet, htweet, hnone⟩, fun h => hdrops h.2⟩
    cases hnil.symm.trans h
  have hjoined : ∀ tweet ∈ joinedTweets cache outcome tweets, tweet.createdTimeStamp ≠ none := by
    intro tweet htweet hnone
    obtain ⟨t, ht, hstamp⟩ := (exists_joinedTweets _ _ _ fun record =>
      record.createdTimeStamp = none).mp ⟨tweet, htweet, hnone⟩
    exact hstamps t ht hstamp
  rw [deliver_of_valid hvalid, sortedTweets_eq hjoined] at h
  exact ⟨hvalid, hstamps, mapM_render_eq_ok h⟩

/-- A user's identifier makes a valid path, so which authors can be asked for does not depend on
whether the profile of the user is cached. -/
theorem authorsValid_none {cache : Option UserModel} {tweets : List ViewTweetModel}
    (hcache : Cached user record cache) (h : Fetching.AuthorsValid cache tweets) :
    Fetching.AuthorsValid none tweets := by
  rcases hcache with rfl | rfl
  · exact h
  · intro tweet htweet _
    by_cases hown : some tweet.uid = some user.uid
    · rw [Option.some.inj hown]
      exact isValidPathString_path user
    · exact h tweet htweet hown

section Foreign

variable {cache viewer : Option UserModel} {tweets : List ViewTweetModel}

/-- Of tweets of other users the cached profile is the author of none. -/
theorem joinedTweets_of_foreign (hcache : Cached user record cache)
    (hforeign : ∀ tweet ∈ tweets, tweet.uid ≠ user.uid) :
    joinedTweets cache outcome tweets = joinedTweets none outcome tweets := by
  rcases hcache with rfl | rfl
  · rfl
  · refine List.ext_getElem? fun i => ?_
    simp only [joinedTweets, List.getElem?_mapIdx]
    cases hi : tweets[i]? with
    | none => rfl
    | some tweet =>
      have hown : ¬ AuthorJoin.IsOwn (some (own user record)) tweet := fun h =>
        hforeign tweet (List.mem_of_getElem? hi) (Option.some.inj h)
      have hnone : ¬ AuthorJoin.IsOwn none tweet := fun h => Option.some_ne_none _ h
      simp only [Option.map_some, AuthorJoin.author, if_neg hown, if_neg hnone]

/-- The row of a tweet of another user has no delete button. -/
theorem loadData_of_foreign (hviewer : Cached user record viewer) {tweet : ViewTweetModel}
    (hforeign : tweet.uid ≠ user.uid) : loadData viewer 0 tweet =
      { loadData none 0 tweet with viewer := viewer.bind UserModel.userID } := by
  rcases hviewer with rfl | rfl
  · rfl
  · have hne : user.uid ≠ tweet.uid := Ne.symm hforeign
    simp [loadData, own, hne]

/-- A page without tweets of the user is shown alike whatever has been cached. -/
theorem map_shown_of_foreign (hcache : Cached user record cache)
    (hviewer : Cached user record viewer) (hforeign : ∀ tweet ∈ tweets, tweet.uid ≠ user.uid)
    {cells : List Cell}
    (h : deliver ⟨isiPhone, [], none⟩ cache viewer 0 outcome .fetchTweets (.ok tweets) =
      .ok cells) :
    (∀ cell ∈ cells, cell.deleteButtonHidden = true ∧ cell.tweetModel.uid ≠ user.uid) ∧
      cells.map Cell.shown = ((Descending.sort (fun tweet => tweet.stamp)
        (joinedTweets none outcome tweets)).map (loadData none 0)).map Cell.shown := by
  obtain ⟨-, -, rfl⟩ := deliver_eq_ok h
  rw [joinedTweets_of_foreign hcache hforeign]
  have hrows : ∀ tweet ∈ Descending.sort (fun tweet => tweet.stamp)
      (joinedTweets none outcome tweets), tweet.uid ≠ user.uid := by
    intro tweet htweet huid
    obtain ⟨t, ht, hown⟩ := (exists_joinedTweets _ _ _ fun record => record.uid = user.uid).mp
      ⟨tweet, (Descending.mem_sort _).mp htweet, huid⟩
    exact hforeign t ht hown
  constructor
  · intro cell hcell
    obtain ⟨tweet, htweet, rfl⟩ := List.mem_map.mp hcell
    rw [loadData_of_foreign hviewer (hrows tweet htweet)]
    exact ⟨rfl, hrows tweet htweet⟩
  · rw [List.map_map, List.map_map]
    refine List.map_congr_left fun tweet htweet => ?_
    rw [Function.comp_apply, loadData_of_foreign hviewer (hrows tweet htweet)]
    rfl

end Foreign

/-! ### The page first -/

variable (isiPhone outcome) in
/-- A page that can be shown is rendered. -/
theorem exists_deliver (viewer : Option UserModel) {cache : Option UserModel}
    {tweets : List ViewTweetModel}
    (hvalid : Fetching.AuthorsValid cache tweets)
    (hstamps : ∀ tweet ∈ tweets, tweet.createdTimeStamp ≠ none) :
    ∃ cells, deliver ⟨isiPhone, [], none⟩ cache viewer 0 outcome .fetchTweets (.ok tweets) =
      .ok cells := by
  rw [deliver_of_valid hvalid]
  refine exists_rendered fun tweet htweet hnone => ?_
  obtain ⟨t, ht, hstamp⟩ := (exists_joinedTweets _ _ _ fun record =>
    record.createdTimeStamp = none).mp ⟨tweet, htweet, hnone⟩
  exact hstamps t ht hstamp

section PageFirst

variable {tweets : List ViewTweetModel} {cells : List Cell}

variable (isiPhone user users) in
/-- The authors of the page are being joined, and the record of the user is under way. -/
def joining (join : AuthorJoin) : Launch :=
  { start isiPhone user users with page := false, join := some join }

/-- The answers of the authors lead to the rendering of the page. -/
theorem exists_rendered_run {join join' : AuthorJoin}
    {us : List (Transition AuthorJoin AuthorJoin.Event)}
    (hvalid : Fetching.AuthorsValid none tweets)
    (hdeliver : deliver ⟨isiPhone, [], none⟩ none none 0 outcome .fetchTweets (.ok tweets) =
      .ok cells)
    (hunderway : AuthorJoin.Underway none outcome tweets join) (hcallBacks : join.callBacks = [])
    (run : Run (AuthorJoin.Step outcome) join us join') :
    (join'.callBacks = [] ∧ ∃ ts, Run (Step outcome (.ok tweets)) (joining isiPhone user users join)
        ts (joining isiPhone user users join')) ∨
      ∃ ts t, Run (Step outcome (.ok tweets)) (joining isiPhone user users join) ts t ∧
        t.session = (start isiPhone user users).session ∧ t.cells = some cells := by
  induction run with
  | nil => exact .inl ⟨hcallBacks, [], .nil _⟩
  | snoc run step ih =>
    rcases ih with ⟨-, ts, rendered⟩ | hrendered
    · have hunderway' :=
        AuthorJoin.underway_of_step (AuthorJoin.underway_of_run run hunderway) step
      rcases callBacks_of_underway hunderway' with hnil | hone
      · refine .inl ⟨hnil, _, rendered.snoc (.author rfl step ?_)⟩
        rw [joined, hnil]
        rfl
      · rw [deliver_eq (AuthorJoin.begin_of_valid hvalid)] at hdeliver
        obtain ⟨rows, hrows, hmapM⟩ := bind_eq_ok_iff.mp hdeliver
        exact .inr ⟨_, _, rendered.snoc (.author rfl step
          ((joined_eq_ok_iff rfl hone).mpr ⟨rows, cells, hrows, hmapM, rfl⟩)), rfl, rfl⟩
    · exact .inr hrendered

/-- The page may be rendered before the record of the user arrives. -/
theorem exists_run_pageFirst (hrecord : users user.path = some record)
    (hvalid : Fetching.AuthorsValid none tweets)
    (hdeliver : deliver ⟨isiPhone, [], none⟩ none none 0 outcome .fetchTweets (.ok tweets) =
      .ok cells) :
    ∃ ts t, Run (Step outcome (.ok tweets)) (start isiPhone user users) ts t ∧ t.Shows cells := by
  obtain ⟨us, join', run, hquiescent⟩ :=
    AuthorJoin.exists_quiescent
      (AuthorJoin.underway_begin tweets : AuthorJoin.Underway none outcome tweets _)
  have begun : Run (Step outcome (.ok tweets)) (start isiPhone user users) _
      (joining isiPhone user users _) :=
    (Run.nil _).snoc (.pageFetched rfl (AuthorJoin.begin_of_valid hvalid) rfl)
  have hexact := AuthorJoin.underway_of_run run (AuthorJoin.underway_begin tweets)
  rcases exists_rendered_run hvalid hdeliver (AuthorJoin.underway_begin tweets) rfl run with
    ⟨hnil, -⟩ | ⟨ts, t, rendered, hsession, hcells⟩
  · cases hexact with
    | joining k _ hcount hgroup =>
      rw [hquiescent.pending_eq, List.length_nil] at hcount
      have hqueued : join'.group.queued = true := by
        rw [hgroup, DispatchGroup.queued_joining]
        omega
      cases hquiescent.queued_eq.symm.trans hqueued
    | done _ _ hcallBacks => cases hnil.symm.trans hcallBacks
  · have fetched : Session.Step t.session (.detailFetched user.path record .home)
        { Session.initial (some user) users with loggedInUser := some (own user record) } := by
      rw [hsession]
      exact .detailFetched (List.nil_append _).symm hrecord rfl
    exact ⟨_, _, (begun.trans rendered).snoc (.detailFetched fetched), rfl, hcells⟩

end PageFirst

/-- The user's own tweet, if its page can be shown, may be rendered without a delete button. -/
theorem not_orderIndependent_of_own (hrecord : users user.path = some record)
    {tweets : List ViewTweetModel} (hshowable : Showable tweets) {tweet : ViewTweetModel}
    (htweet : tweet ∈ tweets) (hown : tweet.uid = user.uid) :
    ¬ OrderIndependent isiPhone user users outcome (.ok tweets) := by
  intro h
  obtain ⟨cells, hdeliver⟩ :=
    exists_deliver isiPhone outcome none hshowable.authorsValid hshowable.stamped
  obtain ⟨ts, t, run, hshows⟩ := exists_run_pageFirst hrecord hshowable.authorsValid hdeliver
  obtain ⟨hbuttons, -⟩ := h _ viewDidLoad_eq ts t cells run hshows
  obtain ⟨-, -, rfl⟩ := deliver_eq_ok hdeliver
  obtain ⟨row, hrow, huid⟩ := (exists_joinedTweets none outcome tweets
    fun record => record.uid = user.uid).mpr ⟨tweet, htweet, hown⟩
  have hcell := List.mem_map_of_mem (f := loadData none 0)
    ((Descending.mem_sort fun tweet => tweet.stamp).mpr hrow)
  cases (hbuttons _ hcell).mpr huid

/-- Without a tweet of the user's, every run that shows the page shows the same. -/
theorem exists_shown_of_foreign (hrecord : users user.path = some record)
    (hforeign : ∀ tweets, result = .ok tweets → Showable tweets →
      ∀ tweet ∈ tweets, tweet.uid ≠ user.uid) :
    ∃ shown, ∀ ts t cells, Run (Step outcome result) (start isiPhone user users) ts t →
      t.Shows cells →
        (∀ cell ∈ cells, cell.deleteButtonHidden = true ∧ cell.tweetModel.uid ≠ user.uid) ∧
          cells.map Cell.shown = shown := by
  cases result with
  | error error =>
    refine ⟨[], fun ts t cells run hshows => ?_⟩
    obtain ⟨_, _, -, -, hdeliver⟩ := cells_of_run hrecord run hshows.cells_eq
    obtain rfl : [] = cells := Except.ok.inj hdeliver
    exact ⟨List.forall_mem_nil _, rfl⟩
  | ok tweets =>
    refine ⟨((Descending.sort (fun tweet => tweet.stamp)
      (joinedTweets none outcome tweets)).map (loadData none 0)).map Cell.shown,
      fun ts t cells run hshows => ?_⟩
    obtain ⟨_, _, hcache, hviewer, hdeliver⟩ := cells_of_run hrecord run hshows.cells_eq
    obtain ⟨hvalid, hstamps, -⟩ := deliver_eq_ok hdeliver
    exact map_shown_of_foreign hcache hviewer
      (hforeign tweets rfl ⟨authorsValid_none hcache hvalid, hstamps⟩) hdeliver

end Launch

end TwitterLite
