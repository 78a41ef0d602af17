import TwitterLite.Session.FetchOperations

/-!
# Joining the authors, answer by answer

`HomeViewModel.fetchUserDetails` goes through the decoded tweets once. A tweet of the user who is
signed in gets the cached profile at once; for every other one a query is sent, whose answer is
written into the model of the tweet, in whatever order the answers arrive. The tweets are handed
over by the block of a group.

`AuthorJoin` has the models that the answers are written into. At every moment the models whose
queries are under way are as they were decoded, and the others have their author
(`AuthorJoin.Underway`). So the join is exact, and it ends, exactly if the path of every query is
valid (`AuthorJoin.exact_iff`).

## Main definitions

* `TwitterLite.AuthorJoin`, `TwitterLite.AuthorJoin.begin`, `TwitterLite.AuthorJoin.Step`.
* `TwitterLite.AuthorJoin.author`, `TwitterLite.AuthorJoin.joined`, `TwitterLite.AuthorJoin.Exact`.

## Main results

* `TwitterLite.AuthorJoin.joined_eq_fetchUserDetails`.
* `TwitterLite.AuthorJoin.underway_of_run`, `TwitterLite.AuthorJoin.exact_iff`.

Source: `HomeViewModel.swift`, lines 143–174; `UserEndPoint.swift`, lines 11–25;
`ViewTweetModel.swift`, lines 11–28.
-/

namespace TwitterLite

open TransitionSystem

/-- The shared models, the queries of authors under way, each with the position of its tweet and its
path, the group, and what the callback has received. -/
structure AuthorJoin where
  tweets : List ViewTweetModel := []
  pending : List (ℕ × String) := []
  group : DispatchGroup := {}
  callBacks : List TweetsCallBack := []

namespace AuthorJoin

/-- The path of the query of a tweet's author. -/
def path (tweet : ViewTweetModel) : String := (UserEndPoint.getUserDetails tweet.uid).path none

variable (loggedInUser : Option UserModel)

/-- The tweet is one of the user whose profile is cached. -/
def IsOwn (tweet : ViewTweetModel) : Prop := some tweet.uid = loggedInUser.bind UserModel.userID

instance (tweet : ViewTweetModel) : Decidable (IsOwn loggedInUser tweet) :=
  inferInstanceAs (Decidable (some tweet.uid = loggedInUser.bind UserModel.userID))

/-- The body of the loop for the tweet at a position. -/
def visit (s : AuthorJoin) (tweet : ViewTweetModel × ℕ) : Except Trap AuthorJoin :=
  if IsOwn loggedInUser tweet.1 then
    .ok { s with tweets := s.tweets ++ [{ tweet.1 with user := loggedInUser }] }
  else
    (child (path tweet.1)).map fun _ =>
      { s with
        tweets := s.tweets ++ [tweet.1]
        pending := s.pending ++ [(tweet.2, path tweet.1)]
        group := s.group.enter }

/-- The call of `HomeViewModel.fetchUserDetails`. -/
def begin : Except AppError (List ViewTweetModel) → Except Trap AuthorJoin
  | .ok tweetModelList =>
    (tweetModelList.zipIdx.foldlM (visit loggedInUser) {}).map fun s =>
      { s with group := s.group.notify }
  | .error error => .ok { callBacks := [(none, some error)] }

/-- What the answer to the query of an author does to the tweet. -/
def answered (profile : Option UserModel) (tweet : ViewTweetModel) : ViewTweetModel :=
  match profile with
  | some userModel => { tweet with user := some userModel }
  | none => tweet

/-- What can happen: a query is answered, or the block runs. -/
inductive Event where
  | answered (query : ℕ × String)
  | notified

/-- One step; `outcome` has the profile that each query returns, if it succeeds. -/
inductive Step (outcome : ℕ × String → Option UserModel) : AuthorJoin → Event → AuthorJoin → Prop
  | answered {s : AuthorJoin} {before after : List (ℕ × String)} {query : ℕ × String}
      (pending : s.pending = before ++ query :: after) :
      Step outcome s (.answered query)
        { s with
          tweets := s.tweets.modify query.1 (AuthorJoin.answered (outcome query))
          pending := before ++ after
          group := s.group.leave }
  | notified {s : AuthorJoin} (queued : s.group.queued = true) :
      Step outcome s .notified
        { s with
          group := s.group.run
          callBacks := s.callBacks ++ [(some s.tweets, none)] }

/-- All queries have been answered, and no block is queued. -/
structure Quiescent (s : AuthorJoin) : Prop where
  pending_eq : s.pending = []
  queued_eq : s.group.queued = false

/-! ### What the join is meant to be -/

variable (outcome : ℕ × String → Option UserModel)

/-- The author of the tweet at a position: the cached profile for the user's own tweets, the profile
that the query of its author returned, or what was decoded. -/
def author (i : ℕ) (tweet : ViewTweetModel) : Option UserModel :=
  if IsOwn loggedInUser tweet then loggedInUser else (outcome (i, path tweet)).or tweet.user

/-- The same tweets in the same order, each with its author, or the error of the main query. -/
def joined : Except AppError (List ViewTweetModel) → TweetsCallBack
  | .ok tweets =>
    (some (tweets.mapIdx fun i tweet => { tweet with user := author loggedInUser outcome i tweet }),
      none)
  | .error error => (none, some error)

/-- The join is exact: it does not trap; nothing is handed over while a query is under way; whatever
has happened, the join can be completed, and when it is, the callback has been called once, with the
joined tweets. For an error no query is sent. -/
def Exact (result : Except AppError (List ViewTweetModel)) : Prop :=
  ∃ s, begin loggedInUser result = .ok s ∧ (∀ error, result = .error error → s.pending = []) ∧
    ∀ ts t, Run (Step outcome) s ts t →
      (t.pending ≠ [] → t.callBacks = []) ∧
      (∃ us u, Run (Step outcome) t us u ∧ u.Quiescent) ∧
      (t.Quiescent → t.callBacks = [joined loggedInUser outcome result])

variable {loggedInUser outcome} {i : ℕ} {tweet : ViewTweetModel} {tweets : List ViewTweetModel}

theorem author_eq (i : ℕ) (tweet : ViewTweetModel) :
    { tweet with user := author loggedInUser outcome i tweet } =
      HomeViewModel.withAuthor loggedInUser (outcome (i, path tweet)) tweet := by
  unfold author HomeViewModel.withAuthor
  by_cases hown : IsOwn loggedInUser tweet
  · rw [if_pos hown, if_pos (show some tweet.uid = loggedInUser.bind UserModel.userID from hown)]
  · rw [if_neg hown, if_neg (show ¬ some tweet.uid = loggedInUser.bind UserModel.userID from hown)]
    cases outcome (i, path tweet) <;> rfl

/-- The join as a whole is what `HomeViewModel.fetchUserDetails` computes from the profiles. -/
theorem joined_eq_fetchUserDetails (result : Except AppError (List ViewTweetModel)) :
    ∃ profiles, joined loggedInUser outcome result =
      HomeViewModel.fetchUserDetails loggedInUser profiles result := by
  cases result with
  | error error => exact ⟨fun _ => none, rfl⟩
  | ok tweets =>
    refine ⟨fun i => tweets[i]?.bind fun tweet => outcome (i, path tweet), ?_⟩
    simp only [joined, HomeViewModel.fetchUserDetails, author_eq]
    congr 2
    refine List.ext_getElem (by simp) fun i hi _ => ?_
    rw [List.length_mapIdx] at hi
    simp [List.getElem?_eq_getElem hi]

/-! ### The loop -/

section Loop

variable (loggedInUser) in
/-- The queries that are sent for tweets at given positions. -/
def queries (tweets : List (ViewTweetModel × ℕ)) : List (ℕ × String) :=
  (tweets.filter fun tweet => ¬ IsOwn loggedInUser tweet.1).map fun tweet =>
    (tweet.2, path tweet.1)

variable (loggedInUser) in
/-- The tweet after the loop: the user's own tweets have their author. -/
def visited (tweet : ViewTweetModel) : ViewTweetModel :=
  if IsOwn loggedInUser tweet then { tweet with user := loggedInUser } else tweet

theorem mem_queries {l : List (ViewTweetModel × ℕ)} {query : ℕ × String} :
    query ∈ queries loggedInUser l ↔
      ∃ tweet ∈ l, ¬ IsOwn loggedInUser tweet.1 ∧ (tweet.2, path tweet.1) = query := by
  simp only [queries, List.mem_map, List.mem_filter, decide_eq_true_eq, and_assoc]

theorem nodup_queries (tweets : List ViewTweetModel) :
    (queries loggedInUser tweets.zipIdx).Nodup := by
  have hpositions : (tweets.zipIdx.map Prod.snd).Nodup := by
    rw [List.zipIdx_map_snd]
    exact List.nodup_range'
  refine List.Nodup.of_map Prod.fst ?_
  rw [queries, List.map_map]
  exact hpositions.sublist (List.filter_sublist.map _)

theorem visit_of_own {tweet : ViewTweetModel × ℕ} (s : AuthorJoin)
    (hown : IsOwn loggedInUser tweet.1) : visit loggedInUser s tweet =
      .ok { s with tweets := s.tweets ++ [{ tweet.1 with user := loggedInUser }] } :=
  if_pos hown

theorem visit_of_valid {tweet : ViewTweetModel × ℕ} (s : AuthorJoin)
    (hown : ¬ IsOwn loggedInUser tweet.1) (hvalid : isValidPathString (path tweet.1) = true) :
    visit loggedInUser s tweet = .ok
      { s with
        tweets := s.tweets ++ [tweet.1]
        pending := s.pending ++ [(tweet.2, path tweet.1)]
        group := s.group.enter } := by
  rw [visit, if_neg hown, child, if_pos hvalid]
  rfl

theorem visit_of_invalid {tweet : ViewTweetModel × ℕ} (s : AuthorJoin)
    (hown : ¬ IsOwn loggedInUser tweet.1) (hvalid : ¬ isValidPathString (path tweet.1) = true) :
    visit loggedInUser s tweet = .error .invalidPath := by
  rw [visit, if_neg hown, child, if_neg hvalid]
  rfl

/-- The loop, if the path of every query is valid. -/
theorem foldlM_visit {l : List (ViewTweetModel × ℕ)} (s : AuthorJoin)
    (h : ∀ tweet ∈ l, ¬ IsOwn loggedInUser tweet.1 → isValidPathString (path tweet.1) = true) :
    l.foldlM (visit loggedInUser) s = .ok
      { s with
        tweets := s.tweets ++ l.map fun tweet => visited loggedInUser tweet.1
        pending := s.pending ++ queries loggedInUser l
        group := DispatchGroup.enter^[(queries loggedInUser l).length] s.group } := by
  induction l generalizing s with
  | nil => simp [queries, pure, Except.pure]
  | cons tweet l ih =>
    have htail := fun t ht => h t (List.mem_cons_of_mem tweet ht)
    rw [List.foldlM_cons]
    by_cases hown : IsOwn loggedInUser tweet.1
    · have hqueries : queries loggedInUser (tweet :: l) = queries loggedInUser l := by
        rw [queries, List.filter_cons_of_neg (by simpa using hown), ← queries]
      rw [visit_of_own s hown, hqueries]
      refine (ih _ htail).trans ?_
      simp [visited, hown]
    · have hqueries : queries loggedInUser (tweet :: l) =
          (tweet.2, path tweet.1) :: queries loggedInUser l := by
        rw [queries, List.filter_cons_of_pos (by simpa using hown), List.map_cons, ← queries]
      rw [visit_of_valid s hown (h tweet List.mem_cons_self hown), hqueries]
      refine (ih _ htail).trans ?_
      simp [visited, hown]

/-- The loop traps at a query whose path is not valid. -/
theorem foldlM_visit_of_invalid {l : List (ViewTweetModel × ℕ)} (s : AuthorJoin)
    (h : ∃ tweet ∈ l, ¬ IsOwn loggedInUser tweet.1 ∧ ¬ isValidPathString (path tweet.1) = true) :
    l.foldlM (visit loggedInUser) s = .error .invalidPath := by
  induction l generalizing s with
  | nil => simp at h
  | cons tweet l ih =>
    obtain ⟨tweet', htweet', hown', hinvalid'⟩ := h
    rw [List.foldlM_cons]
    by_cases hown : IsOwn loggedInUser tweet.1
    · rw [visit_of_own s hown]
      exact ih _ ⟨tweet', List.mem_of_ne_of_mem (fun h => hown' (h ▸ hown)) htweet', hown',
        hinvalid'⟩
    · by_cases hvalid : isValidPathString (path tweet.1) = true
      · rw [visit_of_valid s hown hvalid]
        exact ih _ ⟨tweet', List.mem_of_ne_of_mem (fun h => hinvalid' (h ▸ hvalid)) htweet', hown',
          hinvalid'⟩
      · rw [visit_of_invalid s hown hvalid]
        rfl

/-- The call traps exactly if the path of a query is not valid, and otherwise it sends them all. -/
theorem begin_of_valid (h : Fetching.AuthorsValid loggedInUser tweets) :
    begin loggedInUser (.ok tweets) = .ok
      { tweets := tweets.map (visited loggedInUser)
        pending := queries loggedInUser tweets.zipIdx
        group := .joining (queries loggedInUser tweets.zipIdx).length 0 } := by
  have hloop := foldlM_visit (l := tweets.zipIdx) {} fun tweet htweet =>
    h tweet.1 (List.fst_mem_of_mem_zipIdx htweet)
  have hmap : (tweets.zipIdx.map fun tweet => visited loggedInUser tweet.1) =
      tweets.map (visited loggedInUser) := by
    rw [← Function.comp_def, ← List.map_map, List.zipIdx_map_fst]
  rw [begin, hloop, Except.map, DispatchGroup.notify_iterate_enter, hmap]
  rfl

theorem begin_of_invalid (h : ¬ Fetching.AuthorsValid loggedInUser tweets) :
    begin loggedInUser (.ok tweets) = .error .invalidPath := by
  simp only [Fetching.AuthorsValid, not_forall] at h
  obtain ⟨tweet, htweet, hown, hinvalid⟩ := h
  obtain ⟨i, hi⟩ := List.mem_iff_getElem?.mp htweet
  have hloop := foldlM_visit_of_invalid (l := tweets.zipIdx) {}
    ⟨(tweet, i), List.mk_mem_zipIdx_iff_getElem?.mpr hi, hown, hinvalid⟩
  rw [begin, hloop]
  rfl

end Loop

/-! ### Every order of the answers -/

/-- While the authors are being joined, the models whose queries are under way are as they were
decoded and the others have their author; afterwards the joined tweets have been handed over. -/
inductive Underway (loggedInUser : Option UserModel) (outcome : ℕ × String → Option UserModel)
    (tweets : List ViewTweetModel) (s : AuthorJoin) : Prop
  | joining (k : ℕ) (hpending : s.pending.Sublist (queries loggedInUser tweets.zipIdx))
      (hcount : s.pending.length + k = (queries loggedInUser tweets.zipIdx).length)
      (hgroup : s.group = .joining (queries loggedInUser tweets.zipIdx).length k)
      (htweets : s.tweets = tweets.mapIdx fun i tweet =>
        if (i, path tweet) ∈ s.pending then tweet
        else { tweet with user := author loggedInUser outcome i tweet })
      (hcallBacks : s.callBacks = [])
  | done (hpending : s.pending = []) (hgroup : s.group = {})
      (hcallBacks : s.callBacks = [joined loggedInUser outcome (.ok tweets)])

variable {s s' : AuthorJoin} {e : Event}

/-- The query of a tweet is under way after the loop exactly if the tweet is somebody else's. -/
theorem mem_queries_zipIdx (hi : tweets[i]? = some tweet) :
    (i, path tweet) ∈ queries loggedInUser tweets.zipIdx ↔ ¬ IsOwn loggedInUser tweet := by
  rw [mem_queries]
  constructor
  · rintro ⟨⟨tweet', i'⟩, hmem, hown, hquery⟩
    obtain ⟨rfl, -⟩ := Prod.mk.inj hquery
    have hi' := List.mk_mem_zipIdx_iff_getElem?.mp hmem
    obtain rfl := Option.some.inj (hi.symm.trans hi')
    exact hown
  · intro hown
    exact ⟨(tweet, i), List.mk_mem_zipIdx_iff_getElem?.mpr hi, hown, rfl⟩

theorem underway_begin (tweets : List ViewTweetModel) : Underway loggedInUser outcome tweets
    { tweets := tweets.map (visited loggedInUser)
      pending := queries loggedInUser tweets.zipIdx
      group := .joining (queries loggedInUser tweets.zipIdx).length 0 } := by
  refine .joining 0 (.refl _) rfl rfl (List.ext_getElem? fun i => ?_) rfl
  rw [List.getElem?_map, List.getElem?_mapIdx]
  cases hi : tweets[i]? with
  | none => rfl
  | some tweet =>
    simp only [Option.map_some, mem_queries_zipIdx hi, visited, author]
    by_cases hown : IsOwn loggedInUser tweet <;> simp [hown]

/-- The answer to a query gives the tweet its author. -/
theorem answered_eq (hown : ¬ IsOwn loggedInUser tweet) (i : ℕ) :
    answered (outcome (i, path tweet)) tweet =
      { tweet with user := author loggedInUser outcome i tweet } := by
  rw [author, if_neg hown]
  cases outcome (i, path tweet) <;> rfl

/-- An answer is written into the model of its own tweet. -/
theorem modify_answered {before after : List (ℕ × String)} {query : ℕ × String}
    (hpending : (before ++ query :: after).Sublist (queries loggedInUser tweets.zipIdx)) :
    (tweets.mapIdx fun i tweet =>
      if (i, path tweet) ∈ before ++ query :: after then tweet
      else { tweet with user := author loggedInUser outcome i tweet }).modify query.1
        (answered (outcome query)) =
      tweets.mapIdx fun i tweet =>
        if (i, path tweet) ∈ before ++ after then tweet
        else { tweet with user := author loggedInUser outcome i tweet } := by
  have hnodup := (nodup_queries tweets).sublist hpending
  have hfresh : query ∉ before ++ after := (List.nodup_middle.mp hnodup).notMem
  obtain ⟨⟨tweet, i⟩, hmem, hown, rfl⟩ :=
    mem_queries.mp (hpending.subset (List.mem_append_right _ List.mem_cons_self))
  have hi := List.mk_mem_zipIdx_iff_getElem?.mp hmem
  refine List.ext_getElem? fun j => ?_
  rw [List.getElem?_modify, List.getElem?_mapIdx, List.getElem?_mapIdx]
  by_cases hj : i = j
  · subst hj
    dsimp only at hi hfresh
    simp only [hi, Option.map_some, if_true, hfresh, if_false]
    simp [answered_eq hown]
  · have hother (t : ViewTweetModel) :
        (j, path t) ∈ before ++ (i, path tweet) :: after ↔ (j, path t) ∈ before ++ after := by
      simp [Ne.symm hj]
    simp only [hj, if_false, hother]
    simp

/-- When all queries have been answered, every tweet has its author. -/
theorem mapIdx_of_pending_nil :
    (tweets.mapIdx fun i tweet =>
      if (i, path tweet) ∈ ([] : List (ℕ × String)) then tweet
      else { tweet with user := author loggedInUser outcome i tweet }) =
      tweets.mapIdx fun i tweet => { tweet with user := author loggedInUser outcome i tweet } := by
  simp only [List.not_mem_nil, if_false]

/-- **A step keeps account of the answers.** -/
theorem underway_of_step (h : Underway loggedInUser outcome tweets s)
    (step : Step outcome s e s') : Underway loggedInUser outcome tweets s' := by
  cases step with
  | answered pending =>
    cases h with
    | joining k hpending hcount hgroup htweets hcallBacks =>
      rw [pending] at hpending hcount htweets
      rw [List.length_append, List.length_cons] at hcount
      refine .joining (k + 1) ?_ ?_ ?_ ?_ hcallBacks
      · exact ((List.sublist_cons_self _ _).append_left _).trans hpending
      · simp only [List.length_append]
        omega
      · rw [hgroup, DispatchGroup.leave_joining (by omega)]
      · rw [htweets]
        exact modify_answered hpending
    | done hpending => simp [hpending] at pending
  | notified queued =>
    cases h with
    | joining k hpending hcount hgroup htweets hcallBacks =>
      rw [hgroup] at queued
      have hle := DispatchGroup.queued_joining.mp queued
      have hnil : s.pending = [] := List.length_eq_zero_iff.mp (by omega)
      refine .done hnil (hgroup ▸ DispatchGroup.run_joining queued) ?_
      rw [hcallBacks, htweets, hnil, mapIdx_of_pending_nil]
      rfl
    | done _ hgroup =>
      rw [hgroup] at queued
      cases queued

theorem underway_of_run {ts : List (Transition AuthorJoin Event)}
    (run : Run (Step outcome) s ts s') (h : Underway loggedInUser outcome tweets s) :
    Underway loggedInUser outcome tweets s' :=
  run.invariant (fun _ _ _ h step => underway_of_step h step) h

/-- Whatever has happened, the join can be completed. -/
theorem exists_quiescent (h : Underway loggedInUser outcome tweets s) :
    ∃ us u, Run (Step outcome) s us u ∧ u.Quiescent := by
  induction hn : s.pending.length generalizing s with
  | zero =>
    have hnil : s.pending = [] := List.length_eq_zero_iff.mp hn
    cases hqueued : s.group.queued with
    | false => exact ⟨[], s, .nil s, hnil, hqueued⟩
    | true => exact ⟨_, _, (Run.nil s).snoc (.notified hqueued), hnil, rfl⟩
  | succ n ih =>
    obtain ⟨query, rest, hpending⟩ :=
      List.exists_cons_of_ne_nil (List.length_pos_iff.mp (by omega : 0 < s.pending.length))
    have step : Step outcome s (.answered query) _ := .answered (hpending.trans rfl : _ = [] ++ _)
    rw [hpending, List.length_cons, Nat.add_right_cancel_iff] at hn
    obtain ⟨us, u, run, hquiescent⟩ := ih (underway_of_step h step) hn
    exact ⟨_, u, ((Run.nil s).snoc step).trans run, hquiescent⟩

/-- A join that can be begun is exact. -/
theorem exact_of_valid (h : Fetching.AuthorsValid loggedInUser tweets) :
    Exact loggedInUser outcome (.ok tweets) := by
  refine ⟨_, begin_of_valid h, nofun, fun ts t run => ?_⟩
  have hunderway := underway_of_run run (underway_begin tweets)
  refine ⟨fun hpending => ?_, exists_quiescent hunderway, fun hquiescent => ?_⟩
  · cases hunderway with
    | joining _ _ _ _ _ hcallBacks => exact hcallBacks
    | done hnil => exact absurd hnil hpending
  · cases hunderway with
    | joining k _ hcount hgroup =>
      rw [hquiescent.pending_eq, List.length_nil] at hcount
      have hqueued : t.group.queued = true := by
        rw [hgroup, DispatchGroup.queued_joining]
        omega
      cases hquiescent.queued_eq.symm.trans hqueued
    | done _ _ hcallBacks => exact hcallBacks

/-- An error of the main query is passed on, and nothing else happens. -/
theorem exact_error (error : AppError) : Exact loggedInUser outcome (.error error) := by
  refine ⟨_, rfl, fun _ _ => rfl, fun ts t run => ?_⟩
  let start : AuthorJoin := { callBacks := [(none, some error)] }
  have hstep : ∀ s e s', s = start → Step outcome s e s' → s' = start := by
    intro s e s' hs step
    subst hs
    cases step with
    | answered pending => simp [start] at pending
    | notified queued => cases queued
  have hrun := run.invariant hstep rfl
  subst hrun
  exact ⟨fun h => absurd rfl h, ⟨[], _, .nil _, rfl, rfl⟩, fun _ => rfl⟩

/-- **The author join is exact for every order of the answers**, exactly if the path of every query
is valid. -/
theorem exact_iff (result : Except AppError (List ViewTweetModel)) :
    Exact loggedInUser outcome result ↔
      ∀ tweets, result = .ok tweets → Fetching.AuthorsValid loggedInUser tweets := by
  cases result with
  | error error => exact iff_of_true (exact_error error) nofun
  | ok tweets =>
    simp only [Except.ok.injEq, forall_eq']
    refine ⟨fun ⟨s, hbegin, _⟩ => ?_, exact_of_valid⟩
    by_contra h
    cases (begin_of_invalid h).symm.trans hbegin

/-- A tweet whose author cannot be the key of a record: the app stops. -/
theorem not_exact :
    ¬ ∀ (loggedInUser : Option UserModel) (outcome : ℕ × String → Option UserModel)
      (result : Except AppError (List ViewTweetModel)), Exact loggedInUser outcome result := by
  intro h
  obtain ⟨s, hbegin, -⟩ := h none (fun _ => none) (.ok [{ uid := "a.b" }])
  have hinvalid : begin none (.ok [{ uid := "a.b" }]) = .error .invalidPath :=
    begin_of_invalid (by decide)
  cases hinvalid.symm.trans hbegin

end AuthorJoin

end TwitterLite
