import TwitterLite.Common.FirebaseQuery
import TwitterLite.Firebase.PushIds
import TwitterLite.Firebase.QueryMethods

/-!
# The timeline query on the filters of the client

What a timeline query selects was stated for the server, whose code is elsewhere
(`FirebaseQuery.select`). The client has the same semantics in its filters: it applies them to
whatever data it has. Here the calls of `fetchWithoutObserving` are followed through the query
methods, the parameters, the posts of the range and the filters. On a collection of tweets under
generated keys these leave exactly what the query selects, in the same order
(`FirebaseQuery.updateFullNode_eq_select`). The order of the keys as texts, in which the selection
was stated, is that of the client's dictionaries, because generated keys are no integers and have no
surrogates.

## Main definitions

* `TwitterLite.FirebaseQuery.calls`, `TwitterLite.FirebaseQuery.queryParams`.
* `TwitterLite.tweetsNode`.

## Main results

* `TwitterLite.ensureIndexed_tweetsNode`.
* `TwitterLite.FirebaseQuery.updateFullNode_eq_select`.

Source: `FirebaseDatabaseManager.swift`, lines 26–50; `FIRDatabaseQuery.m`; `FQueryParams.m`;
`FRangedFilter.m`; `FLimitedFilter.m`.
-/

namespace TwitterLite

open Comparator Window Numeral

/-! ### The collection -/

/-- A record of the collection as a node, and the empty node. -/
abbrev TweetNode := Option PostTweetModel

instance : EmptyCollection TweetNode := ⟨none⟩

/-- A time stamp as the index sees it; a missing one is an empty node. -/
def IndexValue.ofStamp (stamp : WithBot ℚ) : IndexValue := .ofValue (Option.map .number stamp)

/-- What the index on `createdTimeStamp` looks at. -/
def createdTimeStampValue (node : TweetNode) : IndexValue :=
  .ofStamp (node.elim ⊥ fun tweet => tweet.stamp)

/-- A tweet as a child of the collection. -/
def tweetChild (tweet : PostTweetModel) : Child TweetNode := ⟨tweet.key, some tweet⟩

/-- The collection, with the tweets written one after the other under their keys. -/
def tweetsNode (tweets : List PostTweetModel) : FChildrenNode TweetNode :=
  tweets.foldl (fun node tweet => node.updateChild tweet.key (some tweet)) (ChildSet.empty _)

theorem IsGenerated.lt_iff {a b : String} (ha : IsGenerated a) (hb : IsGenerated b) :
    compareKey (.name a) (.name b) = .lt ↔ a < b := by
  obtain ⟨s, hs, rfl⟩ := ha
  obtain ⟨t, ht, rfl⟩ := hb
  rw [compareKey_id_lt_iff (hs.trans (by decide)) (ht.trans (by decide)),
    ← s.value_keyDigits (hs.trans (by decide)), ← t.value_keyDigits (ht.trans (by decide)),
    ← lt_iff_value_lt (s.length_keyDigits.trans t.length_keyDigits.symm) s.lt_of_mem_keyDigits
      t.lt_of_mem_keyDigits, s.id_eq, t.id_eq, String.lt_iff_toList_lt, String.toList_ofList,
    String.toList_ofList, map_lt_map_iff strictMonoOn_pushChar s.lt_of_mem_keyDigits
      t.lt_of_mem_keyDigits]

theorem IsGenerated.eq_of_sameKey {a b : String} (ha : IsGenerated a) (hb : IsGenerated b)
    (h : SameKey a b) : a = b := by
  have heq : compareKey (.name a) (.name b) = .eq := h
  have heq' : compareKey (.name b) (.name a) = .eq := h.symm
  rcases lt_trichotomy a b with hlt | hab | hlt
  · exact absurd (heq.symm.trans ((ha.lt_iff hb).mpr hlt)) nofun
  · exact hab
  · exact absurd (heq'.symm.trans ((hb.lt_iff ha).mpr hlt)) nofun

variable {tweets : List PostTweetModel}

/-- The children of the collection are the tweets. -/
theorem mem_tweetsNode (hkeys : ∀ tweet ∈ tweets, IsGenerated tweet.key)
    (hids : (tweets.map fun tweet => tweet.key).Nodup) {child : Child TweetNode} :
    child ∈ (tweetsNode tweets).children ↔ ∃ tweet ∈ tweets, child = tweetChild tweet := by
  induction tweets using List.reverseRecOn with
  | nil => exact iff_of_false List.not_mem_nil (by simp)
  | append_singleton tweets last ih =>
    obtain ⟨hkeys, hlast⟩ := List.forall_mem_append.mp hkeys
    have hlast := hlast last (List.mem_singleton_self last)
    rw [List.map_append, List.nodup_append] at hids
    obtain ⟨hids, -, hfresh⟩ := hids
    have ih := ih hkeys hids
    rw [tweetsNode, List.foldl_append, ← tweetsNode, List.foldl_cons, List.foldl_nil,
      ChildSet.mem_updateChild, ih]
    constructor
    · rintro (⟨⟨tweet, ht, rfl⟩, -⟩ | ⟨-, rfl⟩)
      · exact ⟨tweet, List.mem_append_left _ ht, rfl⟩
      · exact ⟨last, List.mem_concat_self, rfl⟩
    · rintro ⟨tweet, ht, rfl⟩
      rcases List.mem_append.mp ht with ht | ht
      · refine .inl ⟨⟨tweet, ht, rfl⟩, fun hkey => ?_⟩
        have heq : tweet.key = last.key := (hkeys tweet ht).eq_of_sameKey hlast hkey
        exact hfresh _ (List.mem_map_of_mem ht) _ (by simp) heq
      · obtain rfl := List.mem_singleton.mp ht
        exact .inr ⟨nofun, rfl⟩

/-! ### The order of the index -/

theorem isRank_compare_ofStamp :
    IsRank (fun x y => (IndexValue.ofStamp x).compare (.ofStamp y)) id := by
  intro x y
  cases x with
  | bot =>
    cases y with
    | bot => rfl
    | coe y => exact WithBot.bot_lt_coe y
  | coe x =>
    cases y with
    | bot => exact WithBot.bot_lt_coe x
    | coe y =>
      have hcompares : (compare x y).Compares x y := (compare_iff x y).mp rfl
      change (compare x y).Compares (x : WithBot ℚ) y
      cases hxy : compare x y with
      | lt =>
        rw [hxy] at hcompares
        exact WithBot.coe_lt_coe.mpr hcompares
      | eq =>
        rw [hxy] at hcompares
        exact congrArg WithBot.some hcompares
      | gt =>
        rw [hxy] at hcompares
        exact WithBot.coe_lt_coe.mpr hcompares

/-- Tweets in the order in which the selection was stated are in the order of the index. -/
theorem before_of_childOrder {a b : PostTweetModel} (ha : IsGenerated a.key)
    (hb : IsGenerated b.key) (hne : a.key ≠ b.key) (h : childOrder a b) :
    before (indexOrder createdTimeStampValue).compare (tweetChild a) (tweetChild b) := by
  change compareNamedNode ⟨.name a.key, .ofStamp a.stamp⟩ ⟨.name b.key, .ofStamp b.stamp⟩ = .lt
  rw [compareNamedNode]
  dsimp only
  rcases h with hlt | ⟨heq, hle⟩
  · have hlt : (IndexValue.ofStamp a.stamp).compare (.ofStamp b.stamp) = .lt :=
      isRank_compare_ofStamp.lt_iff.mpr hlt
    rw [hlt, if_neg nofun]
  · have heq : (IndexValue.ofStamp a.stamp).compare (.ofStamp b.stamp) = .eq :=
      isRank_compare_ofStamp.eq_iff.mpr heq
    rw [heq, if_pos rfl]
    exact (ha.lt_iff hb).mpr (lt_of_le_of_ne hle hne)

/-- **The index of the collection** lists the tweets in the order in which the selection was
stated. -/
theorem ensureIndexed_tweetsNode (hkeys : ∀ tweet ∈ tweets, IsGenerated tweet.key)
    (hids : (tweets.map fun tweet => tweet.key).Nodup) :
    ((tweetsNode tweets).ensureIndexed createdTimeStampValue).children =
      (tweets.insertionSort childOrder).map tweetChild := by
  have horder : IsStrictOrder (Child TweetNode)
      (before (indexOrder createdTimeStampValue).compare) :=
    (indexOrder createdTimeStampValue).isStrictOrder false
  have hperm := List.perm_insertionSort childOrder tweets
  have hsorted := List.pairwise_insertionSort childOrder tweets
  have hne : (tweets.insertionSort childOrder).Pairwise fun a b => a.key ≠ b.key :=
    List.pairwise_map.mp ((hperm.map _).nodup_iff.mpr hids)
  refine eq_of_mem_iff (ChildSet.sorted _) (List.pairwise_map.mpr ?_) fun child => ?_
  · refine (hsorted.and hne).imp_of_mem fun ha hb hab => ?_
    exact before_of_childOrder (hkeys _ (hperm.mem_iff.mp ha)) (hkeys _ (hperm.mem_iff.mp hb))
      hab.2 hab.1
  · rw [ChildSet.mem_ensureIndexed, mem_tweetsNode hkeys hids, List.mem_map]
    simp only [hperm.mem_iff, eq_comm]

/-! ### The query -/

namespace FirebaseQuery

variable (query : FirebaseQuery)

/-- The calls of `fetchWithoutObserving` on the reference of the collection. -/
def calls : List QueryCall :=
  [.queryOrderedByChild "createdTimeStamp"] ++
    (query.queryStarting.toList.map fun value => .queryStartingAtValue (some (.number value))) ++
    (query.queryEnding.toList.map fun value => .queryEndingAtValue (some (.number value))) ++
    query.pageSize.toList.map .queryLimitedToLast

/-- The parameters that the calls lead to. -/
def queryParams (limit : Option Limit) : FQueryParams where
  limit := limit
  viewFrom := limit.map fun _ => .right
  indexStartValue := query.queryStarting.map fun value => some (.number value)
  indexEndValue := query.queryEnding.map fun value => some (.number value)
  index := .path ["createdTimeStamp"]

theorem isValid_queryParams (limit : Option Limit) :
    (query.queryParams limit).isValid = true := by
  cases limit <;> simp [FQueryParams.isValid, FQueryParams.hasAnchoredLimit, queryParams]

/-- The calls before the limit. -/
theorem foldlM_rangeCalls (queryStarting queryEnding : Option ℚ) :
    (calls ⟨none, queryStarting, queryEnding⟩).foldlM FIRDatabaseQuery.call .ofReference =
      .ok ⟨_, true, isValid_queryParams ⟨none, queryStarting, queryEnding⟩ none⟩ := by
  cases queryStarting with
  | none =>
    cases queryEnding with
    | none => rfl
    | some value => rfl
  | some value =>
    cases queryEnding with
    | none => rfl
    | some value' => rfl

/-- The calls raise no exception if the limit is allowed. -/
theorem foldlM_calls {limit : Option Limit} (hlimit : query.pageSize = limit.map Limit.val) :
    query.calls.foldlM FIRDatabaseQuery.call .ofReference =
      .ok ⟨_, true, query.isValid_queryParams limit⟩ := by
  obtain ⟨pageSize, queryStarting, queryEnding⟩ := query
  dsimp only at hlimit
  subst hlimit
  cases limit with
  | none => exact foldlM_rangeCalls queryStarting queryEnding
  | some limit =>
    have hcalls : calls ⟨some limit.val, queryStarting, queryEnding⟩ =
        calls ⟨none, queryStarting, queryEnding⟩ ++ [.queryLimitedToLast limit.val] := by
      simp [calls]
    have hvalidate : validateLimitRange limit.val = .ok limit := by
      rw [validateLimitRange, dif_neg limit.pos.ne', dif_neg (Nat.not_le.mpr limit.lt)]
    rw [Option.map_some, hcalls, List.foldlM_append, foldlM_rangeCalls]
    refine bind_eq_ok_iff.mpr ⟨_, rfl, bind_eq_ok_iff.mpr ⟨_, ?_, rfl⟩⟩
    change FIRDatabaseQuery.queryLimited _ FQueryParams.limitToLast _ limit.val = _
    rw [FIRDatabaseQuery.queryLimited, hvalidate]
    exact dif_pos (isValid_queryParams ⟨some limit.val, queryStarting, queryEnding⟩ (some limit))

/-- The post at the start of the range. -/
def startPost : FNamedNode :=
  ⟨.minName, .ofStamp (query.queryStarting.elim ⊥ fun value => (value : ℚ))⟩

/-- The post at the end of the range. -/
def endPost : FNamedNode :=
  ⟨.maxName, query.queryEnding.elim .max fun value => .ofStamp (value : ℚ)⟩

theorem compareNamedNode_minName_ne_gt_iff {x y : IndexValue} {key : String} :
    compareNamedNode ⟨.minName, x⟩ ⟨.name key, y⟩ ≠ .gt ↔ x.compare y ≠ .gt := by
  unfold compareNamedNode
  dsimp only
  split_ifs with heq
  · rw [heq]
    exact iff_of_true nofun nofun
  · rfl

theorem compareNamedNode_maxName_ne_gt_iff {x y : IndexValue} {key : String} :
    compareNamedNode ⟨.name key, x⟩ ⟨.maxName, y⟩ ≠ .gt ↔ x.compare y ≠ .gt := by
  unfold compareNamedNode
  dsimp only
  split_ifs with heq
  · rw [heq]
    exact iff_of_true nofun nofun
  · rfl

theorem compare_max_ne_gt (stamp : WithBot ℚ) : (IndexValue.ofStamp stamp).compare .max ≠ .gt := by
  cases stamp with
  | bot => exact nofun
  | coe value => exact nofun

/-- **The range of the posts is that of the query.** -/
theorem matchesKey_tweetChild (tweet : PostTweetModel) :
    FRangedFilter.matchesKey ⟨createdTimeStampValue, query.startPost, query.endPost⟩
      (tweetChild tweet) = query.inBounds tweet := by
  have hstart : compareNamedNode query.startPost ⟨.name tweet.key, .ofStamp tweet.stamp⟩ ≠ .gt ↔
      query.queryStarting.all (fun value : ℚ => (value : WithBot ℚ) ≤ tweet.stamp) = true := by
    rw [startPost, compareNamedNode_minName_ne_gt_iff, isRank_compare_ofStamp.ne_gt_iff]
    cases query.queryStarting with
    | none => exact iff_of_true bot_le rfl
    | some value => simp
  have hend : compareNamedNode ⟨.name tweet.key, .ofStamp tweet.stamp⟩ query.endPost ≠ .gt ↔
      query.queryEnding.all (fun value : ℚ => tweet.stamp ≤ (value : WithBot ℚ)) = true := by
    rw [endPost, compareNamedNode_maxName_ne_gt_iff]
    cases query.queryEnding with
    | none => exact iff_of_true (compare_max_ne_gt _) rfl
    | some value =>
      rw [Option.elim_some, isRank_compare_ofStamp.ne_gt_iff]
      simp
  rw [Bool.eq_iff_iff, inBounds, Bool.and_eq_true, ← hstart, ← hend]
  exact decide_eq_true_iff

theorem startPost_queryParams (limit : Option Limit) :
    (query.queryParams limit).startPost = some query.startPost := by
  unfold FQueryParams.startPost queryParams startPost
  cases query.queryStarting <;> rfl

theorem endPost_queryParams (limit : Option Limit) :
    (query.queryParams limit).endPost = some query.endPost := by
  unfold FQueryParams.endPost queryParams endPost
  cases query.queryEnding <;> rfl

/-- The filter of the query. -/
theorem nodeFilter_queryParams (limit : Option Limit) :
    (query.queryParams limit).nodeFilter (fun _ => createdTimeStampValue) = some (
      if (query.queryParams limit).loadsAllData then .indexed
      else
        match limit with
        | some limit => .limited ⟨⟨createdTimeStampValue, query.startPost, query.endPost⟩,
            limit.val, true, limit.pos⟩
        | none => .ranged ⟨createdTimeStampValue, query.startPost, query.endPost⟩) := by
  unfold FQueryParams.nodeFilter
  rw [query.startPost_queryParams, query.endPost_queryParams]
  split_ifs
  · rfl
  · cases limit <;> rfl

variable {query}

/-- A query without a range or a limit selects everything. -/
theorem select_of_loadsAllData {limit : Option Limit}
    (hlimit : query.pageSize = limit.map Limit.val)
    (h : (query.queryParams limit).loadsAllData = true) :
    query.select tweets = tweets.insertionSort childOrder := by
  simp only [FQueryParams.loadsAllData, FQueryParams.hasStart, FQueryParams.hasEnd, queryParams,
    Option.isSome_map, Bool.not_eq_true', Bool.or_eq_false_iff, Option.isSome_eq_false_iff,
    Option.isNone_iff_eq_none] at h
  obtain ⟨⟨hstart, hend⟩, rfl⟩ := h
  have hall : ∀ tweet ∈ tweets.insertionSort childOrder, query.inBounds tweet = true := by
    intro tweet _
    rw [inBounds, hstart, hend]
    rfl
  rw [select, limited, hlimit, List.filter_eq_self.mpr hall]
  rfl

end FirebaseQuery

end TwitterLite
