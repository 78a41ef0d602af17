import TwitterLite.Firebase.QueryParams

/-!
# The methods of a query

The methods of a query derive a new query from it, or raise an exception for a combination of
parameters that is not allowed (`FIRDatabaseQuery.call`).

Not all parameters can be filtered by: the posts at the ends of a range on the key index need keys
that are strings. The checks of the methods rule the others out, though no check looks at all of
it: ordering by the priority checks nothing, because the ends of the range were checked for that
index before, when it was the default one. Every query that a sequence of calls leads to is
filterable (`FIRDatabaseQuery.exists_nodeFilter`), and its parameters come back from the dictionary
as they are (`FIRDatabaseQuery.fromQueryObject_wireProtocolParams`).

## Main definitions

* `TwitterLite.FIRDatabaseQuery`, `TwitterLite.FIRDatabaseQuery.call`.
* `TwitterLite.FIRDatabaseQuery.WellFormed`.

## Main results

* `TwitterLite.FIRDatabaseQuery.called_of_call`.
* `TwitterLite.FIRDatabaseQuery.exists_nodeFilter`.
* `TwitterLite.FIRDatabaseQuery.fromQueryObject_wireProtocolParams`.

Source: `FIRDatabaseQuery.m`, lines 60–490; `FValidation.m`, lines 71–131 and 345–400.
-/

namespace TwitterLite

/-! ### The methods of a query -/

/-- `NSException.raise` under a condition. -/
def raiseIf (condition : Bool) (text : String) : Except String Unit :=
  if condition then .error text else .ok ()

theorem raiseIf_eq_ok_iff {condition : Bool} {text : String} {u : Unit} :
    raiseIf condition text = .ok u ↔ condition = false := by
  cases condition with
  | false => exact iff_of_true rfl rfl
  | true => exact iff_of_false nofun nofun

/-- `FValidation.validateFrom:validKey:`, for a key that is given. -/
def validateKey (fn : String) (childKey : Option String) : Except String Unit :=
  raiseIf (childKey.any fun key => !isValidKey key)
    ("(" ++ fn ++ ") Must be a non-empty string and not contain '/' '.' '#' '$' '[' or ']'")

/-- The value is a string. -/
def isStringValue (value : Option Leaf) : Bool :=
  match value with
  | some (.string _) => true
  | _ => false

/-- `FValidation.validatePriorityValue:` of a leaf or an empty node. -/
def validatePriorityValue (value : Option Leaf) : Bool :=
  match value with
  | some (.bool _) => false
  | _ => true

/-- `validateQueryEndpointsForParams:`. -/
def validateQueryEndpointsForParams (params : FQueryParams) : Except String Unit :=
  match params.index with
  | .key => do
    raiseIf (params.hasStart && params.indexStartKey.isSome)
      ("Can't use queryStartingAtValue:childKey:, queryStartingAfterValue:childKey:, or " ++
        "queryEqualTo:andChildKey: in combination with queryOrderedByKey")
    raiseIf (params.indexStartValue.any fun value => !isStringValue value)
      ("Can't use queryStartingAtValue: or queryStartingAfterValue: with non-string types when " ++
        "used with queryOrderedByKey")
    raiseIf (params.hasEnd && params.indexEndKey.isSome)
      ("Can't use queryEndingAtValue:childKey: or queryEndingBeforeValue:childKey: " ++
        "queryEqualToValue:childKey: in combination with queryOrderedByKey")
    raiseIf (params.indexEndValue.any fun value => !isStringValue value)
      ("Can't use queryEndingAtValue: or queryEndingBeforeValue: with other types than string " ++
        "in combination with queryOrderedByKey")
  | .priority =>
    raiseIf ((params.indexStartValue.any fun value => !validatePriorityValue value) ||
        params.indexEndValue.any fun value => !validatePriorityValue value)
      ("When using queryOrderedByPriority, values provided to queryStartingAtValue:, " ++
        "queryStartingAfterValue:, queryEndingAtValue:, queryEndingBeforeValue:, or " ++
        "queryEqualToValue: must be valid priorities.")
  | _ => .ok ()

/-- `validateLimitRange:`. -/
def validateLimitRange (limit : ℕ) : Except String Limit :=
  if hzero : limit = 0 then .error "Limit can't be zero"
  else if hlarge : 2 ^ 31 ≤ limit then .error "Limit must be less than 2,147,483,648"
  else .ok ⟨limit, Nat.pos_of_ne_zero hzero, Nat.lt_of_not_le hlarge⟩

/-- `FIRDatabaseQuery`: valid parameters, and whether an order was chosen. -/
structure FIRDatabaseQuery where
  queryParams : FQueryParams
  orderByCalled : Bool
  valid : queryParams.isValid = true

/-- The calls of the methods of a query. -/
inductive QueryCall where
  | queryOrderedByChild (indexPathString : String)
  | queryOrderedByKey
  | queryOrderedByValue
  | queryOrderedByPriority
  | queryStartingAtValue (startValue : Option Leaf)
  | queryStartingAtValueChildKey (startValue : Option Leaf) (childKey : Option String)
  | queryEndingAtValue (endValue : Option Leaf)
  | queryEndingAtValueChildKey (endValue : Option Leaf) (childKey : Option String)
  | queryEqualToValue (value : Option Leaf)
  | queryEqualToValueChildKey (value : Option Leaf) (childKey : Option String)
  | queryLimitedToFirst (limit : ℕ)
  | queryLimitedToLast (limit : ℕ)
  deriving DecidableEq, Repr

namespace FIRDatabaseQuery

/-- `initWithRepo:path:params:orderByCalled:`. -/
def initWithParams (params : FQueryParams) (orderByCalled : Bool) :
    Except String FIRDatabaseQuery :=
  if valid : params.isValid = true then .ok ⟨params, orderByCalled, valid⟩
  else .error "Queries are limited to two constraints"

/-- A reference: the query with the default parameters. -/
def ofReference : FIRDatabaseQuery := ⟨{}, false, rfl⟩

variable (query : FIRDatabaseQuery)

/-- The checks of the names that other orders have. -/
def validateIndexPathString (indexPathString : String) : Except String Unit := do
  let invalid (method : String) : String :=
    "(queryOrderedByChild:) " ++ indexPathString ++ " is invalid.  Use " ++ method ++ " instead."
  raiseIf (indexPathString == "$key" || indexPathString == ".key") (invalid "queryOrderedByKey:")
  raiseIf (indexPathString == "$priority" || indexPathString == ".priority")
    (invalid "queryOrderedByPriority:")
  raiseIf (indexPathString == "$value" || indexPathString == ".value")
    (invalid "queryOrderedByValue:")

/-- `validateNoPreviousOrderByCalled`. -/
def validateNoPreviousOrderByCalled : Except String Unit :=
  raiseIf query.orderByCalled "Cannot use multiple queryOrderedBy calls!"

/-- `queryOrderedByChild:`. -/
def queryOrderedByChild (indexPathString : String) : Except String FIRDatabaseQuery := do
  validateIndexPathString indexPathString
  query.validateNoPreviousOrderByCalled
  raiseIf (!isValidPathString indexPathString)
    ("(queryOrderedByChild:) Must be a non-empty string and not contain '.' '#' '$' '[' or ']'")
  let indexPath := pathPieces indexPathString
  raiseIf indexPath.isEmpty
    ("(queryOrderedByChild:) with an empty path is invalid.  Use queryOrderedByValue: instead.")
  let index ← FIndex.initWithPath indexPath
  let params := query.queryParams.orderBy index
  validateQueryEndpointsForParams params
  initWithParams params true

/-- `queryOrderedByKey`. -/
def queryOrderedByKey : Except String FIRDatabaseQuery := do
  query.validateNoPreviousOrderByCalled
  let params := query.queryParams.orderBy .key
  validateQueryEndpointsForParams params
  initWithParams params true

/-- `queryOrderedByValue` and `queryOrderedByPriority`, which do not check the ends of the range. -/
def queryOrderedByUnchecked (index : FIndex) : Except String FIRDatabaseQuery := do
  query.validateNoPreviousOrderByCalled
  initWithParams (query.queryParams.orderBy index) true

/-- `queryStartingAtInternal:childKey:from:priorityMethod:`. -/
def queryStartingAtInternal (startValue : Option Leaf) (childKey : Option String)
    (methodName : String) : Except String FIRDatabaseQuery := do
  raiseIf query.queryParams.hasStart ("Can't call " ++ methodName ++ " after " ++
    "queryStartingAtValue, queryStartingAfterValue, or queryEqualToValue was previously called")
  let params := query.queryParams.startAt startValue childKey
  validateQueryEndpointsForParams params
  initWithParams params query.orderByCalled

/-- `queryEndingAtInternal:childKey:from:priorityMethod:`. -/
def queryEndingAtInternal (endValue : Option Leaf) (childKey : Option String)
    (methodName : String) : Except String FIRDatabaseQuery := do
  raiseIf query.queryParams.hasEnd ("Can't call " ++ methodName ++ " after " ++
    "queryEndingAtValue or queryEqualToValue was previously called")
  let params := query.queryParams.endAt endValue childKey
  validateQueryEndpointsForParams params
  initWithParams params query.orderByCalled

/-- `queryEqualToInternal:childKey:from:priorityMethod:`. -/
def queryEqualToInternal (value : Option Leaf) (childKey : Option String)
    (methodName : String) : Except String FIRDatabaseQuery := do
  validateKey methodName childKey
  raiseIf (query.queryParams.hasEnd || query.queryParams.hasStart) ("Can't call " ++ methodName ++
    " after queryStartingAtValue, queryStartingAfterValue, queryEndingAtValue, " ++
    "queryEndingBeforeValue or queryEqualToValue was previously called")
  let params := (query.queryParams.startAt value childKey).endAt value childKey
  validateQueryEndpointsForParams params
  initWithParams params query.orderByCalled

/-- The check with which the methods that take a child key begin. -/
def validateNotKeyIndex (text : String) : Except String Unit :=
  raiseIf (query.queryParams.index == .key) text

/-- `queryLimitedToFirst:` and `queryLimitedToLast:`. -/
def queryLimited (limitTo : FQueryParams → Limit → FQueryParams) (methodName : String)
    (limit : ℕ) : Except String FIRDatabaseQuery := do
  raiseIf query.queryParams.limit.isSome
    ("Can't call " ++ methodName ++ " if a limit was previously set")
  let limit ← validateLimitRange limit
  initWithParams (limitTo query.queryParams limit) query.orderByCalled

/-- A call of a method. -/
def call (query : FIRDatabaseQuery) : QueryCall → Except String FIRDatabaseQuery
  | .queryOrderedByChild indexPathString => query.queryOrderedByChild indexPathString
  | .queryOrderedByKey => query.queryOrderedByKey
  | .queryOrderedByValue => query.queryOrderedByUnchecked .value
  | .queryOrderedByPriority => query.queryOrderedByUnchecked .priority
  | .queryStartingAtValue startValue =>
    query.queryStartingAtInternal startValue none "queryStartingAtValue:"
  | .queryStartingAtValueChildKey startValue childKey => do
    query.validateNotKeyIndex ("You must use queryStartingAtValue: instead of " ++
      "queryStartingAtValue:childKey: when using queryOrderedByKey:")
    validateKey "queryStartingAtValue:childKey:" childKey
    query.queryStartingAtInternal startValue childKey "queryStartingAtValue:childKey:"
  | .queryEndingAtValue endValue =>
    query.queryEndingAtInternal endValue none "queryEndingAtValue:"
  | .queryEndingAtValueChildKey endValue childKey => do
    query.validateNotKeyIndex ("You must use queryEndingAtValue: instead of " ++
      "queryEndingAtValue:childKey: when using queryOrderedByKey:")
    validateKey "queryEndingAtValue:childKey:" childKey
    query.queryEndingAtInternal endValue childKey "queryEndingAtValue:childKey:"
  | .queryEqualToValue value => query.queryEqualToInternal value none "queryEqualToValue:"
  | .queryEqualToValueChildKey value childKey => do
    query.validateNotKeyIndex ("You must use queryEqualToValue: instead of " ++
      "queryEqualTo:childKey: when using queryOrderedByKey:")
    query.queryEqualToInternal value childKey "queryEqualToValue:childKey:"
  | .queryLimitedToFirst limit =>
    query.queryLimited FQueryParams.limitToFirst "queryLimitedToFirst:" limit
  | .queryLimitedToLast limit =>
    query.queryLimited FQueryParams.limitToLast "queryLimitedToLast:" limit

end FIRDatabaseQuery

/-! ### What a call does -/

namespace FIRDatabaseQuery

variable {query query' : FIRDatabaseQuery}

theorem initWithParams_spec {params : FQueryParams} {orderByCalled : Bool}
    (h : initWithParams params orderByCalled = .ok query) :
    query.queryParams = params ∧ query.orderByCalled = orderByCalled := by
  unfold initWithParams at h
  split_ifs at h with hvalid
  cases h
  exact ⟨rfl, rfl⟩

/-- A call that succeeds orders a query that has no order, or sets ends of the range and checks
them, or sets a limit. -/
inductive Called (query query' : FIRDatabaseQuery) : Prop where
  | ordered (index : FIndex) (fresh : query.orderByCalled = false)
      (orderByCalled : query'.orderByCalled = true)
      (params : query'.queryParams = query.queryParams.orderBy index)
      (path : ∀ pieces, index = .path pieces → IsIndexPath pieces)
      (checked : validateQueryEndpointsForParams query'.queryParams = .ok () ∨
        index = .value ∨ index = .priority)
  | ranged (orderByCalled : query'.orderByCalled = query.orderByCalled)
      (checked : validateQueryEndpointsForParams query'.queryParams = .ok ())
      (params : ∃ value key, query'.queryParams = query.queryParams.startAt value key ∨
        query'.queryParams = query.queryParams.endAt value key ∨
        query'.queryParams = (query.queryParams.startAt value key).endAt value key)
  | limited (orderByCalled : query'.orderByCalled = query.orderByCalled)
      (params : ∃ limit, query'.queryParams = query.queryParams.limitToFirst limit ∨
        query'.queryParams = query.queryParams.limitToLast limit)

theorem called_queryOrderedByChild {indexPathString : String}
    (h : query.queryOrderedByChild indexPathString = .ok query') : Called query query' := by
  simp only [queryOrderedByChild, validateNoPreviousOrderByCalled, bind_eq_ok_iff,
    raiseIf_eq_ok_iff] at h
  obtain ⟨-, -, -, hfresh, -, hvalid, -, hne, index, hindex, _, hchecked, hinit⟩ := h
  obtain ⟨hparams, hcalled⟩ := initWithParams_spec hinit
  have hpath : IsIndexPath (pathPieces indexPathString) :=
    isIndexPath_pathPieces (by simpa using hvalid) (by simpa using hne)
  rw [hpath.initWithPath_eq] at hindex
  cases hindex
  refine .ordered _ hfresh hcalled hparams ?_ (.inl (hparams ▸ hchecked))
  rintro pieces ⟨⟩
  exact hpath

theorem called_queryOrderedByKey (h : query.queryOrderedByKey = .ok query') :
    Called query query' := by
  simp only [queryOrderedByKey, validateNoPreviousOrderByCalled, bind_eq_ok_iff,
    raiseIf_eq_ok_iff] at h
  obtain ⟨-, hfresh, _, hchecked, hinit⟩ := h
  obtain ⟨hparams, hcalled⟩ := initWithParams_spec hinit
  exact .ordered .key hfresh hcalled hparams nofun (.inl (hparams ▸ hchecked))

theorem called_queryOrderedByUnchecked {index : FIndex}
    (hindex : index = .value ∨ index = .priority)
    (h : query.queryOrderedByUnchecked index = .ok query') : Called query query' := by
  simp only [queryOrderedByUnchecked, validateNoPreviousOrderByCalled, bind_eq_ok_iff,
    raiseIf_eq_ok_iff] at h
  obtain ⟨-, hfresh, hinit⟩ := h
  obtain ⟨hparams, hcalled⟩ := initWithParams_spec hinit
  refine .ordered index hfresh hcalled hparams ?_ (.inr hindex)
  rintro pieces rfl
  rcases hindex with hindex | hindex <;> exact absurd hindex nofun

theorem called_queryStartingAtInternal {startValue : Option Leaf} {childKey : Option String}
    {methodName : String}
    (h : query.queryStartingAtInternal startValue childKey methodName = .ok query') :
    Called query query' := by
  simp only [queryStartingAtInternal, bind_eq_ok_iff] at h
  obtain ⟨-, -, _, hchecked, hinit⟩ := h
  obtain ⟨hparams, hcalled⟩ := initWithParams_spec hinit
  exact .ranged hcalled (hparams ▸ hchecked) ⟨startValue, childKey, .inl hparams⟩

theorem called_queryEndingAtInternal {endValue : Option Leaf} {childKey : Option String}
    {methodName : String}
    (h : query.queryEndingAtInternal endValue childKey methodName = .ok query') :
    Called query query' := by
  simp only [queryEndingAtInternal, bind_eq_ok_iff] at h
  obtain ⟨-, -, _, hchecked, hinit⟩ := h
  obtain ⟨hparams, hcalled⟩ := initWithParams_spec hinit
  exact .ranged hcalled (hparams ▸ hchecked) ⟨endValue, childKey, .inr (.inl hparams)⟩

theorem called_queryEqualToInternal {value : Option Leaf} {childKey : Option String}
    {methodName : String}
    (h : query.queryEqualToInternal value childKey methodName = .ok query') :
    Called query query' := by
  simp only [queryEqualToInternal, bind_eq_ok_iff] at h
  obtain ⟨-, -, -, -, _, hchecked, hinit⟩ := h
  obtain ⟨hparams, hcalled⟩ := initWithParams_spec hinit
  exact .ranged hcalled (hparams ▸ hchecked) ⟨value, childKey, .inr (.inr hparams)⟩

theorem called_queryLimited {limitTo : FQueryParams → Limit → FQueryParams} {methodName : String}
    {limit : ℕ} (hlimit : limitTo = FQueryParams.limitToFirst ∨ limitTo = FQueryParams.limitToLast)
    (h : query.queryLimited limitTo methodName limit = .ok query') : Called query query' := by
  simp only [queryLimited, bind_eq_ok_iff] at h
  obtain ⟨-, -, limit, -, hinit⟩ := h
  obtain ⟨hparams, hcalled⟩ := initWithParams_spec hinit
  refine .limited hcalled ⟨limit, ?_⟩
  rcases hlimit with rfl | rfl
  · exact .inl hparams
  · exact .inr hparams

/-- **What a call does.** -/
theorem called_of_call {call : QueryCall} (h : query.call call = .ok query') :
    Called query query' := by
  cases call with
  | queryOrderedByChild indexPathString => exact called_queryOrderedByChild h
  | queryOrderedByKey => exact called_queryOrderedByKey h
  | queryOrderedByValue => exact called_queryOrderedByUnchecked (.inl rfl) h
  | queryOrderedByPriority => exact called_queryOrderedByUnchecked (.inr rfl) h
  | queryStartingAtValue startValue => exact called_queryStartingAtInternal h
  | queryStartingAtValueChildKey startValue childKey =>
    simp only [FIRDatabaseQuery.call, bind_eq_ok_iff] at h
    obtain ⟨-, -, -, -, h⟩ := h
    exact called_queryStartingAtInternal h
  | queryEndingAtValue endValue => exact called_queryEndingAtInternal h
  | queryEndingAtValueChildKey endValue childKey =>
    simp only [FIRDatabaseQuery.call, bind_eq_ok_iff] at h
    obtain ⟨-, -, -, -, h⟩ := h
    exact called_queryEndingAtInternal h
  | queryEqualToValue value => exact called_queryEqualToInternal h
  | queryEqualToValueChildKey value childKey =>
    simp only [FIRDatabaseQuery.call, bind_eq_ok_iff] at h
    obtain ⟨-, -, h⟩ := h
    exact called_queryEqualToInternal h
  | queryLimitedToFirst limit => exact called_queryLimited (.inl rfl) h
  | queryLimitedToLast limit => exact called_queryLimited (.inr rfl) h

/-! ### Every sequence of calls -/

/-- What holds of a query that the methods lead to. -/
structure WellFormed (query : FIRDatabaseQuery) : Prop where
  default_index : query.orderByCalled = false → query.queryParams.index = .priority
  path : ∀ pieces, query.queryParams.index = .path pieces → IsIndexPath pieces
  checked : validateQueryEndpointsForParams query.queryParams = .ok ()
  startKey : query.queryParams.indexStartValue = none → query.queryParams.indexStartKey = none
  endKey : query.queryParams.indexEndValue = none → query.queryParams.indexEndKey = none
  viewFrom : query.queryParams.viewFrom.isSome = query.queryParams.limit.isSome

theorem wellFormed_ofReference : ofReference.WellFormed where
  default_index _ := rfl
  path := nofun
  checked := rfl
  startKey _ := rfl
  endKey _ := rfl
  viewFrom := rfl

/-- **A call keeps a query well formed.** -/
theorem WellFormed.call (h : query.WellFormed) {call : QueryCall}
    (hcall : query.call call = .ok query') : query'.WellFormed := by
  cases called_of_call hcall with
  | ordered index fresh orderByCalled params path checked =>
    refine ⟨fun hfresh => ?_, fun pieces hpieces => ?_, ?_, ?_, ?_, ?_⟩
    · exact absurd (orderByCalled.symm.trans hfresh) nofun
    · rw [params] at hpieces
      exact path pieces hpieces
    · rcases checked with hchecked | rfl | rfl
      · exact hchecked
      · rw [params]
        rfl
      · -- without a previous order the ends were checked for the priority
        have hsame : query.queryParams.orderBy .priority = query.queryParams := by
          rw [FQueryParams.orderBy, ← h.default_index fresh]
        rw [params, hsame]
        exact h.checked
    · rw [params]
      exact h.startKey
    · rw [params]
      exact h.endKey
    · rw [params]
      exact h.viewFrom
  | ranged orderByCalled checked params =>
    obtain ⟨value, key, hparams⟩ := params
    refine ⟨fun hfresh => ?_, fun pieces hpieces => ?_, checked, ?_, ?_, ?_⟩
    · have hindex := h.default_index (orderByCalled.symm.trans hfresh)
      rcases hparams with hparams | hparams | hparams <;> rw [hparams] <;> exact hindex
    · refine h.path pieces (Eq.trans ?_ hpieces)
      rcases hparams with hparams | hparams | hparams <;> rw [hparams] <;> rfl
    · rcases hparams with hparams | hparams | hparams <;> rw [hparams]
      · exact nofun
      · exact h.startKey
      · exact nofun
    · rcases hparams with hparams | hparams | hparams <;> rw [hparams]
      · exact h.endKey
      · exact nofun
      · exact nofun
    · rcases hparams with hparams | hparams | hparams <;> rw [hparams] <;> exact h.viewFrom
  | limited orderByCalled params =>
    obtain ⟨limit, hparams⟩ := params
    have hchecked : validateQueryEndpointsForParams query'.queryParams =
        validateQueryEndpointsForParams query.queryParams := by
      rcases hparams with hparams | hparams <;> rw [hparams] <;> rfl
    refine ⟨fun hfresh => ?_, fun pieces hpieces => ?_, hchecked.trans h.checked, ?_, ?_, ?_⟩
    · have hindex := h.default_index (orderByCalled.symm.trans hfresh)
      rcases hparams with hparams | hparams <;> rw [hparams] <;> exact hindex
    · refine h.path pieces (Eq.trans ?_ hpieces)
      rcases hparams with hparams | hparams <;> rw [hparams] <;> rfl
    · rcases hparams with hparams | hparams <;> rw [hparams] <;> exact h.startKey
    · rcases hparams with hparams | hparams <;> rw [hparams] <;> exact h.endKey
    · rcases hparams with hparams | hparams <;> rw [hparams] <;> rfl

theorem WellFormed.calls (h : query.WellFormed) {calls : List QueryCall}
    (hcalls : calls.foldlM FIRDatabaseQuery.call query = .ok query') : query'.WellFormed := by
  induction calls generalizing query with
  | nil =>
    cases hcalls
    exact h
  | cons call calls ih =>
    rw [List.foldlM_cons, bind_eq_ok_iff] at hcalls
    obtain ⟨next, hcall, hcalls⟩ := hcalls
    exact ih (h.call hcall) hcalls

theorem exists_makePost {index : FIndex} {value : Option Leaf} {name : FKey}
    (h : index = .key → isStringValue value = true) :
    ∃ post, index.makePost value name = some post := by
  cases index with
  | key =>
    have hstring := h rfl
    cases value with
    | none => exact absurd hstring (by decide)
    | some leaf =>
      cases leaf with
      | string text => exact ⟨_, rfl⟩
      | number => exact absurd hstring (Bool.eq_false_iff.mp rfl)
      | bool => exact absurd hstring (Bool.eq_false_iff.mp rfl)
  | value => exact ⟨_, rfl⟩
  | priority => exact ⟨_, rfl⟩
  | path => exact ⟨_, rfl⟩

/-- On the key index both ends of the range are strings. -/
theorem WellFormed.isStringValue (h : query.WellFormed) (hkey : query.queryParams.index = .key) :
    (∀ value ∈ query.queryParams.indexStartValue, isStringValue value = true) ∧
      ∀ value ∈ query.queryParams.indexEndValue, isStringValue value = true := by
  have hchecked := h.checked
  simp only [validateQueryEndpointsForParams, hkey, bind_eq_ok_iff, raiseIf_eq_ok_iff] at hchecked
  obtain ⟨-, -, -, hstart, -, -, hend⟩ := hchecked
  rw [Option.any_eq_false] at hstart hend
  exact ⟨fun value hvalue => by simpa using hstart value hvalue,
    fun value hvalue => by simpa using hend value hvalue⟩

theorem WellFormed.exists_startPost (h : query.WellFormed) :
    ∃ post, query.queryParams.startPost = some post := by
  unfold FQueryParams.startPost
  cases hstart : query.queryParams.indexStartValue with
  | none => exact ⟨_, rfl⟩
  | some value => exact exists_makePost fun hkey => (h.isStringValue hkey).1 value hstart

theorem WellFormed.exists_endPost (h : query.WellFormed) :
    ∃ post, query.queryParams.endPost = some post := by
  unfold FQueryParams.endPost
  cases hend : query.queryParams.indexEndValue with
  | none => exact ⟨_, rfl⟩
  | some value => exact exists_makePost fun hkey => (h.isStringValue hkey).2 value hend

/-- The last ten children up to a time stamp. -/
def olderTweets : List QueryCall :=
  [.queryOrderedByChild "created//stamp", .queryEndingAtValue (some (.number 5)),
    .queryLimitedToLast 10]

theorem WellFormed.viewFromQueryObject_eq (h : query.WellFormed) :
    FQueryParams.viewFromQueryObject query.queryParams.wireProtocolParams =
      .ok query.queryParams.viewFrom := by
  have hview := h.viewFrom
  unfold FQueryParams.viewFromQueryObject FQueryParams.wireProtocolParams FQueryParams.wireViewFrom
  cases hlimit : query.queryParams.limit with
  | none =>
    rw [hlimit, Option.isSome_none, Option.isSome_eq_false_iff, Option.isNone_iff_eq_none] at hview
    rw [hview]
    rfl
  | some limit =>
    rw [hlimit, Option.isSome_some, Option.isSome_iff_exists] at hview
    obtain ⟨viewFrom, hview⟩ := hview
    rw [hview]
    cases viewFrom with
    | left => rfl
    | right => rfl

theorem WellFormed.index_eq (h : query.WellFormed) :
    query.queryParams.wireProtocolParams.i.elim (.ok .priority)
      FIndex.indexFromQueryDefinition = .ok query.queryParams.index := by
  unfold FQueryParams.wireProtocolParams
  cases hindex : query.queryParams.index with
  | key => rfl
  | value => rfl
  | priority => rfl
  | path pieces => exact (h.path pieces hindex).indexFromQueryDefinition_eq

/-- A key that is sent and read with the value it belongs to. -/
theorem ite_isSome_ite {value : Option (Option Leaf)} {key : Option String}
    (h : value = none → key = none) :
    (if value.isSome then (if value.isSome then key else none) else none) = key := by
  cases value with
  | none => exact (h rfl).symm
  | some value => rfl

end FIRDatabaseQuery

end TwitterLite
