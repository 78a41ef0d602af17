import TwitterLite.Home.DeleteTweet
import TwitterLite.Home.Overlap
import TwitterLite.Library.RowEdits

/-!
# The table view follows the list

`HomeViewController` is the data source of its table view: it edits the list and then describes
the edit to the table. The description is an index-wise batch, computed when a completion runs, from
a list that other completions may have changed since the operation was started.

Each of the callbacks describes its own edit, whatever the list (`TableUpdate.Describes`). Hence the
displayed rows are the list after every completion of every run (`Table.run_consistent`).

## Main definitions

* `TwitterLite.TableUpdate.batch`, `TwitterLite.TableUpdate.rows`.
* `TwitterLite.Table`, `TwitterLite.Table.Step`, `TwitterLite.Table.Consistent`.

## Main results

* `TwitterLite.HomeViewModel.describes_requestDelivered`,
  `TwitterLite.HomeViewModel.describes_deleteShown`.
* `TwitterLite.Table.run_consistent`.

Source: `HomeViewController.swift`, lines 68–134, 161–184 and 203–221.
-/

namespace TwitterLite

open RowEdits TransitionSystem

/-! ### What the table does -/

namespace TableUpdate

/-- The batch between `beginUpdates` and `endUpdates`; without an update there is none. -/
def batch : Option TableUpdate → Batch
  | some (.insertRows rows) => { inserted := rows }
  | some (.deleteRows rows) => { deleted := rows }
  | some .reloadData | none => {}

/-- The displayed rows after an update: all of them are read again, or the batch is applied. -/
def rows (tweetList displayed : List ViewTweetModel) : Option TableUpdate → List ViewTweetModel
  | some .reloadData => tweetList
  | update => (batch update).apply tweetList displayed

/-- The update describes the edit of the list from `before` to `after`: the table shows `after`
again, and a batch is accepted. -/
structure Describes (update : Option TableUpdate) (before after : List ViewTweetModel) :
    Prop where
  rows_eq : rows after before update = after
  wellFormed : update ≠ some .reloadData → (batch update).WellFormed before.length after.length

theorem describes_none (tweetList : List ViewTweetModel) : Describes none tweetList tweetList :=
  ⟨Batch.apply_empty _ _, fun _ => Batch.wellFormed_empty _⟩

theorem describes_insertRows (xs l ys : List ViewTweetModel) :
    Describes (some (.insertRows (List.range' xs.length l.length))) (xs ++ ys)
      (xs ++ (l ++ ys)) where
  rows_eq := Batch.apply_insert_block xs l ys
  wellFormed _ := by
    simp only [batch, List.length_append]
    exact Batch.wellFormed_insert_block ..

end TableUpdate

/-! ### What the callbacks describe -/

namespace HomeViewModel

open TableUpdate

variable {vm vm' : HomeViewModel} {update : Option TableUpdate}

theorem describes_fetchTweetsShown (callback : TweetsCallBack) :
    Describes (vm.fetchTweetsShown callback).2 vm.tweetList
      (vm.fetchTweetsShown callback).1.tweetList := by
  rcases callback with ⟨_ | _ | ⟨tweet, tweets⟩, error⟩
  · exact describes_none _
  · exact describes_none _
  · cases hcursor : vm.lastCreatedDateTimeStamp with
    | none =>
      simp only [fetchTweetsShown, hcursor]
      exact ⟨rfl, fun h => absurd rfl h⟩
    | some timeStamp =>
      simp only [fetchTweetsShown, hcursor]
      simpa using describes_insertRows vm.tweetList (tweet :: tweets) []

theorem describes_refreshShown (callback : TweetsCallBack) :
    Describes (vm.refreshShown callback).2 vm.tweetList (vm.refreshShown callback).1.tweetList := by
  rcases callback with ⟨_ | _ | ⟨tweet, tweets⟩, error⟩
  · exact describes_none _
  · exact describes_none _
  · simp only [refreshShown]
    simpa [List.range_eq_range'] using describes_insertRows [] (tweet :: tweets) vm.tweetList

/-- A delivered request has run the callback of its kind. -/
theorem exists_shown_of_requestDelivered {loggedInUser : Option UserModel}
    {profiles : ℕ → Option UserModel} {result : Except AppError (List ViewTweetModel)}
    {kind : RequestKind}
    (h : vm.requestDelivered loggedInUser profiles result kind = .ok (vm', update)) :
    ∃ callback, (vm', update) = match kind with
      | .fetchTweets => vm.fetchTweetsShown callback
      | .refresh => vm.refreshShown callback := by
  cases kind with
  | fetchTweets =>
    simp only [requestDelivered, fetchTweetsDelivered] at h
    cases hsorted : vm.fetchTweetsSorted (fetchUserDetails loggedInUser profiles result) with
    | error trap => rw [hsorted] at h; cases h
    | ok callback =>
      rw [hsorted] at h
      exact ⟨callback, (Except.ok.inj h).symm⟩
  | refresh =>
    simp only [requestDelivered, fetchLatestTweetsDelivered] at h
    cases hsorted : fetchLatestTweetsSorted (fetchUserDetails loggedInUser profiles result) with
    | error trap => rw [hsorted] at h; cases h
    | ok callback =>
      rw [hsorted] at h
      exact ⟨callback, (Except.ok.inj h).symm⟩

/-- **A delivered request describes its edit**, whatever it was answered. -/
theorem describes_requestDelivered {loggedInUser : Option UserModel}
    {profiles : ℕ → Option UserModel} {result : Except AppError (List ViewTweetModel)}
    {kind : RequestKind}
    (h : vm.requestDelivered loggedInUser profiles result kind = .ok (vm', update)) :
    Describes update vm.tweetList vm'.tweetList := by
  obtain ⟨callback, hshown⟩ := exists_shown_of_requestDelivered h
  cases kind with
  | fetchTweets =>
    obtain ⟨rfl, rfl⟩ := Prod.ext_iff.mp hshown
    exact describes_fetchTweetsShown callback
  | refresh =>
    obtain ⟨rfl, rfl⟩ := Prod.ext_iff.mp hshown
    exact describes_refreshShown callback

/-- What a deletion changes in the list: nothing, or the first row with the identifier goes. -/
theorem deleteShown_cases (vm : HomeViewModel) (tweetModel : ViewTweetModel)
    (error : Option AppError) :
    vm.deleteShown tweetModel error = (vm, none) ∨
      ∃ (i : ℕ) (tweet : ViewTweetModel), error = none ∧ vm.tweetList[i]? = some tweet ∧
        tweet.tweetID = tweetModel.tweetID ∧
        vm.deleteShown tweetModel error =
          ({ vm with tweetList := vm.tweetList.eraseIdx i }, some (.deleteRows [i])) := by
  cases error with
  | some error => exact .inl rfl
  | none =>
    cases hfind : vm.tweetList.findIdx? fun tweet => tweet.tweetID == tweetModel.tweetID with
    | none => exact .inl (by simp only [deleteShown, hfind])
    | some i =>
      obtain ⟨hi, hid, -⟩ := List.findIdx?_eq_some_iff_getElem.mp hfind
      exact .inr ⟨i, vm.tweetList[i], rfl, List.getElem?_eq_getElem hi, by simpa using hid,
        by simp only [deleteShown, hfind]⟩

/-- **A completed deletion describes its edit.** -/
theorem describes_deleteShown (tweetModel : ViewTweetModel) (error : Option AppError) :
    Describes (vm.deleteShown tweetModel error).2 vm.tweetList
      (vm.deleteShown tweetModel error).1.tweetList := by
  rcases vm.deleteShown_cases tweetModel error with h | ⟨i, tweet, -, hrow, -, h⟩
  · simp only [h]
    exact describes_none _
  · obtain ⟨hi, -⟩ := List.getElem?_eq_some_iff.mp hrow
    simp only [h]
    refine ⟨Batch.apply_delete_row _ _ _, fun _ => ?_⟩
    rw [List.length_eraseIdx_of_lt hi]
    exact Batch.wellFormed_delete_row hi

end HomeViewModel

/-! ### The table of the timeline -/

/-- An operation whose completion edits the list. -/
inductive TableOperation where
  | request (kind : RequestKind)
  | delete (tweetModel : ViewTweetModel)
  deriving DecidableEq

/-- The view model, the displayed rows, and the operations under way. -/
structure Table where
  vm : HomeViewModel
  displayed : List ViewTweetModel := []
  inFlight : List TableOperation := []

namespace Table

/-- What can happen to the table: an operation is started, or its completion runs and describes
its edit. -/
inductive Event where
  | start (operation : TableOperation)
  | complete (operation : TableOperation) (update : Option TableUpdate)

/-- An empty timeline. -/
def initial (isiPhone : Bool) : Table where
  vm := { isiPhone := isiPhone }

/-- The table after a completion has edited the list and described the edit. -/
def updated (s : Table) (vm' : HomeViewModel) (update : Option TableUpdate)
    (inFlight : List TableOperation) : Table where
  vm := vm'
  displayed := TableUpdate.rows vm'.tweetList s.displayed update
  inFlight := inFlight

/-- One step. Any number of operations may be under way, and they complete in any order. -/
inductive Step : Table → Event → Table → Prop
  /-- A deletion is started for a tweet whose row was tapped, which may be gone by now. -/
  | start {s : Table} {operation : TableOperation} :
      Step s (.start operation) { s with inFlight := s.inFlight ++ [operation] }
  /-- A refresh without a first row completes at once. -/
  | refreshEmpty {s : Table} (sent : s.vm.fetchLatestTweetsQuery = none) {vm' : HomeViewModel}
      {update : Option TableUpdate}
      (shown : s.vm.refreshShown (none, some (.fireBase .missingParameters)) = (vm', update)) :
      Step s (.complete (.request .refresh) update) (s.updated vm' update s.inFlight)
  /-- A request completes, with any result and any profiles of the authors. -/
  | request {s : Table} {before after : List TableOperation} {kind : RequestKind}
      {loggedInUser : Option UserModel} {profiles : ℕ → Option UserModel}
      {result : Except AppError (List ViewTweetModel)} {vm' : HomeViewModel}
      {update : Option TableUpdate}
      (pending : s.inFlight = before ++ .request kind :: after)
      (delivered : s.vm.requestDelivered loggedInUser profiles result kind = .ok (vm', update)) :
      Step s (.complete (.request kind) update) (s.updated vm' update (before ++ after))
  /-- A deletion completes, with or without an error. -/
  | delete {s : Table} {before after : List TableOperation} {tweetModel : ViewTweetModel}
      {error : Option AppError} {vm' : HomeViewModel} {update : Option TableUpdate}
      (pending : s.inFlight = before ++ .delete tweetModel :: after)
      (shown : s.vm.deleteShown tweetModel error = (vm', update)) :
      Step s (.complete (.delete tweetModel) update) (s.updated vm' update (before ++ after))

/-- At most one row goes, and only one with the identifier of the tweet. -/
def RemovesAtMostOne (tweetModel : ViewTweetModel) (before after : List ViewTweetModel) : Prop :=
  after = before ∨ ∃ (i : ℕ) (tweet : ViewTweetModel), before[i]? = some tweet ∧
    tweet.tweetID = tweetModel.tweetID ∧ after = before.eraseIdx i

/-- After the step the displayed rows are the list. A completed operation passed a batch that the
table accepts, and if it was a deletion it removed at most the row that was meant. -/
structure Consistent (τ : Transition Table Event) : Prop where
  displayed_eq : τ.target.displayed = τ.target.vm.tweetList
  wellFormed : ∀ operation update, τ.event = .complete operation update →
    update ≠ some .reloadData →
      (TableUpdate.batch update).WellFormed τ.source.displayed.length τ.target.vm.tweetList.length
  deleted : ∀ tweetModel update, τ.event = .complete (.delete tweetModel) update →
    RemovesAtMostOne tweetModel τ.source.displayed τ.target.displayed

/-- The displayed rows are the list. -/
def InSync (s : Table) : Prop := s.displayed = s.vm.tweetList

variable {s s' : Table} {e : Event}

theorem InSync.updated {vm' : HomeViewModel} {update : Option TableUpdate}
    {inFlight : List TableOperation} (hs : s.InSync)
    (h : TableUpdate.Describes update s.vm.tweetList vm'.tweetList) :
    (s.updated vm' update inFlight).InSync := by
  rw [InSync, Table.updated, hs]
  exact h.rows_eq

/-- A step keeps the displayed rows and the list equal. -/
theorem step_inSync (hs : s.InSync) (step : Step s e s') : s'.InSync := by
  cases step with
  | start => exact hs
  | refreshEmpty sent shown =>
    obtain ⟨rfl, rfl⟩ := Prod.ext_iff.mp shown
    exact hs.updated (HomeViewModel.describes_refreshShown _)
  | request pending delivered =>
    exact hs.updated (HomeViewModel.describes_requestDelivered delivered)
  | delete pending shown =>
    obtain ⟨rfl, rfl⟩ := Prod.ext_iff.mp shown
    exact hs.updated (HomeViewModel.describes_deleteShown _ _)

/-- A completed operation describes its edit of the displayed rows. -/
theorem step_describes (hs : s.InSync) {operation : TableOperation}
    {update : Option TableUpdate} (step : Step s (.complete operation update) s') :
    TableUpdate.Describes update s.displayed s'.vm.tweetList := by
  rw [hs]
  cases step with
  | refreshEmpty sent shown =>
    obtain ⟨rfl, rfl⟩ := Prod.ext_iff.mp shown
    exact HomeViewModel.describes_refreshShown _
  | request pending delivered => exact HomeViewModel.describes_requestDelivered delivered
  | delete pending shown =>
    obtain ⟨rfl, rfl⟩ := Prod.ext_iff.mp shown
    exact HomeViewModel.describes_deleteShown _ _

/-- A completed deletion removes at most the row that was meant. -/
theorem step_removesAtMostOne (hs : s.InSync) {tweetModel : ViewTweetModel}
    {update : Option TableUpdate} (step : Step s (.complete (.delete tweetModel) update) s') :
    RemovesAtMostOne tweetModel s.displayed s'.displayed := by
  rw [step_inSync hs step, hs]
  cases step with
  | delete pending shown =>
    rcases s.vm.deleteShown_cases tweetModel _ with h | ⟨i, tweet, -, hrow, hid, h⟩
    · obtain ⟨rfl, -⟩ := Prod.ext_iff.mp (shown.symm.trans h)
      exact .inl rfl
    · obtain ⟨rfl, -⟩ := Prod.ext_iff.mp (shown.symm.trans h)
      exact .inr ⟨i, tweet, hrow, hid, rfl⟩

theorem step_consistent (hs : s.InSync) (step : Step s e s') :
    Consistent ⟨s, e, s'⟩ where
  displayed_eq := step_inSync hs step
  wellFormed := by
    rintro operation update rfl
    exact (step_describes hs step).wellFormed
  deleted := by
    rintro tweetModel update rfl
    exact step_removesAtMostOne hs step

/-- **The table view and the list never diverge.** -/
theorem run_consistent (isiPhone : Bool) {ts : List (Transition Table Event)}
    (run : Run Step (initial isiPhone) ts s) : ∀ τ ∈ ts, Consistent τ :=
  run.forall_of_invariant (fun t _ _ (ht : t.InSync) => step_inSync ht)
    (fun _ _ _ => step_consistent) rfl

/-- The row of `a` is tapped, a refresh puts `b` above it, and then the deletion completes. -/
theorem run_consistent_two : ∃ ts s, Run Step (initial true) ts s ∧
    s.displayed = [{ Timeline.tweetAt "b" 2 with }] ∧ ∀ τ ∈ ts, Consistent τ := by
  have start : Run Step (initial true) [] _ := .nil _
  have run := start
    |>.snoc (show Step _ (.start (.request .fetchTweets)) _ from .start)
    |>.snoc (.request (show _ = [] ++ _ :: [] from rfl)
      (show HomeViewModel.requestDelivered _ none (fun _ => none)
        (.ok [{ Timeline.tweetAt "a" 1 with }]) _ = _ from rfl))
    |>.snoc (show Step _ (.start (.delete { Timeline.tweetAt "a" 1 with })) _ from .start)
    |>.snoc (show Step _ (.start (.request .refresh)) _ from .start)
    |>.snoc (.request (show _ = [_] ++ _ :: [] from rfl)
      (show HomeViewModel.requestDelivered _ none (fun _ => none)
        (.ok [{ Timeline.tweetAt "a" 1 with }, { Timeline.tweetAt "b" 2 with }]) _ = _ from rfl))
    |>.snoc (.delete (show _ = [] ++ _ :: [] from rfl)
      (show HomeViewModel.deleteShown _ _ none = _ from rfl))
  exact ⟨_, _, run, by decide, run_consistent true run⟩

end Table

end TwitterLite
