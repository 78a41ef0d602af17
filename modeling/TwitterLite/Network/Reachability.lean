import Mathlib.Data.List.Basic

/-!
# Reachability and its manager

`Reachability` of the `ReachabilitySwift` pod asks the system for the state of the network and posts
a notification whenever the flags that it is told have changed. `ReachabilityManager` registers with
the notification center, translates the connection into a status of the app, and hands it to its
listeners.

`ReachabilityManager.startMonitoring` registers first and starts the notifier then; if that fails it
calls itself. The recursion goes on until the notifier starts, so it is driven by fuel here, with
one group of answers of the system for each attempt. It returns if some attempt succeeds, and leaves
one registration for each attempt (`ReachabilityManager.startMonitoring_cases`,
`ReachabilityManager.exists_startMonitoring`).

A listener is identified by a value of a type `ι`. The registrations of the manager at the
notification center are all alike, so they are counted.

## Main definitions

* `TwitterLite.SCNetworkReachabilityFlags`, `TwitterLite.Reachability`.
* `TwitterLite.ConnectionStatus`, `TwitterLite.ReachabilityManager`.
* `TwitterLite.ReachabilityManager.startMonitoring`, `TwitterLite.ReachabilityManager.post`.

## Main results

* `TwitterLite.ReachabilityManager.startMonitoring_cases`,
  `TwitterLite.ReachabilityManager.exists_startMonitoring`.

Source: `Reachability.swift` of the pod, lines 31–37, 63–130 and 170–337;
`ReachabilityManager.swift`; `Utils.swift`, lines 29–43.
-/

namespace TwitterLite

/-! ### The pod -/

/-- The flags that the system tells. -/
structure SCNetworkReachabilityFlags where
  reachable : Bool := false
  connectionRequired : Bool := false
  connectionOnTraffic : Bool := false
  connectionOnDemand : Bool := false
  interventionRequired : Bool := false
  transientConnection : Bool := false
  isLocalAddress : Bool := false
  isDirect : Bool := false
  isWWAN : Bool := false
  deriving DecidableEq, Repr

/-- `Reachability.Connection`. -/
inductive Connection where
  | none
  | unavailable
  | wifi
  | cellular
  deriving DecidableEq, Repr

/-- `SCNetworkReachabilityFlags.connection` on a device. -/
def SCNetworkReachabilityFlags.connection (flags : SCNetworkReachabilityFlags) : Connection :=
  if !flags.reachable then .unavailable
  else
    let connection := Connection.unavailable
    let connection := if !flags.connectionRequired then .wifi else connection
    let connection :=
      if flags.connectionOnTraffic || flags.connectionOnDemand then
        if !flags.interventionRequired then .wifi else connection
      else connection
    if flags.isWWAN then .cellular else connection

/-- The cases of `ReachabilityError` that starting the notifier throws. -/
inductive ReachabilityError where
  | unableToSetCallback
  | unableToSetDispatchQueue
  | unableToGetFlags
  deriving DecidableEq, Repr

/-- `Reachability`, with the number of notifications that wait on the main queue. -/
structure Reachability where
  allowsCellularConnection : Bool := true
  notifierRunning : Bool := false
  flags : Option SCNetworkReachabilityFlags := none
  queued : ℕ := 0
  deriving DecidableEq, Repr

/-- What the system answers when the notifier is started. -/
structure NotifierAnswers where
  setCallback : Bool
  setDispatchQueue : Bool
  getFlags : Option SCNetworkReachabilityFlags
  deriving DecidableEq, Repr

/-- The notifier starts. -/
def NotifierAnswers.Succeed (answers : NotifierAnswers) : Prop :=
  answers.setCallback = true ∧ answers.setDispatchQueue = true ∧ answers.getFlags ≠ none

instance (answers : NotifierAnswers) : Decidable answers.Succeed :=
  inferInstanceAs (Decidable (_ ∧ _ ∧ _))

namespace Reachability

variable (r : Reachability)

/-- The observer of `Reachability.flags`: a notification is queued if they have changed. -/
def setFlags (flags : SCNetworkReachabilityFlags) : Reachability :=
  if r.flags = some flags then r
  else { r with flags := some flags, queued := r.queued + 1 }

/-- `Reachability.connection`. A notification is queued by flags, so they are there when it is
read. -/
def connection : Connection :=
  match r.flags.map SCNetworkReachabilityFlags.connection with
  | some .unavailable | none => .unavailable
  | some .none => .unavailable
  | some .cellular => if r.allowsCellularConnection then .cellular else .unavailable
  | some .wifi => .wifi

/-- `Reachability.stopNotifier`. -/
def stopNotifier : Reachability := { r with notifierRunning := false }

/-- `Reachability.startNotifier`, with the error that it throws. -/
def startNotifier (answers : NotifierAnswers) : Reachability × Option ReachabilityError :=
  if r.notifierRunning then (r, none)
  else if !answers.setCallback then (r.stopNotifier, some .unableToSetCallback)
  else if !answers.setDispatchQueue then (r.stopNotifier, some .unableToSetDispatchQueue)
  else
    match answers.getFlags with
    | none => (r.stopNotifier, some .unableToGetFlags)
    | some flags => ({ r.setFlags flags with notifierRunning := true }, none)

end Reachability

/-! ### The manager -/

/-- `ConnectionStatus` of `Utils.swift`. -/
inductive ConnectionStatus where
  | none
  | unavailable
  | wifi
  | cellular
  deriving DecidableEq, Repr

/-- The status for a connection, as `ReachabilityManager.reachabilityChanged` translates it. -/
def ConnectionStatus.ofConnection : Connection → ConnectionStatus
  | .none => .none
  | .unavailable => .unavailable
  | .wifi => .wifi
  | .cellular => .cellular

/-- `ReachabilityManager`, with its registrations at the notification center. -/
structure ReachabilityManager (ι : Type*) where
  connectionStatus : ConnectionStatus := .none
  reachability : Reachability := {}
  listeners : List ι := []
  registrations : ℕ := 0

namespace ReachabilityManager

variable {ι : Type*} (m : ReachabilityManager ι)

/-- `NotificationCenter.addObserver`: one more registration. -/
def addObserver : ReachabilityManager ι := { m with registrations := m.registrations + 1 }

/-- `NotificationCenter.removeObserver`: all registrations of the manager go. -/
def removeObserver : ReachabilityManager ι := { m with registrations := 0 }

/-- `ReachabilityManager.startMonitoring`, with the answers to its attempts one after another. -/
def startMonitoring : ℕ → (ℕ → NotifierAnswers) → ReachabilityManager ι →
    Option (ReachabilityManager ι)
  | 0, _, _ => none
  | fuel + 1, answers, m =>
    let m := m.addObserver
    match m.reachability.startNotifier (answers 0) with
    | (reachability, none) => some { m with reachability := reachability }
    | (reachability, some _) =>
      startMonitoring fuel (fun n => answers (n + 1)) { m with reachability := reachability }

/-- `ReachabilityManager.stopMonitoring`. -/
def stopMonitoring : ReachabilityManager ι :=
  { m with reachability := m.reachability.stopNotifier }.removeObserver

/-- `ReachabilityManager.add(delegate:)`. -/
def add (listener : ι) : ReachabilityManager ι := { m with listeners := m.listeners ++ [listener] }

/-- `ReachabilityManager.remove(delegate:)`. -/
def remove [DecidableEq ι] (listener : ι) : ReachabilityManager ι :=
  { m with listeners := m.listeners.filter fun other => other ≠ listener }

/-- The end of `ReachabilityManager.reachabilityChanged`: the status is stored and handed to each
entry of the list. The calls are listed. -/
def publish (status : ConnectionStatus) : ReachabilityManager ι × List (ι × ConnectionStatus) :=
  ({ m with connectionStatus := status }, m.listeners.map fun listener => (listener, status))

/-- `ReachabilityManager.reachabilityChanged`. -/
def reachabilityChanged : ReachabilityManager ι × List (ι × ConnectionStatus) :=
  m.publish (.ofConnection m.reachability.connection)

/-- A posted notification calls back once for each of so many registrations. -/
def callBack : ℕ → ReachabilityManager ι → ReachabilityManager ι × List (ι × ConnectionStatus)
  | 0, m => (m, [])
  | n + 1, m =>
    let changed := m.reachabilityChanged
    let others := callBack n changed.1
    (others.1, changed.2 ++ others.2)

/-- A notification leaves the main queue and is posted. -/
def post : ReachabilityManager ι × List (ι × ConnectionStatus) :=
  let reachability := { m.reachability with queued := m.reachability.queued - 1 }
  callBack m.registrations { m with reachability := reachability }

end ReachabilityManager

/-! ### One attempt -/

namespace Reachability

variable {r : Reachability} {answers : NotifierAnswers}

theorem startNotifier_of_running (h : r.notifierRunning = true) :
    r.startNotifier answers = (r, none) :=
  if_pos h

/-- A notifier that starts takes over the flags. -/
theorem startNotifier_of_succeed (h : r.notifierRunning = false) (hsucceed : answers.Succeed) :
    ∃ flags, r.startNotifier answers =
      ({ r.setFlags flags with notifierRunning := true }, none) := by
  obtain ⟨hcallback, hqueue, hflags⟩ := hsucceed
  obtain ⟨flags, hflags⟩ := Option.ne_none_iff_exists'.mp hflags
  refine ⟨flags, ?_⟩
  simp [startNotifier, h, hcallback, hqueue, hflags]

/-- A notifier that does not start leaves everything as it was. -/
theorem startNotifier_of_fail (h : r.notifierRunning = false) (hfail : ¬ answers.Succeed) :
    ∃ error, r.startNotifier answers = (r, some error) := by
  have hstop : r.stopNotifier = r := by rw [stopNotifier, ← h]
  cases hcallback : answers.setCallback with
  | false => exact ⟨.unableToSetCallback, by simp [startNotifier, h, hcallback, hstop]⟩
  | true =>
    cases hqueue : answers.setDispatchQueue with
    | false =>
      exact ⟨.unableToSetDispatchQueue, by simp [startNotifier, h, hcallback, hqueue, hstop]⟩
    | true =>
      have hflags : answers.getFlags = none := by
        by_contra hflags
        exact hfail ⟨hcallback, hqueue, hflags⟩
      exact ⟨.unableToGetFlags, by simp [startNotifier, h, hcallback, hqueue, hflags, hstop]⟩

@[simp] theorem notifierRunning_setFlags (r : Reachability) (flags : SCNetworkReachabilityFlags) :
    (r.setFlags flags).notifierRunning = r.notifierRunning := by
  unfold setFlags
  split <;> rfl

end Reachability

namespace ReachabilityManager

variable {ι : Type*} {m m' : ReachabilityManager ι} {answers : ℕ → NotifierAnswers} {fuel : ℕ}

theorem startMonitoring_of_running (h : m.reachability.notifierRunning = true) :
    m.startMonitoring (fuel + 1) answers = some m.addObserver := by
  have hstart : m.addObserver.reachability.startNotifier (answers 0) = (m.reachability, none) :=
    Reachability.startNotifier_of_running h
  simp only [startMonitoring, hstart]
  rfl

theorem startMonitoring_of_succeed (h : m.reachability.notifierRunning = false)
    (hsucceed : (answers 0).Succeed) : ∃ flags, ∀ fuel, m.startMonitoring (fuel + 1) answers =
      some { m.addObserver with
        reachability := { m.reachability.setFlags flags with notifierRunning := true } } := by
  obtain ⟨flags, hstart⟩ := Reachability.startNotifier_of_succeed h hsucceed
  refine ⟨flags, fun fuel => ?_⟩
  change m.addObserver.reachability.startNotifier (answers 0) = _ at hstart
  simp only [startMonitoring, hstart]

/-- After a failed attempt the next one is made, with one registration more. -/
theorem startMonitoring_of_fail (h : m.reachability.notifierRunning = false)
    (hfail : ¬ (answers 0).Succeed) : m.startMonitoring (fuel + 1) answers =
      m.addObserver.startMonitoring fuel fun n => answers (n + 1) := by
  obtain ⟨error, hstart⟩ := Reachability.startNotifier_of_fail h hfail
  change m.addObserver.reachability.startNotifier (answers 0) = _ at hstart
  simp only [startMonitoring, hstart]
  rfl

/-! ### All attempts -/

/-- **What a call of `startMonitoring` leaves**: one registration more if the notifier was running,
and else one for each failed attempt and one for the attempt that succeeded. -/
theorem startMonitoring_cases (h : m.startMonitoring fuel answers = some m') :
    (m.reachability.notifierRunning = true ∧ m' = m.addObserver) ∨
      m.reachability.notifierRunning = false ∧ ∃ n flags, (∀ k < n, ¬ (answers k).Succeed) ∧
        (answers n).Succeed ∧ m' = { m with
          registrations := m.registrations + n + 1
          reachability := { m.reachability.setFlags flags with notifierRunning := true } } := by
  induction fuel generalizing m answers with
  | zero => cases h
  | succ fuel ih =>
    cases hrunning : m.reachability.notifierRunning with
    | true =>
      rw [startMonitoring_of_running hrunning] at h
      exact .inl ⟨rfl, (Option.some.inj h).symm⟩
    | false =>
      refine .inr ⟨rfl, ?_⟩
      by_cases hsucceed : (answers 0).Succeed
      · obtain ⟨flags, hstart⟩ := startMonitoring_of_succeed hrunning hsucceed
        rw [hstart] at h
        exact ⟨0, flags, fun k hk => absurd hk k.not_lt_zero, hsucceed, (Option.some.inj h).symm⟩
      · rw [startMonitoring_of_fail hrunning hsucceed] at h
        rcases ih h with ⟨hrunning', -⟩ | ⟨-, n, flags, hfails, hsucceeds, rfl⟩
        · cases hrunning.symm.trans hrunning'
        · refine ⟨n + 1, flags, fun k hk => ?_, hsucceeds, ?_⟩
          · cases k with
            | zero => exact hsucceed
            | succ k => exact hfails k (Nat.lt_of_succ_lt_succ hk)
          · simp only [addObserver, Nat.add_assoc, Nat.add_comm 1]

/-- If the notifier is running or the first attempt succeeds, one unit of fuel is enough. -/
theorem exists_startMonitoring_of_first
    (h : m.reachability.notifierRunning = true ∨ (answers 0).Succeed) :
    ∃ m', ∀ fuel ≥ 1, m.startMonitoring fuel answers = some m' := by
  suffices hnext : ∃ m', ∀ fuel, m.startMonitoring (fuel + 1) answers = some m' by
    obtain ⟨m', hstart⟩ := hnext
    refine ⟨m', fun fuel hle => ?_⟩
    obtain ⟨fuel, rfl⟩ := Nat.exists_eq_add_of_le' hle
    exact hstart fuel
  cases hrunning : m.reachability.notifierRunning with
  | true => exact ⟨m.addObserver, fun _ => startMonitoring_of_running hrunning⟩
  | false =>
    have hsucceed : (answers 0).Succeed := h.resolve_left (by simp [hrunning])
    obtain ⟨flags, hstart⟩ := startMonitoring_of_succeed hrunning hsucceed
    exact ⟨_, hstart⟩

/-- **`startMonitoring` returns** if some attempt succeeds. -/
theorem exists_startMonitoring (m : ReachabilityManager ι) (h : ∃ n, (answers n).Succeed) :
    ∃ fuel m', ∀ fuel' ≥ fuel, m.startMonitoring fuel' answers = some m' := by
  obtain ⟨n, hn⟩ := h
  induction n generalizing m answers with
  | zero => exact ⟨1, exists_startMonitoring_of_first (.inr hn)⟩
  | succ n ih =>
    by_cases hfirst : m.reachability.notifierRunning = true ∨ (answers 0).Succeed
    · exact ⟨1, exists_startMonitoring_of_first hfirst⟩
    · obtain ⟨hrunning, hfail⟩ := not_or.mp hfirst
      obtain ⟨fuel, m', hstart⟩ := @ih (fun k => answers (k + 1)) m.addObserver hn
      refine ⟨fuel + 1, m', fun fuel' hle => ?_⟩
      obtain ⟨k, rfl⟩ := Nat.exists_eq_add_of_le hle
      rw [Nat.add_right_comm, startMonitoring_of_fail (Bool.not_eq_true _ ▸ hrunning) hfail]
      exact hstart (fuel + k) (Nat.le_add_right fuel k)

/-! ### Notifications -/

/-- Calling back changes nothing but the status. -/
theorem callBack_fst (n : ℕ) (m : ReachabilityManager ι) :
    ∃ status, (callBack n m).1 = { m with connectionStatus := status } := by
  induction n generalizing m with
  | zero => exact ⟨m.connectionStatus, rfl⟩
  | succ n ih =>
    obtain ⟨status, hstatus⟩ := ih m.reachabilityChanged.1
    exact ⟨status, hstatus⟩

/-- What a notification reaches: each entry of the list of listeners, once for every
registration. -/
theorem callBack_snd (n : ℕ) (m : ReachabilityManager ι) :
    (callBack n m).2 = (List.replicate n (m.listeners.map fun listener =>
      (listener, ConnectionStatus.ofConnection m.reachability.connection))).flatten := by
  induction n generalizing m with
  | zero => rfl
  | succ n ih =>
    rw [List.replicate_succ, List.flatten_cons]
    exact congrArg (m.reachabilityChanged.2 ++ ·) (ih m.reachabilityChanged.1)

end ReachabilityManager

end TwitterLite
