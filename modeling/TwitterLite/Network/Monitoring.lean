import TwitterLite.Library.TransitionSystem
import TwitterLite.Network.Reachability

/-!
# Monitoring the network

The scene starts monitoring when it enters the foreground and stops when it enters the background.
Each registration of the manager at the notification center makes every listener hear of a change
once, so there ought to be one while monitoring is on and none while it is off.

Stopping removes all registrations. Starting adds one before each attempt to start the notifier, and
one more if monitoring is on already. So there is one registration exactly if every start finds
monitoring off and succeeds at the first attempt (`ReachabilityManager.registeredOnce_iff`).

## Main definitions

* `TwitterLite.ReachabilityManager.Event`, `TwitterLite.ReachabilityManager.Step`.
* `TwitterLite.ReachabilityManager.RegisteredOnce`, `TwitterLite.ReachabilityManager.StartsOnce`.

## Main results

* `TwitterLite.ReachabilityManager.notifierRunning_eq`.
* `TwitterLite.ReachabilityManager.registeredOnce_iff`.

Source: `ReachabilityManager.swift`, lines 25–82; `SceneDelegate.swift`, lines 37–48.
-/

namespace TwitterLite

open TransitionSystem

namespace ReachabilityManager

/-- What can happen: the calls of the app, new flags from the system, and a notification whose turn
on the main queue has come. -/
inductive Event (ι : Type*) where
  | startMonitoring (answers : ℕ → NotifierAnswers)
  | stopMonitoring
  | add (listener : ι)
  | remove (listener : ι)
  | flagsChanged (flags : SCNetworkReachabilityFlags)
  | posted

variable {ι : Type*}

/-- One step. The system tells new flags while the notifier is running. -/
inductive Step [DecidableEq ι] : ReachabilityManager ι → Event ι → ReachabilityManager ι → Prop
  | startMonitoring {m m' : ReachabilityManager ι} {answers : ℕ → NotifierAnswers} {fuel : ℕ}
      (returned : m.startMonitoring fuel answers = some m') : Step m (.startMonitoring answers) m'
  | stopMonitoring {m : ReachabilityManager ι} : Step m .stopMonitoring m.stopMonitoring
  | add {m : ReachabilityManager ι} (listener : ι) : Step m (.add listener) (m.add listener)
  | remove {m : ReachabilityManager ι} (listener : ι) :
      Step m (.remove listener) (m.remove listener)
  | flagsChanged {m : ReachabilityManager ι} (flags : SCNetworkReachabilityFlags)
      (running : m.reachability.notifierRunning = true) :
      Step m (.flagsChanged flags) { m with reachability := m.reachability.setFlags flags }
  | posted {m : ReachabilityManager ι} (queued : 0 < m.reachability.queued) :
      Step m .posted m.post.1

/-! ### The property and its condition -/

/-- A start leaves the manager registered once, a stop not at all, and while monitoring is on a
posted change reaches every entry of the list of listeners once. -/
structure RegisteredOnce (τ : Transition (ReachabilityManager ι) (Event ι)) : Prop where
  started : ∀ answers, τ.event = .startMonitoring answers → τ.target.registrations = 1
  stopped : τ.event = .stopMonitoring → τ.target.registrations = 0
  reached : τ.event = .posted → τ.source.reachability.notifierRunning = true →
    τ.source.post.2 = τ.source.listeners.map fun listener =>
      (listener, .ofConnection τ.source.reachability.connection)

/-- The condition: a start finds monitoring off, and succeeds at the first attempt. -/
def StartsOnce (τ : Transition (ReachabilityManager ι) (Event ι)) : Prop :=
  ∀ answers, τ.event = .startMonitoring answers →
    τ.source.reachability.notifierRunning = false ∧ (answers 0).Succeed

/-- Whether monitoring is on after an event: the last start or stop was a start. -/
def isMonitoring : Bool → Event ι → Bool
  | _, .startMonitoring _ => true
  | _, .stopMonitoring => false
  | monitoring, _ => monitoring

/-! ### One step -/

variable {m m' : ReachabilityManager ι} {e : Event ι}

theorem post_fst (m : ReachabilityManager ι) : ∃ status, m.post.1 = { m with
    connectionStatus := status
    reachability := { m.reachability with queued := m.reachability.queued - 1 } } :=
  callBack_fst _ _

theorem post_snd (m : ReachabilityManager ι) : m.post.2 =
    (List.replicate m.registrations (m.listeners.map fun listener =>
      (listener, ConnectionStatus.ofConnection m.reachability.connection))).flatten :=
  callBack_snd _ _

/-- There is one registration while monitoring is on, and none while it is off. -/
def Registered (m : ReachabilityManager ι) : Prop :=
  m.registrations = if m.reachability.notifierRunning then 1 else 0

/-- **A start leaves one registration exactly if it finds monitoring off and succeeds at the first
attempt.** -/
theorem registrations_eq_one_iff (h : m.Registered) {answers : ℕ → NotifierAnswers} {fuel : ℕ}
    (returned : m.startMonitoring fuel answers = some m') : m'.registrations = 1 ↔
      m.reachability.notifierRunning = false ∧ (answers 0).Succeed := by
  rcases startMonitoring_cases returned with
    ⟨hrunning, rfl⟩ | ⟨hrunning, n, flags, hfails, hsucceeds, rfl⟩
  · rw [Registered, hrunning, if_pos rfl] at h
    simp [addObserver, h, hrunning]
  · rw [Registered, hrunning, if_neg Bool.false_ne_true] at h
    rw [h, and_iff_right hrunning, Nat.zero_add, Nat.add_eq_right]
    constructor
    · rintro rfl
      exact hsucceeds
    · intro hsucceed
      by_contra hn
      exact hfails 0 (Nat.pos_of_ne_zero hn) hsucceed

/-- While the invariant holds, a posted change reaches every entry once. -/
theorem post_snd_eq (h : m.Registered) (hrunning : m.reachability.notifierRunning = true) :
    m.post.2 = m.listeners.map fun listener =>
      (listener, .ofConnection m.reachability.connection) := by
  rw [Registered, if_pos hrunning] at h
  rw [post_snd, h, List.replicate_one, List.flatten_singleton]

variable [DecidableEq ι]

/-- The notifier runs while monitoring is on. -/
theorem notifierRunning_of_step (step : Step m e m') :
    m'.reachability.notifierRunning = isMonitoring m.reachability.notifierRunning e := by
  cases step with
  | startMonitoring returned =>
    rcases startMonitoring_cases returned with ⟨hrunning, rfl⟩ | ⟨-, _, _, -, -, rfl⟩
    · exact hrunning
    · rfl
  | stopMonitoring => rfl
  | add listener => rfl
  | remove listener => rfl
  | flagsChanged flags running => exact Reachability.notifierRunning_setFlags _ _
  | posted queued =>
    obtain ⟨status, hpost⟩ := post_fst m
    rw [hpost]
    rfl

/-- The notifier runs exactly if the last start or stop was a start. -/
theorem notifierRunning_eq {ts : List (Transition (ReachabilityManager ι) (Event ι))}
    (run : Run Step {} ts m) : m.reachability.notifierRunning =
      (ts.map fun τ => τ.event).foldl isMonitoring false := by
  have hstep : ∀ (t : ReachabilityManager ι) (e : Event ι) (u : ReachabilityManager ι)
      (monitoring : Bool), t.reachability.notifierRunning = monitoring → Step t e u →
        u.reachability.notifierRunning = isMonitoring monitoring (id e) := by
    rintro t e u _ rfl step
    exact notifierRunning_of_step step
  exact run.simulates hstep rfl

/-- **A step does what it ought exactly if the condition holds.** -/
theorem registeredOnce_step_iff (h : m.Registered) (step : Step m e m') :
    RegisteredOnce ⟨m, e, m'⟩ ↔ StartsOnce ⟨m, e, m'⟩ := by
  cases step with
  | startMonitoring returned =>
    have hone := registrations_eq_one_iff h returned
    constructor
    · rintro honce _ ⟨⟩
      exact hone.mp (honce.started _ rfl)
    · intro hstarts
      refine ⟨?_, nofun, nofun⟩
      rintro _ ⟨⟩
      exact hone.mpr (hstarts _ rfl)
  | stopMonitoring => exact iff_of_true ⟨nofun, fun _ => rfl, nofun⟩ nofun
  | add listener => exact iff_of_true ⟨nofun, nofun, nofun⟩ nofun
  | remove listener => exact iff_of_true ⟨nofun, nofun, nofun⟩ nofun
  | flagsChanged flags running => exact iff_of_true ⟨nofun, nofun, nofun⟩ nofun
  | posted queued =>
    exact iff_of_true ⟨nofun, nofun, fun _ hrunning => post_snd_eq h hrunning⟩ nofun

/-- The condition keeps the invariant. -/
theorem registered_of_step (h : m.Registered) (step : Step m e m')
    (hstarts : StartsOnce ⟨m, e, m'⟩) : m'.Registered := by
  have hrunning := notifierRunning_of_step step
  cases step with
  | startMonitoring returned =>
    rw [Registered, hrunning]
    exact (registrations_eq_one_iff h returned).mpr (hstarts _ rfl)
  | stopMonitoring => rfl
  | add listener => exact h
  | remove listener => exact h
  | flagsChanged flags running =>
    rw [Registered, hrunning]
    exact h
  | posted queued =>
    obtain ⟨status, hpost⟩ := post_fst m
    rw [hpost]
    exact h

/-- **Monitoring registers one observer**: every call of `startMonitoring` that meets a success
returns; and in a run there is one registration after every start, none after every stop, and each
posted change reaches every listener once, exactly if every start finds monitoring off and succeeds
at the first attempt. -/
theorem registeredOnce_iff {ts : List (Transition (ReachabilityManager ι) (Event ι))}
    (run : Run Step {} ts m) :
    (∀ (t : ReachabilityManager ι) (answers : ℕ → NotifierAnswers), (∃ n, (answers n).Succeed) →
        ∃ fuel t', ∀ fuel' ≥ fuel, t.startMonitoring fuel' answers = some t') ∧
      ((∀ τ ∈ ts, RegisteredOnce τ) ↔ ∀ τ ∈ ts, StartsOnce τ) := by
  refine ⟨fun t answers => exists_startMonitoring t, ?_⟩
  exact run.forall_good_iff Registered (fun _ _ _ => registered_of_step)
    (fun _ _ _ => registeredOnce_step_iff) rfl

/-- The answers to an attempt that gets beyond the callback or not. -/
private def answersOf (setCallback : Bool) : NotifierAnswers :=
  ⟨setCallback, true, some { reachable := true }⟩

/-- Monitoring is started, a listener hears of the network, and monitoring is stopped and started
again. -/
theorem registeredOnce_iff_two : ∃ ts m, Run Step ({} : ReachabilityManager Unit) ts m ∧
    ts.length = 5 ∧ m.registrations = 1 ∧ ∀ τ ∈ ts, RegisteredOnce τ := by
  have started : Step ({} : ReachabilityManager Unit)
      (.startMonitoring fun _ => answersOf true) _ := @Step.startMonitoring _ _ _ _ _ 1 rfl
  have run := ((((Run.nil _).snoc started).snoc (.add ())).snoc (.posted (by decide))).snoc
    .stopMonitoring
  have run := run.snoc (@Step.startMonitoring _ _ _ _ (fun _ => answersOf true) 1 rfl)
  refine ⟨_, _, run, rfl, rfl, (registeredOnce_iff run).2.mpr ?_⟩
  simp only [List.nil_append, List.forall_mem_append, List.forall_mem_singleton]
  have hsucceed : (answersOf true).Succeed := by decide
  refine ⟨⟨⟨⟨?_, nofun⟩, nofun⟩, nofun⟩, ?_⟩
  · rintro _ ⟨⟩
    exact ⟨rfl, hsucceed⟩
  · rintro _ ⟨⟩
    exact ⟨rfl, hsucceed⟩

/-- The notifier starts at the second attempt: the manager is registered twice. -/
theorem not_registeredOnce : ¬ ∀ (m : ReachabilityManager Unit)
    (ts : List (Transition (ReachabilityManager Unit) (Event Unit))),
    Run Step {} ts m → ∀ τ ∈ ts, RegisteredOnce τ := by
  intro h
  have returned : ({} : ReachabilityManager Unit).startMonitoring 2
      (fun n => answersOf (n ≠ 0)) = some _ := rfl
  have run := (Run.nil _).snoc (Step.startMonitoring returned)
  have honce := h _ _ run _ (List.mem_singleton_self _)
  exact absurd (honce.started _ rfl) (by decide)

end ReachabilityManager

end TwitterLite
