import Mathlib.Logic.Function.Iterate
import TwitterLite.Library.TransitionSystem
import TwitterLite.Network.Reachability

/-!
# The banner of the network status

A view controller that is on screen is a listener of `ReachabilityManager`, and shows a
`NetworkStatusView` while the network cannot be reached. It keeps the view in one optional: each
message that the network cannot be reached puts a new view into the optional and onto the screen,
and a message that it can be reached removes the view in the optional alone. A controller hears of
the changes while it is on screen, and is not told the status when it appears.

`Screens` has the manager and all controllers, with what has happened to them as `History`: the
status published last, and for each controller how often it has appeared since it last disappeared
and the status that it heard last. The banner matches the network exactly if no controller hears
twice in a row that the network cannot be reached, or hears it as two listeners, and none appears
after it has missed that this changed (`Screens.bannerMatches_iff`).

## Main definitions

* `TwitterLite.BaseViewController`, `TwitterLite.BaseViewController.addRemoveNetworkView`.
* `TwitterLite.Screens`, `TwitterLite.Screens.Step`, `TwitterLite.History`.
* `TwitterLite.Screens.BannerMatches`, `TwitterLite.Screens.MissesNothing`.

## Main results

* `TwitterLite.Screens.deliver_apply`, `TwitterLite.Screens.bannerMatches_iff`.

Source: `BaseViewController.swift`, lines 19–58, 132–135 and 176–209; `ReachabilityManager.swift`,
lines 47–82.
-/

namespace TwitterLite

open TransitionSystem

/-! ### A controller -/

/-- What a `BaseViewController` has to do with the network. A `NetworkStatusView` is identified by
the number of those that were created before it. -/
structure BaseViewController where
  isNetworkAvailable : Bool := false
  networkStatusView : Option ℕ := none
  /-- The views of this kind among the subviews of its view. -/
  subviews : List ℕ := []
  created : ℕ := 0
  deriving DecidableEq, Repr

namespace BaseViewController

variable (controller : BaseViewController)

/-- `BaseViewController.addRemoveNetworkView`. -/
def addRemoveNetworkView (isNetworkAvailable : Bool) : BaseViewController :=
  if isNetworkAvailable then
    { controller with
      subviews := controller.subviews.filter fun view =>
        some view ≠ controller.networkStatusView
      networkStatusView := none }
  else
    { controller with
      networkStatusView := some controller.created
      subviews := controller.subviews ++ [controller.created]
      created := controller.created + 1 }

/-- `BaseViewController.networkStatusChanged`. -/
def networkStatusChanged (isNetworkAvailable : Bool) : BaseViewController :=
  { controller with isNetworkAvailable := isNetworkAvailable }.addRemoveNetworkView
    isNetworkAvailable

/-- `BaseViewController.networkStatusDidChange`. -/
def networkStatusDidChange : ConnectionStatus → BaseViewController
  | .none | .unavailable => controller.networkStatusChanged false
  | .wifi | .cellular => controller.networkStatusChanged true

end BaseViewController

/-- The network cannot be reached, for all that is known. -/
def ConnectionStatus.IsOffline (status : ConnectionStatus) : Prop :=
  status = .none ∨ status = .unavailable

instance (status : ConnectionStatus) : Decidable status.IsOffline :=
  inferInstanceAs (Decidable (_ ∨ _))

/-! ### All controllers -/

/-- What can happen: a published change, and a controller that appears or disappears. -/
inductive ScreenEvent (ι : Type*) where
  | reachabilityChanged (status : ConnectionStatus)
  | viewWillAppear (i : ι)
  | viewWillDisappear (i : ι)
  deriving DecidableEq

/-- What has happened: the status published last, and for each controller how often it has appeared
since it last disappeared, and the status published last while it was on screen. -/
structure History (ι : Type*) where
  published : Option ConnectionStatus := none
  appearances : ι → ℕ := fun _ => 0
  heard : ι → Option ConnectionStatus := fun _ => none

/-- The manager and the controllers. -/
structure Screens (ι : Type*) where
  manager : ReachabilityManager ι := {}
  controllers : ι → BaseViewController := fun _ => {}
  history : History ι := {}

variable {ι : Type*} [DecidableEq ι]

/-- The history after an event. -/
def History.next (history : History ι) : ScreenEvent ι → History ι
  | .reachabilityChanged status =>
    { history with
      published := some status
      heard := fun i => if 0 < history.appearances i then some status else history.heard i }
  | .viewWillAppear i =>
    { history with
      appearances := Function.update history.appearances i (history.appearances i + 1) }
  | .viewWillDisappear i =>
    { history with appearances := Function.update history.appearances i 0 }

namespace Screens

/-- The listeners are called one after another. -/
def deliver (calls : List (ι × ConnectionStatus)) (controllers : ι → BaseViewController) :
    ι → BaseViewController :=
  calls.foldl (fun controllers call => Function.update controllers call.1
    ((controllers call.1).networkStatusDidChange call.2)) controllers

/-- `ReachabilityManager.reachabilityChanged`, `BaseViewController.viewWillAppear` and
`BaseViewController.viewWillDisappear`. -/
def next (s : Screens ι) (e : ScreenEvent ι) : Screens ι :=
  match e with
  | .reachabilityChanged status =>
    let published := s.manager.publish status
    { manager := published.1
      controllers := deliver published.2 s.controllers
      history := s.history.next e }
  | .viewWillAppear i => { s with manager := s.manager.add i, history := s.history.next e }
  | .viewWillDisappear i => { s with manager := s.manager.remove i, history := s.history.next e }

/-- One step. -/
inductive Step : Screens ι → ScreenEvent ι → Screens ι → Prop
  | intro (s : Screens ι) (e : ScreenEvent ι) : Step s e (s.next e)

/-! ### The property and its condition -/

/-- The controller is on screen. -/
def OnScreen (i : ι) (s : Screens ι) : Prop := 0 < s.history.appearances i

/-- While the controller is on screen and a change has been published, there is one banner on it if
the network cannot be reached, and none otherwise. -/
def BannerMatches (i : ι) (s : Screens ι) : Prop :=
  s.OnScreen i → ∀ status, s.history.published = some status →
    (s.controllers i).subviews.length = if status.IsOffline then 1 else 0

/-- The status is known and the network cannot be reached. -/
def IsKnownOffline (status : Option ConnectionStatus) : Prop := ∃ known ∈ status, known.IsOffline

/-- The condition on a step: if it is published, while the controller is on screen, that the network
cannot be reached, then the controller has appeared once since it last disappeared, and has not
heard the same before; and if the controller comes on screen, then whether the network can be
reached is as it heard last. -/
def MissesNothing (i : ι) (τ : Transition (Screens ι) (ScreenEvent ι)) : Prop :=
  (∀ status, τ.event = .reachabilityChanged status → status.IsOffline → τ.source.OnScreen i →
    τ.source.history.appearances i = 1 ∧ ¬ IsKnownOffline (τ.source.history.heard i)) ∧
  (τ.event = .viewWillAppear i → ¬ τ.source.OnScreen i →
    (IsKnownOffline τ.source.history.published ↔ IsKnownOffline (τ.source.history.heard i)))

end Screens

/-! ### Messages to one controller -/

namespace BaseViewController

variable {controller : BaseViewController} {status : ConnectionStatus}

theorem networkStatusDidChange_of_offline (h : status.IsOffline) :
    controller.networkStatusDidChange status = controller.networkStatusChanged false := by
  rcases h with rfl | rfl <;> rfl

theorem networkStatusDidChange_of_online (h : ¬ status.IsOffline) :
    controller.networkStatusDidChange status = controller.networkStatusChanged true := by
  cases status with
  | none => exact absurd (.inl rfl) h
  | unavailable => exact absurd (.inr rfl) h
  | wifi => rfl
  | cellular => rfl

/-- There is no banner. -/
def IsBare (controller : BaseViewController) : Prop := controller.subviews = []

/-- There is one banner, and the controller knows it. -/
def IsBannered (controller : BaseViewController) : Prop :=
  ∃ view, controller.networkStatusView = some view ∧ controller.subviews = [view]

/-- Each message that the network cannot be reached adds a banner. -/
theorem length_subviews_offline (h : status.IsOffline) (n : ℕ) (controller : BaseViewController) :
    ((fun c : BaseViewController => c.networkStatusDidChange status)^[n]
      controller).subviews.length = controller.subviews.length + n := by
  induction n generalizing controller with
  | zero => rfl
  | succ n ih =>
    have hadded : (controller.networkStatusChanged false).subviews.length =
        controller.subviews.length + 1 := List.length_append
    rw [Function.iterate_succ_apply, ih, networkStatusDidChange_of_offline h, hadded]
    omega

theorem IsBare.offline (h : controller.IsBare) (hoffline : status.IsOffline) :
    (controller.networkStatusDidChange status).IsBannered := by
  rw [networkStatusDidChange_of_offline hoffline]
  refine ⟨controller.created, rfl, ?_⟩
  change controller.subviews ++ [controller.created] = _
  rw [h, List.nil_append]

theorem IsBare.online (h : controller.IsBare) (honline : ¬ status.IsOffline) :
    (controller.networkStatusDidChange status).IsBare := by
  rw [networkStatusDidChange_of_online honline]
  change controller.subviews.filter _ = []
  rw [h, List.filter_nil]

/-- The message that the network can be reached removes the one banner. -/
theorem IsBannered.online (h : controller.IsBannered) (honline : ¬ status.IsOffline) :
    (controller.networkStatusDidChange status).IsBare := by
  obtain ⟨view, hview, hsubviews⟩ := h
  rw [networkStatusDidChange_of_online honline]
  change controller.subviews.filter (fun view => some view ≠ controller.networkStatusView) = []
  simp [hview, hsubviews]

/-- Told once or more often that the network can be reached, a controller with one banner or none
has none. -/
theorem isBare_iterate_online (h : controller.IsBare ∨ controller.IsBannered)
    (honline : ¬ status.IsOffline) (n : ℕ) :
    ((fun c : BaseViewController => c.networkStatusDidChange status)^[n + 1]
      controller).IsBare := by
  induction n with
  | zero => exact h.elim (fun h => h.online honline) fun h => h.online honline
  | succ n ih =>
    rw [Function.iterate_succ_apply']
    exact ih.online honline

end BaseViewController

namespace Screens

variable {i : ι} {s s' : Screens ι} {e : ScreenEvent ι}

theorem isKnownOffline_some {status : ConnectionStatus} :
    IsKnownOffline (some status) ↔ status.IsOffline := by
  simp [IsKnownOffline]

theorem not_isKnownOffline_none : ¬ IsKnownOffline none := by
  simp [IsKnownOffline]

theorem onScreen_appear (j : ι) :
    (s.next (.viewWillAppear j)).OnScreen i ↔ j = i ∨ s.OnScreen i := by
  change 0 < Function.update s.history.appearances j _ i ↔ j = i ∨ 0 < s.history.appearances i
  by_cases hj : j = i
  · subst hj
    simp
  · simp [hj, Ne.symm hj]

theorem onScreen_disappear (j : ι) :
    (s.next (.viewWillDisappear j)).OnScreen i ↔ j ≠ i ∧ s.OnScreen i := by
  change 0 < Function.update s.history.appearances j 0 i ↔ j ≠ i ∧ 0 < s.history.appearances i
  by_cases hj : j = i
  · subst hj
    simp
  · simp [hj, Ne.symm hj]

/-- The entries of a controller in the list are its appearances. -/
theorem count_next (h : s.manager.listeners.count i = s.history.appearances i)
    (e : ScreenEvent ι) : (s.next e).manager.listeners.count i =
      (s.next e).history.appearances i := by
  cases e with
  | reachabilityChanged status => exact h
  | viewWillAppear j =>
    change (s.manager.listeners ++ [j]).count i =
      Function.update s.history.appearances j (s.history.appearances j + 1) i
    rw [List.count_append, h]
    by_cases hj : j = i
    · subst hj
      rw [List.count_singleton_self, Function.update_self]
    · rw [Function.update_of_ne (Ne.symm hj), List.count_singleton, if_neg (by simpa using hj),
        Nat.add_zero]
  | viewWillDisappear j =>
    change (s.manager.listeners.filter fun other => other ≠ j).count i =
      Function.update s.history.appearances j 0 i
    by_cases hj : j = i
    · subst hj
      rw [Function.update_self, List.count_eq_zero]
      simp
    · rw [Function.update_of_ne (Ne.symm hj), List.count_filter (by simpa using Ne.symm hj), h]

/-- **What a controller hears of a published change**: the message once for each of its entries in
the list. -/
theorem deliver_apply (listeners : List ι) (status : ConnectionStatus)
    (controllers : ι → BaseViewController) (i : ι) :
    deliver (listeners.map fun listener => (listener, status)) controllers i =
      (fun c : BaseViewController => c.networkStatusDidChange status)^[listeners.count i]
        (controllers i) := by
  unfold deliver
  induction listeners generalizing controllers with
  | nil => rfl
  | cons listener listeners ih =>
    rw [List.map_cons, List.foldl_cons, ih]
    by_cases hi : listener = i
    · subst hi
      rw [List.count_cons_self, Function.iterate_succ_apply, Function.update_self]
    · rw [List.count_cons_of_ne hi, Function.update_of_ne (Ne.symm hi)]

/-- What holds of a controller: its entries in the list are its appearances, it shows what it heard
last, and while it is on screen this is up to date. -/
structure Sound (i : ι) (s : Screens ι) : Prop where
  count_eq : s.manager.listeners.count i = s.history.appearances i
  bannered : IsKnownOffline (s.history.heard i) → (s.controllers i).IsBannered
  bare : ¬ IsKnownOffline (s.history.heard i) → (s.controllers i).IsBare
  current : s.OnScreen i →
    (IsKnownOffline s.history.published ↔ IsKnownOffline (s.history.heard i))
  unheard : s.history.published = none → s.history.heard i = none

theorem sound_initial (i : ι) : Sound i {} where
  count_eq := rfl
  bannered := fun ⟨_, h, _⟩ => nomatch h
  bare _ := rfl
  current _ := Iff.rfl
  unheard _ := rfl

namespace Sound

variable (h : Sound i s)

include h

/-- The number of banners is right exactly if the controller is up to date. -/
theorem forall_published_iff : (∀ status, s.history.published = some status →
      (s.controllers i).subviews.length = if status.IsOffline then 1 else 0) ↔
    (IsKnownOffline s.history.published ↔ IsKnownOffline (s.history.heard i)) := by
  cases hpublished : s.history.published with
  | none =>
    rw [h.unheard hpublished]
    exact iff_of_true nofun Iff.rfl
  | some status =>
    rw [isKnownOffline_some]
    simp only [Option.some.injEq, forall_eq']
    by_cases hheard : IsKnownOffline (s.history.heard i)
    · obtain ⟨view, -, hsubviews⟩ := h.bannered hheard
      rw [hsubviews, iff_true_right hheard]
      split_ifs with hoffline <;> simp [hoffline]
    · rw [h.bare hheard, iff_false_right hheard]
      split_ifs with hoffline <;> simp [hoffline]

theorem bannerMatches : s.BannerMatches i := fun hscreen =>
  h.forall_published_iff.mpr (h.current hscreen)

/-- What the controller hears of a published change. -/
theorem controllers_published (status : ConnectionStatus) :
    (s.next (.reachabilityChanged status)).controllers i =
      (fun c : BaseViewController => c.networkStatusDidChange status)^[s.history.appearances i]
        (s.controllers i) := by
  rw [← h.count_eq]
  exact deliver_apply s.manager.listeners status s.controllers i

theorem bare_or_bannered : (s.controllers i).IsBare ∨ (s.controllers i).IsBannered := by
  by_cases hheard : IsKnownOffline (s.history.heard i)
  · exact .inr (h.bannered hheard)
  · exact .inl (h.bare hheard)

/-- Once it is published that the network can be reached, there is no banner on screen. -/
theorem isBare_published {status : ConnectionStatus} (hscreen : s.OnScreen i)
    (honline : ¬ status.IsOffline) :
    ((s.next (.reachabilityChanged status)).controllers i).IsBare := by
  obtain ⟨n, hn⟩ := Nat.exists_eq_add_of_lt hscreen
  rw [h.controllers_published, hn, Nat.zero_add]
  exact BaseViewController.isBare_iterate_online h.bare_or_bannered honline n

/-- If there is one banner on screen once it is published that the network cannot be reached, the
controller has heard it once, and has not heard it before. -/
theorem heard_once_of_length {status : ConnectionStatus} (hscreen : s.OnScreen i)
    (hoffline : status.IsOffline)
    (hlength : ((s.next (.reachabilityChanged status)).controllers i).subviews.length = 1) :
    s.history.appearances i = 1 ∧ ¬ IsKnownOffline (s.history.heard i) := by
  have hpos : 0 < s.history.appearances i := hscreen
  rw [h.controllers_published, BaseViewController.length_subviews_offline hoffline] at hlength
  have hnew : ¬ IsKnownOffline (s.history.heard i) := by
    intro hheard
    obtain ⟨view, -, hsubviews⟩ := h.bannered hheard
    rw [hsubviews, List.length_singleton] at hlength
    omega
  rw [h.bare hnew, List.length_nil, Nat.zero_add] at hlength
  exact ⟨hlength, hnew⟩

/-- A published change that meets the condition leaves the controller up to date. -/
theorem published {status : ConnectionStatus} (hfirst : status.IsOffline → s.OnScreen i →
      s.history.appearances i = 1 ∧ ¬ IsKnownOffline (s.history.heard i)) :
    Sound i (s.next (.reachabilityChanged status)) := by
  by_cases hscreen : s.OnScreen i
  · have hheard : (s.next (.reachabilityChanged status)).history.heard i = some status :=
      if_pos hscreen
    refine ⟨count_next h.count_eq _, fun hoffline => ?_, fun honline => ?_, fun _ => ?_, nofun⟩
    · rw [hheard, isKnownOffline_some] at hoffline
      obtain ⟨hone, hnew⟩ := hfirst hoffline hscreen
      rw [h.controllers_published, hone]
      exact (h.bare hnew).offline hoffline
    · rw [hheard, isKnownOffline_some] at honline
      exact h.isBare_published hscreen honline
    · rw [hheard]
      rfl
  · have hheard : (s.next (.reachabilityChanged status)).history.heard i = s.history.heard i :=
      if_neg hscreen
    have hsame : (s.next (.reachabilityChanged status)).controllers i = s.controllers i := by
      rw [h.controllers_published, Nat.eq_zero_of_not_pos hscreen, Function.iterate_zero_apply]
    refine ⟨count_next h.count_eq _, ?_, ?_, fun hscreen' => absurd hscreen' hscreen, nofun⟩
    · rw [hheard, hsame]
      exact h.bannered
    · rw [hheard, hsame]
      exact h.bare

/-- A published change is shown rightly exactly if the condition holds. -/
theorem published_iff (status : ConnectionStatus) :
    (s.next (.reachabilityChanged status)).BannerMatches i ↔
      (status.IsOffline → s.OnScreen i →
        s.history.appearances i = 1 ∧ ¬ IsKnownOffline (s.history.heard i)) := by
  constructor
  · intro hmatches hoffline hscreen
    have hlength := hmatches hscreen status rfl
    rw [if_pos hoffline] at hlength
    exact h.heard_once_of_length hscreen hoffline hlength
  · exact fun hfirst => (h.published hfirst).bannerMatches

/-- A controller that appears is up to date if it was so, or has missed nothing. -/
theorem appeared {j : ι} (hmissed : j = i → ¬ s.OnScreen i →
      (IsKnownOffline s.history.published ↔ IsKnownOffline (s.history.heard i))) :
    Sound i (s.next (.viewWillAppear j)) := by
  refine ⟨count_next h.count_eq _, h.bannered, h.bare, fun hscreen => ?_, h.unheard⟩
  by_cases hbefore : s.OnScreen i
  · exact h.current hbefore
  · exact hmissed (((onScreen_appear j).mp hscreen).resolve_right hbefore) hbefore

/-- A controller that comes on screen is up to date exactly if it has missed nothing. -/
theorem appeared_iff (j : ι) : (s.next (.viewWillAppear j)).BannerMatches i ↔
    (j = i → ¬ s.OnScreen i →
      (IsKnownOffline s.history.published ↔ IsKnownOffline (s.history.heard i))) := by
  constructor
  · intro hmatches hj _
    exact h.forall_published_iff.mp (hmatches ((onScreen_appear j).mpr (.inl hj)))
  · exact fun hmissed => (h.appeared hmissed).bannerMatches

/-- A controller that disappears is on screen no longer. -/
theorem disappeared (j : ι) : Sound i (s.next (.viewWillDisappear j)) :=
  ⟨count_next h.count_eq _, h.bannered, h.bare,
    fun hscreen => h.current ((onScreen_disappear j).mp hscreen).2, h.unheard⟩

/-- A step that meets the condition keeps the invariant. -/
theorem of_step (step : Step s e s') (hmisses : MissesNothing i ⟨s, e, s'⟩) : Sound i s' := by
  cases step
  cases e with
  | reachabilityChanged status => exact h.published (hmisses.1 status rfl)
  | viewWillAppear j =>
    refine h.appeared ?_
    rintro rfl
    exact hmisses.2 rfl
  | viewWillDisappear j => exact h.disappeared j

/-- **After a step the banner matches exactly if the condition holds.** -/
theorem bannerMatches_step_iff (step : Step s e s') :
    s'.BannerMatches i ↔ MissesNothing i ⟨s, e, s'⟩ := by
  cases step
  cases e with
  | reachabilityChanged status =>
    rw [h.published_iff]
    constructor
    · intro hfirst
      refine ⟨?_, nofun⟩
      rintro _ ⟨⟩
      exact hfirst
    · exact fun hmisses => hmisses.1 status rfl
  | viewWillAppear j =>
    rw [h.appeared_iff]
    constructor
    · intro hmissed
      refine ⟨nofun, ?_⟩
      rintro ⟨⟩
      exact hmissed rfl
    · rintro hmisses rfl
      exact hmisses.2 rfl
  | viewWillDisappear j => exact iff_of_true (h.disappeared j).bannerMatches ⟨nofun, nofun⟩

end Sound

/-- **The banner matches the network** in every state of a run, exactly if in every step of the run
the controller misses nothing: it hears once that the network cannot be reached, and comes on screen
knowing whether it can. -/
theorem bannerMatches_iff {ts : List (Transition (Screens ι) (ScreenEvent ι))}
    (run : Run Step {} ts s) (i : ι) :
    (∀ τ ∈ ts, τ.target.BannerMatches i) ↔ ∀ τ ∈ ts, MissesNothing i τ :=
  run.forall_good_iff (Sound i) (fun _ _ _ h step => h.of_step step)
    (fun _ _ _ h step => h.bannerMatches_step_iff step) (sound_initial i)

/-- A controller appears, hears that the network cannot be reached and that it can, disappears, and
appears again. -/
theorem bannerMatches_iff_five : ∃ ts s, Run Step ({} : Screens Unit) ts s ∧ ts.length = 5 ∧
    (s.controllers ()).created = 1 ∧ ∀ τ ∈ ts, τ.target.BannerMatches () := by
  have run := ((((Run.nil ({} : Screens Unit)).snoc
    (Step.intro _ (.viewWillAppear ()))).snoc
    (Step.intro _ (.reachabilityChanged .unavailable))).snoc
    (Step.intro _ (.reachabilityChanged .wifi))).snoc
    (Step.intro _ (.viewWillDisappear ()))
  have run := run.snoc (Step.intro _ (.viewWillAppear ()))
  refine ⟨_, _, run, rfl, rfl, (bannerMatches_iff run ()).mpr ?_⟩
  simp only [List.nil_append, List.forall_mem_append, List.forall_mem_singleton]
  refine ⟨⟨⟨⟨⟨nofun, fun _ _ => Iff.rfl⟩, ?_, nofun⟩, ?_, nofun⟩, nofun, nofun⟩,
    nofun, fun _ _ => Iff.rfl⟩
  · rintro _ ⟨⟩ - -
    exact ⟨rfl, not_isKnownOffline_none⟩
  · rintro _ ⟨⟩ hoffline
    exact absurd hoffline (by decide)

/-- The network cannot be reached, and the flags change: there are two banners. -/
theorem not_bannerMatches : ¬ ∀ (s : Screens Unit)
    (ts : List (Transition (Screens Unit) (ScreenEvent Unit))),
    Run Step {} ts s → ∀ τ ∈ ts, τ.target.BannerMatches () := by
  intro h
  have run := (((Run.nil ({} : Screens Unit)).snoc
    (Step.intro _ (.viewWillAppear ()))).snoc
    (Step.intro _ (.reachabilityChanged .unavailable))).snoc
    (Step.intro _ (.reachabilityChanged .unavailable))
  have hmatches := h _ _ run _ (List.mem_append_right _ (List.mem_singleton_self _))
  exact absurd (hmatches Nat.one_pos .unavailable rfl) (by decide)

end Screens

end TwitterLite
