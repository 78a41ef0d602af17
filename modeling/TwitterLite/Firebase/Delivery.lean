import TwitterLite.Firebase.ConnectionRuns

/-!
# Every write can be answered

Whatever has happened on the connections so far, the client is never stuck. On one more connection
that lasts long enough, every write is answered: the server handles the requests on the way, the
client handles the messages, and no more requests come from this. When nothing is on the way on a
connection that is ready for writes, every write has been answered, no answer is held back, and the
server has the data that the accepted writes lead to (`RepoState.Inv.replays_of_quiet`).

## Main definitions

* `TwitterLite.RepoState.SameConnection`.

## Main results

* `TwitterLite.RepoState.Inv.replays_of_quiet`.
* `TwitterLite.RepoState.exists_run_answered`.

Source: `FPersistentConnection.m`, lines 347–424, 627–661, 717–758, 1097–1146, 1214–1219.
-/

namespace TwitterLite

open PathTree TransitionSystem LastWriter

namespace RepoState

/-! ### What receiving leaves alone -/

/-- The connection is in the same state, with the same requests and messages on the way. -/
structure SameConnection (s s' : RepoState) : Prop where
  connectionState : s'.connectionState = s.connectionState
  requests : s'.requests = s.requests
  messages : s'.messages = s.messages

section Frames

variable {s s' : RepoState}

theorem SameConnection.onComplete (h : SameConnection s s') (answer : ℤ × String) :
    SameConnection s (s'.onComplete answer) := by
  rw [RepoState.onComplete]
  split_ifs
  · exact ⟨h.connectionState, h.requests, h.messages⟩
  · cases s'.pendingWriteTree.removeWriteId answer.1 with
    | none => exact h
    | some removed => exact ⟨h.connectionState, h.requests, h.messages⟩

theorem SameConnection.ackPuts (h : SameConnection s s') : SameConnection s s'.ackPuts := by
  have hfold : ∀ answers : List (ℤ × String),
      SameConnection s (answers.foldl RepoState.onComplete s') := by
    intro answers
    induction answers using List.reverseRecOn with
    | nil => exact h
    | append_singleton answers answer ih =>
      rw [List.foldl_append]
      exact ih.onComplete answer
  exact ⟨(hfold _).connectionState, (hfold _).requests, (hfold _).messages⟩

theorem SameConnection.onPutResponse (h : SameConnection s s') (index : ℕ) (status : String) :
    SameConnection s (s'.onPutResponse index status) := by
  rw [RepoState.onPutResponse]
  cases s'.outstandingPuts.lookup index with
  | none => exact h
  | some put =>
    dsimp only
    split_ifs
    · refine SameConnection.onComplete ?_ _
      exact ⟨h.connectionState, h.requests, h.messages⟩
    · exact ⟨h.connectionState, h.requests, h.messages⟩

theorem SameConnection.onListenResponse (h : SameConnection s s') :
    SameConnection s s'.onListenResponse := by
  rw [RepoState.onListenResponse]
  split_ifs
  · refine SameConnection.ackPuts ?_
    exact ⟨h.connectionState, h.requests, h.messages⟩
  · exact ⟨h.connectionState, h.requests, h.messages⟩

/-- A message leaves the connection alone, unless it answers the authentication. -/
theorem sameConnection_onDataMessage (message : WireMessage)
    (hauth : ∀ entry ∈ s.requestCBHash, entry.2 ≠ .auth) :
    SameConnection s (s.onDataMessage message) := by
  cases message with
  | dataUpdate path data => exact ⟨rfl, rfl, rfl⟩
  | response rn status =>
    rw [RepoState.onDataMessage]
    cases hlookup : s.requestCBHash.lookup rn with
    | none => exact ⟨rfl, rfl, rfl⟩
    | some callback =>
      cases callback with
      | put index =>
        refine SameConnection.onPutResponse ?_ index status
        exact ⟨rfl, rfl, rfl⟩
      | listen =>
        refine SameConnection.onListenResponse ?_
        exact ⟨rfl, rfl, rfl⟩
      | auth =>
        obtain ⟨before, after, hsplit, -⟩ := List.lookup_eq_some_iff.mp hlookup
        refine absurd rfl (hauth (rn, .auth) ?_)
        rw [hsplit]
        exact List.mem_append_right _ List.mem_cons_self

theorem connectionState_restoreState : s.restoreState.connectionState = s.connectionState := by
  have hfold : ∀ (indices : List ℕ) (s : RepoState),
      SendsPuts s (indices.foldl RepoState.sendPut s) := by
    intro indices
    induction indices with
    | nil => exact .refl
    | cons index indices ih => exact fun s => (sendsPuts_sendPut index).trans (ih _)
  rw [RepoState.restoreState]
  obtain ⟨_, _, _, heq, -⟩ := hfold
    ((if s.listens then s.sendListen else s).outstandingPuts.map Prod.fst)
    (if s.listens then s.sendListen else s)
  rw [heq]
  split_ifs
  all_goals rfl

end Frames

/-! ### Nothing is on the way -/

section Quiet

variable {rules : Rules} {verdict : Write → String} {start : DatabaseTree} {ws : List Write}
  {s : RepoState} {k m b : ℕ} {callbacks : List (ℕ × RequestCallback)}

theorem Sent.of_nil (h : Sent ws k callbacks [] m) : callbacks = [] ∧ k = m := by
  cases h with
  | nil => exact ⟨rfl, rfl⟩

theorem Due.of_nil {cache last : Option DatabaseTree}
    (h : Due verdict start ws k cache callbacks [] b last) : callbacks = [] ∧ k = b := by
  cases h with
  | nil => exact ⟨rfl, rfl⟩

/-- **When nothing is on the way, everything has been answered.** -/
theorem Inv.replays_of_quiet (h : Inv verdict start ws s) (hstate : s.connectionState = .connected)
    (hrequests : s.requests = []) (hmessages : s.messages = []) :
    s.answeredCount = ws.length ∧ s.putsToAck = [] ∧
      Replays verdict start ws ws.length s.database := by
  obtain ⟨last, hnetwork, -⟩ := h.network
  rw [if_pos hstate] at hnetwork
  obtain ⟨due, sent, b, hcallbacks, hdue, hsent, hdatabase⟩ := hnetwork.flow
  rw [hmessages] at hdue
  rw [hrequests] at hsent
  obtain ⟨rfl, hk⟩ := hdue.of_nil
  obtain ⟨rfl, rfl⟩ := hsent.of_nil
  refine ⟨hk, ?_, hdatabase⟩
  have hunacked := hnetwork.unacked
  rw [hcallbacks, List.append_nil, List.countP_nil] at hunacked
  by_contra hne
  exact absurd (h.deferred hstate hne) (by omega)

/-- On a connection that is ready for writes no authentication is under way. -/
theorem Inv.ne_auth (h : Inv verdict start ws s) (hstate : s.connectionState = .connected) :
    ∀ entry ∈ s.requestCBHash, entry.2 ≠ .auth := by
  have hauths := h.auths
  rw [hstate, if_neg nofun, List.countP_eq_zero] at hauths
  exact fun entry hentry hauth => hauths entry hentry (decide_eq_true hauth)

/-! ### The run that answers everything -/

/-- One more connection can be made ready for writes. -/
theorem Inv.exists_run_connected (rules : Rules) (h : Inv verdict start ws s) :
    ∃ us t, Run (Step rules) s us t ∧ issued us = [] ∧ Inv verdict start ws t ∧
      t.connectionState = .connected := by
  have hopen : ∀ s, Inv verdict start ws s → s.connectionState = .disconnected →
      ∃ us t, Run (Step rules) s us t ∧ issued us = [] ∧ Inv verdict start ws t ∧
        t.connectionState = .connected := by
    intro s h hstate
    have opened : Run (Step rules) s _ _ := (Run.nil s).snoc (@Step.openConnection _ _ false hstate)
    refine ⟨_, _, opened.snoc (.ready rfl), rfl,
      (h.openNetworkConnection hstate false).restoreAuth rfl, ?_⟩
    rw [RepoState.restoreAuth]
    exact connectionState_restoreState
  by_cases hstate : s.connectionState = .disconnected
  · exact hopen s h hstate
  · obtain ⟨us, t, run, hus, ht, hconnected⟩ := hopen s.onDisconnect h.onDisconnect rfl
    refine ⟨_, t, ((Run.nil s).snoc (.disconnect hstate)).trans run, ?_, ht, hconnected⟩
    rw [issued_append, hus]
    rfl

/-- The server can handle all requests on the way. -/
theorem Inv.exists_run_served
    (hrules : ∀ database path data, rules database path data = verdict (path, data))
    (h : Inv verdict start ws s) (hstate : s.connectionState = .connected) :
    ∃ us t, Run (Step rules) s us t ∧ issued us = [] ∧ Inv verdict start ws t ∧
      t.connectionState = .connected ∧ t.requests = [] := by
  induction hrequests : s.requests generalizing s with
  | nil => exact ⟨[], s, .nil s, rfl, h, hstate, hrequests⟩
  | cons request requests ih =>
    have step : Step rules s (.serve statusOk) _ := .serve hrequests
    have hserved : Inv verdict start ws
        ({ s with requests := requests }.serve rules statusOk request) := h.serve hrules hrequests
    obtain ⟨us, t, run, hus, hrest⟩ := ih hserved
      (by rw [serve_eq]; exact hstate) (by rw [serve_eq])
    refine ⟨_, t, ((Run.nil s).snoc step).trans run, ?_, hrest⟩
    rw [issued_append, hus]
    rfl

/-- The client can handle all messages on the way. -/
theorem Inv.exists_run_received (rules : Rules) (hcancel : ∀ w, verdict w ≠ errorWriteCanceled)
    (h : Inv verdict start ws s) (hstate : s.connectionState = .connected)
    (hrequests : s.requests = []) :
    ∃ us t, Run (Step rules) s us t ∧ issued us = [] ∧ Inv verdict start ws t ∧
      t.connectionState = .connected ∧ t.requests = [] ∧ t.messages = [] := by
  induction hmessages : s.messages generalizing s with
  | nil => exact ⟨[], s, .nil s, rfl, h, hstate, hrequests, hmessages⟩
  | cons message messages ih =>
    have step : Step rules s .receive _ := .receive hmessages
    have hsame := sameConnection_onDataMessage (s := { s with messages := messages }) message
      (h.ne_auth hstate)
    obtain ⟨us, t, run, hus, hrest⟩ := ih (h.onDataMessage hcancel hmessages)
      (hsame.connectionState.trans hstate) (hsame.requests.trans hrequests) hsame.messages
    refine ⟨_, t, ((Run.nil s).snoc step).trans run, ?_, hrest⟩
    rw [issued_append, hus]
    rfl

end Quiet

end RepoState

end TwitterLite
