import TwitterLite.Firebase.Connection

/-!
# What is on the way between the client and the server

The issued writes decide what the client keeps of them: the pending records, the puts with their
numbers, and the answers that are to come. The requests and messages on the way continue each other:
the messages answer the oldest callbacks and take the writes up to some position (`RepoState.Due`),
the requests belong to the other callbacks and take the writes on from there (`RepoState.Sent`), and
the data of the server is as far as the messages are. When the connection is lost, both lists are
empty, and the writes from the first unanswered one on are sent again.

How far the data of the server or of the client is cannot be said by a number of writes, since some
of them may have been made and then made again. It is said by a log of accepted writes which the
writes from some position on continue to what all of them lead to (`RepoState.Replays`).

## Main definitions

* `TwitterLite.RepoState.records`, `TwitterLite.RepoState.puts`, `TwitterLite.RepoState.answers`.
* `TwitterLite.RepoState.Replays`.
* `TwitterLite.RepoState.Sent`, `TwitterLite.RepoState.Due`, `TwitterLite.RepoState.Network`.

## Main results

* `TwitterLite.RepoState.Replays.leafAt_replay_drop`,
  `TwitterLite.RepoState.Replays.leafAt_replay_filter`.
* `TwitterLite.RepoState.Network.response`, `TwitterLite.RepoState.Network.serve`,
  `TwitterLite.RepoState.Network.restoreState`, `TwitterLite.RepoState.Network.onDisconnect`.

Source: `FPersistentConnection.m`, lines 325–429, 540–560, 627–661, 816–847, 981–1002, 1097–1146.
-/

namespace TwitterLite

open PathTree TransitionSystem LastWriter

/-- The write that a put sends. -/
def FOutstandingPut.write (put : FOutstandingPut) : List String × DatabaseTree :=
  (put.path, put.data)

namespace RepoState

/-- A write: its path, and the value that is set there. -/
abbrev Write := List String × DatabaseTree

/-! ### What follows from the writes that have been issued -/

/-- The records of the issued writes. -/
def records (ws : List Write) : List FWriteRecord :=
  ws.zipIdx.map fun entry => ⟨entry.2, entry.1.1, entry.1.2, true⟩

/-- The puts of the issued writes. -/
def puts (ws : List Write) : List (ℕ × FOutstandingPut) :=
  ws.zipIdx.map fun entry => (entry.2 + 1, ⟨entry.1.1, entry.1.2, entry.2⟩)

/-- The answers to the issued writes. -/
def answers (verdict : Write → String) (ws : List Write) : List (ℤ × String) :=
  ws.zipIdx.map fun entry => (entry.2, verdict entry.1)

/-- Whether the answer to a write is that it has been made. -/
def accepts (verdict : Write → String) (w : Write) : Bool := verdict w = statusOk

section Lists

variable {verdict : Write → String} {ws : List Write} {w : Write} {k : ℕ}

theorem length_records : (records ws).length = ws.length := by
  rw [records, List.length_map, List.length_zipIdx]

theorem length_puts : (puts ws).length = ws.length := by
  rw [puts, List.length_map, List.length_zipIdx]

theorem length_answers : (answers verdict ws).length = ws.length := by
  rw [answers, List.length_map, List.length_zipIdx]

theorem records_append_singleton :
    records (ws ++ [w]) = records ws ++ [⟨ws.length, w.1, w.2, true⟩] := by
  rw [records, List.zipIdx_append, List.map_append, Nat.zero_add]
  rfl

theorem puts_append_singleton :
    puts (ws ++ [w]) = puts ws ++ [(ws.length + 1, ⟨w.1, w.2, ws.length⟩)] := by
  rw [puts, List.zipIdx_append, List.map_append, Nat.zero_add]
  rfl

theorem answers_append_singleton :
    answers verdict (ws ++ [w]) = answers verdict ws ++ [((ws.length : ℤ), verdict w)] := by
  rw [answers, List.zipIdx_append, List.map_append, Nat.zero_add]
  rfl

theorem map_write_records : (records ws).map FWriteRecord.write = ws := by
  rw [records, List.map_map]
  exact List.zipIdx_map_fst 0 ws

theorem map_write_drop_puts :
    (((puts ws).drop k).map fun put => put.2.write) = ws.drop k := by
  rw [List.map_drop, puts, List.map_map]
  exact congrArg (List.drop k) (List.zipIdx_map_fst 0 ws)

theorem drop_records (hw : ws[k]? = some w) :
    (records ws).drop k = ⟨k, w.1, w.2, true⟩ :: (records ws).drop (k + 1) := by
  obtain ⟨hk, rfl⟩ := List.getElem?_eq_some_iff.mp hw
  rw [List.drop_eq_getElem_cons (by rwa [length_records])]
  simp [records]

theorem drop_puts (hw : ws[k]? = some w) :
    (puts ws).drop k = (k + 1, ⟨w.1, w.2, k⟩) :: (puts ws).drop (k + 1) := by
  obtain ⟨hk, rfl⟩ := List.getElem?_eq_some_iff.mp hw
  rw [List.drop_eq_getElem_cons (by rwa [length_puts])]
  simp [puts]

theorem take_answers (verdict : Write → String) (hw : ws[k]? = some w) :
    (answers verdict ws).take (k + 1) =
      (answers verdict ws).take k ++ [((k : ℤ), verdict w)] := by
  obtain ⟨hk, rfl⟩ := List.getElem?_eq_some_iff.mp hw
  rw [← List.take_concat_get' _ _ (by rwa [length_answers])]
  simp [answers]

/-- The numbers of the puts from a position on. -/
theorem lt_of_mem_drop_puts {put : ℕ × FOutstandingPut} (h : put ∈ (puts ws).drop k) :
    k < put.1 := by
  obtain ⟨i, hi, rfl⟩ := List.mem_iff_getElem.mp h
  rw [List.getElem_drop]
  simp only [puts, List.getElem_map, List.getElem_zipIdx]
  omega

end Lists

/-! ### The data that the accepted writes lead to -/

/-- The data is that of the start with the log of some accepted writes, and the writes from a
position on continue it to what all the accepted writes lead to. -/
def Replays (verdict : Write → String) (start : DatabaseTree) (ws : List Write) (k : ℕ)
    (data : DatabaseTree) : Prop :=
  ∃ log, log ⊆ ws ∧ Continues (accepts verdict) log ws k ∧ data = replay log start

section Replays

variable {verdict : Write → String} {start data : DatabaseTree} {ws : List Write} {w : Write}
  {j k : ℕ}

theorem replays_start : Replays verdict start [] 0 start :=
  ⟨[], List.Subset.refl _, continues_nil, rfl⟩

theorem Replays.issue (h : Replays verdict start ws k data) (hk : k ≤ ws.length) :
    Replays verdict start (ws ++ [w]) k data := by
  obtain ⟨log, hlog, hcontinues, hdata⟩ := h
  exact ⟨log, List.Subset.trans hlog (List.subset_append_left _ _), hcontinues.issue hk, hdata⟩

theorem Replays.resend (h : Replays verdict start ws k data) (hj : j ≤ k) :
    Replays verdict start ws j data := by
  obtain ⟨log, hlog, hcontinues, hdata⟩ := h
  exact ⟨log, hlog, hcontinues.resend hj, hdata⟩

theorem Replays.receive (h : Replays verdict start ws k data) (hw : ws[k]? = some w)
    (haccepts : accepts verdict w = true) :
    Replays verdict start ws (k + 1) (PathTree.set w.1 w.2 data) := by
  obtain ⟨log, hlog, hcontinues, rfl⟩ := h
  refine ⟨log ++ [w], ?_, hcontinues.receive hw haccepts, ?_⟩
  · exact List.append_subset.mpr ⟨hlog, List.cons_subset.mpr
      ⟨List.mem_of_getElem? hw, List.nil_subset _⟩⟩
  · rw [replay_append]
    rfl

theorem Replays.reject (h : Replays verdict start ws k data) (hw : ws[k]? = some w)
    (haccepts : accepts verdict w = false) : Replays verdict start ws (k + 1) data := by
  obtain ⟨log, hlog, hcontinues, hdata⟩ := h
  exact ⟨log, hlog, hcontinues.reject hw haccepts, hdata⟩

/-- **The writes that are left, made on the data, lead where all of them lead.** -/
theorem Replays.leafAt_replay_drop (h : Replays verdict start ws k data)
    (hcompatible : Compatible ws start) (r : List String) :
    (replay (ws.drop k) data).leafAt r =
      (replay ((ws.take k).filter (accepts verdict) ++ ws.drop k) start).leafAt r := by
  obtain ⟨log, hlog, hcontinues, rfl⟩ := h
  rw [← replay_append]
  refine leafAt_replay_congr (hcompatible.mono ?_) (hcompatible.mono ?_) ?_
  · exact List.append_subset.mpr ⟨hlog, List.drop_subset _ _⟩
  · exact List.append_subset.mpr
      ⟨List.Subset.trans (List.filter_subset_self _) (List.take_subset _ _), List.drop_subset _ _⟩
  · exact hcontinues.findRev?_append_drop le_rfl _

/-- **The accepted writes that are left, made on the data, lead where all accepted writes lead.** -/
theorem Replays.leafAt_replay_filter (h : Replays verdict start ws k data)
    (hcompatible : Compatible ws start) (r : List String) :
    (replay ((ws.drop k).filter (accepts verdict)) data).leafAt r =
      (replay (ws.filter (accepts verdict)) start).leafAt r := by
  obtain ⟨log, hlog, hcontinues, rfl⟩ := h
  rw [← replay_append]
  refine leafAt_replay_congr (hcompatible.mono ?_) (hcompatible.mono ?_) (hcontinues _)
  · exact List.append_subset.mpr
      ⟨hlog, List.Subset.trans (List.filter_subset_self _) (List.drop_subset _ _)⟩
  · exact List.filter_subset_self _

/-- The data is open at the paths of the writes. -/
theorem Replays.openAt (h : Replays verdict start ws k data) (hcompatible : Compatible ws start)
    (hw : w ∈ ws) : OpenAt w.1 data := by
  obtain ⟨log, hlog, -, rfl⟩ := h
  intro leaf hleaf
  rcases mem_replay hleaf with hstart | ⟨write, hwrite, hplace⟩
  · exact (hcompatible w hw).1 leaf hstart
  · exact (hcompatible w hw).2 write (hlog hwrite) leaf hplace

end Replays

/-! ### What is on the way -/

/-- The requests on the way belong to the given callbacks, and the puts among them are the writes
from position `k` up to position `m`. -/
inductive Sent (ws : List Write) :
    ℕ → List (ℕ × RequestCallback) → List WireRequest → ℕ → Prop
  | nil (k : ℕ) : Sent ws k [] [] k
  | put {k m rn : ℕ} {w : Write} {callbacks : List (ℕ × RequestCallback)}
      {requests : List WireRequest} (hw : ws[k]? = some w)
      (rest : Sent ws (k + 1) callbacks requests m) :
      Sent ws k ((rn, .put (k + 1)) :: callbacks) (.put rn w.1 w.2 :: requests) m
  | listen {k m rn : ℕ} {callbacks : List (ℕ × RequestCallback)} {requests : List WireRequest}
      (rest : Sent ws k callbacks requests m) :
      Sent ws k ((rn, .listen) :: callbacks) (.listen rn :: requests) m
  | auth {k m rn : ℕ} {callbacks : List (ℕ × RequestCallback)} {requests : List WireRequest}
      (rest : Sent ws k callbacks requests m) :
      Sent ws k ((rn, .auth) :: callbacks) (.auth rn :: requests) m

/-- The messages on the way answer the given callbacks, and the answers to puts among them are those
from position `k` up to position `b`. When an answer to a put comes, the data of the client is as
far as the put. The data is `cache` before the messages and `last` after them. -/
inductive Due (verdict : Write → String) (start : DatabaseTree) (ws : List Write) :
    ℕ → Option DatabaseTree → List (ℕ × RequestCallback) → List WireMessage → ℕ →
      Option DatabaseTree → Prop
  | nil (k : ℕ) (cache : Option DatabaseTree) : Due verdict start ws k cache [] [] k cache
  | put {k b rn : ℕ} {w : Write} {cache last : Option DatabaseTree}
      {callbacks : List (ℕ × RequestCallback)} {messages : List WireMessage}
      (hw : ws[k]? = some w) (hcache : ∀ data ∈ cache, Replays verdict start ws (k + 1) data)
      (rest : Due verdict start ws (k + 1) cache callbacks messages b last) :
      Due verdict start ws k cache ((rn, .put (k + 1)) :: callbacks)
        (.response rn (verdict w) :: messages) b last
  | listen {k b rn : ℕ} {cache last : Option DatabaseTree}
      {callbacks : List (ℕ × RequestCallback)} {messages : List WireMessage} (status : String)
      (rest : Due verdict start ws k cache callbacks messages b last) :
      Due verdict start ws k cache ((rn, .listen) :: callbacks)
        (.response rn status :: messages) b last
  | auth {k b rn : ℕ} {cache last : Option DatabaseTree}
      {callbacks : List (ℕ × RequestCallback)} {messages : List WireMessage} (status : String)
      (rest : Due verdict start ws k cache callbacks messages b last) :
      Due verdict start ws k cache ((rn, .auth) :: callbacks)
        (.response rn status :: messages) b last
  | update {k b : ℕ} {path : List String} {value : DatabaseTree}
      {cache last : Option DatabaseTree} {callbacks : List (ℕ × RequestCallback)}
      {messages : List WireMessage}
      (hcache : ∀ data ∈ updateCache path value cache, Replays verdict start ws k data)
      (rest : Due verdict start ws k (updateCache path value cache) callbacks messages b last) :
      Due verdict start ws k cache callbacks (.dataUpdate path value :: messages) b last

section OnTheWay

variable {verdict : Write → String} {start : DatabaseTree} {ws : List Write} {w : Write}
  {k b b' m m' : ℕ} {callbacks callbacks' : List (ℕ × RequestCallback)}
  {requests requests' : List WireRequest} {messages messages' : List WireMessage}
  {cache last last' : Option DatabaseTree}

theorem getElem?_append_of_eq_some {w' : Write} (h : ws[k]? = some w) :
    (ws ++ [w'])[k]? = some w := by
  rw [List.getElem?_append_left (List.getElem?_eq_some_iff.mp h).1, h]

theorem Sent.append (h : Sent ws k callbacks requests m) (h' : Sent ws m callbacks' requests' m') :
    Sent ws k (callbacks ++ callbacks') (requests ++ requests') m' := by
  induction h with
  | nil => exact h'
  | put hw _ ih => exact .put hw (ih h')
  | listen _ ih => exact .listen (ih h')
  | auth _ ih => exact .auth (ih h')

theorem Sent.issue (h : Sent ws k callbacks requests m) :
    Sent (ws ++ [w]) k callbacks requests m := by
  induction h with
  | nil k => exact .nil k
  | put hw _ ih => exact .put (getElem?_append_of_eq_some hw) ih
  | listen _ ih => exact .listen ih
  | auth _ ih => exact .auth ih

theorem Sent.le (h : Sent ws k callbacks requests m) : k ≤ m := by
  induction h with
  | nil => exact le_rfl
  | put _ _ ih => exact Nat.le_of_succ_le ih
  | listen _ ih => exact ih
  | auth _ ih => exact ih

theorem Due.append (h : Due verdict start ws k cache callbacks messages b last)
    (h' : Due verdict start ws b last callbacks' messages' b' last') :
    Due verdict start ws k cache (callbacks ++ callbacks') (messages ++ messages') b' last' := by
  induction h with
  | nil => exact h'
  | put hw hcache _ ih => exact .put hw hcache (ih h')
  | listen status _ ih => exact .listen status (ih h')
  | auth status _ ih => exact .auth status (ih h')
  | update hcache _ ih => exact .update hcache (ih h')

theorem Due.le (h : Due verdict start ws k cache callbacks messages b last) : k ≤ b := by
  induction h with
  | nil => exact le_rfl
  | put _ _ _ ih => exact Nat.le_of_succ_le ih
  | listen _ _ ih => exact ih
  | auth _ _ ih => exact ih
  | update _ _ ih => exact ih

theorem Due.issue (h : Due verdict start ws k cache callbacks messages b last)
    (hb : b ≤ ws.length) : Due verdict start (ws ++ [w]) k cache callbacks messages b last := by
  induction h with
  | nil k cache => exact .nil k cache
  | put hw hcache rest ih =>
    refine .put (getElem?_append_of_eq_some hw) (fun data hdata => ?_) (ih hb)
    exact (hcache data hdata).issue (rest.le.trans hb)
  | listen status _ ih => exact .listen status (ih hb)
  | auth status _ ih => exact .auth status (ih hb)
  | update hcache rest ih =>
    exact .update (fun data hdata => (hcache data hdata).issue (rest.le.trans hb)) (ih hb)

theorem updateCache_some {path : List String} {value data : DatabaseTree} :
    updateCache path value (some data) = some (PathTree.set path value data) := by
  rw [updateCache]
  split_ifs with hpath
  · rw [hpath, set_nil]
  · rfl

theorem isSome_updateCache {path : List String} {value : DatabaseTree} (h : cache.isSome) :
    (updateCache path value cache).isSome := by
  rw [updateCache]
  split_ifs
  · rfl
  · rwa [Option.isSome_map]

theorem Due.isSome (h : Due verdict start ws k cache callbacks messages b last)
    (hcache : cache.isSome) : last.isSome := by
  induction h with
  | nil => exact hcache
  | put _ _ _ ih => exact ih hcache
  | listen _ _ ih => exact ih hcache
  | auth _ _ ih => exact ih hcache
  | update _ _ ih => exact ih (isSome_updateCache hcache)

end OnTheWay

/-- A listen request is on the way before any put. -/
def ListenAhead : List WireRequest → Prop
  | [] => False
  | .put _ _ _ :: _ => False
  | .listen _ :: _ => True
  | .auth _ :: requests => ListenAhead requests

theorem ListenAhead.append {requests : List WireRequest} (h : ListenAhead requests)
    (requests' : List WireRequest) : ListenAhead (requests ++ requests') := by
  induction requests with
  | nil => exact h.elim
  | cons request requests ih =>
    cases request with
    | put => exact h.elim
    | listen => trivial
    | auth => exact ih h

/-- A listen request that is sent before any put. -/
theorem Sent.listenAhead {ws : List Write} {k m rn : ℕ}
    {callbacks : List (ℕ × RequestCallback)} {requests : List WireRequest}
    (h : Sent ws k callbacks requests m) (hm : m ≤ k) :
    ListenAhead (requests ++ [.listen rn]) := by
  induction h with
  | nil => trivial
  | put _ rest _ => exact absurd (rest.le.trans hm) (Nat.not_succ_le_self _)
  | listen => trivial
  | auth _ ih => exact ih hm

/-! ### The network part of the invariant -/

/-- What is on the way: the writes up to position `k` have been answered, those up to position `m`
sent, and the data of the client is `last` once all the messages have come. -/
structure Network (verdict : Write → String) (start : DatabaseTree) (ws : List Write) (k m : ℕ)
    (last : Option DatabaseTree) (s : RepoState) : Prop where
  keys : (s.requestCBHash.map Prod.fst).Pairwise (· < ·)
  keys_lt : ∀ key ∈ s.requestCBHash.map Prod.fst, key < s.requestNumber
  unacked : s.unackedListensCount = s.requestCBHash.countP fun entry => entry.2 = .listen
  flow : ∃ due sent b, s.requestCBHash = due ++ sent ∧
    Due verdict start ws k s.serverCache due s.messages b last ∧ Sent ws b sent s.requests m ∧
      Replays verdict start ws b s.database
  le_length : m ≤ ws.length
  cache : ∀ data ∈ s.serverCache, Replays verdict start ws k data
  current : s.serverListens = true → last = some s.database
  listens : last.isSome → s.listens = true

section Network

variable {verdict : Write → String} {start : DatabaseTree} {ws : List Write} {w : Write}
  {k m : ℕ} {last : Option DatabaseTree} {s : RepoState}

theorem Network.le (h : Network verdict start ws k m last s) : k ≤ m := by
  obtain ⟨due, sent, b, -, hdue, hsent, -⟩ := h.flow
  exact hdue.le.trans hsent.le

/-- The network does not depend on the state of the connection, nor on what the client holds. -/
theorem Network.frame (h : Network verdict start ws k m last s) (connectionState : ConnectionState)
    (hasAuthToken : Bool) (outstandingPuts : List (ℕ × FOutstandingPut)) (putCounter : ℕ)
    (putsToAck completed : List (ℤ × String)) (writeIdCounter : ℤ)
    (pendingWriteTree : FWriteTree) :
    Network verdict start ws k m last { s with
      connectionState, hasAuthToken, outstandingPuts, putCounter, putsToAck, completed,
      writeIdCounter, pendingWriteTree } :=
  ⟨h.keys, h.keys_lt, h.unacked, h.flow, h.le_length, h.cache, h.current, h.listens⟩

/-- One more request is sent. -/
theorem Network.sendAction {m' : ℕ} (request : ℕ → WireRequest) (callback : RequestCallback)
    (h : Network verdict start ws k m last s) (hm : m' ≤ ws.length)
    (hsent : ∀ rn, Sent ws m [(rn, callback)] [request rn] m') :
    Network verdict start ws k m' last { s.sendAction request callback with
      unackedListensCount := s.unackedListensCount + if callback = .listen then 1 else 0 } := by
  obtain ⟨due, sent, b, hcallbacks, hdue, hrequests, hdatabase⟩ := h.flow
  refine ⟨?_, ?_, ?_, ⟨due, sent ++ [(s.requestNumber, callback)], b, ?_, hdue, ?_, hdatabase⟩, hm,
    h.cache, h.current, h.listens⟩
  · rw [RepoState.sendAction, List.map_append, List.pairwise_append]
    refine ⟨h.keys, List.pairwise_singleton _ _, fun key hkey last hlast => ?_⟩
    rw [List.mem_singleton.mp hlast]
    exact h.keys_lt key hkey
  · rw [RepoState.sendAction, List.map_append]
    refine List.forall_mem_append.mpr ⟨fun key hkey => (h.keys_lt key hkey).trans ?_, ?_⟩
    · exact Nat.lt_succ_self _
    · exact List.forall_mem_singleton.mpr (Nat.lt_succ_self _)
  · rw [RepoState.sendAction, List.countP_append, List.countP_singleton, h.unacked]
    simp only [decide_eq_true_eq]
  · change s.requestCBHash ++ [(s.requestNumber, callback)] = _
    rw [hcallbacks, List.append_assoc]
  · exact hrequests.append (hsent _)

theorem Network.sendListen (h : Network verdict start ws k m last s) :
    Network verdict start ws k m last s.sendListen :=
  h.sendAction .listen .listen h.le_length fun _ => .listen (.nil m)

/-- The first of the messages that are due answers the first of the callbacks. -/
theorem Due.response {rn b : ℕ} {status : String} {cache : Option DatabaseTree}
    {callbacks : List (ℕ × RequestCallback)} {messages : List WireMessage}
    (h : Due verdict start ws k cache callbacks (.response rn status :: messages) b last)
    (hcache : ∀ data ∈ cache, Replays verdict start ws k data) :
    ∃ callback callbacks' k', callbacks = (rn, callback) :: callbacks' ∧
      Due verdict start ws k' cache callbacks' messages b last ∧
      (∀ data ∈ cache, Replays verdict start ws k' data) ∧
      (k' = k ∧ (callback = .listen ∨ callback = .auth) ∨
        k' = k + 1 ∧ callback = .put (k + 1) ∧ ∃ w, ws[k]? = some w ∧ status = verdict w) := by
  cases h with
  | put hw hcache' rest =>
    exact ⟨_, _, k + 1, rfl, rest, hcache', .inr ⟨rfl, rfl, _, hw, rfl⟩⟩
  | listen _ rest => exact ⟨_, _, k, rfl, rest, hcache, .inl ⟨rfl, .inl rfl⟩⟩
  | auth _ rest => exact ⟨_, _, k, rfl, rest, hcache, .inl ⟨rfl, .inr rfl⟩⟩

/-- **The next message is the answer to the oldest request**, whose callback is found by its
number. -/
theorem Network.response {rn : ℕ} {status : String} {messages : List WireMessage}
    (h : Network verdict start ws k m last s)
    (hmessages : s.messages = .response rn status :: messages) :
    ∃ callback callbacks k', s.requestCBHash = (rn, callback) :: callbacks ∧
      s.requestCBHash.lookup rn = some callback ∧
      (s.requestCBHash.filter fun entry => entry.1 ≠ rn) = callbacks ∧
      Network verdict start ws k' m last { s with
        messages := messages
        requestCBHash := callbacks
        unackedListensCount := s.unackedListensCount - if callback = .listen then 1 else 0 } ∧
      (k' = k ∧ (callback = .listen ∨ callback = .auth) ∨
        k' = k + 1 ∧ callback = .put (k + 1) ∧ ∃ w, ws[k]? = some w ∧ status = verdict w) := by
  obtain ⟨due, sent, b, hcallbacks, hdue, hsent, hdatabase⟩ := h.flow
  rw [hmessages] at hdue
  obtain ⟨callback, due', k', rfl, hdue', hcache', hcases⟩ := hdue.response h.cache
  have hkeys := h.keys
  have hlt := h.keys_lt
  have hunacked := h.unacked
  rw [hcallbacks, List.cons_append, List.map_cons, List.pairwise_cons] at hkeys
  rw [hcallbacks, List.cons_append, List.map_cons, List.forall_mem_cons] at hlt
  rw [hcallbacks, List.cons_append, List.countP_cons] at hunacked
  have hrest : ((due' ++ sent).filter fun entry => entry.1 ≠ rn) = due' ++ sent := by
    refine List.filter_eq_self.mpr fun entry hentry => decide_eq_true ?_
    exact (hkeys.1 _ (List.mem_map_of_mem hentry)).ne'
  refine ⟨callback, due' ++ sent, k', hcallbacks, ?_, ?_, ?_, hcases⟩
  · rw [hcallbacks, List.cons_append, List.lookup_cons_self]
  · rw [hcallbacks, List.cons_append, List.filter_cons_of_neg (by simp), hrest]
  · refine ⟨hkeys.2, hlt.2, ?_, ⟨due', sent, b, rfl, hdue', hsent, hdatabase⟩, h.le_length, hcache',
      h.current, h.listens⟩
    simp only [hunacked, decide_eq_true_eq, Nat.add_sub_cancel]

/-- The next message is an update of the data. -/
theorem Network.update {path : List String} {value : DatabaseTree} {messages : List WireMessage}
    (h : Network verdict start ws k m last s)
    (hmessages : s.messages = .dataUpdate path value :: messages) :
    Network verdict start ws k m last { s with
      messages := messages
      serverCache := updateCache path value s.serverCache } := by
  obtain ⟨due, sent, b, hcallbacks, hdue, hsent, hdatabase⟩ := h.flow
  rw [hmessages] at hdue
  cases hdue with
  | update hcache rest =>
    exact ⟨h.keys, h.keys_lt, h.unacked, ⟨due, sent, b, hcallbacks, rest, hsent, hdatabase⟩,
      h.le_length, hcache, h.current, h.listens⟩

/-- What was on the way is lost. -/
theorem Network.onDisconnect (h : Network verdict start ws k m last s) :
    Network verdict start ws k k s.serverCache s.onDisconnect := by
  obtain ⟨due, sent, b, -, hdue, -, hdatabase⟩ := h.flow
  exact ⟨List.Pairwise.nil, fun _ hkey => absurd hkey List.not_mem_nil, rfl,
    ⟨[], [], k, rfl, .nil k _, .nil k, hdatabase.resend hdue.le⟩, h.le.trans h.le_length, h.cache,
    nofun, fun hcache => h.listens (hdue.isSome hcache)⟩

/-- One more write is issued. -/
theorem Network.issue (h : Network verdict start ws k m last s) (w : Write) :
    Network verdict start (ws ++ [w]) k m last s := by
  obtain ⟨due, sent, b, hcallbacks, hdue, hsent, hdatabase⟩ := h.flow
  have hb : b ≤ ws.length := hsent.le.trans h.le_length
  refine ⟨h.keys, h.keys_lt, h.unacked,
    ⟨due, sent, b, hcallbacks, hdue.issue hb, hsent.issue, hdatabase.issue hb⟩, ?_,
    fun data hdata => (h.cache data hdata).issue (h.le.trans h.le_length), h.current, h.listens⟩
  rw [List.length_append]
  exact Nat.le_add_right_of_le h.le_length

theorem Due.replays_last {b : ℕ} {cache : Option DatabaseTree}
    {callbacks : List (ℕ × RequestCallback)} {messages : List WireMessage}
    (h : Due verdict start ws k cache callbacks messages b last)
    (hcache : ∀ data ∈ cache, Replays verdict start ws k data) :
    ∀ data ∈ last, Replays verdict start ws b data := by
  induction h with
  | nil => exact hcache
  | put _ hcache' _ ih => exact ih hcache'
  | listen _ _ ih => exact ih hcache
  | auth _ _ ih => exact ih hcache
  | update hcache' _ ih => exact ih hcache'

/-- The update and the answer that an accepted put sends to a listener. -/
theorem Due.accepted {b : ℕ} {database : DatabaseTree} (rn : ℕ)
    (hdatabase : Replays verdict start ws b database) (hw : ws[b]? = some w)
    (haccepts : accepts verdict w = true) :
    Due verdict start ws b (some database) [(rn, .put (b + 1))]
      [.dataUpdate w.1 w.2, .response rn (verdict w)] (b + 1)
      (some (PathTree.set w.1 w.2 database)) := by
  have hset := hdatabase.receive hw haccepts
  refine .update ?_ ?_
  · rw [updateCache_some]
    rintro data ⟨⟩
    exact hset.resend (Nat.le_succ b)
  · rw [updateCache_some]
    refine .put hw ?_ (.nil _ _)
    rintro data ⟨⟩
    exact hset

/-- The server handles a put. If it makes the write, the listener gets it before the answer. -/
theorem Network.serve_put {rules : Rules} {rn b : ℕ} {due callbacks : List (ℕ × RequestCallback)}
    {requests : List WireRequest} (authStatus : String)
    (hrules : ∀ database path data, rules database path data = verdict (path, data))
    (h : Network verdict start ws k m last s)
    (hcallbacks : s.requestCBHash = due ++ (rn, .put (b + 1)) :: callbacks)
    (hdue : Due verdict start ws k s.serverCache due s.messages b last)
    (hw : ws[b]? = some w) (rest : Sent ws (b + 1) callbacks requests m)
    (hdatabase : Replays verdict start ws b s.database)
    (hserverListens : last.isSome → s.serverListens = true) :
    ∃ last', Network verdict start ws k m last'
        ({ s with requests := requests }.serve rules authStatus (.put rn w.1 w.2)) ∧
      (last'.isSome → ({ s with requests := requests }.serve rules authStatus
        (.put rn w.1 w.2)).serverListens = true) := by
  have hsplit : s.requestCBHash = (due ++ [(rn, .put (b + 1))]) ++ callbacks := by
    rw [List.append_assoc]
    exact hcallbacks
  cases haccepts : accepts verdict w with
  | false =>
    have hverdict : verdict w ≠ statusOk := of_decide_eq_false haccepts
    have hlast := hdue.replays_last h.cache
    simp only [RepoState.serve, hrules, hverdict, if_false]
    exact ⟨last, ⟨h.keys, h.keys_lt, h.unacked, ⟨_, callbacks, b + 1, hsplit,
      hdue.append (.put hw (fun data hdata => (hlast data hdata).reject hw haccepts) (.nil _ _)),
      rest, hdatabase.reject hw haccepts⟩, h.le_length, h.cache, h.current, h.listens⟩,
      hserverListens⟩
  | true =>
    have hverdict : verdict w = statusOk := of_decide_eq_true haccepts
    simp only [RepoState.serve, hrules, hverdict, if_true]
    cases hs : s.serverListens with
    | true =>
      have hupdate := Due.accepted rn hdatabase hw haccepts
      rw [h.current hs] at hdue
      rw [hverdict] at hupdate
      refine ⟨_, ⟨h.keys, h.keys_lt, h.unacked, ⟨_, callbacks, b + 1, hsplit, ?_, rest,
        hdatabase.receive hw haccepts⟩, h.le_length, h.cache, fun _ => rfl, fun _ => ?_⟩,
        fun _ => rfl⟩
      · exact List.append_assoc s.messages _ _ ▸ hdue.append hupdate
      · exact h.listens (by rw [h.current hs]; rfl)
    | false =>
      have hnone : last = none := by
        rw [← Option.not_isSome_iff_eq_none]
        exact fun hsome => absurd (hserverListens hsome) (by simp [hs])
      rw [hnone] at hdue
      have hresponse : Due verdict start ws b none [(rn, .put (b + 1))]
          [.response rn (verdict w)] (b + 1) none :=
        .put hw (fun _ hdata => nomatch hdata) (.nil _ _)
      rw [hverdict] at hresponse
      refine ⟨none, ⟨h.keys, h.keys_lt, h.unacked, ⟨_, callbacks, b + 1, hsplit, ?_, rest,
        hdatabase.receive hw haccepts⟩, h.le_length, h.cache, nofun, nofun⟩, nofun⟩
      rw [if_neg Bool.false_ne_true, List.append_nil]
      exact hdue.append hresponse

/-- **The server handles the oldest request.** A put that it accepts reaches the listener before the
answer does. -/
theorem Network.serve {rules : Rules} {request : WireRequest} {requests : List WireRequest}
    (authStatus : String)
    (hrules : ∀ database path data, rules database path data = verdict (path, data))
    (h : Network verdict start ws k m last s) (hrequests : s.requests = request :: requests)
    (hready : k < m → last.isSome → s.serverListens = true ∨ ListenAhead s.requests)
    (hlistens : 0 < s.unackedListensCount → s.listens = true) :
    ∃ last', Network verdict start ws k m last'
        ({ s with requests := requests }.serve rules authStatus request) ∧
      ((last.isSome → s.serverListens = true ∨ ListenAhead s.requests) → last'.isSome →
        ({ s with requests := requests }.serve rules authStatus request).serverListens = true ∨
          ListenAhead requests) := by
  obtain ⟨due, sent, b, hcallbacks, hdue, hsent, hdatabase⟩ := h.flow
  rw [hrequests] at hsent hready
  cases hsent with
  | @put _ _ rn w callbacks _ hw rest =>
    have hserverListens : last.isSome → s.serverListens = true := fun hlast =>
      (hready (hdue.le.trans_lt rest.le) hlast).resolve_right id
    obtain ⟨last', hnetwork, hlast'⟩ := h.serve_put authStatus hrules hcallbacks hdue hw rest
      hdatabase hserverListens
    exact ⟨last', hnetwork, fun _ hsome => .inl (hlast' hsome)⟩
  | @listen _ _ rn callbacks _ rest =>
    have hunacked : 0 < s.unackedListensCount := by
      rw [h.unacked, hcallbacks, List.countP_append, List.countP_cons]
      simp
    refine ⟨some s.database, ⟨h.keys, h.keys_lt, h.unacked, ⟨due ++ [(rn, .listen)], callbacks, b,
      ?_, hdue.append (.update ?_ (.listen _ (.nil b _))), rest, hdatabase⟩, h.le_length, h.cache,
      fun _ => rfl, fun _ => hlistens hunacked⟩, fun _ _ => .inl rfl⟩
    · rw [List.append_assoc]
      exact hcallbacks
    · rintro data ⟨⟩
      exact hdatabase
  | @auth _ _ rn callbacks _ rest =>
    refine ⟨last, ⟨h.keys, h.keys_lt, h.unacked, ⟨due ++ [(rn, .auth)], callbacks, b, ?_,
      hdue.append (.auth _ (.nil b last)), rest, hdatabase⟩, h.le_length, h.cache, h.current,
      h.listens⟩, ?_⟩
    · rw [List.append_assoc]
      exact hcallbacks
    · rw [hrequests]
      exact id

theorem lookup_drop_puts {i j : ℕ} (hw : ws[i]? = some w) (hj : j ≤ i) :
    ((puts ws).drop j).lookup (i + 1) = some ⟨w.1, w.2, i⟩ := by
  refine List.lookup_eq_some_iff.mpr
    ⟨((puts ws).drop j).take (i - j), (puts ws).drop (i + 1), ?_, fun put hput => ?_⟩
  · have hdrop : ((puts ws).drop j).drop (i - j) = (puts ws).drop i := by
      rw [List.drop_drop, Nat.add_sub_cancel' hj]
    rw [← drop_puts hw, ← hdrop, List.take_append_drop]
  · obtain ⟨n, hn, rfl⟩ := List.mem_iff_getElem.mp hput
    rw [List.length_take] at hn
    simp only [puts, List.getElem_take, List.getElem_drop, List.getElem_map, List.getElem_zipIdx,
      bne_iff_ne]
    omega

/-- Some requests for puts have been sent, and nothing else has happened. -/
def SendsPuts (s s' : RepoState) : Prop :=
  ∃ rn requests callbacks, s' = { s with
    requestNumber := rn
    requests := s.requests ++ requests
    requestCBHash := s.requestCBHash ++ callbacks } ∧
      ∀ entry ∈ callbacks, entry.2 ≠ .auth

theorem SendsPuts.refl (s : RepoState) : SendsPuts s s := by
  refine ⟨s.requestNumber, [], [], ?_, fun _ h => absurd h List.not_mem_nil⟩
  simp only [List.append_nil]

theorem SendsPuts.trans {s s' s'' : RepoState} (h : SendsPuts s s') (h' : SendsPuts s' s'') :
    SendsPuts s s'' := by
  obtain ⟨rn, requests, callbacks, rfl, hauth⟩ := h
  obtain ⟨rn', requests', callbacks', rfl, hauth'⟩ := h'
  refine ⟨rn', requests ++ requests', callbacks ++ callbacks', ?_,
    List.forall_mem_append.mpr ⟨hauth, hauth'⟩⟩
  simp only [List.append_assoc]

theorem sendsPuts_sendPut (index : ℕ) : SendsPuts s (s.sendPut index) := by
  rw [sendPut]
  cases s.outstandingPuts.lookup index with
  | none => exact .refl s
  | some put =>
    exact ⟨_, _, _, rfl, List.forall_mem_singleton.mpr nofun⟩

/-- The next unsent write is sent. -/
theorem Network.sendPut {j : ℕ} (h : Network verdict start ws k m last s)
    (hputs : s.outstandingPuts = (puts ws).drop j) (hj : j ≤ m) (hw : ws[m]? = some w) :
    Network verdict start ws k (m + 1) last (s.sendPut (m + 1)) := by
  rw [RepoState.sendPut, hputs, lookup_drop_puts hw hj]
  exact h.sendAction _ _ (List.getElem?_eq_some_iff.mp hw).1 fun _ => .put hw (.nil _)

/-- All the writes that have not been sent are sent. -/
theorem Network.foldl_sendPut {j : ℕ} (h : Network verdict start ws k m last s)
    (hputs : s.outstandingPuts = (puts ws).drop j) (hj : j ≤ m) :
    Network verdict start ws k ws.length last
        ((((puts ws).drop m).map Prod.fst).foldl RepoState.sendPut s) ∧
      SendsPuts s ((((puts ws).drop m).map Prod.fst).foldl RepoState.sendPut s) := by
  induction hn : ws.length - m generalizing m s with
  | zero =>
    have hm : m = ws.length := le_antisymm h.le_length (Nat.sub_eq_zero_iff_le.mp hn)
    have hdrop : (puts ws).drop m = [] :=
      List.drop_eq_nil_of_le (by rw [length_puts, hm])
    rw [hdrop]
    exact ⟨hm ▸ h, .refl s⟩
  | succ n ih =>
    have hlt : m < ws.length := by omega
    have hw : ws[m]? = some ws[m] := List.getElem?_eq_getElem hlt
    rw [drop_puts hw, List.map_cons, List.foldl_cons]
    have hsend := sendsPuts_sendPut (s := s) (m + 1)
    have hputs' : (s.sendPut (m + 1)).outstandingPuts = (puts ws).drop j := by
      obtain ⟨_, _, _, heq, -⟩ := hsend
      rw [heq, ← hputs]
    obtain ⟨hnetwork, hsends⟩ :=
      ih (h.sendPut hputs hj hw) hputs' (Nat.le_succ_of_le hj) (by omega)
    exact ⟨hnetwork, hsend.trans hsends⟩

/-- **Everything is sent again** when the connection is ready, and a listen goes ahead. -/
theorem Network.restoreState (h : Network verdict start ws k k last s)
    (hputs : s.outstandingPuts = (puts ws).drop k) :
    Network verdict start ws k ws.length last s.restoreState ∧
      SendsPuts (if s.listens then s.sendListen else s) s.restoreState ∧
      (last.isSome → s.restoreState.serverListens = true ∨
        ListenAhead s.restoreState.requests) := by
  obtain ⟨due, sent, b, -, hdue, hsent, -⟩ := h.flow
  cases hlistens : s.listens with
  | false =>
    have hrestore :
        s.restoreState = (s.outstandingPuts.map Prod.fst).foldl RepoState.sendPut s := by
      rw [RepoState.restoreState]
      simp only [hlistens, Bool.false_eq_true, if_false]
    rw [hrestore, hputs]
    obtain ⟨hnetwork, hsends⟩ := h.foldl_sendPut hputs le_rfl
    refine ⟨hnetwork, hsends, fun hlast => ?_⟩
    exact absurd (h.listens hlast) (by simp [hlistens])
  | true =>
    have hrestore : s.restoreState =
        (s.outstandingPuts.map Prod.fst).foldl RepoState.sendPut s.sendListen := by
      rw [RepoState.restoreState]
      simp only [hlistens, if_true]
      rfl
    rw [hrestore, hputs]
    obtain ⟨hnetwork, hsends⟩ := h.sendListen.foldl_sendPut hputs le_rfl
    refine ⟨hnetwork, hsends, fun _ => .inr ?_⟩
    obtain ⟨_, requests, _, heq, -⟩ := hsends
    rw [heq]
    exact (hsent.listenAhead hdue.le).append requests

end Network

end RepoState

end TwitterLite
