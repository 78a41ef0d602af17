import TwitterLite.Firebase.PendingWrites

/-!
# The connection to the database

The client numbers its writes and keeps each of them until the server has answered it. A write is
sent as soon as the connection is authenticated; when the connection is lost nothing that was on the
way arrives, and on the next connection every unanswered write is sent again, in order. The answers
come in the order of the requests. While an answer to a listen request is due, the answers to writes
are held back (`putsToAck`), since the write must not go out of the pending ones before the data of
the listen has come.

The state (`RepoState`) puts together the client, the messages on the way in both directions, and
the server. The server stands for the service behind the connection: it handles the requests of a
connection in order, and answers each of them once. It takes a write or not by its rules, which are
a parameter. A listener on the whole database gets its content first, and then every accepted write
before the answer to that write.

## Main definitions

* `TwitterLite.RepoState`, `TwitterLite.RepoState.set`, `TwitterLite.RepoState.sendPut`,
  `TwitterLite.RepoState.restoreState`, `TwitterLite.RepoState.onDataMessage`,
  `TwitterLite.RepoState.onDisconnect`.
* `TwitterLite.RepoState.serve`.
* `TwitterLite.RepoState.Step`.

Source: `FPersistentConnection.m`, lines 57–160, 200–228, 325–429, 540–560, 627–661, 717–758,
816–847, 981–1002, 1097–1146, 1214–1219; `FRepo.m`, lines 305–350, 651–683, 701–750;
`FSyncTree.m`, lines 160–200, 214–260.
-/

namespace TwitterLite

open PathTree TransitionSystem

/-- `ConnectionState`; while the token is fetched the connection counts as disconnected. -/
inductive ConnectionState where
  | disconnected
  | connecting
  | authenticating
  | connected
  deriving DecidableEq, Repr

/-- `FOutstandingPut`, with the write that its completion block acknowledges. -/
structure FOutstandingPut where
  path : List String
  data : DatabaseTree
  writeId : ℤ

/-- What a callback in `requestCBHash` belongs to. -/
inductive RequestCallback where
  | put (index : ℕ)
  | listen
  | auth
  deriving DecidableEq, Repr

/-- A request to the server, with its number. -/
inductive WireRequest where
  | put (requestNumber : ℕ) (path : List String) (data : DatabaseTree)
  | listen (requestNumber : ℕ)
  | auth (requestNumber : ℕ)

/-- A message from the server: the response to a request, or an update of the data at a path. -/
inductive WireMessage where
  | response (requestNumber : ℕ) (status : String)
  | dataUpdate (path : List String) (data : DatabaseTree)

/-- `kFWPResponseForActionStatusOk`. -/
def statusOk : String := "ok"

/-- `kFErrorWriteCanceled`. -/
def errorWriteCanceled : String := "write_canceled"

/-- The client, the messages on the way, and the server. -/
structure RepoState where
  -- `FPersistentConnection`
  connectionState : ConnectionState
  hasAuthToken : Bool
  listens : Bool
  outstandingPuts : List (ℕ × FOutstandingPut)
  putCounter : ℕ
  requestNumber : ℕ
  requestCBHash : List (ℕ × RequestCallback)
  unackedListensCount : ℕ
  putsToAck : List (ℤ × String)
  -- `FRepo` and its sync tree, with the completion blocks that have run
  writeIdCounter : ℤ
  pendingWriteTree : FWriteTree
  serverCache : Option DatabaseTree
  completed : List (ℤ × String)
  -- the network
  requests : List WireRequest
  messages : List WireMessage
  -- the server
  database : DatabaseTree
  serverListens : Bool

namespace RepoState

/-- Before anything has been written, with the data that the server has. -/
def init (database : DatabaseTree) : RepoState where
  connectionState := .disconnected
  hasAuthToken := false
  listens := false
  outstandingPuts := []
  putCounter := 1
  requestNumber := 1
  requestCBHash := []
  unackedListensCount := 0
  putsToAck := []
  writeIdCounter := 0
  pendingWriteTree := .init
  serverCache := none
  completed := []
  requests := []
  messages := []
  database := database
  serverListens := false

/-! ### Sending -/

/-- `FPersistentConnection.connected`. -/
def connected (s : RepoState) : Bool :=
  s.connectionState = .authenticating ∨ s.connectionState = .connected

/-- `FPersistentConnection.canSendWrites`. -/
def canSendWrites (s : RepoState) : Bool := s.connectionState = .connected

/-- `FPersistentConnection.sendAction:body:sensitive:callback:`. -/
def sendAction (request : ℕ → WireRequest) (callback : RequestCallback) (s : RepoState) :
    RepoState :=
  { s with
    requestNumber := s.requestNumber + 1
    requests := s.requests ++ [request s.requestNumber]
    requestCBHash := s.requestCBHash ++ [(s.requestNumber, callback)] }

/-- `FPersistentConnection.sendListen:`. -/
def sendListen (s : RepoState) : RepoState :=
  { s.sendAction .listen .listen with unackedListensCount := s.unackedListensCount + 1 }

/-- `FPersistentConnection.sendPut:`. -/
def sendPut (s : RepoState) (index : ℕ) : RepoState :=
  match s.outstandingPuts.lookup index with
  | some put => s.sendAction (fun rn => .put rn put.path put.data) (.put index)
  | none => s

/-- `FPersistentConnection.putInternal:forAction:forPath:withHash:withCallback:`. -/
def putInternal (path : List String) (data : DatabaseTree) (writeId : ℤ) (s : RepoState) :
    RepoState :=
  let index := s.putCounter
  let s' := { s with
    putCounter := s.putCounter + 1
    outstandingPuts := s.outstandingPuts ++ [(index, FOutstandingPut.mk path data writeId)] }
  if s'.canSendWrites then s'.sendPut index else s'

/-- `FRepo.set:withNode:withCallback:`. -/
def set (path : List String) (node : DatabaseTree) (s : RepoState) : RepoState :=
  let writeId := s.writeIdCounter
  putInternal path node writeId { s with
    writeIdCounter := s.writeIdCounter + 1
    pendingWriteTree := s.pendingWriteTree.addOverwriteAtPath path node writeId true }

/-- `FPersistentConnection.listen:tagId:hash:onComplete:`, for the whole database. -/
def listen (s : RepoState) : RepoState :=
  let s' := { s with listens := true }
  if s'.connected then s'.sendListen else s'

/-! ### The life of a connection -/

/-- `FPersistentConnection.restoreState`: the listens, and then the unanswered writes in order. -/
def restoreState (s : RepoState) : RepoState :=
  let s' := if s.listens then s.sendListen else s
  (s'.outstandingPuts.map Prod.fst).foldl sendPut s'

/-- `FPersistentConnection.openNetworkConnectionWithContext:`. -/
def openNetworkConnection (hasAuthToken : Bool) (s : RepoState) : RepoState :=
  { s with hasAuthToken := hasAuthToken, connectionState := .connecting }

/-- `FPersistentConnection.restoreAuth`, when the connection is ready. -/
def restoreAuth (s : RepoState) : RepoState :=
  if s.hasAuthToken then
    { s with connectionState := .authenticating }.sendAction .auth .auth
  else { s with connectionState := .connected }.restoreState

/-- `FPersistentConnection.onDisconnect:withReason:`. What is on the way is lost, and the server
forgets the listens of the connection. -/
def onDisconnect (s : RepoState) : RepoState :=
  { s with
    connectionState := .disconnected
    requestCBHash := []
    unackedListensCount := 0
    requests := []
    messages := []
    serverListens := false }

/-! ### Receiving -/

/-- The completion block of `FRepo.set`: `FRepo.ackWrite:rerunTransactionsAtPath:status:`, and the
block of the caller. The app ends if there is no such write. -/
def onComplete (s : RepoState) (answer : ℤ × String) : RepoState :=
  let completed := s.completed ++ [answer]
  if answer.2 = errorWriteCanceled then { s with completed := completed }
  else
    match s.pendingWriteTree.removeWriteId answer.1 with
    | some (tree, _) => { s with pendingWriteTree := tree, completed := completed }
    | none => s

/-- `FPersistentConnection.ackPuts`. -/
def ackPuts (s : RepoState) : RepoState :=
  { s.putsToAck.foldl onComplete s with putsToAck := [] }

/-- The callback of `sendPut`. -/
def onPutResponse (index : ℕ) (status : String) (s : RepoState) : RepoState :=
  match s.outstandingPuts.lookup index with
  | none => s
  | some put =>
    let s' := { s with outstandingPuts := s.outstandingPuts.filter fun put => put.1 ≠ index }
    if s'.unackedListensCount = 0 then s'.onComplete (put.writeId, status)
    else { s' with putsToAck := s'.putsToAck ++ [(put.writeId, status)] }

/-- The callback of `sendListen`. -/
def onListenResponse (s : RepoState) : RepoState :=
  let s' := { s with unackedListensCount := s.unackedListensCount - 1 }
  if s'.unackedListensCount = 0 then s'.ackPuts else s'

/-- The callback of `sendAuthAndRestoreStateAfterComplete`. -/
def onAuthResponse (status : String) (s : RepoState) : RepoState :=
  let s' := { s with connectionState := .connected }
  if status = statusOk then s'.restoreState
  else { s' with hasAuthToken := false }.onDisconnect

/-- `FRepo.onDataUpdate:forPath:message:isMerge:tagId:` for the listen on the whole database. -/
def updateCache (path : List String) (data : DatabaseTree) (cache : Option DatabaseTree) :
    Option DatabaseTree :=
  if path = [] then some data else cache.map fun node => PathTree.set path data node

/-- `FPersistentConnection.onDataMessage:withMessage:`, with `FRepo.onDataUpdate` for an update. -/
def onDataMessage (message : WireMessage) (s : RepoState) : RepoState :=
  match message with
  | .response rn status =>
    match s.requestCBHash.lookup rn with
    | none => s
    | some callback =>
      let s' := { s with requestCBHash := s.requestCBHash.filter fun entry => entry.1 ≠ rn }
      match callback with
      | .put index => s'.onPutResponse index status
      | .listen => s'.onListenResponse
      | .auth => s'.onAuthResponse status
  | .dataUpdate path data => { s with serverCache := updateCache path data s.serverCache }

/-! ### The server -/

/-- What the rules of the server answer to a write. -/
abbrev Rules := DatabaseTree → List String → DatabaseTree → String

/-- The server handles a request. -/
def serve (rules : Rules) (authStatus : String) (request : WireRequest) (s : RepoState) :
    RepoState :=
  match request with
  | .put rn path data =>
    let status := rules s.database path data
    if status = statusOk then
      { s with
        database := PathTree.set path data s.database
        messages := s.messages ++ (if s.serverListens then [.dataUpdate path data] else []) ++
          [.response rn status] }
    else { s with messages := s.messages ++ [.response rn status] }
  | .listen rn =>
    { s with
      serverListens := true
      messages := s.messages ++ [.dataUpdate [] s.database, .response rn statusOk] }
  | .auth rn => { s with messages := s.messages ++ [.response rn authStatus] }

/-! ### Runs -/

/-- What can happen next. -/
inductive Event where
  | set (path : List String) (node : DatabaseTree)
  | listen
  | openConnection (hasAuthToken : Bool)
  | ready
  | serve (authStatus : String)
  | receive
  | disconnect

/-- The steps of the client, the network and the server. -/
inductive Step (rules : Rules) : RepoState → Event → RepoState → Prop
  | set {s : RepoState} {path : List String} {node : DatabaseTree} :
      Step rules s (.set path node) (s.set path node)
  | listen {s : RepoState} (new : s.listens = false) : Step rules s .listen s.listen
  | openConnection {s : RepoState} {hasAuthToken : Bool}
      (state : s.connectionState = .disconnected) :
      Step rules s (.openConnection hasAuthToken) (s.openNetworkConnection hasAuthToken)
  | ready {s : RepoState} (state : s.connectionState = .connecting) :
      Step rules s .ready s.restoreAuth
  | serve {s : RepoState} {authStatus : String} {request : WireRequest}
      {requests : List WireRequest}
      (next : s.requests = request :: requests) :
      Step rules s (.serve authStatus)
        ({ s with requests := requests }.serve rules authStatus request)
  | receive {s : RepoState} {message : WireMessage} {messages : List WireMessage}
      (next : s.messages = message :: messages) :
      Step rules s .receive ({ s with messages := messages }.onDataMessage message)
  | disconnect {s : RepoState} (state : s.connectionState ≠ .disconnected) :
      Step rules s .disconnect s.onDisconnect

end RepoState

end TwitterLite
