import LibeventPaxos.Consensus
import LibeventPaxos.ProxyMsg
import LibeventPaxos.Lib.Framing
import LibeventPaxos.Lib.Machine

/-!
`proxy/proxy.c`: the connections of a proxy. Each has a key, a buffer event to the server (`p_s`)
once its connect message is executed, and one to the client (`p_c`) at the proxy that accepted it.
-/
namespace LibeventPaxos

open Lib

/-- What a proxy does to a connection with the server. -/
inductive ServerAction where
  | connect
  | write (bytes : List UInt8)
  | close
  deriving DecidableEq, Repr

/-- `socket_pair`: whether `p_s` is not NULL, and the input of `p_c` if that is not NULL. -/
structure SocketPair where
  counter : UInt64
  server : Bool
  client : Option (List UInt8)
  deriving DecidableEq, Repr

/-- What a call of the proxy draws from outside: times, the bytes left unset in a message, and
the memory behind what it reads. -/
structure ProxyEnv where
  receivedTime : TimeVal
  createdTime : TimeVal
  sysPadding : UInt32
  padding : UInt32
  behind : Memory

/-- The fields of `proxy_node` that connections use; `conConn` tells whether `con_conn` is not
NULL. The last four are histories: the messages written to `con_conn`, the actions on the server,
the bytes of the server given to clients, and the keys of the connections accepted. -/
structure ProxyNode where
  nodeId : UInt32
  pairCount : UInt16
  hashMap : UInt64 → Option SocketPair
  conConn : Bool
  fault : Option Fault
  requests : List ReqSubMsg
  issued : List (UInt64 × ServerAction)
  forwarded : List (UInt64 × List UInt8)
  accepted : List UInt64

namespace ProxyNode

def init (nodeId : UInt32) : ProxyNode :=
  { nodeId := nodeId
    pairCount := 0
    hashMap := fun _ => none
    conConn := false
    fault := none
    requests := []
    issued := []
    forwarded := []
    accepted := [] }

def fail (proxy : ProxyNode) (fault : Fault) : ProxyNode := { proxy with fault := some fault }

/-- `MY_HASH_SET`, or a change of the pair behind a pointer. -/
def setPair (proxy : ProxyNode) (key : UInt64) (pair : SocketPair) : ProxyNode :=
  { proxy with hashMap := Function.update proxy.hashMap key (some pair) }

def issue (proxy : ProxyNode) (key : UInt64) (action : ServerAction) : ProxyNode :=
  { proxy with issued := proxy.issued ++ [(key, action)] }

/-! ## Submitting -/

def genKey (nodeId : UInt32) (nodeCount : UInt16) (time : UInt64) : UInt64 :=
  time ||| (nodeId.toUInt64 <<< 52) ||| (nodeCount.toUInt64 <<< 36)

/-- The message of `build_req_sub_msg` with the time its callers add. -/
def proxyMsg (env : ProxyEnv) (key counter : UInt64) (action : ProxyAction) (data : List UInt8)
    (fits : data.length < 2 ^ 64) : ProxyMsg :=
  { action := action
    padding := env.padding
    receivedTime := env.receivedTime
    createdTime := env.createdTime
    connectionId := key
    counter := counter
    data := data
    fits := fits }

/-- `build_req_sub_msg` around the message. -/
def buildReqSubMsg (env : ProxyEnv) (msg : ProxyMsg) : ReqSubMsg := ⟨env.sysPadding, msg⟩

/-- `bufferevent_write(proxy->con_conn,…)`; without a connection the request is lost. -/
def submit (env : ProxyEnv) (proxy : ProxyNode) (msg : ProxyMsg) : ProxyNode :=
  if proxy.conConn then { proxy with requests := proxy.requests ++ [buildReqSubMsg env msg] }
  else proxy

/-- Submit without data and count the request: connects and closes. -/
def submitPair (env : ProxyEnv) (proxy : ProxyNode) (key : UInt64) (pair : SocketPair)
    (action : ProxyAction) : ProxyNode :=
  (proxy.setPair key { pair with counter := pair.counter + 1 }).submit env
    (proxyMsg env key pair.counter action [] (by decide))

/-! ## Clients -/

/-- `proxy_on_accept`; without a connection to the component the client is turned away. -/
def onAccept (env : ProxyEnv) (proxy : ProxyNode) (sec : UInt64) : ProxyNode :=
  if proxy.conConn then
    let key := genKey proxy.nodeId proxy.pairCount sec
    let proxy := { proxy with
      pairCount := proxy.pairCount + 1
      accepted := proxy.accepted ++ [key] }
    proxy.submitPair env key ⟨0, false, some []⟩ .connect
  else proxy

/-- `CLIENT_MSG_HEADER_SIZE+data_size` of a frame, as a `size_t`. -/
def clientTotal (header : List UInt8) : ℕ :=
  (16 + littleEndianValue (header.drop 8)) % 2 ^ 64

/-- `client_process_data` on the bytes of a frame; the frame of a size that wraps is shorter than
its header. -/
def clientProcessData (env : ProxyEnv) (key : UInt64) (proxy : ProxyNode) (frame : List UInt8) :
    ProxyNode :=
  match proxy.hashMap key with
  | none => proxy
  | some pair =>
    -- the header is read from a block that may be shorter
    if frame.length < 16 then proxy.fail .outOfBounds
    -- `C_SEND_WR`; other types are logged only
    else if littleEndianValue (frame.take 4) = 0 then
      let data := frame.drop 16
      if fits : data.length < 2 ^ 64 then
        (proxy.setPair key { pair with counter := pair.counter + 1 }).submit env
          (proxyMsg env key pair.counter .send data fits)
      else proxy.fail .outOfBounds
    else proxy

/-- `client_side_on_read`, with what has arrived since. -/
def clientSideOnRead (env : ProxyEnv) (proxy : ProxyNode) (key : UInt64) (chunk : List UInt8) :
    ProxyNode :=
  match proxy.hashMap key with
  | none => proxy
  | some pair =>
    match pair.client with
    | none => proxy
    | some input =>
      let input := input ++ chunk
      match readFrames 16 clientTotal (input.length + 1) input with
      | none => proxy.fail .noProgress
      | some (frames, rest) =>
        let proxy := proxy.setPair key { pair with client := some rest }
        -- a call takes its frame out of the buffer before it looks at it, so all are cut out first
        frames.foldl (fun proxy frame =>
          if proxy.fault.isSome then proxy else clientProcessData env key proxy frame) proxy

/-- `client_side_on_err` and `server_side_on_err` at the end of a connection. -/
def sideOnErr (env : ProxyEnv) (proxy : ProxyNode) (key : UInt64) : ProxyNode :=
  match proxy.hashMap key with
  | none => proxy
  | some pair => proxy.submitPair env key pair .close

/-! ## The server -/

/-- `server_side_on_read`: without a client the bytes are drained. -/
def serverSideOnRead (proxy : ProxyNode) (key : UInt64) (bytes : List UInt8) : ProxyNode :=
  match proxy.hashMap key with
  | none => proxy
  | some pair =>
    if bytes.length > 0 ∧ pair.client.isSome then
      { proxy with forwarded := proxy.forwarded ++ [(key, bytes)] }
    else proxy

def doActionConnect (proxy : ProxyNode) (key : UInt64) : ProxyNode :=
  let pair := (proxy.hashMap key).getD ⟨0, false, none⟩
  let proxy := proxy.setPair key pair
  if pair.server then proxy
  else (proxy.setPair key { pair with server := true }).issue key .connect

def doActionSend (proxy : ProxyNode) (key : UInt64) (bytes : List UInt8) : ProxyNode :=
  match proxy.hashMap key with
  | none => proxy
  | some pair => if pair.server then proxy.issue key (.write bytes) else proxy

def doActionClose (proxy : ProxyNode) (key : UInt64) : ProxyNode :=
  match proxy.hashMap key with
  | none => proxy
  | some pair =>
    let closed := proxy.setPair key { pair with server := false, client := none }
    if pair.server then closed.issue key .close else closed

/-- `do_action_to_server` on the data of a record. -/
def doActionToServer (proxy : ProxyNode) (data : Memory) : ProxyNode :=
  match actionAt data with
  | some .connect => proxy.doActionConnect (connectionIdAt data)
  | some .send => proxy.doActionSend (connectionIdAt data) (sendDataAt data)
  | some .close => proxy.doActionClose (connectionIdAt data)
  | none => proxy

end ProxyNode

/-! ## Runs of a proxy -/

/-- What the event loop can dispatch: the connection to the component comes and goes, clients
arrive, send and leave, the server sends and leaves, and the next entry of the log is executed. -/
inductive ProxyEvent where
  | connectConsensus
  | loseConsensus
  | accept (sec : UInt64)
  | clientRead (key : UInt64) (chunk : List UInt8)
  | clientErr (key : UInt64)
  | serverRead (key : UInt64) (bytes : List UInt8)
  | serverErr (key : UInt64)
  | execute (msg : ProxyMsg)

namespace ProxyNode

def hasClient (proxy : ProxyNode) (key : UInt64) : Bool :=
  (proxy.hashMap key).elim false fun pair => pair.client.isSome

def hasServer (proxy : ProxyNode) (key : UInt64) : Bool :=
  (proxy.hashMap key).elim false fun pair => pair.server

def dispatch (proxy : ProxyNode) (e : ProxyEnv × ProxyEvent) : ProxyNode :=
  match e.2 with
  | .connectConsensus => { proxy with conConn := true }
  | .loseConsensus => { proxy with conConn := false }
  | .accept sec => proxy.onAccept e.1 sec
  | .clientRead key chunk => proxy.clientSideOnRead e.1 key chunk
  | .clientErr key => proxy.sideOnErr e.1 key
  | .serverRead key bytes => proxy.serverSideOnRead key bytes
  | .serverErr key => proxy.sideOnErr e.1 key
  | .execute msg => proxy.doActionToServer (Memory.placed msg.bytes e.1.behind)

/-- A buffer event calls back only while it is there. -/
def Offered (proxy : ProxyNode) : ProxyEvent → Prop
  | .clientRead key _ => proxy.hasClient key = true
  | .clientErr key => proxy.hasClient key = true
  | .serverRead key _ => proxy.hasServer key = true
  | .serverErr key => proxy.hasServer key = true
  | .connectConsensus => proxy.conConn = false
  | .loseConsensus => proxy.conConn = true
  | .accept _ => True
  | .execute _ => True

instance (proxy : ProxyNode) : (event : ProxyEvent) → Decidable (proxy.Offered event)
  | .clientRead key _ => inferInstanceAs (Decidable (proxy.hasClient key = true))
  | .clientErr key => inferInstanceAs (Decidable (proxy.hasClient key = true))
  | .serverRead key _ => inferInstanceAs (Decidable (proxy.hasServer key = true))
  | .serverErr key => inferInstanceAs (Decidable (proxy.hasServer key = true))
  | .connectConsensus => inferInstanceAs (Decidable (proxy.conConn = false))
  | .loseConsensus => inferInstanceAs (Decidable (proxy.conConn = true))
  | .accept _ => .isTrue trivial
  | .execute _ => .isTrue trivial

def machine : Machine ProxyNode (ProxyEnv × ProxyEvent) where
  initial proxy := ∃ nodeId, proxy = init nodeId
  enabled proxy e := proxy.fault = none ∧ proxy.Offered e.2
  apply := dispatch

instance (proxy : ProxyNode) (e : ProxyEnv × ProxyEvent) : Decidable (machine.enabled proxy e) :=
  inferInstanceAs (Decidable (proxy.fault = none ∧ proxy.Offered e.2))

/-- The ids of connections are distinct: one that is accepted is not among those accepted here
before, nor among those the log has connected. -/
def DistinctIds (proxy : ProxyNode) (e : ProxyEnv × ProxyEvent) : Prop :=
  match e.2 with
  | .accept sec => proxy.hashMap (genKey proxy.nodeId proxy.pairCount sec) = none
  | _ => True

/-! ## What the log asks of the server -/

/-- One entry of the log, as one connection sees it: whether it is open, and its actions so far. -/
def serverStep (key : UInt64) (state : Bool × List ServerAction) (msg : ProxyMsg) :
    Bool × List ServerAction :=
  if msg.connectionId = key then
    match msg.action with
    | .connect => if state.1 then state else (true, state.2 ++ [.connect])
    | .send => if state.1 then (true, state.2 ++ [.write msg.data]) else state
    | .close => if state.1 then (false, state.2 ++ [.close]) else state
  else state

def serverActions (key : UInt64) (log : List ProxyMsg) : Bool × List ServerAction :=
  log.foldl (serverStep key) (false, [])

theorem serverActions_append (key : UInt64) (log : List ProxyMsg) (msg : ProxyMsg) :
    serverActions key (log ++ [msg]) = serverStep key (serverActions key log) msg := by
  rw [serverActions, List.foldl_append, List.foldl_cons, List.foldl_nil]
  rfl

/-- The actions a proxy has issued on one connection. -/
def actionsOn (proxy : ProxyNode) (key : UInt64) : List ServerAction :=
  (proxy.issued.filter fun entry => entry.1 = key).map Prod.snd

/-- The entries of the log among the events. -/
def logOf (events : List (ProxyEnv × ProxyEvent)) : List ProxyMsg :=
  events.filterMap fun e => match e.2 with
    | .execute msg => some msg
    | _ => none

/-! ## Local events -/

/-- Between the two states no connection has come or gone, and nothing has passed either way. -/
structure Quiet (proxy proxy' : ProxyNode) : Prop where
  servers : ∀ key, proxy'.hasServer key = proxy.hasServer key
  clients : ∀ key, proxy'.hasClient key = true → proxy.hasClient key = true
  issued : proxy'.issued = proxy.issued
  forwarded : proxy'.forwarded = proxy.forwarded
  accepted : proxy'.accepted = proxy.accepted

theorem Quiet.refl (proxy : ProxyNode) : Quiet proxy proxy :=
  ⟨fun _ => rfl, fun _ => id, rfl, rfl, rfl⟩

theorem Quiet.trans {proxy middle after : ProxyNode} (first : Quiet proxy middle)
    (second : Quiet middle after) : Quiet proxy after :=
  ⟨fun key => (second.servers key).trans (first.servers key),
    fun key has => first.clients key (second.clients key has),
    second.issued.trans first.issued, second.forwarded.trans first.forwarded,
    second.accepted.trans first.accepted⟩

section Local

variable {proxy : ProxyNode} {env : ProxyEnv} {key : UInt64}

theorem hasServer_of_pair {pair : SocketPair} (found : proxy.hashMap key = some pair) :
    proxy.hasServer key = pair.server := by
  rw [hasServer, found]
  rfl

theorem hasClient_of_pair {pair : SocketPair} (found : proxy.hashMap key = some pair) :
    proxy.hasClient key = pair.client.isSome := by
  rw [hasClient, found]
  rfl

theorem hasServer_setPair (pair : SocketPair) (other : UInt64) :
    (proxy.setPair key pair).hasServer other =
      if other = key then pair.server else proxy.hasServer other := by
  simp only [hasServer, setPair, Function.update_apply]
  split
  next same => rfl
  next apart => rfl

theorem hasClient_setPair (pair : SocketPair) (other : UInt64) :
    (proxy.setPair key pair).hasClient other =
      if other = key then pair.client.isSome else proxy.hasClient other := by
  simp only [hasClient, setPair, Function.update_apply]
  split
  next same => rfl
  next apart => rfl

/-- A pair that keeps both of its buffer events. -/
theorem quiet_setPair {pair pair' : SocketPair} (found : proxy.hashMap key = some pair)
    (server : pair'.server = pair.server) (client : pair'.client.isSome = pair.client.isSome) :
    Quiet proxy (proxy.setPair key pair') := by
  refine ⟨?_, ?_, rfl, rfl, rfl⟩
  · intro other
    rw [hasServer_setPair]
    split
    next same => rw [server, same, hasServer_of_pair found]
    next apart => rfl
  · intro other has
    rw [hasClient_setPair] at has
    split at has
    next same => rw [same, hasClient_of_pair found, ← client, has]
    next apart => exact has

theorem quiet_submit (msg : ProxyMsg) : Quiet proxy (proxy.submit env msg) := by
  rw [submit]
  split
  next connected => exact ⟨fun _ => rfl, fun _ => id, rfl, rfl, rfl⟩
  next lost => exact .refl proxy

theorem quiet_fail (fault : Fault) : Quiet proxy (proxy.fail fault) :=
  ⟨fun _ => rfl, fun _ => id, rfl, rfl, rfl⟩

theorem quiet_sideOnErr : Quiet proxy (proxy.sideOnErr env key) := by
  rw [sideOnErr]
  split
  next absent => exact .refl proxy
  next pair found =>
    rw [submitPair]
    have counted : Quiet proxy (proxy.setPair key { pair with counter := pair.counter + 1 }) :=
      quiet_setPair found rfl rfl
    exact counted.trans (quiet_submit _)

theorem quiet_clientProcessData (frame : List UInt8) :
    Quiet proxy (proxy.clientProcessData env key frame) := by
  rw [clientProcessData]
  split
  next absent => exact .refl proxy
  next pair found =>
    split
    next short => exact quiet_fail _
    next whole =>
      split
      next write =>
        simp only
        split
        next fits =>
          have counted : Quiet proxy
              (proxy.setPair key { pair with counter := pair.counter + 1 }) :=
            quiet_setPair found rfl rfl
          exact counted.trans (quiet_submit _)
        next huge => exact quiet_fail _
      next other => exact .refl proxy

/-- The frames of one call, one after the other. -/
private theorem quiet_frames (frames : List (List UInt8)) (proxy : ProxyNode) :
    Quiet proxy (frames.foldl (fun proxy frame =>
      if proxy.fault.isSome then proxy else clientProcessData env key proxy frame) proxy) := by
  induction frames generalizing proxy with
  | nil => exact .refl proxy
  | cons frame frames ih =>
    rw [List.foldl_cons]
    split
    next faulty => exact ih proxy
    next running => exact (quiet_clientProcessData frame).trans (ih _)

theorem quiet_clientSideOnRead (chunk : List UInt8) :
    Quiet proxy (proxy.clientSideOnRead env key chunk) := by
  rw [clientSideOnRead]
  split
  next absent => exact .refl proxy
  next pair found =>
    split
    next closed => exact .refl proxy
    next input client =>
      simp only
      split
      next endless => exact quiet_fail _
      next frames rest read =>
        have taken : Quiet proxy (proxy.setPair key { pair with client := some rest }) :=
          quiet_setPair found rfl (by rw [client]; rfl)
        exact taken.trans (quiet_frames frames _)

end Local

/-! ## The log and the server -/

/-- The server has seen what the log asks for, and only clients accepted here see the server. -/
structure Follows (log : List ProxyMsg) (proxy : ProxyNode) : Prop where
  server : ∀ key, (proxy.hasServer key, proxy.actionsOn key) = serverActions key log
  client : ∀ key, proxy.hasClient key = true → key ∈ proxy.accepted
  forwarded : ∀ entry ∈ proxy.forwarded, entry.1 ∈ proxy.accepted

theorem follows_init (nodeId : UInt32) : Follows [] (init nodeId) :=
  ⟨fun _ => rfl, fun _ has => absurd has (by simp [hasClient, init]), by simp [init]⟩

section Step

variable {log : List ProxyMsg} {proxy proxy' : ProxyNode} {env : ProxyEnv} {key : UInt64}

theorem Follows.quiet (follows : Follows log proxy) (quiet : Quiet proxy proxy') :
    Follows log proxy' := by
  constructor
  · intro key
    rw [quiet.servers, actionsOn, quiet.issued]
    exact follows.server key
  · intro key has
    rw [quiet.accepted]
    exact follows.client key (quiet.clients key has)
  · rw [quiet.forwarded, quiet.accepted]
    exact follows.forwarded

/-- A connection with a new id has no server yet. -/
theorem Follows.onAccept (follows : Follows log proxy) (sec : UInt64)
    (fresh : proxy.hashMap (genKey proxy.nodeId proxy.pairCount sec) = none) :
    Follows log (proxy.onAccept env sec) := by
  rw [ProxyNode.onAccept]
  split
  next connected =>
    rw [submitPair]
    refine Follows.quiet ?_ (quiet_submit _)
    generalize genKey proxy.nodeId proxy.pairCount sec = key at fresh
    constructor
    · intro other
      rw [hasServer_setPair]
      split
      next same =>
        have absent : proxy.hasServer other = false := by
          rw [same, hasServer, fresh]
          rfl
        rw [← follows.server other, absent]
        rfl
      next apart => exact follows.server other
    · intro other has
      rw [hasClient_setPair] at has
      split at has
      next same =>
        rw [same]
        exact List.mem_append_right _ (List.mem_singleton.mpr rfl)
      next apart => exact List.mem_append_left _ (follows.client other has)
    · intro entry member
      exact List.mem_append_left _ (follows.forwarded entry member)
  next lost => exact follows

/-- Output of the server goes to a client only where one was accepted. -/
theorem Follows.serverSideOnRead (follows : Follows log proxy) (bytes : List UInt8) :
    Follows log (proxy.serverSideOnRead key bytes) := by
  rw [ProxyNode.serverSideOnRead]
  split
  next absent => exact follows
  next pair found =>
    split
    next client =>
      refine ⟨follows.server, follows.client, ?_⟩
      intro entry member
      rcases List.mem_append.mp member with earlier | now
      · exact follows.forwarded entry earlier
      · rw [List.mem_singleton.mp now]
        apply follows.client
        rw [hasClient_of_pair found]
        exact client.2
    next drained => exact follows

theorem actionsOn_issue (action : ServerAction) (other : UInt64) :
    (proxy.issue key action).actionsOn other =
      if key = other then proxy.actionsOn other ++ [action] else proxy.actionsOn other := by
  simp only [actionsOn, issue, List.filter_append, List.map_append]
  split
  next same => simp [same]
  next apart => simp [apart]

/-- One connection moves as the log asks, the others stay. -/
theorem Follows.execute {msg : ProxyMsg} (follows : Follows log proxy)
    (moved : (proxy'.hasServer msg.connectionId, proxy'.actionsOn msg.connectionId) =
      serverStep msg.connectionId
        (proxy.hasServer msg.connectionId, proxy.actionsOn msg.connectionId) msg)
    (others : ∀ other, other ≠ msg.connectionId → proxy'.hasServer other = proxy.hasServer other ∧
      proxy'.actionsOn other = proxy.actionsOn other)
    (client : ∀ key, proxy'.hasClient key = true → proxy.hasClient key = true)
    (forwarded : proxy'.forwarded = proxy.forwarded) (accepted : proxy'.accepted = proxy.accepted) :
    Follows (log ++ [msg]) proxy' := by
  constructor
  · intro key
    rw [serverActions_append]
    by_cases same : key = msg.connectionId
    · rw [same, moved, follows.server]
    · obtain ⟨server, actions⟩ := others key same
      rw [server, actions, serverStep, if_neg (fun equal => same equal.symm), follows.server]
  · intro key has
    rw [accepted]
    exact follows.client key (client key has)
  · rw [forwarded, accepted]
    exact follows.forwarded

theorem follows_connect (follows : Follows log proxy) (msg : ProxyMsg)
    (connect : msg.action = .connect) :
    Follows (log ++ [msg]) (proxy.doActionConnect msg.connectionId) := by
  have pair_server : ((proxy.hashMap msg.connectionId).getD ⟨0, false, none⟩).server =
      proxy.hasServer msg.connectionId := by
    rw [hasServer]
    cases proxy.hashMap msg.connectionId with
    | none => rfl
    | some pair => rfl
  have pair_client : ((proxy.hashMap msg.connectionId).getD ⟨0, false, none⟩).client.isSome =
      proxy.hasClient msg.connectionId := by
    rw [hasClient]
    cases proxy.hashMap msg.connectionId with
    | none => rfl
    | some pair => rfl
  rw [doActionConnect]
  generalize (proxy.hashMap msg.connectionId).getD ⟨0, false, none⟩ = pair at pair_server pair_client
  split
  -- a second connect of one key asks the server for nothing
  next opened =>
    rw [pair_server] at opened
    refine follows.execute ?_ ?_ ?_ rfl rfl
    · rw [hasServer_setPair, if_pos rfl, pair_server, serverStep, if_pos rfl, connect, opened]
      rfl
    · intro other apart
      rw [hasServer_setPair, if_neg apart]
      exact ⟨rfl, rfl⟩
    · intro key has
      rw [hasClient_setPair] at has
      split at has
      next same => rw [same, ← pair_client, has]
      next apart => exact has
  next closed =>
    rw [pair_server, Bool.not_eq_true] at closed
    refine follows.execute ?_ ?_ ?_ rfl rfl
    · rw [actionsOn_issue, if_pos rfl, serverStep, if_pos rfl, connect, closed]
      change (((proxy.setPair msg.connectionId pair).setPair msg.connectionId
        { pair with server := true }).hasServer msg.connectionId, _) = _
      rw [hasServer_setPair, if_pos rfl]
      rfl
    · intro other apart
      rw [actionsOn_issue, if_neg (fun same => apart same.symm)]
      change ((proxy.setPair msg.connectionId pair).setPair msg.connectionId
        { pair with server := true }).hasServer other = _ ∧ _
      rw [hasServer_setPair, if_neg apart, hasServer_setPair, if_neg apart]
      exact ⟨rfl, rfl⟩
    · intro key has
      change ((proxy.setPair msg.connectionId pair).setPair msg.connectionId
        { pair with server := true }).hasClient key = true at has
      rw [hasClient_setPair, hasClient_setPair] at has
      split at has
      next same => rw [same, ← pair_client, has]
      next apart => exact has

theorem follows_send (follows : Follows log proxy) (msg : ProxyMsg) (send : msg.action = .send) :
    Follows (log ++ [msg]) (proxy.doActionSend msg.connectionId msg.data) := by
  rw [doActionSend]
  split
  next absent =>
    have closed : proxy.hasServer msg.connectionId = false := by
      rw [hasServer, absent]
      rfl
    refine follows.execute ?_ (fun _ _ => ⟨rfl, rfl⟩) (fun _ => id) rfl rfl
    rw [serverStep, if_pos rfl, send, closed]
    rfl
  next pair found =>
    split
    next opened =>
      have server : proxy.hasServer msg.connectionId = true := by
        rw [hasServer_of_pair found, opened]
      refine follows.execute ?_ ?_ (fun _ => id) rfl rfl
      · rw [actionsOn_issue, if_pos rfl, serverStep, if_pos rfl, send, server]
        change (proxy.hasServer msg.connectionId, _) = _
        rw [server]
        rfl
      · intro other apart
        rw [actionsOn_issue, if_neg (fun same => apart same.symm)]
        exact ⟨rfl, rfl⟩
    next closed =>
      have server : proxy.hasServer msg.connectionId = false := by
        rw [hasServer_of_pair found]
        exact Bool.eq_false_iff.mpr closed
      refine follows.execute ?_ (fun _ _ => ⟨rfl, rfl⟩) (fun _ => id) rfl rfl
      rw [serverStep, if_pos rfl, send, server]
      rfl

theorem follows_close (follows : Follows log proxy) (msg : ProxyMsg) (close : msg.action = .close) :
    Follows (log ++ [msg]) (proxy.doActionClose msg.connectionId) := by
  rw [doActionClose]
  split
  -- a close of a key that is not known, or without a connection to the server, asks for nothing
  next absent =>
    have closed : proxy.hasServer msg.connectionId = false := by
      rw [hasServer, absent]
      rfl
    refine follows.execute ?_ (fun _ _ => ⟨rfl, rfl⟩) (fun _ => id) rfl rfl
    rw [serverStep, if_pos rfl, close, closed]
    rfl
  next pair found =>
    have client : ∀ key, (proxy.setPair msg.connectionId
        { pair with server := false, client := none }).hasClient key = true →
        proxy.hasClient key = true := by
      intro key has
      rw [hasClient_setPair] at has
      split at has
      next same => exact absurd has (by simp)
      next apart => exact has
    simp only
    split
    next opened =>
      have server : proxy.hasServer msg.connectionId = true := by
        rw [hasServer_of_pair found, opened]
      refine follows.execute ?_ ?_ client rfl rfl
      · rw [actionsOn_issue, if_pos rfl, serverStep, if_pos rfl, close, server]
        change ((proxy.setPair msg.connectionId
          { pair with server := false, client := none }).hasServer msg.connectionId, _) = _
        rw [hasServer_setPair, if_pos rfl]
        rfl
      · intro other apart
        rw [actionsOn_issue, if_neg (fun same => apart same.symm)]
        change (proxy.setPair msg.connectionId
          { pair with server := false, client := none }).hasServer other = _ ∧ _
        rw [hasServer_setPair, if_neg apart]
        exact ⟨rfl, rfl⟩
    next closed =>
      have server : proxy.hasServer msg.connectionId = false := by
        rw [hasServer_of_pair found]
        exact Bool.eq_false_iff.mpr closed
      refine follows.execute ?_ ?_ client rfl rfl
      · rw [hasServer_setPair, if_pos rfl, serverStep, if_pos rfl, close, server]
        rfl
      · intro other apart
        rw [hasServer_setPair, if_neg apart]
        exact ⟨rfl, rfl⟩

/-- Executing an entry does what the log asks, whatever lies behind it in memory. -/
theorem follows_doActionToServer (follows : Follows log proxy) (msg : ProxyMsg) (behind : Memory) :
    Follows (log ++ [msg]) (proxy.doActionToServer (Memory.placed msg.bytes behind)) := by
  rw [doActionToServer, actionAt_placed]
  cases action : msg.action with
  | connect =>
    simp only [connectionIdAt_placed]
    exact follows_connect follows msg action
  | send =>
    simp only [connectionIdAt_placed, sendDataAt_placed msg behind action]
    exact follows_send follows msg action
  | close =>
    simp only [connectionIdAt_placed]
    exact follows_close follows msg action

/-- One event: a local one leaves the log where it was. -/
theorem follows_dispatch (follows : Follows log proxy) (e : ProxyEnv × ProxyEvent)
    (distinct : DistinctIds proxy e) : Follows (log ++ logOf [e]) (proxy.dispatch e) := by
  obtain ⟨env, event⟩ := e
  cases event with
  | execute msg => exact follows_doActionToServer follows msg env.behind
  | connectConsensus =>
    simp only [logOf, List.filterMap_cons, List.filterMap_nil, List.append_nil, dispatch]
    exact follows.quiet ⟨fun _ => rfl, fun _ => id, rfl, rfl, rfl⟩
  | loseConsensus =>
    simp only [logOf, List.filterMap_cons, List.filterMap_nil, List.append_nil, dispatch]
    exact follows.quiet ⟨fun _ => rfl, fun _ => id, rfl, rfl, rfl⟩
  | accept sec =>
    simp only [logOf, List.filterMap_cons, List.filterMap_nil, List.append_nil, dispatch]
    exact follows.onAccept sec distinct
  | clientRead key chunk =>
    simp only [logOf, List.filterMap_cons, List.filterMap_nil, List.append_nil, dispatch]
    exact follows.quiet (quiet_clientSideOnRead chunk)
  | clientErr key =>
    simp only [logOf, List.filterMap_cons, List.filterMap_nil, List.append_nil, dispatch]
    exact follows.quiet quiet_sideOnErr
  | serverRead key bytes =>
    simp only [logOf, List.filterMap_cons, List.filterMap_nil, List.append_nil, dispatch]
    exact follows.serverSideOnRead bytes
  | serverErr key =>
    simp only [logOf, List.filterMap_cons, List.filterMap_nil, List.append_nil, dispatch]
    exact follows.quiet quiet_sideOnErr

/-- A whole run. -/
theorem follows_run (events : List (ProxyEnv × ProxyEvent)) (follows : Follows log proxy)
    (run : machine.Accepts DistinctIds proxy events) :
    Follows (log ++ logOf events) (events.foldl machine.apply proxy) := by
  induction events generalizing log proxy with
  | nil =>
    rw [logOf, List.filterMap_nil, List.append_nil]
    exact follows
  | cons e events ih =>
    obtain ⟨distinct, -, rest⟩ := run
    have split : logOf (e :: events) = logOf [e] ++ logOf events := by
      rw [logOf, logOf, logOf, ← List.filterMap_append]
      rfl
    rw [split, ← List.append_assoc, List.foldl_cons]
    exact ih (follows_dispatch follows e distinct) rest

end Step

/-- Two proxies with different connections that execute the same log do the same to their servers,
connection by connection what the log asks for; of the two only the one that accepted a connection
gives its client what the server sends. -/
theorem same_server_actions (nodeId nodeId' : UInt32) (events events' : List (ProxyEnv × ProxyEvent))
    (run : machine.Accepts DistinctIds (init nodeId) events)
    (run' : machine.Accepts DistinctIds (init nodeId') events')
    (sameLog : logOf events = logOf events')
    (apart : ∀ key ∈ (events.foldl machine.apply (init nodeId)).accepted,
      key ∉ (events'.foldl machine.apply (init nodeId')).accepted) :
    let proxy := events.foldl machine.apply (init nodeId)
    let proxy' := events'.foldl machine.apply (init nodeId')
    (∀ key, proxy.actionsOn key = (serverActions key (logOf events)).2 ∧
      proxy'.actionsOn key = proxy.actionsOn key) ∧
    (∀ entry ∈ proxy.forwarded, entry.1 ∈ proxy.accepted ∧ entry.1 ∉ proxy'.accepted) ∧
    (∀ entry ∈ proxy'.forwarded, entry.1 ∈ proxy'.accepted ∧ entry.1 ∉ proxy.accepted) := by
  intro proxy proxy'
  have follows : Follows (logOf events) proxy := follows_run events (follows_init nodeId) run
  have follows' : Follows (logOf events') proxy' :=
    follows_run events' (follows_init nodeId') run'
  refine ⟨?_, ?_, ?_⟩
  · intro key
    have actions := congrArg Prod.snd (follows.server key)
    have actions' := congrArg Prod.snd (follows'.server key)
    simp only at actions actions'
    exact ⟨actions, by rw [actions, actions', sameLog]⟩
  · intro entry member
    have accepted := follows.forwarded entry member
    exact ⟨accepted, apart entry.1 accepted⟩
  · intro entry member
    have accepted := follows'.forwarded entry member
    exact ⟨accepted, fun other => apart entry.1 other accepted⟩

/-- An entry of the log for the connection 1. -/
def entry (action : ProxyAction) (data : List UInt8) (fits : data.length < 2 ^ 64) : ProxyMsg :=
  ⟨action, 0, ⟨0, 0⟩, ⟨0, 0⟩, 1, 0, data, fits⟩

def zeroEnv : ProxyEnv := ⟨⟨0, 0⟩, ⟨0, 0⟩, 0, 0, fun _ => 0⟩

/-- The proxy of node 0 accepts a connection, and the log opens it, writes to it and closes it. -/
def accepting : List (ProxyEnv × ProxyEvent) :=
  [(zeroEnv, .connectConsensus), (zeroEnv, .accept 1),
    (zeroEnv, .execute (entry .connect [] (by decide))),
    (zeroEnv, .execute (entry .send [7, 8] (by decide))), (zeroEnv, .serverRead 1 [9]),
    (zeroEnv, .clientErr 1), (zeroEnv, .execute (entry .close [] (by decide)))]

/-- The proxy of node 1 executes the same entries. -/
def executing : List (ProxyEnv × ProxyEvent) :=
  [(zeroEnv, .execute (entry .connect [] (by decide))),
    (zeroEnv, .execute (entry .send [7, 8] (by decide))),
    (zeroEnv, .execute (entry .close [] (by decide)))]

theorem accepting_executing_agree :
    let proxy := accepting.foldl machine.apply (init 0)
    let proxy' := executing.foldl machine.apply (init 1)
    (∀ key, proxy.actionsOn key = (serverActions key (logOf accepting)).2 ∧
      proxy'.actionsOn key = proxy.actionsOn key) ∧
    (∀ entry ∈ proxy.forwarded, entry.1 ∈ proxy.accepted ∧ entry.1 ∉ proxy'.accepted) ∧
    (∀ entry ∈ proxy'.forwarded, entry.1 ∈ proxy'.accepted ∧ entry.1 ∉ proxy.accepted) :=
  same_server_actions 0 1 accepting executing
    ⟨trivial, by decide, rfl, by decide, trivial, by decide, trivial, by decide, trivial, by decide,
      trivial, by decide, trivial, by decide, trivial⟩
    ⟨trivial, by decide, trivial, by decide, trivial, by decide, trivial⟩ rfl
    (fun _ _ => List.not_mem_nil)

end ProxyNode

end LibeventPaxos
