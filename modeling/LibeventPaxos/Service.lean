import LibeventPaxos.Uplink
import LibeventPaxos.Submissions

/-!
The whole service. On each machine a process runs a proxy, which has clients and a server, and a
node, which exchanges messages with the other nodes; the proxy submits requests over a connection to
its own node, and executes what it finds in the database the two share.
-/
namespace LibeventPaxos

open Lib

/-- Three histories are kept for each machine: the messages its node has taken from its proxy, with
the connection they came on, the payloads its proxy has executed, and the seconds in which clients
have arrived. -/
structure Service (n : ℕ) where
  net : Network n
  proxies : Proxies (Fin n)
  uplinks : Fin n → Uplink
  taken : Fin n → List (ℕ × SysMsg)
  executed : Fin n → List (List UInt8)
  seconds : Fin n → List UInt64

/-- A step of the network; the arrival at a node of some bytes of its proxy; an event at a proxy; a
look of a proxy at a record, which may be one that holds no request; and for the link of a proxy
what `NetworkEvent` has for those of nodes. -/
inductive ServiceEvent (n : ℕ) where
  | net (e : NetworkEvent n)
  | arrive (i : Fin n) (k len : ℕ) (envs : ℕ → LinkEnv)
  | proxy (i : Fin n) (env : ProxyEnv) (event : ProxyEvent)
  | execute (i : Fin n) (env : ProxyEnv) (key : DbKey) (junk : RequestRecord)
  | bev (i : Fin n) (k : ℕ) (event : BevEvent)
  | timeout (i : Fin n)

/-- The node whose process takes the step. -/
def NetworkEvent.actor {n : ℕ} : NetworkEvent n → Fin n
  | .node i _ _ => i
  | .arrive _ j _ _ _ => j
  | .bev i _ _ _ => i
  | .timeout i _ => i

/-- The second in which a client arrives. -/
def ProxyEvent.second : ProxyEvent → Option UInt64
  | .accept sec => some sec
  | _ => none

namespace Service

variable {n : ℕ}

def setProxy (s : Service n) (i : Fin n) (proxy : ProxyNode) : Service n :=
  { s with proxies := Function.update s.proxies i proxy }

def setUplink (s : Service n) (i : Fin n) (uplink : Uplink) : Service n :=
  { s with uplinks := Function.update s.uplinks i uplink }

/-! ## Proxies -/

/-- A request is written to the connection. -/
def submit (i : Fin n) (s : Service n) (request : ReqSubMsg) : Service n :=
  match (s.uplinks i).write request.asMsg request.bytes with
  | .ok uplink => s.setUplink i uplink
  | .error fault => s.setProxy i ((s.proxies i).fail fault)

/-- A proxy handles an event, and the requests it makes are written to its connection. -/
def dispatchProxy (s : Service n) (i : Fin n) (env : ProxyEnv) (event : ProxyEvent) : Service n :=
  -- what the event adds to the requests is what the source writes to `con_conn`
  let proxy := (s.proxies i).dispatch (env, event)
  (proxy.requests.drop (s.proxies i).requests.length).foldl (submit i)
    { s.setProxy i proxy with
      seconds := Function.update s.seconds i (s.seconds i ++ event.second.toList) }

/-- The body of the loop of `real_do_action` where its cursor stands at `key`; `Replay` says where
it goes. -/
def execute (s : Service n) (i : Fin n) (env : ProxyEnv) (key : DbKey) (junk : RequestRecord) :
    Service n :=
  match (s.net.nodes i).comp.db.retrieveRecord key with
  -- the cursor goes on to the next view
  | none => s
  | some value =>
    let data := (value.asRequest junk).data
    { s.setProxy i ((s.proxies i).doActionToServer (Memory.placed data env.behind)) with
      executed := Function.update s.executed i (s.executed i ++ [data]) }

/-- What becomes of `con_conn`. -/
def onBev (proxy : ProxyNode) : BevEvent → ProxyNode
  | .connected => proxy
  | .lost => { proxy with conConn := false }

/-! ## Nodes -/

/-- `handle_msg` of a message from this connection; a node that has failed handles no more. -/
def hear (s : Service n) (i : Fin n) (k : ℕ) (env : LinkEnv) (msg : SysMsg) : Service n :=
  -- a node that has failed leaves what is left of the buffer unread
  if (s.net.nodes i).running then
    { s with
      net := s.net.dispatch i env (.message msg)
      taken := Function.update s.taken i (s.taken i ++ [(k, msg)]) }
  else s

def handler (i : Fin n) (k : ℕ) (envs : ℕ → LinkEnv) (count : ℕ) (s : Service n) (msg : SysMsg) :
    Service n := s.hear i k (envs count) msg

/-- Some bytes of the connection arrive, and `replica_on_read` is called. -/
def arrive (s : Service n) (i : Fin n) (k len : ℕ) (envs : ℕ → LinkEnv) : Service n :=
  match (s.uplinks i).conns[k]? with
  | none => s
  | some conn =>
    match replicaOnRead (handleFrame (fun count => (envs count).behind) (handler i k envs)) (0, s)
        (conn.input ++ conn.inFlight.take len) with
    | none => { s with net := s.net.fail i .noProgress }
    -- handlers write to links of the node, not to the one that is read
    | some ((_, s), rest) => s.setUplink i { s.uplinks i with
        conns := (s.uplinks i).conns.modify k fun conn =>
          { conn with inFlight := conn.inFlight.drop len, input := rest } }

/-! ## The machine -/

/-- Processes that have run up to the loops of their two threads. -/
def start (nodes : Cluster n) : Service n where
  net := .start nodes
  -- `connect_consensus` has been called, the connection is not made yet
  proxies i := { ProxyNode.init (UInt32.ofNat i) with conConn := true }
  uplinks _ := .start
  taken _ := []
  executed _ := []
  seconds _ := []

def act (s : Service n) : ServiceEvent n → Service n
  | .net e => { s with net := s.net.act e }
  | .arrive i k len envs => s.arrive i k len envs
  | .proxy i env event => s.dispatchProxy i env event
  | .execute i env key junk => s.execute i env key junk
  | .bev i k event => (s.setUplink i ((s.uplinks i).consensusOnEvent k event)).setProxy i
      (onBev (s.proxies i) event)
  | .timeout i => (s.setUplink i (s.uplinks i).reconnectOnTimeout).setProxy i
      { s.proxies i with conConn := true }

/-- Neither thread of the process has failed. -/
def Running (s : Service n) (i : Fin n) : Prop :=
  (s.net.nodes i).comp.fault = none ∧ (s.proxies i).fault = none

instance (s : Service n) (i : Fin n) : Decidable (s.Running i) :=
  inferInstanceAs (Decidable ((s.net.nodes i).comp.fault = none ∧ (s.proxies i).fault = none))

/-- Nodes get requests from their proxies only. Bytes arrive on connections that have been made. -/
def Enabled (s : Service n) : ServiceEvent n → Prop
  | .net e => Network.Enabled s.net e ∧ e.handled SysMsg.submitted = 0 ∧ s.Running e.actor
  | .arrive i k len _ => s.Running i ∧ ∃ conn ∈ (s.uplinks i).conns[k]?,
      conn.status ≠ .connecting ∧ 0 < len ∧ len ≤ conn.inFlight.length
  | .proxy i _ event => s.Running i ∧ (s.proxies i).Offered event ∧ event.Local
  | .execute i _ _ _ => s.Running i
  | .bev i k event => s.Running i ∧ (s.uplinks i).Raises k event
  | .timeout i => s.Running i ∧ (s.uplinks i).reCon = .pending

instance (s : Service n) : ∀ e, Decidable (Enabled s e)
  | .net e => inferInstanceAs (Decidable
      (Network.Enabled s.net e ∧ e.handled SysMsg.submitted = 0 ∧ s.Running e.actor))
  | .arrive i k len _ => inferInstanceAs (Decidable (s.Running i ∧
      ∃ conn ∈ (s.uplinks i).conns[k]?, conn.status ≠ .connecting ∧ 0 < len ∧
        len ≤ conn.inFlight.length))
  | .proxy i _ event => inferInstanceAs (Decidable
      (s.Running i ∧ (s.proxies i).Offered event ∧ event.Local))
  | .execute i _ _ _ => inferInstanceAs (Decidable (s.Running i))
  | .bev i k event => inferInstanceAs (Decidable (s.Running i ∧ (s.uplinks i).Raises k event))
  | .timeout i => inferInstanceAs (Decidable (s.Running i ∧ (s.uplinks i).reCon = .pending))

def machine (initial : Cluster n → Prop) : Machine (Service n) (ServiceEvent n) where
  initial s := ∃ nodes, initial nodes ∧ s = start nodes
  enabled := Enabled
  apply := act

instance (initial : Cluster n → Prop) (s : Service n) (e : ServiceEvent n) :
    Decidable ((machine initial).enabled s e) := inferInstanceAs (Decidable (Enabled s e))

/-- What node `i` has not handled yet of a connection of its proxy. -/
def unheard (s : Service n) (i : Fin n) (k : ℕ) (conn : Conn) : List SysMsg :=
  conn.written.drop (Uplink.takenOf (s.taken i) k).length

/-- What arrives fits its frames, in the network and from a proxy. -/
def Carried (s : Service n) : ServiceEvent n → Prop
  | .net e => Network.Carried s.net e
  | .arrive i k _ _ => ∀ conn ∈ (s.uplinks i).conns[k]?, ∀ msg ∈ s.unheard i k conn, msg.Fits
  | _ => True

end Service

end LibeventPaxos
