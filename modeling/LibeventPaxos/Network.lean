import LibeventPaxos.Cluster
import LibeventPaxos.PeerLink
import LibeventPaxos.NodeSends

/-!
The network as `replica.c` uses it: the nodes of a cluster with the link from each node to each
other. A node writes what it sends to its active peers, takes frames out of what arrives on the
connections that were made to it, and connects a peer again after it has lost it.
-/
namespace LibeventPaxos

open Lib

/-- What a step draws besides `NodeEnv`: the bytes nothing sets in each message it sends, and what
lies behind the block of the frame it reads. -/
structure LinkEnv extends NodeEnv where
  padding : ℕ → ℕ → UInt32
  behind : Memory

/-- Two histories are kept: the messages each node has handled, with the connection they came on,
and all that the nodes have done. -/
structure Network (n : ℕ) where
  nodes : Cluster n
  channels : Fin n → Fin n → Channel
  heard : Fin n → List ((Fin n × ℕ) × SysMsg)
  history : List (ClusterEvent n)

/-- What happens at a node but messages of other nodes. -/
def NodeEvent.Local : NodeEvent → Prop
  | .message (.requestSubmit _) => True
  | .message _ => False
  | _ => True

instance : ∀ event : NodeEvent, Decidable event.Local
  | .message (.requestSubmit _) => .isTrue trivial
  | .message (.pingReq _ _ _) => .isFalse id
  | .message (.pingAck _ _ _) => .isFalse id
  | .message (.consensus _) => .isFalse id
  | .message (.leaderElection _ _) => .isFalse id
  | .leaderPing => .isTrue trivial
  | .expectPing => .isTrue trivial
  | .makeProgress => .isTrue trivial
  | .electionTimeout => .isTrue trivial

/-- A step of the network: an event at a node, the arrival of some bytes of a connection at the node
it was made to, an event of the buffer event of a connection, and the timer of a peer. -/
inductive NetworkEvent (n : ℕ) where
  | node (i : Fin n) (env : LinkEnv) (event : NodeEvent)
  | arrive (i j : Fin n) (k len : ℕ) (envs : ℕ → LinkEnv)
  | bev (i j : Fin n) (k : ℕ) (event : BevEvent)
  | timeout (i j : Fin n)

namespace Network

variable {n : ℕ}

/-! ## Sending -/

/-- The peers a message goes to: `send_to_other_nodes` leaves out the own one, and
`send_to_one_node` takes the one with this index. -/
def targets (i : Fin n) (address : Int) : List (Fin n) :=
  (List.finRange n).filter fun j => if address < 0 then j ≠ i else address = (j : ℕ)

def fail (net : Network n) (i : Fin n) (fault : Fault) : Network n :=
  { net with nodes := Function.update net.nodes i ((net.nodes i).fail fault) }

def setChannel (net : Network n) (i j : Fin n) (channel : Channel) : Network n :=
  { net with
    channels := Function.update net.channels i (Function.update (net.channels i) j channel) }

@[simp] theorem channels_setChannel_self (net : Network n) (i j : Fin n) (channel : Channel) :
    (net.setChannel i j channel).channels i j = channel := by
  simp [setChannel]

theorem channels_setChannel_other (net : Network n) (i j : Fin n) (channel : Channel)
    {a b : Fin n} (other : a ≠ i ∨ b ≠ j) :
    (net.setChannel i j channel).channels a b = net.channels a b := by
  simp only [setChannel]
  by_cases same : a = i
  · subst same
    rw [Function.update_self, Function.update_of_ne (other.resolve_left (fun ne => ne rfl))]
  · rw [Function.update_of_ne same]

def sendTo (net : Network n) (i : Fin n) (msg : SysMsg) (frame : List UInt8) (j : Fin n) :
    Network n :=
  match (net.channels i j).send msg frame with
  | .ok channel => net.setChannel i j channel
  | .error fault => net.fail i fault

/-- A message with its frame to all its targets. -/
def sendFrame (net : Network n) (i : Fin n) (call : Int × SysMsg × List UInt8) : Network n :=
  (targets i call.1).foldl (fun net j => net.sendTo i call.2.1 call.2.2 j) net

/-- The messages of one event with their frames. -/
def framed (padding : ℕ → ℕ → UInt32) (calls : List (Int × SysMsg)) :
    List (Int × SysMsg × List UInt8) :=
  calls.mapIdx fun index call => (call.1, call.2, call.2.frame (padding index))

/-- A node handles an event, and what it sends is written to its peers. -/
def dispatch (net : Network n) (i : Fin n) (env : LinkEnv) (event : NodeEvent) : Network n :=
  let node := (net.nodes i).dispatch (env.toNodeEnv, event)
  (framed env.padding ((net.nodes i).callsSince node)).foldl (fun net call => net.sendFrame i call)
    { net with
      nodes := Function.update net.nodes i node
      history := net.history ++ [(i, env.toNodeEnv, event)] }

/-- What writing to the links of a node preserves, a dispatch preserves after its event. -/
theorem dispatch_invariant {P : Network n → Prop} (net : Network n) (i : Fin n) (env : LinkEnv)
    (event : NodeEvent) (sets : ∀ net j channel, P net → P (net.setChannel i j channel))
    (fails : ∀ net fault, P net → P (net.fail i fault))
    (start : P { net with
      nodes := Function.update net.nodes i ((net.nodes i).dispatch (env.toNodeEnv, event))
      history := net.history ++ [(i, env.toNodeEnv, event)] }) : P (net.dispatch i env event) := by
  have one (net : Network n) (msg : SysMsg) (frame : List UInt8) (j : Fin n) (before : P net) :
      P (net.sendTo i msg frame j) := by
    rw [sendTo]
    split
    next channel sent => exact sets net j channel before
    next fault failed => exact fails net fault before
  have many (msg : SysMsg) (frame : List UInt8) (js : List (Fin n)) (net : Network n)
      (before : P net) : P (js.foldl (fun net j => net.sendTo i msg frame j) net) := by
    induction js generalizing net with
    | nil => exact before
    | cons j js ih => exact ih _ (one net msg frame j before)
  have all (calls : List (Int × SysMsg × List UInt8)) (net : Network n) (before : P net) :
      P (calls.foldl (fun net call => net.sendFrame i call) net) := by
    induction calls generalizing net with
    | nil => exact before
    | cons call calls ih => exact ih _ (many call.2.1 call.2.2 _ net before)
  exact all _ _ start

/-! ## Reading -/

/-- `handle_msg` of a message from this connection; a node that has failed handles no more. -/
def hear (net : Network n) (j : Fin n) (source : Fin n × ℕ) (env : LinkEnv) (msg : SysMsg) :
    Network n :=
  if (net.nodes j).running then
    { net with heard := Function.update net.heard j (net.heard j ++ [(source, msg)]) }.dispatch j
      env (.message msg)
  else net

/-- The handler of a call of `replica_on_read` on a connection. -/
def handler (j : Fin n) (source : Fin n × ℕ) (envs : ℕ → LinkEnv) (count : ℕ) (net : Network n)
    (msg : SysMsg) : Network n := net.hear j source (envs count) msg

/-- Some bytes of the connection arrive, and `replica_on_read` is called. -/
def arrive (net : Network n) (i j : Fin n) (k len : ℕ) (envs : ℕ → LinkEnv) : Network n :=
  match (net.channels i j).conns[k]? with
  | none => net
  | some conn =>
    match replicaOnRead (handleFrame (fun count => (envs count).behind) (handler j (i, k) envs))
        (0, net) (conn.input ++ conn.inFlight.take len) with
    | none => net.fail j .noProgress
    -- handlers write to channels from `j`, and this one is read by `j`
    | some ((_, net), rest) => net.setChannel i j { net.channels i j with
        conns := (net.channels i j).conns.modify k fun conn =>
          { conn with inFlight := conn.inFlight.drop len, input := rest } }

section Arrive

variable {P : Network n → Prop} {net : Network n} {j : Fin n} {source : Fin n × ℕ}

/-- What each message that is handled preserves, whatever the frames hold. -/
theorem handleFrames_invariant (hears : ∀ net env msg, P net → P (net.hear j source env msg))
    (start : P net) (count : ℕ) (envs : ℕ → LinkEnv) (frames : List (List UInt8)) :
    P (frames.foldl (handleFrame (fun count => (envs count).behind) (handler j source envs))
      (count, net)).2 := by
  induction frames generalizing net count with
  | nil => exact start
  | cons frame frames ih =>
    rw [List.foldl_cons, handleFrame]
    refine ih ?_ (count + 1)
    split
    next msg read => exact hears net (envs count) msg start
    next unread => exact start

theorem arrive_invariant (i : Fin n) (k len : ℕ) (envs : ℕ → LinkEnv)
    (hears : ∀ net env msg, P net → P (net.hear j (i, k) env msg))
    (fails : ∀ net, P net → P (net.fail j .noProgress))
    (reads : ∀ net (f : Conn → Conn), P net → (∀ conn, (f conn).status = conn.status) →
      P (net.setChannel i j ⟨(net.channels i j).peer, (net.channels i j).conns.modify k f⟩))
    (start : P net) : P (net.arrive i j k len envs) := by
  simp only [arrive, replicaOnRead, readLoop_eq]
  split
  next absent => exact start
  next conn found =>
    split
    next endless => exact fails net start
    next net' rest called =>
      obtain ⟨⟨frames, left⟩, -, taken⟩ := Option.map_eq_some_iff.mp called
      have handled := handleFrames_invariant hears start 0 envs frames
      rw [(Prod.mk.inj taken).1] at handled
      exact reads net' _ handled fun _ => rfl

end Arrive

/-! ## The machine -/

/-- Nodes that have read their configuration and called `connect_peers`. -/
def start (nodes : Cluster n) : Network n where
  nodes := nodes
  channels i j := .start (decide (i = j))
  heard _ := []
  history := []

def act (net : Network n) : NetworkEvent n → Network n
  | .node i env event => net.dispatch i env event
  | .arrive i j k len envs => net.arrive i j k len envs
  | .bev i j k event => net.setChannel i j ((net.channels i j).peerNodeOnEvent k event)
  | .timeout i j => net.setChannel i j (net.channels i j).peerNodeOnTimeout

def Enabled (net : Network n) : NetworkEvent n → Prop
  | .node i env event => Node.machine.enabled (net.nodes i) (env.toNodeEnv, event) ∧ event.Local
  | .arrive i j k len _ => (net.nodes j).comp.fault = none ∧
      ∃ conn ∈ (net.channels i j).conns[k]?, 0 < len ∧ len ≤ conn.inFlight.length
  | .bev i j k event => (net.nodes i).comp.fault = none ∧ (net.channels i j).Raises k event
  | .timeout i j => (net.nodes i).comp.fault = none ∧
      (net.channels i j).peer.reconnect = .pending

instance (net : Network n) : ∀ e, Decidable (Enabled net e)
  | .node i env event => inferInstanceAs (Decidable
      (Node.machine.enabled (net.nodes i) (env.toNodeEnv, event) ∧ event.Local))
  | .arrive i j k len _ => inferInstanceAs (Decidable ((net.nodes j).comp.fault = none ∧
      ∃ conn ∈ (net.channels i j).conns[k]?, 0 < len ∧ len ≤ conn.inFlight.length))
  | .bev i j k event => inferInstanceAs (Decidable
      ((net.nodes i).comp.fault = none ∧ (net.channels i j).Raises k event))
  | .timeout i j => inferInstanceAs (Decidable
      ((net.nodes i).comp.fault = none ∧ (net.channels i j).peer.reconnect = .pending))

/-- The network from the given states of the nodes on; nothing is known of when bytes arrive, or
whether they do, and of when connections are made and lost. -/
def machine (initial : Cluster n → Prop) : Machine (Network n) (NetworkEvent n) where
  initial net := ∃ nodes, initial nodes ∧ net = start nodes
  enabled := Enabled
  apply := act

instance (initial : Cluster n → Prop) (net : Network n) (e : NetworkEvent n) :
    Decidable ((machine initial).enabled net e) := inferInstanceAs (Decidable (Enabled net e))

end Network

end LibeventPaxos
