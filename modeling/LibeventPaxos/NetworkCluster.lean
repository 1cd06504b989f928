import LibeventPaxos.NetworkRuns
import LibeventPaxos.ClusterGroup

/-!
The network of byte streams implements the network of a cluster: whatever arrives at a node was sent
to it. It is stronger than that, since no message arrives twice.
-/
namespace LibeventPaxos

open Lib

namespace Network

variable {n : ℕ} {net : Network n} {initial : Cluster n → Prop} {g₀ : Cluster n}

/-- The cluster accepts what the nodes have done, reading every record as it was sent, and gets to
the same nodes. -/
structure Replays (initial : Cluster n → Prop) (g₀ : Cluster n) (net : Network n) : Prop where
  accepted : (Cluster.machine initial).Accepts Cluster.intact g₀ net.history
  nodes : net.nodes = net.history.foldl Cluster.act g₀

theorem Replays.start (g₀ : Cluster n) : Replays initial g₀ (start g₀) := ⟨trivial, rfl⟩

theorem Replays.setChannel (replays : Replays initial g₀ net) (i j : Fin n) (channel : Channel) :
    Replays initial g₀ (net.setChannel i j channel) := ⟨replays.accepted, replays.nodes⟩

theorem Replays.dispatch (replays : Replays initial g₀ net) {i : Fin n} {env : LinkEnv}
    {event : NodeEvent} (sound : ∀ b, (net.channels i b).Sound (decide (i = b)))
    (enabled : Node.machine.enabled (net.nodes i) (env.toNodeEnv, event))
    (sent : Cluster.Sent net.nodes i event ∧ Cluster.Intact net.nodes i event) :
    Replays initial g₀ (net.dispatch i env event) := by
  have sends := sends_dispatch sound env event
  constructor
  · rw [sends.history]
    have there : net.history.foldl (Cluster.machine initial).apply g₀ = net.nodes :=
      replays.nodes.symm
    refine replays.accepted.snoc ?_ ?_
    · rw [there]
      exact sent.2
    · rw [there]
      exact ⟨enabled, sent.1⟩
  · rw [sends.nodes, sends.history, List.foldl_append, ← replays.nodes]
    rfl

/-! ## A call of `replica_on_read` -/

/-- Within a call on connection `k` from `i` to `j`, after these messages have been handled. -/
structure Reading (initial : Cluster n → Prop) (g₀ : Cluster n) (i j : Fin n) (k : ℕ) (conn : Conn)
    (taken : List SysMsg) (net : Network n) : Prop where
  inv : Inv (fun a b m => a = i ∧ b = j ∧ m = k) net
  replays : Replays initial g₀ net
  found : (net.channels i j).conns[k]? = some conn
  taken : (net.nodes j).comp.fault = none → net.heardOn j (i, k) = taken

section Reading

variable {i j : Fin n} {k : ℕ} {conn : Conn} {taken : List SysMsg}

/-- A node has no connection to itself. -/
theorem Reading.other (reading : Reading initial g₀ i j k conn taken net) : i ≠ j := by
  intro own
  have sound := reading.inv.sound i j
  rw [decide_eq_true own] at sound
  have none : (net.channels i j).conns = [] := by rw [sound]; rfl
  have found := reading.found
  rw [none] at found
  cases found

theorem Reading.written (reading : Reading initial g₀ i j k conn taken net) {msg : SysMsg}
    (member : msg ∈ conn.written) : msg ∈ (net.channels i j).written :=
  List.mem_flatMap.mpr ⟨conn, List.mem_of_getElem? reading.found, member⟩

theorem heardOn_append (heard : Fin n → List ((Fin n × ℕ) × SysMsg)) (j b : Fin n)
    (source other : Fin n × ℕ) (msg : SysMsg) :
    heardOn { net with heard := Function.update heard j (heard j ++ [(source, msg)]) } b other =
      heardOn { net with heard := heard } b other ++
        if b = j ∧ other = source then [msg] else [] := by
  by_cases same : b = j
  · subst same
    by_cases here : source = other
    · subst here
      simp [heardOn]
    · simp [heardOn, here, Ne.symm here]
  · simp [heardOn, same]

/-- One message of the connection, which is a step of the cluster. -/
theorem Reading.hear (reading : Reading initial g₀ i j k conn taken net) {msg : SysMsg}
    (next : taken ++ [msg] <+: conn.written) (env : LinkEnv) :
    Reading initial g₀ i j k conn (taken ++ [msg]) (net.hear j (i, k) env msg) := by
  have other := reading.other
  by_cases running : (net.nodes j).comp.fault = none
  · have heard : net.heardOn j (i, k) = taken := reading.taken running
    let noted : Network n :=
      { net with heard := Function.update net.heard j (net.heard j ++ [((i, k), msg)]) }
    have hears : net.hear j (i, k) env msg = noted.dispatch j env (.message msg) := by
      rw [Network.hear, if_pos (by rw [Node.running, running]; rfl)]
    have log (b : Fin n) (source : Fin n × ℕ) : noted.heardOn b source =
        net.heardOn b source ++ if b = j ∧ source = (i, k) then [msg] else [] :=
      heardOn_append net.heard j b (i, k) source msg
    have here : noted.heardOn j (i, k) = taken ++ [msg] := by
      rw [log, heard, if_pos ⟨rfl, rfl⟩]
    have inv : Inv (fun a b m => a = i ∧ b = j ∧ m = k) noted := by
      refine ⟨reading.inv.sound, reading.inv.elective, reading.inv.said, ?_, ?_⟩
      · intro a b m
        by_cases same : b = j ∧ (a, m) = (i, k)
        · obtain ⟨rfl, source⟩ := same
          obtain ⟨rfl, rfl⟩ := Prod.mk.inj source
          exact .inr ⟨conn, reading.found, by rw [here]; exact next⟩
        · rw [log, if_neg same, List.append_nil]
          exact reading.inv.heard a b m
      · intro a b m idle alive
        have elsewhere : ¬ (b = j ∧ (a, m) = (i, k)) := by
          rintro ⟨rfl, source⟩
          obtain ⟨rfl, rfl⟩ := Prod.mk.inj source
          exact idle ⟨rfl, rfl, rfl⟩
        rw [log, if_neg elsewhere, List.append_nil]
        exact reading.inv.flows a b m idle alive
    have sends := sends_dispatch (inv.sound j) env (.message msg)
    have sent : Cluster.Sent net.nodes j (.message msg) ∧ Cluster.Intact net.nodes j (.message msg) :=
      (reading.inv.said i j).sent other (reading.written (next.subset (by simp)))
    have replays : Replays initial g₀ noted := ⟨reading.replays.accepted, reading.replays.nodes⟩
    rw [hears]
    refine ⟨inv.dispatch running env (.message msg),
      replays.dispatch (inv.sound j) ⟨running, trivial⟩ sent, ?_, fun _ => ?_⟩
    · rw [sends.others i j other]
      exact reading.found
    · rw [heardOn, sends.heard]
      exact here
  · -- a node that has failed handles nothing
    have failed : net.hear j (i, k) env msg = net := by
      rw [Network.hear, if_neg]
      rw [Node.running, Option.isNone_iff_eq_none]
      exact running
    rw [failed]
    exact ⟨reading.inv, reading.replays, reading.found, fun alive => absurd alive running⟩

/-- All messages of a call, one after the other. -/
theorem Reading.handle (reading : Reading initial g₀ i j k conn taken net) (read : List SysMsg)
    (front : taken ++ read <+: conn.written) (count : ℕ) (envs : ℕ → LinkEnv) :
    Reading initial g₀ i j k conn (taken ++ read)
      (handleMsgs (handler j (i, k) envs) (count, net) read).2 := by
  induction read generalizing taken net count with
  | nil =>
    rw [List.append_nil]
    exact reading
  | cons msg read ih =>
    have split : taken ++ msg :: read = taken ++ [msg] ++ read := by simp
    rw [split] at front ⊢
    exact ih (reading.hear ((List.prefix_append _ read).trans front) (envs count)) front
      (count + 1)

end Reading

/-! ## Steps -/

/-- What node `j` has not handled yet of a connection. -/
def unheard (net : Network n) (i j : Fin n) (k : ℕ) (conn : Conn) : List SysMsg :=
  conn.written.drop (net.heardOn j (i, k)).length

/-- At an arrival, the messages the reader has not handled yet fit their frames, and what lies
behind the frames makes up for the bytes they lack. -/
def Carried (net : Network n) : NetworkEvent n → Prop
  | .arrive i j k _ envs => ∀ conn ∈ (net.channels i j).conns[k]?,
      (∀ msg ∈ net.unheard i j k conn, msg.Fits) ∧
        AllWhole (fun count => (envs count).behind) 0 (net.unheard i j k conn)
  | _ => True

/-- The invariant between two steps, in a run from `g₀`. -/
structure Kept (initial : Cluster n → Prop) (g₀ : Cluster n) (net : Network n) : Prop where
  inv : Inv (fun _ _ _ => False) net
  replays : Replays initial g₀ net

/-- Bytes that arrive, of which whole frames are taken and handled. -/
theorem Kept.arrive (kept : Kept initial g₀ net) {i j : Fin n} {k : ℕ} (len : ℕ)
    (envs : ℕ → LinkEnv) (running : (net.nodes j).comp.fault = none) {conn : Conn}
    (found : (net.channels i j).conns[k]? = some conn)
    (fits : ∀ msg ∈ net.unheard i j k conn, msg.Fits)
    (whole : AllWhole (fun count => (envs count).behind) 0 (net.unheard i j k conn)) :
    Kept initial g₀ (net.arrive i j k len envs) := by
  obtain ⟨later, split, unread⟩ := kept.inv.flows i j k id running conn found
  have left : net.unheard i j k conn = later := by rw [unheard, split, List.drop_left]
  rw [left] at fits whole
  rw [← List.take_append_drop len conn.inFlight] at unread
  obtain ⟨read, later, rest, rfl, called, unread'⟩ :=
    unread.onRead (handler j (i, k) envs) (0, net) fits whole
  have reading : Reading initial g₀ i j k conn (net.heardOn j (i, k)) net :=
    ⟨{ kept.inv with flows := fun a b m _ => kept.inv.flows a b m id }, kept.replays, found,
      fun _ => rfl⟩
  have front : net.heardOn j (i, k) ++ read <+: conn.written :=
    ⟨later, by rw [split, List.append_assoc]⟩
  have done := reading.handle read front 0 envs
  have result : net.arrive i j k len envs =
      let net' := (handleMsgs (handler j (i, k) envs) (0, net) read).2
      net'.setChannel i j ⟨(net'.channels i j).peer, (net'.channels i j).conns.modify k fun conn =>
        { conn with inFlight := conn.inFlight.drop len, input := rest }⟩ := by
    simp only [Network.arrive, found, called]
  rw [result]
  generalize (handleMsgs (handler j (i, k) envs) (0, net) read).2 = net' at done
  refine ⟨done.inv.setChannel (fun _ _ _ same => ⟨same.1, same.2.1⟩) ?_ ?_ ?_ ?_,
    done.replays.setChannel i j _⟩
  · exact (done.inv.sound i j).modify k _ fun _ => rfl
  · exact Channel.written_modify (net'.channels i j) k _ fun _ => rfl
  · intro index before found'
    rw [List.getElem?_modify, found']
    exact ⟨_, rfl, by split <;> rfl⟩
  · intro alive index after found'
    simp only [List.getElem?_modify] at found'
    obtain ⟨before, there, rfl⟩ := Option.map_eq_some_iff.mp found'
    split
    next here =>
      -- the connection that was read
      subst here
      obtain rfl := Option.some.inj (there.symm.trans done.found)
      rw [done.taken alive]
      exact ⟨later, by rw [split, List.append_assoc], unread'⟩
    next elsewhere =>
      exact done.inv.flows i j index (fun busy => elsewhere busy.2.2.symm) alive before there

/-- An event that no message of another node raises has no sender. -/
theorem sent_of_local {g : Cluster n} {i : Fin n} {event : NodeEvent} (own : event.Local) :
    Cluster.Sent g i event ∧ Cluster.Intact g i event := by
  cases event with
  | message msg =>
    cases msg with
    | requestSubmit data => exact ⟨trivial, trivial⟩
    | pingReq | pingAck | consensus | leaderElection => exact own.elim
  | leaderPing | expectPing | makeProgress | electionTimeout => exact ⟨trivial, trivial⟩

theorem Kept.step (kept : Kept initial g₀ net) {e : NetworkEvent n} (carried : Carried net e)
    (enabled : Enabled net e) : Kept initial g₀ (net.act e) := by
  cases e with
  | node i env event =>
    obtain ⟨enabled, own⟩ := enabled
    exact ⟨kept.inv.dispatch enabled.1 env event,
      kept.replays.dispatch (kept.inv.sound i) enabled (sent_of_local own)⟩
  | arrive i j k len envs =>
    obtain ⟨running, conn, found, -⟩ := enabled
    obtain ⟨fits, whole⟩ := carried conn found
    exact kept.arrive len envs running found fits whole
  | bev i j k event =>
    exact ⟨kept.inv.bev enabled.2, kept.replays.setChannel i j _⟩
  | timeout i j =>
    exact ⟨kept.inv.timeout enabled.2, kept.replays.setChannel i j _⟩

theorem kept_of_run (elective : ∀ i, (g₀ i).Elective)
    (run : (machine initial).Run Carried (start g₀) net) : Kept initial g₀ net :=
  run.invariant (I := Kept initial g₀) (fun _ _ kept carried enabled => kept.step carried enabled)
    ⟨.start elective, .start g₀⟩

theorem elective_of_booted (booted : Cluster.Booted g₀) (i : Fin n) : (g₀ i).Elective := by
  obtain ⟨seed, expectPingTimeval, now, env, same⟩ := booted i
  rw [same]
  exact ⟨fun call member => (by cases member), fun msg kept => (by cases kept)⟩

/-! ## Order -/

/-- What node `j` has handled of node `i`, connection after connection. -/
def heardFrom (net : Network n) (i j : Fin n) : List SysMsg :=
  (List.range (net.channels i j).conns.length).flatMap fun k => net.heardOn j (i, k)

/-- What a node has handled of another: of a connection the front of what was written to it, and all
of that once all has arrived; in all, what the other has sent to it, each message once at most. -/
structure InOrder (net : Network n) (i j : Fin n) : Prop where
  front : ∀ k : ℕ, ∀ conn ∈ (net.channels i j).conns[k]?, net.heardOn j (i, k) <+: conn.written
  whole : (net.nodes j).comp.fault = none → ∀ k : ℕ, ∀ conn ∈ (net.channels i j).conns[k]?,
    conn.inFlight = [] → net.heardOn j (i, k) = conn.written
  known : ∀ k : ℕ, (net.channels i j).conns[k]? = none → net.heardOn j (i, k) = []
  once : Said (net.nodes i) i j (net.heardFrom i j)

theorem Said.sublist {node : Node} {i j : Fin n} {written part : List SysMsg}
    (said : Said node i j written) (sub : part.Sublist written) : Said node i j part :=
  ⟨(sub.filterMap _).trans said.consensus, (sub.filter _).trans said.elective⟩

/-- Of a connection from which everything has arrived everything is taken. -/
theorem whole_of_flows {conn : Conn} {taken : List SysMsg} (flows : conn.Flows taken)
    (arrived : conn.inFlight = []) : taken = conn.written := by
  obtain ⟨later, split, unread⟩ := flows
  rw [arrived] at unread
  rw [split, unread.done.1, List.append_nil]

theorem sublist_flatMap {conns : List Conn} {part : ℕ → List SysMsg}
    (parts : ∀ k : ℕ, ∀ conn ∈ conns[k]?, (part k).Sublist conn.written) :
    ((List.range conns.length).flatMap part).Sublist (conns.flatMap Conn.written) := by
  induction conns using List.reverseRecOn with
  | nil => exact .refl _
  | append_singleton older newest ih =>
    have last := parts older.length newest (Channel.getElem?_newest older newest)
    have before := ih fun k conn found => parts k conn (by
      rw [List.getElem?_append_left (List.getElem?_eq_some_iff.mp found).1, found]; rfl)
    rw [List.length_append, List.length_singleton, List.range_succ, List.flatMap_append,
      List.flatMap_append, List.flatMap_singleton, List.flatMap_singleton]
    exact before.append last

theorem Inv.inOrder (inv : Inv (fun _ _ _ => False) net) (i j : Fin n) : InOrder net i j := by
  have front : ∀ k : ℕ, ∀ conn ∈ (net.channels i j).conns[k]?,
      net.heardOn j (i, k) <+: conn.written := by
    intro k conn found
    rcases inv.heard i j k with nothing | ⟨conn', found', part⟩
    · rw [nothing]
      exact List.nil_prefix
    · obtain rfl := Option.some.inj (found.symm.trans found')
      exact part
  refine ⟨front, fun running k conn found arrived => ?_, fun k absent => ?_,
    (inv.said i j).sublist (sublist_flatMap fun k conn found => (front k conn found).sublist)⟩
  · exact whole_of_flows (inv.flows i j k id running conn found) arrived
  · rcases inv.heard i j k with nothing | ⟨conn, found, -⟩
    · exact nothing
    · rw [absent] at found
      cases found

/-! ## A run on a small network -/

/-- A message whose bytes are all there is of it. -/
def Plain : SysMsg → Prop
  | .consensus (.missingAck _ _ _) => False
  | _ => True

instance : ∀ msg, Decidable (Plain msg)
  | .consensus (.missingAck _ _ _) => .isFalse id
  | .consensus (.acceptReq _ _ _ _) => .isTrue trivial
  | .consensus (.acceptAck _ _) => .isTrue trivial
  | .consensus (.missingReq _ _) => .isTrue trivial
  | .consensus (.forceExec _ _) => .isTrue trivial
  | .consensus (.forwardReq _ _) => .isTrue trivial
  | .pingReq _ _ _ => .isTrue trivial
  | .pingAck _ _ _ => .isTrue trivial
  | .requestSubmit _ => .isTrue trivial
  | .leaderElection _ _ => .isTrue trivial

theorem whole_of_plain {msg : SysMsg} (plain : Plain msg) (behind : Memory) : msg.Whole behind := by
  cases msg with
  | consensus msg =>
    cases msg with
    | missingAck => exact plain.elim
    | acceptReq | acceptAck | missingReq | forceExec | forwardReq => trivial
  | pingReq | pingAck | requestSubmit | leaderElection => trivial

/-- Only such messages have been written where bytes arrive, and they fit their frames. -/
def CarriesPlain (net : Network n) : NetworkEvent n → Prop
  | .arrive i j k _ _ => ∀ conn ∈ (net.channels i j).conns[k]?, ∀ msg ∈ net.unheard i j k conn,
      Plain msg ∧ msg.Fits
  | _ => True

instance (net : Network n) : ∀ e, Decidable (CarriesPlain net e)
  | .arrive i j k _ _ => inferInstanceAs (Decidable (∀ conn ∈ (net.channels i j).conns[k]?,
      ∀ msg ∈ net.unheard i j k conn, Plain msg ∧ msg.Fits))
  | .node _ _ _ => .isTrue trivial
  | .bev _ _ _ _ => .isTrue trivial
  | .timeout _ _ => .isTrue trivial

theorem CarriesPlain.carried {e : NetworkEvent n} (carries : CarriesPlain net e) :
    Carried net e := by
  cases e with
  | arrive i j k len envs =>
    intro conn found
    refine ⟨fun msg member => (carries conn found msg member).2, fun index msg there => ?_⟩
    exact whole_of_plain (carries conn found msg (List.mem_of_getElem? there)).1 _
  | node | bev | timeout => trivial

def lateLink : LinkEnv :=
  { Node.lateEnv with padding := fun _ _ => 7, behind := Memory.zero }

/-- Node 1 connects to node 2 and node 2 to node 1; node 2 pings, and delivers a request with the
acknowledgement of node 1. The ping arrives in two parts. -/
def overStreams : List (NetworkEvent 3) :=
  [.bev 2 1 0 .connected, .bev 1 2 0 .connected, .node 2 lateLink .leaderPing,
    .arrive 2 1 0 30 fun _ => lateLink, .arrive 2 1 0 34 fun _ => lateLink,
    .node 2 lateLink (.message (.requestSubmit [6])), .arrive 2 1 0 86 fun _ => lateLink,
    .arrive 1 2 0 40 fun _ => lateLink]

/-- Where that gets to. -/
def afterStreams : Network 3 := overStreams.foldl act (start Cluster.ledByLast)

theorem overStreams_run : (machine Cluster.Booted).Run Carried (start Cluster.ledByLast)
    afterStreams := by
  have accepted : (machine Cluster.Booted).Accepts CarriesPlain (start Cluster.ledByLast)
      overStreams := by decide +kernel
  exact accepted.run.mono fun _ _ carries => carries.carried

/-! ## Runs of a network -/

/-- What the nodes do over byte streams is what the nodes of a cluster can do. -/
theorem network_refines_cluster (n : ℕ) (g₀ : Cluster n) (booted : Cluster.Booted g₀)
    (net : Network n) (run : (machine Cluster.Booted).Run Carried (start g₀) net) :
    Replays Cluster.Booted g₀ net :=
  (kept_of_run (elective_of_booted booted) run).replays

theorem overStreams_refines :
    Replays Cluster.Booted Cluster.ledByLast afterStreams ∧ afterStreams.history.length = 5 :=
  ⟨network_refines_cluster 3 Cluster.ledByLast Cluster.ledByLast_booted afterStreams
    overStreams_run, by decide +kernel⟩

/-- Messages are handled in the order in which they were written, and none of them twice. -/
theorem messages_in_order (n : ℕ) (g₀ : Cluster n) (booted : Cluster.Booted g₀)
    (net : Network n) (run : (machine Cluster.Booted).Run Carried (start g₀) net) (i j : Fin n) :
    InOrder net i j :=
  (kept_of_run (elective_of_booted booted) run).inv.inOrder i j

theorem overStreams_in_order :
    InOrder afterStreams 2 1 ∧ (afterStreams.heardFrom 2 1).length = 2 :=
  ⟨messages_in_order 3 Cluster.ledByLast Cluster.ledByLast_booted afterStreams overStreams_run 2 1,
    by decide +kernel⟩

end Network

end LibeventPaxos
