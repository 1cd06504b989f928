import LibeventPaxos.Network

/-!
The invariant of the network. Writes only go to live connections; what has been written to a peer is
part of what the node has sent to it, in that order and each message once at most; and what a node
has handled of a connection is the front of what was written to it, in that order.
-/
namespace LibeventPaxos

open Lib

namespace Network

variable {n : ℕ} {net net' net'' : Network n}

/-! ## Writing -/

/-- The messages of some calls that go from one node to another. -/
def sentTo {α : Type} (i j : Fin n) (calls : List (Int × α)) : List α :=
  (calls.filter fun call => decide (j ∈ targets i call.1)).map Prod.snd

theorem sentTo_append {α : Type} (i j : Fin n) (first second : List (Int × α)) :
    sentTo i j (first ++ second) = sentTo i j first ++ sentTo i j second := by
  rw [sentTo, List.filter_append, List.map_append]
  rfl

theorem mem_sentTo {α : Type} {i j : Fin n} {calls : List (Int × α)} {msg : α} :
    msg ∈ sentTo i j calls ↔ ∃ call ∈ calls, j ∈ targets i call.1 ∧ call.2 = msg := by
  simp only [sentTo, List.mem_map, List.mem_filter, decide_eq_true_eq, and_assoc]

/-- What node `i` does to the network by sending these messages to each other node. -/
structure Sends (i : Fin n) (msgs : Fin n → List SysMsg) (net net' : Network n) : Prop where
  nodes : net'.nodes = net.nodes
  heard : net'.heard = net.heard
  history : net'.history = net.history
  others : ∀ a b, a ≠ i → net'.channels a b = net.channels a b
  sound : ∀ b, (net'.channels i b).Sound (decide (i = b))
  grows : ∀ b, (net.channels i b).Grows (msgs b) (net'.channels i b)

section Sends

variable {i : Fin n}

theorem Sends.refl (sound : ∀ b, (net.channels i b).Sound (decide (i = b))) :
    Sends i (fun _ => []) net net :=
  ⟨rfl, rfl, rfl, fun _ _ _ => rfl, sound, fun _ => .refl _⟩

theorem Sends.trans {first second : Fin n → List SysMsg} (early : Sends i first net net')
    (late : Sends i second net' net'') : Sends i (fun b => first b ++ second b) net net'' where
  nodes := late.nodes.trans early.nodes
  heard := late.heard.trans early.heard
  history := late.history.trans early.history
  others a b other := (late.others a b other).trans (early.others a b other)
  sound := late.sound
  grows b := (early.grows b).trans (late.grows b)

theorem sends_sendTo (sound : ∀ b, (net.channels i b).Sound (decide (i = b))) {msg : SysMsg}
    {frame : List UInt8} (encodes : Encodes msg frame) (j : Fin n) :
    Sends i (fun b => if b = j then [msg] else []) net (net.sendTo i msg frame j) := by
  obtain ⟨channel, sent, sound', grows⟩ := (sound j).send encodes
  have written : net.sendTo i msg frame j = net.setChannel i j channel := by
    rw [sendTo, sent]
  rw [written]
  refine ⟨rfl, rfl, rfl, fun a b other => ?_, fun b => ?_, fun b => ?_⟩
  · exact channels_setChannel_other net i j channel (.inl other)
  · by_cases same : b = j
    · rw [same, channels_setChannel_self]
      exact sound'
    · rw [channels_setChannel_other net i j channel (.inr same)]
      exact sound b
  · by_cases same : b = j
    · rw [if_pos same, same, channels_setChannel_self]
      exact grows
    · rw [if_neg same, channels_setChannel_other net i j channel (.inr same)]
      exact .refl _

/-- A message to several peers is written to each of them once. -/
theorem sends_targets (sound : ∀ b, (net.channels i b).Sound (decide (i = b))) {msg : SysMsg}
    {frame : List UInt8} (encodes : Encodes msg frame) (js : List (Fin n)) (nodup : js.Nodup) :
    Sends i (fun b => if b ∈ js then [msg] else []) net
      (js.foldl (fun net j => net.sendTo i msg frame j) net) := by
  induction js generalizing net with
  | nil => exact .refl sound
  | cons j js ih =>
    obtain ⟨fresh, nodup'⟩ := List.nodup_cons.mp nodup
    have first := sends_sendTo sound encodes j
    have both := first.trans (ih first.sound nodup')
    have split : (fun b => (if b = j then [msg] else []) ++ if b ∈ js then [msg] else []) =
        fun b => if b ∈ j :: js then [msg] else [] := by
      funext b
      by_cases same : b = j
      · subst same
        simp [fresh]
      · simp [same]
    rw [split] at both
    exact both

theorem nodup_targets (i : Fin n) (address : Int) : (targets i address).Nodup :=
  (List.nodup_finRange n).filter _

/-- The calls of one event are written to the peers they go to, in their order. -/
theorem sends_frames (sound : ∀ b, (net.channels i b).Sound (decide (i = b)))
    (frames : List (Int × SysMsg × List UInt8))
    (encoded : ∀ call ∈ frames, Encodes call.2.1 call.2.2) :
    Sends i (fun b => sentTo i b (frames.map fun call => (call.1, call.2.1))) net
      (frames.foldl (fun net call => net.sendFrame i call) net) := by
  induction frames generalizing net with
  | nil => exact .refl sound
  | cons call frames ih =>
    have first := sends_targets sound (encoded call List.mem_cons_self) (targets i call.1)
      (nodup_targets i call.1)
    have both := first.trans (ih first.sound fun other member =>
      encoded other (List.mem_cons_of_mem _ member))
    have split : (fun b => (if b ∈ targets i call.1 then [call.2.1] else []) ++
        sentTo i b (frames.map fun call => (call.1, call.2.1))) =
        fun b => sentTo i b ((call :: frames).map fun call => (call.1, call.2.1)) := by
      funext b
      by_cases goes : b ∈ targets i call.1
      · simp [sentTo, goes]
      · simp [sentTo, goes]
    rw [split] at both
    exact both

/-- A dispatch is a step of the cluster, and it writes what the node has sent. -/
theorem sends_dispatch (sound : ∀ b, (net.channels i b).Sound (decide (i = b))) (env : LinkEnv)
    (event : NodeEvent) :
    Sends i (fun b => sentTo i b ((net.nodes i).callsSince
        ((net.nodes i).dispatch (env.toNodeEnv, event))))
      { net with
        nodes := Cluster.act net.nodes (i, env.toNodeEnv, event)
        history := net.history ++ [(i, env.toNodeEnv, event)] }
      (net.dispatch i env event) := by
  have calls (padding : ℕ → ℕ → UInt32) (calls : List (Int × SysMsg)) :
      (framed padding calls).map (fun call => (call.1, call.2.1)) = calls := by
    apply List.ext_getElem
    · rw [framed, List.length_map, List.length_mapIdx]
    · intro index _ _
      simp only [framed, List.getElem_map, List.getElem_mapIdx]
  have encoded (padding : ℕ → ℕ → UInt32) (calls : List (Int × SysMsg)) :
      ∀ call ∈ framed padding calls, Encodes call.2.1 call.2.2 := by
    intro call member
    obtain ⟨index, inside, rfl⟩ := List.mem_mapIdx.mp member
    exact ⟨padding index, rfl⟩
  let acted : Network n := { net with
    nodes := Cluster.act net.nodes (i, env.toNodeEnv, event)
    history := net.history ++ [(i, env.toNodeEnv, event)] }
  have sound' : ∀ b, (acted.channels i b).Sound (decide (i = b)) := sound
  have sends := sends_frames sound' _
    (encoded env.padding ((net.nodes i).callsSince
      ((net.nodes i).dispatch (env.toNodeEnv, event))))
  rw [calls] at sends
  exact sends

end Sends

/-! ## What has been written -/

/-- What node `i` has written to node `j`: of the messages of its component that go there, and of
its own, each once at most and in their order. -/
structure Said (node : Node) (i j : Fin n) (written : List SysMsg) : Prop where
  consensus : (written.filterMap SysMsg.asConsensus).Sublist (sentTo i j node.comp.upCalls)
  elective : (written.filter fun msg => msg.asConsensus.isNone).Sublist (sentTo i j node.sent)

section Said

variable {i j : Fin n} {node : Node} {written : List SysMsg}

theorem sentTo_consensus (calls : List (Int × ConsensusMsg)) :
    sentTo i j (calls.map fun call => (call.1, SysMsg.consensus call.2)) =
      (sentTo i j calls).map .consensus := by
  simp only [sentTo, List.filter_map, List.map_map]
  rfl

/-- What an event adds to the logs is what is written to an active peer. -/
theorem Said.dispatch (said : Said node i j written) (elective : node.Elective)
    (running : node.comp.fault = none) (e : NodeEnv × NodeEvent) (active : Bool) :
    Said (node.dispatch e) i j
      (written ++ if active then sentTo i j (node.callsSince (node.dispatch e)) else []) := by
  obtain ⟨calls, upCalls⟩ := node.upCalls_grow e running
  obtain ⟨fresh, sent⟩ := node.sent_grows e
  have isElective : ∀ msg ∈ sentTo i j fresh, msg.asConsensus = none := by
    intro msg member
    obtain ⟨call, added, -, rfl⟩ := mem_sentTo.mp member
    refine ((elective.dispatch e).sent call ?_).asConsensus
    rw [← sent]
    exact List.mem_append_right _ added
  have since : node.callsSince (node.dispatch e) =
      calls.map (fun call => (call.1, SysMsg.consensus call.2)) ++ fresh := by
    rw [Node.callsSince, ← upCalls, ← sent, List.drop_left, List.drop_left]
  have ofCalls : (sentTo i j (node.callsSince (node.dispatch e))).filterMap SysMsg.asConsensus =
      sentTo i j calls := by
    have none : (sentTo i j fresh).filterMap SysMsg.asConsensus = [] :=
      List.filterMap_eq_nil_iff.mpr isElective
    rw [since, sentTo_append, sentTo_consensus, List.filterMap_append, none, List.append_nil,
      List.filterMap_map]
    exact List.filterMap_some
  have ofFresh : (sentTo i j (node.callsSince (node.dispatch e))).filter
      (fun msg => msg.asConsensus.isNone) = sentTo i j fresh := by
    have all : (sentTo i j fresh).filter (fun msg => msg.asConsensus.isNone) = sentTo i j fresh :=
      List.filter_eq_self.mpr fun msg member => by rw [isElective msg member]; rfl
    have nothing : ((sentTo i j calls).map SysMsg.consensus).filter
        (fun msg => msg.asConsensus.isNone) = [] := by
      rw [List.filter_eq_nil_iff]
      intro msg member
      obtain ⟨_, _, rfl⟩ := List.mem_map.mp member
      simp [SysMsg.asConsensus]
    rw [since, sentTo_append, sentTo_consensus, List.filter_append, nothing, all, List.nil_append]
  constructor
  · rw [List.filterMap_append, ← upCalls, sentTo_append]
    refine said.consensus.append ?_
    split
    next => rw [ofCalls]
    next => exact List.nil_sublist _
  · rw [List.filter_append, ← sent, sentTo_append]
    refine said.elective.append ?_
    split
    next => rw [ofFresh]
    next => exact List.nil_sublist _

/-- Every message that has been written has been sent as it is. -/
theorem Said.sent {g : Cluster n} (said : Said (g i) i j written) (other : i ≠ j) {msg : SysMsg}
    (member : msg ∈ written) :
    Cluster.Sent g j (.message msg) ∧ Cluster.Intact g j (.message msg) := by
  have reaches {address : Int} (goes : j ∈ targets i address) : Cluster.Reaches i j address := by
    obtain ⟨-, goes⟩ := List.mem_filter.mp goes
    refine ⟨other, ?_⟩
    by_cases all : address < 0
    · exact .inl all
    · rw [if_neg all] at goes
      exact .inr (of_decide_eq_true goes)
  have own (plain : msg.asConsensus = none) :
      ∃ source, ∃ call ∈ (g source).sent, Cluster.Reaches source j call.1 ∧ call.2 = msg := by
    have kept : msg ∈ written.filter fun msg => msg.asConsensus.isNone :=
      List.mem_filter.mpr ⟨member, by rw [plain]; rfl⟩
    obtain ⟨call, sent, goes, same⟩ := mem_sentTo.mp (said.elective.subset kept)
    exact ⟨i, call, sent, reaches goes, same⟩
  cases msg with
  | consensus msg =>
    have kept : msg ∈ written.filterMap SysMsg.asConsensus :=
      List.mem_filterMap.mpr ⟨.consensus msg, member, rfl⟩
    obtain ⟨call, sent, goes, same⟩ := mem_sentTo.mp (said.consensus.subset kept)
    refine ⟨⟨i, call, sent, reaches goes, same ▸ .whole call.2⟩, ?_⟩
    cases msg with
    | missingAck => exact ⟨i, call, sent, reaches goes, same⟩
    | acceptReq | acceptAck | missingReq | forceExec | forwardReq => trivial
  | requestSubmit data => exact ⟨trivial, trivial⟩
  | pingReq nodeId view timestamp => exact ⟨own rfl, trivial⟩
  | pingAck nodeId view timestamp => exact ⟨own rfl, trivial⟩
  | leaderElection msg data => exact ⟨own rfl, trivial⟩

end Said

/-! ## The invariant -/

/-- The messages node `j` has handled of a connection. -/
def heardOn (net : Network n) (j : Fin n) (source : Fin n × ℕ) : List SysMsg :=
  ((net.heard j).filter fun entry => decide (entry.1 = source)).map Prod.snd

/-- The invariant, but for what is left in the inputs of connections that are being read. -/
structure Inv (reading : Fin n → Fin n → ℕ → Prop) (net : Network n) : Prop where
  sound : ∀ i j, (net.channels i j).Sound (decide (i = j))
  elective : ∀ i, (net.nodes i).Elective
  said : ∀ i j, Said (net.nodes i) i j (net.channels i j).written
  heard : ∀ i j k, net.heardOn j (i, k) = [] ∨
    ∃ conn ∈ (net.channels i j).conns[k]?, net.heardOn j (i, k) <+: conn.written
  flows : ∀ i j k, ¬ reading i j k → (net.nodes j).comp.fault = none →
    ∀ conn ∈ (net.channels i j).conns[k]?, conn.Flows (net.heardOn j (i, k))

section Inv

variable {reading : Fin n → Fin n → ℕ → Prop}

/-- Connections that are extended keep what is known of them. -/
theorem Inv.extend (inv : Inv reading net) (heard : net'.heard = net.heard)
    (running : ∀ j, (net'.nodes j).comp.fault = none → (net.nodes j).comp.fault = none)
    (extends' : ∀ i j, List.Forall₂ Conn.Extends (net.channels i j).conns
      (net'.channels i j).conns) (sound : ∀ i j, (net'.channels i j).Sound (decide (i = j)))
    (elective : ∀ i, (net'.nodes i).Elective)
    (said : ∀ i j, Said (net'.nodes i) i j (net'.channels i j).written) : Inv reading net' where
  sound := sound
  elective := elective
  said := said
  heard i j k := by
    have same : net'.heardOn j (i, k) = net.heardOn j (i, k) := by rw [heardOn, heard, heardOn]
    rw [same]
    rcases inv.heard i j k with nothing | ⟨conn, found, part⟩
    · exact .inl nothing
    · rcases Conn.Extends.at_index (extends' i j) k with
        ⟨absent, -⟩ | ⟨before, after, found', there, longer⟩
      · rw [Option.mem_def, absent] at found
        cases found
      · obtain rfl := Option.some.inj (found'.symm.trans found)
        exact .inr ⟨after, there, part.trans longer.written⟩
  flows i j k idle alive conn found := by
    have same : net'.heardOn j (i, k) = net.heardOn j (i, k) := by rw [heardOn, heard, heardOn]
    rw [same]
    rcases Conn.Extends.at_index (extends' i j) k with
      ⟨-, absent⟩ | ⟨before, after, found', there, longer⟩
    · rw [Option.mem_def, absent] at found
      cases found
    · obtain rfl := Option.some.inj (there.symm.trans found)
      exact longer.flows _ (inv.flows i j k idle (running j alive) before found')

/-- An event at a node. -/
theorem Inv.dispatch (inv : Inv reading net) {i : Fin n}
    (running : (net.nodes i).comp.fault = none) (env : LinkEnv) (event : NodeEvent) :
    Inv reading (net.dispatch i env event) := by
  have sends := sends_dispatch (inv.sound i) env event
  have acts : (net.dispatch i env event).nodes =
      Cluster.act net.nodes (i, env.toNodeEnv, event) := sends.nodes
  have self : (net.dispatch i env event).nodes i =
      (net.nodes i).dispatch (env.toNodeEnv, event) := by rw [acts, Cluster.act_self]
  have other (a : Fin n) (ne : a ≠ i) : (net.dispatch i env event).nodes a = net.nodes a := by
    rw [acts, Cluster.act_other _ _ a ne]
  have grows := sends.grows
  refine inv.extend sends.heard ?_ ?_ ?_ ?_ ?_
  · intro j alive
    by_cases same : j = i
    · rw [same]
      exact running
    · rwa [other j same] at alive
  · intro a b
    by_cases same : a = i
    · rw [same]
      exact (grows b).conns
    · rw [sends.others a b same]
      exact (Channel.Grows.refl _).conns
  · intro a b
    by_cases same : a = i
    · rw [same]
      exact sends.sound b
    · rw [sends.others a b same]
      exact inv.sound a b
  · intro a
    by_cases same : a = i
    · rw [same, self]
      exact (inv.elective i).dispatch _
    · rw [other a same]
      exact inv.elective a
  · intro a b
    by_cases same : a = i
    · rw [same, self, (grows b).written]
      exact (inv.said i b).dispatch (inv.elective i) running _ _
    · rw [other a same, sends.others a b same]
      exact inv.said a b

/-- A channel changes, and whatever was being read of it has been read. -/
theorem Inv.setChannel (inv : Inv reading net) {i j : Fin n} {channel : Channel}
    (only : ∀ a b k, reading a b k → a = i ∧ b = j)
    (sound : channel.Sound (decide (i = j)))
    (written : channel.written = (net.channels i j).written)
    (kept : ∀ k : ℕ, ∀ conn ∈ (net.channels i j).conns[k]?,
      ∃ conn' ∈ channel.conns[k]?, conn'.written = conn.written)
    (flows : (net.nodes j).comp.fault = none → ∀ k : ℕ, ∀ conn ∈ channel.conns[k]?,
      conn.Flows (net.heardOn j (i, k))) : Inv (fun _ _ _ => False) (net.setChannel i j channel) := by
  -- the channel that changes, or another one
  have cases' (a b : Fin n) : (a = i ∧ b = j ∧ (net.setChannel i j channel).channels a b = channel) ∨
      ((a ≠ i ∨ b ≠ j) ∧ (net.setChannel i j channel).channels a b = net.channels a b) := by
    by_cases same : a = i ∧ b = j
    · obtain ⟨rfl, rfl⟩ := same
      exact .inl ⟨rfl, rfl, channels_setChannel_self ..⟩
    · have other : a ≠ i ∨ b ≠ j := not_and_or.mp same
      exact .inr ⟨other, channels_setChannel_other net i j channel other⟩
  constructor
  · intro a b
    rcases cases' a b with ⟨rfl, rfl, here⟩ | ⟨-, there⟩
    · rw [here]
      exact sound
    · rw [there]
      exact inv.sound a b
  · exact inv.elective
  · intro a b
    rcases cases' a b with ⟨rfl, rfl, here⟩ | ⟨-, there⟩
    · rw [here, written]
      exact inv.said a b
    · rw [there]
      exact inv.said a b
  · intro a b k
    rcases inv.heard a b k with nothing | ⟨conn, found, part⟩
    · exact .inl nothing
    · right
      rcases cases' a b with ⟨rfl, rfl, here⟩ | ⟨-, there⟩
      · obtain ⟨conn', found', same⟩ := kept k conn found
        rw [here]
        exact ⟨conn', found', by rw [same]; exact part⟩
      · rw [there]
        exact ⟨conn, found, part⟩
  · intro a b k _ alive conn found
    rcases cases' a b with ⟨rfl, rfl, here⟩ | ⟨other, there⟩
    · rw [here] at found
      exact flows alive k conn found
    · rw [there] at found
      refine inv.flows a b k (fun busy => ?_) alive conn found
      obtain ⟨rfl, rfl⟩ := only a b k busy
      rcases other with ne | ne <;> exact ne rfl

theorem Inv.start {nodes : Cluster n} (elective : ∀ i, (nodes i).Elective) :
    Inv (fun _ _ _ => False) (start nodes) where
  sound i j := Channel.sound_start _
  elective := elective
  said i j := by
    have nothing : ((Network.start nodes).channels i j).written = [] := by
      simp only [Network.start, Channel.start, Channel.connectPeer]
      split <;> rfl
    rw [nothing]
    exact ⟨List.nil_sublist _, List.nil_sublist _⟩
  heard i j k := .inl rfl
  flows i j k _ _ conn found := by
    have fresh : conn = Conn.fresh := by
      have member := List.mem_of_getElem? found
      simp only [Network.start, Channel.start, Channel.connectPeer] at member
      split at member
      · cases member
      · exact List.mem_singleton.mp member
    rw [fresh]
    exact .fresh

/-- An event of a buffer event, which changes what is known of it only. -/
theorem Inv.bev (inv : Inv (fun _ _ _ => False) net) {i j : Fin n} {k : ℕ} {event : BevEvent}
    (raises : (net.channels i j).Raises k event) :
    Inv (fun _ _ _ => False)
      (net.setChannel i j ((net.channels i j).peerNodeOnEvent k event)) := by
  have sound := inv.sound i j
  -- a node has no connection to itself
  have other : i ≠ j := by
    intro own
    rw [decide_eq_true own] at sound
    have none : (net.channels i j).conns = [] := by rw [sound]; rfl
    cases event with
    | connected =>
      obtain ⟨conn, found, -⟩ := raises
      rw [none] at found
      cases found
    | lost =>
      obtain ⟨conn, found, -⟩ := raises
      rw [none] at found
      cases found
  rw [decide_eq_false other] at sound
  have ok : (net.channels i j).Ok := sound
  obtain ⟨status, conns⟩ : ∃ status, ((net.channels i j).peerNodeOnEvent k event).conns =
      (net.channels i j).conns.modify k fun conn => { conn with status := status } := by
    cases event with
    | connected => exact ⟨_, rfl⟩
    | lost => exact ⟨_, rfl⟩
  refine inv.setChannel (fun _ _ _ => False.elim) ?_ ?_ ?_ ?_
  · rw [decide_eq_false other]
    exact ok.onEvent raises
  · rw [Channel.written, conns]
    exact Channel.written_modify (net.channels i j) k _ fun _ => rfl
  · intro index conn found
    rw [conns, List.getElem?_modify, found]
    exact ⟨_, rfl, by split <;> rfl⟩
  · intro alive index conn found
    rw [conns, List.getElem?_modify] at found
    obtain ⟨before, there, rfl⟩ := Option.map_eq_some_iff.mp found
    have flows := inv.flows i j index id alive before there
    split
    next => exact flows
    next => exact flows

/-- The timer of a peer, which is connected again. -/
theorem Inv.timeout (inv : Inv (fun _ _ _ => False) net) {i j : Fin n}
    (due : (net.channels i j).peer.reconnect = .pending) :
    Inv (fun _ _ _ => False) (net.setChannel i j (net.channels i j).peerNodeOnTimeout) := by
  have sound := inv.sound i j
  have other : i ≠ j := by
    intro own
    rw [decide_eq_true own] at sound
    rw [sound] at due
    cases due
  rw [decide_eq_false other] at sound
  have ok : (net.channels i j).Ok := sound
  have conns : (net.channels i j).peerNodeOnTimeout.conns = (net.channels i j).conns ++ [.fresh] :=
    rfl
  refine inv.setChannel (fun _ _ _ => False.elim) ?_ ?_ ?_ ?_
  · rw [decide_eq_false other]
    exact ok.onTimeout due
  · simp only [Channel.written, conns, List.flatMap_append, List.flatMap_singleton, Conn.fresh,
      List.append_nil]
  · intro index conn found
    rw [conns]
    exact ⟨conn, by rw [List.getElem?_append_left (List.getElem?_eq_some_iff.mp found).1]; exact found,
      rfl⟩
  · intro alive index conn found
    rw [conns, List.getElem?_append] at found
    split at found
    next inside => exact inv.flows i j index id alive conn found
    next outside =>
      -- nothing can have been heard on a connection that was not there
      have fresh : conn = .fresh := List.mem_singleton.mp (List.mem_of_getElem? found)
      have nothing : net.heardOn j (i, index) = [] := by
        rcases inv.heard i j index with nothing | ⟨before, there, -⟩
        · exact nothing
        · exact absurd (List.getElem?_eq_some_iff.mp there).1 outside
      rw [fresh, nothing]
      exact .fresh

end Inv

end Network

end LibeventPaxos
