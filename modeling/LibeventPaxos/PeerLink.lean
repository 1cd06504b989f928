import LibeventPaxos.Election
import LibeventPaxos.Wire

/-!
`replica.c`: the link from a node to one of its peers, over one connection after the other. A peer
has one live buffer event or an armed timer to connect it again, and what is written goes to the
newest connection only.
-/
namespace LibeventPaxos

open Lib

/-! ## Connections -/

/-- The buffer event of a connection: `bufferevent_socket_connect` is under way, has succeeded, or
the buffer event has been freed. -/
inductive BevStatus where
  | connecting
  | connected
  | freed
  deriving DecidableEq, Repr

/-- A connection: the bytes on their way, those that have arrived and are left in the input of the
other side, and as a history the messages written to it. -/
structure Conn where
  status : BevStatus
  inFlight : List UInt8
  input : List UInt8
  written : List SysMsg

namespace Conn

/-- `bufferevent_socket_new`. -/
def fresh : Conn := ⟨.connecting, [], [], []⟩

/-- `bufferevent_write`. -/
def write (conn : Conn) (msg : SysMsg) (frame : List UInt8) : Conn :=
  { conn with inFlight := conn.inFlight ++ frame, written := conn.written ++ [msg] }

/-- After these messages have been taken, the connection still holds the others. -/
def Flows (conn : Conn) (taken : List SysMsg) : Prop :=
  ∃ later, conn.written = taken ++ later ∧ Unread later conn.input conn.inFlight

theorem Flows.fresh : fresh.Flows [] :=
  ⟨[], rfl, ⟨[], .nil, rfl, fun frame first => by cases first⟩⟩

theorem Flows.write {conn : Conn} {taken : List SysMsg} (flows : conn.Flows taken) {msg : SysMsg}
    {frame : List UInt8} (encodes : Encodes msg frame) : (conn.write msg frame).Flows taken := by
  obtain ⟨later, split, frames, encoded, stream, short⟩ := flows
  have stream' : conn.input ++ (conn.inFlight ++ frame) = (frames ++ [frame]).flatten := by
    rw [List.flatten_append, List.flatten_singleton, ← stream, List.append_assoc]
  refine ⟨later ++ [msg], ?_, frames ++ [frame],
    List.rel_append encoded (.cons encodes .nil), stream', ?_⟩
  · simp only [Conn.write, split, List.append_assoc]
  · intro first head
    cases frames with
    | nil =>
      -- nothing was left, so the input is empty
      obtain ⟨padding, rfl⟩ := encodes
      obtain rfl := Option.some.inj head
      rw [List.flatten_nil, List.append_eq_nil_iff] at stream
      simp only [Conn.write, stream.1, List.length_nil, SysMsg.frame, List.length_append,
        length_headerBytes]
      omega
    | cons next frames => exact short first head

/-- A change of a connection after which its reader may go on where it is. -/
structure Extends (conn conn' : Conn) : Prop where
  written : conn.written <+: conn'.written
  flows : ∀ taken, conn.Flows taken → conn'.Flows taken

theorem Extends.refl (conn : Conn) : conn.Extends conn :=
  ⟨List.prefix_refl _, fun _ flows => flows⟩

theorem Extends.trans {conn conn' conn'' : Conn} (first : conn.Extends conn')
    (second : conn'.Extends conn'') : conn.Extends conn'' :=
  ⟨first.written.trans second.written, fun taken flows => second.flows taken
    (first.flows taken flows)⟩

theorem Extends.write (conn : Conn) {msg : SysMsg} {frame : List UInt8}
    (encodes : Encodes msg frame) : conn.Extends (conn.write msg frame) :=
  ⟨List.prefix_append _ _, fun _ flows => flows.write encodes⟩

/-- The connection with the same index. -/
theorem Extends.at_index {conns conns' : List Conn} (all : List.Forall₂ Extends conns conns')
    (k : ℕ) : (conns[k]? = none ∧ conns'[k]? = none) ∨
      ∃ conn conn', conns[k]? = some conn ∧ conns'[k]? = some conn' ∧ conn.Extends conn' := by
  induction all generalizing k with
  | nil => exact .inl ⟨rfl, rfl⟩
  | @cons conn conn' _ _ first _ ih =>
    cases k with
    | zero => exact .inr ⟨conn, conn', rfl, rfl, first⟩
    | succ k => exact ih k

end Conn

/-! ## Peers -/

/-- `peer`; `my_buff_event` is the index of a connection. -/
structure Peer where
  active : Bool
  myBuffEvent : Option ℕ
  reconnect : Timer
  deriving DecidableEq, Repr

/-- A peer and all the connections to it, oldest first. -/
structure Channel where
  peer : Peer
  conns : List Conn

/-- `BEV_EVENT_CONNECTED`, and `BEV_EVENT_EOF` or `BEV_EVENT_ERROR`. -/
inductive BevEvent where
  | connected
  | lost
  deriving DecidableEq, Repr

namespace Channel

def connectPeer (channel : Channel) : Channel where
  peer := { channel.peer with myBuffEvent := some channel.conns.length }
  conns := channel.conns ++ [.fresh]

/-- `consensus_read_config` and, for every node but the own one, `connect_peers`. -/
def start (own : Bool) : Channel :=
  if own then ⟨⟨false, none, .absent⟩, []⟩ else connectPeer ⟨⟨false, none, .idle⟩, []⟩

/-- libevent may report the event for the buffer event of this connection. -/
def Raises (channel : Channel) (k : ℕ) : BevEvent → Prop
  | .connected => ∃ conn ∈ channel.conns[k]?, conn.status = .connecting
  | .lost => ∃ conn ∈ channel.conns[k]?, conn.status ≠ .freed

instance (channel : Channel) (k : ℕ) : ∀ event, Decidable (channel.Raises k event)
  | .connected => inferInstanceAs (Decidable (∃ conn ∈ channel.conns[k]?, conn.status = .connecting))
  | .lost => inferInstanceAs (Decidable (∃ conn ∈ channel.conns[k]?, conn.status ≠ .freed))

/-- `peer_node_on_event` for the buffer event of this connection. -/
def peerNodeOnEvent (channel : Channel) (k : ℕ) : BevEvent → Channel
  | .connected =>
    { peer := { channel.peer with active := true }
      conns := channel.conns.modify k fun conn => { conn with status := .connected } }
  | .lost =>
    { peer := { active := false, myBuffEvent := none, reconnect := .pending }
      conns := channel.conns.modify k fun conn => { conn with status := .freed } }

/-- `peer_node_on_timeout`. -/
def peerNodeOnTimeout (channel : Channel) : Channel :=
  connectPeer { channel with peer := { channel.peer with reconnect := .idle } }

/-- What `send_to_one_node` and `send_to_other_nodes` do with one peer. -/
def send (channel : Channel) (msg : SysMsg) (frame : List UInt8) : Except Fault Channel :=
  if channel.peer.active then
    match channel.peer.myBuffEvent with
    | none => .error .nullPointer
    | some k =>
      match channel.conns[k]? with
      | none => .error .useAfterFree
      | some conn =>
        if conn.status = .freed then .error .useAfterFree
        else .ok { channel with conns := channel.conns.set k (conn.write msg frame) }
  else .ok channel

/-- Everything that has been written to the peer. -/
def written (channel : Channel) : List SysMsg := channel.conns.flatMap Conn.written

/-! ## The invariant of a link -/

/-- The link to another node: the peer waits to connect again, and every buffer event is freed, or
it has the one that is not, of the newest connection, and is active if that is connected. -/
inductive Ok : Channel → Prop
  | waiting (conns : List Conn) (freed : ∀ conn ∈ conns, conn.status = .freed) :
      Ok ⟨⟨false, none, .pending⟩, conns⟩
  | live (older : List Conn) (conn : Conn) (freed : ∀ conn ∈ older, conn.status = .freed)
      (alive : conn.status ≠ .freed) :
      Ok ⟨⟨decide (conn.status = .connected), some older.length, .idle⟩, older ++ [conn]⟩

section Ok

variable {channel : Channel}

theorem modify_newest (older : List Conn) (conn : Conn) (f : Conn → Conn) :
    (older ++ [conn]).modify older.length f = older ++ [f conn] := by
  induction older with
  | nil => rfl
  | cons first older ih => rw [List.cons_append, List.length_cons, List.modify_succ_cons, ih,
      List.cons_append]

theorem getElem?_newest (older : List Conn) (conn : Conn) :
    (older ++ [conn])[older.length]? = some conn := by
  rw [List.getElem?_append_right (Nat.le_refl _), Nat.sub_self, List.getElem?_cons_zero]

theorem Ok.connectPeer {conns : List Conn} (freed : ∀ conn ∈ conns, conn.status = .freed) :
    (connectPeer ⟨⟨false, none, .idle⟩, conns⟩).Ok :=
  .live conns .fresh freed (by decide)

/-- Only the newest connection raises an event. -/
theorem Ok.raises (ok : channel.Ok) {k : ℕ} {event : BevEvent} (raises : channel.Raises k event) :
    ∃ older conn, channel = ⟨⟨decide (conn.status = .connected), some older.length, .idle⟩,
      older ++ [conn]⟩ ∧ k = older.length ∧ (∀ conn ∈ older, conn.status = .freed) := by
  have alive : ∃ conn ∈ channel.conns[k]?, conn.status ≠ .freed := by
    cases event with
    | connected =>
      obtain ⟨conn, found, connecting⟩ := raises
      exact ⟨conn, found, by rw [connecting]; decide⟩
    | lost => exact raises
  obtain ⟨conn, found, alive⟩ := alive
  cases ok with
  | waiting conns freed => exact absurd (freed conn (List.mem_of_getElem? found)) alive
  | live older newest freed _ =>
    refine ⟨older, newest, rfl, ?_, freed⟩
    by_contra other
    obtain ⟨inside, -⟩ := List.getElem?_eq_some_iff.mp found
    rw [List.length_append, List.length_singleton] at inside
    simp only [Option.mem_def] at found
    rw [List.getElem?_append_left (by omega)] at found
    exact alive (freed conn (List.mem_of_getElem? found))

theorem Ok.onEvent (ok : channel.Ok) {k : ℕ} {event : BevEvent}
    (raises : channel.Raises k event) : (channel.peerNodeOnEvent k event).Ok := by
  obtain ⟨older, conn, rfl, rfl, freed⟩ := ok.raises raises
  cases event with
  | connected =>
    have newest := modify_newest older conn fun conn => { conn with status := .connected }
    simp only [peerNodeOnEvent, newest]
    exact .live older { conn with status := .connected } freed fun same => by cases same
  | lost =>
    have newest := modify_newest older conn fun conn => { conn with status := .freed }
    simp only [peerNodeOnEvent, newest]
    refine .waiting _ fun other member => ?_
    rcases List.mem_append.mp member with earlier | last
    · exact freed other earlier
    · rw [List.mem_singleton.mp last]

theorem Ok.onTimeout (ok : channel.Ok) (due : channel.peer.reconnect = .pending) :
    channel.peerNodeOnTimeout.Ok := by
  cases ok with
  | waiting conns freed => exact .connectPeer freed
  | live older conn freed alive => cases due

end Ok

/-- The link of a node to itself is never connected; any other keeps its invariant. -/
def Sound (own : Bool) (channel : Channel) : Prop :=
  if own then channel = start true else channel.Ok

theorem sound_start (own : Bool) : Sound own (start own) := by
  cases own with
  | true => rfl
  | false =>
    have none : ∀ conn ∈ ([] : List Conn), conn.status = .freed :=
      fun conn member => by cases member
    exact Ok.connectPeer none

/-- A change of one connection that leaves its status and what was written to it alone. -/
theorem map_modify {α : Type} (conns : List Conn) (k : ℕ) (f : Conn → Conn) (field : Conn → α)
    (same : ∀ conn, field (f conn) = field conn) :
    (conns.modify k f).map field = conns.map field := by
  apply List.ext_getElem?
  intro index
  rw [List.getElem?_map, List.getElem?_map, List.getElem?_modify]
  split
  next => cases conns[index]? <;> simp [same]
  next => cases conns[index]? <;> rfl

theorem Ok.same_status {channel : Channel} (ok : channel.Ok) (conns : List Conn)
    (same : conns.map Conn.status = channel.conns.map Conn.status) :
    Ok ⟨channel.peer, conns⟩ := by
  cases ok with
  | waiting older freed =>
    refine .waiting conns fun conn member => ?_
    have status : conn.status ∈ older.map Conn.status := by
      rw [← same]
      exact List.mem_map_of_mem member
    obtain ⟨before, there, status⟩ := List.mem_map.mp status
    rw [← status]
    exact freed before there
  | live older newest freed alive =>
    simp only [List.map_append, List.map_cons, List.map_nil] at same
    obtain ⟨older', last, rfl, sameOlder, sameLast⟩ := List.map_eq_append_iff.mp same
    obtain ⟨newest', rfl, status⟩ := List.map_eq_singleton_iff.mp sameLast
    have length := congrArg List.length sameOlder
    rw [List.length_map, List.length_map] at length
    rw [← status] at alive ⊢
    rw [← length]
    refine .live older' newest' (fun conn member => ?_) alive
    have status : conn.status ∈ older.map Conn.status := by
      rw [← sameOlder]
      exact List.mem_map_of_mem member
    obtain ⟨before, there, status⟩ := List.mem_map.mp status
    rw [← status]
    exact freed before there

theorem Sound.modify {own : Bool} {channel : Channel} (sound : Sound own channel) (k : ℕ)
    (f : Conn → Conn) (same : ∀ conn, (f conn).status = conn.status) :
    Sound own ⟨channel.peer, channel.conns.modify k f⟩ := by
  cases own with
  | true =>
    obtain rfl : channel = start true := sound
    simp [Sound, start]
  | false =>
    have ok : channel.Ok := sound
    exact ok.same_status _ (map_modify channel.conns k f Conn.status same)

theorem written_modify (channel : Channel) (k : ℕ) (f : Conn → Conn)
    (same : ∀ conn, (f conn).written = conn.written) :
    Channel.written ⟨channel.peer, channel.conns.modify k f⟩ = channel.written := by
  rw [written, written, List.flatMap_def, List.flatMap_def,
    map_modify channel.conns k f Conn.written same]

/-- What writing these messages does to a channel: if the peer is active they are written to its
newest connection, and the readers of all connections may go on where they are. -/
structure Grows (msgs : List SysMsg) (channel channel' : Channel) : Prop where
  peer : channel'.peer = channel.peer
  written : channel'.written = channel.written ++ if channel.peer.active then msgs else []
  conns : List.Forall₂ Conn.Extends channel.conns channel'.conns

theorem Grows.refl (channel : Channel) : Grows [] channel channel :=
  ⟨rfl, by rw [ite_self, List.append_nil], List.forall₂_same.mpr fun conn _ => .refl conn⟩

theorem extends_trans {conns conns' conns'' : List Conn}
    (early : List.Forall₂ Conn.Extends conns conns')
    (late : List.Forall₂ Conn.Extends conns' conns'') :
    List.Forall₂ Conn.Extends conns conns'' := by
  induction early generalizing conns'' with
  | nil => exact late
  | cons first _ ih =>
    cases late with
    | cons first' rest' => exact .cons (first.trans first') (ih rest')

theorem Grows.trans {first second : List SysMsg} {channel channel' channel'' : Channel}
    (early : Grows first channel channel') (late : Grows second channel' channel'') :
    Grows (first ++ second) channel channel'' where
  peer := late.peer.trans early.peer
  written := by
    rw [late.written, early.written, early.peer]
    split
    next => rw [List.append_assoc]
    next => rw [List.append_nil, List.append_nil]
  conns := extends_trans early.conns late.conns

/-- A write never goes through NULL or to a buffer event that has been freed. -/
theorem Sound.send {own : Bool} {channel : Channel} (sound : Sound own channel) {msg : SysMsg}
    {frame : List UInt8} (encodes : Encodes msg frame) :
    ∃ channel', channel.send msg frame = .ok channel' ∧ Sound own channel' ∧
      Grows [msg] channel channel' := by
  by_cases active : channel.peer.active = true
  · cases own with
    | true =>
      obtain rfl : channel = start true := sound
      cases active
    | false =>
      have ok : channel.Ok := sound
      cases ok with
      | waiting conns freed => cases active
      | live older conn freed alive =>
        have same : List.Forall₂ Conn.Extends older older :=
          List.forall₂_same.mpr fun conn _ => .refl conn
        refine ⟨⟨⟨decide (conn.status = .connected), some older.length, .idle⟩,
          older ++ [conn.write msg frame]⟩, ?_, Ok.live older (conn.write msg frame) freed alive,
          rfl, ?_, List.rel_append same (.cons (.write conn encodes) .nil)⟩
        · simp only [Channel.send, if_pos active, getElem?_newest, if_neg alive]
          rw [List.set_append_right _ _ (Nat.le_refl _), Nat.sub_self, List.set_cons_zero]
        · rw [if_pos active]
          simp only [Channel.written, List.flatMap_append, List.flatMap_singleton, Conn.write,
            List.append_assoc]
  · refine ⟨channel, by rw [Channel.send, if_neg active], sound, rfl, ?_,
      (Grows.refl channel).conns⟩
    rw [if_neg active, List.append_nil]

end Channel

end LibeventPaxos
