import LibeventPaxos.ConnectionKeys
import LibeventPaxos.PeerLink

/-!
`proxy.c`: the link from a proxy to the component of its own replica. It is kept like a link to a
peer, but a proxy also writes to a connection that is not made yet.
-/
namespace LibeventPaxos

open Lib

/-- `con_conn`, as the index of a connection, `re_con`, and all connections, oldest first. -/
structure Uplink where
  conCon : Option ℕ
  reCon : Timer
  conns : List Conn

/-- A request, as the component reads it. -/
def ReqSubMsg.asMsg (request : ReqSubMsg) : SysMsg := .requestSubmit request.msg.bytes

theorem ReqSubMsg.encodes (request : ReqSubMsg) : Encodes request.asMsg request.bytes :=
  ⟨fun _ => request.padding, rfl⟩

namespace Uplink

def connectConsensus (uplink : Uplink) : Uplink :=
  { uplink with conCon := some uplink.conns.length, conns := uplink.conns ++ [.fresh] }

/-- `proxy_run`, up to its loop. -/
def start : Uplink := connectConsensus ⟨none, .idle, []⟩

/-- The link, as one to a peer that is marked so. -/
def asChannel (uplink : Uplink) (active : Bool) : Channel :=
  ⟨⟨active, uplink.conCon, uplink.reCon⟩, uplink.conns⟩

/-- libevent may report the event for the buffer event of this connection. -/
def Raises (uplink : Uplink) (k : ℕ) (event : BevEvent) : Prop :=
  (uplink.asChannel false).Raises k event

instance (uplink : Uplink) (k : ℕ) (event : BevEvent) : Decidable (uplink.Raises k event) :=
  inferInstanceAs (Decidable ((uplink.asChannel false).Raises k event))

/-- `consensus_on_event`. -/
def consensusOnEvent (uplink : Uplink) (k : ℕ) : BevEvent → Uplink
  | .connected =>
    { uplink with conns := uplink.conns.modify k fun conn => { conn with status := .connected } }
  | .lost =>
    { conCon := none
      reCon := .pending
      conns := uplink.conns.modify k fun conn => { conn with status := .freed } }

def reconnectOnTimeout (uplink : Uplink) : Uplink := connectConsensus { uplink with reCon := .idle }

/-- `bufferevent_write(proxy->con_conn,…)`, where `con_conn` is not NULL. -/
def write (uplink : Uplink) (msg : SysMsg) (frame : List UInt8) : Except Fault Uplink :=
  match uplink.conCon with
  | none => .error .nullPointer
  | some k =>
    match uplink.conns[k]? with
    | none => .error .useAfterFree
    | some conn =>
      if conn.status = .freed then .error .useAfterFree
      else .ok { uplink with conns := uplink.conns.set k (conn.write msg frame) }

/-- Everything that has been written to the component. -/
def written (uplink : Uplink) : List SysMsg := uplink.conns.flatMap Conn.written

/-! ## The invariant -/

/-- Kept like the link to a peer. -/
def Ok (uplink : Uplink) : Prop := ∃ active, (uplink.asChannel active).Ok

section Ok

variable {uplink : Uplink}

/-- It waits to connect again and every buffer event is freed, or it has the newest one. -/
theorem ok_cases (ok : uplink.Ok) :
    (uplink.conCon = none ∧ uplink.reCon = .pending ∧ ∀ conn ∈ uplink.conns, conn.status = .freed) ∨
      ∃ older conn, uplink = ⟨some older.length, .idle, older ++ [conn]⟩ ∧
        conn.status ≠ .freed ∧ ∀ conn ∈ older, conn.status = .freed := by
  obtain ⟨active, ok⟩ := ok
  obtain ⟨conCon, reCon, conns⟩ := uplink
  rw [asChannel] at ok
  cases ok with
  | waiting _ freed => exact .inl ⟨rfl, rfl, freed⟩
  | live older conn freed alive => exact .inr ⟨older, conn, rfl, alive, freed⟩

theorem ok_start : start.Ok :=
  ⟨false, .live [] .fresh (fun _ member => by cases member) (by decide)⟩

theorem Ok.onEvent (ok : uplink.Ok) {k : ℕ} {event : BevEvent} (raises : uplink.Raises k event) :
    (uplink.consensusOnEvent k event).Ok := by
  obtain ⟨active, ok⟩ := ok
  have raises' : (uplink.asChannel active).Raises k event := by
    cases event with
    | connected => exact raises
    | lost => exact raises
  cases event with
  | connected => exact ⟨true, ok.onEvent raises'⟩
  | lost => exact ⟨false, ok.onEvent raises'⟩

theorem Ok.onTimeout (ok : uplink.Ok) (due : uplink.reCon = .pending) :
    uplink.reconnectOnTimeout.Ok := by
  obtain ⟨active, ok⟩ := ok
  exact ⟨active, ok.onTimeout due⟩

theorem Ok.modify (ok : uplink.Ok) (k : ℕ) (f : Conn → Conn)
    (same : ∀ conn, (f conn).status = conn.status) :
    Ok { uplink with conns := uplink.conns.modify k f } := by
  obtain ⟨active, ok⟩ := ok
  exact ⟨active, ok.same_status _ (Channel.map_modify uplink.conns k f Conn.status same)⟩

theorem written_modify (k : ℕ) (f : Conn → Conn) (same : ∀ conn, (f conn).written = conn.written) :
    written { uplink with conns := uplink.conns.modify k f } = uplink.written :=
  Channel.written_modify (uplink.asChannel false) k f same

/-- What writing these messages does: the readers of all connections may go on where they are. -/
structure Grows (msgs : List SysMsg) (uplink uplink' : Uplink) : Prop where
  conCon : uplink'.conCon = uplink.conCon
  written : uplink'.written = uplink.written ++ msgs
  conns : List.Forall₂ Conn.Extends uplink.conns uplink'.conns

theorem Grows.refl (uplink : Uplink) : Grows [] uplink uplink :=
  ⟨rfl, (List.append_nil _).symm, List.forall₂_same.mpr fun conn _ => .refl conn⟩

theorem Grows.trans {first second : List SysMsg} {middle after : Uplink}
    (early : Grows first uplink middle) (late : Grows second middle after) :
    Grows (first ++ second) uplink after where
  conCon := late.conCon.trans early.conCon
  written := by rw [late.written, early.written, List.append_assoc]
  conns := Channel.extends_trans early.conns late.conns

/-- A proxy that has a connection never writes to one that has been freed. -/
theorem Ok.write (ok : uplink.Ok) (there : uplink.conCon.isSome = true) {msg : SysMsg}
    {frame : List UInt8} (encodes : Encodes msg frame) :
    ∃ uplink', uplink.write msg frame = .ok uplink' ∧ uplink'.Ok ∧ Grows [msg] uplink uplink' := by
  rcases ok_cases ok with ⟨none, -, -⟩ | ⟨older, conn, rfl, alive, freed⟩
  · rw [none] at there
    cases there
  · have same : List.Forall₂ Conn.Extends older older :=
      List.forall₂_same.mpr fun conn _ => .refl conn
    refine ⟨⟨some older.length, .idle, older ++ [conn.write msg frame]⟩, ?_,
      ⟨_, .live older (conn.write msg frame) freed alive⟩, rfl, ?_,
      List.rel_append same (.cons (.write conn encodes) .nil)⟩
    · simp only [Uplink.write, Channel.getElem?_newest, if_neg alive]
      rw [List.set_append_right _ _ (Nat.le_refl _), Nat.sub_self, List.set_cons_zero]
    · simp only [Uplink.written, List.flatMap_append, List.flatMap_singleton, Conn.write,
        List.append_assoc]

end Ok

/-! ## The other side -/

/-- What has been taken of a connection, from a log of what has been taken of all of them. -/
def takenOf (log : List (ℕ × SysMsg)) (k : ℕ) : List SysMsg :=
  (log.filter fun entry => decide (entry.1 = k)).map Prod.snd

/-- Of each connection a front has been taken, and what is left of it is on its way as long as the
component runs. -/
structure Drained (running : Prop) (log : List (ℕ × SysMsg)) (conns : List Conn) : Prop where
  front : ∀ k : ℕ, takenOf log k = [] ∨ ∃ conn ∈ conns[k]?, takenOf log k <+: conn.written
  flows : running → ∀ k : ℕ, ∀ conn ∈ conns[k]?, conn.Flows (takenOf log k)

section Drained

variable {running running' : Prop} {log : List (ℕ × SysMsg)} {conns conns' : List Conn}

theorem drained_start (running : Prop) : Drained running [] start.conns where
  front k := .inl rfl
  flows _ k conn found := by
    rw [List.mem_singleton.mp (List.mem_of_getElem? found)]
    exact .fresh

theorem Drained.mono (drained : Drained running log conns) (implies : running' → running) :
    Drained running' log conns :=
  ⟨drained.front, fun runs => drained.flows (implies runs)⟩

theorem Drained.extend (drained : Drained running log conns)
    (longer : List.Forall₂ Conn.Extends conns conns') : Drained running log conns' where
  front k := by
    rcases drained.front k with nothing | ⟨conn, found, part⟩
    · exact .inl nothing
    · rcases Conn.Extends.at_index longer k with
        ⟨absent, -⟩ | ⟨before, after, found', there, extends'⟩
      · rw [Option.mem_def, absent] at found
        cases found
      · obtain rfl := Option.some.inj (found'.symm.trans found)
        exact .inr ⟨after, there, part.trans extends'.written⟩
  flows runs k conn found := by
    rcases Conn.Extends.at_index longer k with
      ⟨-, absent⟩ | ⟨before, after, found', there, extends'⟩
    · rw [Option.mem_def, absent] at found
      cases found
    · obtain rfl := Option.some.inj (there.symm.trans found)
      exact extends'.flows _ (drained.flows runs k before found')

theorem extends_modify (k : ℕ) (f : Conn → Conn) (longer : ∀ conn, Conn.Extends conn (f conn))
    (conns : List Conn) : List.Forall₂ Conn.Extends conns (conns.modify k f) := by
  have same (conns : List Conn) : List.Forall₂ Conn.Extends conns conns :=
    List.forall₂_same.mpr fun conn _ => .refl conn
  induction conns generalizing k with
  | nil =>
    rw [List.modify_nil]
    exact .nil
  | cons conn conns ih =>
    cases k with
    | zero => exact .cons (longer conn) (same conns)
    | succ k =>
      rw [List.modify_succ_cons]
      exact .cons (.refl conn) (ih k)

/-- Nothing has been taken of a connection that was not there. -/
theorem Drained.connect (drained : Drained running log conns) :
    Drained running log (conns ++ [.fresh]) where
  front k := by
    rcases drained.front k with nothing | ⟨conn, found, part⟩
    · exact .inl nothing
    · refine .inr ⟨conn, ?_, part⟩
      rw [Option.mem_def, List.getElem?_append_left (List.getElem?_eq_some_iff.mp found).1]
      exact found
  flows runs k conn found := by
    rw [Option.mem_def, List.getElem?_append] at found
    split at found
    next inside => exact drained.flows runs k conn found
    next outside =>
      -- the new connection has the next index, from which nothing can have been taken
      have nothing : takenOf log k = [] := by
        rcases drained.front k with nothing | ⟨before, there, -⟩
        · exact nothing
        · exact absurd (List.getElem?_eq_some_iff.mp there).1 outside
      rw [nothing, List.mem_singleton.mp (List.mem_of_getElem? found)]
      exact .fresh

theorem takenOf_append (k index : ℕ) (read : List SysMsg) :
    takenOf (log ++ read.map fun msg => (k, msg)) index =
      takenOf log index ++ if index = k then read else [] := by
  have fresh : ((read.map fun msg => (k, msg)).filter fun entry => decide (entry.1 = index)) =
      if index = k then read.map fun msg => (k, msg) else [] := by
    by_cases here : index = k
    · subst here
      rw [if_pos rfl, List.filter_eq_self]
      intro entry member
      obtain ⟨msg, -, rfl⟩ := List.mem_map.mp member
      exact decide_eq_true rfl
    · rw [if_neg here, List.filter_eq_nil_iff]
      intro entry member same
      obtain ⟨msg, -, rfl⟩ := List.mem_map.mp member
      exact here (of_decide_eq_true same).symm
  rw [takenOf, List.filter_append, List.map_append, fresh, takenOf]
  split
  · rw [List.map_map]
    exact congrArg _ (List.map_id read)
  · rfl

/-- Some messages are taken of one connection. -/
theorem Drained.take (drained : Drained running log conns) {k : ℕ} {conn : Conn}
    (found : conns[k]? = some conn) {read : List SysMsg}
    (front : takenOf log k ++ read <+: conn.written) (f : Conn → Conn)
    (written : (f conn).written = conn.written)
    (left : running' → running ∧ (f conn).Flows (takenOf log k ++ read)) :
    Drained running' (log ++ read.map fun msg => (k, msg)) (conns.modify k f) where
  front index := by
    rw [takenOf_append]
    -- only the front of the connection that is read gets longer
    by_cases here : index = k
    · subst here
      rw [if_pos rfl]
      refine .inr ⟨f conn, ?_, by rw [written]; exact front⟩
      rw [Option.mem_def, List.getElem?_modify_eq, found]
      rfl
    · rw [if_neg here, List.append_nil, List.getElem?_modify_ne _ _ (Ne.symm here)]
      exact drained.front index
  flows runs index after found' := by
    obtain ⟨before, flows⟩ := left runs
    rw [takenOf_append]
    by_cases here : index = k
    · subst here
      rw [Option.mem_def, List.getElem?_modify_eq, found] at found'
      obtain rfl := Option.some.inj found'
      rw [if_pos rfl]
      exact flows
    · rw [List.getElem?_modify_ne _ _ (Ne.symm here)] at found'
      rw [if_neg here, List.append_nil]
      exact drained.flows before index after found'

end Drained

end Uplink

namespace ProxyNode

/-! ## What a proxy submits -/

/-- From `proxy` to `proxy'` requests may have been submitted, if there is a connection, which there
still is. -/
structure Submits (proxy proxy' : ProxyNode) : Prop where
  conConn : proxy'.conConn = proxy.conConn
  requests : ∃ added, proxy'.requests = proxy.requests ++ added ∧
    (proxy.conConn = false → added = [])

section Submits

variable {proxy middle after : ProxyNode} {env : ProxyEnv} {key : UInt64}

theorem submits_of_same (conConn : after.conConn = proxy.conConn)
    (requests : after.requests = proxy.requests) : Submits proxy after :=
  ⟨conConn, [], by rw [requests, List.append_nil], fun _ => rfl⟩

theorem Submits.refl (proxy : ProxyNode) : Submits proxy proxy := submits_of_same rfl rfl

theorem Submits.trans (first : Submits proxy middle) (second : Submits middle after) :
    Submits proxy after := by
  -- the second part submits only over the connection the first has left as it was
  obtain ⟨added, requests, none⟩ := first.requests
  obtain ⟨added', requests', none'⟩ := second.requests
  refine ⟨second.conConn.trans first.conConn, added ++ added', ?_, fun lost => ?_⟩
  · rw [requests', requests, List.append_assoc]
  · rw [none lost, none' (first.conConn.trans lost)]
    rfl

theorem submits_submit (msg : ProxyMsg) : Submits proxy (proxy.submit env msg) := by
  rw [submit]
  split
  next connected =>
    refine ⟨rfl, _, rfl, fun lost => ?_⟩
    rw [connected] at lost
    cases lost
  next lost => exact .refl proxy

theorem submits_submitPair (pair : SocketPair) (action : ProxyAction) :
    Submits proxy (proxy.submitPair env key pair action) := by
  have counted : Submits proxy (proxy.setPair key { pair with counter := pair.counter + 1 }) :=
    submits_of_same rfl rfl
  exact counted.trans (submits_submit _)

theorem submits_sideOnErr : Submits proxy (proxy.sideOnErr env key) := by
  rw [sideOnErr]
  split
  next absent => exact .refl proxy
  next pair found => exact submits_submitPair pair .close

theorem submits_clientProcessData (frame : List UInt8) :
    Submits proxy (proxy.clientProcessData env key frame) := by
  have failed (fault : Fault) : Submits proxy (proxy.fail fault) := submits_of_same rfl rfl
  rw [clientProcessData]
  split
  next absent => exact .refl proxy
  next pair found =>
    split
    next short => exact failed _
    next whole =>
      split
      next write =>
        simp only
        split
        next fits =>
          have counted : Submits proxy
              (proxy.setPair key { pair with counter := pair.counter + 1 }) :=
            submits_of_same rfl rfl
          exact counted.trans (submits_submit _)
        next huge => exact failed _
      next other => exact .refl proxy

/-- The frames of one call, one after the other. -/
private theorem submits_frames (frames : List (List UInt8)) (proxy : ProxyNode) :
    Submits proxy (frames.foldl (fun proxy frame =>
      if proxy.fault.isSome then proxy else clientProcessData env key proxy frame) proxy) := by
  -- induction over the frames, for every proxy: each call starts where the last has left it
  induction frames generalizing proxy with
  | nil => exact .refl proxy
  | cons frame frames ih =>
    rw [List.foldl_cons]
    split
    next faulty => exact ih proxy
    next running => exact (submits_clientProcessData frame).trans (ih _)

theorem submits_clientSideOnRead (chunk : List UInt8) :
    Submits proxy (proxy.clientSideOnRead env key chunk) := by
  rw [clientSideOnRead]
  split
  next absent => exact .refl proxy
  next pair found =>
    split
    next closed => exact .refl proxy
    next input client =>
      simp only
      split
      next endless => exact submits_of_same rfl rfl
      next frames rest read =>
        have taken : Submits proxy (proxy.setPair key { pair with client := some rest }) :=
          submits_of_same rfl rfl
        exact taken.trans (submits_frames frames _)

theorem submits_onAccept (sec : UInt64) : Submits proxy (proxy.onAccept env sec) := by
  rw [onAccept]
  split
  next connected =>
    have counted : Submits proxy { proxy with
        pairCount := proxy.pairCount + 1
        accepted := proxy.accepted ++ [genKey proxy.nodeId proxy.pairCount sec] } :=
      submits_of_same rfl rfl
    exact counted.trans (submits_submitPair _ .connect)
  next lost => exact .refl proxy

theorem submits_serverSideOnRead (bytes : List UInt8) :
    Submits proxy (proxy.serverSideOnRead key bytes) := by
  rw [serverSideOnRead]
  split
  next absent => exact .refl proxy
  next pair found =>
    split
    next client => exact submits_of_same rfl rfl
    next drained => exact .refl proxy

/-- Execution submits nothing. -/
theorem doActionToServer_submits (proxy : ProxyNode) (data : Memory) :
    (proxy.doActionToServer data).conConn = proxy.conConn ∧
      (proxy.doActionToServer data).requests = proxy.requests := by
  rw [doActionToServer]
  split
  next connect =>
    rw [doActionConnect]
    split <;> exact ⟨rfl, rfl⟩
  next send =>
    rw [doActionSend]
    split
    next absent => exact ⟨rfl, rfl⟩
    next pair found => split <;> exact ⟨rfl, rfl⟩
  next close =>
    rw [doActionClose]
    split
    next absent => exact ⟨rfl, rfl⟩
    next pair found =>
      simp only
      split <;> exact ⟨rfl, rfl⟩
  next other => exact ⟨rfl, rfl⟩

end Submits

end ProxyNode

namespace ProxyEvent

/-- What happens at the proxy itself: clients and the server, not the link to its component, and not
what the log asks for. -/
def Local : ProxyEvent → Prop
  | .connectConsensus => False
  | .loseConsensus => False
  | .execute _ => False
  | .accept _ => True
  | .clientRead _ _ => True
  | .clientErr _ => True
  | .serverRead _ _ => True
  | .serverErr _ => True

instance : ∀ event : ProxyEvent, Decidable event.Local
  | .connectConsensus => .isFalse id
  | .loseConsensus => .isFalse id
  | .execute _ => .isFalse id
  | .accept _ => .isTrue trivial
  | .clientRead _ _ => .isTrue trivial
  | .clientErr _ => .isTrue trivial
  | .serverRead _ _ => .isTrue trivial
  | .serverErr _ => .isTrue trivial

end ProxyEvent

theorem ProxyNode.submits_dispatch (proxy : ProxyNode) (env : ProxyEnv) {event : ProxyEvent}
    (own : event.Local) : proxy.Submits (proxy.dispatch (env, event)) := by
  cases event with
  | accept sec => exact submits_onAccept sec
  | clientRead key chunk => exact submits_clientSideOnRead chunk
  | clientErr key => exact submits_sideOnErr
  | serverRead key bytes => exact submits_serverSideOnRead bytes
  | serverErr key => exact submits_sideOnErr
  | connectConsensus | loseConsensus | execute => exact own.elim

end LibeventPaxos
