import LibeventPaxos.RequestTransfer

/-!
The stream of a client: whatever else the proxy does in between, it submits the payloads of the
client's frames, in their order.
-/
namespace LibeventPaxos

open Lib

namespace ProxyNode

/-! ## Frames and submissions of a connection -/

/-- The chunks that arrive from the client of a connection. -/
def readsOn (key : UInt64) (events : List (ProxyEnv × ProxyEvent)) : List (List UInt8) :=
  events.filterMap fun e => match e.2 with
    | .clientRead other chunk => if other = key then some chunk else none
    | _ => none

def isWrite (key : UInt64) (request : ReqSubMsg) : Bool :=
  decide (request.msg.action = .send ∧ request.msg.connectionId = key)

/-- The payloads submitted for a connection. -/
def writesOn (key : UInt64) (requests : List ReqSubMsg) : List (List UInt8) :=
  (requests.filter (isWrite key)).map fun request => request.msg.data

/-- What has arrived from the client of a connection and is not processed. -/
def clientInput (proxy : ProxyNode) (key : UInt64) : Option (List UInt8) :=
  (proxy.hashMap key).bind SocketPair.client

/-- Ids of connections are distinct, and the connection to the component is kept. -/
def Steady (proxy : ProxyNode) (e : ProxyEnv × ProxyEvent) : Prop :=
  DistinctIds proxy e ∧ e.2 ≠ .loseConsensus

/-! ## Everything but a read on the connection -/

/-- Between the two states nothing was read or submitted for the connection, but it may have been
accepted or closed. -/
structure Apart (key : UInt64) (proxy proxy' : ProxyNode) : Prop where
  input : ∀ buffer, proxy'.clientInput key = some buffer → proxy.clientInput key = some buffer ∨
    buffer = [] ∧ proxy.hashMap key = none ∧ proxy'.conConn = true
  absent : proxy'.hashMap key = none → proxy.hashMap key = none
  connected : proxy.conConn = true → proxy'.conConn = true
  writes : writesOn key proxy'.requests = writesOn key proxy.requests

theorem Apart.refl (key : UInt64) (proxy : ProxyNode) : Apart key proxy proxy :=
  ⟨fun _ => .inl, id, id, rfl⟩

theorem Apart.trans {key : UInt64} {proxy middle after : ProxyNode}
    (first : Apart key proxy middle) (second : Apart key middle after) : Apart key proxy after := by
  constructor
  · intro buffer found
    rcases second.input buffer found with kept | ⟨empty, absent, connected⟩
    · rcases first.input buffer kept with earlier | ⟨empty, absent, connected⟩
      · exact .inl earlier
      · exact .inr ⟨empty, absent, second.connected connected⟩
    · exact .inr ⟨empty, first.absent absent, connected⟩
  · exact fun absent => first.absent (second.absent absent)
  · exact fun connected => second.connected (first.connected connected)
  · exact second.writes.trans first.writes

section Apart

variable {key : UInt64} {proxy : ProxyNode} {env : ProxyEnv} {other : UInt64}

theorem clientInput_of_pair {pair : SocketPair} (found : proxy.hashMap key = some pair) :
    proxy.clientInput key = pair.client := by
  rw [clientInput, found]
  rfl

theorem clientInput_setPair (pair : SocketPair) :
    (proxy.setPair other pair).clientInput key =
      if key = other then pair.client else proxy.clientInput key := by
  simp only [clientInput, setPair, Function.update_apply]
  split
  next same => rfl
  next different => rfl

theorem hashMap_setPair_self (pair : SocketPair) :
    (proxy.setPair key pair).hashMap key = some pair :=
  Function.update_self _ _ _

theorem hashMap_setPair_none {pair : SocketPair}
    (absent : (proxy.setPair other pair).hashMap key = none) : proxy.hashMap key = none := by
  simp only [setPair, Function.update_apply] at absent
  split at absent
  next same => cases absent
  next different => exact absent

/-- A pair of another connection, or one that keeps the client's input or drops it. -/
theorem apart_setPair (pair : SocketPair)
    (input : other = key → ∀ buffer, pair.client = some buffer →
      proxy.clientInput key = some buffer) : Apart key proxy (proxy.setPair other pair) := by
  refine ⟨?_, hashMap_setPair_none, id, rfl⟩
  intro buffer found
  rw [clientInput_setPair] at found
  split at found
  next same => exact .inl (input same.symm buffer found)
  next different => exact .inl found

theorem writesOn_append_other (requests : List ReqSubMsg) (request : ReqSubMsg)
    (unrelated : isWrite key request = false) :
    writesOn key (requests ++ [request]) = writesOn key requests := by
  simp [writesOn, List.filter_append, unrelated]

theorem apart_submit (msg : ProxyMsg)
    (unrelated : ¬ (msg.action = .send ∧ msg.connectionId = key)) :
    Apart key proxy (proxy.submit env msg) := by
  rw [submit]
  split
  next connected =>
    exact ⟨fun _ => .inl, id, id, writesOn_append_other _ _ (decide_eq_false unrelated)⟩
  next lost => exact .refl key proxy

/-- A connect or a close. -/
theorem apart_submitPair {pair : SocketPair} (action : ProxyAction) (control : action ≠ .send)
    (input : other = key → ∀ buffer, pair.client = some buffer →
      proxy.clientInput key = some buffer) :
    Apart key proxy (proxy.submitPair env other pair action) := by
  have counted : Apart key proxy
      (proxy.setPair other { pair with counter := pair.counter + 1 }) := apart_setPair _ input
  rw [submitPair]
  exact counted.trans (apart_submit _ fun write => control write.1)

theorem apart_sideOnErr : Apart key proxy (proxy.sideOnErr env other) := by
  rw [sideOnErr]
  split
  next absent => exact .refl key proxy
  next pair found =>
    apply apart_submitPair _ (by decide)
    intro same buffer client
    subst same
    rw [clientInput_of_pair found, client]

theorem apart_clientProcessData (different : other ≠ key) (frame : List UInt8) :
    Apart key proxy (proxy.clientProcessData env other frame) := by
  have elsewhere : ∀ buffer : List UInt8, ∀ pair : SocketPair, other = key →
      pair.client = some buffer → proxy.clientInput key = some buffer :=
    fun _ _ same _ => absurd same different
  rw [clientProcessData]
  split
  next absent => exact .refl key proxy
  next pair found =>
    split
    next short => exact ⟨fun _ => .inl, id, id, rfl⟩
    next whole =>
      split
      next write =>
        simp only
        split
        next fits =>
          have counted : Apart key proxy
              (proxy.setPair other { pair with counter := pair.counter + 1 }) :=
            apart_setPair _ fun same => absurd same different
          exact counted.trans (apart_submit _ fun write => different write.2)
        next huge => exact ⟨fun _ => .inl, id, id, rfl⟩
      next unknown => exact .refl key proxy

/-- The frames of another connection. -/
private theorem apart_frames (different : other ≠ key) (frames : List (List UInt8))
    (proxy : ProxyNode) :
    Apart key proxy (frames.foldl (fun proxy frame =>
      if proxy.fault.isSome then proxy else clientProcessData env other proxy frame) proxy) := by
  induction frames generalizing proxy with
  | nil => exact .refl key proxy
  | cons frame frames ih =>
    rw [List.foldl_cons]
    split
    next faulty => exact ih proxy
    next running => exact (apart_clientProcessData different frame).trans (ih _)

theorem apart_clientSideOnRead (different : other ≠ key) (chunk : List UInt8) :
    Apart key proxy (proxy.clientSideOnRead env other chunk) := by
  rw [clientSideOnRead]
  split
  next absent => exact .refl key proxy
  next pair found =>
    split
    next closed => exact .refl key proxy
    next input client =>
      simp only
      split
      next endless => exact ⟨fun _ => .inl, id, id, rfl⟩
      next frames rest read =>
        have taken : Apart key proxy (proxy.setPair other { pair with client := some rest }) :=
          apart_setPair _ fun same => absurd same different
        exact taken.trans (apart_frames different frames _)

theorem apart_serverSideOnRead (bytes : List UInt8) :
    Apart key proxy (proxy.serverSideOnRead other bytes) := by
  rw [serverSideOnRead]
  split
  next absent => exact .refl key proxy
  next pair found =>
    split
    next client => exact ⟨fun _ => .inl, id, id, rfl⟩
    next drained => exact .refl key proxy

/-- What a call of the log does to the server. -/
theorem apart_issue (action : ServerAction) : Apart key proxy (proxy.issue other action) :=
  ⟨fun _ => .inl, id, id, rfl⟩

theorem apart_doActionConnect : Apart key proxy (proxy.doActionConnect other) := by
  have kept : ∀ buffer, ((proxy.hashMap other).getD ⟨0, false, none⟩).client = some buffer →
      proxy.clientInput other = some buffer := by
    intro buffer client
    rw [clientInput]
    cases found : proxy.hashMap other with
    | none =>
      rw [found] at client
      cases client
    | some pair =>
      rw [found] at client
      exact client
  rw [doActionConnect]
  generalize (proxy.hashMap other).getD ⟨0, false, none⟩ = pair at kept
  have set : Apart key proxy (proxy.setPair other pair) := by
    apply apart_setPair
    rintro rfl
    exact kept
  split
  next opened => exact set
  next closed =>
    refine (set.trans (apart_setPair _ ?_)).trans (apart_issue _)
    rintro rfl buffer client
    rw [clientInput_setPair, if_pos rfl]
    exact client

theorem apart_doActionSend (bytes : List UInt8) :
    Apart key proxy (proxy.doActionSend other bytes) := by
  rw [doActionSend]
  split
  next absent => exact .refl key proxy
  next pair found =>
    split
    next opened => exact apart_issue _
    next closed => exact .refl key proxy

theorem apart_doActionClose : Apart key proxy (proxy.doActionClose other) := by
  rw [doActionClose]
  split
  next absent => exact .refl key proxy
  next pair found =>
    have dropped : Apart key proxy
        (proxy.setPair other { pair with server := false, client := none }) :=
      apart_setPair _ fun _ _ some => absurd some (Option.some_ne_none _).symm
    simp only
    split
    next opened => exact dropped.trans (apart_issue _)
    next closed => exact dropped

theorem apart_doActionToServer (data : Memory) :
    Apart key proxy (proxy.doActionToServer data) := by
  rw [doActionToServer]
  split
  next connect => exact apart_doActionConnect
  next send => exact apart_doActionSend _
  next close => exact apart_doActionClose
  next unknown => exact .refl key proxy

theorem apart_onAccept (sec : UInt64)
    (fresh : proxy.hashMap (genKey proxy.nodeId proxy.pairCount sec) = none) :
    Apart key proxy (proxy.onAccept env sec) := by
  rw [onAccept]
  split
  next connected =>
    simp only
    generalize genKey proxy.nodeId proxy.pairCount sec = other at fresh
    rw [submitPair]
    refine Apart.trans ?_ (apart_submit _ fun write => ProxyAction.noConfusion write.1)
    refine ⟨?_, hashMap_setPair_none, id, rfl⟩
    intro buffer found
    rw [clientInput_setPair] at found
    split at found
    next same =>
      subst same
      exact .inr ⟨(Option.some.inj found).symm, fresh, connected⟩
    next different => exact .inl found
  next lost => exact .refl key proxy

end Apart

/-! ## A read on the connection -/

section Read

variable {key : UInt64} (env : ProxyEnv) (proxy : ProxyNode)

/-- A write frame becomes one request of the connection. -/
theorem clientProcessData_write (msg : ClientMsg) (fits : msg.data.length < 2 ^ 64)
    (pair : SocketPair) (found : proxy.hashMap key = some pair) (connected : proxy.conConn = true) :
    proxy.clientProcessData env key msg.bytes =
      { proxy.setPair key { pair with counter := pair.counter + 1 } with
        requests := proxy.requests ++
          [buildReqSubMsg env (proxyMsg env key pair.counter .send msg.data fits)] } := by
  have whole : ¬ msg.bytes.length < 16 := by
    rw [ClientMsg.bytes, List.length_append, length_headerBytes]
    omega
  have type : littleEndianValue (msg.bytes.take 4) = 0 := by
    have first : msg.bytes.take 4 = littleEndian 4 0 := by
      rw [ClientMsg.bytes, headerBytes, List.append_assoc, List.append_assoc]
      exact List.take_left' (length_littleEndian 4 0)
    rw [first, littleEndianValue_littleEndian, Nat.zero_mod]
  have data : msg.bytes.drop 16 = msg.data := List.drop_left' (length_headerBytes _ _ _)
  have there : (proxy.setPair key { pair with counter := pair.counter + 1 }).conConn = true :=
    connected
  rw [clientProcessData, found]
  simp only [if_neg whole, if_pos type, data, dif_pos fits]
  rw [submit, if_pos there]
  rfl

/-- The frames of one call: their payloads are submitted in order, and the input is left alone. -/
theorem relay_frames (msgs : List ClientMsg) (fits : ∀ msg ∈ msgs, msg.data.length < 2 ^ 64)
    (pair : SocketPair) (found : proxy.hashMap key = some pair) (running : proxy.fault = none)
    (connected : proxy.conConn = true) :
    let after := (msgs.map ClientMsg.bytes).foldl (fun proxy frame =>
      if proxy.fault.isSome then proxy else clientProcessData env key proxy frame) proxy
    (∃ counter, after.hashMap key = some { pair with counter := counter }) ∧
      after.conConn = true ∧
      writesOn key after.requests = writesOn key proxy.requests ++ msgs.map ClientMsg.data := by
  induction msgs generalizing proxy pair with
  | nil => exact ⟨⟨pair.counter, found⟩, connected, (List.append_nil _).symm⟩
  | cons msg msgs ih =>
    have small := fits msg List.mem_cons_self
    have step := clientProcessData_write env proxy msg small pair found connected
    simp only [List.map_cons, List.foldl_cons, running, Option.isSome_none, Bool.false_eq_true,
      if_false]
    rw [step]
    obtain ⟨⟨counter, last⟩, connected', writes⟩ := ih
      { proxy.setPair key { pair with counter := pair.counter + 1 } with
        requests := proxy.requests ++
          [buildReqSubMsg env (proxyMsg env key pair.counter .send msg.data small)] }
      (fun other member => fits other (List.mem_cons_of_mem _ member))
      { pair with counter := pair.counter + 1 } (hashMap_setPair_self _) running connected
    refine ⟨⟨counter, last⟩, connected', ?_⟩
    have own : isWrite key (buildReqSubMsg env
        (proxyMsg env key pair.counter .send msg.data small)) = true := decide_eq_true ⟨rfl, rfl⟩
    rw [writes]
    simp only [writesOn, List.filter_append, List.filter_cons_of_pos own, List.filter_nil,
      List.map_append, List.map_cons, List.map_nil, List.append_assoc, List.cons_append,
      List.nil_append]
    rfl

end Read

/-! ## Runs -/

/-- Of the client's frames those that have arrived whole are submitted; what has arrived of the
next one is kept, and `ahead` has not arrived. -/
structure Relays (key : UInt64) (msgs : List ClientMsg) (ahead : List UInt8)
    (proxy : ProxyNode) : Prop where
  back : ∃ done later input, msgs = done ++ later ∧
    input ++ ahead = (later.map ClientMsg.bytes).flatten ∧
    (∀ msg ∈ later.head?, input.length < msg.bytes.length) ∧
    writesOn key proxy.requests = done.map ClientMsg.data ∧
    (∀ buffer, proxy.clientInput key = some buffer → buffer = input ∧ proxy.conConn = true) ∧
    (proxy.hashMap key = none → input = [])

theorem length_clientMsg (msg : ClientMsg) : msg.bytes.length = 16 + msg.data.length := by
  rw [ClientMsg.bytes, List.length_append, length_headerBytes]

section Run

variable {key : UInt64} {msgs : List ClientMsg} {ahead chunk : List UInt8}
  {proxy proxy' : ProxyNode} {env : ProxyEnv}

/-- Before anything has arrived. -/
theorem relays_init (nodeId : UInt32) (key : UInt64) (msgs : List ClientMsg) :
    Relays key msgs (msgs.map ClientMsg.bytes).flatten (init nodeId) := by
  refine ⟨[], msgs, [], rfl, rfl, ?_, rfl, ?_, fun _ => rfl⟩
  · intro msg first
    rw [length_clientMsg, List.length_nil]
    omega
  · intro buffer found
    cases found

theorem Relays.apart (relays : Relays key msgs ahead proxy) (apart : Apart key proxy proxy') :
    Relays key msgs ahead proxy' := by
  obtain ⟨done, later, input, split, stream, short, writes, opened, absent⟩ := relays
  refine ⟨done, later, input, split, stream, short, apart.writes.trans writes, ?_,
    fun none => absent (apart.absent none)⟩
  intro buffer found
  rcases apart.input buffer found with kept | ⟨rfl, none, connected⟩
  · obtain ⟨same, connected⟩ := opened buffer kept
    exact ⟨same, apart.connected connected⟩
  · exact ⟨(absent none).symm, connected⟩

/-- A chunk from the client. -/
theorem Relays.read (relays : Relays key msgs (chunk ++ ahead) proxy)
    (small : ∀ msg ∈ msgs, msg.data.length + 16 < 2 ^ 64) (running : proxy.fault = none)
    (client : proxy.hasClient key = true) :
    Relays key msgs ahead (proxy.clientSideOnRead env key chunk) := by
  obtain ⟨done, later, input, rfl, stream, -, writes, opened, -⟩ := relays
  obtain ⟨pair, found⟩ : ∃ pair, proxy.hashMap key = some pair := by
    cases found : proxy.hashMap key with
    | none => simp [hasClient, found] at client
    | some pair => exact ⟨pair, rfl⟩
  rw [hasClient_of_pair found, Option.isSome_iff_exists] at client
  obtain ⟨buffer, client⟩ := client
  obtain ⟨rfl, connected⟩ := opened buffer (by rw [clientInput_of_pair found, client])
  have whole : ∀ frame ∈ later.map ClientMsg.bytes, IsFrame 16 clientTotal frame := by
    intro frame member
    obtain ⟨msg, listed, rfl⟩ := List.mem_map.mp member
    exact isFrame_client 0 msg.padding msg.data (small msg (List.mem_append_right _ listed))
  rw [← List.append_assoc] at stream
  obtain ⟨frames, rest, taken, frames', split, left, short⟩ := readFrames_readOf 16 clientTotal
    (by omega) _ whole (buffer ++ chunk) ahead ((buffer ++ chunk).length + 1)
    (Nat.lt_succ_self _) stream
  -- the frames that are whole now are those of the next messages
  obtain ⟨read, later, rfl, rfl, rfl⟩ := List.map_eq_append_iff.mp split
  obtain ⟨⟨counter, last⟩, connected', writes'⟩ := relay_frames env
    (proxy.setPair key { pair with client := some rest }) read
    (fun msg member => by
      have fits := small msg (List.mem_append_right _ (List.mem_append_left _ member))
      omega)
    _ (hashMap_setPair_self _) running connected
  rw [clientSideOnRead, found]
  simp only [client, taken]
  refine ⟨done ++ read, later, rest, (List.append_assoc _ _ _).symm, left, ?_, ?_, ?_, ?_⟩
  · intro msg first
    exact short msg.bytes (by rw [List.head?_map, Option.mem_map]; exact ⟨msg, first, rfl⟩)
  · rw [writes', List.map_append, ← writes]
    rfl
  · intro buffer' found'
    rw [clientInput_of_pair last] at found'
    exact ⟨(Option.some.inj found').symm, connected'⟩
  · intro none
    rw [last] at none
    cases none

/-- One event: of the client's stream a read takes its chunk, all others take nothing. -/
theorem Relays.dispatch (e : ProxyEnv × ProxyEvent)
    (relays : Relays key msgs ((readsOn key [e]).flatten ++ ahead) proxy)
    (small : ∀ msg ∈ msgs, msg.data.length + 16 < 2 ^ 64) (steady : Steady proxy e)
    (enabled : machine.enabled proxy e) : Relays key msgs ahead (proxy.dispatch e) := by
  obtain ⟨env, event⟩ := e
  obtain ⟨running, offered⟩ := enabled
  cases event with
  | connectConsensus => exact relays.apart ⟨fun _ => .inl, id, fun _ => rfl, rfl⟩
  | loseConsensus => exact absurd rfl steady.2
  | accept sec => exact relays.apart (apart_onAccept sec steady.1)
  | clientRead other chunk =>
    by_cases same : other = key
    · subst same
      have chunks : (readsOn other [(env, .clientRead other chunk)]).flatten = chunk := by
        simp [readsOn]
      rw [chunks] at relays
      exact relays.read small running offered
    · have chunks : readsOn key [(env, .clientRead other chunk)] = [] := by
        simp [readsOn, same]
      rw [chunks] at relays
      exact relays.apart (apart_clientSideOnRead same chunk)
  | clientErr other => exact relays.apart apart_sideOnErr
  | serverRead other bytes => exact relays.apart (apart_serverSideOnRead bytes)
  | serverErr other => exact relays.apart apart_sideOnErr
  | execute msg => exact relays.apart (apart_doActionToServer _)

/-- A whole run. -/
theorem relays_run (events : List (ProxyEnv × ProxyEvent))
    (small : ∀ msg ∈ msgs, msg.data.length + 16 < 2 ^ 64)
    (relays : Relays key msgs ((readsOn key events).flatten ++ ahead) proxy)
    (run : machine.Accepts Steady proxy events) :
    Relays key msgs ahead (events.foldl machine.apply proxy) := by
  induction events generalizing proxy with
  | nil => exact relays
  | cons e events ih =>
    obtain ⟨steady, enabled, rest⟩ := run
    have split : (readsOn key (e :: events)).flatten =
        (readsOn key [e]).flatten ++ (readsOn key events).flatten := by
      rw [← List.flatten_append, readsOn, readsOn, readsOn, ← List.filterMap_append]
      rfl
    rw [split, List.append_assoc] at relays
    exact ih (relays.dispatch e small steady enabled) rest

/-- When all has arrived, all is submitted. -/
theorem Relays.all (relays : Relays key msgs [] proxy) :
    writesOn key proxy.requests = msgs.map ClientMsg.data := by
  obtain ⟨done, later, input, rfl, stream, short, writes, -⟩ := relays
  cases later with
  | nil => rw [writes, List.append_nil]
  | cons msg later =>
    -- the input would have to hold the frame it is shorter than
    have less := short msg rfl
    rw [List.append_nil] at stream
    rw [stream, List.map_cons, List.flatten_cons, List.length_append] at less
    omega

end Run

/-- Whatever else happens at the proxy and however the client's stream is cut: the payloads that
are submitted for the connection are those of the client's frames. -/
theorem submits_payloads (nodeId : UInt32) (events : List (ProxyEnv × ProxyEvent)) (key : UInt64)
    (msgs : List ClientMsg) (small : ∀ msg ∈ msgs, msg.data.length + 16 < 2 ^ 64)
    (run : machine.Accepts Steady (init nodeId) events)
    (stream : (readsOn key events).flatten = (msgs.map ClientMsg.bytes).flatten) :
    writesOn key (events.foldl machine.apply (init nodeId)).requests =
      msgs.map ClientMsg.data := by
  have start := relays_init nodeId key msgs
  rw [← stream, ← List.append_nil (readsOn key events).flatten] at start
  exact (relays_run events small start run).all

end ProxyNode

end LibeventPaxos
