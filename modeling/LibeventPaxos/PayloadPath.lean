import LibeventPaxos.ClientStream

/-!
Execution of stored requests, and the whole way of a client's payloads: what every replica writes
to its server is what the client sent.
-/
namespace LibeventPaxos

open Lib

/-! ## Submissions -/

/-- The data of a submission is a write on the connection. -/
def writesTo (key : UInt64) (data : List UInt8) : Bool :=
  let msg := Memory.placed data Memory.zero
  decide (actionAt msg = some .send ∧ connectionIdAt msg = key)

@[simp] theorem writesTo_bytes (key : UInt64) (request : ReqSubMsg) :
    writesTo key request.msg.bytes = ProxyNode.isWrite key request := by
  simp only [writesTo, ProxyNode.isWrite]
  rw [decide_eq_decide, actionAt_placed, connectionIdAt_placed, Option.some.injEq]

/-- A connect and a close are the header alone. -/
theorem ProxyMsg.length_bytes_control (msg : ProxyMsg) (control : msg.action ≠ .send) :
    msg.bytes.length = 56 := by
  cases kind : msg.action with
  | send => exact absurd kind control
  | connect => simp only [bytes, body, kind, List.append_nil, length_header]
  | close => simp only [bytes, body, kind, List.append_nil, length_header]

theorem submissionOf_bytes (request : ReqSubMsg) (behind : Memory)
    (fits : request.msg.bytes.length < 2 ^ 64) :
    submissionOf request.bytes behind = some request.msg.bytes := by
  have data := Memory.bytesAt_placed [] request.msg.bytes [] behind
  rw [List.nil_append, List.append_nil, List.length_nil] at data
  rw [submissionOf]
  simp only [ReqSubMsg.bytes, code_frame 2 _ _ behind (by decide), size_frame 2 _ _ behind fits,
    offset_frame, data, if_true]

namespace ProxyNode

/-! ## Execution -/

/-- `real_do_action` on a record: `do_action_to_server(data->data_size,data->data,proxy)`. -/
def executeRecord (proxy : ProxyNode) (entry : RequestRecord × Memory) : ProxyNode :=
  proxy.doActionToServer ((Memory.placed entry.1.bytes entry.2).offset 33)

/-- The connection a record belongs to. -/
def onConnection (key : UInt64) (entry : RequestRecord × Memory) : Bool :=
  decide (connectionIdAt ((Memory.placed entry.1.bytes entry.2).offset 33) = key)

/-- The bytes `do_action_send` has written to the server of a connection. -/
def writtenTo (proxy : ProxyNode) (key : UInt64) : List UInt8 :=
  ((proxy.actionsOn key).map fun action => match action with
    | .write bytes => bytes
    | .connect => []
    | .close => []).flatten

/-- `data` of a record lies behind its header. -/
theorem offset_record (record : RequestRecord) (behind : Memory) :
    (Memory.placed record.bytes behind).offset 33 = Memory.placed record.data behind := by
  have rest := Memory.offset_placed (record.stateBytes ++ littleEndian 8 record.data.length)
    record.data behind
  rw [List.length_append, RequestRecord.length_stateBytes, length_littleEndian] at rest
  rw [RequestRecord.bytes, RequestRecord.payloadBytes, ← List.append_assoc]
  exact rest

section Execute

variable {key : UInt64} (proxy : ProxyNode)

/-- A record of another connection. -/
theorem executeRecord_other (entry : RequestRecord × Memory)
    (elsewhere : onConnection key entry = false) :
    (proxy.executeRecord entry).hasServer key = proxy.hasServer key ∧
      (proxy.executeRecord entry).actionsOn key = proxy.actionsOn key := by
  have apart : connectionIdAt ((Memory.placed entry.1.bytes entry.2).offset 33) ≠ key :=
    of_decide_eq_false elsewhere
  rw [executeRecord, doActionToServer]
  generalize connectionIdAt _ = other at apart
  have different : ¬ key = other := fun same => apart same.symm
  split
  next connect =>
    rw [doActionConnect]
    split
    next opened =>
      rw [hasServer_setPair, if_neg different]
      exact ⟨rfl, rfl⟩
    next closed =>
      rw [actionsOn_issue, if_neg apart]
      change ((proxy.setPair other _).setPair other _).hasServer key = _ ∧ _
      rw [hasServer_setPair, if_neg different, hasServer_setPair, if_neg different]
      exact ⟨rfl, rfl⟩
  next send =>
    rw [doActionSend]
    split
    next absent => exact ⟨rfl, rfl⟩
    next pair found =>
      split
      next opened =>
        rw [actionsOn_issue, if_neg apart]
        exact ⟨rfl, rfl⟩
      next closed => exact ⟨rfl, rfl⟩
  next close =>
    rw [doActionClose]
    split
    next absent => exact ⟨rfl, rfl⟩
    next pair found =>
      simp only
      split
      next opened =>
        rw [actionsOn_issue, if_neg apart]
        change (proxy.setPair other _).hasServer key = _ ∧ _
        rw [hasServer_setPair, if_neg different]
        exact ⟨rfl, rfl⟩
      next closed =>
        rw [hasServer_setPair, if_neg different]
        exact ⟨rfl, rfl⟩
  next unknown => exact ⟨rfl, rfl⟩

/-- A write on the connection. -/
theorem executeRecord_write (entry : RequestRecord × Memory) (request : ReqSubMsg)
    (data : entry.1.data = request.msg.bytes) (write : isWrite key request = true)
    (opened : proxy.hasServer key = true) :
    proxy.executeRecord entry = proxy.issue key (.write request.msg.data) := by
  obtain ⟨send, rfl⟩ := of_decide_eq_true write
  rw [executeRecord, offset_record, data, doActionToServer, actionAt_placed, send]
  simp only [connectionIdAt_placed, sendDataAt_placed request.msg entry.2 send]
  rw [doActionSend]
  split
  next absent => simp [hasServer, absent] at opened
  next pair found => rw [if_pos (by rw [← hasServer_of_pair found, opened])]

/-- Records that are executed in order, with those of other connections in between. -/
theorem execute_writes (log : List (RequestRecord × Memory)) (requests : List ReqSubMsg)
    (writes : ∀ request ∈ requests, isWrite key request = true)
    (inOrder : (log.filter (onConnection key)).map (fun entry => entry.1.data) =
      requests.map fun request => request.msg.bytes)
    (opened : proxy.hasServer key = true) :
    (log.foldl executeRecord proxy).actionsOn key =
      proxy.actionsOn key ++ requests.map fun request => .write request.msg.data := by
  induction log generalizing requests proxy with
  | nil =>
    cases requests with
    | nil => exact (List.append_nil _).symm
    | cons request requests => cases inOrder
  | cons entry log ih =>
    rw [List.foldl_cons]
    cases own : onConnection key entry with
    | false =>
      obtain ⟨server, actions⟩ := executeRecord_other proxy entry own
      rw [List.filter_cons_of_neg (by rw [own]; decide)] at inOrder
      rw [ih _ requests writes inOrder (by rw [server, opened]), actions]
    | true =>
      rw [List.filter_cons_of_pos own] at inOrder
      cases requests with
      | nil => cases inOrder
      | cons request requests =>
        rw [List.map_cons, List.map_cons] at inOrder
        obtain ⟨data, rest⟩ := List.cons.inj inOrder
        have step := executeRecord_write proxy entry request data
          (writes request List.mem_cons_self) opened
        have later := ih (proxy.issue key (.write request.msg.data)) requests
          (fun other member => writes other (List.mem_cons_of_mem _ member)) rest opened
        rw [step, later, actionsOn_issue, if_pos rfl, List.map_cons, List.append_assoc]
        rfl

end Execute

/-! ## From the client to the servers -/

/-- However their stream is cut, the requests of a proxy are taken out of it one by one. -/
theorem requests_taken (requests : List ReqSubMsg)
    (small : ∀ request ∈ requests, request.msg.bytes.length + 16 < 2 ^ 31)
    (chunks : List (List UInt8))
    (stream : chunks.flatten = (requests.map ReqSubMsg.bytes).flatten) :
    readChunks 16 sysTotal [] chunks = some (requests.map ReqSubMsg.bytes, []) := by
  have whole : ∀ frame ∈ requests.map ReqSubMsg.bytes, IsFrame 16 sysTotal frame := by
    intro frame member
    obtain ⟨request, listed, rfl⟩ := List.mem_map.mp member
    exact isFrame_sys 2 request.padding request.msg.bytes (small request listed)
  apply readChunks_frames 16 sysTotal (by omega) _ whole
  · intro frame first
    have long := (whole frame (List.mem_of_mem_head? first)).whole
    rw [List.length_nil]
    omega
  · rw [List.nil_append, stream]

/-- The component is given the messages of the requests. -/
theorem requests_arrive (requests : List ReqSubMsg)
    (small : ∀ request ∈ requests, request.msg.bytes.length + 16 < 2 ^ 31)
    (chunks : List (List UInt8))
    (stream : chunks.flatten = (requests.map ReqSubMsg.bytes).flatten)
    (frames : List (List UInt8 × Memory))
    (taken : readChunks 16 sysTotal [] chunks = some (frames.map Prod.fst, [])) :
    frames.filterMap (fun frame => submissionOf frame.1 frame.2) =
      requests.map fun request => request.msg.bytes := by
  have same : frames.map Prod.fst = requests.map ReqSubMsg.bytes := by
    rw [requests_taken requests small chunks stream] at taken
    exact (Prod.mk.inj (Option.some.inj taken)).1.symm
  clear taken stream
  induction requests generalizing frames with
  | nil =>
    rw [List.map_nil, List.map_eq_nil_iff] at same
    rw [same]
    rfl
  | cons request requests ih =>
    cases frames with
    | nil => cases same
    | cons frame frames =>
      rw [List.map_cons, List.map_cons] at same
      obtain ⟨first, rest⟩ := List.cons.inj same
      have fits := small request List.mem_cons_self
      have here : submissionOf frame.1 frame.2 = some request.msg.bytes := by
        rw [first]
        exact submissionOf_bytes request frame.2 (by omega)
      have later := ih (fun other member => small other (List.mem_cons_of_mem _ member)) frames rest
      simp only [List.filterMap_cons, here, later, List.map_cons]

/-- Among them the writes of one connection. -/
theorem writes_arrive (requests : List ReqSubMsg)
    (small : ∀ request ∈ requests, request.msg.bytes.length + 16 < 2 ^ 31) (key : UInt64)
    (chunks : List (List UInt8))
    (stream : chunks.flatten = (requests.map ReqSubMsg.bytes).flatten)
    (frames : List (List UInt8 × Memory))
    (taken : readChunks 16 sysTotal [] chunks = some (frames.map Prod.fst, [])) :
    (frames.filterMap fun frame => submissionOf frame.1 frame.2).filter (writesTo key) =
      (requests.filter (isWrite key)).map fun request => request.msg.bytes := by
  have same : writesTo key ∘ (fun request : ReqSubMsg => request.msg.bytes) = isWrite key := by
    funext request
    rw [Function.comp_apply, writesTo_bytes]
  rw [requests_arrive requests small chunks stream frames taken, List.filter_map, same]

/-- Records that are stored for submissions have their data. -/
theorem data_of_stores (submissions : List (List UInt8)) (records : List RequestRecord)
    (stored : List.Forall₂ Comp.Stores submissions records)
    (small : ∀ data ∈ submissions, data.length + 85 < 2 ^ 31) :
    records.map RequestRecord.data = submissions := by
  induction stored with
  | nil => rfl
  | cons stores _ ih =>
    rw [List.map_cons, stores.data_eq (small _ List.mem_cons_self),
      ih fun data member => small data (List.mem_cons_of_mem _ member)]

/-- A client sends frames to a proxy, in any chunks and whatever else the proxy does; the proxy's
requests reach its component in any chunks; those of the connection are stored, by the leader
itself or through a follower, at the leader or at a follower; and a replica executes them in order,
with other records in between. Then the replica has written the client's payloads to its server. -/
theorem servers_receive_payloads (nodeId : UInt32) (events : List (ProxyEnv × ProxyEvent))
    (key : UInt64) (msgs : List ClientMsg) (small : ∀ msg ∈ msgs, msg.data.length + 149 < 2 ^ 31)
    (run : machine.Accepts Steady (init nodeId) events)
    (sent : (readsOn key events).flatten = (msgs.map ClientMsg.bytes).flatten)
    (others : ∀ request ∈ (events.foldl machine.apply (init nodeId)).requests,
      request.msg.connectionId ≠ key → request.msg.data.length + 149 < 2 ^ 31)
    (chunks : List (List UInt8))
    (stream : chunks.flatten =
      ((events.foldl machine.apply (init nodeId)).requests.map ReqSubMsg.bytes).flatten)
    (frames : List (List UInt8 × Memory))
    (taken : readChunks 16 sysTotal [] chunks = some (frames.map Prod.fst, []))
    (records : List RequestRecord)
    (stored : List.Forall₂ Comp.Stores
      ((frames.filterMap fun frame => submissionOf frame.1 frame.2).filter (writesTo key)) records)
    (replica : ProxyNode) (opened : replica.hasServer key = true)
    (log : List (RequestRecord × Memory))
    (inOrder : (log.filter (onConnection key)).map Prod.fst = records) :
    let replica' := log.foldl executeRecord replica
    replica'.actionsOn key =
        replica.actionsOn key ++ msgs.map (fun msg => .write msg.data) ∧
      replica'.writtenTo key = replica.writtenTo key ++ (msgs.map ClientMsg.data).flatten := by
  intro replica'
  have submitted := submits_payloads nodeId events key msgs
    (fun msg member => by have fits := small msg member; omega) run sent
  generalize (events.foldl machine.apply (init nodeId)).requests = requests at others stream submitted
  -- every request is short enough: a write of the connection has one of the payloads
  have payload : ∀ request ∈ requests, isWrite key request = true →
      request.msg.data.length + 149 < 2 ^ 31 := by
    intro request member write
    have listed : request.msg.data ∈ writesOn key requests :=
      List.mem_map.mpr ⟨request, List.mem_filter.mpr ⟨member, write⟩, rfl⟩
    rw [submitted] at listed
    obtain ⟨msg, inside, same⟩ := List.mem_map.mp listed
    rw [← same]
    exact small msg inside
  have short : ∀ request ∈ requests, request.msg.bytes.length + 85 < 2 ^ 31 := by
    intro request member
    have total := request.msg.length_bytes_le
    by_cases send : request.msg.action = .send
    · by_cases own : request.msg.connectionId = key
      · have fits := payload request member (decide_eq_true ⟨send, own⟩)
        omega
      · have fits := others request member own
        omega
    · rw [request.msg.length_bytes_control send]
      omega
  have own := writes_arrive requests
    (fun request member => by have fits := short request member; omega) key chunks stream frames
    taken
  rw [own] at stored
  have data := data_of_stores _ records stored (by
    intro bytes member
    obtain ⟨request, inside, rfl⟩ := List.mem_map.mp member
    exact short request (List.mem_of_mem_filter inside))
  have actions : replica'.actionsOn key =
      replica.actionsOn key ++ msgs.map (fun msg => .write msg.data) := by
    have executed := execute_writes replica log (requests.filter (isWrite key))
      (fun request member => (List.mem_filter.mp member).2)
      (by rw [← data, ← inOrder, List.map_map]; rfl) opened
    have written : (requests.filter (isWrite key)).map
        (fun request => ServerAction.write request.msg.data) =
        (writesOn key requests).map .write := by
      rw [writesOn, List.map_map]
      rfl
    rw [executed, written, submitted, List.map_map]
    rfl
  constructor
  · exact actions
  · rw [writtenTo, actions, List.map_append, List.flatten_append, List.map_map]
    rfl

/-- A client of the proxy of node 0 sends two frames in two chunks. -/
def writing : List (ProxyEnv × ProxyEvent) :=
  let stream := ClientMsg.bytes ⟨0, [4, 5]⟩ ++ ClientMsg.bytes ⟨0, [9]⟩
  [(zeroEnv, .connectConsensus), (zeroEnv, .accept 1), (zeroEnv, .clientRead 1 (stream.take 20)),
    (zeroEnv, .clientRead 1 (stream.drop 20))]

def written (counter : UInt64) (data : List UInt8) (fits : data.length < 2 ^ 64) : ReqSubMsg :=
  ⟨0, proxyMsg zeroEnv 1 counter .send data fits⟩

/-- The leader of three nodes stores a submission. -/
theorem stores_direct (data : List UInt8) :
    Comp.Stores data (Comp.submitRecord Comp.quietEnv (Comp.init true 0 3) data) :=
  .submitted Comp.quietEnv (Comp.init true 0 3) ⟨⟨1, 1⟩, rfl, (Option.some_ne_none _).symm⟩

/-- It stores one that a follower has forwarded. -/
theorem stores_forwarded (data : List UInt8) (small : data.length + 85 < 2 ^ 31) :
    Comp.Stores data (Comp.submitRecord Comp.quietEnv (Comp.init true 0 3) data) := by
  obtain ⟨nodeId, read⟩ :=
    Comp.consensusMsgAt_forwardReq (Comp.init false 1 3) data Memory.zero (by omega)
  have sent : ((Comp.init false 1 3).forwardReqBytes data).length = 20 + data.length := by
    simp only [Comp.forwardReqBytes, List.length_append, length_littleEndian]
  exact .forwarded Comp.quietEnv (Comp.init false 1 3) (Comp.init true 0 3) (.forwardReq nodeId data)
    (.of_decoded Memory.zero (by omega) read) ⟨⟨1, 1⟩, rfl, (Option.some_ne_none _).symm⟩

/-- A follower accepts it from the leader. -/
theorem stores_accepted (data : List UInt8) (small : data.length + 85 < 2 ^ 31)
    (earlier : Comp.Stores data (Comp.submitRecord Comp.quietEnv (Comp.init true 0 3) data)) :
    Comp.Stores data ⟨⟨0, 0⟩, 0, 0, data⟩ := by
  have record : ((Comp.init true 0 3).acceptReqBytes
      (Comp.submitRecord Comp.quietEnv (Comp.init true 0 3) data).bytes ⟨1, 1⟩).length =
      69 + data.length := by
    rw [Comp.acceptReqBytes, List.length_append, Comp.length_acceptReqHeader,
      RequestRecord.length_bytes, ← Nat.add_assoc]
    rfl
  refine .accepted Comp.quietEnv (Comp.init true 0 3) (Comp.init false 2 3) ⟨1, 1⟩ _
    earlier (.of_decoded Memory.zero (by omega)
      (Comp.consensusMsgAt_acceptReqBytes _ _ _ _)) ?_
  rw [Comp.handle_acceptReqAt Comp.quietEnv (Comp.init false 2 3) (Comp.init true 0 3)
    ⟨Comp.submitRecord Comp.quietEnv (Comp.init true 0 3) data, by
      change data.length < _
      omega⟩ ⟨1, 1⟩ Memory.zero (by decide)]
  exact ⟨⟨1, 1⟩, rfl, (Option.some_ne_none _).symm⟩

/-- What another follower executes: the copy it has accepted of the first write, a record of
another connection, and its copy of the second write. -/
def writtenLog : List (RequestRecord × Memory) :=
  [(⟨⟨0, 0⟩, 0, 0, (written 1 [4, 5] (by decide)).msg.bytes⟩, Memory.zero),
    (⟨⟨0, 0⟩, 0, 0, []⟩, Memory.zero),
    (⟨⟨0, 0⟩, 0, 0, (written 2 [9] (by decide)).msg.bytes⟩, Memory.zero)]

/-- The requests of the run: a connect and the two writes. -/
def writingRequests : List ReqSubMsg := (writing.foldl machine.apply (init 0)).requests

theorem writing_reaches_server :
    let replica := writtenLog.foldl executeRecord ((init 2).doActionConnect 1)
    replica.actionsOn 1 = ((init 2).doActionConnect 1).actionsOn 1 ++
        [⟨0, [4, 5]⟩, ⟨0, [9]⟩].map (fun msg : ClientMsg => .write msg.data) ∧
      replica.writtenTo 1 = ((init 2).doActionConnect 1).writtenTo 1 ++
        ([⟨0, [4, 5]⟩, ⟨0, [9]⟩].map ClientMsg.data).flatten := by
  have data : ∀ request ∈ writingRequests, request.msg.data.length < 3 := by decide
  have small : ∀ request ∈ writingRequests, request.msg.bytes.length + 16 < 2 ^ 31 := by
    intro request member
    have total := request.msg.length_bytes_le
    have short := data request member
    omega
  have taken := requests_taken writingRequests small
    [(writingRequests.map ReqSubMsg.bytes).flatten] (by simp)
  have arrived : readChunks 16 sysTotal [] [(writingRequests.map ReqSubMsg.bytes).flatten] =
      some ((writingRequests.map fun request => (request.bytes, Memory.zero)).map Prod.fst, []) := by
    rw [taken, List.map_map]
    rfl
  have writes : (writingRequests.filter (isWrite 1)).map (fun request => request.msg.bytes) =
      [(written 1 [4, 5] (by decide)).msg.bytes, (written 2 [9] (by decide)).msg.bytes] := rfl
  have size : ∀ counter data fits, data.length < 3 →
      (written counter data fits).msg.bytes.length + 85 < 2 ^ 31 := by
    intro counter data fits short
    have total := (written counter data fits).msg.length_bytes_le
    change _ ≤ 64 + data.length at total
    omega
  refine servers_receive_payloads 0 writing 1 [⟨0, [4, 5]⟩, ⟨0, [9]⟩] (by decide)
    ⟨⟨trivial, by simp⟩, by decide, ⟨rfl, by simp⟩, by decide, ⟨trivial, by simp⟩, by decide,
      ⟨trivial, by simp⟩, by decide, trivial⟩
    (by decide)
    (fun request member _ => by
      have short := data request member
      omega)
    [(writingRequests.map ReqSubMsg.bytes).flatten] (List.append_nil _)
    (writingRequests.map fun request => (request.bytes, Memory.zero)) arrived
    [⟨⟨0, 0⟩, 0, 0, (written 1 [4, 5] (by decide)).msg.bytes⟩,
      ⟨⟨0, 0⟩, 0, 0, (written 2 [9] (by decide)).msg.bytes⟩] ?_
    ((init 2).doActionConnect 1) rfl writtenLog rfl
  rw [writes_arrive writingRequests small 1 [(writingRequests.map ReqSubMsg.bytes).flatten]
    (List.append_nil _) (writingRequests.map fun request => (request.bytes, Memory.zero)) arrived,
    writes]
  have direct := stores_direct (written 1 [4, 5] (by decide)).msg.bytes
  have forwarded := stores_forwarded (written 2 [9] (by decide)).msg.bytes
    (size 2 [9] _ (by decide))
  exact .cons (stores_accepted _ (size 1 [4, 5] _ (by decide)) direct)
    (.cons (stores_accepted _ (size 2 [9] _ (by decide)) forwarded) .nil)

end ProxyNode

end LibeventPaxos
