import LibeventPaxos.Connections
import LibeventPaxos.ConsensusFrame

/-!
The bytes of a request between nodes: its submission, `FORWARD_REQ` and `ACCEPT_REQ` in frames of a
stream, and the record. Wherever the request is stored, its data is what was submitted.
-/
namespace LibeventPaxos

open Lib

/-! ## Messages between nodes -/

/-- `SYS_MSG_HEADER_SIZE+data_size` of a frame, where `data_size` went through an int. -/
def sysTotal (header : List UInt8) : ℕ :=
  ((16 + (littleEndianValue (header.drop 8) : Int).bmod (2 ^ 32)) % 2 ^ 64).toNat

/-- `build_consensus_msg`, whose `data_size` is a `uint32_t`. -/
def buildConsensusMsg (padding : UInt32) (data : List UInt8) : List UInt8 :=
  let dataSize := data.length % 2 ^ 32
  headerBytes 5 padding dataSize ++ data.take dataSize

/-- `build_forward_req`. -/
def Comp.forwardReqBytes (c : Comp) (data : List UInt8) : List UInt8 :=
  littleEndian 4 5 ++ littleEndian 8 c.nodeId ++ littleEndian 8 data.length ++ data

/-- A received message read as a `forward_req`. -/
def forwardReqAt (m : Memory) : ConsensusMsg :=
  .forwardReq (signedAt m 4 8) (m.bytesAt 20 (m.wordAt 12 8))

/-- The cases of `consensus_handle_msg` on the way of a request. -/
def consensusMsgAt (m : Memory) : Option ConsensusMsg :=
  match m.wordAt 0 4 with
  | 0 => some (acceptReqAt m)
  | 5 => some (forwardReqAt m)
  | _ => none

/-- `handle_msg` with `handle_consensus_msg`: what the component is given of a frame. -/
def consensusMsgOf (frame : List UInt8) (behind : Memory) : Option ConsensusMsg :=
  let msg := Memory.placed frame behind
  if msg.wordAt 0 4 = 5 then consensusMsgAt (msg.offset 16) else none

/-- `handle_msg` with `handle_request_submit`: the data of a submission. -/
def submissionOf (frame : List UInt8) (behind : Memory) : Option (List UInt8) :=
  let msg := Memory.placed frame behind
  if msg.wordAt 0 4 = 2 then some ((msg.offset 16).bytesAt 0 (msg.wordAt 8 8)) else none

/-- What is sent as these bytes arrives as the message: it is wrapped, goes through a stream with
other frames, cut into any chunks, and is taken out of it. -/
def Received (sent : List UInt8) (msg : ConsensusMsg) : Prop :=
  ∃ padding before after chunks frames behind,
    (∀ frame ∈ before ++ after, IsFrame 16 sysTotal frame) ∧
    chunks.flatten = (before ++ buildConsensusMsg padding sent :: after).flatten ∧
    readChunks 16 sysTotal [] chunks = some (frames, []) ∧
    frames[before.length]?.bind (fun frame => consensusMsgOf frame behind) = some msg

/-! ## Records -/

namespace Comp

/-- The call has stored the record. -/
def HasStored (before after : Comp) (record : RequestRecord) : Prop :=
  ∃ vs, after.stored vs = some (.request record) ∧ before.stored vs ≠ some (.request record)

/-- The record comes from the submitted data: a leader has stored it, for a client of its own or of
a follower, or has counted an acknowledgement in it, or a follower has accepted it. -/
inductive Stores (data : List UInt8) : RequestRecord → Prop
  | submitted {record : RequestRecord} (env : Env) (c : Comp)
      (stored : HasStored c (consensusSubmitRequest env c data) record) : Stores data record
  | forwarded {record : RequestRecord} (env : Env) (follower c : Comp) (msg : ConsensusMsg)
      (received : Received (follower.forwardReqBytes data) msg)
      (stored : HasStored c (consensusHandleMsg env c msg) record) : Stores data record
  | acked {record updated : RequestRecord} (env : Env) (c : Comp) (vs : ViewStamp)
      (nodeId : NodeId) (earlier : Stores data record) (found : c.stored vs = some (.request record))
      (stored : (consensusHandleMsg env c (.acceptAck vs nodeId)).stored vs =
        some (.request updated)) : Stores data updated
  | accepted {record copied : RequestRecord} (env : Env) (c follower : Comp) (vs : ViewStamp)
      (msg : ConsensusMsg) (earlier : Stores data record)
      (received : Received (c.acceptReqBytes record.bytes vs) msg)
      (stored : HasStored follower (consensusHandleMsg env follower msg) copied) :
      Stores data copied

end Comp

/-! ## Frames -/

section Frames

variable (code : ℕ) (padding : UInt32) (data : List UInt8)

theorem dataSize_headerBytes (dataSize : ℕ) (fits : dataSize < 2 ^ 64) :
    littleEndianValue ((headerBytes code padding dataSize).drop 8) = dataSize := by
  have drop : (headerBytes code padding dataSize).drop 8 = littleEndian 8 dataSize := by
    rw [headerBytes]
    exact List.drop_left' (by rw [List.length_append, length_littleEndian, length_littleEndian])
  rw [drop, littleEndianValue_littleEndian, Nat.mod_eq_of_lt (by omega)]

theorem sysTotal_headerBytes (dataSize : ℕ) (small : dataSize + 16 < 2 ^ 31) :
    sysTotal (headerBytes code padding dataSize) = 16 + dataSize := by
  have size := dataSize_headerBytes code padding dataSize (by omega)
  have unsigned : (dataSize : Int).bmod (2 ^ 32) = dataSize :=
    Int.bmod_eq_of_le (by omega) (by omega)
  have whole : (16 + (dataSize : Int)) % 2 ^ 64 = ((16 + dataSize : ℕ) : Int) :=
    Int.emod_eq_of_lt (by omega) (by omega)
  unfold sysTotal
  rw [size, unsigned, whole, Int.toNat_natCast]

/-- The header of a frame is what a reader looks at first. -/
theorem take_frame : (headerBytes code padding data.length ++ data).take 16 =
    headerBytes code padding data.length :=
  List.take_left' (length_headerBytes _ _ _)

/-- Between nodes a frame stays whole below 2 GiB, where its size goes through an int. -/
theorem isFrame_sys (small : data.length + 16 < 2 ^ 31) :
    IsFrame 16 sysTotal (headerBytes code padding data.length ++ data) where
  whole := by
    rw [List.length_append, length_headerBytes]
    omega
  total := by
    rw [take_frame, sysTotal_headerBytes code padding _ small, List.length_append,
      length_headerBytes]

/-- From a client the size stays a `size_t`. -/
theorem isFrame_client (small : data.length + 16 < 2 ^ 64) :
    IsFrame 16 ProxyNode.clientTotal (headerBytes code padding data.length ++ data) where
  whole := by
    rw [List.length_append, length_headerBytes]
    omega
  total := by
    rw [take_frame, ProxyNode.clientTotal, dataSize_headerBytes code padding data.length (by omega),
      List.length_append, length_headerBytes]
    omega

theorem code_frame (behind : Memory) (fits : code < 256 ^ 4) :
    (Memory.placed (headerBytes code padding data.length ++ data) behind).wordAt 0 4 = code := by
  have read := wordAt_placed [] (littleEndian 4 padding.toNat ++
    (littleEndian 8 data.length ++ data)) behind 4 code fits
  rw [List.nil_append, List.length_nil] at read
  rw [headerBytes, List.append_assoc, List.append_assoc]
  exact read

theorem size_frame (behind : Memory) (fits : data.length < 2 ^ 64) :
    (Memory.placed (headerBytes code padding data.length ++ data) behind).wordAt 8 8 =
      data.length := by
  have read := wordAt_placed (littleEndian 4 code ++ littleEndian 4 padding.toNat) data behind 8
    data.length (by omega)
  rw [List.length_append, length_littleEndian, length_littleEndian] at read
  rw [headerBytes, List.append_assoc (_ ++ _)]
  exact read

theorem offset_frame (behind : Memory) :
    (Memory.placed (headerBytes code padding data.length ++ data) behind).offset 16 =
      Memory.placed data behind := by
  have behind_header := Memory.offset_placed (headerBytes code padding data.length) data behind
  rwa [length_headerBytes] at behind_header

end Frames

theorem buildConsensusMsg_eq (padding : UInt32) (data : List UInt8) (fits : data.length < 2 ^ 32) :
    buildConsensusMsg padding data = headerBytes 5 padding data.length ++ data := by
  simp only [buildConsensusMsg, Nat.mod_eq_of_lt fits, List.take_length]

/-- What is received is read off the bytes that were sent, whatever lies behind them. -/
theorem Received.decoded {sent : List UInt8} {msg : ConsensusMsg} (received : Received sent msg)
    (small : sent.length + 16 < 2 ^ 31) :
    ∃ behind, consensusMsgAt (Memory.placed sent behind) = some msg := by
  obtain ⟨padding, before, after, chunks, frames, behind, others, stream, read, decoded⟩ := received
  rw [buildConsensusMsg_eq padding sent (by omega)] at stream
  have whole : ∀ frame ∈ before ++ (headerBytes 5 padding sent.length ++ sent) :: after,
      IsFrame 16 sysTotal frame := by
    intro frame member
    rcases List.mem_append.mp member with early | late
    · exact others frame (List.mem_append_left _ early)
    · rcases List.mem_cons.mp late with this | late
      · rw [this]
        exact isFrame_sys 5 padding sent small
      · exact others frame (List.mem_append_right _ late)
  have taken := readChunks_frames 16 sysTotal (by omega) _ whole [] chunks
    (fun frame first => by
      have long := (whole frame (List.mem_of_mem_head? first)).whole
      rw [List.length_nil]
      omega)
    (by rw [List.nil_append, stream])
  obtain ⟨rfl, -⟩ := Prod.mk.inj (Option.some.inj (read.symm.trans taken))
  rw [List.getElem?_append_right (Nat.le_refl _), Nat.sub_self, List.getElem?_cons_zero,
    Option.bind_some, consensusMsgOf, code_frame 5 padding sent behind (by decide), if_pos rfl,
    offset_frame] at decoded
  exact ⟨behind, decoded⟩

/-- What can be read off the bytes is received when their frame comes alone. -/
theorem Received.of_decoded {sent : List UInt8} {msg : ConsensusMsg} (behind : Memory)
    (small : sent.length + 16 < 2 ^ 31)
    (decoded : consensusMsgAt (Memory.placed sent behind) = some msg) : Received sent msg := by
  have whole := isFrame_sys 5 0 sent small
  have built := buildConsensusMsg_eq 0 sent (by omega)
  have taken := readChunks_frames 16 sysTotal (by omega) [buildConsensusMsg 0 sent]
    (by rw [built]; simpa using whole) [] [buildConsensusMsg 0 sent]
    (by
      rintro frame ⟨⟩
      rw [built, List.length_append, length_headerBytes, List.length_nil]
      omega)
    rfl
  refine ⟨0, [], [], [buildConsensusMsg 0 sent], _, behind, by simp, rfl, taken, ?_⟩
  rw [List.length_nil, List.getElem?_cons_zero, Option.bind_some, consensusMsgOf, built,
    code_frame 5 0 sent behind (by decide), if_pos rfl, offset_frame, decoded]

/-! ## The two messages on the way -/

namespace Comp

theorem consensusMsgAt_forwardReq (c : Comp) (data : List UInt8) (behind : Memory)
    (fits : data.length < 2 ^ 64) :
    ∃ nodeId, consensusMsgAt (Memory.placed (c.forwardReqBytes data) behind) =
      some (.forwardReq nodeId data) := by
  have code := wordAt_placed [] (littleEndian 8 c.nodeId ++ (littleEndian 8 data.length ++ data))
    behind 4 5 (by decide)
  have size := wordAt_placed (littleEndian 4 5 ++ littleEndian 8 c.nodeId) data behind 8 data.length
    (by omega)
  have payload := Memory.bytesAt_placed
    (littleEndian 4 5 ++ littleEndian 8 c.nodeId ++ littleEndian 8 data.length) data [] behind
  simp only [List.nil_append, List.length_nil, List.length_append, length_littleEndian,
    Nat.reduceAdd, List.append_assoc, List.append_nil] at code size payload
  refine ⟨signedAt (Memory.placed (c.forwardReqBytes data) behind) 4 8, ?_⟩
  rw [consensusMsgAt]
  simp only [forwardReqBytes, forwardReqAt, List.append_assoc, code, size, payload]

theorem consensusMsgAt_acceptReqBytes (c : Comp) (bytes : List UInt8) (vs : ViewStamp)
    (behind : Memory) :
    consensusMsgAt (Memory.placed (c.acceptReqBytes bytes vs) behind) =
      some (acceptReqAt (Memory.placed (c.acceptReqBytes bytes vs) behind)) := by
  have code := wordAt_placed [] (stampBytes vs ++ (stampBytes c.highestToCommitVs ++
    (littleEndian 8 c.nodeId ++ (littleEndian 8 bytes.length ++ bytes)))) behind 4 0 (by decide)
  rw [List.nil_append, List.length_nil] at code
  rw [consensusMsgAt]
  simp only [acceptReqBytes, acceptReqHeader, List.append_assoc, code]

theorem consensusMsgAt_acceptReq (c : Comp) (record : SizedRecord) (vs : ViewStamp)
    (behind : Memory) :
    ∃ msgVs toCommit nodeId origin,
      consensusMsgAt (Memory.placed (c.acceptReqBytes record.bytes vs) behind) =
        some (.acceptReq msgVs toCommit nodeId origin) ∧ origin.data = record.data := by
  have read := recordAt_placed (c.acceptReqHeader record.bytes.length vs) [] behind record
  rw [length_acceptReqHeader, List.append_nil] at read
  exact ⟨_, _, _, _, consensusMsgAt_acceptReqBytes c record.bytes vs behind, read.2⟩

/-! ## What a call stores -/

/-- A record that the call has stored has this data. -/
theorem HasStored.data {before after : Comp} {record : RequestRecord}
    (stored : HasStored before after record) (vs : ViewStamp) (written : RequestRecord)
    (db : after.db = before.db ∨
      after.db = before.db.storeRecord (vstol vs) (.request written)) :
    record.data = written.data := by
  obtain ⟨other, found, new⟩ := stored
  rcases db with same | stores
  · rw [Comp.stored, same] at found
    exact absurd found new
  · rw [Comp.stored, stores, Database.retrieveRecord_storeRecord] at found
    split at found
    next here => rw [DbValue.request.inj (Option.some.inj found)]
    next elsewhere => exact absurd found new

theorem db_leaderHandleSubmitReq (env : Env) (c : Comp) (data : List UInt8) :
    (leaderHandleSubmitReq env c data).1.db = c.db ∨
      (leaderHandleSubmitReq env c data).1.db =
        c.db.storeRecord (vstol c.getNextViewStamp) (.request (submitRecord env c data)) := by
  rcases leaderHandleSubmitReq_cases env c data with
    ⟨-, failed⟩ | ⟨-, submitted, rfl, ⟨-, sent⟩ | ⟨-, executed⟩⟩
  · left
    rw [failed]
  · right
    rw [sent]
    rfl
  · right
    rw [executed, (sameRecords_tryToExecute env _).db]

theorem db_handleAcceptReq (env : Env) (c : Comp) (msgVs reqCanbeExed : ViewStamp)
    (nodeId : NodeId) (origin : RequestRecord) :
    (handleAcceptReq env c msgVs reqCanbeExed nodeId origin).db = c.db ∨
      (handleAcceptReq env c msgVs reqCanbeExed nodeId origin).db =
        c.db.storeRecord (vstol msgVs) (.request (acceptedRecord env origin)) := by
  rw [handleAcceptReq, (sameRecords_tryToExecute env _).db]
  obtain ⟨seen, toCommit, noted, -⟩ := noteAcceptReq_cases c msgVs reqCanbeExed
  rcases storeAcceptReq_cases env c msgVs reqCanbeExed nodeId origin with
    ⟨ignored, -⟩ | ⟨-, -, -, ⟨-, failed⟩ | ⟨-, stored⟩⟩
  · left
    rw [ignored]
  · left
    rw [failed, noted]
  · right
    rw [stored, noted]

/-- An acknowledgement leaves the data of a record as it is. -/
theorem data_handleAcceptAck (env : Env) (c : Comp) (vs : ViewStamp) (nodeId : NodeId)
    (record updated : RequestRecord) (found : c.stored vs = some (.request record))
    (after : (handleAcceptAck env c vs nodeId).stored vs = some (.request updated)) :
    updated.data = record.data := by
  rw [Comp.stored, handleAcceptAck, (sameRecords_tryToExecute env _).db] at after
  rcases storeAcceptAck_cases env c vs nodeId with ignored | ⟨-, -, -, value, there, stored⟩
  · rw [ignored] at after
    rw [DbValue.request.inj (Option.some.inj (after.symm.trans found))]
  · obtain rfl := Option.some.inj (there.symm.trans found)
    rw [stored] at after
    simp only [Database.retrieveRecord_storeRecord_self, DbValue.asRequest, Option.some.injEq,
      DbValue.request.injEq] at after
    rw [← after, updateRecord]

/-- Wherever the record is stored, its data is what was submitted: each message on the way gives
back what was put in. -/
theorem Stores.data_eq {data : List UInt8} {record : RequestRecord} (stores : Stores data record)
    (small : data.length + 85 < 2 ^ 31) : record.data = data := by
  induction stores with
  | submitted env c stored =>
    rw [consensusSubmitRequest] at stored
    split at stored
    next leader => exact stored.data _ _ (db_leaderHandleSubmitReq env c data)
    next follower =>
      obtain ⟨vs, found, new⟩ := stored
      exact absurd found new
  | forwarded env follower c msg received stored =>
    have sent : (follower.forwardReqBytes data).length = 20 + data.length := by
      simp only [forwardReqBytes, List.length_append, length_littleEndian]
    obtain ⟨behind, decoded⟩ := received.decoded (by omega)
    obtain ⟨nodeId, read⟩ := consensusMsgAt_forwardReq follower data behind (by omega)
    obtain rfl := Option.some.inj (decoded.symm.trans read)
    rw [consensusHandleMsg, handleForwardReq] at stored
    split at stored
    next secondary =>
      obtain ⟨vs, found, new⟩ := stored
      exact absurd found new
    next leader => exact stored.data _ _ (db_leaderHandleSubmitReq env c data)
  | acked env c vs nodeId earlier found stored ih =>
    rw [data_handleAcceptAck env c vs nodeId _ _ found stored, ih]
  | @accepted record copied env c follower vs msg earlier received stored ih =>
    have sent : (c.acceptReqBytes record.bytes vs).length = 69 + data.length := by
      rw [acceptReqBytes, List.length_append, length_acceptReqHeader, RequestRecord.length_bytes, ih]
      omega
    obtain ⟨behind, decoded⟩ := received.decoded (by omega)
    obtain ⟨msgVs, toCommit, sender, origin, read, same⟩ :=
      consensusMsgAt_acceptReq c ⟨record, by rw [ih]; omega⟩ vs behind
    obtain rfl := Option.some.inj (decoded.symm.trans read)
    rw [stored.data _ _ (db_handleAcceptReq env follower msgVs toCommit sender origin)]
    exact same.trans ih

end Comp

end LibeventPaxos
