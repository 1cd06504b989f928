import LibeventPaxos.ConsensusRun

/-!
The bytes of `accept_req` and `missing_ack`, and of the `request_record` inside: a record arrives
whole in the first, while the second is too short for it by the difference of two headers.
-/
namespace LibeventPaxos

open Lib

/-! ## Packed layouts -/

def stampBytes (vs : ViewStamp) : List UInt8 :=
  littleEndian 4 vs.viewId.toNat ++ littleEndian 4 vs.reqId.toNat

@[simp] theorem length_stampBytes (vs : ViewStamp) : (stampBytes vs).length = 8 := by
  simp [stampBytes]

/-- A `request_record` in memory: its length fits in a `size_t`. -/
structure SizedRecord extends RequestRecord where
  fits : data.length < 2 ^ 64

/-! ## Reading a message -/

def stampAt (m : Memory) (start : ℕ) : ViewStamp :=
  ⟨UInt32.ofNat (m.wordAt start 4), UInt32.ofNat (m.wordAt (start + 4) 4)⟩

def signedAt (m : Memory) (start width : ℕ) : Int := (m.wordAt start width : Int).bmod (256 ^ width)

/-- The bytes at an address read as a `request_record`. -/
def recordAt (m : Memory) (start : ℕ) : RequestRecord where
  createdTime := ⟨signedAt m start 8, signedAt m (start + 8) 8⟩
  isClosed := m (start + 16)
  bitMap := UInt64.ofNat (m.wordAt (start + 17) 8)
  data := m.bytesAt (start + 33) (m.wordAt (start + 25) 8)

/-- A received message read as an `accept_req`. -/
def acceptReqAt (m : Memory) : ConsensusMsg :=
  .acceptReq (stampAt m 4) (stampAt m 12) (signedAt m 20 8) (recordAt m 36)

/-- A received message read as a `missing_ack`. -/
def missingAckAt (m : Memory) : ConsensusMsg :=
  .missingAck (signedAt m 4 8) (stampAt m 12) (recordAt m 28)

/-- The payload that is read is the payload of a record if and only if every byte from `data_size`
on is. -/
theorem recordAt_data_iff (m : Memory) (start : ℕ) (record : SizedRecord) :
    (recordAt m start).data = record.data ↔
      m.bytesAt (start + 25) record.payloadBytes.length = record.payloadBytes := by
  have size := m.wordAt_eq_iff (start + 25) 8 record.data.length
    (by have fits := record.fits; omega)
  have parts : m.bytesAt (start + 25) record.payloadBytes.length = record.payloadBytes ↔
      m.bytesAt (start + 25) 8 = littleEndian 8 record.data.length ∧
        m.bytesAt (start + 33) record.data.length = record.data := by
    rw [RequestRecord.payloadBytes, List.length_append, length_littleEndian, Memory.bytesAt_add]
    constructor
    · intro same
      exact List.append_inj same (by rw [Memory.length_bytesAt, length_littleEndian])
    · rintro ⟨first, second⟩
      rw [first, second]
  rw [parts, ← size]
  constructor
  · intro same
    have length := congrArg List.length same
    simp only [recordAt, Memory.length_bytesAt] at length
    simp only [recordAt, length] at same
    exact ⟨length, same⟩
  · rintro ⟨length, same⟩
    simp only [recordAt, length]
    exact same

section Placed

variable (before after : List UInt8) (behind : Memory)

theorem wordAt_placed (width value : ℕ) (fits : value < 256 ^ width) :
    (Memory.placed (before ++ (littleEndian width value ++ after)) behind).wordAt before.length
      width = value := by
  rw [Memory.wordAt_eq_iff _ _ _ _ fits]
  have read := Memory.bytesAt_placed before (littleEndian width value) after behind
  rwa [length_littleEndian] at read

theorem stampAt_placed (vs : ViewStamp) :
    stampAt (Memory.placed (before ++ (stampBytes vs ++ after)) behind) before.length = vs := by
  have view := wordAt_placed before (littleEndian 4 vs.reqId.toNat ++ after) behind 4
    vs.viewId.toNat vs.viewId.toNat_lt
  have req := wordAt_placed (before ++ littleEndian 4 vs.viewId.toNat) after behind 4
    vs.reqId.toNat vs.reqId.toNat_lt
  rw [List.length_append, length_littleEndian] at req
  simp only [List.append_assoc] at view req
  simp only [stampAt, stampBytes, List.append_assoc, view, req, UInt32.ofNat_toNat]

theorem signedAt_placed (value : ℕ) (small : value < 2 ^ 63) :
    signedAt (Memory.placed (before ++ (littleEndian 8 value ++ after)) behind) before.length 8 =
      value := by
  rw [signedAt, wordAt_placed before after behind 8 value (by omega)]
  exact Int.bmod_eq_of_le (by omega) (by omega)

/-- A record that is all there is read back, whatever lies behind it. -/
theorem recordAt_placed (record : SizedRecord) :
    let read := recordAt (Memory.placed (before ++ (record.bytes ++ after)) behind) before.length
    read.isClosed = record.isClosed ∧ read.data = record.data := by
  intro read
  constructor
  · have closed := Memory.bytesAt_placed
      (before ++ (signedBytes 8 record.createdTime.tvSec ++
        signedBytes 8 record.createdTime.tvUsec)) [record.isClosed]
      (littleEndian 8 record.bitMap.toNat ++ (record.payloadBytes ++ after)) behind
    simp only [List.append_assoc, List.length_append, signedBytes, length_littleEndian] at closed
    simp only [read, recordAt, RequestRecord.bytes, RequestRecord.stateBytes, List.append_assoc,
      signedBytes]
    simpa [Memory.bytesAt] using closed
  · rw [recordAt_data_iff]
    have payload := Memory.bytesAt_placed (before ++ record.stateBytes) record.payloadBytes after
      behind
    rw [List.length_append, RequestRecord.length_stateBytes] at payload
    simpa only [RequestRecord.bytes, List.append_assoc] using payload

end Placed

namespace Comp

/-! ## Building a message -/

/-- The fields of an `accept_req` before its data, which take 36 bytes. -/
def acceptReqHeader (c : Comp) (dataSize : ℕ) (vs : ViewStamp) : List UInt8 :=
  littleEndian 4 0 ++ stampBytes vs ++ stampBytes c.highestToCommitVs ++ littleEndian 8 c.nodeId ++
    littleEndian 8 dataSize

/-- `build_accept_req`; its callers pass the bytes of a whole record. -/
def acceptReqBytes (c : Comp) (data : List UInt8) (vs : ViewStamp) : List UInt8 :=
  c.acceptReqHeader data.length vs ++ data

/-- The fields of a `missing_ack` before its data, which take 28 bytes. -/
def missingAckHeader (c : Comp) (dataSize : ℕ) (vs : ViewStamp) : List UInt8 :=
  littleEndian 4 3 ++ littleEndian 8 c.nodeId ++ stampBytes vs ++ littleEndian 8 dataSize

/-- `build_missing_ack`. A negative `memsize` asks `malloc` for nearly 2^64 bytes, which fails;
otherwise as many bytes of the record are copied behind the header, past the end of the block. -/
def missingAckBytes (c : Comp) (record : RequestRecord) (vs : ViewStamp) : Option (List UInt8) :=
  if 0 ≤ memsize record then
    let size := (memsize record).toNat
    some (c.missingAckHeader size vs ++ record.bytes.take size)
  else none

@[simp] theorem length_acceptReqHeader (c : Comp) (dataSize : ℕ) (vs : ViewStamp) :
    (c.acceptReqHeader dataSize vs).length = 36 := by
  simp [acceptReqHeader]

@[simp] theorem length_missingAckHeader (c : Comp) (dataSize : ℕ) (vs : ViewStamp) :
    (c.missingAckHeader dataSize vs).length = 28 := by
  simp [missingAckHeader]

/-- An `int` holds the size of a message of less than 2 GiB. -/
theorem memsize_of_small (record : RequestRecord) (small : record.data.length < 2147483620) :
    memsize record = (28 + record.data.length : ℕ) := by
  unfold memsize
  exact Int.bmod_eq_of_le (by omega) (by omega)

/-- The message never takes more of the record than there is. -/
theorem memsize_le (record : RequestRecord) :
    (memsize record).toNat ≤ 28 + record.data.length := by
  have total : memsize record = ((28 + record.data.length : ℕ) : Int).bmod (2 ^ 32) := rfl
  rw [Int.bmod_def] at total
  generalize memsize record = size at total
  split at total
  next positive => omega
  next negative => omega

/-! ## The two transfers -/

/-- The bytes of an `accept_req` say what the message of `build_accept_req` says: a follower does
the same with either. -/
theorem handle_acceptReqAt (env : Env) (follower c : Comp) (record : SizedRecord) (vs : ViewStamp)
    (behind : Memory) (small : c.nodeId < 2 ^ 63) :
    consensusHandleMsg env follower
        (acceptReqAt (Memory.placed (c.acceptReqBytes record.bytes vs) behind)) =
      consensusHandleMsg env follower (c.buildAcceptReq record.toRequestRecord vs) := by
  have stamp := stampAt_placed (littleEndian 4 0) (stampBytes c.highestToCommitVs ++
    (littleEndian 8 c.nodeId ++ (littleEndian 8 record.bytes.length ++ record.bytes))) behind vs
  have toCommit := stampAt_placed (littleEndian 4 0 ++ stampBytes vs)
    (littleEndian 8 c.nodeId ++ (littleEndian 8 record.bytes.length ++ record.bytes)) behind
    c.highestToCommitVs
  have sender := signedAt_placed (littleEndian 4 0 ++ stampBytes vs ++
    stampBytes c.highestToCommitVs) (littleEndian 8 record.bytes.length ++ record.bytes) behind
    c.nodeId small
  have read := recordAt_placed (c.acceptReqHeader record.bytes.length vs) [] behind record
  simp only [acceptReqHeader, List.append_assoc, List.append_nil, List.length_append,
    length_littleEndian, length_stampBytes, Nat.reduceAdd] at stamp toCommit sender read
  simp only [acceptReqAt, acceptReqBytes, acceptReqHeader, List.append_assoc, stamp, toCommit,
    sender, buildAcceptReq, consensusHandleMsg, handleAcceptReq, storeAcceptReq, read.1, read.2]

theorem missingAckBytes_eq_some (c : Comp) (record : RequestRecord) (vs : ViewStamp)
    (msg : List UInt8) : c.missingAckBytes record vs = some msg ↔ 0 ≤ memsize record ∧
      msg = c.missingAckHeader (memsize record).toNat vs ++
        record.bytes.take (memsize record).toNat := by
  simp only [missingAckBytes]
  generalize memsize record = size
  split
  next positive => simp [positive, eq_comm]
  next negative => simp [negative]

/-- The message is built, and where it ends too early the follower's memory happens to go on with
the bytes of the record. -/
def RestBehind (record : RequestRecord) (behind : Memory) : Prop :=
  0 ≤ memsize record ∧
    ∀ i, 25 ≤ i → (memsize record).toNat ≤ i → ∀ inside : i < record.bytes.length,
      behind (i - (memsize record).toNat) = record.bytes[i]

/-- Below 2 GiB the message is five bytes too short. -/
theorem restBehind_of_small (record : RequestRecord) (behind : Memory)
    (small : record.data.length < 2147483620) :
    RestBehind record behind ↔
      behind.bytesAt 0 5 = record.bytes.drop (28 + record.data.length) := by
  have length : (record.bytes.drop (28 + record.data.length)).length = 5 := by
    rw [List.length_drop, RequestRecord.length_bytes]
    omega
  have size : (memsize record).toNat = 28 + record.data.length := by
    rw [memsize_of_small record small, Int.toNat_natCast]
  have each : behind.bytesAt 0 5 = record.bytes.drop (28 + record.data.length) ↔
      ∀ i, ∀ inside : i < (record.bytes.drop (28 + record.data.length)).length,
        behind (0 + i) = (record.bytes.drop (28 + record.data.length))[i] := by
    rw [← behind.bytesAt_eq_iff 0, length]
  rw [each]
  constructor
  · rintro ⟨-, rest⟩ i inside
    rw [size] at rest
    have there := rest (28 + record.data.length + i) (by omega) (by omega)
      (by rw [RequestRecord.length_bytes]; omega)
    rw [Nat.add_sub_cancel_left] at there
    rw [Nat.zero_add, there, List.getElem_drop]
  · intro rest
    refine ⟨by rw [memsize_of_small record small]; exact Int.natCast_nonneg _, ?_⟩
    rw [size]
    intro i _ late inside
    have short : i - (28 + record.data.length) < 5 := by
      rw [RequestRecord.length_bytes] at inside
      omega
    have there := rest (i - (28 + record.data.length)) (by rw [length]; exact short)
    rw [Nat.zero_add, List.getElem_drop] at there
    rw [there]
    simp only [Nat.add_sub_cancel' late]

/-- The payload read from a `missing_ack` is the sender's if and only if the bytes behind the
message make up for those it lacks. -/
theorem missing_data_iff (c : Comp) (record : SizedRecord) (vs : ViewStamp) (behind : Memory)
    (size : ℕ) (le : size ≤ 28 + record.data.length) :
    (recordAt (Memory.placed (c.missingAckHeader size vs ++ record.bytes.take size) behind)
        28).data = record.data ↔
      ∀ i, 25 ≤ i → size ≤ i → ∀ inside : i < record.bytes.length,
        behind (i - size) = record.bytes[i] := by
  have taken : (record.bytes.take size).length = size := by
    rw [List.length_take, RequestRecord.length_bytes]
    omega
  have total := record.length_bytes
  have payload : record.payloadBytes.length = 8 + record.data.length := by
    rw [RequestRecord.payloadBytes, List.length_append, length_littleEndian]
  -- byte `i` of the record is read from the message or from behind it
  have sent : ∀ i, ∀ inside : i < record.bytes.length,
      Memory.placed (c.missingAckHeader size vs ++ record.bytes.take size) behind (28 + i) =
        if i < size then record.bytes[i] else behind (i - size) := by
    intro i inside
    split
    next early =>
      rw [Memory.placed_of_lt (by rw [List.length_append, length_missingAckHeader]; omega),
        List.getElem_append_right (by rw [length_missingAckHeader]; omega), List.getElem_take]
      simp only [length_missingAckHeader, Nat.add_sub_cancel_left]
    next late =>
      rw [Memory.placed_of_ge (by rw [List.length_append, length_missingAckHeader]; omega),
        List.length_append, length_missingAckHeader, taken]
      congr 1
      omega
  rw [recordAt_data_iff, Memory.bytesAt_eq_iff]
  constructor
  · intro each i low late inside
    have there := each (i - 25) (by omega)
    rw [show 28 + 25 + (i - 25) = 28 + i by omega, sent i inside, if_neg (by omega)] at there
    rw [there]
    simp only [RequestRecord.bytes]
    rw [List.getElem_append_right (by rw [RequestRecord.length_stateBytes]; omega)]
    simp only [RequestRecord.length_stateBytes]
  · intro rest i inside
    have here : i + 25 < record.bytes.length := by omega
    have same : record.bytes[i + 25] = record.payloadBytes[i] := by
      simp only [RequestRecord.bytes]
      rw [List.getElem_append_right (by rw [RequestRecord.length_stateBytes]; omega)]
      simp only [RequestRecord.length_stateBytes, Nat.add_sub_cancel]
    rw [show 28 + 25 + i = 28 + (i + 25) by omega, sent (i + 25) here, ← same]
    split
    next early => rfl
    next late => exact rest (i + 25) (by omega) (by omega) here

/-- The records that a follower stores from an `accept_req` and from a `missing_ack` of the same
record both have the length and the bytes of its payload. -/
structure TransfersIntact (c : Comp) (vs : ViewStamp) (record : SizedRecord) (env : Env)
    (behindAccept behindMissing : Memory) : Prop where
  accept : (acceptedRecord env
    (recordAt (Memory.placed (c.acceptReqBytes record.bytes vs) behindAccept) 36)).data =
      record.data
  missing : ∃ msg, c.missingAckBytes record.toRequestRecord vs = some msg ∧
    (missingRecord env (recordAt (Memory.placed msg behindMissing) 28)).data = record.data

@[simp] theorem acceptedRecord_data (env : Env) (origin : RequestRecord) :
    (acceptedRecord env origin).data = origin.data := rfl

@[simp] theorem missingRecord_data (env : Env) (origin : RequestRecord) :
    (missingRecord env origin).data = origin.data := rfl

/-- An `accept_req` always brings the payload; a `missing_ack` does if and only if it is built and
the bytes it lacks lie behind it in the follower's memory. -/
theorem transfers_intact_iff (c : Comp) (vs : ViewStamp) (record : SizedRecord) (env : Env)
    (behindAccept behindMissing : Memory) :
    TransfersIntact c vs record env behindAccept behindMissing ↔
      RestBehind record.toRequestRecord behindMissing := by
  have missing := missing_data_iff c record vs behindMissing
    (memsize record.toRequestRecord).toNat (memsize_le record.toRequestRecord)
  have built := c.missingAckBytes_eq_some record.toRequestRecord vs
  have accepted := recordAt_placed (c.acceptReqHeader record.bytes.length vs) [] behindAccept record
  rw [length_acceptReqHeader, List.append_nil] at accepted
  rw [RestBehind, ← missing]
  constructor
  · rintro ⟨-, msg, some_msg, data⟩
    obtain ⟨positive, rfl⟩ := (built msg).mp some_msg
    rw [missingRecord_data] at data
    exact ⟨positive, data⟩
  · rintro ⟨positive, data⟩
    refine ⟨?_, _, (built _).mpr ⟨positive, rfl⟩, ?_⟩
    · rw [acceptedRecord_data]
      exact accepted.2
    · rw [missingRecord_data]
      exact data

/-- A `missing_ack` whose lost bytes lie behind it says what the record-level message says. -/
theorem handle_missingAckAt (env : Env) (follower c : Comp) (record : SizedRecord) (vs : ViewStamp)
    (msg : List UInt8) (behind : Memory)
    (built : c.missingAckBytes record.toRequestRecord vs = some msg)
    (rest : RestBehind record.toRequestRecord behind) :
    consensusHandleMsg env follower (missingAckAt (Memory.placed msg behind)) =
      consensusHandleMsg env follower (.missingAck c.nodeId vs record.toRequestRecord) := by
  obtain ⟨-, rfl⟩ := (c.missingAckBytes_eq_some _ vs msg).mp built
  have data := (missing_data_iff c record vs behind (memsize record.toRequestRecord).toNat
    (memsize_le record.toRequestRecord)).mpr rest.2
  generalize (memsize record.toRequestRecord).toNat = size at data
  have stamp := stampAt_placed (littleEndian 4 3 ++ littleEndian 8 c.nodeId)
    (littleEndian 8 size ++ record.bytes.take size) behind vs
  simp only [missingAckHeader, List.append_assoc, List.length_append, length_littleEndian,
    Nat.reduceAdd] at stamp data
  simp only [missingAckAt, missingAckHeader, List.append_assoc, stamp, consensusHandleMsg,
    handleMissingAck, missingRecord, data]

/-- Memory that is read as a record holds the bytes of the record. -/
theorem bytes_recordAt (m : Memory) (start : ℕ) :
    (recordAt m start).bytes = m.bytesAt start (33 + m.wordAt (start + 25) 8) := by
  have signed (address : ℕ) : signedBytes 8 (signedAt m address 8) = m.bytesAt address 8 := by
    have below := m.wordAt_lt address 8
    rw [← m.littleEndian_wordAt address 8, signedBytes, signedAt, Int.bmod_emod]
    rw [Int.emod_eq_of_lt (Int.natCast_nonneg _) (by omega), Int.toNat_natCast]
  have bits := m.wordAt_lt (start + 17) 8
  have bitMap : littleEndian 8 (recordAt m start).bitMap.toNat = m.bytesAt (start + 17) 8 := by
    rw [← m.littleEndian_wordAt, recordAt, UInt64.toNat_ofNat_of_lt' (by omega)]
  have closed : m.bytesAt (start + 16) 1 = [(recordAt m start).isClosed] := by
    simp [Memory.bytesAt, recordAt]
  have size : littleEndian 8 (recordAt m start).data.length = m.bytesAt (start + 25) 8 := by
    rw [← m.littleEndian_wordAt, recordAt, Memory.length_bytesAt]
  rw [RequestRecord.bytes, RequestRecord.stateBytes, RequestRecord.payloadBytes, bitMap, size,
    ← closed]
  simp only [recordAt, signed, List.append_assoc]
  rw [show 33 + m.wordAt (start + 25) 8 = 8 + (8 + (1 + (8 + (8 + m.wordAt (start + 25) 8)))) by
    omega]
  simp only [Memory.bytesAt_add, Nat.add_assoc, Nat.reduceAdd]

/-- Whatever lies behind a `missing_ack`, its front is read as it was sent. -/
theorem received_missingAckAt (c : Comp) (record : SizedRecord) (vs : ViewStamp) (msg : List UInt8)
    (behind : Memory) (small : c.nodeId < 2 ^ 63)
    (built : c.missingAckBytes record.toRequestRecord vs = some msg) :
    (ConsensusMsg.missingAck c.nodeId vs record.toRequestRecord).Received
      (missingAckAt (Memory.placed msg behind)) := by
  obtain ⟨-, rfl⟩ := (c.missingAckBytes_eq_some _ vs msg).mp built
  have front : ConsensusMsg.missingData record.toRequestRecord =
    record.bytes.take (memsize record.toRequestRecord).toNat := rfl
  have le := memsize_le record.toRequestRecord
  generalize (memsize record.toRequestRecord).toNat = size at front le ⊢
  have taken : (record.bytes.take size).length = size := by
    rw [List.length_take, RequestRecord.length_bytes]
    omega
  have sender := signedAt_placed (littleEndian 4 3)
    (stampBytes vs ++ (littleEndian 8 size ++ record.bytes.take size)) behind c.nodeId small
  have stamp := stampAt_placed (littleEndian 4 3 ++ littleEndian 8 c.nodeId)
    (littleEndian 8 size ++ record.bytes.take size) behind vs
  have data := Memory.bytesAt_placed (c.missingAckHeader size vs) (record.bytes.take size) [] behind
  have fits := record.fits
  -- the size of the payload is in the message, unless the message ends before it
  have covered : size ≤ 33 +
      (Memory.placed (c.missingAckHeader size vs ++ record.bytes.take size) behind).wordAt
        (28 + 25) 8 := by
    rcases Nat.lt_or_ge size 33 with short | long
    · omega
    · have split : record.bytes.take size = record.stateBytes ++
          (littleEndian 8 record.data.length ++ record.data.take (size - 33)) := by
        rw [RequestRecord.bytes, RequestRecord.payloadBytes, List.take_append, List.take_append,
          RequestRecord.length_stateBytes, length_littleEndian,
          List.take_of_length_le (by rw [RequestRecord.length_stateBytes]; omega),
          List.take_of_length_le (by rw [length_littleEndian]; omega)]
        rfl
      have word := wordAt_placed (c.missingAckHeader size vs ++ record.stateBytes)
        (record.data.take (size - 33)) behind 8 record.data.length (by omega)
      rw [List.append_assoc, ← split, List.length_append, length_missingAckHeader,
        RequestRecord.length_stateBytes] at word
      rw [word]
      omega
  have part := Memory.bytesAt_prefix
    (Memory.placed (c.missingAckHeader size vs ++ record.bytes.take size) behind) 28 covered
  rw [List.append_nil, length_missingAckHeader, taken] at data
  rw [data, ← bytes_recordAt] at part
  simp only [missingAckHeader, List.append_assoc, List.length_append, length_littleEndian,
    Nat.reduceAdd] at sender stamp part
  simp only [missingAckAt, missingAckHeader, List.append_assoc, sender, stamp]
  refine .short _ _ _ _ ?_
  rw [front]
  exact part

/-- And every record with that front is read, if the rest of it lies behind. -/
theorem recordAt_of_front (c : Comp) (vs : ViewStamp) (size : ℕ) (front : List UInt8)
    (read : SizedRecord) (starts : front <+: read.bytes) : ∃ behind,
      let origin := recordAt (Memory.placed (c.missingAckHeader size vs ++ front) behind) 28
      origin.isClosed = read.isClosed ∧ origin.data = read.data := by
  obtain ⟨rest, whole⟩ := starts
  refine ⟨Memory.placed rest Memory.zero, ?_⟩
  rw [← Memory.placed_append, List.append_assoc, whole]
  have found := recordAt_placed (c.missingAckHeader size vs) [] Memory.zero read
  rwa [List.append_nil, length_missingAckHeader] at found

/-- The last five of the bytes 1 to 5 are all of them. -/
theorem short_missing_ack : ¬ ∀ (c : Comp) (vs : ViewStamp) (record : SizedRecord) (env : Env)
    (behindAccept behindMissing : Memory),
    TransfersIntact c vs record env behindAccept behindMissing := by
  intro claim
  let record : SizedRecord := ⟨⟨⟨0, 0⟩, 0, 1, [1, 2, 3, 4, 5]⟩, by decide⟩
  let zeros : Memory := fun _ => 0
  obtain ⟨msg, built, data⟩ := (claim (init true 0 3) ⟨1, 1⟩ record quietEnv zeros zeros).missing
  obtain ⟨-, rfl⟩ := ((init true 0 3).missingAckBytes_eq_some _ _ msg).mp built
  have size : (memsize record.toRequestRecord).toNat = 33 := by
    rw [memsize_of_small record.toRequestRecord (by decide)]
    rfl
  rw [missingRecord_data, size] at data
  have lost := (missing_data_iff _ record _ zeros 33 (by decide)).mp data 33 (by decide) le_rfl
    (by decide)
  exact absurd lost (by decide)

end Comp

end LibeventPaxos
