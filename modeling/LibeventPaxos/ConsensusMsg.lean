import LibeventPaxos.Database
import LibeventPaxos.Lib.Memory

/-!
`consensus/consensus-msg.h`: the messages consensus components exchange, and what is read of a
message that arrives.
-/
namespace LibeventPaxos

open Lib

/-- The record of a `missing_ack` is the one it is built from, of which it takes a part only. -/
inductive ConsensusMsg where
  | acceptReq (msgVs reqCanbeExed : ViewStamp) (nodeId : NodeId) (record : RequestRecord)
  | acceptAck (msgVs : ViewStamp) (nodeId : NodeId)
  | missingReq (nodeId : NodeId) (missingVs : ViewStamp)
  | missingAck (nodeId : NodeId) (missingVs : ViewStamp) (record : RequestRecord)
  | forceExec (nodeId : NodeId) (highestCommittedOp : ViewStamp)
  | forwardReq (nodeId : NodeId) (data : List UInt8)
  deriving DecidableEq, Repr

/-! ## The bytes of a record -/

/-- Two's complement of a signed field. -/
def signedBytes (width : ℕ) (value : Int) : List UInt8 :=
  littleEndian width (value % (256 ^ width : ℕ)).toNat

namespace RequestRecord

/-- `created_time`, `is_closed` and `bit_map`, which take 25 bytes. -/
def stateBytes (record : RequestRecord) : List UInt8 :=
  signedBytes 8 record.createdTime.tvSec ++ signedBytes 8 record.createdTime.tvUsec ++
    [record.isClosed] ++ littleEndian 8 record.bitMap.toNat

/-- `data_size` and `data`. -/
def payloadBytes (record : RequestRecord) : List UInt8 :=
  littleEndian 8 record.data.length ++ record.data

def bytes (record : RequestRecord) : List UInt8 := record.stateBytes ++ record.payloadBytes

@[simp] theorem length_stateBytes (record : RequestRecord) : record.stateBytes.length = 25 := by
  simp [stateBytes, signedBytes]

/-- `REQ_RECORD_SIZE`. -/
@[simp] theorem length_bytes (record : RequestRecord) :
    record.bytes.length = 33 + record.data.length := by
  simp only [bytes, payloadBytes, List.length_append, length_stateBytes, length_littleEndian]
  omega

end RequestRecord

namespace Comp

/-- `int memsize = MISSING_ACK_SIZE(record_data)`: the header of the message and the payload of
the record, without the header of the record. -/
def memsize (record : RequestRecord) : Int :=
  ((28 + record.data.length : ℕ) : Int).bmod (2 ^ 32)

end Comp

/-! ## Received messages -/

namespace ConsensusMsg

/-- The bytes of a record that a `missing_ack` takes. -/
def missingData (record : RequestRecord) : List UInt8 :=
  record.bytes.take (Comp.memsize record).toNat

/-- What can be read of a message where it arrives. The record of a `missing_ack` ends too early:
the record that is read goes on with whatever lies behind the message. -/
inductive Received : ConsensusMsg → ConsensusMsg → Prop
  | whole (msg : ConsensusMsg) : Received msg msg
  | short (nodeId : NodeId) (missingVs : ViewStamp) (record read : RequestRecord)
      (front : missingData record <+: read.bytes) :
      Received (.missingAck nodeId missingVs record) (.missingAck nodeId missingVs read)

/-- Any other message is read as it was sent. -/
theorem Received.eq {sent read : ConsensusMsg} (received : Received sent read)
    (other : ∀ nodeId missingVs record, read ≠ .missingAck nodeId missingVs record) :
    sent = read := by
  cases received with
  | whole => rfl
  | short nodeId missingVs record read front => exact absurd rfl (other nodeId missingVs read)

/-- The front of the record is there. -/
private def isShort : ConsensusMsg → ConsensusMsg → Bool
  | .missingAck nodeId missingVs record, .missingAck nodeId' missingVs' read =>
    decide (nodeId = nodeId' ∧ missingVs = missingVs' ∧ missingData record <+: read.bytes)
  | _, _ => false

private theorem received_iff (sent read : ConsensusMsg) :
    sent = read ∨ isShort sent read = true ↔ Received sent read := by
  constructor
  · rintro (rfl | short)
    · exact .whole sent
    · unfold isShort at short
      split at short
      next nodeId missingVs record nodeId' missingVs' read =>
        obtain ⟨rfl, rfl, front⟩ := of_decide_eq_true short
        exact .short nodeId missingVs record read front
      next => cases short
  · intro received
    cases received with
    | whole => exact .inl rfl
    | short nodeId missingVs record read front =>
      exact .inr (decide_eq_true ⟨rfl, rfl, front⟩)

instance (sent read : ConsensusMsg) : Decidable (Received sent read) :=
  decidable_of_iff _ (received_iff sent read)

end ConsensusMsg

end LibeventPaxos
