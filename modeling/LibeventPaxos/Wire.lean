import LibeventPaxos.ElectionMsg
import LibeventPaxos.ReadLoops
import LibeventPaxos.Lib.Layout

/-!
The bytes of the messages between nodes, from `replica-sys/message.h` and `consensus-msg.h`, and
what `handle_msg` and `consensus_handle_msg` read off a frame. Every message is read back from its
frame; a `missing_ack`, which ends too early, if the memory behind it goes on as it should.
-/
namespace LibeventPaxos

open Lib

/-! ## Layouts -/

/-- The values of an `int64_t`. -/
def InInt64 (value : Int) : Prop := -2 ^ 63 ≤ value ∧ value < 2 ^ 63

instance (value : Int) : Decidable (InInt64 value) :=
  inferInstanceAs (Decidable (-2 ^ 63 ≤ value ∧ value < 2 ^ 63))

def wordOf (value : UInt32) : Word := ⟨4, value.toNat⟩

def ViewStamp.words (vs : ViewStamp) : List Word := [wordOf vs.viewId, wordOf vs.reqId]

def TimeVal.words (time : TimeVal) : List Word := [.signed 8 time.tvSec, .signed 8 time.tvUsec]

def TimeVal.InRange (time : TimeVal) : Prop := InInt64 time.tvSec ∧ InInt64 time.tvUsec

instance (time : TimeVal) : Decidable time.InRange :=
  inferInstanceAs (Decidable (InInt64 time.tvSec ∧ InInt64 time.tvUsec))

/-- `view`, which is not packed. -/
def View.words (view : View) (padding : ℕ → UInt32) : List Word :=
  [wordOf view.viewId, wordOf (padding 0), .signed 8 view.leaderId, wordOf view.reqId,
    wordOf (padding 1)]

namespace RequestRecord

/-- `created_time`, `is_closed` and `bit_map`. -/
def stateWords (record : RequestRecord) : List Word :=
  record.createdTime.words ++ [⟨1, record.isClosed.toNat⟩, ⟨8, record.bitMap.toNat⟩]

def words (record : RequestRecord) : List Word := record.stateWords ++ [⟨8, record.data.length⟩]

end RequestRecord

namespace ConsensusMsg

/-- The fields of a message before its data. `accept_ack`, `missing_req` and `force_exec` are not
packed. -/
def words (padding : UInt32) : ConsensusMsg → List Word
  | .acceptReq msgVs reqCanbeExed nodeId record => ⟨4, 0⟩ :: (msgVs.words ++ reqCanbeExed.words ++
      [.signed 8 nodeId, ⟨8, record.bytes.length⟩])
  | .acceptAck msgVs nodeId => ⟨4, 1⟩ :: (msgVs.words ++ [wordOf padding, .signed 8 nodeId])
  | .missingReq nodeId missingVs =>
    ⟨4, 2⟩ :: wordOf padding :: .signed 8 nodeId :: missingVs.words
  | .missingAck nodeId missingVs record => ⟨4, 3⟩ :: .signed 8 nodeId ::
      (missingVs.words ++ [⟨8, (Comp.memsize record).toNat⟩])
  | .forceExec nodeId highestCommittedOp =>
    ⟨4, 4⟩ :: wordOf padding :: .signed 8 nodeId :: highestCommittedOp.words
  | .forwardReq nodeId data => [⟨4, 5⟩, .signed 8 nodeId, ⟨8, data.length⟩]

/-- The data at the end; `build_missing_ack` copies less than a record. -/
def tail : ConsensusMsg → List UInt8
  | .acceptReq _ _ _ record => record.bytes
  | .missingAck _ _ record => record.bytes.take (Comp.memsize record).toNat
  | .forwardReq _ data => data
  | .acceptAck _ _ => []
  | .missingReq _ _ => []
  | .forceExec _ _ => []

def bytes (padding : UInt32) (msg : ConsensusMsg) : List UInt8 :=
  packed (msg.words padding) ++ msg.tail

end ConsensusMsg

namespace LeleType

def code : LeleType → ℕ
  | .prepare => 0
  | .prepareAck => 1
  | .accept => 2
  | .acceptAck => 3
  | .announce => 4
  | .announceAck => 5
  | .fin => 6
  | .lagged => 7
  | .higherNode => 8

def ofCode : ℕ → Option LeleType
  | 0 => some .prepare
  | 1 => some .prepareAck
  | 2 => some .accept
  | 3 => some .acceptAck
  | 4 => some .announce
  | 5 => some .announceAck
  | 6 => some .fin
  | 7 => some .lagged
  | 8 => some .higherNode
  | _ => none

theorem ofCode_code (type : LeleType) : ofCode type.code = some type := by
  cases type <;> rfl

theorem code_lt (type : LeleType) : type.code < 256 ^ 4 := by
  cases type <;> decide

end LeleType

/-- `lele_msg`. -/
def LeleMsg.words (msg : LeleMsg) (padding : ℕ → UInt32) : List Word :=
  [⟨4, msg.type.code⟩, wordOf (padding 0), .signed 8 msg.nodeId, wordOf msg.nextView,
    wordOf (padding 1), .signed 8 msg.pnum, .signed 8 msg.pPnum, .signed 8 msg.content,
    wordOf msg.lastReq, wordOf msg.startReq]

namespace SysMsg

/-- `sys_msg_code`. -/
def code : SysMsg → ℕ
  | .pingReq _ _ _ => 0
  | .pingAck _ _ _ => 1
  | .requestSubmit _ => 2
  | .consensus _ => 5
  | .leaderElection _ _ => 16

/-- What follows the header; `padding` are the bytes between fields that nothing sets. -/
def body (padding : ℕ → UInt32) : SysMsg → List UInt8
  | .pingReq nodeId view timestamp =>
    packed (.signed 8 nodeId :: (view.words padding ++ timestamp.words))
  | .pingAck nodeId view timestamp =>
    packed (.signed 8 nodeId :: (view.words padding ++ timestamp.words))
  | .requestSubmit data => data
  | .consensus msg => msg.bytes (padding 0)
  | .leaderElection vcMsg data => packed (vcMsg.words padding ++ data.map wordOf)

/-- The frame of a message: a `sys_msg_header`, and the rest. -/
def frame (padding : ℕ → UInt32) (msg : SysMsg) : List UInt8 :=
  headerBytes msg.code (padding 2) (msg.body padding).length ++ msg.body padding

end SysMsg

/-! ## Reading -/

def viewAt (m : Memory) (start : ℕ) : View :=
  ⟨UInt32.ofNat (m.wordAt start 4), signedAt m (start + 8) 8, UInt32.ofNat (m.wordAt (start + 16) 4)⟩

def timeAt (m : Memory) (start : ℕ) : TimeVal := ⟨signedAt m start 8, signedAt m (start + 8) 8⟩

/-- `consensus_handle_msg`; any other code is ignored. -/
def consensusAt (m : Memory) : Option ConsensusMsg :=
  match m.wordAt 0 4 with
  | 0 => some (acceptReqAt m)
  | 1 => some (.acceptAck (stampAt m 4) (signedAt m 16 8))
  | 2 => some (.missingReq (signedAt m 8 8) (stampAt m 16))
  | 3 => some (missingAckAt m)
  | 4 => some (.forceExec (signedAt m 8 8) (stampAt m 16))
  | 5 => some (forwardReqAt m)
  | _ => none

def leleMsgAt (m : Memory) (start : ℕ) : Option LeleMsg :=
  (LeleType.ofCode (m.wordAt start 4)).map fun type =>
    { type := type
      nodeId := signedAt m (start + 8) 8
      nextView := UInt32.ofNat (m.wordAt (start + 16) 4)
      pnum := signedAt m (start + 24) 8
      pPnum := signedAt m (start + 32) 8
      content := signedAt m (start + 40) 8
      lastReq := UInt32.ofNat (m.wordAt (start + 48) 4)
      startReq := UInt32.ofNat (m.wordAt (start + 52) 4) }

/-- The request ids of a `lele_edge_msg` that end at `size`. -/
def idsAt (m : Memory) (start size : ℕ) : List UInt32 :=
  (List.range ((size - start) / 4)).map fun i => UInt32.ofNat (m.wordAt (start + 4 * i) 4)

/-- The switch of `handle_msg` on a frame of this size. -/
def sysMsgAt (m : Memory) (size : ℕ) : Option SysMsg :=
  match m.wordAt 0 4 with
  | 0 => some (.pingReq (signedAt m 16 8) (viewAt m 24) (timeAt m 48))
  | 1 => some (.pingAck (signedAt m 16 8) (viewAt m 24) (timeAt m 48))
  | 2 => some (.requestSubmit (m.bytesAt 16 (m.wordAt 8 8)))
  | 5 => (consensusAt (m.offset 16)).map .consensus
  | 16 => (leleMsgAt m 16).map fun msg => .leaderElection msg (idsAt m 72 size)
  | _ => none

/-! ## Fields that are read back -/

@[simp] theorem width_wordOf (value : UInt32) : (wordOf value).width = 4 := rfl

@[simp] theorem value_wordOf (value : UInt32) : (wordOf value).value = value.toNat := rfl

theorem wordOf_fits (value : UInt32) : (wordOf value).Fits := value.toNat_lt

@[simp] theorem ViewStamp.span_words (vs : ViewStamp) : (vs.words.map Word.width).sum = 8 := rfl

@[simp] theorem TimeVal.span_words (time : TimeVal) : (time.words.map Word.width).sum = 16 := rfl

@[simp] theorem View.span_words (view : View) (padding : ℕ → UInt32) :
    ((view.words padding).map Word.width).sum = 24 := rfl

@[simp] theorem LeleMsg.span_words (msg : LeleMsg) (padding : ℕ → UInt32) :
    ((msg.words padding).map Word.width).sum = 56 := rfl

theorem signedAt_of_word {m : Memory} {start : ℕ} {value : Int} (range : InInt64 value)
    (read : m.wordAt start 8 = (Word.signed 8 value).value) : signedAt m start 8 = value := by
  rw [signedAt, read]
  exact Word.bmod_signed range.1 range.2

section Holds

variable {m : Memory} {start : ℕ}

theorem stampAt_of_holds {vs : ViewStamp} (holds : m.Holds start vs.words) :
    stampAt m start = vs := by
  obtain ⟨view, req, -⟩ := holds
  simp only [width_wordOf, value_wordOf] at view req
  rw [stampAt, view, req, UInt32.ofNat_toNat, UInt32.ofNat_toNat]

theorem timeAt_of_holds {time : TimeVal} (range : time.InRange) (holds : m.Holds start time.words) :
    timeAt m start = time := by
  obtain ⟨sec, usec, -⟩ := holds
  simp only [Word.width_signed] at sec usec
  rw [timeAt, signedAt_of_word range.1 sec, signedAt_of_word range.2 usec]

theorem viewAt_of_holds {view : View} {padding : ℕ → UInt32} (range : InInt64 view.leaderId)
    (holds : m.Holds start (view.words padding)) : viewAt m start = view := by
  obtain ⟨viewId, -, leaderId, reqId, -⟩ := holds
  simp only [width_wordOf, value_wordOf, Word.width_signed, Nat.add_assoc, Nat.reduceAdd]
    at viewId leaderId reqId
  rw [viewAt, viewId, signedAt_of_word range leaderId, reqId, UInt32.ofNat_toNat,
    UInt32.ofNat_toNat]

/-- The signed fields of a `lele_msg` are in range. -/
structure LeleMsg.InRange (msg : LeleMsg) : Prop where
  nodeId : InInt64 msg.nodeId
  pnum : InInt64 msg.pnum
  pPnum : InInt64 msg.pPnum
  content : InInt64 msg.content

instance (msg : LeleMsg) : Decidable msg.InRange :=
  decidable_of_iff (InInt64 msg.nodeId ∧ InInt64 msg.pnum ∧ InInt64 msg.pPnum ∧
    InInt64 msg.content) ⟨fun all => ⟨all.1, all.2.1, all.2.2.1, all.2.2.2⟩,
      fun range => ⟨range.nodeId, range.pnum, range.pPnum, range.content⟩⟩

theorem leleMsgAt_of_holds {msg : LeleMsg} {padding : ℕ → UInt32} (range : msg.InRange)
    (holds : m.Holds start (msg.words padding)) : leleMsgAt m start = some msg := by
  obtain ⟨type, -, nodeId, nextView, -, pnum, pPnum, content, lastReq, startReq, -⟩ := holds
  simp only [width_wordOf, value_wordOf, Word.width_signed, Nat.add_assoc, Nat.reduceAdd]
    at type nodeId nextView pnum pPnum content lastReq startReq
  rw [leleMsgAt, type, LeleType.ofCode_code, Option.map_some,
    signedAt_of_word range.nodeId nodeId, nextView, signedAt_of_word range.pnum pnum,
    signedAt_of_word range.pPnum pPnum, signedAt_of_word range.content content, lastReq, startReq]
  simp only [UInt32.ofNat_toNat]

theorem idsAt_of_holds (data : List UInt32) (holds : m.Holds start (data.map wordOf)) :
    idsAt m start (start + 4 * data.length) = data := by
  have count : (start + 4 * data.length - start) / 4 = data.length := by omega
  rw [idsAt, count]
  induction data generalizing start with
  | nil => rfl
  | cons id data ih =>
    obtain ⟨first, rest⟩ := holds
    have tail := ih rest (by omega)
    simp only [width_wordOf, value_wordOf] at first
    rw [List.length_cons, List.range_succ_eq_map, List.map_cons, List.map_map, Nat.mul_zero,
      Nat.add_zero, first, UInt32.ofNat_toNat]
    refine congrArg (id :: ·) (Eq.trans ?_ tail)
    apply List.map_congr_left
    intro i _
    simp only [Function.comp_apply, width_wordOf, Nat.succ_eq_add_one, Nat.mul_add, Nat.mul_one,
      Nat.add_comm 4, Nat.add_assoc]

/-- A `request_record` is read back from its fields and the data behind them. -/
theorem recordAt_of_holds {record : RequestRecord} (range : record.createdTime.InRange)
    (holds : m.Holds start record.stateWords)
    (data : (recordAt m start).data = record.data) : recordAt m start = record := by
  obtain ⟨sec, usec, closed, bitMap, -⟩ := holds
  simp only [Word.width_signed, Nat.add_assoc, Nat.reduceAdd] at sec usec closed bitMap
  have isClosed : m (start + 16) = record.isClosed := by
    have byte : m.wordAt (start + 16) 1 = (m (start + 16)).toNat := by
      simp [Memory.wordAt, Memory.bytesAt, littleEndianValue]
    exact UInt8.toNat_inj.mp (byte.symm.trans closed)
  have held : m.Holds start record.createdTime.words := ⟨sec, usec, trivial⟩
  have time := timeAt_of_holds range held
  rw [RequestRecord.mk.injEq]
  exact ⟨time, isClosed, by rw [recordAt, bitMap, UInt64.ofNat_toNat], data⟩

end Holds

/-! ## Consensus messages -/

namespace ConsensusMsg

/-- The signed fields of a message are in range. -/
def InRange : ConsensusMsg → Prop
  | .acceptReq _ _ nodeId record => InInt64 nodeId ∧ record.createdTime.InRange
  | .acceptAck _ nodeId => InInt64 nodeId
  | .missingReq nodeId _ => InInt64 nodeId
  | .missingAck nodeId _ record => InInt64 nodeId ∧ record.createdTime.InRange
  | .forceExec nodeId _ => InInt64 nodeId
  | .forwardReq nodeId _ => InInt64 nodeId

instance : ∀ msg : ConsensusMsg, Decidable msg.InRange
  | .acceptReq _ _ nodeId record =>
    inferInstanceAs (Decidable (InInt64 nodeId ∧ record.createdTime.InRange))
  | .acceptAck _ nodeId => inferInstanceAs (Decidable (InInt64 nodeId))
  | .missingReq nodeId _ => inferInstanceAs (Decidable (InInt64 nodeId))
  | .missingAck nodeId _ record =>
    inferInstanceAs (Decidable (InInt64 nodeId ∧ record.createdTime.InRange))
  | .forceExec nodeId _ => inferInstanceAs (Decidable (InInt64 nodeId))
  | .forwardReq nodeId _ => inferInstanceAs (Decidable (InInt64 nodeId))

/-- `ACCEPT_REQ_SIZE` and the others; a `missing_ack` is five bytes short of its record. -/
def size : ConsensusMsg → ℕ
  | .acceptReq _ _ _ record => 69 + record.data.length
  | .acceptAck _ _ => 24
  | .missingReq _ _ => 24
  | .missingAck _ _ record => 56 + record.data.length
  | .forceExec _ _ => 24
  | .forwardReq _ data => 20 + data.length

/-- What lies behind the bytes of a `missing_ack` makes up for those it lacks. -/
def Whole (behind : Memory) : ConsensusMsg → Prop
  | .missingAck _ _ record => Comp.RestBehind record behind
  | _ => True

theorem length_bytes (msg : ConsensusMsg) (padding : UInt32) (small : msg.size < 2 ^ 31) :
    (msg.bytes padding).length = msg.size := by
  cases msg with
  | acceptReq msgVs reqCanbeExed nodeId record =>
    simp [bytes, words, tail, size, ViewStamp.words]
    omega
  | missingAck nodeId missingVs record =>
    have room : record.data.length < 2147483620 := by
      simp only [size] at small
      omega
    have taken : (Comp.memsize record).toNat = 28 + record.data.length := by
      rw [Comp.memsize_of_small record room, Int.toNat_natCast]
    simp [bytes, words, tail, size, ViewStamp.words, taken]
    omega
  | forwardReq nodeId data => simp [bytes, words, tail, size]
  | acceptAck | missingReq | forceExec => simp [bytes, words, tail, size, ViewStamp.words]

theorem words_fit (msg : ConsensusMsg) (padding : UInt32) (small : msg.size < 2 ^ 31) :
    ∀ word ∈ msg.words padding, word.Fits := by
  have code (value : ℕ) (less : value < 6) : Word.Fits ⟨4, value⟩ := by
    simp only [Word.Fits]
    omega
  have length (value : ℕ) (less : value < 2 ^ 63) : Word.Fits ⟨8, value⟩ := by
    simp only [Word.Fits]
    omega
  cases msg with
  | acceptReq msgVs reqCanbeExed nodeId record =>
    have room : 33 + record.data.length < 2 ^ 63 := by
      simp only [size] at small
      omega
    simp [words, ViewStamp.words, wordOf_fits, Word.signed_fits, length _ room, code]
  | missingAck nodeId missingVs record =>
    have room : (Comp.memsize record).toNat < 2 ^ 63 := by
      have le := Comp.memsize_le record
      simp only [size] at small
      omega
    have fits := length _ room
    simp [words, ViewStamp.words, wordOf_fits, Word.signed_fits, fits, code]
  | forwardReq nodeId data =>
    have room : data.length < 2 ^ 63 := by
      simp only [size] at small
      omega
    simp [words, Word.signed_fits, length _ room, code]
  | acceptAck | missingReq | forceExec =>
    simp [words, ViewStamp.words, wordOf_fits, Word.signed_fits, code]

end ConsensusMsg

section Record

variable (record : RequestRecord)

theorem RequestRecord.packed_stateWords : packed record.stateWords = record.stateBytes := by
  simp [stateWords, stateBytes, packed_cons, TimeVal.words, Word.bytes, Word.signed, signedBytes,
    littleEndian]

theorem RequestRecord.stateWords_fit : ∀ word ∈ record.stateWords, word.Fits := by
  have closed : Word.Fits ⟨1, record.isClosed.toNat⟩ := record.isClosed.toNat_lt
  have bitMap : Word.Fits ⟨8, record.bitMap.toNat⟩ := record.bitMap.toNat_lt
  simp [stateWords, TimeVal.words, Word.signed_fits, closed, bitMap]

/-- The fields of a record that stands behind some bytes are read back. -/
theorem holds_stateWords (before after : List UInt8) (behind : Memory) :
    (Memory.placed (before ++ (record.stateBytes ++ after)) behind).Holds before.length
      record.stateWords := by
  rw [← record.packed_stateWords]
  exact Memory.holds_placed before record.stateWords after behind record.stateWords_fit

end Record

namespace ConsensusMsg

/-- A consensus message is read back from its bytes. -/
theorem consensusAt_bytes (msg : ConsensusMsg) (padding : UInt32) (behind : Memory)
    (range : msg.InRange) (small : msg.size < 2 ^ 31) (whole : msg.Whole behind) :
    consensusAt (Memory.placed (msg.bytes padding) behind) = some msg := by
  have holds := Memory.holds_placed [] (msg.words padding) msg.tail behind
    (msg.words_fit padding small)
  rw [List.nil_append, List.length_nil, ← bytes] at holds
  cases msg with
  | acceptReq msgVs reqCanbeExed nodeId record =>
    obtain ⟨time, length⟩ : record.createdTime.InRange ∧ record.data.length < 2 ^ 64 := by
      simp only [size] at small
      exact ⟨range.2, by omega⟩
    have fields := holds_stateWords record
      (packed ((acceptReq msgVs reqCanbeExed nodeId record).words padding)) record.payloadBytes
      behind
    have data := (recordAt_placed
      (packed ((acceptReq msgVs reqCanbeExed nodeId record).words padding)) [] behind
      ⟨record, length⟩).2
    rw [List.append_nil] at data
    have read := recordAt_of_holds time fields data
    simp only [words, Memory.holds_cons, Memory.holds_append] at holds
    obtain ⟨code, ⟨vs, canbeExed⟩, sender, -, -⟩ := holds
    simp only [ViewStamp.span_words, List.map_append, List.sum_append, Nat.reduceAdd,
      Word.width_signed] at code vs canbeExed sender
    rw [consensusAt, code]
    simp only [acceptReqAt, stampAt_of_holds vs, stampAt_of_holds canbeExed,
      signedAt_of_word range.1 sender]
    exact congrArg some (congrArg _ read)
  | acceptAck msgVs nodeId =>
    simp only [words, Memory.holds_cons, Memory.holds_append] at holds
    obtain ⟨code, vs, -, sender, -⟩ := holds
    simp only [ViewStamp.span_words, width_wordOf, Word.width_signed, Nat.reduceAdd]
      at code vs sender
    rw [consensusAt, code]
    simp only [stampAt_of_holds vs, signedAt_of_word range sender]
  | missingReq nodeId missingVs =>
    obtain ⟨code, -, sender, vs⟩ := holds
    simp only [width_wordOf, Word.width_signed, Nat.reduceAdd] at code sender vs
    rw [consensusAt, code]
    simp only [stampAt_of_holds vs, signedAt_of_word range sender]
  | missingAck nodeId missingVs record =>
    obtain ⟨time, room⟩ : record.createdTime.InRange ∧ record.data.length < 2147483620 := by
      simp only [size] at small
      exact ⟨range.2, by omega⟩
    have size := Comp.memsize_of_small record room
    -- the message gets to the data of the record, and what lies behind it goes on from there
    have fields := holds_stateWords record
      (packed ((missingAck nodeId missingVs record).words padding))
      (record.payloadBytes.take (record.data.length + 3)) behind
    have front : record.bytes.take (Comp.memsize record).toNat =
        record.stateBytes ++ record.payloadBytes.take (record.data.length + 3) := by
      have left : 28 + record.data.length - 25 = record.data.length + 3 := by omega
      rw [size, Int.toNat_natCast, RequestRecord.bytes, List.take_append,
        RequestRecord.length_stateBytes, left, List.take_of_length_le
          (by rw [RequestRecord.length_stateBytes]; omega)]
    have rest : Comp.RestBehind record behind := whole
    have length : record.data.length < 2 ^ 64 := by omega
    let sender := Comp.init true (nodeId % (256 ^ 8 : ℕ)).toNat 0
    have header : packed ((missingAck nodeId missingVs record).words padding) =
        sender.missingAckHeader (Comp.memsize record).toNat missingVs := by
      simp [words, packed_cons, Word.bytes, Word.signed, Comp.missingAckHeader, stampBytes,
        ViewStamp.words, wordOf, sender, Comp.init]
    have data := (Comp.missing_data_iff sender ⟨record, length⟩ missingVs behind
      (Comp.memsize record).toNat (Comp.memsize_le record)).mpr rest.2
    rw [← header] at data
    rw [← front] at fields
    have read := recordAt_of_holds time fields data
    simp only [words, Memory.holds_cons, Memory.holds_append] at holds
    obtain ⟨code, sender, vs, -, -⟩ := holds
    simp only [Word.width_signed, Nat.reduceAdd] at code sender vs
    rw [consensusAt, code]
    simp only [missingAckAt, signedAt_of_word range.1 sender, stampAt_of_holds vs]
    exact congrArg some (congrArg _ read)
  | forceExec nodeId highestCommittedOp =>
    obtain ⟨code, -, sender, vs⟩ := holds
    simp only [width_wordOf, Word.width_signed, Nat.reduceAdd] at code sender vs
    rw [consensusAt, code]
    simp only [stampAt_of_holds vs, signedAt_of_word range sender]
  | forwardReq nodeId data =>
    have payload := Memory.bytesAt_packed [] ((forwardReq nodeId data).words padding) data behind
    obtain ⟨code, sender, length, -⟩ := holds
    simp only [Word.width_signed, Nat.reduceAdd] at code sender length
    rw [consensusAt, code]
    simp only [forwardReqAt, signedAt_of_word range sender, length]
    exact congrArg some (congrArg _ payload)

/-! ## The builders -/

section Builders

variable (c : Comp) (record : RequestRecord) (vs : ViewStamp) (padding : UInt32)

theorem signed_nodeId (small : c.nodeId < 2 ^ 63) :
    (Word.signed 8 c.nodeId).value = c.nodeId := by
  have word : ((c.nodeId : Int) % (256 ^ 8 : ℕ)).toNat = c.nodeId := by omega
  exact word

/-- `build_accept_req`. -/
theorem bytes_buildAcceptReq (small : c.nodeId < 2 ^ 63) :
    (c.buildAcceptReq record vs).bytes padding = c.acceptReqBytes record.bytes vs := by
  simp [Comp.buildAcceptReq, bytes, words, tail, packed_cons, signed_nodeId c small,
    Comp.acceptReqBytes, Comp.acceptReqHeader, stampBytes, ViewStamp.words, Word.bytes, wordOf]

/-- `build_missing_ack`. -/
theorem bytes_buildMissingAck (small : c.nodeId < 2 ^ 63) (built : 0 ≤ Comp.memsize record) :
    c.missingAckBytes record vs = some ((missingAck c.nodeId vs record).bytes padding) := by
  rw [Comp.missingAckBytes, if_pos built]
  simp [bytes, words, tail, packed_cons, signed_nodeId c small, Comp.missingAckHeader, stampBytes,
    ViewStamp.words, Word.bytes, wordOf]

/-- `build_forward_req`. -/
theorem bytes_buildForwardReq (data : List UInt8) (small : c.nodeId < 2 ^ 63) :
    (c.buildForwardReq data).bytes padding = c.forwardReqBytes data := by
  simp [Comp.buildForwardReq, bytes, words, tail, packed_cons, signed_nodeId c small,
    Comp.forwardReqBytes, Word.bytes]

end Builders

end ConsensusMsg

/-! ## Frames -/

namespace SysMsg

/-- The signed fields of a message are in range. -/
def InRange : SysMsg → Prop
  | .pingReq nodeId view timestamp =>
    InInt64 nodeId ∧ InInt64 view.leaderId ∧ timestamp.InRange
  | .pingAck nodeId view timestamp =>
    InInt64 nodeId ∧ InInt64 view.leaderId ∧ timestamp.InRange
  | .requestSubmit _ => True
  | .consensus msg => msg.InRange
  | .leaderElection vcMsg _ => vcMsg.InRange

/-- `PING_REQ_SIZE` and the others. -/
def size : SysMsg → ℕ
  | .pingReq _ _ _ => 64
  | .pingAck _ _ _ => 64
  | .requestSubmit data => 16 + data.length
  | .consensus msg => 16 + msg.size
  | .leaderElection _ data => 72 + 4 * data.length

/-- The message fits its frame: its signed fields are in range, and it is below 2 GiB. -/
structure Fits (msg : SysMsg) : Prop where
  range : msg.InRange
  small : msg.size < 2 ^ 31

instance : ∀ msg : SysMsg, Decidable msg.InRange
  | .pingReq nodeId view timestamp =>
    inferInstanceAs (Decidable (InInt64 nodeId ∧ InInt64 view.leaderId ∧ timestamp.InRange))
  | .pingAck nodeId view timestamp =>
    inferInstanceAs (Decidable (InInt64 nodeId ∧ InInt64 view.leaderId ∧ timestamp.InRange))
  | .requestSubmit _ => .isTrue trivial
  | .consensus msg => inferInstanceAs (Decidable msg.InRange)
  | .leaderElection vcMsg _ => inferInstanceAs (Decidable vcMsg.InRange)

instance (msg : SysMsg) : Decidable msg.Fits :=
  decidable_of_iff (msg.InRange ∧ msg.size < 2 ^ 31)
    ⟨fun both => ⟨both.1, both.2⟩, fun fits => ⟨fits.range, fits.small⟩⟩

def Whole (behind : Memory) : SysMsg → Prop
  | .consensus msg => msg.Whole behind
  | _ => True

theorem code_lt (msg : SysMsg) : msg.code < 256 ^ 4 := by
  cases msg <;> simp [code]

theorem length_body (msg : SysMsg) (padding : ℕ → UInt32) (fits : msg.Fits) :
    16 + (msg.body padding).length = msg.size := by
  cases msg with
  | pingReq nodeId view timestamp => rw [body, length_packed]; rfl
  | pingAck nodeId view timestamp => rw [body, length_packed]; rfl
  | requestSubmit data => rfl
  | consensus msg =>
    have small := fits.small
    simp only [size] at small
    rw [body, msg.length_bytes (padding 0) (by omega), size]
  | leaderElection vcMsg data =>
    simp [body, size, LeleMsg.words, Function.comp_def]
    omega

theorem length_frame (msg : SysMsg) (padding : ℕ → UInt32) (fits : msg.Fits) :
    (msg.frame padding).length = msg.size := by
  rw [frame, List.length_append, length_headerBytes, msg.length_body padding fits]

/-- `send_for_consensus_comp` wraps a message with `build_consensus_msg`. -/
theorem frame_consensus (msg : ConsensusMsg) (padding : ℕ → UInt32) (small : msg.size < 2 ^ 31) :
    (consensus msg).frame padding = buildConsensusMsg (padding 2) (msg.bytes (padding 0)) := by
  have length := msg.length_bytes (padding 0) small
  rw [buildConsensusMsg_eq _ _ (by omega)]
  rfl

/-- `replica_on_read` takes the frame as a whole. -/
theorem isFrame_frame (msg : SysMsg) (padding : ℕ → UInt32) (fits : msg.Fits) :
    IsFrame 16 sysTotal (msg.frame padding) := by
  have length := msg.length_body padding fits
  have small := fits.small
  exact isFrame_sys msg.code (padding 2) (msg.body padding) (by omega)

/-- A message is read back from its frame, whatever the bytes between its fields are. -/
theorem sysMsgAt_frame (msg : SysMsg) (padding : ℕ → UInt32) (behind : Memory) (fits : msg.Fits)
    (whole : msg.Whole behind) :
    sysMsgAt (Memory.placed (msg.frame padding) behind) msg.size = some msg := by
  have total := msg.length_body padding fits
  have small := fits.small
  have range := fits.range
  have code := code_frame msg.code (padding 2) (msg.body padding) behind msg.code_lt
  have length := size_frame msg.code (padding 2) (msg.body padding) behind (by omega)
  have inner := offset_frame msg.code (padding 2) (msg.body padding) behind
  rw [← frame] at code length inner
  -- both pings have one layout
  have ping (code : ℕ) (nodeId : NodeId) (view : View) (timestamp : TimeVal)
      (range : InInt64 nodeId ∧ InInt64 view.leaderId ∧ timestamp.InRange) (m : Memory)
      (placed : m = Memory.placed (headerBytes code (padding 2) 48 ++
        packed (.signed 8 nodeId :: (view.words padding ++ timestamp.words))) behind) :
      signedAt m 16 8 = nodeId ∧ viewAt m 24 = view ∧ timeAt m 48 = timestamp := by
    have holds := Memory.holds_placed (headerBytes code (padding 2) 48)
      (.signed 8 nodeId :: (view.words padding ++ timestamp.words)) [] behind
      (by simp [View.words, TimeVal.words, wordOf_fits, Word.signed_fits])
    rw [List.append_nil, ← placed, length_headerBytes, Memory.holds_cons,
      Memory.holds_append] at holds
    obtain ⟨sender, held, time⟩ := holds
    exact ⟨signedAt_of_word range.1 sender, viewAt_of_holds range.2.1 held,
      timeAt_of_holds range.2.2 time⟩
  cases msg with
  | pingReq nodeId view timestamp =>
    obtain ⟨sender, held, time⟩ := ping 0 nodeId view timestamp range _ rfl
    rw [sysMsgAt, code]
    exact congrArg some (congr (congr (congrArg _ sender) held) time)
  | pingAck nodeId view timestamp =>
    obtain ⟨sender, held, time⟩ := ping 1 nodeId view timestamp range _ rfl
    rw [sysMsgAt, code]
    exact congrArg some (congr (congr (congrArg _ sender) held) time)
  | requestSubmit data =>
    have payload := Memory.bytesAt_placed (headerBytes 2 (padding 2) data.length) data [] behind
    rw [List.append_nil, length_headerBytes] at payload
    rw [sysMsgAt, code]
    simp only [SysMsg.code, length]
    exact congrArg some (congrArg _ payload)
  | consensus msg =>
    have room : msg.size < 2 ^ 31 := by
      simp only [size] at small
      omega
    rw [sysMsgAt, code]
    simp only [SysMsg.code, inner, body]
    -- a consensus message is a frame of its own inside the body
    rw [msg.consensusAt_bytes (padding 0) behind range room whole, Option.map_some]
  | leaderElection vcMsg data =>
    have holds := Memory.holds_placed (headerBytes 16 (padding 2)
      ((leaderElection vcMsg data).body padding).length) (vcMsg.words padding ++ data.map wordOf)
      [] behind (by
        have type : Word.Fits ⟨4, vcMsg.type.code⟩ := vcMsg.type.code_lt
        simp [LeleMsg.words, wordOf_fits, Word.signed_fits, type])
    rw [List.append_nil, length_headerBytes, Memory.holds_append] at holds
    have read := leleMsgAt_of_holds range holds.1
    have ids := idsAt_of_holds data holds.2
    rw [sysMsgAt, code]
    exact (congrArg (Option.map _) read).trans (congrArg some (congrArg _ ids))

end SysMsg

/-! ## Streams -/

/-- The bytes are a frame of the message. -/
def Encodes (msg : SysMsg) (frame : List UInt8) : Prop := ∃ padding, frame = msg.frame padding

/-- What a connection still holds: the rest of the input and the bytes ahead are frames of these
messages, and the first of them is not whole yet. -/
structure Unread (msgs : List SysMsg) (rest ahead : List UInt8) : Prop where
  frames : ∃ frames, List.Forall₂ Encodes msgs frames ∧ rest ++ ahead = frames.flatten ∧
    ∀ frame ∈ frames.head?, rest.length < frame.length

section Streams

variable {σ : Type}

/-- `handle_msg` on the frames of a connection, which are counted; `behind` is what lies behind
the block a frame is copied to. -/
def handleFrame (behind : ℕ → Memory) (handle : ℕ → σ → SysMsg → σ) (s : ℕ × σ)
    (frame : List UInt8) : ℕ × σ :=
  (s.1 + 1, match sysMsgAt (Memory.placed frame (behind s.1)) frame.length with
    | some msg => handle s.1 s.2 msg
    | none => s.2)

def handleMsgs (handle : ℕ → σ → SysMsg → σ) (s : ℕ × σ) (msgs : List SysMsg) : ℕ × σ :=
  msgs.foldl (fun s msg => (s.1 + 1, handle s.1 s.2 msg)) s

/-- The memory behind each message from the `k`-th on completes it. -/
def AllWhole (behind : ℕ → Memory) (k : ℕ) (msgs : List SysMsg) : Prop :=
  ∀ i, ∀ msg : SysMsg, msgs[i]? = some msg → msg.Whole (behind (k + i))

variable {behind : ℕ → Memory}

theorem AllWhole.append {k : ℕ} {first second : List SysMsg}
    (whole : AllWhole behind k (first ++ second)) :
    AllWhole behind k first ∧ AllWhole behind (k + first.length) second := by
  constructor
  · intro i msg found
    exact whole i msg (by rw [List.getElem?_append_left
      (List.getElem?_eq_some_iff.mp found).1, found])
  · intro i msg found
    rw [Nat.add_assoc]
    exact whole (first.length + i) msg (by
      rw [List.getElem?_append_right (Nat.le_add_right ..), Nat.add_sub_cancel_left, found])

theorem handleMsgs_append (handle : ℕ → σ → SysMsg → σ) (s : ℕ × σ) (first second : List SysMsg) :
    handleMsgs handle s (first ++ second) = handleMsgs handle (handleMsgs handle s first) second :=
  List.foldl_append ..

theorem handleMsgs_count (handle : ℕ → σ → SysMsg → σ) (s : ℕ × σ) (msgs : List SysMsg) :
    (handleMsgs handle s msgs).1 = s.1 + msgs.length := by
  induction msgs generalizing s with
  | nil => rfl
  | cons msg msgs ih =>
    have rest := ih (s.1 + 1, handle s.1 s.2 msg)
    rw [handleMsgs, List.foldl_cons, ← handleMsgs, rest, List.length_cons]
    omega

/-- On the frames of messages the handlers get the messages. -/
theorem fold_frames (handle : ℕ → σ → SysMsg → σ) (s : ℕ × σ) {msgs : List SysMsg}
    {frames : List (List UInt8)} (encoded : List.Forall₂ Encodes msgs frames)
    (fits : ∀ msg ∈ msgs, msg.Fits) (whole : AllWhole behind s.1 msgs) :
    frames.foldl (handleFrame behind handle) s = handleMsgs handle s msgs := by
  induction encoded generalizing s with
  | nil => rfl
  | @cons msg frame msgs frames first _ ih =>
    obtain ⟨padding, rfl⟩ := first
    have fits' := fits msg List.mem_cons_self
    have read := msg.sysMsgAt_frame padding (behind s.1) fits' (whole 0 msg rfl)
    have one : handleFrame behind handle s (msg.frame padding) =
        (s.1 + 1, handle s.1 s.2 msg) := by
      rw [handleFrame, msg.length_frame padding fits', read]
    have split : AllWhole behind s.1 ([msg] ++ msgs) := whole
    rw [List.foldl_cons, one, handleMsgs, List.foldl_cons, ← handleMsgs]
    exact ih _ (fun other member => fits other (List.mem_cons_of_mem _ member)) split.append.2

theorem encodes_of_mem {msgs : List SysMsg} {frames : List (List UInt8)}
    (encoded : List.Forall₂ Encodes msgs frames) {frame : List UInt8} (member : frame ∈ frames) :
    ∃ msg ∈ msgs, Encodes msg frame := by
  induction encoded with
  | nil => cases member
  | cons first _ ih =>
    rcases List.mem_cons.mp member with rfl | later
    · exact ⟨_, List.mem_cons_self, first⟩
    · obtain ⟨msg, sent, encodes⟩ := ih later
      exact ⟨msg, List.mem_cons_of_mem _ sent, encodes⟩

/-- One call of `replica_on_read` handles the messages whose frames are whole by now. -/
theorem Unread.onRead {msgs : List SysMsg} {rest chunk ahead : List UInt8}
    (unread : Unread msgs rest (chunk ++ ahead)) (handle : ℕ → σ → SysMsg → σ) (s : ℕ × σ)
    (fits : ∀ msg ∈ msgs, msg.Fits) (whole : AllWhole behind s.1 msgs) :
    ∃ read later rest', msgs = read ++ later ∧
      replicaOnRead (handleFrame behind handle) s (rest ++ chunk) =
        some (handleMsgs handle s read, rest') ∧ Unread later rest' ahead := by
  obtain ⟨frames, encoded, stream, -⟩ := unread
  have isFrame : ∀ frame ∈ frames, IsFrame 16 sysTotal frame := by
    intro frame member
    obtain ⟨msg, sent, padding, rfl⟩ := encodes_of_mem encoded member
    exact msg.isFrame_frame padding (fits msg sent)
  obtain ⟨read, rest', taken, later, rfl, left, short⟩ := readFrames_readOf 16 sysTotal
    (by decide) frames isFrame (rest ++ chunk) ahead ((rest ++ chunk).length + 1)
    (Nat.lt_succ_self _) (by rw [List.append_assoc, stream])
  have front := List.forall₂_take_append msgs read later encoded
  have back := List.forall₂_drop_append msgs read later encoded
  have split := (List.take_append_drop read.length msgs).symm
  rw [split] at whole
  refine ⟨_, _, rest', split, ?_, ⟨later, back, left, short⟩⟩
  rw [replicaOnRead, readLoop_eq, taken, Option.map_some,
    fold_frames handle s front (fun msg member => fits msg (List.mem_of_mem_take member))
      whole.append.1]

/-- However the frames of some messages are cut into chunks, the handlers get the messages in
their order, each as soon as its frame is whole. -/
theorem replicaReads_msgs {msgs : List SysMsg} {rest : List UInt8} {chunks : List (List UInt8)}
    {ahead : List UInt8} (unread : Unread msgs rest (chunks.flatten ++ ahead))
    (handle : ℕ → σ → SysMsg → σ) (s : ℕ × σ) (fits : ∀ msg ∈ msgs, msg.Fits)
    (whole : AllWhole behind s.1 msgs) :
    ∃ read later rest', msgs = read ++ later ∧
      replicaReads (handleFrame behind handle) s rest chunks =
        some (handleMsgs handle s read, rest') ∧ Unread later rest' ahead := by
  induction chunks generalizing msgs rest s with
  | nil => exact ⟨[], msgs, rest, rfl, rfl, unread⟩
  | cons chunk chunks ih =>
    rw [List.flatten_cons, List.append_assoc] at unread
    obtain ⟨read, later, rest', rfl, run, unread'⟩ := unread.onRead handle s fits whole
    have counted := handleMsgs_count handle s read
    obtain ⟨read', later', rest'', rfl, run', unread''⟩ := ih unread' (handleMsgs handle s read)
      (fun msg member => fits msg (List.mem_append_right _ member))
      (by rw [counted]; exact whole.append.2)
    refine ⟨read ++ read', later', rest'', (List.append_assoc ..).symm, ?_, unread''⟩
    rw [replicaReads, run, handleMsgs_append]
    exact run'

/-- With nothing ahead nothing is left. -/
theorem Unread.done {msgs : List SysMsg} {rest : List UInt8} (unread : Unread msgs rest []) :
    msgs = [] ∧ rest = [] := by
  obtain ⟨frames, encoded, left, short⟩ := unread
  rw [List.append_nil] at left
  cases encoded with
  | nil => exact ⟨rfl, left⟩
  | cons _ _ =>
    have less := short _ rfl
    rw [left, List.flatten_cons, List.length_append] at less
    omega

/-- The messages that nodes exchange survive the way: written as frames one after the other and cut
into chunks anywhere, they reach the handlers as they were, in their order and each once, as soon as
they are whole; when all has arrived, so have all of them. -/
theorem messages_received (behind : ℕ → Memory) (handle : ℕ → σ → SysMsg → σ) (s : σ)
    (msgs : List SysMsg) (frames : List (List UInt8)) (encoded : List.Forall₂ Encodes msgs frames)
    (fits : ∀ msg ∈ msgs, msg.Fits) (whole : AllWhole behind 0 msgs) (chunks : List (List UInt8))
    (ahead : List UInt8) (cut : chunks.flatten ++ ahead = frames.flatten) :
    ∃ read later rest, msgs = read ++ later ∧
      replicaReads (handleFrame behind handle) (0, s) [] chunks =
        some (handleMsgs handle (0, s) read, rest) ∧
      Unread later rest ahead ∧ (ahead = [] → read = msgs ∧ rest = []) := by
  have start : Unread msgs [] (chunks.flatten ++ ahead) := by
    refine ⟨frames, encoded, cut, fun frame first => ?_⟩
    obtain ⟨msg, sent, padding, rfl⟩ := encodes_of_mem encoded (List.mem_of_mem_head? first)
    have whole := (msg.isFrame_frame padding (fits msg sent)).whole
    rw [List.length_nil]
    omega
  obtain ⟨read, later, rest, split, run, unread⟩ :=
    replicaReads_msgs start handle (0, s) fits whole
  refine ⟨read, later, rest, split, run, unread, ?_⟩
  rintro rfl
  obtain ⟨rfl, rfl⟩ := unread.done
  exact ⟨by rw [split, List.append_nil], rfl⟩

/-- An acknowledgement and a ping, cut within the first frame. -/
theorem two_messages_received :
    let msgs : List SysMsg := [.consensus (.acceptAck ⟨1, 1⟩ 2), .pingReq 0 ⟨1, 0, 0⟩ ⟨5, 0⟩]
    let stream := (msgs.map (SysMsg.frame fun _ => 7)).flatten
    ∃ read later rest, msgs = read ++ later ∧
      replicaReads (handleFrame (fun _ => Memory.zero) fun _ heard msg => heard ++ [msg])
        (0, []) [] [stream.take 30, stream.drop 30] =
        some (handleMsgs (fun _ heard msg => heard ++ [msg]) (0, []) read, rest) ∧
      Unread later rest [] ∧ (([] : List UInt8) = [] → read = msgs ∧ rest = []) := by
  intro msgs stream
  refine messages_received (fun _ => Memory.zero) (fun _ heard msg => heard ++ [msg]) [] msgs
    (msgs.map (SysMsg.frame fun _ => 7)) ?_ ?_ ?_ [stream.take 30, stream.drop 30] [] ?_
  · exact .cons ⟨_, rfl⟩ (.cons ⟨_, rfl⟩ .nil)
  · intro msg member
    rcases List.mem_cons.mp member with rfl | member
    · exact ⟨⟨by decide, by decide⟩, by decide⟩
    · obtain rfl := List.mem_singleton.mp member
      exact ⟨⟨⟨by decide, by decide⟩, ⟨by decide, by decide⟩, ⟨by decide, by decide⟩,
        ⟨by decide, by decide⟩⟩, by decide⟩
  · intro i msg found
    have member := List.mem_of_getElem? found
    rcases List.mem_cons.mp member with rfl | member
    · trivial
    · obtain rfl := List.mem_singleton.mp member
      trivial
  · simp [stream]

end Streams

end LibeventPaxos
