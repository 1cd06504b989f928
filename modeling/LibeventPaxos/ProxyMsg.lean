import LibeventPaxos.RecordTransfer

/-!
`proxy/proxy.h` and `rsm-interface.h`: the messages a proxy submits and the frames its clients
send, in bytes.
-/
namespace LibeventPaxos

open Lib

/-- `proxy_action`. -/
inductive ProxyAction where
  | connect
  | send
  | close
  deriving DecidableEq, Repr

namespace ProxyAction

def code : ProxyAction → ℕ
  | .connect => 0
  | .send => 1
  | .close => 2

/-- The cases of the switch in `do_action_to_server`. -/
def ofCode : ℕ → Option ProxyAction
  | 0 => some .connect
  | 1 => some .send
  | 2 => some .close
  | _ => none

@[simp] theorem ofCode_code (action : ProxyAction) : ofCode action.code = some action := by
  cases action with
  | connect => rfl
  | send => rfl
  | close => rfl

theorem code_lt (action : ProxyAction) : action.code < 256 ^ 4 := by
  cases action with
  | connect => decide
  | send => decide
  | close => decide

end ProxyAction

/-- `proxy_connect_msg`, `proxy_send_msg` and `proxy_close_msg`; only a `proxy_send_msg` has data,
and its length fits in a `size_t`. `padding` stands for the bytes between `action` and the times. -/
structure ProxyMsg where
  action : ProxyAction
  padding : UInt32
  receivedTime : TimeVal
  createdTime : TimeVal
  connectionId : UInt64
  counter : UInt64
  data : List UInt8
  fits : data.length < 2 ^ 64

/-! ## Bytes -/

def timeBytes (time : TimeVal) : List UInt8 :=
  signedBytes 8 time.tvSec ++ signedBytes 8 time.tvUsec

@[simp] theorem length_timeBytes (time : TimeVal) : (timeBytes time).length = 16 := by
  simp [timeBytes, signedBytes]

/-- A `sys_msg_header` and a `client_msg_header`: a code, padding and a `size_t`. -/
def headerBytes (code : ℕ) (padding : UInt32) (dataSize : ℕ) : List UInt8 :=
  littleEndian 4 code ++ littleEndian 4 padding.toNat ++ littleEndian 8 dataSize

/-- `SYS_MSG_HEADER_SIZE` and `CLIENT_MSG_HEADER_SIZE`. -/
@[simp] theorem length_headerBytes (code : ℕ) (padding : UInt32) (dataSize : ℕ) :
    (headerBytes code padding dataSize).length = 16 := by
  simp [headerBytes]

namespace ProxyMsg

/-- `proxy_msg_header`. -/
def header (msg : ProxyMsg) : List UInt8 :=
  littleEndian 4 msg.action.code ++ littleEndian 4 msg.padding.toNat ++
    timeBytes msg.receivedTime ++ timeBytes msg.createdTime ++
    littleEndian 8 msg.connectionId.toNat ++ littleEndian 8 msg.counter.toNat

/-- What follows the header: `data_size` and `data` of a `proxy_send_msg`. -/
def body (msg : ProxyMsg) : List UInt8 :=
  match msg.action with
  | .send => littleEndian 8 msg.data.length ++ msg.data
  | .connect => []
  | .close => []

def bytes (msg : ProxyMsg) : List UInt8 := msg.header ++ msg.body

/-- `PROXY_MSG_HEADER_SIZE`. -/
@[simp] theorem length_header (msg : ProxyMsg) : msg.header.length = 56 := by
  simp [header]

theorem body_send (msg : ProxyMsg) (send : msg.action = .send) :
    msg.body = littleEndian 8 msg.data.length ++ msg.data := by
  rw [body, send]

/-- `PROXY_SEND_MSG_SIZE`. -/
theorem length_bytes_send (msg : ProxyMsg) (send : msg.action = .send) :
    msg.bytes.length = 64 + msg.data.length := by
  rw [bytes, body_send msg send]
  simp only [List.length_append, length_header, length_littleEndian]
  omega

theorem length_bytes_le (msg : ProxyMsg) : msg.bytes.length ≤ 64 + msg.data.length := by
  cases kind : msg.action with
  | send => exact le_of_eq (msg.length_bytes_send kind)
  | connect =>
    simp only [bytes, body, kind, List.append_nil, length_header]
    omega
  | close =>
    simp only [bytes, body, kind, List.append_nil, length_header]
    omega

end ProxyMsg

/-- `client_msg`. -/
structure ClientMsg where
  padding : UInt32
  data : List UInt8

/-- A `client_msg_header` with the code `C_SEND_WR`, then the data. -/
def ClientMsg.bytes (msg : ClientMsg) : List UInt8 :=
  headerBytes 0 msg.padding msg.data.length ++ msg.data

/-- `req_sub_msg`: `padding` stands for the bytes its header leaves unset. -/
structure ReqSubMsg where
  padding : UInt32
  msg : ProxyMsg

/-- A `sys_msg_header` with the code `REQUEST_SUBMIT`, then the message. -/
def ReqSubMsg.bytes (request : ReqSubMsg) : List UInt8 :=
  headerBytes 2 request.padding request.msg.bytes.length ++ request.msg.bytes

/-! ## Reading a message -/

def actionAt (m : Memory) : Option ProxyAction := ProxyAction.ofCode (m.wordAt 0 4)

def connectionIdAt (m : Memory) : UInt64 := UInt64.ofNat (m.wordAt 40 8)

/-- `msg->data` of `msg->data_size` bytes, whatever the size of the message is. -/
def sendDataAt (m : Memory) : List UInt8 := m.bytesAt 64 (m.wordAt 56 8)

section Placed

variable (msg : ProxyMsg) (behind : Memory)

@[simp] theorem actionAt_placed : actionAt (Memory.placed msg.bytes behind) = some msg.action := by
  have read := wordAt_placed [] (littleEndian 4 msg.padding.toNat ++
    (timeBytes msg.receivedTime ++ (timeBytes msg.createdTime ++
      (littleEndian 8 msg.connectionId.toNat ++ (littleEndian 8 msg.counter.toNat ++ msg.body)))))
    behind 4 msg.action.code msg.action.code_lt
  rw [List.nil_append, List.length_nil] at read
  simp only [actionAt, ProxyMsg.bytes, ProxyMsg.header, List.append_assoc, read,
    ProxyAction.ofCode_code]

@[simp] theorem connectionIdAt_placed :
    connectionIdAt (Memory.placed msg.bytes behind) = msg.connectionId := by
  have read := wordAt_placed (littleEndian 4 msg.action.code ++ (littleEndian 4 msg.padding.toNat ++
    (timeBytes msg.receivedTime ++ timeBytes msg.createdTime)))
    (littleEndian 8 msg.counter.toNat ++ msg.body) behind 8 msg.connectionId.toNat
    msg.connectionId.toNat_lt
  simp only [List.length_append, length_littleEndian, length_timeBytes, Nat.reduceAdd,
    List.append_assoc] at read
  simp only [connectionIdAt, ProxyMsg.bytes, ProxyMsg.header, List.append_assoc, read,
    UInt64.ofNat_toNat]

/-- The data of a `proxy_send_msg` is read back. -/
theorem sendDataAt_placed (send : msg.action = .send) :
    sendDataAt (Memory.placed msg.bytes behind) = msg.data := by
  have size := wordAt_placed msg.header msg.data behind 8 msg.data.length
    (by have fits := msg.fits; omega)
  have data := Memory.bytesAt_placed (msg.header ++ littleEndian 8 msg.data.length) msg.data []
    behind
  simp only [List.length_append, ProxyMsg.length_header, length_littleEndian, Nat.reduceAdd,
    List.append_assoc, List.append_nil] at size data
  rw [sendDataAt, ProxyMsg.bytes, ProxyMsg.body_send msg send, size, data]

end Placed

end LibeventPaxos
