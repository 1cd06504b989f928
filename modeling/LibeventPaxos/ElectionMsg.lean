import LibeventPaxos.ConsensusMsg

/-! `leader-election/view_controller.h` and `replica-sys/message.h`: the messages nodes exchange. -/
namespace LibeventPaxos

/-- `lele_msg_type`. -/
inductive LeleType where
  | prepare
  | prepareAck
  | accept
  | acceptAck
  | announce
  | announceAck
  | fin
  | lagged
  | higherNode
  deriving DecidableEq, Repr

/-- `lele_msg`; `pnum_t` and `node_id_t` are 64-bit. -/
structure LeleMsg where
  type : LeleType
  nodeId : NodeId
  nextView : UInt32
  pnum : Int
  pPnum : Int
  content : NodeId
  lastReq : UInt32
  startReq : UInt32
  deriving DecidableEq, Repr

/-- `sys_msg`; the request ids of a `lele_edge_msg` follow its `lele_msg`, any other election
message is followed by none. -/
inductive SysMsg where
  | pingReq (nodeId : NodeId) (view : View) (timestamp : TimeVal)
  | pingAck (nodeId : NodeId) (view : View) (timestamp : TimeVal)
  | consensus (msg : ConsensusMsg)
  | requestSubmit (data : List UInt8)
  | leaderElection (vcMsg : LeleMsg) (data : List UInt32)
  deriving DecidableEq, Repr

end LibeventPaxos
