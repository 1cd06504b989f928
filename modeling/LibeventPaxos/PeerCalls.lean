import LibeventPaxos.ConsensusFrame

/-!
Whom a consensus component addresses: the sender of the message it answers, its leader, or every
other node. Each message carries the id of the node that sends it.
-/
namespace LibeventPaxos

/-- The `node_id` of a consensus message. -/
def ConsensusMsg.sender : ConsensusMsg → NodeId
  | .acceptReq _ _ nodeId _ => nodeId
  | .acceptAck _ nodeId => nodeId
  | .missingReq nodeId _ => nodeId
  | .missingAck nodeId _ _ => nodeId
  | .forceExec nodeId _ => nodeId
  | .forwardReq nodeId _ => nodeId

namespace Comp

/-- What goes to all others under the node's own id. -/
inductive Broadcast (nodeId : NodeId) : Int × ConsensusMsg → Prop
  | acceptReq (msgVs reqCanbeExed : ViewStamp) (record : RequestRecord) :
      Broadcast nodeId (-1, .acceptReq msgVs reqCanbeExed nodeId record)
  | missingReq (vs : ViewStamp) : Broadcast nodeId (-1, .missingReq nodeId vs)
  | forceExec (vs : ViewStamp) : Broadcast nodeId (-1, .forceExec nodeId vs)

/-- `handle_accept_req` stores the request and acknowledges it. -/
def AcceptsReq (env : Env) (c : Comp) (msgVs : ViewStamp) (nodeId : NodeId) : Prop :=
  c.curView.viewId.toNat ≤ msgVs.viewId.toNat ∧
    (msgVs.viewId = c.curView.viewId → nodeId = c.curView.leaderId) ∧
    (vstol c.highestCommittedVs).toNat < (vstol msgVs).toNat ∧ env.storeOk = true

instance (env : Env) (c : Comp) (msgVs : ViewStamp) (nodeId : NodeId) :
    Decidable (AcceptsReq env c msgVs nodeId) :=
  inferInstanceAs (Decidable (_ ∧ (_ → _) ∧ _ ∧ _))

/-- The message with which a call is answered, and to whom it goes. -/
def answer (c : Comp) : Env × CompEvent → Option (Int × ConsensusMsg)
  | (env, .message (.acceptReq msgVs _ nodeId _)) =>
    if c.AcceptsReq env msgVs nodeId then some (nodeId, .acceptAck msgVs c.nodeId) else none
  | (env, .message (.missingReq nodeId missingVs)) =>
    (c.buildMissingAck env missingVs).map fun reply => (nodeId, reply)
  | (_, .submit data) =>
    if c.myRole = .leader then none else some (c.curView.leaderId, c.buildForwardReq data)
  | _ => none

/-- What is sent from `c` to `c'` is the answer, and besides it what goes to all others. -/
def Answers (reply : Option (Int × ConsensusMsg)) (c c' : Comp) : Prop :=
  ∃ sent, c'.upCalls = c.upCalls ++ (reply.toList ++ sent) ∧
    ∀ call ∈ sent, Broadcast c.nodeId call

section Answers

variable {reply : Option (Int × ConsensusMsg)} {c c' before : Comp}

theorem Answers.silent (same : c'.upCalls = c.upCalls) : Answers none c c' :=
  ⟨[], by rw [same, Option.toList_none, List.append_nil, List.append_nil],
    fun call member => by cases member⟩

theorem Answers.one (call : Int × ConsensusMsg) (same : c'.upCalls = c.upCalls ++ [call]) :
    Answers (some call) c c' :=
  ⟨[], by rw [same, Option.toList_some, List.append_nil], fun call member => by cases member⟩

/-- Further messages to all others. -/
theorem Answers.others (first : Answers reply c before) (sent : List (Int × ConsensusMsg))
    (calls : c'.upCalls = before.upCalls ++ sent) (own : ∀ call ∈ sent, Broadcast c.nodeId call) :
    Answers reply c c' := by
  obtain ⟨earlier, same, known⟩ := first
  refine ⟨earlier ++ sent, by rw [calls, same]; simp only [List.append_assoc], ?_⟩
  intro call member
  rcases List.mem_append.mp member with old | new
  · exact known call old
  · exact own call new

/-- Execution asks all others for what is missing. -/
theorem Answers.executed (first : Answers reply c before) (same : SameRecords before c')
    (nodeId : before.nodeId = c.nodeId) : Answers reply c c' := by
  obtain ⟨missing, only, calls⟩ := same.sends
  refine first.others missing calls fun call member => ?_
  obtain ⟨vs, rfl⟩ := only call member
  rw [nodeId]
  exact .missingReq vs

theorem answers_leaderHandleSubmitReq (env : Env) (c : Comp) (data : List UInt8) :
    Answers none c (leaderHandleSubmitReq env c data).1 := by
  rcases leaderHandleSubmitReq_cases env c data with
    ⟨-, failed⟩ | ⟨-, submitted, equal, ⟨-, sent⟩ | ⟨-, executed⟩⟩
  · rw [failed]
    exact .silent rfl
  · have taken : Answers none c submitted := .silent (by rw [equal])
    refine taken.others [(-1, submitted.buildAcceptReq (submitRecord env c data)
      c.getNextViewStamp)] (by rw [sent]; rfl) fun call member => ?_
    obtain rfl := List.mem_singleton.mp member
    have own : submitted.nodeId = c.nodeId := by rw [equal]
    rw [buildAcceptReq, own]
    exact .acceptReq _ _ _
  · have taken : Answers none c submitted := .silent (by rw [equal])
    rw [executed]
    exact taken.executed (sameRecords_tryToExecute env submitted) (by rw [equal])

theorem answers_consensusMakeProgress (env : Env) (c : Comp) :
    Answers none c (consensusMakeProgress env c) := by
  rw [Comp.consensusMakeProgress]
  split
  next secondary => exact .silent rfl
  next leader =>
    have same := sameRecords_leaderTryToExecute env c
    have scanned : Answers none c (leaderTryToExecute env c) := .executed (.silent rfl) same rfl
    have nodeId := same.nodeId
    generalize Comp.leaderTryToExecute env c = before at scanned nodeId
    simp only
    split
    next faulty => exact scanned
    next running =>
      obtain ⟨sent, fault, resent, result, -⟩ := retransmit_spec env before
      have again : Answers none c (retransmit env before) := by
        refine scanned.others sent (by rw [result]) fun call member => ?_
        obtain ⟨vs, value, -, -, -, rfl⟩ := resent call member
        rw [buildAcceptReq, nodeId]
        exact .acceptReq _ _ _
      split
      next faulty => exact again
      next running =>
        refine again.others [(-1, (retransmit env before).buildForceExec)] rfl fun call member => ?_
        obtain rfl := List.mem_singleton.mp member
        have own : (retransmit env before).nodeId = c.nodeId := by rw [result]; exact nodeId
        rw [buildForceExec, own]
        exact .forceExec _

private theorem answers_message (env : Env) (c : Comp) (msg : ConsensusMsg) :
    Answers (c.answer (env, .message msg)) c (consensusHandleMsg env c msg) := by
  cases msg with
  | acceptReq msgVs reqCanbeExed nodeId record =>
    -- the accept request is answered at most once, and the execution after it only asks
    have same := sameRecords_tryToExecute env (storeAcceptReq env c msgVs reqCanbeExed nodeId record)
    obtain ⟨seen, toCommit, noted, -⟩ := noteAcceptReq_cases c msgVs reqCanbeExed
    simp only [answer]
    rcases storeAcceptReq_cases env c msgVs reqCanbeExed nodeId record with
      ⟨ignored, older⟩ | ⟨inView, known, fresh, ⟨refused, failed⟩ | ⟨stores, stored⟩⟩
    · have unanswered : ¬ c.AcceptsReq env msgVs nodeId := by
        rintro ⟨inView, known, fresh, -⟩
        rcases older with before | ⟨view, stranger⟩ | done
        · omega
        · exact stranger (known view)
        · omega
      rw [if_neg unanswered]
      refine Answers.executed (.silent ?_) same ?_
      · rw [ignored]
      · rw [ignored]
    · have unanswered : ¬ c.AcceptsReq env msgVs nodeId := by
        rintro ⟨-, -, -, stores⟩
        exact absurd (refused.symm.trans stores) Bool.false_ne_true
      rw [if_neg unanswered]
      refine Answers.executed (.silent ?_) same ?_
      · rw [failed, noted]
      · rw [failed, noted]
    · rw [if_pos ⟨inView, known, fresh, stores⟩]
      refine Answers.executed (.one (nodeId, .acceptAck msgVs c.nodeId) ?_) same ?_
      · rw [stored]
      · rw [stored, noted]
  | acceptAck msgVs nodeId =>
    have same := sameRecords_tryToExecute env (storeAcceptAck env c msgVs nodeId)
    rcases storeAcceptAck_cases env c msgVs nodeId with ignored | ⟨-, -, -, value, -, stored⟩
    · refine Answers.executed (.silent ?_) same ?_
      · rw [ignored]
      · rw [ignored]
    · refine Answers.executed (.silent ?_) same ?_
      · rw [stored]
      · rw [stored]
  | missingReq nodeId missingVs =>
    simp only [consensusHandleMsg, handleMissingReq, answer]
    split
    next nothing =>
      rw [nothing]
      exact .silent rfl
    next reply built =>
      rw [built]
      exact .one (nodeId, reply) rfl
  | missingAck nodeId missingVs record =>
    simp only [consensusHandleMsg]
    rcases handleMissingAck_cases env c missingVs record with
      ⟨ignored, -⟩ | ⟨-, -, ⟨-, failed⟩ | ⟨-, stored⟩⟩
    · rw [ignored]
      exact .silent rfl
    · rw [failed]
      exact Answers.executed (.silent rfl) (sameRecords_tryToExecute env c) rfl
    · have same := sameRecords_tryToExecute env { c with
        db := c.db.storeRecord (vstol missingVs) (.request (missingRecord env record)) }
      rw [stored]
      refine Answers.executed ?_ same ?_
      · exact .silent rfl
      · rfl
  | forceExec nodeId highestCommittedOp =>
    simp only [consensusHandleMsg]
    rcases handleForceExec_cases env c nodeId highestCommittedOp with ⟨ignored, -⟩ | ⟨-, -, moved⟩
    · rw [ignored]
      exact .silent rfl
    · have same := sameRecords_tryToExecute env
        { c with highestToCommitVs := highestCommittedOp }
      rw [moved]
      refine Answers.executed ?_ same ?_
      · exact .silent rfl
      · rfl
  | forwardReq nodeId data =>
    simp only [consensusHandleMsg, handleForwardReq]
    split
    next secondary => exact .silent rfl
    next leader => exact answers_leaderHandleSubmitReq env c data

/-- Every call of the component. -/
theorem answers_handle (c : Comp) (e : Env × CompEvent) (running : c.fault = none) :
    Answers (c.answer e) c (c.handle e) := by
  obtain ⟨env, event⟩ := e
  cases event with
  | message msg => exact answers_message env c msg
  | submit data =>
    simp only [Comp.handle, consensusSubmitRequest, answer]
    split
    next leader => exact answers_leaderHandleSubmitReq env c data
    next secondary => exact .one (c.curView.leaderId, c.buildForwardReq data) rfl
  | makeProgress => exact answers_consensusMakeProgress env c
  | updateView newViewInfo =>
    simp only [Comp.handle]
    rcases updateView_cases env c newViewInfo running with
      ⟨ignored, -⟩ | ⟨-, ⟨-, failed⟩ | entered⟩
    · rw [ignored]
      exact .silent rfl
    · rw [failed]
      exact .silent rfl
    · rw [entered]
      exact .silent rfl
  | acceptorUpdateRecord nextView record => exact .silent rfl

end Answers

/-- The only node, besides all others, a call may address. -/
def replyTarget (c : Comp) : CompEvent → Option Int
  | .message (.acceptReq _ _ nodeId _) => some nodeId
  | .message (.missingReq nodeId _) => some nodeId
  | .submit _ => if c.myRole = .leader then none else some c.curView.leaderId
  | _ => none

/-- What is sent from `c` to `c'` goes to all others or to `reply`, under the sender's own id. -/
def Sends (reply : Option Int) (c c' : Comp) : Prop :=
  ∃ sent, c'.upCalls = c.upCalls ++ sent ∧
    ∀ call ∈ sent, call.2.sender = c.nodeId ∧ (call.1 = -1 ∨ reply = some call.1)

/-- An answer goes to the node that is answered. -/
theorem answer_addressed (c : Comp) (e : Env × CompEvent) (call : Int × ConsensusMsg)
    (answers : c.answer e = some call) :
    call.2.sender = c.nodeId ∧ c.replyTarget e.2 = some call.1 := by
  obtain ⟨env, event⟩ := e
  cases event with
  | message msg =>
    cases msg with
    | acceptReq msgVs reqCanbeExed nodeId record =>
      simp only [answer] at answers
      split at answers
      next accepts =>
        obtain rfl := Option.some.inj answers
        exact ⟨rfl, rfl⟩
      next => cases answers
    | missingReq nodeId missingVs =>
      obtain ⟨reply, built, rfl⟩ := Option.map_eq_some_iff.mp answers
      simp only [buildMissingAck] at built
      split at built
      next => cases built
      next value found =>
        split at built
        next fits =>
          obtain rfl := Option.some.inj built
          exact ⟨rfl, rfl⟩
        next => cases built
    | acceptAck | missingAck | forceExec | forwardReq => cases answers
  | submit data =>
    simp only [answer, replyTarget] at answers ⊢
    split at answers
    next => cases answers
    next secondary =>
      obtain rfl := Option.some.inj answers
      exact ⟨rfl, if_neg secondary⟩
  | makeProgress | updateView | acceptorUpdateRecord => cases answers

theorem sends_handle (c : Comp) (e : Env × CompEvent) (running : c.fault = none) :
    Sends (c.replyTarget e.2) c (c.handle e) := by
  obtain ⟨sent, calls, broadcast⟩ := answers_handle c e running
  refine ⟨_, calls, fun call member => ?_⟩
  rcases List.mem_append.mp member with answers | others
  · obtain ⟨own, address⟩ := c.answer_addressed e call (Option.mem_toList.mp answers)
    exact ⟨own, .inr address⟩
  · cases broadcast call others with
    | acceptReq | missingReq | forceExec => exact ⟨rfl, .inl rfl⟩

end Comp

end LibeventPaxos
