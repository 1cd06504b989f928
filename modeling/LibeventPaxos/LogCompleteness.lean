import LibeventPaxos.LeaderLog
import LibeventPaxos.StampOwnership

/-!
Which keys a leader scans and what it finds there, over any interleaving of view changes, messages
and timers: as long as a leader takes no request of a later view, every key it looks at holds a
request with a bit map it has set, and none of its calls fails.
-/
namespace LibeventPaxos

open Lib

namespace Comp

/-! ## Senders -/

/-- Requests, acknowledgements and commit points carry the id of the node that sends them. -/
def SenderIs (nodeId : NodeId) : ConsensusMsg → Prop
  | .acceptReq _ _ sender _ => sender = nodeId
  | .acceptAck _ sender => sender = nodeId
  | .forceExec sender _ => sender = nodeId
  | _ => True

def Signed (c : Comp) : Prop := ∀ call ∈ c.upCalls, SenderIs c.nodeId call.2

section Signed

variable {c c' : Comp}

/-- New messages of the same node. -/
theorem Signed.sends (signed : c.Signed) (sent : List (Int × ConsensusMsg))
    (own : ∀ call ∈ sent, SenderIs c.nodeId call.2) (calls : c'.upCalls = c.upCalls ++ sent)
    (same : c'.nodeId = c.nodeId) : c'.Signed := by
  intro call member
  rw [calls] at member
  rw [same]
  rcases List.mem_append.mp member with old | new
  · exact signed call old
  · exact own call new

theorem Signed.silent (signed : c.Signed) (calls : c'.upCalls = c.upCalls)
    (same : c'.nodeId = c.nodeId) : c'.Signed :=
  signed.sends [] (by simp) (by rw [calls, List.append_nil]) same

theorem Signed.uc (signed : c.Signed) (target : Int) (msg : ConsensusMsg)
    (own : SenderIs c.nodeId msg) : (c.uc target msg).Signed :=
  signed.sends [(target, msg)] (fun call member => by
    obtain rfl := List.mem_singleton.mp member
    exact own) rfl rfl

theorem Signed.sameRecords (signed : c.Signed) (same : SameRecords c c') : c'.Signed := by
  obtain ⟨missing, only, calls⟩ := same.sends
  refine signed.sends missing ?_ calls same.nodeId
  intro call member
  obtain ⟨vs, rfl⟩ := only call member
  trivial

theorem Signed.leaderHandleSubmitReq (signed : c.Signed) (env : Env) (data : List UInt8) :
    (leaderHandleSubmitReq env c data).1.Signed := by
  rcases leaderHandleSubmitReq_cases env c data with ⟨-, failed⟩ | ⟨-, submitted, equal, result⟩
  · rwa [failed]
  · have taken : submitted.Signed := by
      rw [equal]
      exact signed.silent rfl rfl
    rcases result with ⟨-, sent⟩ | ⟨-, executed⟩
    · rw [sent]
      exact taken.uc _ _ rfl
    · rw [executed]
      exact taken.sameRecords (sameRecords_tryToExecute env _)

theorem Signed.consensusMakeProgress (signed : c.Signed) (env : Env) :
    (consensusMakeProgress env c).Signed := by
  rw [Comp.consensusMakeProgress]
  split
  next secondary => exact signed
  next leader =>
    have scanned := signed.sameRecords (sameRecords_leaderTryToExecute env c)
    generalize Comp.leaderTryToExecute env c = before at scanned
    simp only
    split
    next faulty => exact scanned
    next running =>
      obtain ⟨sent, fault, resent, result, -⟩ := retransmit_spec env before
      have again : (retransmit env before).Signed := by
        rw [result]
        refine scanned.sends sent ?_ rfl rfl
        intro call member
        obtain ⟨vs, value, -, -, -, rfl⟩ := resent call member
        exact rfl
      split
      next faulty => exact again
      next running => exact again.uc _ _ rfl

theorem Signed.message (signed : c.Signed) (env : Env) (msg : ConsensusMsg) :
    (consensusHandleMsg env c msg).Signed := by
  cases msg with
  | acceptReq msgVs reqCanbeExed nodeId record =>
    refine Signed.sameRecords ?_ (sameRecords_tryToExecute env _)
    obtain ⟨seen, toCommit, noted, -⟩ := noteAcceptReq_cases c msgVs reqCanbeExed
    rcases storeAcceptReq_cases env c msgVs reqCanbeExed nodeId record with
      ⟨ignored, -⟩ | ⟨-, -, -, ⟨-, failed⟩ | ⟨-, stored⟩⟩
    · rwa [ignored]
    · rw [failed, noted]
      exact signed.silent rfl rfl
    -- the one message it sends of its own bears its own id
    · rw [stored, noted]
      refine signed.sends [(nodeId, .acceptAck msgVs c.nodeId)] ?_ rfl rfl
      intro call member
      obtain rfl := List.mem_singleton.mp member
      exact rfl
  | acceptAck msgVs nodeId =>
    refine Signed.sameRecords ?_ (sameRecords_tryToExecute env _)
    rcases storeAcceptAck_cases env c msgVs nodeId with ignored | ⟨-, -, -, value, -, stored⟩
    · rwa [ignored]
    · rw [stored]
      exact signed.silent rfl rfl
  | missingReq nodeId missingVs =>
    simp only [consensusHandleMsg]
    rcases handleMissingReq_cases env c nodeId missingVs with silent | ⟨value, -, answers⟩
    · rwa [silent]
    · rw [answers]
      exact signed.uc _ _ trivial
  | missingAck nodeId missingVs record =>
    simp only [consensusHandleMsg]
    rcases handleMissingAck_cases env c missingVs record with
      ⟨ignored, -⟩ | ⟨-, -, ⟨-, failed⟩ | ⟨-, stored⟩⟩
    · rwa [ignored]
    · rw [failed]
      exact signed.sameRecords (sameRecords_tryToExecute env c)
    · rw [stored]
      refine Signed.sameRecords ?_ (sameRecords_tryToExecute env _)
      exact signed.silent rfl rfl
  | forceExec nodeId highestCommittedOp =>
    simp only [consensusHandleMsg]
    rcases handleForceExec_cases env c nodeId highestCommittedOp with ⟨ignored, -⟩ | ⟨-, -, moved⟩
    · rwa [ignored]
    · rw [moved]
      refine Signed.sameRecords ?_ (sameRecords_tryToExecute env _)
      exact signed.silent rfl rfl
  | forwardReq nodeId data =>
    simp only [consensusHandleMsg, handleForwardReq]
    split
    next secondary => exact signed
    next leader => exact signed.leaderHandleSubmitReq env data

theorem Signed.handle (signed : c.Signed) (running : c.fault = none) (e : Env × CompEvent) :
    (handle c e).Signed := by
  obtain ⟨env, event⟩ := e
  cases event with
  | message msg => exact signed.message env msg
  | submit data =>
    simp only [Comp.handle, consensusSubmitRequest]
    split
    next leader => exact signed.leaderHandleSubmitReq env data
    next secondary => exact signed.uc _ _ trivial
  | makeProgress => exact signed.consensusMakeProgress env
  | updateView newViewInfo =>
    simp only [Comp.handle]
    rcases updateView_cases env c newViewInfo running with
      ⟨ignored, -⟩ | ⟨-, ⟨-, failed⟩ | entered⟩
    · rwa [ignored]
    · rw [failed]
      exact signed.silent rfl rfl
    · rw [entered]
      exact signed.silent rfl rfl
  | acceptorUpdateRecord nextView record => exact signed.silent rfl rfl

end Signed

/-! ## A leader of a group -/

/-- The bit map has been set: it is the leader's own bit with those of group members. -/
def BitsSet (n : ℕ) (nodeId : NodeId) (record : RequestRecord) : Prop :=
  ∃ senders : List NodeId, (∀ sender ∈ senders, ∃ j : Fin n, sender = (j : ℕ)) ∧
    record.bitMap = ackBits nodeId senders

theorem BitsSet.updateRecord {n : ℕ} {nodeId : NodeId} {record : RequestRecord}
    (set : BitsSet n nodeId record) (j : Fin n) :
    BitsSet n nodeId (updateRecord record (j : ℕ)) := by
  obtain ⟨senders, members, bits⟩ := set
  refine ⟨senders ++ [((j : ℕ) : Int)], ?_, ?_⟩
  · intro sender member
    rcases List.mem_append.mp member with old | new
    · exact members sender old
    · exact ⟨j, List.mem_singleton.mp new⟩
  · rw [ackBits_append, ← bits]
    rfl

/-- A leader handles a request of a view it has not entered. -/
def TakesLaterView (c : Comp) : CompEvent → Prop
  | .message (.acceptReq msgVs _ _ _) => c.myRole = .leader ∧
      c.curView.viewId < msgVs.viewId ∧ viewStampComp c.highestCommittedVs msgVs < 0
  | _ => False

def WrapsView : CompEvent → Prop
  | .updateView newViewInfo => newViewInfo.viewId = 0
  | _ => False

/-- No leader handles a request of a later view, the largest stamp is given to no request, and view
numbers do not wrap. -/
def KeepsLog (c : Comp) (e : Env × CompEvent) : Prop :=
  ¬ c.TakesLaterView e.2 ∧ (c.taken e ≠ none → c.getNextViewStamp ≠ largestVs) ∧ ¬ WrapsView e.2

instance (c : Comp) : ∀ event, Decidable (c.TakesLaterView event)
  | .message (.acceptReq _ _ _ _) => inferInstanceAs (Decidable (_ ∧ _ ∧ _))
  | .message (.acceptAck _ _) => .isFalse id
  | .message (.missingReq _ _) => .isFalse id
  | .message (.missingAck _ _ _) => .isFalse id
  | .message (.forceExec _ _) => .isFalse id
  | .message (.forwardReq _ _) => .isFalse id
  | .submit _ => .isFalse id
  | .makeProgress => .isFalse id
  | .updateView _ => .isFalse id
  | .acceptorUpdateRecord _ _ => .isFalse id

instance : ∀ event, Decidable (WrapsView event)
  | .updateView newViewInfo => inferInstanceAs (Decidable (newViewInfo.viewId = 0))
  | .message _ => .isFalse id
  | .submit _ => .isFalse id
  | .makeProgress => .isFalse id
  | .acceptorUpdateRecord _ _ => .isFalse id

instance (c : Comp) (e : Env × CompEvent) : Decidable (c.KeepsLog e) :=
  inferInstanceAs (Decidable (¬ _ ∧ (_ → _) ∧ ¬ _))

/-- Node `i` of a group: if it leads, it has its log. -/
structure LogNode (n : ℕ) (i : NodeId) (c : Comp) : Prop where
  nodeId : c.nodeId = i
  leads : c.myRole = .leader → c.curView.leaderId = i
  signed : c.Signed
  positive : c.myRole = .leader → c.highestSeenVs.viewId ≠ 0
  log : c.myRole = .leader → LeadsLog (fun _ => BitsSet n i) c

section LogNode

variable {n : ℕ} {i : NodeId} {c : Comp}

/-- The record of a new request has the leader's own bit. -/
private theorem bitsSet_submitRecord (node : LogNode n i c) (env : Env) (data : List UInt8) :
    BitsSet n i (submitRecord env c data) := by
  refine ⟨[], by simp, ?_⟩
  rw [ackBits_nil, ← node.nodeId]
  rfl

/-- The acceptor's record lies in view 0. -/
theorem leadsLog_acceptorUpdateRecord {P : ViewStamp → RequestRecord → Prop}
    (leads : LeadsLog P c) (positive : c.highestSeenVs.viewId ≠ 0) (nextView : UInt32)
    (record : AcceptorRecord) : LeadsLog P (c.acceptorUpdateRecord nextView record) := by
  refine ⟨leads.sameView, leads.committed, leads.seenRoom, leads.toCommitRoom, ?_⟩
  intro vs above below
  obtain ⟨kept, found, good⟩ := leads.records vs above below
  refine ⟨kept, ?_, good⟩
  have different : vs ≠ ⟨0, nextView⟩ := by
    rintro rfl
    have views := viewId_le_of_vstol_le (Nat.le_of_lt above)
    have zero : c.highestToCommitVs.viewId.toNat = 0 := Nat.le_zero.mp views
    rw [leads.sameView] at positive
    exact positive (UInt32.toNat_inj.mp zero)
  rw [Comp.stored, Comp.acceptorUpdateRecord, acceptorKey, Database.retrieveRecord_storeRecord,
    if_neg (mt (vstol_inj _ _).mp different)]
  exact found

/-- What a leader does in a call that does not move it to another view. -/
theorem LogNode.leader_handle (node : LogNode n i c) (leader : c.myRole = .leader)
    (running : c.fault = none) (e : Env × CompEvent) (keeps : c.KeepsLog e)
    (received : ∀ msg, e.2 = .message msg → ∃ j : Fin n, ((j : ℕ) : Int) ≠ i ∧
      SenderIs (j : ℕ) msg)
    (stays : ∀ newViewInfo, e.2 ≠ .updateView newViewInfo) :
    LeadsLog (fun _ => BitsSet n i) (handle c e) ∧ (handle c e).fault = none := by
  obtain ⟨env, event⟩ := e
  obtain ⟨current, numbered, -⟩ := keeps
  have leads := node.log leader
  have own := node.leads leader
  have submits : ∀ data, (env.storeOk = true → c.taken (env, event) ≠ none) →
      LeadsLog (fun _ => BitsSet n i) (Comp.leaderHandleSubmitReq env c data).1 ∧
        (Comp.leaderHandleSubmitReq env c data).1.fault = none := fun data takes =>
    leads.leaderHandleSubmitReq env data leader running (fun stores => numbered (takes stores))
      (bitsSet_submitRecord node env data)
  cases event with
  | message msg =>
    obtain ⟨j, other, sender⟩ := received msg rfl
    cases msg with
    | acceptReq msgVs reqCanbeExed nodeId record =>
      obtain rfl : nodeId = (j : ℕ) := sender
      -- an accept request of another node does not reach the log of a leader
      have ignored := storeAcceptReq_ignored env c msgVs reqCanbeExed (j : ℕ) record
        (by rw [own]; exact other) (fun later => current ⟨leader, later⟩)
      simp only [Comp.handle, consensusHandleMsg, handleAcceptReq, ignored]
      exact leads.executes env leader running
    | acceptAck msgVs nodeId =>
      obtain rfl : nodeId = (j : ℕ) := sender
      have acked := leads.storeAcceptAck env msgVs (j : ℕ) leader (fun _ _ _ => id)
        (fun record set => set.updateRecord j) (fun _ _ => id)
      have kept : (storeAcceptAck env c msgVs (j : ℕ)).myRole = .leader ∧
          (storeAcceptAck env c msgVs (j : ℕ)).fault = none := by
        rcases storeAcceptAck_cases env c msgVs (j : ℕ) with same | ⟨-, -, -, value, -, stored⟩
        · rw [same]
          exact ⟨leader, running⟩
        · rw [stored]
          exact ⟨leader, running⟩
      exact acked.executes env kept.1 kept.2
    | missingReq nodeId missingVs =>
      simp only [Comp.handle, consensusHandleMsg, handleMissingReq]
      split
      next nothing => exact ⟨leads, running⟩
      next reply built => exact ⟨leads.sends _, running⟩
    | missingAck nodeId missingVs record =>
      exact leads.handleMissingAck env missingVs record leader running
    | forceExec nodeId highestCommittedOp =>
      obtain rfl : nodeId = (j : ℕ) := sender
      simp only [Comp.handle, consensusHandleMsg, handleForceExec]
      rw [if_pos (by rw [own]; exact other)]
      exact ⟨leads, running⟩
    | forwardReq nodeId data =>
      simp only [Comp.handle, consensusHandleMsg, handleForwardReq,
        if_neg (not_not_intro leader)]
      exact submits data fun stores => by simp [taken, leader, stores]
  | submit data =>
    simp only [Comp.handle, consensusSubmitRequest, if_pos leader]
    exact submits data fun stores => by simp [taken, leader, stores]
  | makeProgress =>
    obtain ⟨count, calls, reached, result⟩ := leads.consensusMakeProgress env leader running
    simp only [Comp.handle, result]
    exact ⟨(leads.afterScan reached).sends calls, running⟩
  | updateView newViewInfo => exact absurd rfl (stays newViewInfo)
  | acceptorUpdateRecord nextView record =>
    exact ⟨leadsLog_acceptorUpdateRecord leads (node.positive leader) nextView record, running⟩

/-- A node that enters a view starts with an empty range. -/
theorem LogNode.updateView (node : LogNode n i c) (running : c.fault = none) (env : Env)
    (newViewInfo : View) (positive : newViewInfo.viewId ≠ 0) :
    LogNode n i (updateView env c newViewInfo) := by
  rcases updateView_cases env c newViewInfo running with
    ⟨ignored, -⟩ | ⟨-, ⟨-, failed⟩ | entered⟩
  · rwa [ignored]
  · rw [failed]
    exact ⟨node.nodeId, node.leads, node.signed, node.positive, fun leader =>
      let leads := node.log leader
      ⟨leads.sameView, leads.committed, leads.seenRoom, leads.toCommitRoom, leads.records⟩⟩
  · rw [entered]
    have role : ∀ {leaderId nodeId : Int}, (if leaderId ≠ nodeId then ConRole.secondary
        else ConRole.leader) = .leader → leaderId = nodeId := by
      intro leaderId nodeId leader
      split at leader
      next other => cases leader
      next same => exact not_not.mp same
    have first : (⟨newViewInfo.viewId, 0⟩ : ViewStamp) ≠ largestVs := fun same =>
      absurd (show (0 : UInt32) = 0xFFFFFFFF from congrArg ViewStamp.reqId same) (by decide)
    refine ⟨node.nodeId, fun leader => (role leader).trans node.nodeId, ?_, fun _ => positive,
      fun _ => ⟨rfl, rfl, first, first, fun vs above below => ?_⟩⟩
    · exact node.signed
    · exact absurd (Nat.lt_of_lt_of_le above below) (Nat.lt_irrefl _)

theorem LogNode.handle (node : LogNode n i c) (running : c.fault = none) (e : Env × CompEvent)
    (keeps : c.KeepsLog e)
    (received : ∀ msg, e.2 = .message msg → ∃ j : Fin n, ((j : ℕ) : Int) ≠ i ∧
      SenderIs (j : ℕ) msg) : LogNode n i (handle c e) := by
  by_cases enters : ∃ newViewInfo, e.2 = .updateView newViewInfo
  · obtain ⟨newViewInfo, event⟩ := enters
    obtain ⟨env, event'⟩ := e
    obtain rfl : event' = .updateView newViewInfo := event
    exact node.updateView running env newViewInfo keeps.2.2
  · have stays : ∀ newViewInfo, e.2 ≠ .updateView newViewInfo := fun newViewInfo event =>
      enters ⟨newViewInfo, event⟩
    obtain ⟨kind, same⟩ := handle_step c e running
    have signed := node.signed.handle running e
    have log : c.myRole = .leader → LeadsLog (fun _ => BitsSet n i) (Comp.handle c e) :=
      fun leader => (node.leader_handle leader running e keeps received stays).1
    have nodeId : (Comp.handle c e).nodeId = i := by
      rw [same.nodeId]
      exact node.nodeId
    cases kind with
    | stays nothing assigned view role seen =>
      refine ⟨nodeId, ?_, signed, ?_, ?_⟩
      · rw [role, view]
        exact node.leads
      · rw [role]
        intro leader zero
        have views := viewId_le_of_vstol_le seen
        rw [zero, UInt32.toNat_zero] at views
        exact node.positive leader (UInt32.toNat_inj.mp (Nat.le_zero.mp views))
      · rw [role]
        exact log
    | takes data some_data leader assigned view role seen =>
      refine ⟨nodeId, ?_, signed, ?_, ?_⟩
      · rw [role, view]
        exact node.leads
      · rw [seen]
        exact fun _ => node.positive leader
      · exact fun _ => log leader
    | enters newViewInfo event => exact absurd event (stays newViewInfo)

end LogNode

end Comp

namespace Group

variable {n : ℕ}

def keepsLog (g : Group n) (e : GroupEvent n) : Prop := (g e.1).KeepsLog e.2

instance (g : Group n) (e : GroupEvent n) : Decidable (keepsLog g e) :=
  inferInstanceAs (Decidable ((g e.1).KeepsLog e.2))

/-- What a leader finds under the keys it looks at. -/
structure LogComplete (n : ℕ) (c : Comp) : Prop where
  /-- `leader_try_to_execute` does not step into another view … -/
  sameView : c.highestSeenVs.viewId = c.highestToCommitVs.viewId
  /-- … and scans requests with a bit map that has been set. -/
  scanned : ∀ vs, viewStampComp c.highestToCommitVs vs < 0 →
    viewStampComp vs c.highestSeenVs ≤ 0 →
    ∃ record, c.stored vs = some (.request record) ∧ Comp.BitsSet n c.nodeId record
  /-- `consensus_make_progress` resends such requests. -/
  resent : ∀ vs, viewStampComp c.highestCommittedVs vs < 0 →
    viewStampComp vs c.highestSeenVs ≤ 0 →
    ∃ record, c.stored vs = some (.request record) ∧ Comp.BitsSet n c.nodeId record

/-- The leaders of a group have their logs, and no call of a leader fails that does not move it to
another view. -/
structure LeadersComplete (seed : Option (Fin n)) (guard : Group n → GroupEvent n → Prop)
    (g : Group n) : Prop where
  complete : ∀ i, (g i).myRole = .leader → LogComplete n (g i)
  returns : ∀ e, (g e.1).myRole = .leader → guard g e → (machine n seed).enabled g e →
    (∀ newViewInfo, e.2.2 ≠ .updateView newViewInfo) → (act g e e.1).fault = none

theorem received_of_sent {g : Group n} (signed : ∀ i, (g i).nodeId = (i : ℕ) ∧ (g i).Signed)
    (e : GroupEvent n) (sent : Sent g e.1 e.2.2) (msg : ConsensusMsg)
    (event : e.2.2 = .message msg) :
    ∃ j : Fin n, ((j : ℕ) : Int) ≠ ((e.1 : ℕ) : Int) ∧ Comp.SenderIs (j : ℕ) msg := by
  rw [event] at sent
  obtain ⟨source, ⟨address, built⟩, member, reaches, received⟩ := sent
  refine ⟨source, ?_, ?_⟩
  · intro same
    exact reaches.1 (Fin.ext (Int.ofNat_inj.mp same))
  · have own := (signed source).2 _ member
    rw [(signed source).1] at own
    -- a record that is cut short comes from the node that sent it all the same
    cases received with
    | whole => exact own
    | short => exact own

theorem logNode_of_reaches (seed : Option (Fin n)) (g : Group n)
    (reached : (machine n seed).Reaches keepsLog g) (i : Fin n) :
    (g i).LogNode n ((i : ℕ) : Int) := by
  revert i
  apply reached.invariant
  · rintro g rfl i
    have leads : ∀ {leaderId nodeId : Int}, (if leaderId = nodeId then ConRole.leader
        else ConRole.secondary) = .leader → leaderId = nodeId := by
      intro leaderId nodeId leader
      split at leader
      next same => exact same
      next other => cases leader
    have first : (⟨1, 0⟩ : ViewStamp) ≠ Comp.largestVs := by decide
    have positive : (1 : UInt32) ≠ 0 := by decide
    refine ⟨rfl, fun leader => leads leader, ?_, fun _ => positive, fun _ =>
      ⟨rfl, rfl, first, first, fun vs above below => ?_⟩⟩
    · intro call member
      cases member
    · exact absurd (Nat.lt_of_lt_of_le above below) (Nat.lt_irrefl _)
  · intro g e nodes keeps enabled
    have signed : ∀ i, (g i).nodeId = (i : ℕ) ∧ (g i).Signed := fun i =>
      ⟨Int.ofNat_inj.mp (nodes i).nodeId, (nodes i).signed⟩
    exact act_forall g e (fun i c => c.LogNode n ((i : ℕ) : Int)) nodes
      ((nodes e.1).handle enabled.1 e.2 keeps (received_of_sent signed e enabled.2))

/-- In every run in which no leader handles a request of a later view, every leader has its log and
none of its calls fails. -/
theorem leaders_complete (n : ℕ) (seed : Option (Fin n)) (g : Group n)
    (reached : (machine n seed).Reaches keepsLog g) : LeadersComplete seed keepsLog g := by
  have nodes := logNode_of_reaches seed g reached
  have signed : ∀ i, (g i).nodeId = (i : ℕ) ∧ (g i).Signed := fun i =>
    ⟨Int.ofNat_inj.mp (nodes i).nodeId, (nodes i).signed⟩
  constructor
  · intro i leader
    have leads := (nodes i).log leader
    have scanned : ∀ vs, viewStampComp (g i).highestToCommitVs vs < 0 →
        viewStampComp vs (g i).highestSeenVs ≤ 0 →
        ∃ record, (g i).stored vs = some (.request record) ∧
          Comp.BitsSet n (g i).nodeId record := by
      intro vs above below
      rw [(nodes i).nodeId]
      exact leads.records vs ((viewStampComp_neg _ _).mp above) ((viewStampComp_nonpos _ _).mp below)
    refine ⟨leads.sameView, scanned, ?_⟩
    rw [leads.committed]
    exact scanned
  · intro e leader keeps enabled stays
    rw [act_self]
    exact ((nodes e.1).leader_handle leader enabled.1 e.2 keeps
      (received_of_sent signed e enabled.2) stays).2

theorem first_request_complete : LeadersComplete (some 0) keepsLog afterFirst := by
  refine leaders_complete 3 (some 0) afterFirst ⟨start 3 (some 0), rfl, ?_⟩
  apply Machine.Accepts.run
  decide

/-- The first request of view 2 reaches the leader of view 1. -/
def deposed : Group 3 := (takeover.take 6).foldl act (start 3 (some 0))

/-- The leader of view 1 will scan a record whose bit map nobody has set. -/
theorem unset_bits_scanned : ¬ ∀ (n : ℕ) (seed : Option (Fin n)) (g : Group n),
    (machine n seed).Reaches Machine.anything g →
    LeadersComplete seed Machine.anything g := by
  intro claim
  have run : (machine 3 (some 0)).Run Machine.anything (start 3 (some 0)) deposed := by
    apply Machine.Accepts.run
    decide
  have complete := (claim 3 (some 0) deposed ⟨_, rfl, run⟩).complete 0 (by decide)
  obtain ⟨record, found, senders, -, bits⟩ := complete.scanned ⟨2, 1⟩ (by decide) (by decide)
  have unset : (deposed 0).stored ⟨2, 1⟩ = some (.request ⟨⟨0, 0⟩, 0, 0, [1]⟩) := by decide
  obtain rfl := DbValue.request.inj (Option.some.inj (unset.symm.trans found))
  have own := Comp.ackBits_own (deposed 0).nodeId senders
  rw [← bits] at own
  exact absurd own (by decide)

end Group

end LibeventPaxos
