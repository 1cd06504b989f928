import LibeventPaxos.BallotContent
import LibeventPaxos.PeerCalls

/-!
Which node ids a node holds and passes on: the leader of its view, what it has promised, accepted
and learnt in an election, and what its messages name.
-/
namespace LibeventPaxos

open Lib

/-- A content that is not chosen yet, or a node. -/
def Content (n : ℕ) (content : NodeId) : Prop := content = -1 ∨ InGroup n content

/-- The message is from a node of the group, and so is the leader it proposes or installs. -/
def LeleMsg.Names (n : ℕ) (msg : LeleMsg) : Prop :=
  InGroup n msg.nodeId ∧
    ((msg.type = .prepare ∨ msg.type = .prepareAck) → Content n msg.content) ∧
    ((msg.type = .accept ∨ msg.type = .acceptAck ∨ msg.type = .announce ∨ msg.type = .fin) →
      InGroup n msg.content)

/-- A PING_ACK is left out: nothing indexes with its sender, and its view is never entered. -/
def SysMsg.Names (n : ℕ) : SysMsg → Prop
  | .pingReq nodeId view _ => InGroup n nodeId ∧ InGroup n view.leaderId
  | .leaderElection msg _ => msg.Names n
  | .consensus msg => InGroup n msg.sender
  | _ => True

/-- The election module holds no id from outside the group. -/
structure LeleMod.Names (n : ℕ) (mod : LeleMod) : Prop where
  newLeader : InGroup n mod.newLeader
  acceptor : Content n mod.acceptor.content
  learner : ∀ k, InGroup n k → (mod.learnerArr k).pnum ≠ -1 → InGroup n (mod.learnerArr k).content
  proposer : ∀ k, InGroup n k → Content n (mod.proposerArr k).content
  resent : ∀ msg, mod.announceAckMsg = some msg → msg.Names n

namespace LeleMod

variable {n : ℕ} {mod : LeleMod}

theorem Names.learn (names : mod.Names n) (k : NodeId) (pnum : Int) (content : NodeId)
    (inside : InGroup n content) :
    Names n { mod with learnerArr := Function.update mod.learnerArr k ⟨pnum, content⟩ } where
  newLeader := names.newLeader
  acceptor := names.acceptor
  learner := by
    intro j member set
    by_cases same : j = k
    · simp only [same, Function.update_self]
      exact inside
    · simp only [Function.update_of_ne same] at set ⊢
      exact names.learner j member set
  proposer := names.proposer
  resent := names.resent

theorem Names.answer (names : mod.Names n) (k : NodeId) (pPnum aPnum : Int) (content : NodeId)
    (known : Content n content) :
    Names n { mod with
      proposerArr := Function.update mod.proposerArr k ⟨pPnum, aPnum, content⟩ } where
  newLeader := names.newLeader
  acceptor := names.acceptor
  learner := names.learner
  proposer := by
    intro j member
    by_cases same : j = k
    · simp only [same, Function.update_self]
      exact known
    · simp only [Function.update_of_ne same]
      exact names.proposer j member
  resent := names.resent

theorem Names.promise (names : mod.Names n) (acceptor : AcceptorRecord)
    (known : Content n acceptor.content) : Names n { mod with acceptor := acceptor } :=
  ⟨names.newLeader, known, names.learner, names.proposer, names.resent⟩

/-- A fresh module, or the one of the election before, with its records reset. -/
theorem names_refreshLeaderElection (n : ℕ) (mod : LeleMod) (newLeader : InGroup n mod.newLeader)
    (resent : ∀ msg, mod.announceAckMsg = some msg → msg.Names n) :
    (mod.refreshLeaderElection n).Names n where
  newLeader := newLeader
  acceptor := .inl rfl
  learner := by
    intro k member set
    simp only [refreshLeaderElection, if_pos member, ne_eq, not_true_eq_false] at set
  proposer := by
    intro k member
    simp only [refreshLeaderElection, if_pos member]
    exact .inl rfl
  resent := resent

theorem inGroup_natCast {k : ℕ} (inside : k < n) : InGroup n (k : ℕ) :=
  ⟨Int.natCast_nonneg k, Int.ofNat_lt.mpr inside⟩

/-- The content a round picks is that of a record, or none is picked. -/
theorem Names.proposed (names : mod.Names n) (content : NodeId)
    (found : mod.proposerCheckPrepare n = some content) : Content n content := by
  have scanned := prepareScan_picked n mod n
  have result : content = ((List.range n).foldl (mod.prepareStep n) (0, -1, -1)).2.2 := by
    simp only [proposerCheckPrepare] at found
    split at found
    next => exact (Option.some.inj found).symm
    next => cases found
  rw [result]
  rcases scanned with ⟨nothing, -⟩ | ⟨k, inside, -, same⟩
  · rw [nothing]
    exact .inl rfl
  · rw [same]
    exact names.proposer k (inGroup_natCast inside)

/-- The content a learner decides on is that of an entry that is set. -/
theorem Names.decided (names : mod.Names n) (entry : AcceptedRecord)
    (found : mod.learnerCheckAccept n = some entry) : InGroup n entry.content := by
  rw [learnerCheckAccept] at found
  have set : entry.pnum ≠ -1 := by
    have backed := List.find?_some found
    rw [decide_eq_true_eq] at backed
    exact backed.1
  obtain ⟨k, member, rfl⟩ := List.mem_map.mp (List.mem_of_find?_eq_some found)
  exact names.learner k (inGroup_natCast (List.mem_range.mp member)) set

end LeleMod

namespace Node

/-- A call to all others, or to a node of the group. -/
def Addressed (n : ℕ) (call : Int × SysMsg) : Prop :=
  (call.1 = -1 ∨ InGroup n call.1) ∧ call.2.Names n

/-- A node whose election module is allocated. -/
structure Elector (n : ℕ) (node : Node) : Prop where
  member : InGroup n node.nodeId
  groupSize : node.groupSize = n
  mod : node.electionMod.Names n
  sent : ∀ call ∈ node.sent, Addressed n call

/-! ## Election handlers -/

section Handlers

variable {n : ℕ} {node : Node}

theorem Elector.fail (elector : Elector n node) (fault : Fault) : Elector n (node.fail fault) :=
  ⟨elector.member, elector.groupSize, elector.mod, elector.sent⟩

theorem Elector.withMod (elector : Elector n node) (mod : LeleMod) (names : mod.Names n) :
    Elector n (node.withMod mod) :=
  ⟨elector.member, elector.groupSize, names, elector.sent⟩

theorem Elector.acceptorUpdateRecord (elector : Elector n node) :
    Elector n node.acceptorUpdateRecord :=
  ⟨elector.member, elector.groupSize, elector.mod, elector.sent⟩

theorem Elector.send (elector : Elector n node) (target : Int) (msg : SysMsg)
    (addressed : Addressed n (target, msg)) :
    Elector n { node with sent := node.sent ++ [(target, msg)] } where
  member := elector.member
  groupSize := elector.groupSize
  mod := elector.mod
  sent := by
    intro call member
    rcases List.mem_append.mp member with old | new
    · exact elector.sent call old
    · exact List.mem_singleton.mp new ▸ addressed

theorem Elector.andThen {next : Node → Node} (elector : Elector n node)
    (rest : ∀ node, Elector n node → Elector n (next node)) : Elector n (node.andThen next) := by
  simp only [Node.andThen]
  split
  next => exact rest node elector
  next => exact elector

theorem Elector.phaseTwo (elector : Elector n node) (env : NodeEnv) (content : NodeId)
    (known : Content n content) :
    Elector n (node.leaderElectionProposerPhaseTwo env content) := by
  simp only [leaderElectionProposerPhaseTwo]
  split
  next unset => exact elector.fail _
  next set =>
    have chosen : InGroup n (if content = -1 then node.nodeId else content) := by
      split
      next free => exact elector.member
      next bound => exact known.resolve_left bound
    have learnt := elector.withMod _ (elector.mod.learn node.nodeId
      (node.electionMod.origin node.groupSize) _ chosen)
    refine learnt.send (-1) _ ⟨.inl rfl, elector.member, ?_, fun _ => chosen⟩
    rintro (prepare | prepareAck)
    · cases prepare
    · cases prepareAck

theorem Elector.checkPrepare (elector : Elector n node) (env : NodeEnv) :
    Elector n (node.checkPrepare env) := by
  rw [Node.checkPrepare]
  split
  next content found =>
    rw [elector.groupSize] at found
    exact elector.phaseTwo env content (elector.mod.proposed content found)
  next => exact elector

theorem Elector.leaderElectionPropose (elector : Elector n node) (env : NodeEnv) :
    Elector n (node.leaderElectionPropose env) := by
  simp only [Node.leaderElectionPropose]
  have renumbered : LeleMod.Names n { node.electionMod with
      nextPnum := node.electionMod.nextPnum + node.groupSize, slientPeriod := .pending } :=
    ⟨elector.mod.newLeader, elector.mod.acceptor, elector.mod.learner, elector.mod.proposer,
      elector.mod.resent⟩
  have proposed := (elector.withMod _ renumbered).send (-1) (.leaderElection
    (node.electionMod.buildLeleMsg env node.nodeId .prepare (0, 0)) []) ⟨.inl rfl, elector.member,
      fun _ => .inl rfl, by rintro (other | other | other | other) <;> cases other⟩
  split
  next higher =>
    refine Elector.checkPrepare (Elector.acceptorUpdateRecord ?_) env
    refine proposed.withMod _ ?_
    exact (renumbered.answer node.nodeId _ _ _ elector.mod.acceptor).promise _ elector.mod.acceptor
  next lower => exact proposed

theorem Elector.leaderElectionProposerDo (elector : Elector n node) (env : NodeEnv) (msg : LeleMsg)
    (names : msg.Names n) : Elector n (node.leaderElectionProposerDo env msg) := by
  simp only [Node.leaderElectionProposerDo]
  split
  next other => exact elector.fail _
  next isAck =>
    split
    next current =>
      split
      next inside =>
        refine Elector.checkPrepare (elector.withMod _ ?_) env
        exact elector.mod.answer msg.nodeId _ _ _ (names.2.1 (.inr (not_not.mp isAck)))
      next outside => exact elector.fail _
    next old => exact elector

theorem Elector.handlePrepare (elector : Elector n node) (env : NodeEnv) (msg : LeleMsg)
    (names : msg.Names n) (isPrepare : msg.type = .prepare) :
    Elector n (node.handlePrepare env msg) := by
  have waits : LeleMod.Names n (if msg.nodeId < node.nodeId
      then { node.electionMod with slientPeriod := .pending } else node.electionMod) := by
    split
    next => exact ⟨elector.mod.newLeader, elector.mod.acceptor, elector.mod.learner,
      elector.mod.proposer, elector.mod.resent⟩
    next => exact elector.mod
  simp only [Node.handlePrepare]
  generalize (if msg.nodeId < node.nodeId then { node.electionMod with slientPeriod := .pending }
    else node.electionMod) = mod at waits
  have content : Content n msg.content := names.2.1 (.inl isPrepare)
  split
  next higher =>
    have promised := (elector.withMod _ (waits.promise
      { mod.acceptor with highestSeenPnum := msg.pnum, content := msg.content }
      content)).acceptorUpdateRecord
    refine promised.send msg.nodeId _ ⟨.inr names.1, elector.member, fun _ => content, ?_⟩
    rintro (other | other | other | other) <;> cases other
  next lower => exact elector.withMod mod waits

theorem Elector.leaderElectionCalEdge (elector : Elector n node) (env : NodeEnv) :
    Elector n (node.leaderElectionCalEdge env) := by
  have reply : ∀ msg : LeleMsg, ∀ data, msg.nodeId = node.nodeId → msg.type = .announceAck →
      Elector n ((node.withMod { node.electionMod with
        announceAckMsg := some (.leaderElection msg data), slientPeriod := .pending }).sendToOneNode
          node.electionMod.newLeader (.leaderElection msg data)) := by
    intro msg data own isAck
    have names : SysMsg.Names n (.leaderElection msg data) := by
      refine ⟨own ▸ elector.member, ?_, ?_⟩
      · rintro (other | other) <;> rw [isAck] at other <;> cases other
      · rintro (other | other | other | other) <;> rw [isAck] at other <;> cases other
    refine (elector.withMod _ ?_).send _ _ ⟨.inr elector.mod.newLeader, names⟩
    refine ⟨elector.mod.newLeader, elector.mod.acceptor, elector.mod.learner, elector.mod.proposer,
      ?_⟩
    intro kept same
    exact Option.some.inj same ▸ names
  simp only [Node.leaderElectionCalEdge]
  split
  next seen =>
    split
    next huge => exact elector.fail _
    next sized =>
      split
      next fault _ => exact elector.fail fault
      next => exact reply _ _ rfl rfl
  next nothing => exact reply _ _ rfl rfl

theorem Elector.leaderElectionHandleAnnounce (elector : Elector n node) (env : NodeEnv)
    (msg : LeleMsg) (inside : InGroup n msg.content) :
    Elector n (node.leaderElectionHandleAnnounce env msg) := by
  have post : Elector n { node with
      state := .postLele
      electionMod := { node.electionMod with newLeader := msg.content } } :=
    ⟨elector.member, elector.groupSize, ⟨inside, elector.mod.acceptor, elector.mod.learner,
      elector.mod.proposer, elector.mod.resent⟩, elector.sent⟩
  simp only [Node.leaderElectionHandleAnnounce]
  split
  next own =>
    have scanned (edge : EdgeMod) := post.withMod { node.electionMod with
      newLeader := msg.content, edge := edge } ⟨post.mod.newLeader, post.mod.acceptor,
        post.mod.learner, post.mod.proposer, post.mod.resent⟩
    simp only [leaderElectionInitializeEdgeMod]
    split
    next fault _ => exact (scanned _).fail fault
    next => exact scanned _
  next other => exact post.leaderElectionCalEdge env

theorem Elector.leaderElectionLearnerDo (elector : Elector n node) (env : NodeEnv) (msg : LeleMsg)
    (inside : InGroup n msg.content) : Elector n (node.leaderElectionLearnerDo env msg) := by
  simp only [Node.leaderElectionLearnerDo]
  split
  next known =>
    split
    next newer =>
      have learnt := elector.mod.learn msg.nodeId msg.pnum msg.content inside
      split
      next undecided => exact elector.withMod _ learnt
      next decided found =>
        rw [(elector.withMod _ learnt).groupSize] at found
        have leader := learnt.decided decided found
        refine Elector.leaderElectionHandleAnnounce ?_ env _ leader
        refine (elector.withMod _ learnt).send (-1) _ ⟨.inl rfl, elector.member, ?_, fun _ => leader⟩
        rintro (other | other) <;> cases other
    next older => exact elector
  next outside => exact elector.fail _

theorem Elector.handleAccept (elector : Elector n node) (env : NodeEnv) (msg : LeleMsg)
    (inside : InGroup n msg.content) : Elector n (node.handleAccept env msg) := by
  simp only [Node.handleAccept]
  split
  next accepts =>
    have accepted : Elector n { node with
        electionMod := { node.electionMod with acceptor := ⟨msg.pnum, msg.pnum, msg.content⟩ }
        accepted := node.accepted ++ [(node.electionMod.nextView, msg.pnum, msg.content)] } :=
      ⟨elector.member, elector.groupSize,
        elector.mod.promise ⟨msg.pnum, msg.pnum, msg.content⟩ (.inr inside), elector.sent⟩
    refine Elector.andThen ?_ fun node' elector' => ?_
    · exact accepted.acceptorUpdateRecord.leaderElectionLearnerDo env _ inside
    · refine elector'.send (-1) _ ⟨.inl rfl, elector.member, ?_, fun _ => inside⟩
      rintro (other | other) <;> cases other
  next refuses => exact elector

theorem Elector.leaderElectionOnTimeout (elector : Elector n node) (env : NodeEnv) :
    Elector n (node.leaderElectionOnTimeout env) := by
  have again : ∀ node, Elector n node →
      Elector n (node.withMod { node.electionMod with slientPeriod := .pending }) :=
    fun node elector => elector.withMod _ ⟨elector.mod.newLeader, elector.mod.acceptor,
      elector.mod.learner, elector.mod.proposer, elector.mod.resent⟩
  simp only [Node.leaderElectionOnTimeout]
  split
  next post =>
    split
    next other =>
      split
      next msg kept =>
        have resent := elector.send _ msg
          ⟨.inr elector.mod.newLeader, elector.mod.resent msg kept⟩
        exact again _ resent
      next => exact again node elector
    next own => exact again node elector
  next electing => exact (elector.leaderElectionPropose env).andThen again
  next => exact elector

end Handlers

/-! ## A node between two calls -/

/-- Every id the node holds or has sent is that of a node of the group; only a node that has
entered no view has no leader. -/
structure KnowsGroup (n : ℕ) (node : Node) : Prop where
  member : InGroup n node.nodeId
  groupSize : node.groupSize = n
  leader : InGroup n node.comp.curView.leaderId ∨ node.comp.curView = ⟨0, 9999, 0⟩
  role : node.comp.myRole = .leader → node.comp.curView.leaderId = node.nodeId
  calls : ∀ call ∈ node.comp.upCalls,
    (call.1 = -1 ∨ InGroup n call.1) ∧ InGroup n call.2.sender
  mod : node.modAllocated = true → node.electionMod.Names n
  sent : ∀ call ∈ node.sent, Addressed n call

/-- A request comes to a node that has entered a view, unless node 9999 exists. -/
def Joined (node : Node) : NodeEvent → Prop
  | .message (.requestSubmit _) =>
    node.state = .active → node.comp.curView = ⟨0, 9999, 0⟩ → 9999 < node.groupSize
  | _ => True

/-- The record with which a late election message is answered names a node of the group. -/
def AnswersMember (node : Node) : NodeEvent → Prop
  | .message (.leaderElection msg _) => node.state ≠ .active → msg.nextView = node.viewId →
      ∀ value ∈ node.comp.db.retrieveRecord (vstol ⟨node.viewId, 0⟩),
        InGroup node.groupSize (asView value).leaderId
  | _ => True

instance (node : Node) : ∀ event, Decidable (node.Joined event)
  | .message (.requestSubmit _) => inferInstanceAs (Decidable (_ → _ → _))
  | .message (.pingReq _ _ _) => .isTrue trivial
  | .message (.pingAck _ _ _) => .isTrue trivial
  | .message (.consensus _) => .isTrue trivial
  | .message (.leaderElection _ _) => .isTrue trivial
  | .leaderPing => .isTrue trivial
  | .expectPing => .isTrue trivial
  | .makeProgress => .isTrue trivial
  | .electionTimeout => .isTrue trivial

instance (node : Node) : ∀ event, Decidable (node.AnswersMember event)
  | .message (.leaderElection _ _) => inferInstanceAs (Decidable (_ → _ → ∀ value ∈ _, _))
  | .message (.pingReq _ _ _) => .isTrue trivial
  | .message (.pingAck _ _ _) => .isTrue trivial
  | .message (.consensus _) => .isTrue trivial
  | .message (.requestSubmit _) => .isTrue trivial
  | .leaderPing => .isTrue trivial
  | .expectPing => .isTrue trivial
  | .makeProgress => .isTrue trivial
  | .electionTimeout => .isTrue trivial

section Calls

variable {n : ℕ} {node node' : Node}

theorem KnowsGroup.elector (knows : KnowsGroup n node) (allocated : node.modAllocated = true) :
    Elector n node :=
  ⟨knows.member, knows.groupSize, knows.mod allocated, knows.sent⟩

/-- An election handler leaves view, role and requests alone. -/
theorem KnowsGroup.elects (knows : KnowsGroup n node) (elects : Elects node node')
    (elector : Elector n node') : KnowsGroup n node' := by
  obtain ⟨db, fault, comp⟩ := elects.comp
  refine ⟨elector.member, elector.groupSize, ?_, ?_, ?_, fun _ => elector.mod, elector.sent⟩
  · rw [comp]
    exact knows.leader
  · rw [Node.nodeId, comp]
    exact knows.role
  · rw [comp]
    exact knows.calls

theorem KnowsGroup.frame (knows : KnowsGroup n node) (comp : node'.comp = node.comp)
    (mod : node'.electionMod = node.electionMod)
    (allocated : node'.modAllocated = node.modAllocated) (sent : node'.sent = node.sent) :
    KnowsGroup n node' := by
  refine ⟨?_, ?_, ?_, ?_, ?_, ?_, ?_⟩
  · rw [Node.nodeId, comp]
    exact knows.member
  · rw [Node.groupSize, comp]
    exact knows.groupSize
  · rw [comp]
    exact knows.leader
  · rw [Node.nodeId, comp]
    exact knows.role
  · rw [comp]
    exact knows.calls
  · rw [mod, allocated]
    exact knows.mod
  · rw [sent]
    exact knows.sent

theorem KnowsGroup.fail (knows : KnowsGroup n node) (fault : Fault) :
    KnowsGroup n (node.fail fault) :=
  ⟨knows.member, knows.groupSize, knows.leader, knows.role, knows.calls, knows.mod, knows.sent⟩

theorem KnowsGroup.send (knows : KnowsGroup n node) (target : Int) (msg : SysMsg)
    (addressed : Addressed n (target, msg)) :
    KnowsGroup n { node with sent := node.sent ++ [(target, msg)] } where
  member := knows.member
  groupSize := knows.groupSize
  leader := knows.leader
  role := knows.role
  calls := knows.calls
  mod := knows.mod
  sent := by
    intro call member
    rcases List.mem_append.mp member with old | new
    · exact knows.sent call old
    · exact List.mem_singleton.mp new ▸ addressed

/-- A call of the component within its view. -/
theorem KnowsGroup.call (knows : KnowsGroup n node) (e : Env × CompEvent)
    (running : node.comp.fault = none) (within : ∀ newViewInfo, e.2 ≠ .updateView newViewInfo)
    (reply : ∀ target, node.comp.replyTarget e.2 = some target →
      target = -1 ∨ InGroup n target) :
    KnowsGroup n { node with comp := node.comp.handle e } := by
  obtain ⟨kind, same⟩ := Comp.handle_step node.comp e running
  have kept : (node.comp.handle e).curView = node.comp.curView ∧
      (node.comp.handle e).myRole = node.comp.myRole := by
    cases kind with
    | stays _ _ view role => exact ⟨view, role⟩
    | takes _ _ _ _ view role => exact ⟨view, role⟩
    | enters newViewInfo event => exact absurd event (within newViewInfo)
  obtain ⟨sent, calls, own⟩ := Comp.sends_handle node.comp e running
  refine ⟨?_, ?_, ?_, ?_, ?_, knows.mod, knows.sent⟩
  · simp only [Node.nodeId, same.nodeId]
    exact knows.member
  · exact same.groupSize.trans knows.groupSize
  · rw [kept.1]
    exact knows.leader
  · simp only [kept.1, kept.2, Node.nodeId, same.nodeId]
    exact knows.role
  · simp only [calls]
    intro call member
    rcases List.mem_append.mp member with old | new
    · exact knows.calls call old
    · obtain ⟨sender, address⟩ := own call new
      refine ⟨?_, sender ▸ knows.member⟩
      rcases address with others | answered
      · exact .inl others
      · exact reply call.1 answered

/-- Entering a view with a leader of the group. -/
theorem KnowsGroup.updateView (knows : KnowsGroup n node) (running : node.comp.fault = none)
    (kept : node.evLeaderPing ≠ .freed) (env : NodeEnv) (newViewInfo : View)
    (inside : InGroup n newViewInfo.leaderId) :
    KnowsGroup n (node.updateView env newViewInfo) := by
  rcases updateView_cases env node newViewInfo running kept with
    ⟨ignored, -⟩ | ⟨-, failed⟩ | entered
  · rwa [ignored]
  · rw [failed]
    exact knows.fail _
  · have same := sameNode_updateView env node newViewInfo
    refine ⟨?_, ?_, ?_, ?_, ?_, ?_, ?_⟩
    · rw [Node.nodeId, same.nodeId]
      exact knows.member
    · exact same.groupSize.trans knows.groupSize
    · rw [entered.curView]
      exact .inl inside
    · rw [Node.nodeId, same.nodeId, entered.curView, entered.comp]
      intro leads
      by_contra other
      have secondary : newViewInfo.leaderId ≠ node.comp.nodeId := other
      simp [Comp.consensusUpdateRole, secondary] at leads
    · rw [entered.comp]
      exact knows.calls
    · rw [entered.electionMod, entered.allocated]
      exact knows.mod
    · rw [entered.sent]
      exact knows.sent

/-- The new leader closes the election. -/
theorem KnowsGroup.leaderElectionLeaderClose (knows : KnowsGroup n node)
    (allocated : node.modAllocated = true) (running : node.comp.fault = none)
    (kept : node.evLeaderPing ≠ .freed) (env : NodeEnv) :
    KnowsGroup n (node.leaderElectionLeaderClose env) := by
  have leader := (knows.mod allocated).newLeader
  have entered := knows.updateView running kept env ⟨node.electionMod.nextView,
    node.electionMod.newLeader, node.electionMod.edge.boundary⟩ leader
  simp only [Node.leaderElectionLeaderClose, Node.andThen]
  split
  next =>
    refine entered.send (-1) _ ⟨.inl rfl, leader, ?_, fun _ => leader⟩
    rintro (other | other) <;> cases other
  next => exact entered

theorem KnowsGroup.mergeAnnounceAck (knows : KnowsGroup n node)
    (allocated : node.modAllocated = true) (running : node.comp.fault = none)
    (kept : node.evLeaderPing ≠ .freed) (env : NodeEnv) (msg : LeleMsg) (data : List UInt32) :
    KnowsGroup n (node.mergeAnnounceAck env msg data) := by
  have merged (edge : EdgeMod) :
      KnowsGroup n (node.withMod { node.electionMod with edge := edge }) := by
    refine ⟨knows.member, knows.groupSize, knows.leader, knows.role, knows.calls, fun _ => ?_,
      knows.sent⟩
    have mod := knows.mod allocated
    exact ⟨mod.newLeader, mod.acceptor, mod.learner, mod.proposer, mod.resent⟩
  simp only [Node.mergeAnnounceAck]
  split
  next => exact knows.fail _
  next =>
    split
    next =>
      split
      next => exact knows
      next =>
        generalize same : node.withMod _ = before
        have state : KnowsGroup n before ∧ before.modAllocated = true ∧
            before.comp.fault = none ∧ before.evLeaderPing ≠ .freed := by
          subst same
          exact ⟨merged _, allocated, running, kept⟩
        split
        next fault _ => exact state.1.fail fault
        next =>
          split
          next => exact state.1.leaderElectionLeaderClose state.2.1 state.2.2.1 state.2.2.2 env
          next => exact state.1
    next => exact knows.fail _

theorem KnowsGroup.leaderElectionHandleAnnounceAck (knows : KnowsGroup n node)
    (allocated : node.modAllocated = true) (running : node.comp.fault = none)
    (kept : node.evLeaderPing ≠ .freed) (env : NodeEnv) (msg : LeleMsg) (data : List UInt32) :
    KnowsGroup n (node.leaderElectionHandleAnnounceAck env msg data) := by
  simp only [Node.leaderElectionHandleAnnounceAck]
  split
  next early =>
    have elects := elects_leaderElectionHandleAnnounce env node msg
    -- the content of an early acknowledgement is the node itself
    have announced := knows.elects elects ((knows.elector allocated).leaderElectionHandleAnnounce
      env msg (early.2 ▸ knows.member))
    by_cases returned : (node.leaderElectionHandleAnnounce env msg).comp.fault = none
    · rw [andThen_of_running _ _ returned]
      exact announced.mergeAnnounceAck (elects.allocated.trans allocated) returned
        (elects.leaderPing ▸ kept) env msg data
    · rw [andThen_of_fault _ _ returned]
      exact announced
  next =>
    rw [andThen_of_running node _ running]
    exact knows.mergeAnnounceAck allocated running kept env msg data

theorem KnowsGroup.initializeLeaderElection (knows : KnowsGroup n node) (env : NodeEnv) :
    KnowsGroup n (node.initializeLeaderElection env) := by
  refine ⟨knows.member, knows.groupSize, knows.leader, knows.role, knows.calls, fun _ => ?_,
    knows.sent⟩
  have first : InGroup n 0 := ⟨le_rfl, knows.member.1.trans_lt knows.member.2⟩
  simp only [Node.initializeLeaderElection, knows.groupSize]
  cases allocated : node.modAllocated with
  | true =>
    have mod := knows.mod allocated
    have fresh := LeleMod.names_refreshLeaderElection n { node.electionMod with
      nextView := node.viewId + 1, nextPnum := node.nodeId } mod.newLeader mod.resent
    exact ⟨fresh.newLeader, fresh.acceptor, fresh.learner, fresh.proposer, fresh.resent⟩
  | false =>
    have fresh := LeleMod.names_refreshLeaderElection n
      { LeleMod.initializeLeaderElectionMod env with
        nextView := node.viewId + 1, nextPnum := node.nodeId } first (fun msg kept => by cases kept)
    exact ⟨fresh.newLeader, fresh.acceptor, fresh.learner, fresh.proposer, fresh.resent⟩

private theorem KnowsGroup.leaderElectionDo (knows : KnowsGroup n node)
    (allocated : node.modAllocated = true) (running : node.comp.fault = none)
    (kept : node.evLeaderPing ≠ .freed) (env : NodeEnv) (msg : LeleMsg) (data : List UInt32)
    (names : msg.Names n) : KnowsGroup n (node.leaderElectionDo env msg data) := by
  have elector := knows.elector allocated
  simp only [Node.leaderElectionDo]
  cases type : msg.type with
  | prepare =>
    exact knows.elects (elects_handlePrepare env node msg) (elector.handlePrepare env msg names type)
  | prepareAck =>
    exact knows.elects (elects_leaderElectionProposerDo env node msg)
      (elector.leaderElectionProposerDo env msg names)
  | accept =>
    exact knows.elects (elects_handleAccept env node msg)
      (elector.handleAccept env msg (names.2.2 (.inl type)))
  | acceptAck =>
    exact knows.elects (elects_leaderElectionLearnerDo env node msg)
      (elector.leaderElectionLearnerDo env msg (names.2.2 (.inr (.inl type))))
  | announce =>
    exact knows.elects (elects_leaderElectionHandleAnnounce env node msg)
      (elector.leaderElectionHandleAnnounce env msg (names.2.2 (.inr (.inr (.inl type)))))
  | announceAck => exact knows.leaderElectionHandleAnnounceAck allocated running kept env msg data
  | fin =>
    simp only [leaderElectionHandleClose]
    split
    next => exact knows.updateView running kept env _ (names.2.2 (.inr (.inr (.inr type))))
    next => exact knows
  | higherNode =>
    exact knows.elects (elects_leaderElectionProposerDo env node msg)
      (elector.leaderElectionProposerDo env msg names)
  | lagged => exact knows

/-- A late message is answered with the record under the boundary of the node's own view. -/
private theorem KnowsGroup.handleLeaderElectionMsg (knows : KnowsGroup n node)
    (timed : Timed node) (tidy : Tidy node) (electing : node.state ≠ .active)
    (running : node.comp.fault = none) (env : NodeEnv) (msg : LeleMsg) (data : List UInt32)
    (names : msg.Names n) (answers : node.AnswersMember (.message (.leaderElection msg data))) :
    KnowsGroup n (node.handleLeaderElectionMsg env msg data) := by
  simp only [Node.handleLeaderElectionMsg]
  split
  next other =>
    split
    next late =>
      split
      next close closes =>
        simp only [leaderElectionBuildClose, Option.map_eq_some_iff] at closes
        obtain ⟨value, found, rfl⟩ := closes
        rw [late] at found
        have leader : InGroup n (asView value).leaderId :=
          knows.groupSize ▸ answers electing late value found
        refine knows.send _ _ ⟨.inr names.1, leader, ?_, fun _ => leader⟩
        rintro (other | other) <;> cases other
      next => exact knows
    next => exact knows
  next current =>
    exact knows.leaderElectionDo (tidy.allocated electing) running timed.kept env msg data names

private theorem KnowsGroup.handlePingReq (knows : KnowsGroup n node) (timed : Timed node)
    (running : node.comp.fault = none) (env : NodeEnv) (nodeId : NodeId) (view : View)
    (timestamp : TimeVal) (names : SysMsg.Names n (.pingReq nodeId view timestamp)) :
    KnowsGroup n (node.handlePingReq env nodeId view timestamp) := by
  simp only [Node.handlePingReq]
  split
  next ahead => exact knows.updateView running timed.kept env view names.2
  next =>
    split
    next behind => exact knows.send _ _ ⟨.inr names.1, trivial⟩
    next =>
      split
      next same => split_ifs <;> exact knows.frame rfl rfl rfl rfl
      next => exact knows

private theorem KnowsGroup.handleMsg (knows : KnowsGroup n node) (timed : Timed node)
    (tidy : Tidy node) (running : node.comp.fault = none) (env : NodeEnv) (msg : SysMsg)
    (names : msg.Names n) (joined : node.Joined (.message msg))
    (answers : node.AnswersMember (.message msg)) : KnowsGroup n (node.handleMsg env msg) := by
  cases msg with
  | pingAck nodeId view timestamp =>
    simp only [Node.handleMsg, handlePingAck_ignored, ite_self]
    exact knows
  | pingReq nodeId view timestamp =>
    simp only [Node.handleMsg]
    split
    next => exact knows.handlePingReq timed running env nodeId view timestamp names
    next => exact knows
  | consensus msg =>
    simp only [Node.handleMsg]
    split
    next active =>
      refine knows.call (env.toEnv, .message msg) running (fun _ other => by cases other) ?_
      intro target answered
      cases msg with
      | acceptReq => exact .inr (Option.some.inj answered ▸ names)
      | missingReq => exact .inr (Option.some.inj answered ▸ names)
      | acceptAck | missingAck | forceExec | forwardReq => cases answered
    next => exact knows
  | requestSubmit data =>
    simp only [Node.handleMsg]
    split
    next active =>
      refine knows.call (env.toEnv, .submit data) running (fun _ other => by cases other) ?_
      intro target forwarded
      simp only [Comp.replyTarget] at forwarded
      split at forwarded
      next => cases forwarded
      next =>
        refine .inr ?_
        rw [← Option.some.inj forwarded]
        rcases knows.leader with leader | fresh
        · exact leader
        · have large := joined active fresh
          rw [knows.groupSize] at large
          rw [fresh]
          exact LeleMod.inGroup_natCast large
    next => exact knows
  | leaderElection msg data =>
    simp only [Node.handleMsg]
    split
    next inElection =>
      have electing := electing_of_reads inElection
      exact knows.handleLeaderElectionMsg timed tidy electing running env msg data names answers
    next => exact knows

/-- The ids in a message are those of nodes of the group. -/
def NamesGroup (n : ℕ) : NodeEvent → Prop
  | .message msg => msg.Names n
  | _ => True

/-- Every call of a node that gets its messages from nodes of the group. -/
theorem KnowsGroup.dispatch (knows : KnowsGroup n node) (timed : Timed node) (tidy : Tidy node)
    (e : NodeEnv × NodeEvent) (enabled : machine.enabled node e) (names : NamesGroup n e.2)
    (joined : node.Joined e.2) (answers : node.AnswersMember e.2) :
    KnowsGroup n (node.dispatch e) := by
  obtain ⟨running, due⟩ := enabled
  obtain ⟨env, event⟩ := e
  cases event with
  | message msg => exact knows.handleMsg timed tidy running env msg names joined answers
  | leaderPing =>
    have leads : Node.isLeader { node with evLeaderPing := .idle } = true := timed.leaderPing due
    have own : node.comp.curView.leaderId = node.comp.nodeId := by
      simpa [Node.isLeader, Comp.isLeader] using timed.leaderPing due
    have pinged := knows.send (-1) (.pingReq node.nodeId node.comp.curView env.now)
      ⟨.inl rfl, knows.member, own ▸ knows.member⟩
    simp only [Node.dispatch, leaderPingPeriod, if_pos leads]
    split <;> exact pinged.frame rfl rfl rfl rfl
  | expectPing =>
    simp only [Node.dispatch, expectedLeaderPingPeriod, Node.initializeExpectPing,
      Node.initializeLeaderPing]
    have idle : KnowsGroup n { node with evExpectPing := .idle } := knows.frame rfl rfl rfl rfl
    split_ifs
    all_goals first
      | exact idle.initializeLeaderElection env
      | exact knows.frame rfl rfl rfl rfl
      | exact (knows.fail _).frame rfl rfl rfl rfl
  | makeProgress =>
    have progressed := knows.call (env.toEnv, .makeProgress) running (fun _ other => by cases other)
      (fun target answered => by cases answered)
    simp only [Node.dispatch, makeProgressOn, Node.initializeLeaderMakeProgress, andThen]
    split_ifs
    all_goals first
      | exact progressed.frame rfl rfl rfl rfl
      | exact knows.frame rfl rfl rfl rfl
      | exact (knows.fail _).frame rfl rfl rfl rfl
  | electionTimeout =>
    have idle : Elects node (node.withMod { node.electionMod with slientPeriod := .idle }) :=
      elects_withMod node _ rfl
    by_cases active : node.state = .active
    · simp only [Node.dispatch, leaderElectionOnTimeout, withMod, active]
      refine ⟨knows.member, knows.groupSize, knows.leader, knows.role, knows.calls, ?_, knows.sent⟩
      intro allocated
      have mod := knows.mod allocated
      exact ⟨mod.newLeader, mod.acceptor, mod.learner, mod.proposer, mod.resent⟩
    · have elector := knows.elector (tidy.allocated active)
      have waiting := elector.withMod { node.electionMod with slientPeriod := .idle }
        ⟨elector.mod.newLeader, elector.mod.acceptor, elector.mod.learner, elector.mod.proposer,
          elector.mod.resent⟩
      exact knows.elects (idle.trans (elects_leaderElectionOnTimeout env _))
        (waiting.leaderElectionOnTimeout env)

end Calls

end Node

end LibeventPaxos
