import Mathlib.Logic.Relation
import LibeventPaxos.ElectionSteps
import LibeventPaxos.ViewFence

/-!
The votes of a node: what its proposer, its acceptor and its learner do, one atomic step at a time.
Views, timers, requests and the range of undecided slots play no part.
-/
namespace LibeventPaxos

open Lib

/-! ## The votes -/

/-- The messages votes travel in. -/
def LeleType.isVote : LeleType → Bool
  | .prepare => true
  | .prepareAck => true
  | .accept => true
  | .acceptAck => true
  | .announce => true
  | _ => false

def SysMsg.asVote : SysMsg → Option LeleMsg
  | .leaderElection msg _ => if msg.type.isVote then some msg else none
  | _ => none

/-- The module without the fields that play no part in the votes. -/
def LeleMod.votes (mod : LeleMod) : LeleMod :=
  { mod with
    newLeader := 0
    edge := { msgCount := none, reqEdge := none, start := 0, stop := 0, curEmptySlots := 0,
              maxEmptySlots := 0 }
    slientPeriod := .absent
    announceAckMsg := none }

/-- A proposal: the view it is for, its number and its content. -/
abbrev Proposal := UInt32 × Int × NodeId

/-- The election module of a node and whether it is allocated, the proposals the node has accepted
and the votes it has sent. -/
structure Voting where
  begun : Bool
  mod : LeleMod
  accepted : List Proposal
  said : List LeleMsg

namespace Voting

/-! ## What the roles do -/

def say (v : Voting) (msg : LeleMsg) : Voting := { v with said := v.said ++ [msg] }

theorem mem_say {v : Voting} {new msg : LeleMsg} (member : msg ∈ (v.say new).said) :
    msg ∈ v.said ∨ msg = new := by
  rcases List.mem_append.mp member with old | fresh
  · exact .inl old
  · exact .inr (List.mem_singleton.mp fresh)

/-- The acceptor promises to accept nothing below `pnum`; the content it had is overwritten. -/
def promise (v : Voting) (pnum : Int) (content : NodeId) : Voting :=
  { v with mod := { v.mod with
      acceptor := { v.mod.acceptor with highestSeenPnum := pnum, content := content } } }

/-- The proposer promises its own round to itself. -/
def promiseOwn (n : ℕ) (i : NodeId) (v : Voting) : Voting :=
  { v with mod := { v.mod with
      acceptor := { v.mod.acceptor with highestSeenPnum := v.mod.origin n }
      proposerArr := Function.update v.mod.proposerArr i
        ⟨v.mod.origin n, v.mod.acceptor.acceptedPnum, v.mod.acceptor.content⟩ } }

/-- The proposer enters an answer to its current round. -/
def answer (n : ℕ) (v : Voting) (msg : LeleMsg) : Voting :=
  { v with mod := { v.mod with
      proposerArr := Function.update v.mod.proposerArr msg.nodeId
        ⟨v.mod.origin n, msg.pnum, msg.content⟩ } }

def accept (v : Voting) (pnum : Int) (content : NodeId) : Voting :=
  { v with
    mod := { v.mod with acceptor := ⟨pnum, pnum, content⟩ }
    accepted := v.accepted ++ [(v.mod.nextView, pnum, content)] }

/-- The learner enters a vote of node `k`. -/
def learn (v : Voting) (k : NodeId) (pnum : Int) (content : NodeId) : Voting :=
  { v with mod := { v.mod with learnerArr := Function.update v.mod.learnerArr k ⟨pnum, content⟩ } }

/-- The content of a proposal when the check has found `content`. -/
def choice (i content : NodeId) : NodeId := if content = -1 then i else content

/-- A vote of node `i` in the election it is in. -/
structure Vote (i : NodeId) (v : Voting) (type : LeleType) (msg : LeleMsg) : Prop where
  type : msg.type = type
  nodeId : msg.nodeId = i
  nextView : msg.nextView = v.mod.nextView

/-- A message for the election the node is in. -/
structure Hears (heard : LeleMsg → Prop) (v : Voting) (type : LeleType) (msg : LeleMsg) :
    Prop where
  heard : heard msg
  type : msg.type = type
  nextView : msg.nextView = v.mod.nextView

/-! ## Atomic steps -/

/-- An atomic step of node `i` of `n`, which hears messages in `heard` and may begin a round if
`timeout`; `checks` holds of the state in which a counted answer completes a round, `decides` of
the one in which the learner decides. -/
inductive Step (n : ℕ) (i : NodeId) (timeout : Prop) (heard : LeleMsg → Prop)
    (checks decides : Voting → Prop) : Voting → Voting → Prop
  /-- `initialize_leader_election` -/
  | start (v : Voting) (nextView : UInt32) (learnerArr : NodeId → AcceptedRecord)
      (proposerArr : NodeId → ProposerRecord)
      (learner : ∀ k, InGroup n k → (learnerArr k).pnum = -1)
      (proposer : ∀ k, InGroup n k →
        (proposerArr k).aPnum = -1 ∧ (proposerArr k).content = -1) :
      Step n i timeout heard checks decides v { v with
        begun := true
        mod := { v.mod with
          nextView := nextView
          nextPnum := i
          acceptor := { v.mod.acceptor with content := -1 }
          learnerArr := learnerArr
          proposerArr := proposerArr } }
  /-- A new round. -/
  | propose (v : Voting) (due : timeout) (msg : LeleMsg) (vote : Vote i v .prepare msg)
      (pnum : msg.pnum = v.mod.nextPnum) (content : msg.content = -1) :
      Step n i timeout heard checks decides v
        (say { v with mod := { v.mod with nextPnum := v.mod.nextPnum + n } } msg)
  | promiseOwn (v : Voting) (due : timeout)
      (higher : v.mod.acceptor.highestSeenPnum < v.mod.origin n) :
      Step n i timeout heard checks decides v (v.promiseOwn n i)
  /-- The proposer's own promise completes the round. -/
  | proposeAlone (v : Voting) (due : timeout) (begun : v.begun = true)
      (higher : v.mod.acceptor.highestSeenPnum < v.mod.origin n) (content : NodeId)
      (msg : LeleMsg) (vote : Vote i v .accept msg)
      (found : (v.promiseOwn n i).mod.proposerCheckPrepare n = some content)
      (pnum : msg.pnum = v.mod.origin n) (chosen : msg.content = choice i content) :
      Step n i timeout heard checks decides v
        (((v.promiseOwn n i).learn i msg.pnum msg.content).say msg)
  | answer (v : Voting) (msg : LeleMsg) (hears : Hears heard v .prepareAck msg)
      (round : msg.pPnum = v.mod.origin n) (inGroup : InGroup n msg.nodeId) :
      Step n i timeout heard checks decides v (v.answer n msg)
  | phaseTwo (v : Voting) (begun : v.begun = true) (content : NodeId) (msg : LeleMsg)
      (vote : Vote i v .accept msg)
      (checked : checks v) (found : v.mod.proposerCheckPrepare n = some content)
      (pnum : msg.pnum = v.mod.origin n) (chosen : msg.content = choice i content) :
      Step n i timeout heard checks decides v ((v.learn i msg.pnum msg.content).say msg)
  | promise (v : Voting) (msg ack : LeleMsg) (hears : Hears heard v .prepare msg)
      (higher : v.mod.acceptor.highestSeenPnum < msg.pnum) (vote : Vote i v .prepareAck ack)
      (pnum : ack.pnum = v.mod.acceptor.acceptedPnum) (content : ack.content = msg.content)
      (pPnum : ack.pPnum = msg.pnum) :
      Step n i timeout heard checks decides v ((v.promise msg.pnum msg.content).say ack)
  | accept (v : Voting) (msg : LeleMsg) (hears : Hears heard v .accept msg)
      (order : v.mod.acceptor.highestSeenPnum ≤ msg.pnum) :
      Step n i timeout heard checks decides v (v.accept msg.pnum msg.content)
  /-- A vote of another node, or the node's own. -/
  | learn (v : Voting) (msg : LeleMsg)
      (source : Hears heard v .acceptAck msg ∨
        msg.nodeId = i ∧ (v.mod.nextView, msg.pnum, msg.content) ∈ v.accepted)
      (inGroup : InGroup n msg.nodeId) (newer : (v.mod.learnerArr msg.nodeId).pnum < msg.pnum) :
      Step n i timeout heard checks decides v (v.learn msg.nodeId msg.pnum msg.content)
  | announce (v : Voting) (begun : v.begun = true) (entry : AcceptedRecord) (msg : LeleMsg)
      (vote : Vote i v .announce msg)
      (decided : decides v) (found : v.mod.learnerCheckAccept n = some entry)
      (pnum : msg.pnum = entry.pnum) (content : msg.content = entry.content) :
      Step n i timeout heard checks decides v (v.say msg)
  | acknowledge (v : Voting) (msg : LeleMsg) (vote : Vote i v .acceptAck msg)
      (accepted : (v.mod.nextView, msg.pnum, msg.content) ∈ v.accepted) :
      Step n i timeout heard checks decides v (v.say msg)

/-- A sequence of atomic steps. -/
def Steps (n : ℕ) (i : NodeId) (timeout : Prop) (heard : LeleMsg → Prop)
    (checks decides : Voting → Prop) : Voting → Voting → Prop :=
  Relation.ReflTransGen (Step n i timeout heard checks decides)

/-- What every atomic step preserves, every sequence of them preserves. -/
theorem Steps.invariant {n : ℕ} {i : NodeId} {timeout : Prop} {heard : LeleMsg → Prop}
    {checks decides : Voting → Prop} {I : Voting → Prop} {v v' : Voting}
    (steps : Steps n i timeout heard checks decides v v')
    (preserved : ∀ v v', I v → Step n i timeout heard checks decides v v' → I v')
    (start : I v) : I v' := by
  induction steps with
  | refl => exact start
  | tail _ step ih => exact preserved _ _ ih step

end Voting

namespace Node

/-! ## The votes of a node -/

def voting (node : Node) : Voting where
  begun := node.modAllocated
  mod := node.electionMod.votes
  accepted := node.accepted
  said := node.sent.filterMap fun call => call.2.asVote

theorem voting_sendVote (node : Node) (target : Int) (msg : LeleMsg) (data : List UInt32)
    (isVote : msg.type.isVote = true) :
    ({ node with sent := node.sent ++ [(target, .leaderElection msg data)] } : Node).voting =
      node.voting.say msg := by
  simp only [voting, Voting.say, List.filterMap_append, List.filterMap_cons, SysMsg.asVote,
    if_pos isVote, List.filterMap_nil]

theorem voting_sendOther (node : Node) (target : Int) (msg : SysMsg) (other : msg.asVote = none) :
    ({ node with sent := node.sent ++ [(target, msg)] } : Node).voting = node.voting := by
  simp only [voting, List.filterMap_append, List.filterMap_cons, other, List.filterMap_nil,
    List.append_nil]

theorem mem_said {w : UInt32} {node : Node} {type : LeleType} {msg : LeleMsg}
    (isVote : type.isVote = true) : Said w node type msg ↔
      msg ∈ node.voting.said ∧ msg.type = type ∧ msg.nextView = w := by
  simp only [voting, List.mem_filterMap]
  constructor
  · rintro ⟨rfl, view, target, data, member⟩
    refine ⟨⟨_, member, ?_⟩, rfl, view⟩
    simp only [SysMsg.asVote, if_pos isVote]
  · rintro ⟨⟨⟨target, msg'⟩, member, same⟩, rfl, view⟩
    cases msg' with
    | leaderElection vcMsg data =>
      simp only [SysMsg.asVote] at same
      split at same
      next => exact Option.some.inj same ▸ ⟨rfl, Option.some.inj same ▸ view, target, data,
        member⟩
      next => cases same
    | pingReq => cases same
    | pingAck => cases same
    | consensus => cases same
    | requestSubmit => cases same

/-- What a timeout sends again is no vote. -/
def Resends (mod : LeleMod) : Prop := ∀ msg, mod.announceAckMsg = some msg → msg.asVote = none

/-- What the votes of a node rest on besides: a module that is not allocated yet counts as
cleared, and one that has been in an election is allocated. -/
structure Tidy (node : Node) : Prop where
  cleared : node.modAllocated = false → node.electionMod.acceptor = ⟨0, 0, 0⟩
  allocated : node.state ≠ .active → node.modAllocated = true
  resent : Resends node.electionMod

/-- The node takes the message for one of the election it is in. -/
def Handles (node : Node) (msg : LeleMsg) : Prop :=
  node.state ≠ .active ∧ msg.nextView = node.viewId + 1

instance (node : Node) (msg : LeleMsg) : Decidable (node.Handles msg) :=
  inferInstanceAs (Decidable (_ ∧ _))

/-- The votes with which `proposer_check_prepare` is called on an answer. -/
def checksPrepare (node : Node) : NodeEvent → Option Voting
  | .message (.leaderElection msg _) =>
    if node.Handles msg ∧ msg.type = .prepareAck ∧
        msg.pPnum = node.electionMod.origin node.groupSize then
      some (node.voting.answer node.groupSize msg)
    else none
  | _ => none

/-- The votes with which `learner_check_accept` is called. -/
def checksAccept (node : Node) : NodeEvent → Option Voting
  | .message (.leaderElection msg _) =>
    if node.Handles msg then
      if msg.type = .acceptAck ∧ (node.electionMod.learnerArr msg.nodeId).pnum < msg.pnum then
        some (node.voting.learn msg.nodeId msg.pnum msg.content)
      else if msg.type = .accept ∧ node.electionMod.acceptor.highestSeenPnum ≤ msg.pnum ∧
          (node.electionMod.learnerArr node.nodeId).pnum < msg.pnum then
        some ((node.voting.accept msg.pnum msg.content).learn node.nodeId msg.pnum msg.content)
      else none
    else none
  | _ => none

end Node

end LibeventPaxos
