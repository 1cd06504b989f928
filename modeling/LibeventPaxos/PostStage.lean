import LibeventPaxos.NodeCalls

/-!
What a node tells the others about the next view: the acknowledgements of the post stage, which go
to the node the election has chosen, and the views in FINs and pings.
-/
namespace LibeventPaxos

open Lib

namespace SysMsg

/-- The view a node may enter on reading the message. -/
def installed : SysMsg → Option View
  | .pingReq _ view _ => some view
  | .leaderElection msg _ =>
    if msg.type = .fin then some ⟨msg.nextView, msg.content, msg.lastReq⟩ else none
  | _ => none

/-- An announcement names the leader of the view it is for. -/
def Honest (leader : UInt32 → NodeId) : SysMsg → Prop
  | .leaderElection msg _ => msg.type = .announce → msg.content = leader msg.nextView
  | _ => True

instance (leader : UInt32 → NodeId) : ∀ msg : SysMsg, Decidable (msg.Honest leader)
  | .leaderElection msg _ => inferInstanceAs (Decidable (msg.type = .announce → _))
  | .pingReq _ _ _ => .isTrue trivial
  | .pingAck _ _ _ => .isTrue trivial
  | .consensus _ => .isTrue trivial
  | .requestSubmit _ => .isTrue trivial

/-- An acknowledgement goes to the leader of the view it is for. -/
def Acks (leader : UInt32 → NodeId) (target : Int) : SysMsg → Prop
  | .leaderElection msg _ => msg.type = .announceAck →
      target = leader msg.nextView ∧ msg.content = leader msg.nextView
  | _ => True

theorem installed_vote {msg : LeleMsg} (data : List UInt32) (isVote : msg.type.isVote = true) :
    (leaderElection msg data).installed = none := by
  have other : msg.type ≠ .fin := by
    intro fin
    rw [fin] at isVote
    cases isVote
  exact if_neg other

theorem acks_vote (leader : UInt32 → NodeId) (target : Int) {msg : LeleMsg} (data : List UInt32)
    (isVote : msg.type.isVote = true) : Acks leader target (leaderElection msg data) := by
  intro ack
  rw [ack] at isVote
  cases isVote

end SysMsg

namespace Node

variable {leader : UInt32 → NodeId} {node node' before : Node}

/-! ## The post stage -/

/-- Every announcement the node has sent names the leader of its view. -/
def Honest (leader : UInt32 → NodeId) (node : Node) : Prop :=
  ∀ call ∈ node.sent, call.2.Honest leader

instance (leader : UInt32 → NodeId) (node : Node) : Decidable (node.Honest leader) :=
  inferInstanceAs (Decidable (∀ call ∈ node.sent, _))

/-- A call that installs no view and acknowledges no other node than the leader. -/
def Quiet (leader : UInt32 → NodeId) (call : Int × SysMsg) : Prop :=
  call.2.installed = none ∧ call.2.Acks leader call.1

/-- A node in the post stage waits for the leader of the next view, and what it sends again is the
acknowledgement of this election. -/
structure Stationed (leader : UInt32 → NodeId) (node : Node) : Prop where
  named : node.electionMod.newLeader = leader node.electionMod.nextView
  kept : node.comp.fault = none → node.electionMod.newLeader ≠ node.nodeId →
    ∀ msg, node.electionMod.announceAckMsg = some msg →
      Quiet leader (node.electionMod.newLeader, msg)

/-- All a call adds to the log is of one kind. -/
def Appends (kind : Int × SysMsg → Prop) (node node' : Node) : Prop :=
  ∃ fresh, node'.sent = node.sent ++ fresh ∧ ∀ call ∈ fresh, kind call

section Appends

variable {kind : Int × SysMsg → Prop}

theorem Appends.silent (same : node'.sent = node.sent) : Appends kind node node' :=
  ⟨[], by rw [same, List.append_nil], fun call member => by cases member⟩

theorem Appends.one (call : Int × SysMsg) (same : node'.sent = node.sent ++ [call])
    (isKind : kind call) : Appends kind node node' := by
  refine ⟨[call], same, fun other member => ?_⟩
  obtain rfl := List.mem_singleton.mp member
  exact isKind

theorem Appends.trans (first : Appends kind node before) (second : Appends kind before node') :
    Appends kind node node' := by
  obtain ⟨fresh, calls, known⟩ := first
  obtain ⟨fresh', calls', known'⟩ := second
  refine ⟨fresh ++ fresh', by rw [calls', calls, List.append_assoc], fun call member => ?_⟩
  rcases List.mem_append.mp member with old | new
  · exact known call old
  · exact known' call new

theorem Appends.mono {weaker : Int × SysMsg → Prop} (appends : Appends kind node node')
    (implies : ∀ call, kind call → weaker call) : Appends weaker node node' := by
  obtain ⟨fresh, calls, known⟩ := appends
  exact ⟨fresh, calls, fun call member => implies call (known call member)⟩

end Appends

/-- The handler leaves alone what the post stage is about. -/
structure Unposted (node node' : Node) : Prop where
  state : node'.state = node.state
  newLeader : node'.electionMod.newLeader = node.electionMod.newLeader
  kept : node'.electionMod.announceAckMsg = node.electionMod.announceAckMsg

/-- What an election handler short of entering a view does: it sends quiet calls, and it enters the
post stage only to wait for the leader. -/
structure Posts (leader : UInt32 → NodeId) (node node' : Node) : Prop where
  told : Unposted node node' ∨ node'.state = .postLele ∧ Stationed leader node'
  sent : Appends (Quiet leader) node node'

section Posts

theorem Unposted.trans (first : Unposted node before) (second : Unposted before node') :
    Unposted node node' :=
  ⟨second.state.trans first.state, second.newLeader.trans first.newLeader,
    second.kept.trans first.kept⟩

theorem quiet_vote (target : Int) {msg : LeleMsg} (data : List UInt32)
    (isVote : msg.type.isVote = true) : Quiet leader (target, .leaderElection msg data) :=
  ⟨SysMsg.installed_vote data isVote, SysMsg.acks_vote leader target data isVote⟩

/-- A handler that tells the post stage nothing. -/
theorem Posts.silent (told : Unposted node node') (same : node'.sent = node.sent) :
    Posts leader node node' :=
  ⟨.inl told, .silent same⟩

theorem Posts.refl (node : Node) : Posts leader node node := .silent ⟨rfl, rfl, rfl⟩ rfl

/-- Nothing but quiet calls, and what follows them. -/
theorem Posts.after (told : Unposted node before) (sent : Appends (Quiet leader) node before)
    (rest : Posts leader before node') : Posts leader node node' where
  told := by
    rcases rest.told with same | posted
    · exact .inl (told.trans same)
    · exact .inr posted
  sent := sent.trans rest.sent

/-- A further quiet call. -/
theorem Posts.send (posts : Posts leader node before) (call : Int × SysMsg)
    (quiet : Quiet leader call) :
    Posts leader node { before with sent := before.sent ++ [call] } where
  told := by
    rcases posts.told with same | ⟨post, stationed⟩
    · exact .inl ⟨same.state, same.newLeader, same.kept⟩
    · exact .inr ⟨post, stationed.named, stationed.kept⟩
  sent := posts.sent.trans (.one call rfl quiet)

/-- The handler goes on with other parts of the election module. -/
theorem Posts.withMod (posts : Posts leader node before) (mod : LeleMod)
    (nextView : mod.nextView = before.electionMod.nextView)
    (newLeader : mod.newLeader = before.electionMod.newLeader)
    (kept : mod.announceAckMsg = before.electionMod.announceAckMsg) :
    Posts leader node (before.withMod mod) where
  told := by
    rcases posts.told with same | ⟨post, stationed⟩
    · exact .inl ⟨same.state, newLeader.trans same.newLeader, kept.trans same.kept⟩
    · refine .inr ⟨post, ?_, ?_⟩
      · show mod.newLeader = leader mod.nextView
        rw [newLeader, nextView]
        exact stationed.named
      · show before.comp.fault = none → mod.newLeader ≠ before.nodeId → _
        rw [newLeader]
        show _ → _ → ∀ msg, mod.announceAckMsg = some msg → Quiet leader (mod.newLeader, msg)
        rw [newLeader, kept]
        exact stationed.kept
  sent := posts.sent.trans (.silent rfl)

/-- The handler fails, and what it would send again is never sent. -/
theorem Posts.failed (posts : Posts leader node before) (fault : Fault) :
    Posts leader node (before.fail fault) where
  told := by
    rcases posts.told with same | ⟨post, stationed⟩
    · exact .inl ⟨same.state, same.newLeader, same.kept⟩
    · exact .inr ⟨post, stationed.named, fun running => by cases running⟩
  sent := posts.sent

theorem Posts.andThen {next : Node → Node} (first : Posts leader node before)
    (rest : Posts leader node (next before)) : Posts leader node (before.andThen next) := by
  simp only [Node.andThen]
  split
  next => exact rest
  next => exact first

theorem Stationed.of_unposted (stationed : Stationed leader node) (same : Unposted node node')
    (nextView : node'.electionMod.nextView = node.electionMod.nextView)
    (nodeId : node'.nodeId = node.nodeId) (running : node.comp.fault = none) :
    Stationed leader node' where
  named := by
    rw [same.newLeader, nextView]
    exact stationed.named
  kept _ := by
    rw [same.newLeader, same.kept, nodeId]
    exact stationed.kept running

end Posts

/-! ## Election handlers -/

section Handlers

private theorem unposted_checkPrepare (env : NodeEnv) (node : Node) :
    Unposted node (node.checkPrepare env) ∧
      Appends (Quiet leader) node (node.checkPrepare env) := by
  simp only [checkPrepare, leaderElectionProposerPhaseTwo]
  split
  next =>
    split
    next => exact ⟨⟨rfl, rfl, rfl⟩, .silent rfl⟩
    next => exact ⟨⟨rfl, rfl, rfl⟩, .one _ rfl (quiet_vote (-1) [] rfl)⟩
  next => exact ⟨⟨rfl, rfl, rfl⟩, .silent rfl⟩

private theorem posts_checkPrepare (env : NodeEnv) (told : Unposted node before)
    (sent : Appends (Quiet leader) node before) :
    Posts leader node (before.checkPrepare env) := by
  have checks : Unposted before (before.checkPrepare env) ∧
      Appends (Quiet leader) before (before.checkPrepare env) := unposted_checkPrepare env before
  obtain ⟨same, added⟩ := checks
  exact ⟨.inl (told.trans same), sent.trans added⟩

private theorem posts_leaderElectionPropose (env : NodeEnv) (node : Node) :
    Posts leader node (node.leaderElectionPropose env) := by
  have proposed (msg : LeleMsg) (isPrepare : msg.type = .prepare) :
      Quiet leader (-1, .leaderElection msg []) :=
    quiet_vote (-1) [] (by rw [isPrepare]; rfl)
  simp only [leaderElectionPropose]
  split
  next higher =>
    exact posts_checkPrepare env ⟨rfl, rfl, rfl⟩ (.one _ rfl (proposed _ rfl))
  next older => exact ⟨.inl ⟨rfl, rfl, rfl⟩, .one _ rfl (proposed _ rfl)⟩

private theorem posts_leaderElectionProposerDo (env : NodeEnv) (node : Node) (msg : LeleMsg) :
    Posts leader node (node.leaderElectionProposerDo env msg) := by
  simp only [leaderElectionProposerDo]
  split
  next other => exact .failed (.refl node) _
  next isAck =>
    split
    next current =>
      split
      next inside => exact posts_checkPrepare env ⟨rfl, rfl, rfl⟩ (.silent rfl)
      next outside => exact .failed (.refl node) _
    next old => exact .refl node

private theorem posts_handlePrepare (env : NodeEnv) (node : Node) (msg : LeleMsg) :
    Posts leader node (node.handlePrepare env msg) := by
  obtain ⟨timer, waits⟩ := stopPropose_timer node msg
  simp only [handlePrepare, waits]
  split
  next higher => exact ⟨.inl ⟨rfl, rfl, rfl⟩, .one _ rfl (quiet_vote msg.nodeId [] rfl)⟩
  next lower => exact .silent ⟨rfl, rfl, rfl⟩ rfl

/-- A node that waits for the leader acknowledges to it and keeps the acknowledgement. -/
private theorem stationed_leaderElectionCalEdge (env : NodeEnv) (node : Node)
    (post : node.state = .postLele)
    (named : node.electionMod.newLeader = leader node.electionMod.nextView) :
    ((node.leaderElectionCalEdge env).state = .postLele ∧
      Stationed leader (node.leaderElectionCalEdge env)) ∧
      Appends (Quiet leader) node (node.leaderElectionCalEdge env) := by
  have reply (msg : LeleMsg) (data : List UInt32) (isAck : msg.type = .announceAck)
      (nextView : msg.nextView = node.electionMod.nextView)
      (content : msg.content = node.electionMod.newLeader) :
      let replied := (node.withMod { node.electionMod with
        announceAckMsg := some (.leaderElection msg data), slientPeriod := .pending }).sendToOneNode
          node.electionMod.newLeader (.leaderElection msg data)
      (replied.state = .postLele ∧ Stationed leader replied) ∧
        Appends (Quiet leader) node replied := by
    have quiet : Quiet leader (node.electionMod.newLeader, .leaderElection msg data) := by
      constructor
      · exact if_neg (by rw [isAck]; exact LeleType.noConfusion)
      · intro _
        rw [content, nextView]
        exact ⟨named, named⟩
    refine ⟨⟨post, named, ?_⟩, .one _ rfl quiet⟩
    intro _ _ kept same
    exact Option.some.inj same ▸ quiet
  -- a call that has failed keeps what the election before has left, and is the last one
  have failed (fault : Fault) : ((node.fail fault).state = .postLele ∧
      Stationed leader (node.fail fault)) ∧ Appends (Quiet leader) node (node.fail fault) :=
    ⟨⟨post, named, fun running => by cases running⟩, .silent rfl⟩
  simp only [leaderElectionCalEdge]
  split
  next seen =>
    split
    next huge => exact failed _
    next sized =>
      split
      next fault _ => exact failed fault
      next => exact reply _ _ rfl rfl rfl
  next nothing => exact reply _ _ rfl rfl rfl

theorem newLeader_handleAnnounce (env : NodeEnv) (node : Node) (msg : LeleMsg) :
    (node.leaderElectionHandleAnnounce env msg).electionMod.newLeader = msg.content := by
  simp only [leaderElectionHandleAnnounce, leaderElectionInitializeEdgeMod, leaderElectionCalEdge]
  split
  next own => split <;> rfl
  next other =>
    split
    next seen =>
      split
      next huge => rfl
      next sized => split <;> rfl
    next nothing => rfl

private theorem posts_leaderElectionHandleAnnounce (env : NodeEnv) (node : Node) (msg : LeleMsg)
    (named : msg.content = leader node.electionMod.nextView) :
    Posts leader node (node.leaderElectionHandleAnnounce env msg) := by
  simp only [leaderElectionHandleAnnounce]
  split
  next own =>
    -- the leader keeps no acknowledgement to send again
    simp only [leaderElectionInitializeEdgeMod]
    split
    next => exact ⟨.inr ⟨rfl, named, fun _ other => absurd own other⟩, .silent rfl⟩
    next => exact ⟨.inr ⟨rfl, named, fun _ other => absurd own other⟩, .silent rfl⟩
  next other =>
    generalize same : ({ node with
      state := .postLele
      electionMod := { node.electionMod with newLeader := msg.content } } : Node) = waiting
    have post : waiting.state = .postLele := by
      subst same
      rfl
    have known : waiting.electionMod.newLeader = leader waiting.electionMod.nextView := by
      subst same
      exact named
    obtain ⟨told, sent⟩ := stationed_leaderElectionCalEdge env waiting post known
    refine ⟨.inr told, Appends.trans (.silent ?_) sent⟩
    subst same
    rfl

private theorem posts_leaderElectionLearnerDo (env : NodeEnv) (node : Node) (msg : LeleMsg)
    (honest : Honest leader (node.leaderElectionLearnerDo env msg)) :
    Posts leader node (node.leaderElectionLearnerDo env msg) := by
  simp only [leaderElectionLearnerDo] at honest ⊢
  split
  next inside =>
    simp only [if_pos inside] at honest
    split
    next newer =>
      simp only [if_pos newer] at honest
      generalize found : LeleMod.learnerCheckAccept _ _ = decided at honest ⊢
      cases decided with
      | none => exact .silent ⟨rfl, rfl, rfl⟩ rfl
      | some decided =>
        simp only at honest ⊢
        generalize same : Node.sendToOtherNodes _ _ = announcing at honest ⊢
        -- the announcement is among what the node has sent
        have announced := (elects_leaderElectionHandleAnnounce env announcing
          (node.electionMod.buildLeleMsg env node.nodeId .announce
            (decided.pnum, decided.content))).logs.1
        have named : decided.content = leader node.electionMod.nextView := by
          subst same
          exact honest _ (announced (List.mem_append_right _ (List.mem_singleton_self _))) rfl
        have told : Unposted node announcing := by
          subst same
          exact ⟨rfl, rfl, rfl⟩
        have sent : Appends (Quiet leader) node announcing := by
          subst same
          exact .one _ rfl (quiet_vote (-1) [] rfl)
        refine .after told sent (posts_leaderElectionHandleAnnounce env _ _ ?_)
        subst same
        exact named
    next older => exact .refl node
  next outside => exact .failed (.refl node) _

private theorem posts_handleAccept (env : NodeEnv) (node : Node) (msg : LeleMsg)
    (honest : Honest leader (node.handleAccept env msg)) :
    Posts leader node (node.handleAccept env msg) := by
  simp only [handleAccept] at honest ⊢
  split
  next accepts =>
    simp only [if_pos accepts] at honest
    generalize same : acceptorUpdateRecord _ = accepted at honest ⊢
    generalize isAck : accepted.electionMod.buildLeleMsg env accepted.nodeId .acceptAck (0, 0) = ack
      at honest ⊢
    have told : Unposted node accepted := by
      subst same
      exact ⟨rfl, rfl, rfl⟩
    have silent : accepted.sent = node.sent := by
      subst same
      rfl
    have ackQuiet : Quiet leader (-1, .leaderElection ack []) := by
      subst isAck
      exact quiet_vote (-1) [] rfl
    have learner : Honest leader (accepted.leaderElectionLearnerDo env ack) := by
      intro call member
      refine honest call ?_
      simp only [Node.andThen]
      split
      next => exact List.mem_append_left _ member
      next => exact member
    have learnt := Posts.after told (.silent silent)
      (posts_leaderElectionLearnerDo env accepted ack learner)
    exact learnt.andThen (learnt.send (-1, .leaderElection ack []) ackQuiet)
  next refuses => exact .refl node

private theorem posts_leaderElectionOnTimeout (env : NodeEnv) (node : Node)
    (running : node.comp.fault = none)
    (stationed : node.state = .postLele → Stationed leader node) :
    Posts leader node (node.leaderElectionOnTimeout env) := by
  simp only [leaderElectionOnTimeout]
  split
  next post =>
    split
    next other =>
      split
      next msg kept =>
        have quiet := (stationed post).kept running other msg kept
        exact ((Posts.refl node).send _ quiet).withMod _ rfl rfl rfl
      next => exact (Posts.refl node).withMod _ rfl rfl rfl
    next own => exact (Posts.refl node).withMod _ rfl rfl rfl
  next inLele =>
    have proposed : Posts leader node (node.leaderElectionPropose env) :=
      posts_leaderElectionPropose env node
    exact proposed.andThen (proposed.withMod _ rfl rfl rfl)
  next active => exact .refl node

end Handlers

/-! ## Calls -/

/-- The node enters the next view as its leader. -/
structure Opens (leader : UInt32 → NodeId) (node node' : Node) : Prop where
  next : node'.viewId = node.viewId + 1
  own : node'.comp.curView.leaderId = node.nodeId
  elected : node.nodeId = leader node'.viewId

/-- A call that acknowledges nobody but leaders and tells no view but the node's own and stray
ones. -/
def TellsOwn (leader : UInt32 → NodeId) (stray : View → Prop) (node node' : Node)
    (call : Int × SysMsg) : Prop :=
  call.2.Acks leader call.1 ∧ ∀ view, call.2.installed = some view →
    view = node.comp.curView ∨ view = node'.comp.curView ∨ stray view

/-- What a call of a node does that is told known views only: it stays in its view, enters a known
view or opens the next one. -/
structure Tells (leader : UInt32 → NodeId) (known stray : View → Prop) (node node' : Node) :
    Prop where
  view : node'.comp.curView = node.comp.curView ∨
    (node'.viewId = node.viewId + 1 ∧ known node'.comp.curView) ∨ Opens leader node node'
  post : node'.state = .postLele → Stationed leader node'
  sent : Appends (TellsOwn leader stray node node') node node'

/-- The message is about the leader of its own view, and the view it tells is known if it is the
next one. -/
def Hears (leader : UInt32 → NodeId) (known : View → Prop) (node : Node) : NodeEvent → Prop
  | .message msg => msg.Honest leader ∧ msg.Acks leader node.nodeId ∧
      ∀ view, msg.installed = some view → node.viewId + 1 = view.viewId → known view
  | _ => True

/-- An acknowledgement that completes a majority meets an election module that names the leader it
acknowledges, or none. -/
def ClosesOwn (node : Node) : NodeEvent → Prop
  | .message (.leaderElection msg _) => node.Handles msg → msg.type = .announceAck →
      node.Closes msg → node.Overtakes msg ∨ node.electionMod.newLeader = msg.content
  | _ => True

/-- A late election message is answered with the view the node is in, or with a stray one. -/
def AnswersOwn (stray : View → Prop) (node : Node) : NodeEvent → Prop
  | .message (.leaderElection msg _) => node.state ≠ .active → msg.nextView = node.viewId →
      ∀ value ∈ node.comp.db.retrieveRecord (vstol ⟨node.viewId, 0⟩),
        asView value = node.comp.curView ∨ stray (asView value)
  | _ => True

/-- The node is told no stray view that is the next one for it, and drops all others. -/
def DropsStray (stray : View → Prop) (node : Node) : NodeEvent → Prop
  | .message msg => ∀ view ∈ msg.installed, node.viewId + 1 = view.viewId → ¬ stray view
  | _ => True

instance (node : Node) : ∀ event, Decidable (node.ClosesOwn event)
  | .message (.leaderElection _ _) => inferInstanceAs (Decidable (_ → _ → _ → _ ∨ _))
  | .message (.pingReq _ _ _) => .isTrue trivial
  | .message (.pingAck _ _ _) => .isTrue trivial
  | .message (.consensus _) => .isTrue trivial
  | .message (.requestSubmit _) => .isTrue trivial
  | .leaderPing => .isTrue trivial
  | .expectPing => .isTrue trivial
  | .makeProgress => .isTrue trivial
  | .electionTimeout => .isTrue trivial

instance (stray : View → Prop) [DecidablePred stray] (node : Node) :
    ∀ event, Decidable (node.DropsStray stray event)
  | .message msg => inferInstanceAs (Decidable (∀ view ∈ msg.installed, _ → ¬ stray view))
  | .leaderPing => .isTrue trivial
  | .expectPing => .isTrue trivial
  | .makeProgress => .isTrue trivial
  | .electionTimeout => .isTrue trivial

instance (stray : View → Prop) [DecidablePred stray] (node : Node) :
    ∀ event, Decidable (node.AnswersOwn stray event)
  | .message (.leaderElection _ _) => inferInstanceAs (Decidable (_ → _ → ∀ value ∈ _, _ ∨ _))
  | .message (.pingReq _ _ _) => .isTrue trivial
  | .message (.pingAck _ _ _) => .isTrue trivial
  | .message (.consensus _) => .isTrue trivial
  | .message (.requestSubmit _) => .isTrue trivial
  | .leaderPing => .isTrue trivial
  | .expectPing => .isTrue trivial
  | .makeProgress => .isTrue trivial
  | .electionTimeout => .isTrue trivial

section Calls

variable {known stray : View → Prop}

theorem Tells.of_elects (elects : Elects node node') (posts : Posts leader node node')
    (running : node.comp.fault = none)
    (stationed : node.state = .postLele → Stationed leader node) :
    Tells leader known stray node node' where
  view := .inl elects.curView
  post post := by
    rcases posts.told with same | ⟨-, stationed'⟩
    · have nodeId : node'.nodeId = node.nodeId := by
        obtain ⟨db, fault, comp⟩ := elects.comp
        rw [Node.nodeId, comp]
        rfl
      exact (stationed (same.state.symm.trans post)).of_unposted same elects.nextView nodeId running
    · exact stationed'
  sent := posts.sent.mono fun call quiet =>
    ⟨quiet.2, fun view tells => by rw [quiet.1] at tells; cases tells⟩

theorem Tells.refl (running : node.comp.fault = none)
    (stationed : node.state = .postLele → Stationed leader node) :
    Tells leader known stray node node :=
  .of_elects (.refl node) (.refl node) running stationed

theorem Tells.send (stationed : node.state = .postLele → Stationed leader node)
    (call : Int × SysMsg) (own : TellsOwn leader stray node node call) :
    Tells leader known stray node { node with sent := node.sent ++ [call] } where
  view := .inl rfl
  post post := ⟨(stationed post).named, (stationed post).kept⟩
  sent := .one call rfl own

/-- A call that ends outside the post stage and in the same view. -/
theorem Tells.stays (same : node'.comp.curView = node.comp.curView)
    (state : node'.state ≠ .postLele) (silent : node'.sent = node.sent) :
    Tells leader known stray node node' :=
  ⟨.inl same, fun post => absurd post state, .silent silent⟩

theorem Tells.updateView (running : node.comp.fault = none)
    (stationed : node.state = .postLele → Stationed leader node) (kept : node.evLeaderPing ≠ .freed)
    (env : NodeEnv) (view : View) (knows : node.viewId + 1 = view.viewId → known view) :
    Tells leader known stray node (node.updateView env view) := by
  rcases updateView_cases env node view running kept with ⟨ignored, -⟩ | ⟨-, failed⟩ | entered
  · rw [ignored]
    exact .refl running stationed
  · rw [failed]
    exact .of_elects (elects_fail node _) (.failed (.refl node) _) running stationed
  · refine ⟨.inr (.inl ?_), ?_, .silent entered.sent⟩
    · rw [Node.viewId, entered.curView]
      exact ⟨entered.successor.symm, knows entered.successor⟩
    · intro post
      rw [entered.state] at post
      cases post

/-- The node that closes the election enters the next view and tells it to the others. -/
private theorem tells_leaderElectionLeaderClose (env : NodeEnv) (elects : Elects node before)
    (sent : Appends (Quiet leader) node before) (running : before.comp.fault = none)
    (kept : before.evLeaderPing ≠ .freed) (nextView : before.electionMod.nextView = node.viewId + 1)
    (own : before.electionMod.newLeader = node.nodeId)
    (elected : node.nodeId = leader (node.viewId + 1)) :
    Tells leader known stray node (before.leaderElectionLeaderClose env) := by
  simp only [leaderElectionLeaderClose]
  generalize closing : (⟨before.electionMod.nextView, before.electionMod.newLeader,
    before.electionMod.edge.boundary⟩ : View) = view
  have viewId : view.viewId = node.viewId + 1 := by
    subst closing
    exact nextView
  have leads : view.leaderId = node.nodeId := by
    subst closing
    exact own
  rcases updateView_cases env before view running kept with ⟨-, other⟩ | ⟨-, failed⟩ | entered
  · -- the election is for the next view
    refine absurd ?_ other
    rw [viewId, Node.viewId, elects.curView]
    rfl
  · rw [failed, andThen_of_fault _ _ (by simp [Node.fail, Comp.fail])]
    refine ⟨.inl elects.curView, ?_, sent.mono fun call quiet => ⟨quiet.2, ?_⟩⟩
    · intro _
      refine ⟨?_, fun running => by cases running⟩
      show before.electionMod.newLeader = leader before.electionMod.nextView
      rw [own, nextView, elected]
    · intro view tells
      rw [quiet.1] at tells
      cases tells
  · have running' : (before.updateView env view).comp.fault = none := by
      rw [entered.comp]
      exact running
    rw [andThen_of_running _ _ running']
    have curView := entered.curView
    refine ⟨.inr (.inr ⟨?_, ?_, ?_⟩), ?_, ?_⟩
    · show (before.updateView env view).viewId = _
      rw [Node.viewId, curView, viewId]
    · show (before.updateView env view).comp.curView.leaderId = _
      rw [curView, leads]
    · show _ = leader (before.updateView env view).viewId
      rw [Node.viewId, curView, viewId, elected]
    · intro post
      have active : (before.updateView env view).state = .postLele := post
      rw [entered.state] at active
      cases active
    · obtain ⟨fresh, calls, known⟩ := sent
      refine ⟨fresh ++ [(-1, .leaderElection (buildClose env view) [])], ?_, ?_⟩
      · show (before.updateView env view).sent ++ _ = _
        rw [entered.sent, calls, List.append_assoc]
      · intro call member
        rcases List.mem_append.mp member with old | new
        · refine ⟨(known call old).2, fun view tells => ?_⟩
          rw [(known call old).1] at tells
          cases tells
        · obtain rfl := List.mem_singleton.mp new
          refine ⟨fun ack => LeleType.noConfusion ack, fun told tells => .inr (.inl ?_)⟩
          show told = (before.updateView env view).comp.curView
          rw [curView]
          exact (Option.some.inj tells).symm

private theorem tells_mergeAnnounceAck (timed : Timed node) (electing : node.state ≠ .active)
    (env : NodeEnv) (msg : LeleMsg) (data : List UInt32) (elects : Elects node before)
    (posts : Posts leader node before) (running : node.comp.fault = none)
    (running' : before.comp.fault = none)
    (stationed : node.state = .postLele → Stationed leader node)
    (elected : ∀ msgCount, before.electionMod.edge.msgCount = some msgCount →
      node.groupSize / 2 + 1 ≤ EdgeMod.heard node.groupSize
        (Function.update msgCount msg.nodeId true) →
      before.electionMod.newLeader = node.nodeId ∧ node.nodeId = leader (node.viewId + 1)) :
    Tells leader known stray node (before.mergeAnnounceAck env msg data) := by
  have stays {node' : Node} (elects : Elects node node') (posts : Posts leader node node') :
      Tells leader known stray node node' := .of_elects elects posts running stationed
  have groupSize : before.groupSize = node.groupSize := by
    obtain ⟨db, fault, comp⟩ := elects.comp
    rw [Node.groupSize, comp]
    rfl
  simp only [mergeAnnounceAck]
  split
  next nothing => exact stays (elects.trans (elects_fail _ _)) (posts.failed _)
  next msgCount counted =>
    split
    next inGroup =>
      split
      next heard => exact stays elects posts
      next fresh =>
        generalize EdgeMod.mergeAck env _ msg data = merged
        obtain ⟨edge, fault⟩ := merged
        have merges : Elects node (before.withMod { before.electionMod with edge := edge }) :=
          elects.trans (elects_withMod _ _ rfl)
        have told : Posts leader node
            (before.withMod { before.electionMod with edge := edge }) :=
          posts.withMod _ rfl rfl rfl
        cases fault with
        | some fault => exact stays (merges.trans (elects_fail _ fault)) (told.failed fault)
        | none =>
          simp only
          split
          next majority =>
            have enough : before.groupSize / 2 + 1 ≤ EdgeMod.heard before.groupSize
                (Function.update msgCount msg.nodeId true) := majority
            rw [groupSize] at enough
            obtain ⟨own, leads⟩ := elected msgCount counted enough
            refine tells_leaderElectionLeaderClose env merges told.sent running' ?_ ?_ own leads
            · rw [merges.leaderPing]
              exact timed.kept
            · rw [merges.nextView]
              exact timed.election electing
          next minority => exact stays merges told
    next outside => exact stays (elects.trans (elects_fail _ _)) (posts.failed _)

private theorem tells_leaderElectionHandleAnnounceAck (timed : Timed node)
    (electing : node.state ≠ .active) (running : node.comp.fault = none)
    (stationed : node.state = .postLele → Stationed leader node) (env : NodeEnv) (msg : LeleMsg)
    (data : List UInt32) (current : msg.nextView = node.viewId + 1)
    (isLeader : node.nodeId = leader msg.nextView) (content : msg.content = leader msg.nextView)
    (closes : node.Closes msg → node.Overtakes msg ∨ node.electionMod.newLeader = msg.content) :
    Tells leader known stray node (node.leaderElectionHandleAnnounceAck env msg data) := by
  have leads : node.nodeId = leader (node.viewId + 1) := by
    rw [isLeader, current]
  simp only [leaderElectionHandleAnnounceAck]
  by_cases overtakes : node.Overtakes msg
  · rw [if_pos (show node.electionMod.edge.start = 0xFFFFFFFF ∧ node.nodeId = msg.content from
      overtakes)]
    -- the acknowledgement stands for the announcement
    have elects := elects_leaderElectionHandleAnnounce env node msg
    have posts : Posts leader node (node.leaderElectionHandleAnnounce env msg) :=
      posts_leaderElectionHandleAnnounce env node msg (by
        rw [content, current, timed.election electing])
    have named : (node.leaderElectionHandleAnnounce env msg).electionMod.newLeader =
        node.nodeId :=
      (newLeader_handleAnnounce env node msg).trans overtakes.2.symm
    generalize node.leaderElectionHandleAnnounce env msg = before at elects posts named ⊢
    by_cases running' : before.comp.fault = none
    · rw [andThen_of_running _ _ running']
      exact tells_mergeAnnounceAck timed electing env msg data elects posts running running'
        stationed fun _ _ _ => ⟨named, leads⟩
    · rw [andThen_of_fault _ _ running']
      exact .of_elects elects posts running stationed
  · rw [if_neg (show ¬ (node.electionMod.edge.start = 0xFFFFFFFF ∧ node.nodeId = msg.content) from
      overtakes), andThen_of_running _ _ running]
    refine tells_mergeAnnounceAck timed electing env msg data (.refl node) (.refl node) running
      running stationed fun msgCount counted majority => ?_
    have completes : node.Closes msg := by
      rw [Closes, heardBefore, if_neg overtakes, counted]
      exact majority
    refine ⟨?_, leads⟩
    rw [(closes completes).resolve_left overtakes, content, ← isLeader]

private theorem tells_leaderElectionDo (timed : Timed node) (electing : node.state ≠ .active)
    (running : node.comp.fault = none) (stationed : node.state = .postLele → Stationed leader node)
    (env : NodeEnv) (msg : LeleMsg) (data : List UInt32) (current : msg.nextView = node.viewId + 1)
    (hears : Hears leader known node (.message (.leaderElection msg data)))
    (honest : Honest leader (node.leaderElectionDo env msg data))
    (closes : msg.type = .announceAck → node.Closes msg →
      node.Overtakes msg ∨ node.electionMod.newLeader = msg.content) :
    Tells leader known stray node (node.leaderElectionDo env msg data) := by
  have stays {node' : Node} (elects : Elects node node') (posts : Posts leader node node') :
      Tells leader known stray node node' := .of_elects elects posts running stationed
  obtain ⟨announces, acks, installs⟩ := hears
  simp only [leaderElectionDo] at honest ⊢
  cases type : msg.type with
  | prepare => exact stays (elects_handlePrepare env node msg) (posts_handlePrepare env node msg)
  | prepareAck =>
    exact stays (elects_leaderElectionProposerDo env node msg)
      (posts_leaderElectionProposerDo env node msg)
  | accept =>
    rw [type] at honest
    exact stays (elects_handleAccept env node msg) (posts_handleAccept env node msg honest)
  | acceptAck =>
    rw [type] at honest
    exact stays (elects_leaderElectionLearnerDo env node msg)
      (posts_leaderElectionLearnerDo env node msg honest)
  | announce =>
    refine stays (elects_leaderElectionHandleAnnounce env node msg)
      (posts_leaderElectionHandleAnnounce env node msg ?_)
    rw [announces type, current, timed.election electing]
  | announceAck =>
    obtain ⟨isLeader, content⟩ := acks type
    exact tells_leaderElectionHandleAnnounceAck timed electing running stationed env msg data
      current isLeader content (closes type)
  | fin =>
    simp only [leaderElectionHandleClose]
    split
    next => exact .updateView running stationed timed.kept env _ (installs _ (if_pos type))
    next => exact .refl running stationed
  | higherNode =>
    exact stays (elects_leaderElectionProposerDo env node msg)
      (posts_leaderElectionProposerDo env node msg)
  | lagged => exact .refl running stationed

private theorem tells_handleLeaderElectionMsg (timed : Timed node)
    (electing : node.state ≠ .active) (running : node.comp.fault = none)
    (stationed : node.state = .postLele → Stationed leader node) (env : NodeEnv) (msg : LeleMsg)
    (data : List UInt32) (hears : Hears leader known node (.message (.leaderElection msg data)))
    (honest : Honest leader (node.handleLeaderElectionMsg env msg data))
    (closes : node.ClosesOwn (.message (.leaderElection msg data)))
    (answers : node.AnswersOwn stray (.message (.leaderElection msg data))) :
    Tells leader known stray node (node.handleLeaderElectionMsg env msg data) := by
  have stays : Tells leader known stray node node := .refl running stationed
  simp only [handleLeaderElectionMsg] at honest ⊢
  split
  next other =>
    split
    next late =>
      split
      next close closing =>
        simp only [leaderElectionBuildClose, Option.map_eq_some_iff] at closing
        obtain ⟨value, found, rfl⟩ := closing
        rw [late] at found
        refine .send stationed _ ⟨fun ack => LeleType.noConfusion ack, fun view tells => ?_⟩
        obtain rfl : asView value = view := Option.some.inj tells
        exact (answers electing late value found).imp_right .inr
      next => exact stays
    next => exact stays
  next current =>
    rw [if_neg current] at honest
    have current := not_not.mp current
    exact tells_leaderElectionDo timed electing running stationed env msg data current hears honest
      (closes ⟨electing, current⟩)

private theorem tells_handlePingReq (timed : Timed node) (waiting : node.state ≠ .postLele)
    (running : node.comp.fault = none) (env : NodeEnv) (nodeId : NodeId) (view : View)
    (timestamp : TimeVal) (knows : node.viewId + 1 = view.viewId → known view) :
    Tells leader known stray node (node.handlePingReq env nodeId view timestamp) := by
  have stationed : node.state = .postLele → Stationed leader node := (absurd · waiting)
  simp only [handlePingReq]
  split
  next ahead => exact .updateView running stationed timed.kept env view knows
  next =>
    split
    next behind =>
      exact .send stationed _ ⟨trivial, fun view tells => by cases tells⟩
    next =>
      split
      next same =>
        rw [reconnected waiting]
        split_ifs
        all_goals exact .stays rfl NodeState.noConfusion rfl
      next other => exact .refl running stationed

private theorem tells_handleMsg (timed : Timed node) (running : node.comp.fault = none)
    (stationed : node.state = .postLele → Stationed leader node) (env : NodeEnv) (msg : SysMsg)
    (hears : Hears leader known node (.message msg))
    (honest : Honest leader (node.handleMsg env msg))
    (closes : node.ClosesOwn (.message msg)) (answers : node.AnswersOwn stray (.message msg)) :
    Tells leader known stray node (node.handleMsg env msg) := by
  have stays : Tells leader known stray node node := .refl running stationed
  cases msg with
  | pingAck nodeId view timestamp =>
    simp only [handleMsg, handlePingAck_ignored, ite_self]
    exact stays
  | pingReq nodeId view timestamp =>
    simp only [handleMsg]
    split
    next waiting =>
      exact tells_handlePingReq timed waiting running env nodeId view timestamp (hears.2.2 view rfl)
    next => exact stays
  | consensus msg =>
    simp only [handleMsg]
    split
    next active =>
      obtain ⟨-, view⟩ := timed.handle env.toEnv (.message msg) running (by simp)
      exact .stays view (by rw [active]; exact NodeState.noConfusion) rfl
    next => exact stays
  | requestSubmit data =>
    simp only [handleMsg]
    split
    next active =>
      obtain ⟨-, view⟩ := timed.handle env.toEnv (.submit data) running (by simp)
      exact .stays view (by rw [active]; exact NodeState.noConfusion) rfl
    next => exact stays
  | leaderElection msg data =>
    simp only [handleMsg] at honest ⊢
    split
    next inElection =>
      rw [if_pos inElection] at honest
      have electing := electing_of_reads inElection
      exact tells_handleLeaderElectionMsg timed electing running stationed env msg data hears honest
        closes answers
    next => exact stays

/-- Every call of a node that is told known views, closes only its own elections and answers late
messages with its own view or a stray one. -/
theorem tells_dispatch (timed : Timed node)
    (stationed : node.state = .postLele → Stationed leader node) (e : NodeEnv × NodeEvent)
    (enabled : machine.enabled node e) (hears : Hears leader known node e.2)
    (honest : Honest leader (node.dispatch e)) (closes : node.ClosesOwn e.2)
    (answers : node.AnswersOwn stray e.2) : Tells leader known stray node (node.dispatch e) := by
  obtain ⟨running, due⟩ := enabled
  obtain ⟨env, event⟩ := e
  cases event with
  | message msg => exact tells_handleMsg timed running stationed env msg hears honest closes answers
  | leaderPing =>
    have leads : Node.isLeader { node with evLeaderPing := .idle } = true := timed.leaderPing due
    have active : node.state ≠ .postLele := by
      rw [timed.leads leads]
      exact NodeState.noConfusion
    simp only [dispatch, leaderPingPeriod, if_pos leads]
    -- the ping tells the view of the node
    have pings : TellsOwn leader stray node node
        (-1, .pingReq node.nodeId node.comp.curView env.now) := by
      refine ⟨trivial, fun view tells => .inl ?_⟩
      exact (Option.some.inj tells).symm
    split
    next => exact ⟨.inl rfl, fun post => absurd post active, .one _ rfl pings⟩
    next => exact ⟨.inl rfl, fun post => absurd post active, .one _ rfl pings⟩
  | expectPing =>
    obtain ⟨follows, active⟩ := timed.expectPing due
    have waiting : node.state ≠ .postLele := by
      rw [active]
      exact NodeState.noConfusion
    simp only [dispatch, expectedLeaderPingPeriod, initializeExpectPing, initializeLeaderPing]
    split_ifs
    all_goals first
      | exact .stays rfl waiting rfl
      | exact .stays rfl NodeState.noConfusion rfl
  | makeProgress =>
    simp only [dispatch, makeProgressOn, initializeLeaderMakeProgress]
    split
    next leads =>
      have active : node.state ≠ .postLele := by
        rw [timed.leads leads]
        exact NodeState.noConfusion
      obtain ⟨-, view⟩ := timed.handle env.toEnv .makeProgress running (by simp)
      simp only [andThen]
      split_ifs
      all_goals exact .stays view active rfl
    next follows =>
      split_ifs
      all_goals exact ⟨.inl rfl, fun post => ⟨(stationed post).named, fun _ =>
        (stationed post).kept running⟩, .silent rfl⟩
  | electionTimeout =>
    have fired : Elects node (node.withMod { node.electionMod with slientPeriod := .idle }) :=
      elects_withMod node _ rfl
    have posts : Posts leader (node.withMod { node.electionMod with slientPeriod := .idle })
        (leaderElectionOnTimeout env
          (node.withMod { node.electionMod with slientPeriod := .idle })) :=
      posts_leaderElectionOnTimeout env _ running
        fun post => ⟨(stationed post).named, (stationed post).kept⟩
    have told : Unposted node (node.withMod { node.electionMod with slientPeriod := .idle }) :=
      ⟨rfl, rfl, rfl⟩
    exact .of_elects (fired.trans (elects_leaderElectionOnTimeout env _))
      (.after told (.silent rfl) posts) running stationed

end Calls

end Node

end LibeventPaxos
