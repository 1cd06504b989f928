import LibeventPaxos.LearnerSoundness

/-!
What an acceptor reports of its past: the last proposal it has accepted for the view, or that it
has accepted none.
-/
namespace LibeventPaxos

open Lib

namespace Voting

variable {n : ℕ} {i : Fin n}

/-! ## What is to be reported -/

/-- What an acceptor that has accepted these proposals has to report for view `w`. -/
def Remembered (w : UInt32) (accepted : List Proposal) (pnum : Int) (content : NodeId) : Prop :=
  (pnum = 0 ∧ content = -1 ∧ ∀ b x, (w, b, x) ∉ accepted) ∨
    ((w, pnum, content) ∈ accepted ∧ ∀ b x, (w, b, x) ∈ accepted → b ≤ pnum)

/-- The record in which a proposer keeps its own promise. -/
def own (i : Fin n) (v : Voting) : ProposerRecord := v.mod.proposerArr ((i : ℕ) : Int)

/-- Whatever a node reports between the two states, in an answer or as its own proposer, is what
it has to report. -/
structure Reports (i : Fin n) (v v' : Voting) : Prop where
  acks : ∀ fresh, v'.said = v.said ++ fresh → ∀ msg ∈ fresh, msg.type = .prepareAck →
    Remembered msg.nextView v'.accepted msg.pnum msg.content
  own : v'.own i ≠ v.own i → (v'.own i).aPnum ≠ -1 →
    Remembered v'.mod.nextView v'.accepted (v'.own i).aPnum (v'.own i).content

/-- The acceptor has accepted nothing for the view, nor does it hold a number of another view. -/
def Blank (v : Voting) : Prop :=
  v.mod.acceptor.acceptedPnum = 0 ∧ ∀ proposal ∈ v.accepted, proposal.1 ≠ v.mod.nextView

instance (v : Voting) : Decidable v.Blank := inferInstanceAs (Decidable (_ ∧ _))

/-- The node has promised `b`, to a proposer or to itself. -/
def Promised (i : Fin n) (v : Voting) (b : Int) : Prop :=
  (∃ msg ∈ v.said, msg.type = .prepareAck ∧ msg.pPnum = b) ∨
    (v.begun = true ∧ (v.own i).aPnum ≠ -1 ∧ (v.own i).pPnum = b)

/-- What is known of an acceptor in every run. The content is overwritten with -1 when a number is
promised and when an election starts; otherwise it is that of the last acceptance. -/
structure Memory (i : Fin n) (v : Voting) : Prop where
  nodeId : ∀ msg ∈ v.said, msg.nodeId = (i : ℕ)
  prepares : ∀ msg ∈ v.said, msg.type = .prepare → msg.content = -1
  accepts : ∀ msg ∈ v.said, msg.type = .accept → msg.content ≠ -1
  bounds : 0 ≤ v.mod.acceptor.acceptedPnum ∧ 0 ≤ v.mod.acceptor.highestSeenPnum
  accepted : ∀ w b x, (w, b, x) ∈ v.accepted → x ≠ -1 ∧ b ≤ v.mod.acceptor.highestSeenPnum
  latest : v.begun = true → v.mod.acceptor.content ≠ -1 →
    (v.mod.nextView, v.mod.acceptor.acceptedPnum, v.mod.acceptor.content) ∈ v.accepted ∧
      ∀ b x, (v.mod.nextView, b, x) ∈ v.accepted → b ≤ v.mod.acceptor.acceptedPnum
  promised : ∀ b, Promised i v b → b ≤ v.mod.acceptor.highestSeenPnum

/-- What a message of another node is known to be. -/
structure Peer (i : Fin n) (msg : LeleMsg) : Prop where
  nodeId : msg.type.isVote = true → ∃ k : Fin n, k ≠ i ∧ msg.nodeId = ((k : ℕ) : Int)
  prepare : msg.type = .prepare → msg.content = -1
  accept : msg.type = .accept → msg.content ≠ -1

theorem Peer.other {msg : LeleMsg} (peer : Peer i msg) (isVote : msg.type.isVote = true) :
    ((i : ℕ) : Int) ≠ msg.nodeId := by
  obtain ⟨k, other, nodeId⟩ := peer.nodeId isVote
  rw [nodeId]
  exact fun same => other (Fin.ext (Int.ofNat_inj.mp same.symm))

/-! ## Steps -/

section Steps

variable {v v' : Voting}

theorem choice_ne (k : Fin n) (content : NodeId) : choice ((k : ℕ) : Int) content ≠ -1 := by
  simp only [choice]
  split
  next => exact Node.natCast_ne_none k
  next other => exact other

/-- A vote is sent. -/
theorem Memory.say {type : LeleType} {msg : LeleMsg} (memory : Memory i v)
    (vote : Vote (i : ℕ) v type msg) (prepare : type = .prepare → msg.content = -1)
    (accept : type = .accept → msg.content ≠ -1)
    (ack : type = .prepareAck → msg.pPnum ≤ v.mod.acceptor.highestSeenPnum) :
    Memory i (v.say msg) :=
  { memory with
    nodeId := by
      intro msg' member
      rcases mem_say member with old | rfl
      · exact memory.nodeId msg' old
      · exact vote.nodeId
    prepares := by
      intro msg' member isPrepare
      rcases mem_say member with old | rfl
      · exact memory.prepares msg' old isPrepare
      · exact prepare (vote.type.symm.trans isPrepare)
    accepts := by
      intro msg' member isAccept
      rcases mem_say member with old | rfl
      · exact memory.accepts msg' old isAccept
      · exact accept (vote.type.symm.trans isAccept)
    promised := by
      rintro b (⟨msg', member, isAck, rfl⟩ | own)
      · rcases mem_say member with old | rfl
        · exact memory.promised _ (.inl ⟨msg', old, isAck, rfl⟩)
        · exact ack (vote.type.symm.trans isAck)
      · exact memory.promised b (.inr own) }

/-- Entries of the learner play no part. -/
theorem Memory.learn (memory : Memory i v) (k : NodeId) (pnum : Int) (content : NodeId) :
    Memory i (v.learn k pnum content) := { memory with }

theorem Memory.promiseOwn (memory : Memory i v)
    (higher : v.mod.acceptor.highestSeenPnum < v.mod.origin n) :
    Memory i (v.promiseOwn n (i : ℕ)) :=
  { memory with
    bounds := ⟨memory.bounds.1, memory.bounds.2.trans higher.le⟩
    accepted := fun w b x member =>
      ⟨(memory.accepted w b x member).1, (memory.accepted w b x member).2.trans higher.le⟩
    promised := by
      rintro b (ack | ⟨-, -, rfl⟩)
      · exact (memory.promised b (.inl ack)).trans higher.le
      · simp only [own, Voting.promiseOwn, Function.update_self]
        exact le_rfl }

/-- Every atomic step keeps what is known of the acceptor. -/
theorem Memory.step {timeout : Prop} {heard : LeleMsg → Prop} {checks decides : Voting → Prop}
    (memory : Memory i v) (hears : ∀ msg, heard msg → Peer i msg)
    (step : Step n (i : ℕ) timeout heard checks decides v v') : Memory i v' := by
  cases step with
  | start nextView learnerArr proposerArr learner proposer =>
    -- a new election keeps the numbers of the acceptor and wipes its content
    have cleared := (proposer _ ⟨Int.natCast_nonneg _, Int.ofNat_lt.mpr i.isLt⟩).1
    refine { memory with latest := fun _ voted => absurd rfl voted, promised := ?_ }
    rintro b (ack | ⟨-, answered, -⟩)
    · exact memory.promised b (.inl ack)
    · exact absurd cleared answered
  | propose due msg vote pnum content =>
    have next : Memory i { v with mod := { v.mod with nextPnum := v.mod.nextPnum + n } } :=
      { memory with }
    exact next.say ⟨vote.type, vote.nodeId, vote.nextView⟩ (fun _ => content) (by simp) (by simp)
  | promiseOwn due higher => exact memory.promiseOwn higher
  | proposeAlone due begun higher content msg vote found pnum chosen =>
    have promised := (memory.promiseOwn higher).learn (i : ℕ) msg.pnum msg.content
    refine promised.say ⟨vote.type, vote.nodeId, vote.nextView⟩ (by simp) (fun _ => ?_) (by simp)
    rw [chosen]
    exact choice_ne i content
  | answer msg heard round inGroup =>
    -- the answer is entered for its sender, so the node's own promise stands
    have other := (hears msg heard.heard).other (by rw [heard.type]; rfl)
    refine { memory with promised := ?_ }
    simp only [Promised, own, Voting.answer, Function.update_of_ne other]
    exact memory.promised
  | phaseTwo begun content msg vote checked found pnum chosen =>
    refine (memory.learn (i : ℕ) msg.pnum msg.content).say
      ⟨vote.type, vote.nodeId, vote.nextView⟩ (by simp) (fun _ => ?_) (by simp)
    rw [chosen]
    exact choice_ne i content
  | promise msg ack heard higher vote pnum content pPnum =>
    -- a prepare carries -1, which is what the source writes over the content
    have wiped := (hears msg heard.heard).prepare heard.type
    have promised : Memory i (v.promise msg.pnum msg.content) :=
      { memory with
        bounds := ⟨memory.bounds.1, memory.bounds.2.trans higher.le⟩
        accepted := fun w b x member =>
          ⟨(memory.accepted w b x member).1, (memory.accepted w b x member).2.trans higher.le⟩
        latest := fun _ voted => absurd wiped voted
        promised := fun b old => (memory.promised b old).trans higher.le }
    exact promised.say ⟨vote.type, vote.nodeId, vote.nextView⟩ (by simp) (by simp)
      fun _ => pPnum.le
  | accept msg heard order =>
    -- what is accepted now has the highest number of all that was
    have content := (hears msg heard.heard).accept heard.type
    have members : ∀ w b x, (w, b, x) ∈ (v.accept msg.pnum msg.content).accepted →
        x ≠ -1 ∧ b ≤ msg.pnum := by
      intro w b x member
      rcases List.mem_append.mp member with old | new
      · exact ⟨(memory.accepted w b x old).1, (memory.accepted w b x old).2.trans order⟩
      · cases List.mem_singleton.mp new
        exact ⟨content, le_rfl⟩
    exact { memory with
      bounds := ⟨memory.bounds.2.trans order, memory.bounds.2.trans order⟩
      accepted := members
      latest := fun _ _ => ⟨List.mem_append_right _ (List.mem_singleton_self _),
        fun b x member => (members _ b x member).2⟩
      promised := fun b old => (memory.promised b old).trans order }
  | learn msg source inGroup newer => exact memory.learn _ _ _
  | announce begun entry msg vote decided found pnum content =>
    exact memory.say vote (by simp) (by simp) (by simp)
  | acknowledge msg vote accepted => exact memory.say vote (by simp) (by simp) (by simp)

/-! ## What is accepted later -/

/-- Whatever is accepted between the two states has a number not below those seen before. -/
structure Upward (v v' : Voting) : Prop where
  seen : v.mod.acceptor.highestSeenPnum ≤ v'.mod.acceptor.highestSeenPnum
  accepted : ∃ fresh, v'.accepted = v.accepted ++ fresh ∧
    ∀ proposal ∈ fresh, v.mod.acceptor.highestSeenPnum ≤ proposal.2.1

theorem Upward.same (seen : v.mod.acceptor.highestSeenPnum ≤ v'.mod.acceptor.highestSeenPnum)
    (accepted : v'.accepted = v.accepted) : Upward v v' :=
  ⟨seen, [], by rw [accepted, List.append_nil], fun _ member => by cases member⟩

theorem Upward.trans {v'' : Voting} (first : Upward v v') (second : Upward v' v'') :
    Upward v v'' := by
  obtain ⟨fresh, accepted, above⟩ := first.accepted
  obtain ⟨fresh', accepted', above'⟩ := second.accepted
  refine ⟨first.seen.trans second.seen, fresh ++ fresh', ?_, ?_⟩
  · rw [accepted', accepted, List.append_assoc]
  · intro proposal member
    rcases List.mem_append.mp member with old | new
    · exact above proposal old
    · exact first.seen.trans (above' proposal new)

theorem upward_step {timeout : Prop} {heard : LeleMsg → Prop} {checks decides : Voting → Prop}
    (step : Step n (i : ℕ) timeout heard checks decides v v') : Upward v v' := by
  cases step with
  | promiseOwn due higher => exact .same higher.le rfl
  | proposeAlone due begun higher => exact .same higher.le rfl
  | promise msg ack heard higher => exact .same higher.le rfl
  | accept msg heard order =>
    refine ⟨order, [(v.mod.nextView, msg.pnum, msg.content)], rfl, fun proposal member => ?_⟩
    rw [List.mem_singleton.mp member]
    exact order
  | _ => exact .same le_rfl rfl

/-! ## What is reported -/

/-- What the node has accepted is remembered as `(pnum, -1)` only if it has accepted nothing. -/
theorem remembered_none (memory : Memory i v) :
    Remembered v.mod.nextView v.accepted v.mod.acceptor.acceptedPnum (-1) ↔ v.Blank := by
  constructor
  · rintro (⟨zero, -, none⟩ | ⟨member, -⟩)
    · exact ⟨zero, fun proposal member same => none proposal.2.1 proposal.2.2 (same ▸ member)⟩
    · exact absurd rfl (memory.accepted _ _ _ member).1
  · rintro ⟨zero, none⟩
    exact .inl ⟨zero, rfl, fun b x member => none _ member rfl⟩

/-- An answer with the number accepted and the content of a PREPARE. -/
theorem reports_promise {msg ack : LeleMsg} (memory : Memory i v)
    (vote : Vote (i : ℕ) v .prepareAck ack) (pnum : ack.pnum = v.mod.acceptor.acceptedPnum)
    (content : ack.content = -1) :
    Reports i v ((v.promise msg.pnum msg.content).say ack) ↔ v.Blank := by
  rw [← remembered_none memory]
  constructor
  · intro reports
    have reported := reports.acks [ack] rfl ack (List.mem_singleton_self _) vote.type
    rw [vote.nextView, pnum, content] at reported
    exact reported
  · intro remembered
    refine ⟨fun fresh said msg member isAck => ?_, fun changed => absurd rfl changed⟩
    rw [← List.append_cancel_left said, List.mem_singleton] at member
    rw [member, vote.nextView, pnum, content]
    exact remembered

/-- Nothing is reported between the two states. -/
structure Quiet (i : Fin n) (v v' : Voting) : Prop where
  said : ∃ fresh, v'.said = v.said ++ fresh ∧ ∀ msg ∈ fresh, msg.type ≠ .prepareAck
  own : v'.own i = v.own i ∨ (v'.own i).aPnum = -1

theorem Quiet.refl (v : Voting) : Quiet i v v :=
  ⟨⟨[], (List.append_nil _).symm, fun _ member => by cases member⟩, .inl rfl⟩

theorem Quiet.reports (quiet : Quiet i v v') : Reports i v v' := by
  obtain ⟨fresh, said, noAck⟩ := quiet.said
  constructor
  · intro fresh' said' msg member isAck
    rw [List.append_cancel_left (said'.symm.trans said)] at member
    exact absurd isAck (noAck msg member)
  · intro changed answered
    rcases quiet.own with same | cleared
    · exact absurd same changed
    · exact absurd cleared answered

theorem Quiet.say {msg : LeleMsg} (quiet : Quiet i v v') (other : msg.type ≠ .prepareAck) :
    Quiet i v (v'.say msg) := by
  obtain ⟨fresh, said, noAck⟩ := quiet.said
  refine ⟨⟨fresh ++ [msg], ?_, fun msg' member => ?_⟩, quiet.own⟩
  · simp only [Voting.say, said, List.append_assoc]
  · rcases List.mem_append.mp member with old | new
    · exact noAck msg' old
    · rw [List.mem_singleton.mp new]
      exact other

/-- Without a PREPARE and without a round of its own a node reports nothing. -/
theorem Quiet.step {v₀ : Voting} {heard : LeleMsg → Prop} {checks decides : Voting → Prop}
    (quiet : Quiet i v₀ v) (hears : ∀ msg, heard msg → msg.type ≠ .prepare ∧ Peer i msg)
    (step : Step n (i : ℕ) False heard checks decides v v') : Quiet i v₀ v' := by
  cases step with
  | start nextView learnerArr proposerArr learner proposer =>
    exact ⟨quiet.said, .inr (proposer _ ⟨Int.natCast_nonneg _, Int.ofNat_lt.mpr i.isLt⟩).1⟩
  | propose due => exact due.elim
  | promiseOwn due => exact due.elim
  | proposeAlone due => exact due.elim
  | answer msg heard round inGroup =>
    have other := (hears msg heard.heard).2.other (by rw [heard.type]; rfl)
    refine ⟨quiet.said, ?_⟩
    simp only [Voting.own, Voting.answer, Function.update_of_ne other]
    exact quiet.own
  | phaseTwo begun content msg vote => exact Quiet.say ⟨quiet.said, quiet.own⟩ (by simp [vote.type])
  | promise msg ack heard => exact absurd heard.type (hears msg heard.heard).1
  | accept => exact ⟨quiet.said, quiet.own⟩
  | learn => exact ⟨quiet.said, quiet.own⟩
  | announce begun entry msg vote => exact quiet.say (by simp [vote.type])
  | acknowledge msg vote => exact quiet.say (by simp [vote.type])

/-- A round records what the proposer has itself accepted, if it is above all the node has seen. -/
theorem reports_round {msg : LeleMsg} (memory : Memory i v) (begun : v.begun = true)
    (proposes : Node.Proposes n (i : ℕ) v msg v') :
    Reports i v v' ↔ (v.mod.acceptor.highestSeenPnum < v.mod.nextPnum →
      v.mod.acceptor.content = -1 → v.Blank) := by
  have quiet : Quiet i v (Node.begunRound n v msg) :=
    Quiet.say (i := i) ⟨(Quiet.refl v : Quiet i v v).said, .inl rfl⟩ (by simp [proposes.vote.type])
  by_cases higher : v.mod.acceptor.highestSeenPnum < v.mod.nextPnum
  swap
  · rw [proposes.lower higher]
    exact ⟨fun _ above => absurd above higher, fun _ => quiet.reports⟩
  -- the record of the round replaces that of an earlier one
  have entered : (∃ fresh, v'.said = v.said ++ fresh ∧ ∀ msg ∈ fresh, msg.type ≠ .prepareAck) ∧
      v'.accepted = v.accepted ∧ v'.mod.nextView = v.mod.nextView ∧
      v'.own i = ⟨v.mod.nextPnum, v.mod.acceptor.acceptedPnum, v.mod.acceptor.content⟩ := by
    have record : ((Node.begunRound n v msg).promiseOwn n (i : ℕ)).own i =
        ⟨v.mod.nextPnum, v.mod.acceptor.acceptedPnum, v.mod.acceptor.content⟩ := by
      simp only [Voting.own, Voting.promiseOwn, Function.update_self, Node.begunRound_origin]
      rfl
    rcases proposes.higher higher with rfl | ⟨content, accept, vote, -, -, -, rfl⟩
    · exact ⟨quiet.said, rfl, rfl, record⟩
    · have said : Quiet i v ((Node.begunRound n v msg).say accept) :=
        quiet.say (by simp [vote.type])
      exact ⟨said.said, rfl, rfl, record⟩
  obtain ⟨⟨fresh, said, noAck⟩, accepted, view, record⟩ := entered
  have changed : v'.own i ≠ v.own i := by
    intro same
    rw [record] at same
    have answered : (v.own i).aPnum ≠ -1 := by
      rw [← same]
      have := memory.bounds.1
      show v.mod.acceptor.acceptedPnum ≠ -1
      omega
    have old := memory.promised _ (.inr ⟨begun, answered, rfl⟩)
    rw [← same] at old
    exact absurd higher old.not_gt
  have answered : (v'.own i).aPnum ≠ -1 := by
    have := memory.bounds.1
    rw [record]
    show v.mod.acceptor.acceptedPnum ≠ -1
    omega
  have reports_iff : Reports i v v' ↔ Remembered v.mod.nextView v.accepted
      v.mod.acceptor.acceptedPnum v.mod.acceptor.content := by
    constructor
    · intro reports
      have reported := reports.own changed answered
      rwa [record, view, accepted] at reported
    · intro remembered
      refine ⟨fun fresh' said' msg member isAck => ?_, fun _ _ => ?_⟩
      · rw [List.append_cancel_left (said'.symm.trans said)] at member
        exact absurd isAck (noAck msg member)
      · rw [record, view, accepted]
        exact remembered
  rw [reports_iff]
  by_cases forgotten : v.mod.acceptor.content = -1
  · rw [forgotten, remembered_none memory]
    exact ⟨fun blank _ _ => blank, fun blank => blank higher rfl⟩
  · exact ⟨fun _ _ none => absurd none forgotten, fun _ => .inr (memory.latest begun forgotten)⟩

end Steps

end Voting

/-! ## Calls -/

namespace Node

open Voting

variable {n : ℕ} {i : Fin n} {node : Node}

/-- The node takes a PREPARE above all it has seen, or opens a round above it without the content
it has accepted, only while it has nothing to remember. -/
def memoryKept (node : Node) : NodeEvent → Prop
  | .message (.leaderElection msg _) => node.Handles msg → msg.type = .prepare →
    node.electionMod.acceptor.highestSeenPnum < msg.pnum → node.voting.Blank
  | .electionTimeout => node.state = .inLele →
    node.electionMod.acceptor.highestSeenPnum < node.electionMod.nextPnum →
    node.electionMod.acceptor.content = -1 → node.voting.Blank
  | _ => True

instance (node : Node) : ∀ event, Decidable (node.memoryKept event)
  | .message (.leaderElection _ _) => inferInstanceAs (Decidable (_ → _ → _ → _))
  | .electionTimeout => inferInstanceAs (Decidable (_ → _ → _ → _))
  | .message (.pingReq _ _ _) => .isTrue trivial
  | .message (.pingAck _ _ _) => .isTrue trivial
  | .message (.consensus _) => .isTrue trivial
  | .message (.requestSubmit _) => .isTrue trivial
  | .leaderPing => .isTrue trivial
  | .expectPing => .isTrue trivial
  | .makeProgress => .isTrue trivial

/-- An event that is no PREPARE and no timeout reports nothing. -/
private theorem quiet_dispatch (member : Member n (i : ℕ) node) (e : NodeEnv × NodeEvent)
    (noTimeout : e.2 ≠ .electionTimeout)
    (hears : ∀ msg data, e.2 = .message (.leaderElection msg data) → node.Handles msg →
      msg.type ≠ .prepare ∧ Peer i msg) : Quiet i node.voting (node.dispatch e).voting := by
  have steps : Steps n (i : ℕ) False (fun msg => msg.type ≠ .prepare ∧ Peer i msg)
      (fun _ => True) (fun _ => True) node.voting (node.dispatch e).voting :=
    steps_dispatch member.timed member.tidy e member.groupSize member.nodeId noTimeout hears
      (fun _ _ => trivial) (fun _ _ => trivial)
  exact steps.invariant (fun _ _ quiet step => quiet.step (fun _ heard => heard) step) (.refl _)

/-- A node reports what it has to report if and only if nothing is forgotten. -/
theorem reports_iff (member : Member n (i : ℕ) node) (memory : Memory i node.voting)
    (e : NodeEnv × NodeEvent)
    (hears : ∀ msg data, e.2 = .message (.leaderElection msg data) → Peer i msg) :
    Reports i node.voting (node.dispatch e).voting ↔ node.memoryKept e.2 := by
  obtain ⟨env, event⟩ := e
  have quiet := quiet_dispatch member (env, event)
  cases event with
  | message msg =>
    cases msg with
    | leaderElection msg data =>
      -- only a prepare that is handled and has a higher number can lose what was accepted
      by_cases handles : node.Handles msg
      swap
      · rw [voting_ignored env msg data handles]
        exact ⟨fun _ taken => absurd taken handles, fun _ => (Quiet.refl _).reports⟩
      by_cases type : msg.type = .prepare
      swap
      · have silent := quiet NodeEvent.noConfusion fun msg' data' same _ => by
          cases same
          exact ⟨type, hears msg data rfl⟩
        exact ⟨fun _ _ isPrepare => absurd isPrepare type, fun _ => silent.reports⟩
      rw [dispatch_handled env msg data handles]
      simp only [leaderElectionDo, type]
      rcases voting_handlePrepare env msg member.nodeId with
        ⟨lower, same⟩ | ⟨higher, ack, vote, pnum, content, pPnum, result⟩
      · rw [same]
        exact ⟨fun _ _ _ higher => absurd higher lower, fun _ => (Quiet.refl _).reports⟩
      · have wiped := (hears msg data rfl).prepare type
        rw [result, reports_promise memory vote pnum (content.trans wiped)]
        exact ⟨fun blank _ _ _ => blank, fun blank => blank handles type higher⟩
    | _ => exact ⟨fun _ => trivial, fun _ => (quiet NodeEvent.noConfusion (by simp)).reports⟩
  | electionTimeout =>
    by_cases inElection : node.state = .inLele
    · have begun : node.modAllocated = true := by
        refine member.tidy.allocated ?_
        rw [inElection]
        exact NodeState.noConfusion
      obtain ⟨msg, proposes⟩ := proposes_electionTimeout env member.tidy member.groupSize
        member.nodeId inElection
      rw [reports_round memory begun proposes]
      exact ⟨fun blank _ => blank, fun blank => blank inElection⟩
    · rw [voting_electionTimeout env member.tidy, if_neg inElection]
      exact ⟨fun _ taken => absurd taken inElection, fun _ => (Quiet.refl _).reports⟩
  | _ => exact ⟨fun _ => trivial, fun _ => (quiet NodeEvent.noConfusion (by simp)).reports⟩

end Node

/-! ## Runs -/

namespace Cluster

open Node Voting

variable {n : ℕ}

theorem peer_of_hear {g : Cluster n} {i : Fin n} {msg : LeleMsg}
    (memory : ∀ k, Memory k (g k).voting) (heard : Hear g i msg) : Peer i msg where
  nodeId isVote := by
    obtain ⟨k, other, said⟩ := heard isVote
    exact ⟨k, other, (memory k).nodeId msg said⟩
  prepare type := by
    obtain ⟨k, -, said⟩ := heard (by rw [type]; rfl)
    exact (memory k).prepares msg said type
  accept type := by
    obtain ⟨k, -, said⟩ := heard (by rw [type]; rfl)
    exact (memory k).accepts msg said type

theorem memory_of_reaches {guard : Cluster n → ClusterEvent n → Prop} (g : Cluster n)
    (reached : (machine Booted).Reaches guard g) (i : Fin n) : Memory i (g i).voting := by
  revert i
  apply reached.invariant_using
  · intro g booted i
    obtain ⟨seed, expectPingTimeval, now, env, same⟩ := booted i
    rw [same]
    exact {
      nodeId := fun msg member => by cases member
      prepares := fun msg member => by cases member
      accepts := fun msg member => by cases member
      bounds := ⟨le_rfl, le_rfl⟩
      accepted := fun w b x member => by cases member
      latest := fun begun => by cases begun
      promised := by
        rintro b (⟨msg, member, -⟩ | ⟨begun, -⟩)
        · cases member
        · cases begun }
  · intro g e reached memory _ enabled i
    by_cases actor : i = e.1
    · subst actor
      have steps := steps_act_any (member_of_reaches g reached e.1) enabled
      exact steps.invariant
        (fun v v' known step => known.step (fun _ heard => peer_of_hear memory heard) step)
        (memory e.1)
    · show Memory i (act g e i).voting
      rw [act_other g e i actor]
      exact memory i

theorem upward_of_run {guard : Cluster n → ClusterEvent n → Prop} {g g' : Cluster n}
    (reached : (machine Booted).Reaches guard g) (run : (machine Booted).Run guard g g')
    (i : Fin n) : Upward (g i).voting (g' i).voting := by
  induction run with
  | refl => exact .same le_rfl rfl
  | @step t e before allowed enabled ih =>
    refine ih.trans ?_
    by_cases actor : i = e.1
    · subst actor
      have steps := steps_act_any (member_of_reaches t (reached.extend before) e.1) enabled
      exact steps.invariant (I := Upward (t e.1).voting)
        (fun v v' known step => known.trans (upward_step step)) (.same le_rfl rfl)
    · show Upward (t i).voting (act t e i).voting
      rw [act_other t e i actor]
      exact .same le_rfl rfl

/-- Whatever a node accepts later on has a number not below any it has promised. -/
def AboveItsPromises (g g' : Cluster n) : Prop :=
  ∀ i b, Promised i (g i).voting b → ∃ fresh, (g' i).accepted = (g i).accepted ++ fresh ∧
    ∀ proposal ∈ fresh, b ≤ proposal.2.1

/-- In every run: the acting node reports what it has to report if and only if nothing is
forgotten, and no node ever accepts below its promises. -/
theorem acceptor_memory (n : ℕ) (g : Cluster n)
    (reached : (machine Booted).Reaches Machine.anything g) :
    (∀ e, (machine Booted).enabled g e →
      (Reports e.1 (g e.1).voting (act g e e.1).voting ↔ (g e.1).memoryKept e.2.2)) ∧
    ∀ g', (machine Booted).Run Machine.anything g g' → AboveItsPromises g g' := by
  have memory := memory_of_reaches g reached
  constructor
  · intro e enabled
    rw [act_self]
    refine reports_iff (member_of_reaches g reached e.1) (memory e.1) e.2 fun msg data isMsg => ?_
    have sent := enabled.2
    rw [isMsg] at sent
    exact peer_of_hear memory (hear_of_sent sent)
  · intro g' run i b promised
    obtain ⟨-, fresh, accepted, above⟩ := upward_of_run reached run i
    exact ⟨fresh, accepted, fun proposal member =>
      ((memory i).promised b promised).trans (above proposal member)⟩

/-- The first answer of node 2 in the election for view 2: it has accepted nothing. -/
theorem first_answer :
    let g := (joins ++ firstRound.take 3).foldl act booted
    let e := election 2 1 .prepare 1 (-1) (-1)
    Reports (2 : Fin 3) (g 2).voting (act g e 2).voting := by
  have memory := acceptor_memory 3 _ (booted_reaches Machine.anything (joins ++ firstRound.take 3)
    (by decide))
  exact (memory.1 (election 2 1 .prepare 1 (-1) (-1)) (by decide)).mpr (by decide)

/-- Node 2 accepts node 1 with number 1 and gives up the content when it answers number 4. -/
theorem content_forgotten :
    ¬ ∀ (n : ℕ) (g : Cluster n), (machine Booted).Reaches Machine.anything g →
      ∀ e, (machine Booted).enabled g e →
        Reports e.1 (g e.1).voting (act g e e.1).voting := by
  intro claim
  have reached := booted_reaches Machine.anything
    (joins ++ firstRound ++ [(1, lateEnv, .electionTimeout)]) (by decide)
  have reports := claim 3 _ reached (election 2 1 .prepare 4 (-1) (-1)) (by decide)
  have reported := reports.acks [⟨.prepareAck, 2, 2, 1, 4, -1, 0, 0⟩] (by decide) _
    (List.mem_singleton_self _) rfl
  rcases reported with ⟨zero, -⟩ | ⟨member, -⟩
  · exact absurd zero (by decide)
  · revert member
    decide

end Cluster

end LibeventPaxos
