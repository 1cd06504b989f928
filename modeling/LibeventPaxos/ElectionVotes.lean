import LibeventPaxos.NodeFrame
import LibeventPaxos.Lib.Ballots

/-!
One node in the election for one view: what its proposer and its learner count, and which votes,
promises and proposals its state and its messages stand for.
-/
namespace LibeventPaxos

open Lib

namespace LeleMod

/-! ## What the counts find -/

/-- An entry of the proposer's array that counts in the current round. -/
def Answered (n : ℕ) (mod : LeleMod) (k : NodeId) : Prop :=
  (mod.proposerArr k).pPnum = mod.origin n ∧ (mod.proposerArr k).aPnum ≠ -1

instance (n : ℕ) (mod : LeleMod) (k : NodeId) : Decidable (mod.Answered n k) :=
  inferInstanceAs (Decidable (_ ∧ _))

theorem prepareScan_count (n : ℕ) (mod : LeleMod) (nodes : List ℕ) (found : ℕ × Int × NodeId) :
    (nodes.foldl (mod.prepareStep n) found).1 =
      found.1 + (nodes.filter fun k : ℕ => decide (mod.Answered n k)).length := by
  induction nodes generalizing found with
  | nil => rfl
  | cons k nodes ih =>
    rw [List.foldl_cons, ih]
    obtain ⟨inc, pnum, content⟩ := found
    by_cases round : (mod.proposerArr k).pPnum = mod.origin n
    · by_cases answer : (mod.proposerArr k).aPnum = -1
      · have other : ¬ mod.Answered n k := fun answered => answered.2 answer
        simp only [prepareStep, if_pos round, answer, ne_eq, not_true_eq_false, if_false]
        rw [List.filter_cons_of_neg (by simpa using other)]
        split <;> rfl
      · have answered : mod.Answered n k := ⟨round, answer⟩
        simp only [prepareStep, if_pos round, ne_eq, answer, not_false_eq_true, if_true]
        rw [List.filter_cons_of_pos (by simpa using answered), List.length_cons]
        split <;> simp only <;> omega
    · have other : ¬ mod.Answered n k := fun answered => round answered.1
      simp only [prepareStep, if_neg round]
      rw [List.filter_cons_of_neg (by simpa using other)]

/-- An entry that has answered replaces what was found if its number is higher. -/
theorem prepareStep_snd (n : ℕ) (mod : LeleMod) (found : ℕ × Int × NodeId) (k : ℕ)
    (bounded : -1 ≤ found.2.1) : (mod.prepareStep n found k).2 =
      if mod.Answered n k ∧ found.2.1 < (mod.proposerArr k).aPnum then
        ((mod.proposerArr k).aPnum, (mod.proposerArr k).content)
      else found.2 := by
  obtain ⟨inc, pnum, content⟩ := found
  simp only at bounded
  by_cases round : (mod.proposerArr k).pPnum = mod.origin n
  · by_cases higher : pnum < (mod.proposerArr k).aPnum
    · have answered : mod.Answered n k := ⟨round, by omega⟩
      rw [if_pos ⟨answered, higher⟩]
      simp only [prepareStep, if_pos round, gt_iff_lt, if_pos higher]
    · rw [if_neg fun both => higher both.2]
      simp only [prepareStep, if_pos round, gt_iff_lt, if_neg higher]
  · rw [if_neg fun both => round both.1.1]
    simp only [prepareStep, if_neg round]

/-- Nobody reports a content. -/
theorem prepareScan_nothing (n : ℕ) (mod : LeleMod) (nodes : List ℕ)
    (nothing : ∀ k ∈ nodes, mod.Answered n k → (mod.proposerArr k).content = -1)
    (found : ℕ × Int × NodeId) (bounded : -1 ≤ found.2.1) (before : found.2.2 = -1) :
    (nodes.foldl (mod.prepareStep n) found).2.2 = -1 := by
  induction nodes generalizing found with
  | nil => exact before
  | cons k nodes ih =>
    have step := prepareStep_snd n mod found k bounded
    rw [List.foldl_cons]
    refine ih (fun k' member => nothing k' (List.mem_cons_of_mem k member)) _ ?_ ?_
    · rw [step]
      split
      next higher => exact bounded.trans higher.2.le
      next => exact bounded
    · rw [step]
      split
      next higher => exact nothing k List.mem_cons_self higher.1
      next => exact before

/-- The content of an entry with the highest number of all that have answered is found. -/
theorem prepareScan_own (n own : ℕ) (mod : LeleMod) (answered : mod.Answered n own)
    (nodes : List ℕ) (others : ∀ k ∈ nodes, k ≠ own → mod.Answered n k →
      (mod.proposerArr k).aPnum < (mod.proposerArr own).aPnum)
    (found : ℕ × Int × NodeId) (bounded : -1 ≤ found.2.1)
    (before : (found.2.1 < (mod.proposerArr own).aPnum ∧ own ∈ nodes) ∨
      found.2 = ((mod.proposerArr own).aPnum, (mod.proposerArr own).content)) :
    (nodes.foldl (mod.prepareStep n) found).2.2 = (mod.proposerArr own).content := by
  induction nodes generalizing found with
  | nil =>
    rcases before with ⟨-, impossible⟩ | same
    · cases impossible
    · exact congrArg Prod.snd same
  | cons k nodes ih =>
    have step := prepareStep_snd n mod found k bounded
    have rest := fun k' member => others k' (List.mem_cons_of_mem k member)
    rw [List.foldl_cons]
    by_cases isOwn : k = own
    · subst isOwn
      -- from here on the number found is the proposer's own
      have next : (mod.prepareStep n found k).2 =
          ((mod.proposerArr k).aPnum, (mod.proposerArr k).content) := by
        rw [step]
        rcases before with ⟨low, -⟩ | same
        · rw [if_pos ⟨answered, by omega⟩]
        · rw [same, ite_self]
      refine ih rest _ ?_ (.inr next)
      rw [next]
      rcases before with ⟨low, -⟩ | same
      · exact bounded.trans low.le
      · exact bounded.trans (congrArg Prod.fst same).le
    · have lower := others k List.mem_cons_self isOwn
      rcases before with ⟨low, member⟩ | same
      · have member' : own ∈ nodes := by
          rcases List.mem_cons.mp member with isOwn' | later
          · exact absurd isOwn'.symm isOwn
          · exact later
        refine ih rest _ ?_ (.inl ⟨?_, member'⟩)
        · rw [step]
          split
          next higher => exact bounded.trans higher.2.le
          next => exact bounded
        · rw [step]
          split
          next higher => exact lower higher.1
          next => exact low
      · have kept : (mod.prepareStep n found k).2 = found.2 := by
          rw [step]
          refine if_neg fun higher => ?_
          have low := lower higher.1
          have high := higher.2
          rw [same] at high
          simp only at high
          omega
        refine ih rest _ ?_ (.inr (kept.trans same))
        rw [kept]
        exact bounded

theorem proposerCheckPrepare_majority (n : ℕ) (mod : LeleMod) (content : NodeId)
    (found : mod.proposerCheckPrepare n = some content) :
    Majority (Finset.univ.filter fun k : Fin n => mod.Answered n (k : ℕ)) := by
  have count := prepareScan_count n mod (List.range n) (0, -1, -1)
  simp only [proposerCheckPrepare] at found
  split at found
  next enough =>
    rw [count, Nat.zero_add, length_filter_range] at enough
    simpa [Majority] using enough
  next => cases found

/-- Without another node that reports a content, a proposer that has recorded its own acceptor
proposes the content of that record, unless another answer reports as high a number. -/
theorem proposerCheckPrepare_content (n own : ℕ) (mod : LeleMod) (inside : own < n)
    (content : NodeId) (found : mod.proposerCheckPrepare n = some content)
    (others : ∀ k : ℕ, k < n → k ≠ own → mod.Answered n k → (mod.proposerArr k).content = -1)
    (c : NodeId) (mine : mod.Answered n own → (mod.proposerArr own).content = c ∧
      (c ≠ -1 → -1 < (mod.proposerArr own).aPnum ∧ ∀ k : ℕ, k < n → k ≠ own →
        mod.Answered n k → (mod.proposerArr k).aPnum < (mod.proposerArr own).aPnum))
    (silent : ¬ mod.Answered n own → c = -1) : content = c := by
  have result : content = ((List.range n).foldl (mod.prepareStep n) (0, -1, -1)).2.2 := by
    simp only [proposerCheckPrepare] at found
    split at found
    next => exact (Option.some.inj found).symm
    next => cases found
  rw [result]
  by_cases nothing : c = -1
  · rw [nothing]
    refine prepareScan_nothing n mod _ ?_ _ le_rfl rfl
    intro k member answered
    by_cases isOwn : k = own
    · subst isOwn
      exact (mine answered).1.trans nothing
    · exact others k (List.mem_range.mp member) isOwn answered
  · have answered : mod.Answered n own := by
      by_contra unanswered
      exact nothing (silent unanswered)
    obtain ⟨same, latest⟩ := mine answered
    obtain ⟨positive, latest⟩ := latest nothing
    rw [← same]
    refine prepareScan_own n own mod answered _ ?_ _ le_rfl (.inl ⟨positive, ?_⟩)
    · intro k member isOwn answered'
      exact latest k (List.mem_range.mp member) isOwn answered'
    · exact List.mem_range.mpr inside

/-- What a learner decides on is in one of its entries, and a majority of them has its number. -/
theorem learnerCheckAccept_majority (n : ℕ) (mod : LeleMod) (entry : AcceptedRecord)
    (found : mod.learnerCheckAccept n = some entry) :
    entry.pnum ≠ -1 ∧ (∃ k : Fin n, mod.learnerArr (k : ℕ) = entry) ∧
      Majority (Finset.univ.filter fun k : Fin n =>
        (mod.learnerArr (k : ℕ)).pnum = entry.pnum) := by
  have holds := List.find?_some found
  have member := List.mem_of_find?_eq_some found
  replace holds := of_decide_eq_true holds
  rw [learnerCount] at holds
  obtain ⟨k, inside, rfl⟩ := List.mem_map.mp member
  refine ⟨holds.1, ⟨⟨k, List.mem_range.mp inside⟩, rfl⟩, ?_⟩
  have enough := holds.2
  rw [length_filter_range] at enough
  simpa [Majority] using enough

end LeleMod

/-- What the nodes have done in the election for one view. -/
structure Net (n : ℕ) where
  vote : Fin n → Int → NodeId → Prop
  promised : Fin n → Int → Prop
  proposed : Int → NodeId → Prop

structure Net.Le {n : ℕ} (net net' : Net n) : Prop where
  vote : ∀ k b x, net.vote k b x → net'.vote k b x
  promised : ∀ k b, net.promised k b → net'.promised k b
  proposed : ∀ b x, net.proposed b x → net'.proposed b x

namespace Node

/-! ## What a node has said -/

/-- The node has sent the message, one of this type, in the election for view `w`. -/
def Said (w : UInt32) (node : Node) (type : LeleType) (msg : LeleMsg) : Prop :=
  msg.type = type ∧ msg.nextView = w ∧
    ∃ target data, (target, .leaderElection msg data) ∈ node.sent

/-- The proposal numbers of node `i`. -/
def Mine (n i : ℕ) (b : Int) : Prop := ∃ round : ℕ, b = i + n * round

theorem Mine.unique {n : ℕ} {i j : Fin n} {b : Int} (first : Mine n i b) (second : Mine n j b) :
    i = j := by
  obtain ⟨r, same⟩ := first
  obtain ⟨r', same'⟩ := second
  have left : b % n = ((i : ℕ) : Int) := by
    rw [same, Int.add_mul_emod_self_left]
    exact Int.emod_eq_of_lt (by omega) (by have := i.isLt; omega)
  have right : b % n = ((j : ℕ) : Int) := by
    rw [same', Int.add_mul_emod_self_left]
    exact Int.emod_eq_of_lt (by omega) (by have := j.isLt; omega)
  exact Fin.ext (by omega)

/-- A node votes as an acceptor, and as a proposer that enters its own proposal. -/
def Vote (w : UInt32) (node : Node) (b : Int) (x : NodeId) : Prop :=
  (w, b, x) ∈ node.accepted ∨ ∃ msg, Said w node .accept msg ∧ msg.pnum = b ∧ msg.content = x

/-- What node `i` would propose now. -/
def preferred (i : ℕ) (node : Node) : NodeId :=
  if node.electionMod.acceptor.content = -1 then i else node.electionMod.acceptor.content

/-- A proposal with number `b` agrees with what the node would propose now, unless the node has
accepted a later one. -/
def Current (i : ℕ) (node : Node) (b : Int) (x : NodeId) : Prop :=
  (node.electionMod.acceptor.content ≠ -1 ∧ b < node.electionMod.acceptor.acceptedPnum) ∨
    x = preferred i node

/-! ## What its messages stand for -/

structure Promise (w : UInt32) (i : ℕ) (node : Node) (msg : LeleMsg) : Prop where
  nodeId : msg.nodeId = i
  nothing : msg.content = -1
  positive : 0 < msg.pPnum
  seen : msg.pPnum ≤ node.electionMod.acceptor.highestSeenPnum
  before : ∀ b x, Vote w node b x → msg.pPnum ≤ b

structure Proposal {n : ℕ} (w : UInt32) (i : Fin n) (net : Net n) (node : Node)
    (msg : LeleMsg) : Prop where
  nodeId : msg.nodeId = (i : ℕ)
  mine : Mine n i msg.pnum
  positive : 0 < msg.pnum
  seen : msg.pnum ≤ node.electionMod.acceptor.highestSeenPnum
  content : msg.content ≠ -1
  current : Current i node msg.pnum msg.content
  last : ∀ b y, Vote w node b y → b < msg.pnum →
    ∃ b', b ≤ b' ∧ b' < msg.pnum ∧ Vote w node b' msg.content
  backed : ∃ backers : Finset (Fin n), Majority backers ∧
    ∀ k ∈ backers, k ≠ i → net.promised k msg.pnum

/-- A learner has found a majority for the number, and the content in one of its entries. -/
structure Decided {n : ℕ} (net : Net n) (b : Int) (x : NodeId) : Prop where
  majority : ∃ voters : Finset (Fin n), Majority voters ∧ ∀ k ∈ voters, ∃ y, net.vote k b y
  content : ∃ k, net.vote k b x

def MsgOk {n : ℕ} (w : UInt32) (i : Fin n) (net : Net n) (node : Node) (msg : LeleMsg) : Prop :=
  match msg.type with
  | .prepare => msg.content = -1 ∧ Mine n i msg.pnum
  | .prepareAck => Promise w i node msg
  | .accept => Proposal w i net node msg
  | .acceptAck => msg.nodeId = (i : ℕ) ∧ (w, msg.pnum, msg.content) ∈ node.accepted
  | .announce => Decided net msg.pnum msg.content
  | _ => True

/-- Node `i` in the election for view `w`, with what the others have done in `net`. -/
structure Electing {n : ℕ} (w : UInt32) (i : Fin n) (net : Net n) (node : Node) : Prop where
  nextView : node.electionMod.nextView = w
  nextPnum : Mine n i node.electionMod.nextPnum
  acceptor : 0 ≤ node.electionMod.acceptor.acceptedPnum ∧
    node.electionMod.acceptor.acceptedPnum ≤ node.electionMod.acceptor.highestSeenPnum
  round : node.electionMod.origin n ≤ node.electionMod.acceptor.highestSeenPnum
  accepts : ∀ b x, (w, b, x) ∈ node.accepted → 0 < b ∧
    b ≤ node.electionMod.acceptor.acceptedPnum ∧ ¬ Mine n i b ∧ net.proposed b x
  last : (node.electionMod.acceptor.content = -1 ∧ ∀ b x, (w, b, x) ∉ node.accepted) ∨
    (node.electionMod.acceptor.content ≠ -1 ∧ (w, node.electionMod.acceptor.acceptedPnum,
      node.electionMod.acceptor.content) ∈ node.accepted)
  fresh : ∀ b, Mine n i b → node.electionMod.nextPnum ≤ b →
    node.electionMod.acceptor.highestSeenPnum = b → node.electionMod.acceptor.content = -1
  said : ∀ type msg, Said w node type msg → MsgOk w i net node msg
  single : ∀ msg msg', Said w node .accept msg → Said w node .accept msg' →
    msg.pnum = msg'.pnum → msg.content = msg'.content
  learner : ∀ k : Fin n, (node.electionMod.learnerArr (k : ℕ)).pnum ≠ -1 →
    net.vote k (node.electionMod.learnerArr (k : ℕ)).pnum
      (node.electionMod.learnerArr (k : ℕ)).content
  ownLearner : (∃ msg, Said w node .accept msg) →
    (node.electionMod.learnerArr (i : ℕ)).pnum ≠ -1
  answers : ∀ k : Fin n, k ≠ i → (node.electionMod.proposerArr (k : ℕ)).aPnum ≠ -1 →
    (node.electionMod.proposerArr (k : ℕ)).content = -1 ∧
    (0 < (node.electionMod.proposerArr (k : ℕ)).pPnum ∧
      (node.electionMod.proposerArr (k : ℕ)).pPnum < node.electionMod.nextPnum) ∧
    net.promised k (node.electionMod.proposerArr (k : ℕ)).pPnum
  ownRound : (node.electionMod.proposerArr (i : ℕ)).aPnum ≠ -1 →
    0 < (node.electionMod.proposerArr (i : ℕ)).pPnum ∧
    (node.electionMod.proposerArr (i : ℕ)).pPnum < node.electionMod.nextPnum
  ownPromise : node.electionMod.acceptor.highestSeenPnum = node.electionMod.origin n →
    if node.electionMod.Answered n (i : ℕ) then
      (node.electionMod.proposerArr (i : ℕ)).aPnum = node.electionMod.acceptor.acceptedPnum ∧
      (node.electionMod.proposerArr (i : ℕ)).content = node.electionMod.acceptor.content
    else node.electionMod.acceptor.content = -1
  resent : ∀ msg, node.electionMod.announceAckMsg = some msg →
    ∃ vcMsg data, msg = .leaderElection vcMsg data ∧ vcMsg.type = .announceAck

section Electing

variable {n : ℕ} {w : UInt32} {i : Fin n} {net : Net n} {node : Node}

/-! ## What grows -/

/-- Between the two states the node casts votes at or above its highest number only, and a proposal
of its own stays current. -/
structure Grows (w : UInt32) (i : Fin n) (node node' : Node) : Prop where
  seen : node.electionMod.acceptor.highestSeenPnum ≤
    node'.electionMod.acceptor.highestSeenPnum
  accepted : node.accepted ⊆ node'.accepted
  votes : ∀ b x, Vote w node b x → Vote w node' b x
  casts : ∀ b x, Vote w node' b x →
    Vote w node b x ∨ node.electionMod.acceptor.highestSeenPnum ≤ b
  current : ∀ b x, Mine n i b → b ≤ node.electionMod.acceptor.highestSeenPnum →
    Current i node b x → Current i node' b x

theorem MsgOk.grows {node' : Node} {msg : LeleMsg} (ok : MsgOk w i net node msg)
    (grows : Grows w i node node') : MsgOk w i net node' msg := by
  rw [MsgOk] at ok ⊢
  cases type : msg.type with
  | prepareAck =>
    rw [type] at ok
    have promise : Promise w i node msg := ok
    exact { promise with
      seen := promise.seen.trans grows.seen
      before := by
        intro b x vote
        rcases grows.casts b x vote with old | above
        · exact promise.before b x old
        · exact promise.seen.trans above }
  | accept =>
    rw [type] at ok
    have proposal : Proposal w i net node msg := ok
    exact { proposal with
      seen := proposal.seen.trans grows.seen
      current := grows.current _ _ proposal.mine proposal.seen proposal.current
      last := by
        intro b y vote below
        rcases grows.casts b y vote with old | above
        · obtain ⟨b', after, before, again⟩ := proposal.last b y old below
          exact ⟨b', after, before, grows.votes b' _ again⟩
        · have seen := proposal.seen
          omega }
  | acceptAck =>
    rw [type] at ok
    exact ⟨ok.1, grows.accepted ok.2⟩
  | prepare => rw [type] at ok; exact ok
  | announce => rw [type] at ok; exact ok
  | announceAck => trivial
  | fin => trivial
  | lagged => trivial
  | higherNode => trivial

/-- Nothing is sent or accepted, and at most a higher number is seen. -/
theorem Grows.quiet {node' : Node} (sent : node'.sent = node.sent)
    (accepted : node'.accepted = node.accepted)
    (seen : node.electionMod.acceptor.highestSeenPnum ≤
      node'.electionMod.acceptor.highestSeenPnum)
    (acceptedPnum : node'.electionMod.acceptor.acceptedPnum =
      node.electionMod.acceptor.acceptedPnum)
    (content : node'.electionMod.acceptor.content = node.electionMod.acceptor.content) :
    Grows w i node node' := by
  have votes : ∀ b x, Vote w node' b x ↔ Vote w node b x := by
    intro b x
    simp only [Vote, Said, sent, accepted]
  exact {
    seen := seen
    accepted := by rw [accepted]; exact fun _ => id
    votes := fun b x => (votes b x).mpr
    casts := fun b x vote => .inl ((votes b x).mp vote)
    current := by
      intro b x _ _ current
      rwa [Current, preferred, acceptedPnum, content] }

theorem Decided.mono {net' : Net n} {b : Int} {x : NodeId} (decided : Decided net b x)
    (le : net.Le net') : Decided net' b x := by
  obtain ⟨⟨voters, majority, votes⟩, k, content⟩ := decided
  refine ⟨⟨voters, majority, fun k member => ?_⟩, k, le.vote k b x content⟩
  obtain ⟨y, vote⟩ := votes k member
  exact ⟨y, le.vote k b y vote⟩

theorem MsgOk.mono {net' : Net n} {msg : LeleMsg} (ok : MsgOk w i net node msg)
    (le : net.Le net') : MsgOk w i net' node msg := by
  rw [MsgOk] at ok ⊢
  cases type : msg.type with
  | accept =>
    rw [type] at ok
    have proposal : Proposal w i net node msg := ok
    obtain ⟨backers, majority, promised⟩ := proposal.backed
    exact { proposal with
      backed := ⟨backers, majority, fun k member other =>
        le.promised k _ (promised k member other)⟩ }
  | announce =>
    rw [type] at ok
    exact Decided.mono ok le
  | prepare => rw [type] at ok; exact ok
  | prepareAck => rw [type] at ok; exact ok
  | acceptAck => rw [type] at ok; exact ok
  | announceAck => trivial
  | fin => trivial
  | lagged => trivial
  | higherNode => trivial

theorem Electing.mono {net' : Net n} (electing : Electing w i net node) (le : net.Le net') :
    Electing w i net' node :=
  { electing with
    accepts := fun b x member => by
      obtain ⟨positive, below, other, proposed⟩ := electing.accepts b x member
      exact ⟨positive, below, other, le.proposed b x proposed⟩
    said := fun type msg said => (electing.said type msg said).mono le
    learner := fun k set => le.vote k _ _ (electing.learner k set)
    answers := fun k other answered => by
      obtain ⟨nothing, bounds, promised⟩ := electing.answers k other answered
      exact ⟨nothing, bounds, le.promised k _ promised⟩ }

/-! ## Sending -/

theorem said_append (node : Node) (target : Int) (vcMsg : LeleMsg) (data : List UInt32)
    (type : LeleType) (msg : LeleMsg) :
    Said w { node with sent := node.sent ++ [(target, .leaderElection vcMsg data)] } type msg ↔
      Said w node type msg ∨ (msg = vcMsg ∧ vcMsg.type = type ∧ vcMsg.nextView = w) := by
  constructor
  · rintro ⟨isType, view, target', data', member⟩
    rcases List.mem_append.mp member with old | new
    · exact .inl ⟨isType, view, target', data', old⟩
    · cases List.mem_singleton.mp new
      exact .inr ⟨rfl, isType, view⟩
  · rintro (⟨isType, view, target', data', member⟩ | ⟨rfl, isType, view⟩)
    · exact ⟨isType, view, target', data', List.mem_append_left _ member⟩
    · exact ⟨isType, view, target, data, List.mem_append_right _ (List.mem_singleton_self _)⟩

/-- A message that is no proposal is sent. -/
theorem Electing.send (electing : Electing w i net node) (target : Int) (vcMsg : LeleMsg)
    (data : List UInt32) (other : vcMsg.type ≠ .accept)
    (ok : vcMsg.nextView = w → MsgOk w i net node vcMsg) :
    Electing w i net
      { node with sent := node.sent ++ [(target, .leaderElection vcMsg data)] } := by
  have append := said_append (w := w) node target vcMsg data
  have proposals : ∀ msg, Said w { node with
      sent := node.sent ++ [(target, .leaderElection vcMsg data)] } .accept msg ↔
        Said w node .accept msg := by
    intro msg
    rw [append]
    refine or_iff_left ?_
    rintro ⟨-, type, -⟩
    exact other type
  have votes : ∀ b x, Vote w { node with
      sent := node.sent ++ [(target, .leaderElection vcMsg data)] } b x ↔ Vote w node b x := by
    intro b x
    simp only [Vote, proposals]
  have grows : Grows w i node { node with
      sent := node.sent ++ [(target, .leaderElection vcMsg data)] } :=
    ⟨le_rfl, fun _ => id, fun b x => (votes b x).mpr, fun b x vote => .inl ((votes b x).mp vote),
      fun _ _ _ _ => id⟩
  exact { electing with
    said := by
      intro type msg said
      rcases (append type msg).mp said with old | ⟨rfl, -, view⟩
      · exact (electing.said type msg old).grows grows
      · exact (ok view).grows grows
    single := fun msg msg' said said' =>
      electing.single msg msg' ((proposals msg).mp said) ((proposals msg').mp said')
    ownLearner := by
      rintro ⟨msg, said⟩
      exact electing.ownLearner ⟨msg, (proposals msg).mp said⟩ }

end Electing

end Node

end LibeventPaxos
