import LibeventPaxos.ConsensusFrame
import LibeventPaxos.Lib.BitVotes

/-!
The normal case at one node: what the leader of view 1 and a follower of it store, send and
deliver in one step when there is no election.
-/
namespace LibeventPaxos

open Lib

/-! ## Bits of the nodes -/

/-- For a node id below 31 the shift sets its own bit and nothing else; id 31 would set the sign
bit and with it the upper half of the map. -/
theorem getLsbD_nodeBit (i b : ℕ) (small : i < 31) :
    (Comp.nodeBit i).toBitVec.getLsbD b = decide (b = i) := by
  have shift : ((i : ℤ) % 32).toNat = i := by omega
  rw [Bool.eq_iff_iff]
  simp only [Comp.nodeBit, shift, BitVec.getLsbD_signExtend, BitVec.msb_eq_getLsbD_last,
    BitVec.getLsbD_shiftLeft, BitVec.getLsbD_one]
  by_cases low : b < 32
  · simp only [low, if_true, Bool.and_eq_true, decide_eq_true_eq, Bool.not_eq_true',
      decide_eq_false_iff_not, true_and]
    omega
  · simp only [low, if_false, Bool.and_eq_true, decide_eq_true_eq, Bool.not_eq_true',
      decide_eq_false_iff_not]
    omega

theorem getLsbD_updateRecord (record : RequestRecord) (i b : ℕ) (small : i < 31) :
    (Comp.updateRecord record i).bitMap.toBitVec.getLsbD b =
      (record.bitMap.toBitVec.getLsbD b || decide (b = i)) := by
  rw [← getLsbD_nodeBit i b small]
  simp [Comp.updateRecord]

namespace Comp

/-! ## What one step of one node may do -/

/-- Requests of view 1 numbered up to `last`. -/
def Within (last : ℕ) (vs : ViewStamp) : Prop :=
  vs.viewId = 1 ∧ 1 ≤ vs.reqId.toNat ∧ vs.reqId.toNat ≤ last

theorem Within.mono {last later : ℕ} {vs : ViewStamp} (within : Within last vs)
    (le : last ≤ later) : Within later vs :=
  ⟨within.1, within.2.1, within.2.2.trans le⟩

theorem Within.request {last : ℕ} {vs : ViewStamp} (within : Within last vs) : IsRequest vs := by
  refine ⟨?_, ?_⟩
  · rw [within.1]
    decide
  · intro zero
    have positive := within.2.1
    rw [zero, UInt32.toNat_zero] at positive
    omega

/-- Only requests that the leader has numbered are stored. -/
def OnlyRequests (last : ℕ) (c : Comp) : Prop :=
  ∀ vs value, c.stored vs = some value → Within last vs ∧ ∃ record, value = .request record

/-- What node `i` may have sent while the leader has numbered `last` requests and committed
`point` of them, and node `i` holds the records `holds`. -/
def CallOk (leader : ℕ) (last point : ℕ) (holds : ViewStamp → Prop) (i : ℕ)
    (call : Int × ConsensusMsg) : Prop :=
  match call.2 with
  | .acceptReq msgVs reqCanbeExed nodeId _ => i = leader ∧ nodeId = leader ∧ Within last msgVs ∧
      reqCanbeExed.viewId = 1 ∧ reqCanbeExed.reqId.toNat ≤ point
  | .acceptAck msgVs nodeId => nodeId = i ∧ Within last msgVs ∧ holds msgVs
  | .missingAck _ missingVs _ => Within last missingVs
  | .forceExec nodeId highestCommittedOp => i = leader ∧ nodeId = leader ∧
      highestCommittedOp.viewId = 1 ∧ highestCommittedOp.reqId.toNat ≤ point
  | _ => True

theorem CallOk.mono {leader last last' point point' i : ℕ} {holds holds' : ViewStamp → Prop}
    {call : Int × ConsensusMsg} (ok : CallOk leader last point holds i call) (lasts : last ≤ last')
    (points : point ≤ point') (kept : ∀ vs, holds vs → holds' vs) :
    CallOk leader last' point' holds' i call := by
  obtain ⟨target, msg⟩ := call
  cases msg with
  | acceptReq msgVs reqCanbeExed nodeId record =>
    obtain ⟨own, same, within, view, reached⟩ := ok
    exact ⟨own, same, within.mono lasts, view, reached.trans points⟩
  | acceptAck msgVs nodeId =>
    obtain ⟨own, within, there⟩ := ok
    exact ⟨own, within.mono lasts, kept _ there⟩
  | missingAck nodeId missingVs record => exact Within.mono ok lasts
  | forceExec nodeId highestCommittedOp =>
    obtain ⟨own, same, view, reached⟩ := ok
    exact ⟨own, same, view, reached.trans points⟩
  | missingReq nodeId missingVs => trivial
  | forwardReq nodeId data => trivial

/-- A step of node `i` delivers stored requests up to the commit point, sends what it may send and
forgets no record. -/
structure Outcome (leader last point i : ℕ) (c c' : Comp) : Prop where
  delivers : ∃ fresh, c'.delivered = c.delivered ++ fresh ∧ ∀ d ∈ fresh, Within point d.vs ∧
    d.data = c'.payloadAt d.vs ∧ c'.stored d.vs ≠ none
  sends : ∃ fresh, c'.upCalls = c.upCalls ++ fresh ∧
    ∀ call ∈ fresh, CallOk leader last point (fun vs => c'.stored vs ≠ none) i call
  keeps : ∀ vs, c.stored vs ≠ none → c'.stored vs ≠ none

theorem Outcome.refl (leader last point i : ℕ) (c : Comp) : Outcome leader last point i c c :=
  ⟨⟨[], (List.append_nil _).symm, by simp⟩, ⟨[], (List.append_nil _).symm, by simp⟩, fun _ => id⟩

/-- Execution after a change that delivers nothing: the database is that of the change. -/
theorem Outcome.execute {leader last point i : ℕ} {c before c' : Comp}
    (change : Outcome leader last point i c before) (silent : before.delivered = c.delivered)
    (executes : Outcome leader last point i before c') (same : c'.db = before.db) :
    Outcome leader last point i c c' := by
  have stored : ∀ vs, c'.stored vs = before.stored vs := fun vs => by
    rw [Comp.stored, Comp.stored, same]
  obtain ⟨fresh, delivered, stand⟩ := executes.delivers
  obtain ⟨sent, calls, ok⟩ := change.sends
  obtain ⟨sent', calls', ok'⟩ := executes.sends
  refine ⟨⟨fresh, by rw [delivered, silent], stand⟩, ⟨sent ++ sent', ?_, ?_⟩, ?_⟩
  · rw [calls', calls, List.append_assoc]
  · intro call member
    rcases List.mem_append.mp member with first | second
    · exact (ok call first).mono le_rfl le_rfl fun vs there => by rwa [stored vs]
    · exact ok' call second
  · intro vs there
    rw [stored vs]
    exact change.keeps vs there

theorem onlyMissingReqs_ok {leader last point i : ℕ} {holds : ViewStamp → Prop} (c : Comp)
    (missing : List (Int × ConsensusMsg)) (only : c.OnlyMissingReqs missing) :
    ∀ call ∈ missing, CallOk leader last point holds i call := by
  intro call member
  obtain ⟨vs, rfl⟩ := only call member
  trivial

/-- A change that delivers nothing and sends one message or none. -/
theorem Outcome.change {leader last point i : ℕ} {c : Comp} {c' : Comp}
    (silent : c'.delivered = c.delivered) (sent : List (Int × ConsensusMsg))
    (calls : c'.upCalls = c.upCalls ++ sent)
    (ok : ∀ call ∈ sent, CallOk leader last point (fun vs => c'.stored vs ≠ none) i call)
    (keeps : ∀ vs, c.stored vs ≠ none → c'.stored vs ≠ none) :
    Outcome leader last point i c c' :=
  ⟨⟨[], by rw [silent, List.append_nil], by simp⟩, ⟨sent, calls, ok⟩, keeps⟩

theorem Outcome.silent {leader last point i : ℕ} {c : Comp} {c' : Comp}
    (delivered : c'.delivered = c.delivered) (calls : c'.upCalls = c.upCalls)
    (keeps : ∀ vs, c.stored vs ≠ none → c'.stored vs ≠ none) :
    Outcome leader last point i c c' :=
  .change delivered [] (by rw [calls, List.append_nil]) (by simp) keeps

theorem stored_store_keeps (c : Comp) (vs : ViewStamp) (value : DbValue) (other : ViewStamp)
    (there : c.stored other ≠ none) :
    ({ c with db := c.db.storeRecord (vstol vs) value } : Comp).stored other ≠ none := by
  rw [stored_storeRecord]
  split
  next same => exact Option.some_ne_none value
  next different => exact there

theorem OnlyRequests.store {last : ℕ} {c : Comp} (only : OnlyRequests last c) (vs : ViewStamp)
    (record : RequestRecord) (within : Within last vs) :
    OnlyRequests last { c with db := c.db.storeRecord (vstol vs) (.request record) } := by
  intro other value found
  rw [stored_storeRecord] at found
  split at found
  next same =>
    subst same
    exact ⟨within, record, (Option.some.inj found).symm⟩
  next different => exact only other value found

theorem OnlyRequests.mono {last later : ℕ} {c : Comp} (only : OnlyRequests last c)
    (le : last ≤ later) : OnlyRequests later c := by
  intro vs value found
  obtain ⟨within, request⟩ := only vs value found
  exact ⟨within.mono le, request⟩

theorem OnlyRequests.boundary {last : ℕ} {c : Comp} (only : OnlyRequests last c) (w : UInt32) :
    c.stored ⟨w, 0⟩ = none := by
  by_contra there
  obtain ⟨value, found⟩ := Option.ne_none_iff_exists'.mp there
  have positive := (only _ _ found).1.2.1
  simp only [UInt32.toNat_zero] at positive
  omega

theorem OnlyRequests.payloadAt {last : ℕ} {c : Comp} (only : OnlyRequests last c) (vs : ViewStamp)
    (there : c.stored vs ≠ none) : ∃ data, c.payloadAt vs = some data := by
  obtain ⟨value, found⟩ := Option.ne_none_iff_exists'.mp there
  obtain ⟨-, record, rfl⟩ := only vs value found
  have lookup : c.db.retrieveRecord (vstol vs) = some (.request record) := found
  exact ⟨record.data, by simp [Comp.payloadAt, lookup]⟩

/-- The reply to a request for a missing record is about a stored one. -/
theorem handleMissingReq_outcome {leader last point i : ℕ} {c : Comp} (only : OnlyRequests last c)
    (env : Env) (nodeId : NodeId) (missingVs : ViewStamp) :
    Outcome leader last point i c (handleMissingReq env c nodeId missingVs) := by
  rcases handleMissingReq_cases env c nodeId missingVs with silent | ⟨value, found, answers⟩
  · rw [silent]
    exact .refl ..
  · rw [answers]
    refine .change rfl [(nodeId, _)] rfl ?_ fun _ => id
    intro call member
    obtain rfl := List.mem_singleton.mp member
    exact (only missingVs value found).1

/-- Deliveries of the next `n` requests of view 1, all stored and within the commit point. -/
theorem deliveriesAt_within {point : ℕ} {c : Comp} {n : ℕ} (view : c.highestCommittedVs.viewId = 1)
    (reached : 0 < n → c.highestCommittedVs.reqId.toNat + n ≤ point)
    (room : c.highestCommittedVs.reqId.toNat + n < 4294967296)
    (present : ∀ i, i < n → c.stored (stampAfter c.highestCommittedVs (i + 1)) ≠ none) :
    ∀ d ∈ c.deliveriesAt (stampsAfter c.highestCommittedVs n), Within point d.vs ∧
      d.data = c.payloadAt d.vs ∧ c.stored d.vs ≠ none := by
  intro d member
  obtain ⟨vs, known, rfl⟩ := List.mem_map.mp member
  obtain ⟨i, below, rfl⟩ := List.mem_map.mp known
  have less := List.mem_range.mp below
  have reqId := stampAfter_reqId c.highestCommittedVs (i + 1) (by omega)
  have bound := reached (by omega)
  exact ⟨⟨view, by rw [reqId]; omega, by rw [reqId]; omega⟩, rfl, present i less⟩

theorem vstol_view_one {vs : ViewStamp} (view : vs.viewId = 1) :
    (vstol vs).toNat = 4294967296 + vs.reqId.toNat := by
  rw [vstol_toNat, view]
  rfl

/-! ## A follower -/

/-- A node other than the leader, before or after it has joined. -/
structure Follower (leader last point i : ℕ) (c : Comp) : Prop where
  running : c.fault = none
  nodeId : c.nodeId = i
  role : c.myRole = .secondary
  view : c.curView.viewId = 0 ∨ c.curView = ⟨1, leader, 0⟩
  seenView : c.highestSeenVs.viewId = 1
  toCommitView : c.highestToCommitVs.viewId = 1
  committedView : c.highestCommittedVs.viewId = 1
  toCommit : c.highestToCommitVs.reqId.toNat ≤ point
  committed : c.highestCommittedVs.reqId.toNat ≤ c.highestToCommitVs.reqId.toNat
  only : OnlyRequests last c

section Follower

variable {leader last point i : ℕ} {c : Comp}

theorem Follower.mono {last' point' : ℕ} (follower : Follower leader last point i c)
    (lasts : last ≤ last') (points : point ≤ point') : Follower leader last' point' i c :=
  { follower with
    toCommit := follower.toCommit.trans points
    only := follower.only.mono lasts }

theorem Follower.confined (follower : Follower leader last point i c)
    (joined : c.curView.viewId ≠ 0) : c.Confined := by
  have view : c.curView.viewId = 1 := by
    rcases follower.view with waiting | same
    · exact absurd waiting joined
    · rw [same]
  have seen_lt := c.highestSeenVs.reqId.toNat_lt
  have toCommit_lt := c.highestToCommitVs.reqId.toNat_lt
  have seen_key := vstol_view_one follower.seenView
  have toCommit_key := vstol_view_one follower.toCommitView
  have committed_key := vstol_view_one follower.committedView
  exact {
    running := follower.running
    inView := follower.committedView.trans view.symm
    positive := joined
    toCommit := by
      have order := follower.committed
      omega
    seen := by rw [view, follower.seenView]
    boundary := fun w _ => follower.only.boundary w
    toCommitRoom := by omega
    seenRoom := by omega }

theorem Follower.execute (follower : Follower leader last point i c) (env : Env) :
    Follower leader last point i (tryToExecute env c) ∧
      Outcome leader last point i c (tryToExecute env c) := by
  by_cases waiting : c.curView.viewId = 0
  · rw [tryToExecute, if_pos waiting]
    exact ⟨follower, .refl ..⟩
  · have confined := follower.confined waiting
    have notLeader : c.myRole ≠ .leader := by
      rw [follower.role]
      exact ConRole.noConfusion
    obtain ⟨n, missing, only, executed, reaches, -⟩ := executeCommitted_spec c confined
    have result : tryToExecute env c = c.progressed (stampAfter c.highestCommittedVs n)
        c.highestToCommitVs n missing none := by
      simp only [tryToExecute, if_neg waiting, if_neg notLeader, follower.running,
        Option.isSome_none, Bool.false_eq_true, if_false, executed]
    have extent := reaches (follower.toCommitView.trans
      (follower.committedView.symm.trans confined.inView))
    have order := follower.committed
    have bound := follower.toCommit
    have toCommit_lt := c.highestToCommitVs.reqId.toNat_lt
    have room := extent.room
    have inside : c.highestCommittedVs.reqId.toNat + n < 4294967296 := by omega
    rw [result]
    refine ⟨{ follower with
      running := rfl
      committed := ?_ }, ?_⟩
    · simp only [progressed]
      rw [stampAfter_reqId _ _ inside]
      omega
    · exact ⟨⟨_, rfl, deliveriesAt_within follower.committedView (fun _ => by omega) inside
        extent.present⟩, ⟨missing, rfl, onlyMissingReqs_ok c missing only⟩, fun _ => id⟩

/-- A follower and what it did in one step. -/
def FollowerStep (leader last point i : ℕ) (c c' : Comp) : Prop :=
  Follower leader last point i c' ∧ Outcome leader last point i c c'

theorem Follower.executeAfter (c before : Comp) (follower : Follower leader last point i before)
    (change : Outcome leader last point i c before) (silent : before.delivered = c.delivered)
    (env : Env) : FollowerStep leader last point i c (tryToExecute env before) := by
  obtain ⟨next, executes⟩ := follower.execute env
  exact ⟨next, change.execute silent executes (sameRecords_tryToExecute env before).db⟩

theorem Follower.handleAcceptReq (follower : Follower leader last point i c) (env : Env)
    (msgVs reqCanbeExed : ViewStamp) (nodeId : NodeId) (origin : RequestRecord)
    (within : Within last msgVs) (view : reqCanbeExed.viewId = 1)
    (reached : reqCanbeExed.reqId.toNat ≤ point) :
    FollowerStep leader last point i c
      (handleAcceptReq env c msgVs reqCanbeExed nodeId origin) := by
  obtain ⟨seen, toCommit, noted, seenIs, -, toCommitIs, up, -⟩ :=
    noteAcceptReq_cases c msgVs reqCanbeExed
  have seenView : seen.viewId = 1 := by
    rcases seenIs with rfl | rfl
    exacts [follower.seenView, within.1]
  have toCommitView : toCommit.viewId = 1 := by
    rcases toCommitIs with rfl | rfl
    exacts [follower.toCommitView, view]
  have bound : toCommit.reqId.toNat ≤ point := by
    rcases toCommitIs with rfl | rfl
    exacts [follower.toCommit, reached]
  have order : c.highestCommittedVs.reqId.toNat ≤ toCommit.reqId.toNat := by
    have before := follower.committed
    rw [vstol_view_one follower.toCommitView, vstol_view_one toCommitView] at up
    omega
  rw [Comp.handleAcceptReq]
  rcases storeAcceptReq_cases env c msgVs reqCanbeExed nodeId origin with
    ⟨ignored, -⟩ | ⟨-, -, -, ⟨-, failed⟩ | ⟨-, stored⟩⟩
  · rw [ignored]
    exact follower.executeAfter c c (.refl ..) rfl env
  · rw [failed, noted]
    refine Follower.executeAfter c _ ?_ ?_ ?_ env
    · exact { follower with
        seenView := seenView
        toCommitView := toCommitView
        toCommit := bound
        committed := order }
    · exact .silent rfl rfl fun _ => id
    · rfl
  · rw [stored, noted]
    have kept := stored_store_keeps c msgVs (.request (acceptedRecord env origin))
    refine Follower.executeAfter c _ ?_ ?_ ?_ env
    · exact { follower with
        seenView := seenView
        toCommitView := toCommitView
        toCommit := bound
        committed := order
        only := follower.only.store msgVs (acceptedRecord env origin) within }
    · refine .change rfl [(nodeId, .acceptAck msgVs c.nodeId)] rfl ?_ kept
      intro call member
      obtain rfl := List.mem_singleton.mp member
      refine ⟨by rw [follower.nodeId], within, ?_⟩
      have there := stored_storeRecord c msgVs msgVs (.request (acceptedRecord env origin))
      rw [if_pos rfl] at there
      exact fun absent => Option.some_ne_none _ (there.symm.trans absent)
    · rfl

theorem Follower.handleMissingAck (follower : Follower leader last point i c) (env : Env)
    (missingVs : ViewStamp) (origin : RequestRecord) (within : Within last missingVs) :
    FollowerStep leader last point i c (handleMissingAck env c missingVs origin) := by
  rcases handleMissingAck_cases env c missingVs origin with
    ⟨ignored, -⟩ | ⟨-, -, ⟨-, failed⟩ | ⟨-, stored⟩⟩
  · rw [ignored]
    exact ⟨follower, .refl ..⟩
  · rw [failed]
    exact follower.executeAfter c c (.refl ..) rfl env
  · rw [stored]
    have kept := stored_store_keeps c missingVs (.request (missingRecord env origin))
    refine Follower.executeAfter c _ ?_ ?_ ?_ env
    · exact { follower with
        only := follower.only.store missingVs (missingRecord env origin) within }
    · exact .silent rfl rfl kept
    · rfl

theorem Follower.handleForceExec (follower : Follower leader last point i c) (env : Env)
    (nodeId : NodeId) (highestCommittedOp : ViewStamp) (view : highestCommittedOp.viewId = 1)
    (reached : highestCommittedOp.reqId.toNat ≤ point) :
    FollowerStep leader last point i c (handleForceExec env c nodeId highestCommittedOp) := by
  rcases handleForceExec_cases env c nodeId highestCommittedOp with
    ⟨ignored, -⟩ | ⟨-, further, moved⟩
  · rw [ignored]
    exact ⟨follower, .refl ..⟩
  · rw [moved]
    have before := follower.committed
    rw [vstol_view_one follower.toCommitView, vstol_view_one view] at further
    refine Follower.executeAfter c _ ?_ ?_ ?_ env
    · exact { follower with
        toCommitView := view
        toCommit := reached
        committed := by
          show c.highestCommittedVs.reqId.toNat ≤ highestCommittedOp.reqId.toNat
          omega }
    · exact .silent rfl rfl fun _ => id
    · rfl

theorem Follower.join (follower : Follower leader last point i c) (env : Env)
    (other : i ≠ leader) : FollowerStep leader last point i c (updateView env c ⟨1, leader, 0⟩) := by
  rcases updateView_cases env c ⟨1, leader, 0⟩ follower.running with
    ⟨ignored, -⟩ | ⟨successor, ⟨-, failed⟩ | entered⟩
  · rw [ignored]
    exact ⟨follower, .refl ..⟩
  · -- joining view 1 writes no boundary, so nothing can fail
    have written : (c.storeViewBoundary env ⟨1, leader, 0⟩) = c := by simp [storeViewBoundary]
    have impossible : (updateView env c ⟨1, leader, 0⟩).fault = none := by
      simp only [updateView, if_pos successor, written, follower.running, Option.isSome_none,
        Bool.false_eq_true, if_false, consensusUpdateRole]
    rw [failed] at impossible
    cases impossible
  · rw [entered]
    have db : boundaryDb env c ⟨1, leader, 0⟩ = c.db := by simp [boundaryDb]
    rw [db]
    refine ⟨?_, .silent rfl rfl fun _ => id⟩
    exact {
      running := follower.running
      nodeId := follower.nodeId
      role := by
        have notSelf : ((leader : ℕ) : ℤ) ≠ c.nodeId := by
          rw [follower.nodeId]
          exact_mod_cast other.symm
        simp [consensusUpdateRole, notSelf]
      view := .inr rfl
      seenView := rfl
      toCommitView := rfl
      committedView := rfl
      toCommit := Nat.zero_le _
      committed := le_rfl
      only := follower.only }

end Follower

/-! ## The leader -/

/-- Every bit of a record's map is that of the leader or of a node that holds the record. -/
def Acked (n leader : ℕ) (others : ℕ → ViewStamp → Prop) (vs : ViewStamp)
    (record : RequestRecord) : Prop :=
  ∀ b, record.bitMap.toBitVec.getLsbD b = true → b < n ∧ (b = leader ∨ others b vs)

/-- A quorum of nodes holds the record, as far as its bit map can tell. -/
def QuorumOf (n leader : ℕ) (others : ℕ → ViewStamp → Prop) (vs : ViewStamp) : Prop :=
  ∃ record, Acked n leader others vs record ∧ n / 2 + 1 ≤ popcount record.bitMap

/-- The leader, with `last` requests numbered and `point` of them committed; the last two facts
are lost when a call of it does not return. -/
structure Leader (n last point i : ℕ) (others : ℕ → ViewStamp → Prop) (c : Comp) : Prop where
  nodeId : c.nodeId = i
  groupSize : c.groupSize = n
  role : c.myRole = .leader
  view : c.curView = ⟨1, i, 0⟩
  seenView : c.highestSeenVs.viewId = 1
  seen : c.highestSeenVs.reqId.toNat = last
  only : OnlyRequests last c
  all : ∀ vs, Within last vs → c.stored vs ≠ none
  acked : ∀ vs record, c.stored vs = some (.request record) → Acked n i others vs record
  point_le : point ≤ last
  views : c.fault = none → c.highestToCommitVs.viewId = 1 ∧ c.highestCommittedVs.viewId = 1
  toCommit : c.fault = none → c.highestToCommitVs.reqId.toNat = point ∧
    c.highestCommittedVs.reqId.toNat ≤ point

/-- What the leader did in one step: it may have numbered and committed more requests, the latter
with a quorum. -/
def LeaderStep (n last last' point i : ℕ) (others : ℕ → ViewStamp → Prop) (c c' : Comp) : Prop :=
  last ≤ last' ∧ ∃ point', point ≤ point' ∧ Leader n last' point' i others c' ∧
    Outcome i last' point' i c c' ∧
    ∀ vs, vs.viewId = 1 → point < vs.reqId.toNat → vs.reqId.toNat ≤ point' →
      QuorumOf n i others vs

section Leader

variable {n last point i : ℕ} {others : ℕ → ViewStamp → Prop} {c : Comp}

theorem Leader.confined (leader : Leader n last point i others c) (running : c.fault = none) :
    c.Confined := by
  obtain ⟨toCommitView, committedView⟩ := leader.views running
  obtain ⟨toCommit, committed⟩ := leader.toCommit running
  have seen_lt := c.highestSeenVs.reqId.toNat_lt
  have toCommit_lt := c.highestToCommitVs.reqId.toNat_lt
  have seen_key := vstol_view_one leader.seenView
  have toCommit_key := vstol_view_one toCommitView
  have committed_key := vstol_view_one committedView
  have view : c.curView.viewId = 1 := by rw [leader.view]
  exact {
    running := running
    inView := committedView.trans view.symm
    positive := by rw [view]; decide
    toCommit := by omega
    seen := by rw [view, leader.seenView]
    boundary := fun w _ => leader.only.boundary w
    toCommitRoom := by omega
    seenRoom := by omega }

theorem Leader.refl (leader : Leader n last point i others c) :
    LeaderStep n last last point i others c c :=
  ⟨le_rfl, point, le_rfl, leader, .refl .., fun _ _ above below => by omega⟩

/-- A request the scan passed has a quorum. -/
theorem Leader.quorum (leader : Leader n last point i others c) (env : Env) (vs : ViewStamp)
    (passed : QuorumAt env c vs) : QuorumOf n i others vs := by
  obtain ⟨value, found, reached⟩ := passed
  obtain ⟨-, record, rfl⟩ := leader.only vs value found
  refine ⟨record, leader.acked vs record found, ?_⟩
  rw [← leader.groupSize]
  exact of_decide_eq_true reached

/-- Execution by the leader, with or without the scan before it. -/
theorem Leader.executes (leader : Leader n last point i others c) (running : c.fault = none)
    {env : Env} {c' : Comp} {m k : ℕ} {missing : List (Int × ConsensusMsg)}
    (executes : Executes env c c' m k missing) : LeaderStep n last last point i others c c' := by
  obtain ⟨toCommitView, committedView⟩ := leader.views running
  obtain ⟨toCommit, committed⟩ := leader.toCommit running
  obtain ⟨progress, only, committed', toCommit', fault, rfl, settled⟩ := executes
  have scans := progress.scans
  have upto := progress.upto
  have bound := scans.reqId_lt
  have room := scans.room
  have seen := leader.seen
  have point_le := leader.point_le
  have inside : c.highestCommittedVs.reqId.toNat + m < 4294967296 := by
    rcases Nat.eq_zero_or_pos m with rfl | delivers
    · exact c.highestCommittedVs.reqId.toNat_lt
    · have reached := (upto delivers).2
      omega
  have present : ∀ j, j < m → c.stored (stampAfter c.highestCommittedVs (j + 1)) ≠ none := by
    intro j below
    have reached := (upto (by omega)).2
    have reqId := stampAfter_reqId c.highestCommittedVs (j + 1) (by omega)
    exact leader.all _ ⟨committedView, by rw [reqId]; omega, by rw [reqId]; omega⟩
  refine ⟨le_rfl, point + k, by omega, ?_, ?_, ?_⟩
  · exact { leader with
      point_le := by omega
      views := fun none => by
        obtain ⟨rfl, rfl⟩ := settled none
        exact ⟨toCommitView, committedView⟩
      toCommit := fun none => by
        obtain ⟨rfl, rfl⟩ := settled none
        simp only [progressed]
        rw [stampAfter_reqId _ _ bound, stampAfter_reqId _ _ inside]
        refine ⟨by omega, ?_⟩
        rcases Nat.eq_zero_or_pos m with rfl | delivers
        · omega
        · have reached := (upto delivers).2
          omega }
  · refine ⟨⟨_, rfl, deliveriesAt_within committedView (fun delivers => ?_) inside present⟩,
      ⟨missing, rfl, onlyMissingReqs_ok c missing only⟩, fun _ => id⟩
    have reached := (upto delivers).2
    omega
  · intro vs view above below
    -- the scan looked at every request it passed
    have stamp : stampAfter c.highestToCommitVs (vs.reqId.toNat - point - 1 + 1) = vs := by
      apply ViewStamp.ext_toNat
      · rw [stampAfter_viewId, toCommitView, view]
      · rw [stampAfter_reqId _ _ (by omega)]
        omega
    have there := leader.all vs ⟨view, by omega, by omega⟩
    have passed := scans.quorate (vs.reqId.toNat - point - 1) (by omega)
    rw [stamp] at passed
    exact leader.quorum env vs (passed there)

theorem Leader.execute (leader : Leader n last point i others c) (running : c.fault = none)
    (env : Env) : LeaderStep n last last point i others c (tryToExecute env c) := by
  obtain ⟨m, k, missing, executes⟩ := tryToExecute_spec env c (leader.confined running)
  exact leader.executes running executes

/-- Execution after a change that delivers nothing. -/
theorem Leader.executeAfter {last' : ℕ} (c before : Comp)
    (leader : Leader n last' point i others before) (running : before.fault = none)
    (lasts : last ≤ last') (change : Outcome i last' point i c before)
    (silent : before.delivered = c.delivered) (env : Env) :
    LeaderStep n last last' point i others c (tryToExecute env before) := by
  obtain ⟨-, point', points, next, executes, quorum⟩ := leader.execute running env
  refine ⟨lasts, point', points, next, ?_, quorum⟩
  have moved : Outcome i last' point' i c before := by
    obtain ⟨fresh, delivered, stand⟩ := change.delivers
    obtain ⟨sent, calls, ok⟩ := change.sends
    exact ⟨⟨fresh, delivered, fun d member => ⟨(stand d member).1.mono points,
        (stand d member).2⟩⟩,
      ⟨sent, calls, fun call member => (ok call member).mono le_rfl points fun _ => id⟩,
      change.keeps⟩
  exact moved.execute silent executes (sameRecords_tryToExecute env before).db

theorem Leader.handleAcceptAck (leader : Leader n last point i others c)
    (running : c.fault = none) (env : Env) (msgVs : ViewStamp) (nodeId : ℕ) (small : nodeId < 31)
    (inGroup : nodeId < n) (holds : others nodeId msgVs) :
    LeaderStep n last last point i others c (handleAcceptAck env c msgVs nodeId) := by
  rw [Comp.handleAcceptAck]
  rcases storeAcceptAck_cases env c msgVs nodeId with ignored | ⟨-, -, -, value, found, stored⟩
  · rw [ignored]
    exact leader.execute running env
  · rw [stored]
    obtain ⟨within, record, rfl⟩ := leader.only msgVs value found
    have kept := stored_store_keeps c msgVs (.request (updateRecord record nodeId))
    refine Leader.executeAfter c _ ?_ ?_ le_rfl ?_ ?_ env
    · exact { leader with
        only := leader.only.store msgVs (updateRecord record nodeId) within
        all := fun vs inside => kept vs (leader.all vs inside)
        acked := by
          intro vs record' there b set
          have lookup := stored_storeRecord c msgVs vs (.request (updateRecord record nodeId))
          replace there := lookup.symm.trans there
          split at there
          next same =>
            subst same
            cases there
            rw [getLsbD_updateRecord record nodeId b small, Bool.or_eq_true,
              decide_eq_true_eq] at set
            rcases set with before | rfl
            · exact leader.acked vs record found b before
            · exact ⟨inGroup, .inr holds⟩
          next different => exact leader.acked vs record' there b set }
    · exact running
    · exact .silent rfl rfl kept
    · rfl

theorem Leader.handleMissingAck (leader : Leader n last point i others c) (env : Env)
    (missingVs : ViewStamp) (origin : RequestRecord) (within : Within last missingVs) :
    handleMissingAck env c missingVs origin = c := by
  rcases handleMissingAck_cases env c missingVs origin with ⟨ignored, -⟩ | ⟨-, absent, -⟩
  · exact ignored
  · exact absurd absent (leader.all missingVs within)

theorem Leader.leaderHandleSubmitReq (leader : Leader n last point i others c)
    (running : c.fault = none) (env : Env) (data : List UInt8) (small : i < 31) (inGroup : i < n)
    (room : last < 4294967295) :
    ∃ last', LeaderStep n last last' point i others c (leaderHandleSubmitReq env c data).1 := by
  rcases leaderHandleSubmitReq_cases env c data with ⟨-, failed⟩ | ⟨-, submitted, equal, result⟩
  · rw [failed]
    exact ⟨last, leader.refl⟩
  · have reqId : c.getNextViewStamp.reqId.toNat = last + 1 := by
      have seen := leader.seen
      simp only [getNextViewStamp, UInt32.toNat_add, UInt32.toNat_one]
      omega
    have next : Within (last + 1) c.getNextViewStamp :=
      ⟨leader.seenView, by omega, by omega⟩
    have kept := stored_store_keeps c c.getNextViewStamp (.request (submitRecord env c data))
    -- the new record follows the last one and carries only the leader's own bit
    have grown : Leader n (last + 1) point i others submitted := by
      rw [equal]
      exact { leader with
        seen := reqId
        only := (leader.only.mono (Nat.le_succ last)).store c.getNextViewStamp
          (submitRecord env c data) next
        all := by
          intro vs within
          rcases Nat.lt_or_ge last vs.reqId.toNat with new | old
          · have same : vs = c.getNextViewStamp :=
              ViewStamp.ext_toNat (by rw [within.1, next.1]) (by have := within.2.2; omega)
            have there := stored_storeRecord c c.getNextViewStamp vs
              (.request (submitRecord env c data))
            rw [if_pos same] at there
            exact fun absent => Option.some_ne_none _ (there.symm.trans absent)
          · exact kept vs (leader.all vs ⟨within.1, within.2.1, old⟩)
        acked := by
          intro vs record there b set
          have lookup := stored_storeRecord c c.getNextViewStamp vs
            (.request (submitRecord env c data))
          replace there := lookup.symm.trans there
          split at there
          next same =>
            cases there
            simp only [submitRecord, leader.nodeId] at set
            rw [getLsbD_nodeBit i b small, decide_eq_true_eq] at set
            exact ⟨set ▸ inGroup, .inl set⟩
          next different => exact leader.acked vs record there b set
        point_le := leader.point_le.trans (Nat.le_succ last) }
    have silent : submitted.delivered = c.delivered := by rw [equal]
    have calls : submitted.upCalls = c.upCalls := by rw [equal]
    have keeps : ∀ vs, c.stored vs ≠ none → submitted.stored vs ≠ none := by
      rw [equal]
      exact kept
    have running' : submitted.fault = none := by
      rw [equal]
      exact running
    refine ⟨last + 1, ?_⟩
    -- a group of more nodes asks them to accept; a single node executes at once
    rcases result with ⟨-, sent⟩ | ⟨-, executed⟩
    · rw [sent]
      refine ⟨Nat.le_succ last, point, le_rfl, { grown with }, ?_,
        fun _ _ above below => by omega⟩
      refine .change silent [(-1, submitted.buildAcceptReq (submitRecord env c data)
        c.getNextViewStamp)] (congrArg (· ++ _) calls) ?_ keeps
      intro call member
      obtain rfl := List.mem_singleton.mp member
      exact ⟨rfl, by rw [grown.nodeId], next, (grown.views running').1,
        (grown.toCommit running').1.le⟩
    · rw [executed]
      exact Leader.executeAfter c submitted grown running' (Nat.le_succ last)
        (.silent silent calls keeps) silent env

theorem Leader.consensusMakeProgress (leader : Leader n last point i others c)
    (running : c.fault = none) (env : Env) :
    LeaderStep n last last point i others c (consensusMakeProgress env c) := by
  obtain ⟨m, k, executes⟩ :=
    leaderTryToExecute_spec env c (leader.confined running) leader.role
  have step := leader.executes running executes
  simp only [Comp.consensusMakeProgress, if_neg (not_not_intro leader.role)]
  generalize leaderTryToExecute env c = scanned at step
  obtain ⟨-, point', points, next, outcome, quorum⟩ := step
  cases fault : scanned.fault with
  | some fault =>
    simp only [Option.isSome_some, if_true]
    exact ⟨le_rfl, point', points, next, outcome, quorum⟩
  | none =>
    obtain ⟨toCommitView, committedView⟩ := next.views fault
    obtain ⟨toCommit, committed⟩ := next.toCommit fault
    obtain ⟨resent, raised, again, result, settled⟩ := retransmit_spec env scanned
    have ok : ∀ call ∈ resent, CallOk i last point' (fun vs => scanned.stored vs ≠ none) i call := by
      intro call member
      obtain ⟨vs, value, -, -, found, rfl⟩ := again call member
      exact ⟨rfl, by rw [next.nodeId], (next.only vs value found).1, toCommitView, toCommit.le⟩
    have sends : ∀ sent upCalls fault, upCalls = scanned.upCalls ++ sent →
        (∀ call ∈ sent, CallOk i last point' (fun vs => scanned.stored vs ≠ none) i call) →
        Outcome i last point' i c { scanned with upCalls := upCalls, fault := fault } := by
      intro sent upCalls fault appended allowed
      obtain ⟨before, calls, fine⟩ := outcome.sends
      refine ⟨outcome.delivers, ⟨before ++ sent, ?_, ?_⟩, outcome.keeps⟩
      · rw [appended, calls, List.append_assoc]
      · intro call member
        rcases List.mem_append.mp member with first | second
        · exact fine call first
        · exact allowed call second
    simp only [result, Option.isSome_none, Bool.false_eq_true, if_false]
    rcases settled with rfl | ⟨raised, rfl⟩
    · simp only [fault, Option.isSome_none, Bool.false_eq_true, if_false]
      refine ⟨le_rfl, point', points, { next with
        views := fun _ => ⟨toCommitView, committedView⟩
        toCommit := fun _ => ⟨toCommit, committed⟩ }, ?_, quorum⟩
      refine sends (resent ++ [(-1, .forceExec scanned.nodeId scanned.highestCommittedVs)]) _ none
        (List.append_assoc _ _ _) ?_
      intro call member
      rcases List.mem_append.mp member with first | second
      · exact ok call first
      · obtain rfl := List.mem_singleton.mp second
        exact ⟨rfl, by rw [next.nodeId], committedView, committed⟩
    · exact ⟨le_rfl, point', points, { next with
        views := fun none => by cases none
        toCommit := fun none => by cases none }, sends resent _ _ rfl ok, quorum⟩

end Leader

theorem Leader.mono_others {n last point i : ℕ} {others others' : ℕ → ViewStamp → Prop} {c : Comp}
    (leader : Leader n last point i others c) (kept : ∀ j vs, others j vs → others' j vs) :
    Leader n last point i others' c :=
  { leader with
    acked := fun vs record found b set => by
      obtain ⟨inGroup, holder⟩ := leader.acked vs record found b set
      exact ⟨inGroup, holder.imp_right (kept b vs)⟩ }

end Comp

end LibeventPaxos
