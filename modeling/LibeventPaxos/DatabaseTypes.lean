import LibeventPaxos.LearnerSoundness
import LibeventPaxos.NodeCalls
import LibeventPaxos.Proxy

/-!
The three kinds of record in the database that the consensus component, the election and the proxy
share: under which keys each lies, and what reads it. Until a node moves to a view after the first,
every key holds the kind of record its readers expect.
-/
namespace LibeventPaxos

open Lib

/-- The kind of record that belongs under a stamp's key: requests in the views from 1 on, the view
record at request 0 of a view from 2 on, and the acceptor of the next view `k` at `(0, k)`. -/
def HoldsType (vs : ViewStamp) : DbValue → Prop
  | .request _ => vs.viewId ≠ 0 ∧ vs.reqId ≠ 0
  | .view bytes =>
    2 ≤ vs.viewId.toNat ∧ vs.reqId = 0 ∧ (Node.asView (.view bytes)).viewId = vs.viewId
  | .acceptor _ => vs.viewId = 0

namespace Comp

/-! ## Before the second view -/

/-- A request of view 1. -/
def FirstView (vs : ViewStamp) : Prop := vs.viewId = 1 ∧ vs.reqId ≠ 0

def EarlyValue (vs : ViewStamp) : DbValue → Prop
  | .request _ => FirstView vs
  | .acceptor _ => vs.viewId = 0 ∧ vs.reqId ≠ 0
  | .view _ => False

def EarlyMsg : ConsensusMsg → Prop
  | .acceptReq msgVs reqCanbeExed _ _ => FirstView msgVs ∧ reqCanbeExed.viewId = 1
  | .acceptAck msgVs _ => FirstView msgVs
  | .missingReq _ missingVs => FirstView missingVs
  | .missingAck _ missingVs _ => FirstView missingVs
  | .forceExec _ highestCommittedOp => highestCommittedOp.viewId = 1
  | .forwardReq _ _ => True

/-- A component that has not left view 1. Its stamps lie in view 1 even while it is in view 0. -/
structure Early (c : Comp) : Prop where
  view : c.curView.viewId.toNat ≤ 1
  seen : c.highestSeenVs.viewId = 1
  toCommit : c.highestToCommitVs.viewId = 1
  committed : c.highestCommittedVs.viewId = 1
  stored : ∀ vs value, c.stored vs = some value → EarlyValue vs value
  calls : ∀ call ∈ c.upCalls, EarlyMsg call.2
  delivered : ∀ delivery ∈ c.delivered, FirstView delivery.vs

theorem EarlyValue.holdsType {vs : ViewStamp} {value : DbValue} (early : EarlyValue vs value) :
    HoldsType vs value := by
  cases value with
  | request record => exact ⟨by rw [early.1]; decide, early.2⟩
  | view bytes => exact early.elim
  | acceptor record => exact early.1

section Early

variable {c : Comp}

/-- What lies outside view 0 is a request, however the memory behind it is filled. -/
theorem Early.request (early : Early c) (vs : ViewStamp) (value : DbValue)
    (found : c.stored vs = some value) (outside : vs.viewId ≠ 0) :
    FirstView vs ∧ ∃ record, value = .request record := by
  have kind := early.stored vs value found
  cases value with
  | request record => exact ⟨kind, record, rfl⟩
  | view bytes => exact kind.elim
  | acceptor record => exact absurd kind.1 outside

theorem Early.asRequest (early : Early c) (vs : ViewStamp) (value : DbValue)
    (found : c.stored vs = some value) (outside : vs.viewId ≠ 0) (junk junk' : RequestRecord) :
    value.asRequest junk = value.asRequest junk' := by
  obtain ⟨-, record, rfl⟩ := early.request vs value found outside
  rfl

/-- The stamps move inside view 1. -/
theorem Early.moves (early : Early c) (seen toCommit committed : ViewStamp) (fault : Option Fault)
    (seenView : seen.viewId = 1) (toCommitView : toCommit.viewId = 1)
    (committedView : committed.viewId = 1) :
    Early { c with
      highestSeenVs := seen, highestToCommitVs := toCommit, highestCommittedVs := committed,
      fault := fault } :=
  ⟨early.view, seenView, toCommitView, committedView, early.stored, early.calls, early.delivered⟩

theorem Early.fail (early : Early c) (fault : Fault) : Early (c.fail fault) :=
  early.moves c.highestSeenVs c.highestToCommitVs c.highestCommittedVs (some fault) early.seen
    early.toCommit early.committed

theorem Early.sends (early : Early c) (sent : List (Int × ConsensusMsg))
    (typed : ∀ call ∈ sent, EarlyMsg call.2) : Early { c with upCalls := c.upCalls ++ sent } := by
  refine ⟨early.view, early.seen, early.toCommit, early.committed, early.stored, ?_,
    early.delivered⟩
  intro call member
  rcases List.mem_append.mp member with old | new
  · exact early.calls call old
  · exact typed call new

theorem Early.uc (early : Early c) (target : Int) (msg : ConsensusMsg) (typed : EarlyMsg msg) :
    Early (c.uc target msg) :=
  early.sends [(target, msg)] fun call member => by
    obtain rfl := List.mem_singleton.mp member
    exact typed

theorem Early.deliverMsgData (early : Early c) (vs : ViewStamp) (request : FirstView vs) :
    Early (c.deliverMsgData vs) := by
  refine ⟨early.view, early.seen, early.toCommit, early.committed, early.stored, early.calls, ?_⟩
  intro delivery member
  rcases List.mem_append.mp member with old | new
  · exact early.delivered delivery old
  · obtain rfl := List.mem_singleton.mp new
    exact request

/-- A store of a request of view 1. -/
theorem Early.store (early : Early c) (vs : ViewStamp) (record : RequestRecord)
    (request : FirstView vs) (assigned : List (ViewStamp × List UInt8)) :
    Early { c with
      db := c.db.storeRecord (vstol vs) (.request record), assigned := assigned } where
  view := early.view
  seen := early.seen
  toCommit := early.toCommit
  committed := early.committed
  stored := by
    intro other value found
    have lookup : (if other = vs then some (.request record) else c.stored other) = some value := by
      rw [← stored_storeRecord c vs other (.request record)]
      exact found
    split at lookup
    next same =>
      subst same
      obtain rfl := Option.some.inj lookup
      exact request
    next different => exact early.stored other value lookup
  calls := early.calls
  delivered := early.delivered

/-! ## Execution in view 1 -/

/-- The keys a loop visits that runs from the key after a stamp of view 1 up to another one. -/
theorem firstView_key (a b : ViewStamp) (index : ℕ) (aView : a.viewId = 1) (bView : b.viewId = 1)
    (low : (vstol a + 1).toNat ≤ index) (high : index ≤ (vstol b).toNat) :
    FirstView (ltovs (UInt64.ofNat index)) := by
  have a_lt := a.reqId.toNat_lt
  have b_lt := b.reqId.toNat_lt
  have a_key := vstol_toNat a
  have b_key := vstol_toNat b
  rw [aView, UInt32.toNat_one] at a_key
  rw [bView, UInt32.toNat_one] at b_key
  rw [UInt64.toNat_add, UInt64.toNat_one] at low
  have key : (UInt64.ofNat index).toNat = index := by
    rw [UInt64.toNat_ofNat', Nat.mod_eq_of_lt (by omega)]
  constructor
  · apply UInt32.toNat_inj.mp
    rw [ltovs_viewId_toNat, key, UInt32.toNat_one]
    omega
  · intro zero
    have zero' := congrArg UInt32.toNat zero
    rw [ltovs_reqId_toNat, key, UInt32.toNat_zero] at zero'
    omega

private theorem leaderExecStep_early (env : Env) (execFlag : Bool) (index : ℕ)
    (s s' : Comp × Option RequestRecord) (request : FirstView (ltovs (UInt64.ofNat index)))
    (early : Early s.1)
    (stepped : leaderExecStep env execFlag index s = .next s' ∨
      leaderExecStep env execFlag index s = .ret s') : Early s'.1 := by
  obtain ⟨c', recordData⟩ := s
  have moved : Early { c' with highestToCommitVs := viewStampInc c'.highestToCommitVs } :=
    early.moves c'.highestSeenVs _ c'.highestCommittedVs c'.fault early.seen early.toCommit
      early.committed
  simp only [leaderExecStep] at stepped
  split at stepped
  next nothing =>
    rcases stepped with impossible | same
    · cases impossible
    · cases same
      exact early.fail _
  next record read =>
    by_cases quorum : reachedQuorum record c'.groupSize = true
    · simp only [if_pos quorum] at stepped
      cases execFlag with
      | true =>
        rcases stepped with same | impossible
        · cases same
          have delivered := moved.deliverMsgData _ request
          exact delivered.moves c'.highestSeenVs _ (viewStampInc c'.highestCommittedVs) c'.fault
            early.seen moved.toCommit early.committed
        · cases impossible
      | false =>
        rcases stepped with same | impossible
        · cases same
          exact moved
        · cases impossible
    · simp only [if_neg quorum] at stepped
      rcases stepped with impossible | same
      · cases impossible
      · cases same
        exact early

private theorem leaderExecStep_junk (env env' : Env) (execFlag : Bool) (index : ℕ)
    (s : Comp × Option RequestRecord) (request : FirstView (ltovs (UInt64.ofNat index)))
    (early : Early s.1) :
    leaderExecStep env execFlag index s = leaderExecStep env' execFlag index s := by
  obtain ⟨c', recordData⟩ := s
  have outside : (ltovs (UInt64.ofNat index)).viewId ≠ 0 := by
    rw [request.1]
    decide
  simp only [leaderExecStep]
  cases found : c'.db.retrieveRecord (UInt64.ofNat index) with
  | none => rfl
  | some value =>
    have stored : c'.stored (ltovs (UInt64.ofNat index)) = some value := by
      rw [Comp.stored, vstol_ltovs, found]
    have same := early.asRequest _ value stored outside (env.junk (UInt64.ofNat index))
      (env'.junk (UInt64.ofNat index))
    simp only [same]

/-- The leader's scan in view 1. -/
theorem Early.leaderExecFrom (early : Early c) (env : Env) (a : ViewStamp) (aView : a.viewId = 1) :
    Early (leaderExecFrom env c (vstol a + 1)) := by
  have kept := forInclusive_kept (fun s => Early s.1) 64 (vstol a + 1).toNat
    (vstol c.highestSeenVs).toNat (leaderExecStep env
      (viewStampComp c.highestCommittedVs c.highestToCommitVs == 0)) (c, none) early
    (fun index s s' low high before stepped => leaderExecStep_early env _ index s s'
      (firstView_key a c.highestSeenVs index aView early.seen low high) before stepped)
  simp only [Comp.leaderExecFrom]
  generalize forInclusive 64 (vstol a + 1).toNat _ _ (c, none) = exit at kept
  cases exit with
  | finished s => exact kept
  | returned s => exact kept
  | wrapped s => exact kept.fail _

theorem Early.leaderExecFrom_junk (early : Early c) (env env' : Env) (a : ViewStamp)
    (aView : a.viewId = 1) :
    Comp.leaderExecFrom env c (vstol a + 1) = Comp.leaderExecFrom env' c (vstol a + 1) := by
  have inside := fun index low high =>
    firstView_key a c.highestSeenVs index aView early.seen low high
  simp only [Comp.leaderExecFrom]
  rw [forInclusive_congr (fun s => Early s.1) 64 _ _ _ (leaderExecStep env' _) (c, none)
    early
    (fun index s low high before =>
      leaderExecStep_junk env env' _ index s (inside index low high) before)
    (fun index s s' low high before stepped =>
      leaderExecStep_early env _ index s s' (inside index low high) before (.inl stepped))]

theorem Early.leaderTryToExecute (early : Early c) (env : Env) :
    Early (leaderTryToExecute env c) := by
  rw [Comp.leaderTryToExecute, if_neg (by rw [early.seen, early.toCommit]; simp)]
  exact early.leaderExecFrom env _ early.toCommit

theorem Early.leaderTryToExecute_junk (early : Early c) (env env' : Env) :
    Comp.leaderTryToExecute env c = Comp.leaderTryToExecute env' c := by
  have sameView : ¬ c.highestSeenVs.viewId ≠ c.highestToCommitVs.viewId := by
    rw [early.seen, early.toCommit]
    simp
  rw [Comp.leaderTryToExecute, Comp.leaderTryToExecute, if_neg sameView, if_neg sameView]
  exact early.leaderExecFrom_junk env env' _ early.toCommit

private theorem execStep_early (index : ℕ) (s s' : Comp × Bool)
    (request : FirstView (ltovs (UInt64.ofNat index))) (early : Early s.1)
    (stepped : execStep index s = .next s' ∨ execStep index s = .ret s') : Early s'.1 := by
  obtain ⟨c', execFlag⟩ := s
  simp only [execStep] at stepped
  split at stepped
  next missing =>
    rcases stepped with same | impossible
    · cases same
      exact early.uc _ _ request
    · cases impossible
  next value found =>
    cases execFlag with
    | false =>
      rcases stepped with same | impossible
      · cases same
        exact early
      · cases impossible
    | true =>
      rcases stepped with same | impossible
      · cases same
        exact (early.deliverMsgData _ request).moves c'.highestSeenVs c'.highestToCommitVs
          (viewStampInc c'.highestCommittedVs) c'.fault early.seen early.toCommit early.committed
      · cases impossible

theorem Early.executeCommitted (early : Early c) : Early (executeCommitted c) := by
  have sameView : ¬ c.highestCommittedVs.viewId ≠ c.highestToCommitVs.viewId := by
    rw [early.committed, early.toCommit]
    simp
  simp only [Comp.executeCommitted, if_neg sameView, execRange]
  have kept := forInclusive_kept (fun s => Early s.1) 64 (vstol c.highestCommittedVs + 1).toNat
    (vstol c.highestToCommitVs).toNat execStep (c, true) early
    (fun index s s' low high before stepped => execStep_early index s s'
      (firstView_key _ _ index early.committed early.toCommit low high) before stepped)
  generalize forInclusive 64 (vstol c.highestCommittedVs + 1).toNat _ _ (c, true) = exit at kept
  cases exit with
  | finished s => exact kept
  | returned s => exact kept
  | wrapped s => exact kept.fail _

theorem Early.tryToExecute (early : Early c) (env : Env) : Early (tryToExecute env c) := by
  rw [Comp.tryToExecute]
  split
  next waiting => exact early
  next active =>
    have scanned : Early (if c.myRole = .leader then Comp.leaderTryToExecute env c else c) := by
      split
      next leader => exact early.leaderTryToExecute env
      next secondary => exact early
    generalize (if c.myRole = .leader then Comp.leaderTryToExecute env c else c) = c' at scanned
    simp only
    split
    next faulty => exact scanned
    next running => exact scanned.executeCommitted

theorem Early.tryToExecute_junk (early : Early c) (env env' : Env) :
    Comp.tryToExecute env c = Comp.tryToExecute env' c := by
  rw [Comp.tryToExecute, Comp.tryToExecute, early.leaderTryToExecute_junk env env']

/-! ## Handlers in view 1 -/

private theorem early_noteAcceptReq (early : Early c) (msgVs reqCanbeExed : ViewStamp)
    (request : FirstView msgVs) (canbe : reqCanbeExed.viewId = 1) :
    Early (c.noteAcceptReq msgVs reqCanbeExed) := by
  obtain ⟨seen, toCommit, noted, whichSeen, -, whichCommit, -⟩ :=
    noteAcceptReq_cases c msgVs reqCanbeExed
  rw [noted]
  refine early.moves seen toCommit c.highestCommittedVs c.fault ?_ ?_ early.committed
  · rcases whichSeen with rfl | rfl
    · exact early.seen
    · exact request.1
  · rcases whichCommit with rfl | rfl
    · exact early.toCommit
    · exact canbe

theorem Early.storeAcceptReq (early : Early c) (env : Env) (msgVs reqCanbeExed : ViewStamp)
    (nodeId : NodeId) (origin : RequestRecord) (request : FirstView msgVs)
    (canbe : reqCanbeExed.viewId = 1) :
    Early (storeAcceptReq env c msgVs reqCanbeExed nodeId origin) := by
  have noted := early_noteAcceptReq early msgVs reqCanbeExed request canbe
  rcases storeAcceptReq_cases env c msgVs reqCanbeExed nodeId origin with
    ⟨ignored, -⟩ | ⟨-, -, -, ⟨-, failed⟩ | ⟨-, stored⟩⟩
  · rwa [ignored]
  · rwa [failed]
  · obtain ⟨seen, toCommit, same, -⟩ := noteAcceptReq_cases c msgVs reqCanbeExed
    rw [stored]
    rw [same] at noted ⊢
    have kept := noted.store msgVs (acceptedRecord env origin) request c.assigned
    exact kept.uc nodeId (.acceptAck msgVs c.nodeId) request

theorem Early.storeAcceptAck (early : Early c) (env : Env) (msgVs : ViewStamp) (nodeId : NodeId)
    (request : FirstView msgVs) : Early (storeAcceptAck env c msgVs nodeId) := by
  rcases storeAcceptAck_cases env c msgVs nodeId with ignored | ⟨-, -, -, value, -, stored⟩
  · rwa [ignored]
  · rw [stored]
    exact early.store msgVs _ request c.assigned

theorem FirstView.outside {vs : ViewStamp} (request : FirstView vs) : vs.viewId ≠ 0 := by
  rw [request.1]
  decide

theorem Early.storeAcceptAck_junk (early : Early c) (env : Env) (msgVs : ViewStamp)
    (nodeId : NodeId) (request : FirstView msgVs) (junk : DbKey → RequestRecord) :
    Comp.storeAcceptAck { env with junk := junk } c msgVs nodeId =
      Comp.storeAcceptAck env c msgVs nodeId := by
  have lookup : c.db.retrieveRecord (vstol msgVs) = c.stored msgVs := rfl
  simp only [Comp.storeAcceptAck, lookup]
  cases found : c.stored msgVs with
  | none => rfl
  | some value =>
    simp only [early.asRequest msgVs value found request.outside (junk (vstol msgVs))
      (env.junk (vstol msgVs))]

theorem Early.handleMissingReq (early : Early c) (env : Env) (nodeId : NodeId)
    (missingVs : ViewStamp) (request : FirstView missingVs) :
    Early (handleMissingReq env c nodeId missingVs) := by
  rcases handleMissingReq_cases env c nodeId missingVs with silent | ⟨value, -, answers⟩
  · rwa [silent]
  · rw [answers]
    exact early.uc _ _ request

theorem Early.handleMissingReq_junk (early : Early c) (env : Env) (nodeId : NodeId)
    (missingVs : ViewStamp) (request : FirstView missingVs) (junk : DbKey → RequestRecord) :
    Comp.handleMissingReq { env with junk := junk } c nodeId missingVs =
      Comp.handleMissingReq env c nodeId missingVs := by
  have same : c.buildMissingAck { env with junk := junk } missingVs =
      c.buildMissingAck env missingVs := by
    cases found : c.stored missingVs with
    | none =>
      have lookup : c.db.retrieveRecord (vstol missingVs) = none := found
      simp only [buildMissingAck, lookup]
    | some value =>
      simp only [buildMissingAck_of_stored _ c missingVs value found,
        early.asRequest missingVs value found request.outside (junk (vstol missingVs))
          (env.junk (vstol missingVs))]
  rw [Comp.handleMissingReq, same, Comp.handleMissingReq]

theorem Early.handleMissingAck (early : Early c) (env : Env) (missingVs : ViewStamp)
    (origin : RequestRecord) (request : FirstView missingVs) :
    Early (handleMissingAck env c missingVs origin) := by
  rcases handleMissingAck_cases env c missingVs origin with
    ⟨ignored, -⟩ | ⟨-, -, ⟨-, failed⟩ | ⟨-, stored⟩⟩
  · rwa [ignored]
  · rw [failed]
    exact early.tryToExecute env
  · rw [stored]
    exact (early.store missingVs _ request c.assigned).tryToExecute env

theorem Early.handleMissingAck_junk (early : Early c) (env : Env) (missingVs : ViewStamp)
    (origin : RequestRecord) (request : FirstView missingVs) (junk : DbKey → RequestRecord) :
    Comp.handleMissingAck { env with junk := junk } c missingVs origin =
      Comp.handleMissingAck env c missingVs origin := by
  have settled : Early (if env.storeOk then
      { c with db := c.db.storeRecord (vstol missingVs) (.request (missingRecord env origin)) }
      else c) := by
    split
    next stores => exact early.store missingVs _ request c.assigned
    next fails => exact early
  simp only [Comp.handleMissingAck]
  split
  next done => rfl
  next fresh =>
    split
    next value found => rfl
    next absent => exact settled.tryToExecute_junk { env with junk := junk } env

theorem Early.handleForceExec (early : Early c) (env : Env) (nodeId : NodeId)
    (highestCommittedOp : ViewStamp) (view : highestCommittedOp.viewId = 1) :
    Early (handleForceExec env c nodeId highestCommittedOp) := by
  rcases handleForceExec_cases env c nodeId highestCommittedOp with ⟨ignored, -⟩ | ⟨-, -, moved⟩
  · rwa [ignored]
  · rw [moved]
    exact (early.moves c.highestSeenVs highestCommittedOp c.highestCommittedVs c.fault early.seen
      view early.committed).tryToExecute env

theorem Early.handleForceExec_junk (early : Early c) (env : Env) (nodeId : NodeId)
    (highestCommittedOp : ViewStamp) (view : highestCommittedOp.viewId = 1)
    (junk : DbKey → RequestRecord) :
    Comp.handleForceExec { env with junk := junk } c nodeId highestCommittedOp =
      Comp.handleForceExec env c nodeId highestCommittedOp := by
  have moved := early.moves c.highestSeenVs highestCommittedOp c.highestCommittedVs c.fault
    early.seen view early.committed
  simp only [Comp.handleForceExec, moved.tryToExecute_junk { env with junk := junk } env]

/-- Only the largest request number has no successor in its view. -/
theorem Early.nextStamp (early : Early c) (room : c.highestSeenVs.reqId ≠ 0xFFFFFFFF) :
    FirstView c.getNextViewStamp := by
  refine ⟨early.seen, ?_⟩
  intro zero
  have zero' := congrArg UInt32.toNat zero
  simp only [getNextViewStamp, UInt32.toNat_add, UInt32.toNat_one, UInt32.toNat_zero] at zero'
  have largest : c.highestSeenVs.reqId.toNat ≠ 4294967295 := fun same =>
    room (UInt32.toNat_inj.mp same)
  have seen_lt := c.highestSeenVs.reqId.toNat_lt
  omega

private theorem early_submitted (early : Early c) (env : Env) (data : List UInt8)
    (room : c.highestSeenVs.reqId ≠ 0xFFFFFFFF) :
    Early { c with
      db := c.db.storeRecord (vstol c.getNextViewStamp) (.request (submitRecord env c data))
      highestSeenVs := c.getNextViewStamp
      assigned := c.assigned ++ [(c.getNextViewStamp, data)] } := by
  have stored := early.store c.getNextViewStamp (submitRecord env c data) (early.nextStamp room)
    (c.assigned ++ [(c.getNextViewStamp, data)])
  exact stored.moves c.getNextViewStamp c.highestToCommitVs c.highestCommittedVs c.fault early.seen
    early.toCommit early.committed

theorem Early.leaderHandleSubmitReq (early : Early c) (env : Env) (data : List UInt8)
    (room : env.storeOk = true → c.highestSeenVs.reqId ≠ 0xFFFFFFFF) :
    Early (leaderHandleSubmitReq env c data).1 := by
  rcases leaderHandleSubmitReq_cases env c data with ⟨-, failed⟩ | ⟨stores, submitted, rfl, result⟩
  · rwa [failed]
  · have taken := early_submitted early env data (room stores)
    rcases result with ⟨-, sent⟩ | ⟨-, executed⟩
    · rw [sent]
      exact taken.uc _ _ ⟨early.nextStamp (room stores), early.toCommit⟩
    · rw [executed]
      exact taken.tryToExecute env

theorem Early.leaderHandleSubmitReq_junk (early : Early c) (env : Env) (data : List UInt8)
    (room : env.storeOk = true → c.highestSeenVs.reqId ≠ 0xFFFFFFFF)
    (junk : DbKey → RequestRecord) :
    (Comp.leaderHandleSubmitReq { env with junk := junk } c data).1 =
      (Comp.leaderHandleSubmitReq env c data).1 := by
  simp only [Comp.leaderHandleSubmitReq]
  by_cases stores : env.storeOk = true
  · rw [if_pos stores, if_pos stores]
    by_cases group : c.groupSize > 1
    · rw [if_pos group, if_pos group]
      rfl
    · rw [if_neg group, if_neg group]
      exact (early_submitted early env data (room stores)).tryToExecute_junk
        { env with junk := junk } env
  · rw [if_neg stores, if_neg stores]

/-- The retransmission starts inside view 1. -/
theorem Early.retransmitStart (early : Early c) : c.retransmitStart.viewId = 1 := by
  have order := viewStampComp_neg ⟨c.curView.viewId, 0⟩ c.highestCommittedVs
  simp only [Comp.retransmitStart, viewStampInc]
  split
  next below => exact early.committed
  next reached =>
    have committed_key := vstol_toNat c.highestCommittedVs
    rw [early.committed, UInt32.toNat_one] at committed_key
    have view_key := vstol_boundary c.curView.viewId
    have view := early.view
    apply UInt32.toNat_inj.mp
    show c.curView.viewId.toNat = 1
    omega

/-- The keys it looks at lie outside view 0. -/
private theorem retransmit_outside (early : Early c) (vs : ViewStamp)
    (low : (vstol c.retransmitStart).toNat ≤ (vstol vs).toNat) : vs.viewId ≠ 0 := by
  have start_key := vstol_toNat c.retransmitStart
  rw [early.retransmitStart, UInt32.toNat_one] at start_key
  have vs_key := vstol_toNat vs
  have req_lt := vs.reqId.toNat_lt
  intro zero
  rw [zero, UInt32.toNat_zero] at vs_key
  omega

theorem Early.retransmit (early : Early c) (env : Env) : Early (retransmit env c) := by
  obtain ⟨sent, fault, resent, result, -⟩ := retransmit_spec env c
  rw [result]
  have again : Early { c with upCalls := c.upCalls ++ sent } := early.sends sent fun call member => by
    obtain ⟨vs, value, low, -, found, rfl⟩ := resent call member
    exact ⟨(early.request vs value found (retransmit_outside early vs low)).1, early.toCommit⟩
  exact again.moves c.highestSeenVs c.highestToCommitVs c.highestCommittedVs fault early.seen
    early.toCommit early.committed

theorem Early.retransmit_junk (early : Early c) (env env' : Env) :
    Comp.retransmit env c = Comp.retransmit env' c := by
  have same : ∀ index c', (vstol c.retransmitStart).toNat ≤ index →
      index ≤ (vstol c.highestSeenVs).toNat → (∃ calls, c' = { c with upCalls := calls }) →
      retransmitStep env index c' = retransmitStep env' index c' := by
    rintro index c' low high ⟨calls, rfl⟩
    have bound := (vstol c.highestSeenVs).toNat_lt
    have key : (vstol (ltovs (UInt64.ofNat index))).toNat = index := by
      rw [vstol_ltovs, UInt64.toNat_ofNat', Nat.mod_eq_of_lt (by omega)]
    have outside := retransmit_outside early (ltovs (UInt64.ofNat index)) (by omega)
    simp only [retransmitStep]
    cases found : c.db.retrieveRecord (UInt64.ofNat index) with
    | none => rfl
    | some value =>
      have stored : c.stored (ltovs (UInt64.ofNat index)) = some value := by
        rw [Comp.stored, vstol_ltovs, found]
      simp only [early.asRequest _ value stored outside (env.junk (UInt64.ofNat index))
        (env'.junk (UInt64.ofNat index))]
  have kept : ∀ index c' c'', (∃ calls, c' = { c with upCalls := calls }) →
      retransmitStep env index c' = .next c'' → ∃ calls, c'' = { c with upCalls := calls } := by
    rintro index c' c'' ⟨calls, rfl⟩ stepped
    simp only [retransmitStep] at stepped
    split at stepped
    next missing => cases stepped
    next value found =>
      split at stepped
      next quorum =>
        cases stepped
        exact ⟨calls, rfl⟩
      next short =>
        cases stepped
        exact ⟨_, rfl⟩
  simp only [Comp.retransmit]
  rw [forInclusive_congr (fun c' => ∃ calls, c' = { c with upCalls := calls }) 64 _ _ _
    (retransmitStep env') c ⟨c.upCalls, rfl⟩ same
    (fun index c' c'' _ _ before stepped => kept index c' c'' before stepped)]

theorem Early.consensusMakeProgress (early : Early c) (env : Env) :
    Early (consensusMakeProgress env c) := by
  rw [Comp.consensusMakeProgress]
  split
  next secondary => exact early
  next leader =>
    have scanned := early.leaderTryToExecute env
    generalize Comp.leaderTryToExecute env c = c' at scanned
    simp only
    split
    next faulty => exact scanned
    next running =>
      have resent := scanned.retransmit env
      split
      next faulty => exact resent
      next running => exact resent.uc _ _ resent.committed

theorem Early.consensusMakeProgress_junk (early : Early c) (env env' : Env) :
    Comp.consensusMakeProgress env c = Comp.consensusMakeProgress env' c := by
  have scanned := early.leaderTryToExecute env'
  rw [Comp.consensusMakeProgress, Comp.consensusMakeProgress, early.leaderTryToExecute_junk env env']
  generalize Comp.leaderTryToExecute env' c = c' at scanned
  simp only [scanned.retransmit_junk env env']

/-- From view 0 a component enters view 1, whose boundary is not written. -/
theorem Early.updateView (early : Early c) (env : Env) (newViewInfo : View)
    (running : c.fault = none) (first : c.curView.viewId = 0) :
    Early (updateView env c newViewInfo) := by
  rcases updateView_cases env c newViewInfo running with
    ⟨ignored, -⟩ | ⟨successor, ⟨-, failed⟩ | entered⟩
  · rwa [ignored]
  · rw [failed]
    exact early.fail _
  · have view : newViewInfo.viewId = 1 := by
      rw [first] at successor
      exact successor.symm
    have unwritten : boundaryDb env c newViewInfo = c.db := if_pos view
    rw [entered, unwritten]
    refine ⟨?_, view, view, view, early.stored, early.calls, early.delivered⟩
    show newViewInfo.viewId.toNat ≤ 1
    rw [view, UInt32.toNat_one]

theorem Early.acceptorUpdateRecord (early : Early c) (nextView : UInt32) (record : AcceptorRecord)
    (positive : nextView ≠ 0) : Early (c.acceptorUpdateRecord nextView record) := by
  refine ⟨early.view, early.seen, early.toCommit, early.committed, ?_, early.calls,
    early.delivered⟩
  intro vs value found
  simp only [Comp.stored, Comp.acceptorUpdateRecord, acceptorKey,
    Database.retrieveRecord_storeRecord, vstol_inj] at found
  split at found
  next same =>
    subst same
    obtain rfl := Option.some.inj found
    exact ⟨rfl, positive⟩
  next different => exact early.stored vs value found

/-- A call that keeps a component early: it brings well-typed messages, numbers no request 0 and
leaves view 0 only. -/
structure EarlyCall (c : Comp) (e : Env × CompEvent) : Prop where
  received : ∀ msg, e.2 = .message msg → EarlyMsg msg
  numbered : c.taken e ≠ none → c.highestSeenVs.reqId ≠ 0xFFFFFFFF
  entered : ∀ newViewInfo, e.2 = .updateView newViewInfo → c.curView.viewId = 0
  electing : ∀ nextView record, e.2 = .acceptorUpdateRecord nextView record → nextView ≠ 0

theorem EarlyCall.submit {env : Env} {data : List UInt8} (call : EarlyCall c (env, .submit data))
    (leader : c.myRole = .leader) (stores : env.storeOk = true) :
    c.highestSeenVs.reqId ≠ 0xFFFFFFFF :=
  call.numbered (by simp [taken, leader, stores])

theorem EarlyCall.forward {env : Env} {nodeId : NodeId} {data : List UInt8}
    (call : EarlyCall c (env, .message (.forwardReq nodeId data))) (leader : c.myRole = .leader)
    (stores : env.storeOk = true) : c.highestSeenVs.reqId ≠ 0xFFFFFFFF :=
  call.numbered (by simp [taken, leader, stores])

theorem Early.handle (early : Early c) (running : c.fault = none) (e : Env × CompEvent)
    (call : EarlyCall c e) : Early (handle c e) := by
  obtain ⟨env, event⟩ := e
  cases event with
  | message msg =>
    have typed := call.received msg rfl
    cases msg with
    | acceptReq msgVs reqCanbeExed nodeId record =>
      have stored := early.storeAcceptReq env msgVs reqCanbeExed nodeId record typed.1 typed.2
      exact stored.tryToExecute env
    | acceptAck msgVs nodeId => exact (early.storeAcceptAck env msgVs nodeId typed).tryToExecute env
    | missingReq nodeId missingVs => exact early.handleMissingReq env nodeId missingVs typed
    | missingAck nodeId missingVs record =>
      exact early.handleMissingAck env missingVs record typed
    | forceExec nodeId highestCommittedOp =>
      exact early.handleForceExec env nodeId highestCommittedOp typed
    | forwardReq nodeId data =>
      simp only [Comp.handle, consensusHandleMsg, handleForwardReq]
      split
      next secondary => exact early
      next leader => exact early.leaderHandleSubmitReq env data (call.forward (not_not.mp leader))
  | submit data =>
    simp only [Comp.handle, consensusSubmitRequest]
    split
    next leader => exact early.leaderHandleSubmitReq env data (call.submit leader)
    next secondary => exact early.uc _ _ trivial
  | makeProgress => exact early.consensusMakeProgress env
  | updateView newViewInfo => exact early.updateView env newViewInfo running (call.entered _ rfl)
  | acceptorUpdateRecord nextView record =>
    exact early.acceptorUpdateRecord nextView record (call.electing _ _ rfl)

/-- What memory holds behind a record is never looked at. -/
theorem Early.handle_junk (early : Early c) (env : Env) (event : CompEvent)
    (call : EarlyCall c (env, event)) (junk : DbKey → RequestRecord) :
    Comp.handle c ({ env with junk := junk }, event) = Comp.handle c (env, event) := by
  cases event with
  | message msg =>
    have typed := call.received msg rfl
    cases msg with
    | acceptReq msgVs reqCanbeExed nodeId record =>
      have stored := early.storeAcceptReq env msgVs reqCanbeExed nodeId record typed.1 typed.2
      exact stored.tryToExecute_junk { env with junk := junk } env
    | acceptAck msgVs nodeId =>
      have acked := early.storeAcceptAck env msgVs nodeId typed
      simp only [Comp.handle, consensusHandleMsg, handleAcceptAck,
        early.storeAcceptAck_junk env msgVs nodeId typed junk]
      exact acked.tryToExecute_junk { env with junk := junk } env
    | missingReq nodeId missingVs => exact early.handleMissingReq_junk env nodeId missingVs typed junk
    | missingAck nodeId missingVs record =>
      exact early.handleMissingAck_junk env missingVs record typed junk
    | forceExec nodeId highestCommittedOp =>
      exact early.handleForceExec_junk env nodeId highestCommittedOp typed junk
    | forwardReq nodeId data =>
      simp only [Comp.handle, consensusHandleMsg, handleForwardReq]
      split
      next secondary => rfl
      next leader =>
        exact early.leaderHandleSubmitReq_junk env data (call.forward (not_not.mp leader)) junk
  | submit data =>
    simp only [Comp.handle, consensusSubmitRequest]
    split
    next leader => exact early.leaderHandleSubmitReq_junk env data (call.submit leader) junk
    next secondary => rfl
  | makeProgress => exact early.consensusMakeProgress_junk { env with junk := junk } env
  | updateView newViewInfo => rfl
  | acceptorUpdateRecord nextView record => rfl

theorem init_early (seed : Bool) (nodeId groupSize : ℕ) : Early (init seed nodeId groupSize) := by
  refine ⟨?_, rfl, rfl, rfl, ?_, ?_, ?_⟩
  · cases seed with
    | true => exact Nat.le_refl 1
    | false => exact Nat.zero_le 1
  · intro vs value found
    cases found
  · intro call member
    cases member
  · intro delivery member
    cases member

end Early

end Comp

namespace Node

/-! ## Calls of a node -/

/-- The request an event makes the component of the node take, if the database stores it. -/
def taken (node : Node) : NodeEnv × NodeEvent → Option (List UInt8)
  | (env, .message (.consensus msg)) =>
    if node.state = .active then node.comp.taken (env.toEnv, .message msg) else none
  | (env, .message (.requestSubmit data)) =>
    if node.state = .active then node.comp.taken (env.toEnv, .submit data) else none
  | _ => none

/-- The event does not move the node to a view after the first, and numbers no request 0. -/
def KeepsFirstView (node : Node) (e : NodeEnv × NodeEvent) : Prop :=
  (node.Enters e.2 → node.viewId = 0) ∧
    (node.taken e ≠ none → node.comp.highestSeenVs.reqId ≠ 0xFFFFFFFF)

instance (node : Node) (e : NodeEnv × NodeEvent) : Decidable (node.KeepsFirstView e) :=
  inferInstanceAs (Decidable ((_ → _) ∧ (_ → _)))

/-- The bytes behind a record shorter than a request make no difference to the call: whatever it
reads as a `request_record` is one. -/
def ReadsRecords (node : Node) (e : NodeEnv × NodeEvent) : Prop :=
  ∀ junk, node.dispatch ({ e.1 with junk := junk }, e.2) = node.dispatch e

section Calls

variable {node node' : Node}

theorem HasComp.early {c : Comp} (has : HasComp c node) (early : c.Early) : node.comp.Early := by
  obtain ⟨fault, same⟩ := has
  rw [same]
  exact early.moves c.highestSeenVs c.highestToCommitVs c.highestCommittedVs fault early.seen
    early.toCommit early.committed

theorem earlyCall (early : node.comp.Early) (timed : node.Timed) (e : NodeEnv × NodeEvent)
    (keeps : node.KeepsFirstView e)
    (received : ∀ msg, e.2 = .message (.consensus msg) → Comp.EarlyMsg msg) (event : CompEvent)
    (calls : node.Calls e.2 event) : node.comp.EarlyCall (e.1.toEnv, event) := by
  obtain ⟨env, event'⟩ := e
  obtain ⟨first, numbered⟩ := keeps
  cases calls with
  | message msg active =>
    refine ⟨fun msg' same => ?_, fun takes => numbered ?_, by simp, by simp⟩
    · obtain rfl := CompEvent.message.inj same
      exact received msg rfl
    · simpa only [taken, if_pos active] using takes
  | submit data active =>
    refine ⟨by simp, fun takes => numbered ?_, by simp, by simp⟩
    simpa only [taken, if_pos active] using takes
  | makeProgress leads => exact ⟨by simp, fun takes => absurd rfl takes, by simp, by simp⟩
  | updateView _ newViewInfo enters successor =>
    exact ⟨by simp, fun takes => absurd rfl takes, fun _ _ => first enters, by simp⟩
  | acceptorUpdateRecord _ record electing =>
    refine ⟨by simp, fun takes => absurd rfl takes, by simp, ?_⟩
    rintro nextView _ same zero
    -- the election is for the view after 0 or 1
    have next := timed.election electing
    have view := early.view
    have zero' := congrArg UInt32.toNat ((CompEvent.acceptorUpdateRecord.inj same).1.trans zero)
    rw [next, UInt32.toNat_add, UInt32.toNat_one, UInt32.toNat_zero, Node.viewId] at zero'
    omega

theorem early_dispatch (early : node.comp.Early) (running : node.comp.fault = none)
    (e : NodeEnv × NodeEvent)
    (allowed : ∀ event, node.Calls e.2 event → node.comp.EarlyCall (e.1.toEnv, event)) :
    (node.dispatch e).comp.Early := by
  rcases dispatch_calls node e running with alone | ⟨event, calls, handled⟩
  · exact alone.early early
  · exact handled.early (early.handle running _ (allowed event calls))

theorem readsRecords (early : node.comp.Early) (e : NodeEnv × NodeEvent)
    (allowed : ∀ event, node.Calls e.2 event → node.comp.EarlyCall (e.1.toEnv, event)) :
    node.ReadsRecords e := by
  obtain ⟨env, event⟩ := e
  intro junk
  cases event with
  | message msg =>
    cases msg with
    | pingReq sender view timestamp => rfl
    | pingAck sender view timestamp => rfl
    | consensus msg =>
      simp only [dispatch, handleMsg]
      split
      next active =>
        have same := early.handle_junk env.toEnv _ (allowed _ (.message msg active)) junk
        exact congrArg (fun comp => { node with comp := comp }) same
      next inactive => rfl
    | requestSubmit data =>
      simp only [dispatch, handleMsg]
      split
      next active =>
        have same := early.handle_junk env.toEnv _ (allowed _ (.submit data active)) junk
        exact congrArg (fun comp => { node with comp := comp }) same
      next inactive => rfl
    | leaderElection msg data => rfl
  | leaderPing => rfl
  | expectPing => rfl
  | makeProgress =>
    have same := early.consensusMakeProgress_junk { env with junk := junk }.toEnv env.toEnv
    simp only [dispatch, makeProgressOn, same]
  | electionTimeout => rfl

end Calls

end Node

/-! ## Nodes with their proxies -/

/-- A cluster, and next to each node the proxy that shares its database. -/
structure Deployment (n : ℕ) where
  cluster : Cluster n
  proxies : Fin n → Proxy

/-- An event at a node, or one pass of the loop of a proxy. -/
inductive DeploymentEvent (n : ℕ) where
  | node (event : ClusterEvent n)
  | proxy (i : Fin n) (junk : DbKey → RequestRecord)

namespace Deployment

variable {n : ℕ}

/-- `update_state` is called for each stamp the component delivers. -/
def announce (proxy : Proxy) (before after : Comp) : Proxy :=
  (after.delivered.drop before.delivered.length).foldl
    (fun proxy delivery => proxy.updateState (vstol delivery.vs)) proxy

def act (d : Deployment n) : DeploymentEvent n → Deployment n
  | .node e =>
    let cluster := Cluster.act d.cluster e
    let proxy := announce (d.proxies e.1) (d.cluster e.1).comp (cluster e.1).comp
    { cluster := cluster, proxies := Function.update d.proxies e.1 proxy }
  | .proxy i junk =>
    let proxy := (d.proxies i).doActionOnce junk (d.cluster i).comp.db
    { d with proxies := Function.update d.proxies i proxy }

/-- The two threads of a node take turns: a proxy reads the database between any two calls of the
node. -/
def machine (n : ℕ) : Lib.Machine (Deployment n) (DeploymentEvent n) where
  initial d := Cluster.Booted d.cluster ∧ ∀ i, d.proxies i = Proxy.init
  enabled d e := match e with
    | .node e => (Cluster.machine Cluster.Booted).enabled d.cluster e
    | .proxy i _ => (d.proxies i).Behind
  apply := act

instance (d : Deployment n) : ∀ e, Decidable ((machine n).enabled d e)
  | .node e => inferInstanceAs (Decidable ((Cluster.machine Cluster.Booted).enabled d.cluster e))
  | .proxy i _ => inferInstanceAs (Decidable (d.proxies i).Behind)

/-- No node moves to a view after the first, and no leader numbers a request 0. -/
def keepsFirstView : Deployment n → DeploymentEvent n → Prop
  | d, .node e => (d.cluster e.1).KeepsFirstView e.2
  | _, .proxy _ _ => True

instance (d : Deployment n) : ∀ e, Decidable (keepsFirstView d e)
  | .node e => inferInstanceAs (Decidable ((d.cluster e.1).KeepsFirstView e.2))
  | .proxy _ _ => .isTrue trivial

/-- The discipline of the shared database: what lies under each key, and that whoever reads a
value reads it as what it is. A test whether anything is stored reads no type. -/
structure Disciplined (guard : Deployment n → DeploymentEvent n → Prop) (d : Deployment n) :
    Prop where
  holds : ∀ i vs value, (d.cluster i).comp.stored vs = some value → HoldsType vs value
  /-- The consensus component reads request records. -/
  records : ∀ e, guard d (.node e) → (machine n).enabled d (.node e) →
    (d.cluster e.1).ReadsRecords e.2
  /-- `deliver_msg_data` reads request records. -/
  delivered : ∀ i, ∀ delivery ∈ (d.cluster i).comp.delivered, ∀ value,
    (d.cluster i).comp.stored delivery.vs = some value → ∃ record, value = .request record
  /-- `try_to_execute` reads the boundary of the view after the committed stamp's. -/
  boundary : ∀ i value,
    (d.cluster i).comp.stored ⟨(d.cluster i).comp.highestCommittedVs.viewId + 1, 0⟩ = some value →
    ∃ bytes, value = .view bytes
  /-- `leader_election_build_close` reads the record of the node's view. -/
  close : ∀ i value, (d.cluster i).comp.stored ⟨(d.cluster i).viewId, 0⟩ = some value →
    ∃ bytes, value = .view bytes
  /-- The proxy reads request records. -/
  proxies : ∀ i, (d.proxies i).Behind → ∀ value,
    (d.cluster i).comp.db.retrieveRecord (d.proxies i).curRec = some value →
    ∃ record, value = .request record

/-- A proxy that has been announced no key of a view after the first. -/
structure EarlyProxy (proxy : Proxy) : Prop where
  curRec : proxy.curRec = 0 ∨ (ltovs proxy.curRec).viewId ≠ 0
  highestRec : (ltovs proxy.highestRec).viewId.toNat ≤ 1

structure EarlyNode (node : Node) (i : Fin n) : Prop where
  member : node.Member n ((i : ℕ) : Int)
  comp : node.comp.Early

structure EarlyDeployment (d : Deployment n) : Prop where
  nodes : ∀ i, EarlyNode (d.cluster i) i
  proxies : ∀ i, EarlyProxy (d.proxies i)

theorem EarlyProxy.updateState {proxy : Proxy} (early : EarlyProxy proxy) (vs : ViewStamp)
    (request : Comp.FirstView vs) : EarlyProxy (proxy.updateState (vstol vs)) := by
  constructor
  · rw [proxy.updateState_curRec]
    exact early.curRec
  · rcases proxy.updateState_highestRec (vstol vs) with same | same
    · rw [same]
      exact early.highestRec
    · rw [same, ltovs_vstol, request.1, UInt32.toNat_one]

theorem EarlyProxy.announce {proxy : Proxy} (early : EarlyProxy proxy) (before after : Comp)
    (delivers : ∀ delivery ∈ after.delivered, Comp.FirstView delivery.vs) :
    EarlyProxy (announce proxy before after) := by
  have fresh : ∀ delivery ∈ after.delivered.drop before.delivered.length,
      Comp.FirstView delivery.vs := fun delivery member =>
    delivers delivery (List.mem_of_mem_drop member)
  simp only [Deployment.announce]
  generalize after.delivered.drop before.delivered.length = deliveries at fresh
  induction deliveries generalizing proxy with
  | nil => exact early
  | cons delivery rest ih =>
    have first := early.updateState delivery.vs (fresh delivery List.mem_cons_self)
    rw [List.foldl_cons]
    exact ih first fun other member => fresh other (List.mem_cons_of_mem _ member)

/-- What the proxy reads is a request: nothing lies under key 0. -/
theorem EarlyProxy.request {proxy : Proxy} (early : EarlyProxy proxy) {c : Comp} (comp : c.Early)
    (value : DbValue) (found : c.db.retrieveRecord proxy.curRec = some value) :
    (ltovs proxy.curRec).viewId ≠ 0 ∧ ∃ record, value = .request record := by
  have stored : c.stored (ltovs proxy.curRec) = some value := by
    rw [Comp.stored, vstol_ltovs, found]
  rcases early.curRec with zero | outside
  · have kind := comp.stored _ value stored
    have first : ltovs 0 = ⟨0, 0⟩ := by decide
    rw [zero, first] at kind
    cases value with
    | request record => exact absurd kind.1 (by decide)
    | view bytes => exact kind.elim
    | acceptor record => exact absurd rfl kind.2
  · exact ⟨outside, (comp.request _ value stored outside).2⟩

private theorem outside_of_le {key key' : DbKey} (outside : (ltovs key).viewId ≠ 0)
    (order : key.toNat ≤ key'.toNat) : (ltovs key').viewId ≠ 0 := by
  have view := ltovs_viewId_toNat key
  have view' := ltovs_viewId_toNat key'
  intro zero
  rw [zero, UInt32.toNat_zero] at view'
  exact outside (UInt32.toNat_inj.mp (by rw [UInt32.toNat_zero]; omega))

theorem EarlyProxy.doActionOnce {proxy : Proxy} (early : EarlyProxy proxy) {c : Comp}
    (comp : c.Early) (behind : proxy.Behind) (junk : DbKey → RequestRecord) :
    EarlyProxy (proxy.doActionOnce junk c.db) := by
  have bound := early.highestRec
  rw [ltovs_viewId_toNat] at bound
  have reached : proxy.curRec.toNat ≤ proxy.highestRec.toNat := UInt64.le_iff_toNat_le.mp behind
  have kept := proxy.doActionOnce_highestRec junk c.db
  constructor
  · right
    cases found : c.db.retrieveRecord proxy.curRec with
    | none =>
      have next := proxy.crossView_curRec (by omega)
      have view := ltovs_viewId_toNat proxy.crossView.curRec
      rw [proxy.doActionOnce_none junk c.db found]
      intro zero
      rw [zero, UInt32.toNat_zero, next] at view
      omega
    | some value =>
      have outside := (early.request comp value found).1
      rw [proxy.doActionOnce_some junk c.db value found]
      refine outside_of_le outside ?_
      rw [UInt64.toNat_add, UInt64.toNat_one, Nat.mod_eq_of_lt (by omega)]
      exact Nat.le_succ _
  · rw [kept]
    exact early.highestRec

theorem EarlyDeployment.node_calls {d : Deployment n} (early : EarlyDeployment d)
    (e : ClusterEvent n) (keeps : (d.cluster e.1).KeepsFirstView e.2)
    (enabled : (Cluster.machine Cluster.Booted).enabled d.cluster e) (event : CompEvent)
    (calls : (d.cluster e.1).Calls e.2.2 event) :
    (d.cluster e.1).comp.EarlyCall (e.2.1.toEnv, event) := by
  have acting := early.nodes e.1
  refine Node.earlyCall acting.comp acting.member.timed e.2 keeps ?_ event calls
  intro msg isMsg
  have sent := enabled.2
  rw [isMsg] at sent
  obtain ⟨source, ⟨address, built⟩, member, -, received⟩ := sent
  have first := (early.nodes source).comp.calls _ member
  cases received with
  | whole => exact first
  | short => exact first

theorem EarlyDeployment.act {d : Deployment n} (early : EarlyDeployment d)
    (e : DeploymentEvent n) (keeps : keepsFirstView d e) (enabled : (machine n).enabled d e) :
    EarlyDeployment (act d e) := by
  cases e with
  | node e =>
    have acting := early.nodes e.1
    have acted : EarlyNode (Cluster.act d.cluster e e.1) e.1 := by
      rw [Cluster.act_self]
      exact ⟨acting.member.dispatch e.2 enabled.1, Node.early_dispatch acting.comp enabled.1.1
        e.2 (early.node_calls e keeps enabled)⟩
    constructor
    · intro i
      by_cases actor : i = e.1
      · subst actor
        exact acted
      · show EarlyNode (Cluster.act d.cluster e i) i
        rw [Cluster.act_other d.cluster e i actor]
        exact early.nodes i
    · intro i
      by_cases actor : i = e.1
      · subst actor
        simp only [Deployment.act, Function.update_self]
        exact (early.proxies e.1).announce _ _ acted.comp.delivered
      · simp only [Deployment.act, Function.update_of_ne actor]
        exact early.proxies i
  | proxy i junk =>
    refine ⟨early.nodes, fun j => ?_⟩
    by_cases actor : j = i
    · subst actor
      simp only [Deployment.act, Function.update_self]
      exact (early.proxies j).doActionOnce (early.nodes j).comp enabled junk
    · simp only [Deployment.act, Function.update_of_ne actor]
      exact early.proxies j

theorem early_of_reaches (d : Deployment n) (reached : (machine n).Reaches keepsFirstView d) :
    EarlyDeployment d := by
  apply reached.invariant
  · rintro d ⟨booted, started⟩
    constructor
    · intro i
      obtain ⟨seed, expectPingTimeval, now, env, same⟩ := booted i
      refine ⟨booted.member i, ?_⟩
      rw [same]
      exact Comp.init_early seed i n
    · intro i
      rw [started i]
      exact ⟨.inl rfl, Nat.zero_le 1⟩
  · exact fun d e early keeps enabled => early.act e keeps enabled

/-- While no node moves to a view after the first and no request is numbered 0, every key holds
its kind of record and everything is read as what it is. -/
theorem database_types (n : ℕ) (d : Deployment n)
    (reached : (machine n).Reaches keepsFirstView d) : Disciplined keepsFirstView d := by
  have early := early_of_reaches d reached
  have boundary : ∀ i (v : UInt32) value, (d.cluster i).comp.stored ⟨v, 0⟩ = some value →
      ∃ bytes, value = .view bytes := by
    -- no request and no acceptor lies at request 0
    intro i v value found
    have kind := (early.nodes i).comp.stored _ value found
    cases value with
    | request record => exact absurd rfl kind.2
    | view bytes => exact ⟨bytes, rfl⟩
    | acceptor record => exact absurd rfl kind.2
  exact {
    holds := fun i vs value found => ((early.nodes i).comp.stored vs value found).holdsType
    records := fun e keeps enabled =>
      Node.readsRecords (early.nodes e.1).comp e.2 (early.node_calls e keeps enabled)
    delivered := fun i delivery member value found => by
      have request := (early.nodes i).comp.delivered delivery member
      exact ((early.nodes i).comp.request _ value found request.outside).2
    boundary := fun i value found => boundary i _ value found
    close := fun i value found => boundary i _ value found
    proxies := fun i _ value found =>
      ((early.proxies i).request (early.nodes i).comp value found).2 }

/-! ## Runs on fixed events -/

def booted : Deployment 3 := ⟨Cluster.booted, fun _ => Proxy.init⟩

theorem booted_reaches (guard : Deployment 3 → DeploymentEvent 3 → Prop)
    (run : List (DeploymentEvent 3)) (accepted : (machine 3).Accepts guard booted run) :
    (machine 3).Reaches guard (run.foldl act booted) :=
  ⟨booted, ⟨Cluster.booted_starts, fun _ => rfl⟩, accepted.run⟩

/-- The three nodes join view 1 and node 0 leads it: it numbers a request, node 1 stores it, the
leader delivers it and its proxy acts on it. -/
def firstRequest : List (DeploymentEvent 3) :=
  Cluster.joins.map .node ++
    [.node (0, Node.lateEnv, .message (.requestSubmit [7])),
      .node (1, Node.lateEnv, .message (.consensus
        (.acceptReq ⟨1, 1⟩ ⟨1, 0⟩ 0 ⟨⟨9, 0⟩, 0, 1, [7]⟩))),
      .node (0, Node.lateEnv, .message (.consensus (.acceptAck ⟨1, 1⟩ 1))),
      .proxy 0 Node.lateEnv.junk, .proxy 0 Node.lateEnv.junk]

theorem first_request_typed : Disciplined keepsFirstView (firstRequest.foldl act booted) :=
  database_types 3 _ (booted_reaches keepsFirstView firstRequest (by decide))

/-- Node 2 hears that node 1 is elected and answers with its range of undecided requests. -/
def closes : List (ClusterEvent 3) :=
  [(2, Node.lateEnv, .message (.leaderElection (Cluster.announcement 1 1) [])),
    (1, Node.lateEnv, .message (.leaderElection ⟨.announceAck, 2, 2, 0, 0, 1, 0, 0⟩ []))]

/-- Nodes 1 and 2 elect node 1, which closes the election and stores the boundary of view 2. -/
def secondView : List (DeploymentEvent 3) :=
  (Cluster.joins ++ Cluster.decides ++ closes).map .node

/-- What it stores is the memory at the address of a pointer. -/
theorem boundary_not_a_view : ¬ ∀ (n : ℕ) (d : Deployment n),
    (machine n).Reaches Lib.Machine.anything d → Disciplined Lib.Machine.anything d := by
  intro claim
  have reached := booted_reaches Lib.Machine.anything secondView (by decide)
  have stored : ((secondView.foldl act booted).cluster 1).comp.stored ⟨2, 0⟩ =
      some (.view ⟨0, 0, 0⟩) := by decide
  have kind := (claim 3 _ reached).holds 1 ⟨2, 0⟩ _ stored
  exact absurd kind.2.2 (by decide)

end Deployment

end LibeventPaxos
