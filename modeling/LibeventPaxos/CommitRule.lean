import LibeventPaxos.DeliveryOrder
import LibeventPaxos.LogCompleteness
import LibeventPaxos.QuorumBits

/-!
The commit rule over any number of view changes. A commit point moves over a request only when a
quorum has acknowledged it, followers learn commit points from leaders only, and nothing is
delivered that is not stored below a commit point.
-/
namespace LibeventPaxos

open Lib

namespace Comp

/-! ## Commit points -/

/-- All requests up to a commit point, in its view. -/
def UpTo (B : ViewStamp → Prop) (point : ViewStamp) : Prop :=
  ∀ vs, vs.viewId = point.viewId → vs.reqId ≠ 0 → vs.reqId.toNat ≤ point.reqId.toNat → B vs

/-- All requests up to the commit point a message carries, if it carries one. -/
def PointOf (B : ViewStamp → Prop) : ConsensusMsg → Prop
  | .acceptReq _ reqCanbeExed _ _ => UpTo B reqCanbeExed
  | .forceExec _ highestCommittedOp => UpTo B highestCommittedOp
  | _ => True

/-- A message is sent after the commit point it carries is reached, and after the request it
acknowledges is stored. -/
structure Speaks (B : ViewStamp → Prop) (c : Comp) (msg : ConsensusMsg) : Prop where
  point : PointOf B msg
  stores : ∀ vs nodeId, msg = .acceptAck vs nodeId → c.stored vs ≠ none

/-- A call that leaves the commit point above requests of `B` only, delivers requests of `B` that
are stored, and says no more than that. -/
structure Commits (B : ViewStamp → Prop) (c c' : Comp) : Prop where
  point : UpTo B c'.highestToCommitVs
  delivers : ∃ fresh, c'.delivered = c.delivered ++ fresh ∧ ∀ d ∈ fresh,
    IsRequest d.vs ∧ B d.vs ∧ c'.stored d.vs ≠ none ∧ d.data = c'.payloadAt d.vs
  sends : ∃ sent, c'.upCalls = c.upCalls ++ sent ∧ ∀ call ∈ sent, Speaks B c' call.2
  /-- A call that delivers returns. -/
  returns : c'.delivered = c.delivered ∨ c'.fault = none

section Commits

variable {B B' : ViewStamp → Prop} {P : ViewStamp → RequestRecord → Prop} {c c' before : Comp}

theorem UpTo.mono {point : ViewStamp} (upTo : UpTo B point) (implies : ∀ vs, B vs → B' vs) :
    UpTo B' point :=
  fun vs view positive below => implies vs (upTo vs view positive below)

/-- No request lies up to the start of a view. -/
theorem upTo_start (B : ViewStamp → Prop) (viewId : UInt32) : UpTo B ⟨viewId, 0⟩ := by
  intro vs _ positive below
  exact absurd (UInt32.toNat_inj.mp (Nat.le_zero.mp below)) positive

theorem PointOf.mono {msg : ConsensusMsg} (point : PointOf B msg) (implies : ∀ vs, B vs → B' vs) :
    PointOf B' msg := by
  cases msg with
  | acceptReq msgVs reqCanbeExed nodeId record => exact UpTo.mono point implies
  | forceExec nodeId highestCommittedOp => exact UpTo.mono point implies
  | _ => trivial

/-- A call that delivers nothing. -/
theorem Commits.quiet (upTo : UpTo B c'.highestToCommitVs) (delivered : c'.delivered = c.delivered)
    (sent : List (Int × ConsensusMsg)) (calls : c'.upCalls = c.upCalls ++ sent)
    (speaks : ∀ call ∈ sent, Speaks B c' call.2) : Commits B c c' :=
  { point := upTo
    delivers := ⟨[], by rw [delivered, List.append_nil], by simp⟩
    sends := ⟨sent, calls, speaks⟩
    returns := .inl delivered }

theorem Commits.refl (upTo : UpTo B c.highestToCommitVs) : Commits B c c :=
  .quiet upTo rfl [] (List.append_nil _).symm (by simp)

/-- What happens before the execution delivers nothing. -/
theorem Commits.since (commits : Commits B before c') (delivered : before.delivered = c.delivered)
    (sent : List (Int × ConsensusMsg)) (calls : before.upCalls = c.upCalls ++ sent)
    (speaks : ∀ call ∈ sent, Speaks B c' call.2) : Commits B c c' := by
  obtain ⟨later, calls', speaks'⟩ := commits.sends
  refine ⟨commits.point, ?_, ⟨sent ++ later, ?_, ?_⟩, delivered ▸ commits.returns⟩
  · rw [← delivered]
    exact commits.delivers
  · rw [calls', calls, List.append_assoc]
  · intro call member
    rcases List.mem_append.mp member with first | second
    · exact speaks call first
    · exact speaks' call second

/-- What is sent after the execution. -/
theorem Commits.send (commits : Commits B c before) (sent : List (Int × ConsensusMsg))
    (speaks : ∀ call ∈ sent, Speaks B before call.2) :
    Commits B c { before with upCalls := before.upCalls ++ sent } := by
  obtain ⟨earlier, calls, speaks'⟩ := commits.sends
  refine ⟨commits.point, commits.delivers, ⟨earlier ++ sent, ?_, ?_⟩, commits.returns⟩
  · simp only [calls, List.append_assoc]
  · intro call member
    rcases List.mem_append.mp member with first | second
    · exact ⟨(speaks' call first).point, (speaks' call first).stores⟩
    · exact ⟨(speaks call second).point, (speaks call second).stores⟩

/-! ## Execution -/

/-- Requests for missing records carry no commit point. -/
private theorem OnlyMissingReqs.speaks {missing : List (Int × ConsensusMsg)}
    (only : c.OnlyMissingReqs missing) : ∀ call ∈ missing, Speaks B c' call.2 := by
  intro call member
  obtain ⟨vs, rfl⟩ := only call member
  exact ⟨trivial, by simp⟩

/-- One of the deliveries made after a stamp. -/
private theorem mem_deliveriesAt {vs : ViewStamp} {n : ℕ} {d : Delivery}
    (member : d ∈ c.deliveriesAt (stampsAfter vs n)) :
    ∃ i, i < n ∧ d.vs = stampAfter vs (i + 1) ∧ d.data = c.payloadAt d.vs := by
  simp only [deliveriesAt, stampsAfter, List.map_map, List.mem_map, List.mem_range] at member
  obtain ⟨i, less, rfl⟩ := member
  exact ⟨i, less, rfl, rfl⟩

/-- A secondary delivers stored requests up to its commit point. -/
theorem Confined.commits (confined : c.Confined) (env : Env) (secondary : c.myRole ≠ .leader)
    (upTo : UpTo B c.highestToCommitVs) : Commits B c (tryToExecute env c) := by
  obtain ⟨n, missing, only, executed, reaches, other⟩ := executeCommitted_spec c confined
  have result : tryToExecute env c = c.progressed (stampAfter c.highestCommittedVs n)
      c.highestToCommitVs n missing none := by
    simp only [tryToExecute, if_neg confined.positive, if_neg secondary, confined.running,
      Option.isSome_none, Bool.false_eq_true, if_false, executed]
  rw [result]
  refine ⟨upTo, ⟨c.deliveriesAt (stampsAfter c.highestCommittedVs n), rfl, ?_⟩, ⟨missing, rfl,
    only.speaks⟩, .inr rfl⟩
  intro d member
  obtain ⟨i, less, vs, data⟩ := mem_deliveriesAt member
  rw [vs] at data ⊢
  -- something is delivered, so the commit point lies in the view
  have sameView : c.highestToCommitVs.viewId = c.curView.viewId := by
    by_contra apart
    have nothing := other apart
    omega
  have reached := reaches sameView
  have room := reached.room
  have order := confined.reqId_le sameView
  have toCommit_lt := c.highestToCommitVs.reqId.toNat_lt
  have reqId := stampAfter_reqId c.highestCommittedVs (i + 1) (by omega)
  have view : (stampAfter c.highestCommittedVs (i + 1)).viewId = c.curView.viewId :=
    confined.inView
  have positive : (stampAfter c.highestCommittedVs (i + 1)).reqId ≠ 0 := by
    intro zero
    rw [zero, UInt32.toNat_zero] at reqId
    omega
  refine ⟨⟨?_, positive⟩, upTo _ ?_ positive ?_, reached.present i less, data⟩
  · rw [view]
    exact confined.positive
  · rw [view, sameView]
  · omega

/-- The scan of a leader delivers requests with a quorum. -/
theorem LeadsLog.commits_afterScan (leads : LeadsLog P c) (running : c.fault = none)
    (positive : c.highestSeenVs.viewId ≠ 0) (upTo : UpTo B c.highestToCommitVs)
    (rule : ∀ vs record, P vs record → reachedQuorum record c.groupSize = true → B vs) {n : ℕ}
    (reached : c.QuoratePrefix n) : Commits B c (c.afterScan n) := by
  have flag : c.scanFlag = true := (scanFlag_iff c).mpr leads.committed
  have room := reached.room
  have toCommit_lt := c.highestToCommitVs.reqId.toNat_lt
  have seen_lt := c.highestSeenVs.reqId.toNat_lt
  have after := stampAfter_reqId c.highestToCommitVs n (by omega)
  have scanned : ∀ i, i < n → B (stampAfter c.highestToCommitVs (i + 1)) := by
    intro i less
    have key := vstol_stampAfter c.highestToCommitVs (i + 1) (by omega)
    have seen_key := vstol_toNat c.highestSeenVs
    have toCommit_key := vstol_toNat c.highestToCommitVs
    rw [leads.sameView] at seen_key
    obtain ⟨record, found, good⟩ := leads.records (stampAfter c.highestToCommitVs (i + 1))
      (by omega) (by omega)
    obtain ⟨record', same, quorum⟩ := reached.quorate i less
    obtain rfl := DbValue.request.inj (Option.some.inj (found.symm.trans same))
    exact rule _ record good quorum
  refine ⟨?_, ⟨c.deliveriesAt (stampsAfter c.highestCommittedVs n), ?_, ?_⟩,
    ⟨[], (List.append_nil _).symm, by simp⟩, .inr running⟩
  · intro vs view numbered below
    have below' : vs.reqId.toNat ≤ c.highestToCommitVs.reqId.toNat + n := after ▸ below
    rcases Nat.lt_or_ge c.highestToCommitVs.reqId.toNat vs.reqId.toNat with above | old
    · -- the request is the one at its distance from the old commit point
      obtain ⟨i, distance⟩ : ∃ i, vs.reqId.toNat = c.highestToCommitVs.reqId.toNat + (i + 1) :=
        ⟨vs.reqId.toNat - c.highestToCommitVs.reqId.toNat - 1, by omega⟩
      have reqId := stampAfter_reqId c.highestToCommitVs (i + 1) (by omega)
      have same : stampAfter c.highestToCommitVs (i + 1) = vs :=
        ViewStamp.ext_toNat (congrArg UInt32.toNat view).symm (by omega)
      rw [← same]
      exact scanned i (by omega)
    · exact upTo vs view numbered old
  · simp only [Comp.afterScan, flag, if_true]
  · intro d member
    rw [leads.committed] at member
    obtain ⟨i, less, vs, data⟩ := mem_deliveriesAt member
    rw [vs] at data ⊢
    have reqId := stampAfter_reqId c.highestToCommitVs (i + 1) (by omega)
    obtain ⟨record, found, -⟩ := reached.quorate i less
    refine ⟨⟨?_, ?_⟩, scanned i less, ?_, data⟩
    · show c.highestToCommitVs.viewId ≠ 0
      rw [← leads.sameView]
      exact positive
    · intro zero
      rw [zero, UInt32.toNat_zero] at reqId
      omega
    · intro absent
      exact Option.some_ne_none _ (found.symm.trans absent)

/-- A leader between two calls keeps its log and commits what has a quorum. -/
theorem LeadsLog.commits (leads : LeadsLog P c) (env : Env) (leader : c.myRole = .leader)
    (running : c.fault = none) (positive : c.highestSeenVs.viewId ≠ 0)
    (upTo : UpTo B c.highestToCommitVs)
    (rule : ∀ vs record, P vs record → reachedQuorum record c.groupSize = true → B vs) :
    LeadsLog P (Comp.tryToExecute env c) ∧ Commits B c (Comp.tryToExecute env c) := by
  refine ⟨(leads.executes env leader running).1, ?_⟩
  by_cases waiting : c.curView.viewId = 0
  · rw [Comp.tryToExecute, if_pos waiting]
    exact .refl upTo
  · obtain ⟨n, reached, scanned⟩ := leads.tryToExecute env leader running waiting
    rw [scanned]
    exact leads.commits_afterScan running positive upTo rule reached

/-- A view starts with an empty range of committed requests. -/
theorem updateView_commits (env : Env) (newViewInfo : View) (running : c.fault = none)
    (upTo : UpTo B c.highestToCommitVs) : Commits B c (updateView env c newViewInfo) := by
  rcases updateView_cases env c newViewInfo running with
    ⟨ignored, -⟩ | ⟨-, ⟨-, failed⟩ | entered⟩
  · rw [ignored]
    exact .refl upTo
  · rw [failed]
    exact .quiet upTo rfl [] (List.append_nil _).symm (by simp)
  · rw [entered]
    exact .quiet (upTo_start B newViewInfo.viewId) rfl [] (List.append_nil _).symm (by simp)

/-! ## Calls of a secondary -/

/-- What the node takes from the messages it is sent. -/
def Points (B : ViewStamp → Prop) : CompEvent → Prop
  | .message msg => PointOf B msg
  | _ => True

private theorem InOrder.commits (inOrder : before.InOrder) (env : Env)
    (secondary : before.myRole ≠ .leader) (upTo : UpTo B before.highestToCommitVs) :
    Commits B before (Comp.tryToExecute env before) := by
  by_cases waiting : before.curView.viewId = 0
  · rw [Comp.tryToExecute, if_pos waiting]
    exact .refl upTo
  · exact (inOrder.confined waiting).commits env secondary upTo

private theorem InOrder.commits_acceptReq (inOrder : c.InOrder) (env : Env)
    (secondary : c.myRole ≠ .leader) (upTo : UpTo B c.highestToCommitVs)
    (msgVs reqCanbeExed : ViewStamp) (nodeId : NodeId) (origin : RequestRecord)
    (room : msgVs.reqId.toNat < 4294967295) (toCommitRoom : reqCanbeExed.reqId.toNat < 4294967295)
    (kept : msgVs.reqId = 0 → msgVs.viewId.toNat ≤ c.curView.viewId.toNat)
    (told : UpTo B reqCanbeExed) :
    Commits B c (Comp.handleAcceptReq env c msgVs reqCanbeExed nodeId origin) := by
  rw [Comp.handleAcceptReq]
  obtain ⟨seen, toCommit, noted, seenIs, ⟨seenUp, -⟩, toCommitIs, toCommitUp, -⟩ :=
    noteAcceptReq_cases c msgVs reqCanbeExed
  have moved := inOrder.stamps seen toCommit seenUp toCommitUp
    (by rcases seenIs with rfl | rfl; exacts [inOrder.seenRoom, room])
    (by rcases toCommitIs with rfl | rfl; exacts [inOrder.toCommitRoom, toCommitRoom])
  have upTo' : UpTo B toCommit := by
    rcases toCommitIs with rfl | rfl
    · exact upTo
    · exact told
  rcases storeAcceptReq_cases env c msgVs reqCanbeExed nodeId origin with
    ⟨ignored, -⟩ | ⟨-, -, -, ⟨-, failed⟩ | ⟨-, stored⟩⟩
  · rw [ignored]
    exact inOrder.commits env secondary upTo
  · rw [failed, noted]
    exact (moved.commits env secondary upTo').since rfl [] (List.append_nil _).symm (by simp)
  · rw [stored, noted]
    have next := (moved.store msgVs (.request (acceptedRecord env origin)) kept).logs
      (c.upCalls ++ [(nodeId, .acceptAck msgVs c.nodeId)]) c.assigned
    refine (next.commits env secondary upTo').since rfl
      [(nodeId, .acceptAck msgVs c.nodeId)] rfl ?_
    intro call member
    obtain rfl := List.mem_singleton.mp member
    refine ⟨trivial, ?_⟩
    rintro vs sender ⟨⟩
    rw [Comp.stored, (sameRecords_tryToExecute env _).db, Database.retrieveRecord_storeRecord,
      if_pos rfl]
    exact Option.some_ne_none _

/-- A secondary learns commit points and delivers what it has stored up to them. -/
theorem InOrder.secondary_commits (inOrder : c.InOrder) (secondary : c.myRole ≠ .leader)
    (upTo : UpTo B c.highestToCommitVs) (e : Env × CompEvent) (below : ReqIdsBelow c e)
    (kept : BoundaryKept c e) (points : Points B e.2) : Commits B c (Comp.handle c e) := by
  obtain ⟨env, event⟩ := e
  simp only [ReqIdsBelow, reqIds] at below
  cases event with
  | message msg =>
    cases msg with
    | acceptReq msgVs reqCanbeExed nodeId record =>
      exact inOrder.commits_acceptReq env secondary upTo msgVs reqCanbeExed nodeId record
        (below _ (by simp)) (below _ (by simp)) kept points
    | acceptAck msgVs nodeId =>
      have ignored : Comp.storeAcceptAck env c msgVs nodeId = c := by
        rw [Comp.storeAcceptAck, if_pos secondary]
      simp only [Comp.handle, consensusHandleMsg, Comp.handleAcceptAck, ignored]
      exact inOrder.commits env secondary upTo
    | missingReq nodeId missingVs =>
      simp only [Comp.handle, consensusHandleMsg]
      rcases handleMissingReq_cases env c nodeId missingVs with silent | ⟨value, -, answers⟩
      · rw [silent]
        exact .refl upTo
      · rw [answers]
        refine .quiet upTo rfl [(nodeId, _)] rfl ?_
        intro call member
        obtain rfl := List.mem_singleton.mp member
        exact ⟨trivial, by simp⟩
    | missingAck nodeId missingVs record =>
      simp only [Comp.handle, consensusHandleMsg]
      rcases handleMissingAck_cases env c missingVs record with
        ⟨ignored, -⟩ | ⟨-, -, ⟨-, failed⟩ | ⟨-, stored⟩⟩
      · rw [ignored]
        exact .refl upTo
      · rw [failed]
        exact inOrder.commits env secondary upTo
      · rw [stored]
        have next := inOrder.store missingVs (.request (missingRecord env record)) kept
        exact (next.commits env secondary upTo).since rfl [] (List.append_nil _).symm (by simp)
    | forceExec nodeId highestCommittedOp =>
      simp only [Comp.handle, consensusHandleMsg]
      rcases handleForceExec_cases env c nodeId highestCommittedOp with
        ⟨ignored, -⟩ | ⟨-, further, moved⟩
      · rw [ignored]
        exact .refl upTo
      · rw [moved]
        -- the point is that of the message, for which `points` vouches
        have next := inOrder.stamps c.highestSeenVs highestCommittedOp le_rfl further.le
          inOrder.seenRoom (below _ (by simp))
        exact (next.commits env secondary points).since rfl [] (List.append_nil _).symm (by simp)
    | forwardReq nodeId data =>
      simp only [Comp.handle, consensusHandleMsg, handleForwardReq, if_pos secondary]
      exact .refl upTo
  | submit data =>
    simp only [Comp.handle, consensusSubmitRequest, if_neg secondary]
    refine .quiet upTo rfl [(c.curView.leaderId, c.buildForwardReq data)] rfl ?_
    intro call member
    obtain rfl := List.mem_singleton.mp member
    exact ⟨trivial, by simp [buildForwardReq]⟩
  | makeProgress =>
    simp only [Comp.handle, Comp.consensusMakeProgress, if_pos secondary]
    exact .refl upTo
  | updateView newViewInfo => exact updateView_commits env newViewInfo inOrder.running upTo
  | acceptorUpdateRecord nextView record =>
    exact .quiet upTo rfl [] (List.append_nil _).symm (by simp)

/-! ## Calls of a leader -/

private theorem LeadsLog.commits_submit (leads : LeadsLog P c) (env : Env) (data : List UInt8)
    (leader : c.myRole = .leader) (running : c.fault = none)
    (positive : c.highestSeenVs.viewId ≠ 0) (upTo : UpTo B c.highestToCommitVs)
    (rule : ∀ vs record, P vs record → reachedQuorum record c.groupSize = true → B vs)
    (room : env.storeOk = true → c.getNextViewStamp ≠ largestVs)
    (fresh : env.storeOk = true → P c.getNextViewStamp (submitRecord env c data)) :
    LeadsLog P (Comp.leaderHandleSubmitReq env c data).1 ∧
      Commits B c (Comp.leaderHandleSubmitReq env c data).1 := by
  rcases leaderHandleSubmitReq_cases env c data with ⟨-, failed⟩ | ⟨stores, submitted, equal, result⟩
  · rw [failed]
    exact ⟨leads, .refl upTo⟩
  · have taken : LeadsLog P submitted := by
      rw [equal]
      exact leads.submitted env data (room stores) (fresh stores)
    rcases result with ⟨-, sent⟩ | ⟨-, executed⟩
    · rw [sent, equal]
      refine ⟨(equal ▸ taken).sends _, .quiet upTo rfl _ rfl ?_⟩
      intro call member
      obtain rfl := List.mem_singleton.mp member
      exact ⟨upTo, by simp [buildAcceptReq]⟩
    · have scanned := taken.commits (B := B) env (by rw [equal]; exact leader)
        (by rw [equal]; exact running) (by rw [equal]; exact positive) (by rw [equal]; exact upTo)
        (by rw [equal]; exact rule)
      rw [executed]
      refine ⟨scanned.1, scanned.2.since ?_ [] ?_ (by simp)⟩
      · rw [equal]
      · rw [equal, List.append_nil]

private theorem LeadsLog.commits_makeProgress (leads : LeadsLog P c) (env : Env)
    (leader : c.myRole = .leader) (running : c.fault = none)
    (positive : c.highestSeenVs.viewId ≠ 0) (upTo : UpTo B c.highestToCommitVs)
    (rule : ∀ vs record, P vs record → reachedQuorum record c.groupSize = true → B vs) :
    LeadsLog P (Comp.consensusMakeProgress env c) ∧
      Commits B c (Comp.consensusMakeProgress env c) := by
  obtain ⟨n, reached, scanned⟩ := leads.leaderTryToExecute env
  have after := leads.afterScan reached
  have commits := leads.commits_afterScan running positive upTo rule reached
  have fault : (c.afterScan n).fault = none := running
  have resent := after.retransmit_fault env
  obtain ⟨sent, fault', again, result, -⟩ := retransmit_spec env (c.afterScan n)
  rw [result] at resent
  obtain rfl : fault' = none := resent.trans fault
  have final : Comp.consensusMakeProgress env c = { c.afterScan n with
      upCalls := (c.afterScan n).upCalls ++ (sent ++ [(-1, (c.afterScan n).buildForceExec)]) } := by
    rw [Comp.consensusMakeProgress, if_neg (not_not_intro leader), scanned]
    simp only [fault, Option.isSome_none, Bool.false_eq_true, if_false, result, uc, buildForceExec,
      List.append_assoc]
  rw [final]
  refine ⟨after.sends _, commits.send _ ?_⟩
  intro call member
  rcases List.mem_append.mp member with resend | announce
  · obtain ⟨vs, value, -, -, -, rfl⟩ := again call resend
    exact ⟨commits.point, by simp [buildAcceptReq]⟩
  · -- the committed stamp of a leader is its commit point
    obtain rfl := List.mem_singleton.mp announce
    refine ⟨?_, by simp [buildForceExec]⟩
    show UpTo B (c.afterScan n).highestCommittedVs
    rw [after.committed]
    exact commits.point

/-- A leader counts acknowledgements and commits what has a quorum of them. -/
theorem LogNode.leader_commits {n : ℕ} {i : NodeId} (node : LogNode n i c) (leads : LeadsLog P c)
    (leader : c.myRole = .leader) (running : c.fault = none) (upTo : UpTo B c.highestToCommitVs)
    (rule : ∀ vs record, P vs record → reachedQuorum record c.groupSize = true → B vs)
    (e : Env × CompEvent) (keeps : c.KeepsLog e)
    (received : ∀ msg, e.2 = .message msg → ∃ j : Fin n, ((j : ℕ) : Int) ≠ i ∧
      SenderIs (j : ℕ) msg)
    (stays : ∀ newViewInfo, e.2 ≠ .updateView newViewInfo)
    (acked : ∀ msgVs nodeId, e.2 = .message (.acceptAck msgVs nodeId) →
      ∀ record, P msgVs record → P msgVs (updateRecord record nodeId))
    (fresh : ∀ data, c.taken e = some data → P c.getNextViewStamp (submitRecord e.1 c data)) :
    LeadsLog P (Comp.handle c e) ∧ Commits B c (Comp.handle c e) := by
  obtain ⟨env, event⟩ := e
  obtain ⟨current, numbered, -⟩ := keeps
  have positive := node.positive leader
  have own := node.leads leader
  -- requests of the proxy and requests that are forwarded
  have submits : ∀ data, (env.storeOk = true → c.taken (env, event) = some data) →
      LeadsLog P (Comp.leaderHandleSubmitReq env c data).1 ∧
        Commits B c (Comp.leaderHandleSubmitReq env c data).1 := fun data takes =>
    leads.commits_submit env data leader running positive upTo rule
      (fun stores => numbered (by rw [takes stores]; exact Option.some_ne_none data))
      (fun stores => fresh data (takes stores))
  cases event with
  | message msg =>
    obtain ⟨j, other, sender⟩ := received msg rfl
    cases msg with
    | acceptReq msgVs reqCanbeExed nodeId record =>
      -- in its view a leader ignores requests of other nodes, and `current` excludes later views
      obtain rfl : nodeId = (j : ℕ) := sender
      have ignored := storeAcceptReq_ignored env c msgVs reqCanbeExed (j : ℕ) record
        (by rw [own]; exact other) (fun later => current ⟨leader, later⟩)
      simp only [Comp.handle, consensusHandleMsg, Comp.handleAcceptReq, ignored]
      exact leads.commits env leader running positive upTo rule
    | acceptAck msgVs nodeId =>
      -- only here a record gets a bit; that it may have it is what `acked` says
      have counted := leads.storeAcceptAck env msgVs nodeId leader (fun _ _ _ => id)
        (acked msgVs nodeId rfl) (fun _ _ => id)
      simp only [Comp.handle, consensusHandleMsg, Comp.handleAcceptAck]
      rcases storeAcceptAck_cases env c msgVs nodeId with same | ⟨-, -, -, value, -, stored⟩
      · rw [same]
        exact leads.commits env leader running positive upTo rule
      · rw [stored] at counted ⊢
        obtain ⟨log, commits⟩ := counted.commits env leader running positive upTo rule
        exact ⟨log, commits.since rfl [] (List.append_nil _).symm (by simp)⟩
    | missingReq nodeId missingVs =>
      simp only [Comp.handle, consensusHandleMsg]
      rcases handleMissingReq_cases env c nodeId missingVs with silent | ⟨value, -, answers⟩
      · rw [silent]
        exact ⟨leads, .refl upTo⟩
      · rw [answers]
        refine ⟨leads.sends _, .quiet upTo rfl [(nodeId, _)] rfl ?_⟩
        intro call member
        obtain rfl := List.mem_singleton.mp member
        exact ⟨trivial, by simp⟩
    | missingAck nodeId missingVs record =>
      simp only [Comp.handle, consensusHandleMsg]
      rcases handleMissingAck_cases env c missingVs record with
        ⟨ignored, -⟩ | ⟨-, absent, ⟨-, failed⟩ | ⟨-, stored⟩⟩
      · rw [ignored]
        exact ⟨leads, .refl upTo⟩
      · rw [failed]
        exact leads.commits env leader running positive upTo rule
      · rw [stored]
        have kept := leads.storeMissing missingVs (.request (missingRecord env record)) absent
        obtain ⟨log, commits⟩ := kept.commits env leader running positive upTo rule
        exact ⟨log, commits.since rfl [] (List.append_nil _).symm (by simp)⟩
    | forceExec nodeId highestCommittedOp =>
      obtain rfl : nodeId = (j : ℕ) := sender
      simp only [Comp.handle, consensusHandleMsg, Comp.handleForceExec]
      rw [if_pos (by rw [own]; exact other)]
      exact ⟨leads, .refl upTo⟩
    | forwardReq nodeId data =>
      simp only [Comp.handle, consensusHandleMsg, handleForwardReq,
        if_neg (not_not_intro leader)]
      exact submits data fun stores => by simp [taken, leader, stores]
  | submit data =>
    simp only [Comp.handle, consensusSubmitRequest, if_pos leader]
    exact submits data fun stores => by simp [taken, leader, stores]
  | makeProgress => exact leads.commits_makeProgress env leader running positive upTo rule
  | updateView newViewInfo => exact absurd rfl (stays newViewInfo)
  | acceptorUpdateRecord nextView record =>
    exact ⟨leadsLog_acceptorUpdateRecord leads positive nextView record,
      .quiet upTo rfl [] (List.append_nil _).symm (by simp)⟩

/-- Entering a view leaves a leader with an empty log, whatever its records are to be. -/
theorem leadsLog_updateView (running : c.fault = none) (env : Env) (newViewInfo : View)
    (log : c.myRole = .leader → LeadsLog P c)
    (leader : (updateView env c newViewInfo).myRole = .leader) :
    LeadsLog P (updateView env c newViewInfo) := by
  rcases updateView_cases env c newViewInfo running with
    ⟨ignored, -⟩ | ⟨-, ⟨-, failed⟩ | entered⟩
  · rw [ignored] at leader ⊢
    exact log leader
  · rw [failed] at leader ⊢
    have leads := log leader
    exact ⟨leads.sameView, leads.committed, leads.seenRoom, leads.toCommitRoom, leads.records⟩
  · rw [entered]
    have first : (⟨newViewInfo.viewId, 0⟩ : ViewStamp) ≠ largestVs := fun same =>
      absurd (show (0 : UInt32) = 0xFFFFFFFF from congrArg ViewStamp.reqId same) (by decide)
    exact ⟨rfl, rfl, first, first, fun vs above below =>
      absurd (Nat.lt_of_lt_of_le above below) (Nat.lt_irrefl _)⟩

/-! ## Records stay -/

private theorem stored_of_db (same : c'.db = c.db) (vs : ViewStamp) : c'.stored vs = c.stored vs := by
  rw [stored, stored, same]

theorem stored_tryToExecute (env : Env) (c : Comp) (vs : ViewStamp) :
    (tryToExecute env c).stored vs = c.stored vs := stored_of_db (sameRecords_tryToExecute env c).db vs

private theorem storeRecord_keeps (vs other : ViewStamp) (value : DbValue)
    (there : c.stored other ≠ none) (written : c'.db = c.db.storeRecord (vstol vs) value) :
    c'.stored other ≠ none := by
  rw [stored, written, Database.retrieveRecord_storeRecord]
  split
  next same => exact Option.some_ne_none value
  next different => exact there

private theorem leaderHandleSubmitReq_keeps (env : Env) (data : List UInt8) (vs : ViewStamp)
    (there : c.stored vs ≠ none) : (leaderHandleSubmitReq env c data).1.stored vs ≠ none := by
  rcases leaderHandleSubmitReq_cases env c data with ⟨-, failed⟩ | ⟨-, submitted, rfl, result⟩
  · rwa [failed]
  · rcases result with ⟨-, sent⟩ | ⟨-, executed⟩
    · rw [sent]
      exact storeRecord_keeps c.getNextViewStamp vs (.request (submitRecord env c data)) there rfl
    · rw [executed, stored_tryToExecute]
      exact storeRecord_keeps c.getNextViewStamp vs (.request (submitRecord env c data)) there rfl

private theorem message_keeps (env : Env) (msg : ConsensusMsg) (vs : ViewStamp)
    (there : c.stored vs ≠ none) : (consensusHandleMsg env c msg).stored vs ≠ none := by
  cases msg with
  | acceptReq msgVs reqCanbeExed nodeId record =>
    simp only [consensusHandleMsg, handleAcceptReq]
    rw [stored_tryToExecute]
    obtain ⟨seen, toCommit, noted, -⟩ := noteAcceptReq_cases c msgVs reqCanbeExed
    rcases storeAcceptReq_cases env c msgVs reqCanbeExed nodeId record with
      ⟨ignored, -⟩ | ⟨-, -, -, ⟨-, failed⟩ | ⟨-, stored⟩⟩
    · rwa [ignored]
    · rwa [failed, noted]
    · rw [stored]
      exact storeRecord_keeps msgVs vs (.request (acceptedRecord env record)) there rfl
  | acceptAck msgVs nodeId =>
    simp only [consensusHandleMsg, handleAcceptAck]
    rw [stored_tryToExecute]
    rcases storeAcceptAck_cases env c msgVs nodeId with ignored | ⟨-, -, -, value, -, stored⟩
    · rwa [ignored]
    · rw [stored]
      exact storeRecord_keeps msgVs vs
        (.request (updateRecord (value.asRequest (env.junk (vstol msgVs))) nodeId)) there rfl
  | missingReq nodeId missingVs =>
    simp only [consensusHandleMsg, handleMissingReq]
    split
    next nothing => exact there
    next reply built => exact there
  | missingAck nodeId missingVs record =>
    simp only [consensusHandleMsg]
    rcases handleMissingAck_cases env c missingVs record with
      ⟨ignored, -⟩ | ⟨-, -, ⟨-, failed⟩ | ⟨-, stored⟩⟩
    · rwa [ignored]
    · rwa [failed, stored_tryToExecute]
    · rw [stored, stored_tryToExecute]
      exact storeRecord_keeps missingVs vs (.request (missingRecord env record)) there rfl
  | forceExec nodeId highestCommittedOp =>
    simp only [consensusHandleMsg]
    rcases handleForceExec_cases env c nodeId highestCommittedOp with ⟨ignored, -⟩ | ⟨-, -, moved⟩
    · rwa [ignored]
    · rw [moved, stored_tryToExecute]
      exact there
  | forwardReq nodeId data =>
    simp only [consensusHandleMsg, handleForwardReq]
    split
    next secondary => exact there
    next leader => exact leaderHandleSubmitReq_keeps env data vs there

/-- A record stays until the node enters a view after the record's. -/
theorem handle_keeps (running : c.fault = none) (e : Env × CompEvent) (wraps : ¬ WrapsView e.2)
    (vs : ViewStamp) (there : c.stored vs ≠ none) :
    (handle c e).stored vs ≠ none ∨
      vs.viewId.toNat < (handle c e).curView.viewId.toNat := by
  obtain ⟨env, event⟩ := e
  cases event with
  | message msg => exact .inl (message_keeps env msg vs there)
  | submit data =>
    simp only [handle, consensusSubmitRequest]
    split
    next leader => exact .inl (leaderHandleSubmitReq_keeps env data vs there)
    next secondary => exact .inl there
  | makeProgress =>
    refine .inl ?_
    simp only [handle, consensusMakeProgress]
    split
    next secondary => exact there
    next leader =>
      have scanned := sameRecords_leaderTryToExecute env c
      generalize leaderTryToExecute env c = after at scanned
      split
      next faulty => rwa [stored_of_db scanned.db]
      next unharmed =>
        obtain ⟨sent, fault, -, result, -⟩ := retransmit_spec env after
        have same : (retransmit env after).db = c.db := by
          rw [result]
          exact scanned.db
        split
        next faulty => rwa [stored_of_db same]
        next resent =>
          have announced : ((retransmit env after).uc (-1)
              (retransmit env after).buildForceExec).stored vs = c.stored vs := stored_of_db same vs
          rwa [announced]
  | updateView newViewInfo =>
    simp only [handle]
    rcases updateView_cases env c newViewInfo running with
      ⟨ignored, -⟩ | ⟨-, ⟨-, failed⟩ | entered⟩
    · rw [ignored]
      exact .inl there
    · rw [failed]
      exact .inl there
    · rw [entered]
      have lookup : (consensusUpdateRole { c with
          curView := newViewInfo, db := boundaryDb env c newViewInfo }).stored vs =
          (boundaryDb env c newViewInfo).retrieveRecord (vstol vs) := rfl
      rw [lookup]
      simp only [boundaryDb]
      split
      next first => exact .inl there
      next other =>
        -- the record removed is of the view before
        rw [Database.retrieveRecord_deleteRecord]
        split
        next removed =>
          refine .inr ?_
          rw [(vstol_inj _ _).mp removed]
          show (newViewInfo.viewId - 1).toNat < newViewInfo.viewId.toNat
          have nonzero : newViewInfo.viewId.toNat ≠ 0 := fun zero =>
            wraps (UInt32.toNat_inj.mp zero)
          have before := UInt32.toNat_sub_of_le newViewInfo.viewId 1
            (UInt32.le_iff_toNat_le.mpr (by rw [UInt32.toNat_one]; omega))
          rw [UInt32.toNat_one] at before
          omega
        next kept =>
          refine .inl ?_
          rw [Database.retrieveRecord_storeRecord]
          split
          next same => exact Option.some_ne_none _
          next different => exact there
  | acceptorUpdateRecord nextView record =>
    refine .inl ?_
    rw [handle, acceptorUpdateRecord, acceptorKey]
    exact storeRecord_keeps ⟨0, nextView⟩ vs (.acceptor record) there rfl

/-- A stamp is given to a request that is stored. -/
theorem handle_takes (e : Env × CompEvent) (data : List UInt8)
    (takes : c.taken e = some data) : (handle c e).stored c.getNextViewStamp ≠ none := by
  have submits : ∀ env, env.storeOk = true →
      (leaderHandleSubmitReq env c data).1.stored c.getNextViewStamp ≠ none := by
    intro env stores
    rcases leaderHandleSubmitReq_cases env c data with ⟨refused, -⟩ | ⟨-, submitted, rfl, result⟩
    · rw [stores] at refused
      cases refused
    · have there : ∀ {c' : Comp}, c'.db = c.db.storeRecord (vstol c.getNextViewStamp)
          (.request (submitRecord env c data)) → c'.stored c.getNextViewStamp ≠ none := by
        intro c' written
        rw [stored, written, Database.retrieveRecord_storeRecord, if_pos rfl]
        exact Option.some_ne_none _
      rcases result with ⟨-, sent⟩ | ⟨-, executed⟩
      · rw [sent]
        exact there rfl
      · rw [executed, stored_tryToExecute]
        exact there rfl
  obtain ⟨env, event⟩ := e
  cases event with
  | message msg =>
    cases msg with
    | forwardReq nodeId data' =>
      simp only [taken] at takes
      split at takes
      next both =>
        obtain rfl := Option.some.inj takes
        simp only [handle, consensusHandleMsg, handleForwardReq, if_neg (not_not_intro both.1)]
        exact submits env both.2
      next neither => cases takes
    | _ => cases takes
  | submit data' =>
    simp only [taken] at takes
    split at takes
    next both =>
      obtain rfl := Option.some.inj takes
      simp only [handle, consensusSubmitRequest, if_pos both.1]
      exact submits env both.2
    next neither => cases takes
  | _ => cases takes

/-! ## One call -/

/-- What a node of the group is known to be before a call, and what the call brings to it. -/
structure Call (n : ℕ) (i : NodeId) (P : ViewStamp → RequestRecord → Prop) (B : ViewStamp → Prop)
    (c : Comp) (e : Env × CompEvent) : Prop where
  inOrder : c.InOrder
  node : LogNode n i c
  below : ReqIdsBelow c e
  kept : BoundaryKept c e
  keeps : c.KeepsLog e
  received : ∀ msg, e.2 = .message msg → ∃ j : Fin n, ((j : ℕ) : Int) ≠ i ∧ SenderIs (j : ℕ) msg
  points : Points B e.2
  acked : ∀ msgVs nodeId, e.2 = .message (.acceptAck msgVs nodeId) →
    ∀ record, P msgVs record → P msgVs (updateRecord record nodeId)
  fresh : ∀ data, c.taken e = some data → P c.getNextViewStamp (submitRecord e.1 c data)
  rule : ∀ vs record, P vs record → reachedQuorum record c.groupSize = true → B vs

theorem Call.commits {n : ℕ} {i : NodeId} {e : Env × CompEvent} (call : Call n i P B c e)
    (upTo : UpTo B c.highestToCommitVs) (log : c.myRole = .leader → LeadsLog P c) :
    ((handle c e).myRole = .leader → LeadsLog P (handle c e)) ∧ Commits B c (handle c e) := by
  have running := call.inOrder.running
  by_cases enters : ∃ newViewInfo, e.2 = .updateView newViewInfo
  · obtain ⟨newViewInfo, event⟩ := enters
    obtain ⟨env, event'⟩ := e
    obtain rfl : event' = .updateView newViewInfo := event
    exact ⟨leadsLog_updateView running env newViewInfo log,
      updateView_commits env newViewInfo running upTo⟩
  · have stays : ∀ newViewInfo, e.2 ≠ .updateView newViewInfo := fun newViewInfo event =>
      enters ⟨newViewInfo, event⟩
    by_cases leader : c.myRole = .leader
    · obtain ⟨logged, commits⟩ := call.node.leader_commits (log leader) leader running upTo
        call.rule e call.keeps call.received stays call.acked call.fresh
      exact ⟨fun _ => logged, commits⟩
    · refine ⟨fun leads => absurd ?_ leader,
        call.inOrder.secondary_commits leader upTo e call.below call.kept call.points⟩
      cases (handle_step c e running).1 with
      | stays nothing assigned view role => rwa [← role]
      | takes data some_data leads' assigned view role => exact leads'
      | enters newViewInfo event => exact absurd event (stays newViewInfo)

end Commits

end Comp

end LibeventPaxos
