import LibeventPaxos.LeaderLog
import LibeventPaxos.NormalCase
import LibeventPaxos.Lib.Prefix

/-!
The commit point of a leader over a whole view: whatever order submissions, acknowledgements and
timers come in, after each call it is the longest run of requests each of which half of the group
has acknowledged.
-/
namespace LibeventPaxos

open Lib

namespace Comp

/-! ## Bit maps -/

/-- Below id 31 the bits of a map are the leader's id and those of the senders. -/
theorem getLsbD_ackBits (nodeId : ℕ) (senders : List NodeId) (b : ℕ) (small : nodeId < 31)
    (members : ∀ sender ∈ senders, ∃ j : ℕ, j < 31 ∧ sender = j) :
    (ackBits nodeId senders).toBitVec.getLsbD b = true ↔ b = nodeId ∨ (b : Int) ∈ senders := by
  induction senders using List.reverseRecOn with
  | nil =>
    rw [ackBits_nil, getLsbD_nodeBit nodeId b small, decide_eq_true_eq]
    simp
  | append_singleton senders sender ih =>
    obtain ⟨j, j_small, rfl⟩ := members sender (by simp)
    have earlier := ih fun sender member => members sender (List.mem_append_left _ member)
    rw [ackBits_append, UInt64.toBitVec_or, BitVec.getLsbD_or, Bool.or_eq_true, earlier,
      getLsbD_nodeBit j b j_small, decide_eq_true_eq, List.mem_append, List.mem_singleton,
      Int.ofNat_inj, or_assoc]

/-- In a group of at most 31 nodes the leader counts itself and each other sender once. -/
theorem popcount_ackBits {n : ℕ} (small : n ≤ 31) (i : Fin n) (senders : List NodeId)
    (members : ∀ sender ∈ senders, ∃ j : Fin n, sender = (j : ℕ)) :
    popcount (ackBits (i : ℕ) senders) =
      (Finset.univ.filter fun j : Fin n => j ≠ i ∧ ((j : ℕ) : Int) ∈ senders).card + 1 := by
  have apart : i ∉ Finset.univ.filter fun j : Fin n => j ≠ i ∧ ((j : ℕ) : Int) ∈ senders := by
    simp
  rw [popcount, ← Finset.card_insert_of_notMem apart]
  apply cpop_eq_card _ (fun j : Fin n => (j : ℕ)) _ Fin.val_injective
  intro b
  have bits := getLsbD_ackBits i senders b (by omega) fun sender member => by
    obtain ⟨j, rfl⟩ := members sender member
    exact ⟨j, by omega, rfl⟩
  rw [bits]
  constructor
  · rintro (own | sent)
    · exact ⟨i, Finset.mem_insert_self _ _, own.symm⟩
    · obtain ⟨j, same⟩ := members _ sent
      obtain rfl := Int.ofNat_inj.mp same
      refine ⟨j, ?_, rfl⟩
      by_cases own : j = i
      · rw [own]
        exact Finset.mem_insert_self _ _
      · exact Finset.mem_insert_of_mem (Finset.mem_filter.mpr ⟨Finset.mem_univ j, own, sent⟩)
  · rintro ⟨j, member, rfl⟩
    rcases Finset.mem_insert.mp member with rfl | other
    · exact .inl rfl
    · exact .inr (Finset.mem_filter.mp other).2.2

/-! ## The start of a view -/

/-- Node of a group of `n` that has just become the leader of view `v`. -/
structure BecameLeader (n : ℕ) (v : UInt32) (c : Comp) : Prop where
  running : c.fault = none
  leader : c.myRole = .leader
  groupSize : c.groupSize = n
  nodeId : c.nodeId < n
  curView : c.curView.viewId = v
  active : v ≠ 0
  seen : c.highestSeenVs = ⟨v, 0⟩
  toCommit : c.highestToCommitVs = ⟨v, 0⟩
  committed : c.highestCommittedVs = ⟨v, 0⟩

/-- The seed leads view 1 from the start. -/
theorem becameLeader_init (nodeId groupSize : ℕ) (inGroup : nodeId < groupSize) :
    BecameLeader groupSize 1 (init true nodeId groupSize) where
  running := rfl
  leader := if_pos rfl
  groupSize := rfl
  nodeId := inGroup
  curView := rfl
  active := by decide
  seen := rfl
  toCommit := rfl
  committed := rfl

/-- `update_view` into a view that names the node as its leader. -/
theorem becameLeader_updateView (env : Env) (c : Comp) (newViewInfo : View)
    (inGroup : c.nodeId < c.groupSize) (active : newViewInfo.viewId ≠ 0)
    (named : newViewInfo.leaderId = c.nodeId) (next : c.curView.viewId + 1 = newViewInfo.viewId)
    (running : c.fault = none) (returns : (updateView env c newViewInfo).fault = none) :
    BecameLeader c.groupSize newViewInfo.viewId (updateView env c newViewInfo) := by
  rcases updateView_cases env c newViewInfo running with
    ⟨-, other⟩ | ⟨-, ⟨-, failed⟩ | entered⟩
  · exact absurd next other
  · rw [failed] at returns
    cases returns
  · rw [entered]
    exact ⟨running, if_neg (not_not_intro named), rfl, inGroup, rfl, active, rfl, rfl, rfl⟩

end Comp

/-- The leader of a view, with the requests submitted to it and the acknowledgements it has
received. -/
structure LeaderRun where
  comp : Comp
  requests : List (List UInt8)
  acks : List (ViewStamp × NodeId)

namespace LeaderRun

def submitted : CompEvent → List (List UInt8)
  | .submit data => [data]
  | .message (.forwardReq _ data) => [data]
  | _ => []

def acknowledged : CompEvent → List (ViewStamp × NodeId)
  | .message (.acceptAck msgVs nodeId) => [(msgVs, nodeId)]
  | _ => []

/-- Submissions, the timer, and acknowledgements of numbered requests by members of the group. -/
def Offered (n : ℕ) (v : UInt32) (s : LeaderRun) : CompEvent → Prop
  | .submit _ => True
  | .makeProgress => True
  | .message (.forwardReq _ _) => True
  | .message (.acceptAck msgVs nodeId) =>
    msgVs ∈ stampsAfter ⟨v, 0⟩ s.requests.length ∧ ∃ j : Fin n, nodeId = (j : ℕ)
  | _ => False

/-- A leader whose view lasts and whose stores succeed. -/
def machine (n : ℕ) (v : UInt32) : Machine LeaderRun (Env × CompEvent) where
  initial s := s.comp.BecameLeader n v ∧ s.requests = [] ∧ s.acks = []
  enabled s e := s.comp.fault = none ∧ e.1.storeOk = true ∧ s.Offered n v e.2
  apply s e :=
    ⟨s.comp.handle e, s.requests ++ submitted e.2, s.acks ++ acknowledged e.2⟩

/-- The nodes besides the leader that have acknowledged request `r`. -/
def ackedBy (n : ℕ) (v : UInt32) (s : LeaderRun) (r : ℕ) : Finset (Fin n) :=
  Finset.univ.filter fun j =>
    (j : ℕ) ≠ s.comp.nodeId ∧ (stampAfter ⟨v, 0⟩ r, ((j : ℕ) : Int)) ∈ s.acks

def HalfAcked (n : ℕ) (v : UInt32) (s : LeaderRun) (r : ℕ) : Prop := n / 2 ≤ (s.ackedBy n v r).card

/-- The deliveries of requests `1 … k`. -/
def firstRequests (v : UInt32) (requests : List (List UInt8)) (k : ℕ) : List Delivery :=
  (List.range k).map fun i => ⟨stampAfter ⟨v, 0⟩ (i + 1), requests[i]?⟩

/-- Both commit stamps are at request `k`, the end of the longest run of requests that half of the
group has acknowledged, and exactly the requests up to it have been delivered. -/
structure AtQuorumPrefix (n : ℕ) (v : UInt32) (start : Comp) (s : LeaderRun) (k : ℕ) : Prop where
  returned : s.comp.fault = none
  longest : LongestPrefix (s.HalfAcked n v) s.requests.length k
  view : s.comp.highestToCommitVs.viewId = v
  toCommit : s.comp.highestToCommitVs.reqId.toNat = k
  committed : s.comp.highestCommittedVs = s.comp.highestToCommitVs
  delivered : s.comp.delivered = start.delivered ++ firstRequests v s.requests k

/-- The leader numbers no request past the last number of its view, and gives none the largest
stamp. -/
def numbers (s : LeaderRun) (e : Env × CompEvent) : Prop :=
  submitted e.2 ≠ [] → s.comp.highestSeenVs.reqId ≠ 0xFFFFFFFF ∧
    s.comp.getNextViewStamp ≠ Comp.largestVs

instance (s : LeaderRun) (e : Env × CompEvent) : Decidable (s.numbers e) :=
  inferInstanceAs (Decidable (_ → _))

instance (n : ℕ) (v : UInt32) (s : LeaderRun) : ∀ event, Decidable (s.Offered n v event)
  | .submit _ => .isTrue trivial
  | .makeProgress => .isTrue trivial
  | .message (.forwardReq _ _) => .isTrue trivial
  | .message (.acceptAck _ _) => inferInstanceAs (Decidable (_ ∧ _))
  | .message (.acceptReq _ _ _ _) => .isFalse id
  | .message (.missingReq _ _) => .isFalse id
  | .message (.missingAck _ _ _) => .isFalse id
  | .message (.forceExec _ _) => .isFalse id
  | .updateView _ => .isFalse id
  | .acceptorUpdateRecord _ _ => .isFalse id

instance (n : ℕ) (v : UInt32) (s : LeaderRun) (e : Env × CompEvent) :
    Decidable ((machine n v).enabled s e) :=
  inferInstanceAs (Decidable (_ ∧ _ ∧ _))

/-- The nodes whose acknowledgements of a request have arrived. -/
def senders (s : LeaderRun) (vs : ViewStamp) : List NodeId :=
  (s.acks.filter fun ack => ack.1 = vs).map Prod.snd

/-- What the leader keeps under the stamp of a request: its payload, with the bits of those that
have acknowledged it. -/
structure Written (s : LeaderRun) (vs : ViewStamp) (record : RequestRecord) : Prop where
  bits : record.bitMap = Comp.ackBits s.comp.nodeId (s.senders vs)
  data : s.requests[vs.reqId.toNat - 1]? = some record.data

/-- The leader of view `v` with its log, which has committed requests `1 … k`. -/
structure Logging (n : ℕ) (v : UInt32) (start : Comp) (s : LeaderRun) (k : ℕ) : Prop where
  running : s.comp.fault = none
  leader : s.comp.myRole = .leader
  groupSize : s.comp.groupSize = n
  inGroup : s.comp.nodeId < n
  nodeId : s.comp.nodeId = start.nodeId
  curView : s.comp.curView.viewId = v
  seen : s.comp.highestSeenVs.reqId.toNat = s.requests.length
  view : s.comp.highestToCommitVs.viewId = v
  toCommit : s.comp.highestToCommitVs.reqId.toNat = k
  le : k ≤ s.requests.length
  leads : s.comp.LeadsLog s.Written
  known : ∀ ack ∈ s.acks, ack.1 ∈ stampsAfter ⟨v, 0⟩ s.requests.length ∧
    ∃ j : Fin n, ack.2 = (j : ℕ)
  filled : ∀ r, 1 ≤ r → r ≤ k → s.HalfAcked n v r
  delivered : s.comp.delivered = start.delivered ++ firstRequests v s.requests k

theorem mem_senders (s : LeaderRun) (vs : ViewStamp) (sender : NodeId) :
    sender ∈ s.senders vs ↔ (vs, sender) ∈ s.acks := by
  simp only [senders, List.mem_map, List.mem_filter, decide_eq_true_eq]
  constructor
  · rintro ⟨⟨vs', sender'⟩, ⟨member, rfl⟩, rfl⟩
    exact member
  · intro member
    exact ⟨(vs, sender), ⟨member, rfl⟩, rfl⟩

section Logging

variable {n : ℕ} {v : UInt32} {start : Comp} {s : LeaderRun} {k : ℕ}

theorem Logging.toCommit_eq (logging : Logging n v start s k) :
    s.comp.highestToCommitVs = stampAfter ⟨v, 0⟩ k := by
  have lt := s.comp.highestToCommitVs.reqId.toNat_lt
  have toCommit := logging.toCommit
  apply ViewStamp.ext_toNat
  · rw [logging.view, stampAfter_viewId]
  · rw [stampAfter_reqId _ _ (by simp only [UInt32.toNat_zero]; omega), logging.toCommit]
    simp

/-- A request above the commit point has a quorum when half of the group has acknowledged it. -/
theorem Logging.quorate_iff (logging : Logging n v start s k) (small : n ≤ 31) (r : ℕ)
    (above : k < r) (below : r ≤ s.requests.length) :
    s.comp.Quorate (stampAfter ⟨v, 0⟩ r) ↔ s.HalfAcked n v r := by
  have seen_lt := s.comp.highestSeenVs.reqId.toNat_lt
  have seen := logging.seen
  have key := vstol_stampAfter ⟨v, 0⟩ r (by simp only [UInt32.toNat_zero]; omega)
  have seen_key := vstol_toNat s.comp.highestSeenVs
  have toCommit_key := vstol_toNat s.comp.highestToCommitVs
  rw [vstol_boundary] at key
  rw [logging.leads.sameView, logging.view] at seen_key
  rw [logging.view, logging.toCommit] at toCommit_key
  obtain ⟨record, found, written⟩ :=
    logging.leads.records (stampAfter ⟨v, 0⟩ r) (by omega) (by omega)
  have members : ∀ sender ∈ s.senders (stampAfter ⟨v, 0⟩ r), ∃ j : Fin n, sender = (j : ℕ) :=
    fun sender member => (logging.known _ ((s.mem_senders _ sender).mp member)).2
  have count := Comp.popcount_ackBits small ⟨s.comp.nodeId, logging.inGroup⟩ _ members
  have same : (Finset.univ.filter fun j : Fin n => j ≠ ⟨s.comp.nodeId, logging.inGroup⟩ ∧
      ((j : ℕ) : Int) ∈ s.senders (stampAfter ⟨v, 0⟩ r)) = s.ackedBy n v r := by
    ext j
    simp only [ackedBy, Finset.mem_filter, Finset.mem_univ, true_and, mem_senders, ne_eq,
      Fin.ext_iff]
  rw [same] at count
  have quorum : Comp.reachedQuorum record s.comp.groupSize = true ↔ s.HalfAcked n v r := by
    rw [Comp.reachedQuorum, decide_eq_true_eq, logging.groupSize, written.bits, count, HalfAcked]
    omega
  rw [← quorum]
  constructor
  · rintro ⟨record', found', reached⟩
    obtain rfl := DbValue.request.inj (Option.some.inj (found.symm.trans found'))
    exact reached
  · intro reached
    exact ⟨record, found, reached⟩

/-- The payload the leader finds under a request above its commit point is the one submitted. -/
theorem Logging.payloadAt (logging : Logging n v start s k) (i : ℕ) (above : k ≤ i)
    (below : i < s.requests.length) :
    s.comp.payloadAt (stampAfter ⟨v, 0⟩ (i + 1)) = s.requests[i]? := by
  have seen_lt := s.comp.highestSeenVs.reqId.toNat_lt
  have seen := logging.seen
  have room : (0 : UInt32).toNat + (i + 1) < 4294967296 := by
    rw [UInt32.toNat_zero]
    omega
  have key := vstol_stampAfter ⟨v, 0⟩ (i + 1) room
  have seen_key := vstol_toNat s.comp.highestSeenVs
  have toCommit_key := vstol_toNat s.comp.highestToCommitVs
  rw [vstol_boundary] at key
  rw [logging.leads.sameView, logging.view] at seen_key
  rw [logging.view, logging.toCommit] at toCommit_key
  obtain ⟨record, found, written⟩ :=
    logging.leads.records (stampAfter ⟨v, 0⟩ (i + 1)) (by omega) (by omega)
  have data := written.data
  rw [stampAfter_reqId _ _ room, UInt32.toNat_zero, Nat.zero_add, Nat.add_sub_cancel] at data
  rw [Comp.stored] at found
  rw [Comp.payloadAt, found, data]

theorem firstRequests_add (v : UInt32) (requests : List (List UInt8)) (k m : ℕ) :
    firstRequests v requests (k + m) = firstRequests v requests k ++
      (List.range m).map fun i => ⟨stampAfter ⟨v, 0⟩ (k + i + 1), requests[k + i]?⟩ := by
  simp only [firstRequests, List.range_add, List.map_append, List.map_map, Function.comp_def]

theorem firstRequests_append (v : UInt32) (requests later : List (List UInt8)) (k : ℕ)
    (le : k ≤ requests.length) :
    firstRequests v (requests ++ later) k = firstRequests v requests k := by
  apply List.map_congr_left
  intro i member
  have less := List.mem_range.mp member
  rw [List.getElem?_append_left (by omega)]

/-- A scan over `m` requests with a quorum delivers them. -/
theorem Logging.afterScan (logging : Logging n v start s k) (small : n ≤ 31) (m : ℕ)
    (reached : s.comp.QuoratePrefix m) (calls : List (Int × ConsensusMsg)) :
    let s' : LeaderRun := { s with comp := { s.comp.afterScan m with upCalls := calls } }
    Logging n v start s' (k + m) ∧ (k + m < s.requests.length → ¬ s'.HalfAcked n v (k + m + 1)) := by
  intro s'
  have room := reached.room
  have seen := logging.seen
  have toCommit := logging.toCommit
  have le := logging.le
  have seen_lt := s.comp.highestSeenVs.reqId.toNat_lt
  have inside : k + m ≤ s.requests.length := by omega
  have stamps : ∀ i, stampAfter s.comp.highestToCommitVs i = stampAfter ⟨v, 0⟩ (k + i) := by
    intro i
    rw [logging.toCommit_eq, stampAfter_stampAfter]
  have flag : s.comp.scanFlag = true := (Comp.scanFlag_iff s.comp).mpr logging.leads.committed
  constructor
  · refine { logging with
      toCommit := ?_
      le := inside
      leads := ((logging.leads.afterScan reached).sends calls).mono ?_
      filled := ?_
      delivered := ?_ }
    · change (stampAfter s.comp.highestToCommitVs m).reqId.toNat = k + m
      rw [stampAfter_reqId _ _ (by omega), toCommit]
    · rintro vs record ⟨bits, data⟩
      exact ⟨bits, data⟩
    · -- the requests the scan has passed are those with a quorum
      intro r low high
      rcases Nat.lt_or_ge k r with above | old
      · have quorate := reached.quorate (r - k - 1) (by omega)
        rw [stamps, show k + (r - k - 1 + 1) = r by omega] at quorate
        exact (logging.quorate_iff small r above (by omega)).mp quorate
      · exact logging.filled r low old
    · change (s.comp.afterScan m).delivered = _
      simp only [Comp.afterScan, flag, if_true, logging.leads.committed, logging.delivered,
        List.append_assoc, firstRequests_add, Comp.deliveriesAt, stampsAfter, List.map_map]
      congr 2
      apply List.map_congr_left
      intro i member
      have less := List.mem_range.mp member
      simp only [Function.comp_apply]
      rw [stamps, ← Nat.add_assoc, logging.payloadAt (k + i) (by omega) (by omega)]
  · intro below half
    refine reached.maximal (by omega) ?_
    rw [stamps, ← Nat.add_assoc]
    exact (logging.quorate_iff small (k + m + 1) (by omega) (by omega)).mpr half

end Logging

/-- The leader has committed all it may. -/
def UpToDate (n : ℕ) (v : UInt32) (start : Comp) (s : LeaderRun) : Prop :=
  ∃ k, Logging n v start s k ∧ (k < s.requests.length → ¬ s.HalfAcked n v (k + 1))

theorem UpToDate.atQuorumPrefix {n : ℕ} {v : UInt32} {start : Comp} {s : LeaderRun}
    (upToDate : UpToDate n v start s) : ∃ k, AtQuorumPrefix n v start s k := by
  obtain ⟨k, logging, maximal⟩ := upToDate
  exact ⟨k, logging.running, ⟨logging.le, logging.filled, maximal⟩, logging.view,
    logging.toCommit, logging.leads.committed, logging.delivered⟩

section Steps

variable {n : ℕ} {v : UInt32} {start : Comp} {s : LeaderRun} {k : ℕ}

/-- `try_to_execute` brings the leader up to date. -/
theorem Logging.tryToExecute (logging : Logging n v start s k) (small : n ≤ 31) (active : v ≠ 0)
    (env : Env) : UpToDate n v start { s with comp := Comp.tryToExecute env s.comp } := by
  obtain ⟨m, reached, result⟩ := logging.leads.tryToExecute env logging.leader logging.running
    (by rw [logging.curView]; exact active)
  have scanned := logging.afterScan small m reached s.comp.upCalls
  refine ⟨k + m, ?_, ?_⟩
  · rw [result]
    exact scanned.1
  · rw [result]
    exact scanned.2

theorem Logging.consensusMakeProgress (logging : Logging n v start s k) (small : n ≤ 31)
    (env : Env) : UpToDate n v start { s with comp := Comp.consensusMakeProgress env s.comp } := by
  obtain ⟨m, calls, reached, result⟩ :=
    logging.leads.consensusMakeProgress env logging.leader logging.running
  have scanned := logging.afterScan small m reached calls
  refine ⟨k + m, ?_, ?_⟩
  · rw [result]
    exact scanned.1
  · rw [result]
    exact scanned.2

/-- An acknowledgement is remembered under its request, wherever the commit point is. -/
theorem Logging.storeAcceptAck (logging : Logging n v start s k) (env : Env)
    (stores : env.storeOk = true) (msgVs : ViewStamp) (j : Fin n)
    (existing : msgVs ∈ stampsAfter ⟨v, 0⟩ s.requests.length) :
    Logging n v start
      ⟨Comp.storeAcceptAck env s.comp msgVs (j : ℕ), s.requests,
        s.acks ++ [(msgVs, ((j : ℕ) : Int))]⟩ k := by
  -- the ack adds its sender to the one stamp it names
  have more : ∀ vs,
      (⟨s.comp, s.requests, s.acks ++ [(msgVs, ((j : ℕ) : Int))]⟩ : LeaderRun).senders vs =
        s.senders vs ++ if msgVs = vs then [((j : ℕ) : Int)] else [] := by
    intro vs
    simp only [senders, List.filter_append, List.map_append]
    by_cases same : msgVs = vs
    · simp [same]
    · simp [same]
  have leads : (Comp.storeAcceptAck env s.comp msgVs (j : ℕ)).LeadsLog
      (Written ⟨s.comp, s.requests, s.acks ++ [(msgVs, ((j : ℕ) : Int))]⟩) := by
    apply logging.leads.storeAcceptAck env msgVs (j : ℕ) logging.leader
    · rintro vs record other ⟨bits, data⟩
      refine ⟨?_, data⟩
      rw [more, if_neg (Ne.symm other), List.append_nil]
      exact bits
    · rintro record ⟨bits, data⟩
      refine ⟨?_, data⟩
      rw [more, if_pos rfl, Comp.ackBits_append, ← bits]
      rfl
    · intro refused
      rw [stores] at refused
      cases refused
  have known : ∀ ack ∈ s.acks ++ [(msgVs, ((j : ℕ) : Int))],
      ack.1 ∈ stampsAfter ⟨v, 0⟩ s.requests.length ∧ ∃ j : Fin n, ack.2 = (j : ℕ) := by
    intro ack member
    rcases List.mem_append.mp member with old | new
    · exact logging.known ack old
    · obtain rfl := List.mem_singleton.mp new
      exact ⟨existing, j, rfl⟩
  -- a majority stays a majority when the list of acks grows
  have filled : ∀ r, 1 ≤ r → r ≤ k →
      HalfAcked n v ⟨s.comp, s.requests, s.acks ++ [(msgVs, ((j : ℕ) : Int))]⟩ r := by
    intro r low high
    refine (logging.filled r low high).trans (Finset.card_le_card ?_)
    intro node member
    obtain ⟨-, other, acked⟩ := Finset.mem_filter.mp member
    exact Finset.mem_filter.mpr ⟨Finset.mem_univ node, other, List.mem_append_left _ acked⟩
  rcases Comp.storeAcceptAck_cases env s.comp msgVs (j : ℕ) with
    same | ⟨-, -, -, value, -, stored⟩
  · rw [same] at leads ⊢
    exact { logging with leads := leads, known := known, filled := filled }
  · rw [stored] at leads ⊢
    exact { logging with
      leads := leads.mono fun _ _ written => ⟨written.bits, written.data⟩
      known := known
      filled := filled }

/-- A submitted request is the last of the log, and nobody has acknowledged it. -/
theorem Logging.submitted (logging : Logging n v start s k) (env : Env) (data : List UInt8)
    (room : s.comp.highestSeenVs.reqId ≠ 0xFFFFFFFF)
    (last : s.comp.getNextViewStamp ≠ Comp.largestVs) :
    Logging n v start
      ⟨{ s.comp with
          db := s.comp.db.storeRecord (vstol s.comp.getNextViewStamp)
            (.request (Comp.submitRecord env s.comp data))
          highestSeenVs := s.comp.getNextViewStamp
          assigned := s.comp.assigned ++ [(s.comp.getNextViewStamp, data)] },
        s.requests ++ [data], s.acks⟩ k ∧
      s.ackedBy n v (s.requests.length + 1) = ∅ := by
  have seen_lt := s.comp.highestSeenVs.reqId.toNat_lt
  have seen := logging.seen
  have below : s.comp.highestSeenVs.reqId.toNat + 1 < 4294967296 := by
    have different : s.comp.highestSeenVs.reqId.toNat ≠ 4294967295 := fun same =>
      room (UInt32.toNat_inj.mp same)
    omega
  have reqId : s.comp.getNextViewStamp.reqId.toNat = s.requests.length + 1 := by
    simp only [Comp.getNextViewStamp, UInt32.toNat_add, UInt32.toNat_one]
    omega
  have next : s.comp.getNextViewStamp = stampAfter ⟨v, 0⟩ (s.requests.length + 1) := by
    apply ViewStamp.ext_toNat
    · rw [stampAfter_viewId, ← logging.view, ← logging.leads.sameView]
      rfl
    · rw [reqId, stampAfter_reqId _ _ (by simp only [UInt32.toNat_zero]; omega),
        UInt32.toNat_zero, Nat.zero_add]
  -- no ack of the new stamp can have arrived before it was assigned
  have unknown : ∀ sender, (s.comp.getNextViewStamp, sender) ∉ s.acks := by
    intro sender member
    obtain ⟨i, less, same⟩ := List.mem_map.mp (logging.known _ member).1
    have number := congrArg (fun vs : ViewStamp => vs.reqId.toNat) same
    have less := List.mem_range.mp less
    simp only [reqId] at number
    rw [stampAfter_reqId _ _ (by simp only [UInt32.toNat_zero]; omega), UInt32.toNat_zero] at number
    omega
  constructor
  · refine { logging with
      seen := ?_
      le := ?_
      leads := ?_
      known := ?_
      delivered := ?_ }
    · rw [reqId, List.length_append, List.length_singleton]
    · rw [List.length_append]
      exact logging.le.trans (Nat.le_add_right _ _)
    · -- the records written before match the longer list of requests as well
      have grown : s.comp.LeadsLog (Written ⟨s.comp, s.requests ++ [data], s.acks⟩) := by
        refine logging.leads.mono ?_
        rintro vs record ⟨bits, found⟩
        refine ⟨bits, ?_⟩
        obtain ⟨less, -⟩ := List.getElem?_eq_some_iff.mp found
        rwa [List.getElem?_append_left less]
      have taken := grown.submitted env data last ?_
      · exact taken.mono fun _ _ written => ⟨written.bits, written.data⟩
      · constructor
        · have nobody : s.senders s.comp.getNextViewStamp = [] := by
            apply List.eq_nil_iff_forall_not_mem.mpr
            intro sender member
            exact unknown sender ((s.mem_senders _ sender).mp member)
          exact (congrArg (Comp.ackBits s.comp.nodeId) nobody).symm
        · rw [reqId, Nat.add_sub_cancel]
          exact List.getElem?_concat_length
    · intro ack member
      obtain ⟨existing, sender⟩ := logging.known ack member
      refine ⟨?_, sender⟩
      rw [List.length_append, List.length_singleton, stampsAfter_succ]
      exact List.mem_append_left _ existing
    · rw [firstRequests_append v s.requests [data] k logging.le]
      exact logging.delivered
  · apply Finset.filter_eq_empty_iff.mpr
    rintro j - ⟨-, acked⟩
    rw [← next] at acked
    exact unknown _ acked

/-- `leader_handle_submit_req` of a leader that is up to date. -/
theorem UpToDate.leaderHandleSubmitReq (upToDate : UpToDate n v start s) (small : n ≤ 31)
    (active : v ≠ 0) (env : Env) (data : List UInt8) (stores : env.storeOk = true)
    (room : s.comp.highestSeenVs.reqId ≠ 0xFFFFFFFF)
    (last : s.comp.getNextViewStamp ≠ Comp.largestVs) :
    UpToDate n v start
      ⟨(Comp.leaderHandleSubmitReq env s.comp data).1, s.requests ++ [data], s.acks⟩ := by
  obtain ⟨k, logging, maximal⟩ := upToDate
  obtain ⟨taken, nobody⟩ := logging.submitted env data room last
  rcases Comp.leaderHandleSubmitReq_cases env s.comp data with
    ⟨refused, -⟩ | ⟨-, submitted, rfl, ⟨group, sent⟩ | ⟨-, executed⟩⟩
  · rw [stores] at refused
    cases refused
  · rw [sent]
    refine ⟨k, { taken with leads := (taken.leads.sends _).mono ?_ }, ?_⟩
    · rintro vs record ⟨bits, found⟩
      exact ⟨bits, found⟩
    · -- in a larger group a request nobody has acknowledged is not committed
      intro less half
      rcases Nat.lt_or_ge k s.requests.length with below | reached
      · exact maximal below half
      · have end_of_log : k = s.requests.length := Nat.le_antisymm logging.le reached
        have count : n / 2 ≤ (s.ackedBy n v (k + 1)).card := half
        rw [end_of_log, nobody, Finset.card_empty] at count
        rw [logging.groupSize] at group
        omega
  · rw [executed]
    exact taken.tryToExecute small active env

theorem UpToDate.apply (upToDate : UpToDate n v start s) (small : n ≤ 31) (active : v ≠ 0)
    (e : Env × CompEvent) (numbered : s.numbers e) (enabled : (machine n v).enabled s e) :
    UpToDate n v start ((machine n v).apply s e) := by
  obtain ⟨env, event⟩ := e
  obtain ⟨-, stores, offered⟩ := enabled
  have leader : s.comp.myRole = .leader := by
    obtain ⟨k, logging, -⟩ := upToDate
    exact logging.leader
  cases event with
  -- a request of the own proxy and one that is forwarded are taken the same way
  | submit data =>
    obtain ⟨room, last⟩ := numbered (List.cons_ne_nil _ _)
    have taken := upToDate.leaderHandleSubmitReq small active env data stores room last
    simp only [machine, Comp.handle, Comp.consensusSubmitRequest, if_pos leader, submitted,
      acknowledged, List.append_nil]
    exact taken
  | makeProgress =>
    obtain ⟨k, logging, -⟩ := upToDate
    simp only [machine, Comp.handle, submitted, acknowledged, List.append_nil]
    exact logging.consensusMakeProgress small env
  | message msg =>
    cases msg with
    | forwardReq nodeId data =>
      obtain ⟨room, last⟩ := numbered (List.cons_ne_nil _ _)
      have taken := upToDate.leaderHandleSubmitReq small active env data stores room last
      simp only [machine, Comp.handle, Comp.consensusHandleMsg, Comp.handleForwardReq,
        if_neg (not_not_intro leader), submitted, acknowledged, List.append_nil]
      exact taken
    | acceptAck msgVs nodeId =>
      obtain ⟨k, logging, -⟩ := upToDate
      obtain ⟨existing, j, rfl⟩ := offered
      -- first the bit is set, then the scan moves the point as far as the bits allow
      have remembered := logging.storeAcceptAck env stores msgVs j existing
      simp only [machine, Comp.handle, Comp.consensusHandleMsg, Comp.handleAcceptAck, submitted,
        acknowledged, List.append_nil]
      exact remembered.tryToExecute small active env
    | acceptReq msgVs reqCanbeExed nodeId record => exact offered.elim
    | missingReq nodeId missingVs => exact offered.elim
    | missingAck nodeId missingVs record => exact offered.elim
    | forceExec nodeId highestCommittedOp => exact offered.elim
  | updateView newViewInfo => exact offered.elim
  | acceptorUpdateRecord nextView record => exact offered.elim

end Steps

/-- A leader without requests has committed none of its view. -/
theorem upToDate_start {n : ℕ} {v : UInt32} {start : Comp} (became : start.BecameLeader n v) :
    UpToDate n v start ⟨start, [], []⟩ := by
  have first : (⟨v, 0⟩ : ViewStamp) ≠ Comp.largestVs := fun same =>
    absurd (show (0 : UInt32) = 0xFFFFFFFF from congrArg ViewStamp.reqId same) (by decide)
  refine ⟨0, ?_, fun below => absurd below (Nat.lt_irrefl 0)⟩
  constructor
  · exact became.running
  · exact became.leader
  · exact became.groupSize
  · exact became.nodeId
  · rfl
  · exact became.curView
  · rw [became.seen]
    rfl
  · rw [became.toCommit]
  · rw [became.toCommit]
    rfl
  · exact le_rfl
  · refine ⟨?_, ?_, ?_, ?_, ?_⟩
    · rw [became.seen, became.toCommit]
    · rw [became.committed, became.toCommit]
    · rw [became.seen]
      exact first
    · rw [became.toCommit]
      exact first
    · intro vs above below
      rw [became.toCommit] at above
      rw [became.seen] at below
      exact absurd (Nat.lt_of_lt_of_le above below) (Nat.lt_irrefl _)
  · intro ack member
    cases member
  · intro r low high
    omega
  · exact (List.append_nil _).symm

theorem upToDate_of_run {n : ℕ} (small : n ≤ 31) {v : UInt32} {start : Comp}
    (became : start.BecameLeader n v) {s : LeaderRun}
    (run : (machine n v).Run numbers ⟨start, [], []⟩ s) : UpToDate n v start s :=
  run.invariant (fun _ e upToDate numbered enabled =>
    upToDate.apply small became.active e numbered enabled) (upToDate_start became)

/-- As long as request numbers last, the commit point of a leader is the end of the longest run of
requests that half of the group has acknowledged, whatever order submissions, acknowledgements and
timers come in. -/
theorem quorum_prefix_committed (n : ℕ) (small : n ≤ 31) (v : UInt32) (start : Comp)
    (became : start.BecameLeader n v) (s : LeaderRun)
    (run : (machine n v).Run numbers ⟨start, [], []⟩ s) :
    (∃ k, AtQuorumPrefix n v start s k) ∧
      ∀ s', (machine n v).Run numbers ⟨start, [], []⟩ s' → s'.requests = s.requests →
        (∀ ack, ack ∈ s'.acks ↔ ack ∈ s.acks) →
        s'.comp.highestToCommitVs = s.comp.highestToCommitVs ∧
          s'.comp.delivered = s.comp.delivered := by
  have upToDate := upToDate_of_run small became run
  refine ⟨upToDate.atQuorumPrefix, ?_⟩
  intro s' run' requests acks
  obtain ⟨k, logging, maximal⟩ := upToDate
  obtain ⟨k', logging', maximal'⟩ := upToDate_of_run small became run'
  have half : ∀ r, s'.HalfAcked n v r ↔ s.HalfAcked n v r := by
    intro r
    simp only [HalfAcked, ackedBy, acks, logging.nodeId, logging'.nodeId]
  have same : k' = k := by
    have longest : LongestPrefix (s.HalfAcked n v) s.requests.length k :=
      ⟨logging.le, logging.filled, maximal⟩
    have longest' : LongestPrefix (s'.HalfAcked n v) s.requests.length k' :=
      requests ▸ ⟨logging'.le, logging'.filled, maximal'⟩
    exact (longest'.congr fun r _ _ => half r).unique longest
  subst same
  constructor
  · rw [logging.toCommit_eq, logging'.toCommit_eq]
  · rw [logging.delivered, logging'.delivered, requests]

/-- Two requests; the second is acknowledged first. -/
def outOfOrder : List (Env × CompEvent) :=
  [(Comp.quietEnv, .submit [7]), (Comp.quietEnv, .submit [8]),
    (Comp.quietEnv, .message (.acceptAck ⟨1, 2⟩ 1)), (Comp.quietEnv, .makeProgress),
    (Comp.quietEnv, .message (.acceptAck ⟨1, 1⟩ 2))]

theorem out_of_order_commits :
    ∃ k, AtQuorumPrefix 3 1 (Comp.init true 0 3)
      (outOfOrder.foldl (machine 3 1).apply ⟨Comp.init true 0 3, [], []⟩) k := by
  refine (quorum_prefix_committed 3 (by decide) 1 _ (Comp.becameLeader_init 0 3 (by decide)) _ ?_).1
  apply Machine.Accepts.run
  decide

/-- A leader alone in its group numbers as many requests as a view has numbers. -/
theorem alone_numbers (m : ℕ) (le : m ≤ 4294967295) :
    ∃ s, (machine 1 1).Run numbers ⟨Comp.init true 0 1, [], []⟩ s ∧ s.requests.length = m := by
  have became := Comp.becameLeader_init 0 1 Nat.one_pos
  induction m with
  | zero => exact ⟨_, .refl, rfl⟩
  | succ m ih =>
    obtain ⟨s, run, length⟩ := ih (by omega)
    obtain ⟨k, logging, -⟩ := upToDate_of_run (by decide) became run
    have seen := logging.seen
    have allowed : s.numbers (Comp.quietEnv, .submit []) := by
      intro _
      constructor
      · intro wraps
        rw [wraps, length] at seen
        have bound : (0xFFFFFFFF : UInt32).toNat = 4294967295 := rfl
        omega
      · intro largest
        have view : s.comp.highestSeenVs.viewId = 0xFFFFFFFF := congrArg ViewStamp.viewId largest
        rw [logging.leads.sameView, logging.view] at view
        exact absurd view (by decide)
    refine ⟨_, run.step allowed ⟨logging.running, rfl, trivial⟩, ?_⟩
    simp only [machine, submitted, List.length_append, List.length_singleton, length]

/-- Request 2^32 of a view has no stamp of its own. -/
theorem wrapped_commit_point : ¬ ∀ (n : ℕ), n ≤ 31 → ∀ (v : UInt32) (start : Comp),
    start.BecameLeader n v → ∀ s, (machine n v).Run Machine.anything ⟨start, [], []⟩ s →
    ∃ k, AtQuorumPrefix n v start s k := by
  intro claim
  obtain ⟨s, run, length⟩ := alone_numbers 4294967295 le_rfl
  have became := Comp.becameLeader_init 0 1 Nat.one_pos
  obtain ⟨_, logging, -⟩ := upToDate_of_run (by decide) became run
  have further : (machine 1 1).Run Machine.anything ⟨Comp.init true 0 1, [], []⟩
      ((machine 1 1).apply s (Comp.quietEnv, .submit [])) :=
    (run.mono fun _ _ _ => trivial).step trivial ⟨logging.running, rfl, trivial⟩
  obtain ⟨k, reached⟩ := claim 1 (by decide) 1 _ became _ further
  have bound := reached.toCommit ▸ UInt32.toNat_lt _
  have count : ((machine 1 1).apply s (Comp.quietEnv, .submit [])).requests.length =
      4294967296 := by
    simp only [machine, submitted, List.length_append, List.length_singleton, length]
  -- every request is acknowledged by none of no others
  refine reached.longest.maximal (by omega) ?_
  exact Nat.zero_le _

end LeaderRun

end LibeventPaxos
