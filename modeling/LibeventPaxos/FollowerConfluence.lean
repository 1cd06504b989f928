import LibeventPaxos.LeaderLog
import LibeventPaxos.Lib.Prefix

/-!
A follower inside one view: what it has committed and delivered depends on the set of messages
it has handled, not on their order or number, as long as each request comes with one payload.
-/
namespace LibeventPaxos

open Lib

/-- The messages that carry requests and commit points of the leader of a view, as they are read;
`log` gives the payload of each of its requests. -/
inductive FromLeader (viewId : UInt32) (leaderId : NodeId) (log : UInt32 → List UInt8) :
    ConsensusMsg → Prop
  | acceptReq (msgVs reqCanbeExed : ViewStamp) (record : RequestRecord)
      (inView : msgVs.viewId = viewId) (payload : record.data = log msgVs.reqId)
      (earlier : viewStampComp reqCanbeExed msgVs < 0) :
      FromLeader viewId leaderId log (.acceptReq msgVs reqCanbeExed leaderId record)
  -- the scan of a leader does not come back from the largest stamp
  | forceExec (highestCommittedOp : ViewStamp) (inView : highestCommittedOp.viewId = viewId)
      (room : highestCommittedOp ≠ Comp.largestVs) :
      FromLeader viewId leaderId log (.forceExec leaderId highestCommittedOp)
  | missingAck (nodeId : NodeId) (missingVs : ViewStamp) (record read : RequestRecord)
      (inView : missingVs.viewId = viewId) (payload : record.data = log missingVs.reqId)
      (received : (ConsensusMsg.missingAck nodeId missingVs record).Received
        (.missingAck nodeId missingVs read)) :
      FromLeader viewId leaderId log (.missingAck nodeId missingVs read)

/-- The commit point a message carries. -/
def commitPoint : ConsensusMsg → Option ViewStamp
  | .acceptReq _ reqCanbeExed _ _ => some reqCanbeExed
  | .forceExec _ highestCommittedOp => some highestCommittedOp
  | _ => none

/-- The request a message carries, with the payload it is read with. -/
def carriedRequest : ConsensusMsg → Option (ViewStamp × List UInt8)
  | .acceptReq msgVs _ _ record => some (msgVs, record.data)
  | .missingAck _ missingVs record => some (missingVs, record.data)
  | _ => none

def carriedVs (msg : ConsensusMsg) : Option ViewStamp := (carriedRequest msg).map Prod.fst

theorem carriedVs_eq_some {msg : ConsensusMsg} {vs : ViewStamp} :
    carriedVs msg = some vs ↔ ∃ data, carriedRequest msg = some (vs, data) := by
  rw [carriedVs, Option.map_eq_some_iff]
  constructor
  · rintro ⟨⟨_, data⟩, carried, rfl⟩
    exact ⟨data, carried⟩
  · rintro ⟨data, carried⟩
    exact ⟨(vs, data), carried, rfl⟩

namespace Comp

/-- What a leader sends as its commit point, between two calls. -/
theorem LeadsLog.fromLeader {P : ViewStamp → RequestRecord → Prop} {c : Comp}
    (leads : LeadsLog P c) (inView : c.highestSeenVs.viewId = c.curView.viewId)
    (log : UInt32 → List UInt8) : FromLeader c.curView.viewId c.nodeId log c.buildForceExec := by
  refine .forceExec c.highestCommittedVs ?_ ?_
  · rw [leads.committed, ← leads.sameView, inView]
  · rw [leads.committed]
    exact leads.toCommitRoom

/-- Whether request `i` of a view is stored. -/
def HasRequest (c : Comp) (viewId : UInt32) (i : ℕ) : Prop :=
  c.stored ⟨viewId, UInt32.ofNat i⟩ ≠ none

/-- The payloads a follower can have of a request: the one it has entered the view with, or those of
the messages it has handled. -/
def Brings (start : Comp) (viewId : UInt32) (handled : ConsensusMsg → Prop) (reqId : UInt32)
    (data : List UInt8) : Prop :=
  start.payloadAt ⟨viewId, reqId⟩ = some data ∨ start.stored ⟨viewId, reqId⟩ = none ∧
    ∃ msg, handled msg ∧ carriedRequest msg = some (⟨viewId, reqId⟩, data)

/-- A follower of the leader of `viewId` that started from `start`, has handled the messages
`handled` and has executed some of what it may execute. -/
structure Follows (start : Comp) (viewId : UInt32) (handled : ConsensusMsg → Prop) (c : Comp) :
    Prop where
  running : c.fault = none
  role : c.myRole = .secondary
  view : c.curView = start.curView
  toCommitView : c.highestToCommitVs.viewId = viewId
  committedView : c.highestCommittedVs.viewId = viewId
  above : (vstol start.highestToCommitVs).toNat ≤ (vstol c.highestToCommitVs).toNat
  reaches : ∀ msg, handled msg → ∀ point, commitPoint msg = some point →
    (vstol point).toNat ≤ (vstol c.highestToCommitVs).toNat
  named : c.highestToCommitVs = start.highestToCommitVs ∨
    ∃ msg, handled msg ∧ commitPoint msg = some c.highestToCommitVs
  holds : ∀ reqId, reqId ≠ 0 → (c.stored ⟨viewId, reqId⟩ ≠ none ↔
    start.stored ⟨viewId, reqId⟩ ≠ none ∨ ∃ msg, handled msg ∧ carriedVs msg = some ⟨viewId, reqId⟩)
  payload : ∀ reqId, reqId ≠ 0 → c.stored ⟨viewId, reqId⟩ ≠ none →
    ∃ data, c.payloadAt ⟨viewId, reqId⟩ = some data ∧ Brings start viewId handled reqId data
  le : c.highestCommittedVs.reqId.toNat ≤ c.highestToCommitVs.reqId.toNat
  filled : ∀ i, 1 ≤ i → i ≤ c.highestCommittedVs.reqId.toNat → c.HasRequest viewId i
  delivered : ∃ fresh, c.delivered = start.delivered ++ fresh ∧
    fresh.map Delivery.vs = stampsAfter ⟨viewId, 0⟩ c.highestCommittedVs.reqId.toNat ∧
    ∀ d ∈ fresh, ∃ data, d.data = some data ∧ Brings start viewId handled d.vs.reqId data

/-- Nothing that may be executed is left. -/
structure Settled (start : Comp) (viewId : UInt32) (handled : ConsensusMsg → Prop) (c : Comp) : Prop
    extends Follows start viewId handled c where
  below : (vstol c.highestToCommitVs).toNat + 1 ≠ 2 ^ 64
  maximal : c.highestCommittedVs.reqId.toNat < c.highestToCommitVs.reqId.toNat →
    ¬ c.HasRequest viewId (c.highestCommittedVs.reqId.toNat + 1)

theorem Settled.longest {start c : Comp} {viewId : UInt32} {handled : ConsensusMsg → Prop}
    (settled : Settled start viewId handled c) :
    LongestPrefix (c.HasRequest viewId) c.highestToCommitVs.reqId.toNat
      c.highestCommittedVs.reqId.toNat :=
  ⟨settled.le, settled.filled, settled.maximal⟩

/-! ## Execution -/

section Execution

variable {start c : Comp} {viewId : UInt32} {handled handled' : ConsensusMsg → Prop}

theorem Brings.mono {reqId : UInt32} {data : List UInt8}
    (brings : Brings start viewId handled reqId data) (implies : ∀ msg, handled msg → handled' msg) :
    Brings start viewId handled' reqId data := by
  rcases brings with initial | ⟨absent, msg, known, carried⟩
  · exact .inl initial
  · exact .inr ⟨absent, msg, implies msg known, carried⟩

theorem stampAfter_boundary (viewId : UInt32) (n : ℕ) :
    stampAfter ⟨viewId, 0⟩ n = ⟨viewId, UInt32.ofNat n⟩ := by
  simp [stampAfter]

theorem Follows.committed_eq (follows : Follows start viewId handled c) :
    c.highestCommittedVs = stampAfter ⟨viewId, 0⟩ c.highestCommittedVs.reqId.toNat := by
  rw [stampAfter_boundary, UInt32.ofNat_toNat, ← follows.committedView]

theorem Follows.stampAfter_committed (follows : Follows start viewId handled c) (n : ℕ) :
    stampAfter c.highestCommittedVs n =
      ⟨viewId, UInt32.ofNat (c.highestCommittedVs.reqId.toNat + n)⟩ := by
  rw [follows.committed_eq, stampAfter_stampAfter, stampAfter_boundary, ← follows.committed_eq]

/-- The next `n` requests, all of them stored, are delivered with what they were brought with. -/
theorem Follows.deliveriesAt (follows : Follows start viewId handled c) (n : ℕ)
    (room : c.highestCommittedVs.reqId.toNat + n < 4294967296)
    (present : ∀ i, i < n → c.stored (stampAfter c.highestCommittedVs (i + 1)) ≠ none) :
    ∀ d ∈ c.deliveriesAt (stampsAfter c.highestCommittedVs n),
      ∃ data, d.data = some data ∧ Brings start viewId handled d.vs.reqId data := by
  intro d member
  obtain ⟨vs, known, rfl⟩ := List.mem_map.mp member
  obtain ⟨i, below, rfl⟩ := List.mem_map.mp known
  have there := present i (List.mem_range.mp below)
  have reqId := stampAfter_reqId c.highestCommittedVs (i + 1)
    (by have := List.mem_range.mp below; omega)
  have nonzero : (stampAfter c.highestCommittedVs (i + 1)).reqId ≠ 0 := by
    intro zero
    rw [zero, UInt32.toNat_zero] at reqId
    omega
  have stamp : stampAfter c.highestCommittedVs (i + 1) =
      ⟨viewId, (stampAfter c.highestCommittedVs (i + 1)).reqId⟩ := by
    rw [← follows.committedView]; rfl
  rw [stamp] at there ⊢
  exact follows.payload _ nonzero there

private theorem Follows.execRange (follows : Follows start viewId handled c)
    (env : Env) (active : start.curView.viewId ≠ 0) :
    Comp.tryToExecute env c =
      Comp.execRange c (vstol c.highestCommittedVs + 1) (vstol c.highestToCommitVs) := by
  have notLeader : c.myRole ≠ .leader := by
    rw [follows.role]
    exact ConRole.noConfusion
  have same : c.highestCommittedVs.viewId = c.highestToCommitVs.viewId :=
    follows.committedView.trans follows.toCommitView.symm
  rw [← follows.view] at active
  simp only [Comp.tryToExecute, if_neg active, if_neg notLeader, follows.running,
    Option.isSome_none, Bool.false_eq_true, if_false, executeCommitted,
    if_neg (not_not_intro same)]

private theorem Follows.committed_le (follows : Follows start viewId handled c) :
    (vstol c.highestCommittedVs).toNat ≤ (vstol c.highestToCommitVs).toNat := by
  have le := follows.le
  rw [vstol_toNat, vstol_toNat, follows.committedView, follows.toCommitView]
  omega

private theorem Follows.afterExec (follows : Follows start viewId handled c)
    (below : (vstol c.highestToCommitVs).toNat + 1 ≠ 2 ^ 64) {n : ℕ}
    {missing : List (Int × ConsensusMsg)} (reaches : c.ExecutesTo c.highestToCommitVs n) :
    Settled start viewId handled (c.afterExec n missing) := by
  have room := reaches.room
  have le := follows.le
  have bound := c.highestToCommitVs.reqId.toNat_lt
  have inside : c.highestCommittedVs.reqId.toNat + n < 4294967296 := by omega
  have moved := stampAfter_reqId c.highestCommittedVs n inside
  exact {
    running := follows.running
    role := follows.role
    view := follows.view
    toCommitView := follows.toCommitView
    committedView := follows.committedView
    above := follows.above
    reaches := follows.reaches
    named := follows.named
    holds := follows.holds
    payload := follows.payload
    le := by
      simp only [Comp.afterExec, moved]
      omega
    filled := by
      simp only [Comp.afterExec, moved]
      intro i low high
      -- executed now, or before this call
      rcases Nat.lt_or_ge c.highestCommittedVs.reqId.toNat i with later | earlier
      · have there := reaches.present (i - c.highestCommittedVs.reqId.toNat - 1) (by omega)
        rw [follows.stampAfter_committed] at there
        rwa [show c.highestCommittedVs.reqId.toNat +
          (i - c.highestCommittedVs.reqId.toNat - 1 + 1) = i by omega] at there
      · exact follows.filled i low earlier
    delivered := by
      obtain ⟨fresh, delivered, stamps, brought⟩ := follows.delivered
      refine ⟨fresh ++ c.deliveriesAt (stampsAfter c.highestCommittedVs n), ?_, ?_, ?_⟩
      · simp only [Comp.afterExec, delivered, List.append_assoc]
      · have later : (c.deliveriesAt (stampsAfter c.highestCommittedVs n)).map Delivery.vs =
            stampsAfter c.highestCommittedVs n := by
          rw [Comp.deliveriesAt, List.map_map]
          exact List.map_id _
        simp only [Comp.afterExec, moved]
        rw [List.map_append, stamps, later, stampsAfter_add, ← follows.committed_eq]
      · intro d member
        rcases List.mem_append.mp member with old | new
        · exact brought d old
        · exact follows.deliveriesAt n inside reaches.present d new
    below := below
    -- execution went on as far as records reach, so the next one is missing
    maximal := by
      simp only [Comp.afterExec, moved]
      intro below there
      apply there
      have gap := reaches.maximal below
      rwa [follows.stampAfter_committed] at gap }

/-- The follower executes what it may, which adds to its deliveries. -/
theorem Follows.tryToExecute (follows : Follows start viewId handled c) (env : Env)
    (active : start.curView.viewId ≠ 0)
    (below : (vstol c.highestToCommitVs).toNat + 1 ≠ 2 ^ 64) :
    Settled start viewId handled (Comp.tryToExecute env c) ∧
      c.delivered <+: (Comp.tryToExecute env c).delivered := by
  have order := follows.committed_le
  have bound := (vstol c.highestToCommitVs).toNat_lt
  obtain ⟨n, missing, reaches, -, result⟩ := execRange_spec c c.highestToCommitVs
    (follows.toCommitView.trans follows.committedView.symm) (by omega)
  rw [follows.execRange env active, result, if_neg fun largest => below largest.2]
  exact ⟨follows.afterExec below reaches, List.prefix_append _ _⟩

/-! ## One message -/

/-- A message changes the commit point and the database as it says, and nothing else that
matters. -/
theorem Settled.absorb (settled : Settled start viewId handled c) (msg : ConsensusMsg)
    (seen toCommit : ViewStamp) (db : Database) (upCalls : List (Int × ConsensusMsg))
    (inView : toCommit.viewId = viewId)
    (above : (vstol c.highestToCommitVs).toNat ≤ (vstol toCommit).toNat)
    (covers : ∀ point, commitPoint msg = some point → (vstol point).toNat ≤ (vstol toCommit).toNat)
    (named : toCommit = c.highestToCommitVs ∨ commitPoint msg = some toCommit)
    (holds : ∀ reqId, reqId ≠ 0 → (db.retrieveRecord (vstol ⟨viewId, reqId⟩) ≠ none ↔
      c.stored ⟨viewId, reqId⟩ ≠ none ∨ carriedVs msg = some ⟨viewId, reqId⟩))
    (payload : ∀ reqId, reqId ≠ 0 → db.retrieveRecord (vstol ⟨viewId, reqId⟩) ≠ none →
      ∃ data, ({ c with db := db } : Comp).payloadAt ⟨viewId, reqId⟩ = some data ∧
        Brings start viewId (fun m => handled m ∨ m = msg) reqId data) :
    Follows start viewId (fun m => handled m ∨ m = msg)
      { c with
        highestSeenVs := seen, highestToCommitVs := toCommit, db := db, upCalls := upCalls } where
  running := settled.running
  role := settled.role
  view := settled.view
  toCommitView := inView
  committedView := settled.committedView
  above := settled.above.trans above
  reaches m known point carried := by
    rcases known with old | rfl
    · exact (settled.reaches m old point carried).trans above
    · exact covers point carried
  named := by
    rcases named with same | carried
    · rcases settled.named with initial | ⟨m, old, carried⟩
      · exact .inl (same.trans initial)
      · exact .inr ⟨m, .inl old, same ▸ carried⟩
    · exact .inr ⟨msg, .inr rfl, carried⟩
  holds reqId nonzero := by
    refine (holds reqId nonzero).trans ?_
    rw [settled.holds reqId nonzero]
    -- a record is there at the start, or carried by a message handled before, or by this one
    constructor
    · rintro ((initial | ⟨m, old, carried⟩) | carried)
      · exact .inl initial
      · exact .inr ⟨m, .inl old, carried⟩
      · exact .inr ⟨msg, .inr rfl, carried⟩
    · rintro (initial | ⟨m, old | rfl, carried⟩)
      · exact .inl (.inl initial)
      · exact .inl (.inr ⟨m, old, carried⟩)
      · exact .inr carried
  payload := payload
  le := by
    have le := settled.le
    rw [vstol_toNat, vstol_toNat, inView, settled.toCommitView] at above
    show c.highestCommittedVs.reqId.toNat ≤ toCommit.reqId.toNat
    omega
  filled i low high := by
    have bound := c.highestCommittedVs.reqId.toNat_lt
    have nonzero : UInt32.ofNat i ≠ 0 := by
      intro zero
      have value := congrArg UInt32.toNat zero
      rw [UInt32.toNat_ofNat', UInt32.toNat_zero, Nat.mod_eq_of_lt] at value
      · omega
      · exact Nat.lt_of_le_of_lt high bound
    exact (holds _ nonzero).mpr (.inl (settled.filled i low high))
  delivered := by
    obtain ⟨fresh, delivered, stamps, brought⟩ := settled.delivered
    refine ⟨fresh, delivered, stamps, fun d member => ?_⟩
    obtain ⟨data, same, brings⟩ := brought d member
    exact ⟨data, same, brings.mono fun _ => .inl⟩

/-- What is stored keeps the payload it was brought with. -/
theorem Settled.kept (settled : Settled start viewId handled c) (msg : ConsensusMsg)
    (reqId : UInt32) (nonzero : reqId ≠ 0) (there : c.stored ⟨viewId, reqId⟩ ≠ none) :
    ∃ data, c.payloadAt ⟨viewId, reqId⟩ = some data ∧
      Brings start viewId (fun m => handled m ∨ m = msg) reqId data := by
  obtain ⟨data, payload, brings⟩ := settled.payload reqId nonzero there
  exact ⟨data, payload, brings.mono fun _ => .inl⟩

/-- Requests up to the committed one are stored. -/
theorem Settled.stored_of_le (settled : Settled start viewId handled c) (vs : ViewStamp)
    (inView : vs.viewId = viewId) (nonzero : vs.reqId ≠ 0)
    (committed : (vstol vs).toNat ≤ (vstol c.highestCommittedVs).toNat) : c.stored vs ≠ none := by
  have positive : vs.reqId.toNat ≠ 0 := fun zero => nonzero (UInt32.toNat_inj.mp zero)
  rw [vstol_toNat, vstol_toNat, inView, settled.committedView] at committed
  have there := settled.filled vs.reqId.toNat (by omega) (by omega)
  rw [HasRequest, UInt32.ofNat_toNat, ← inView] at there
  exact there

/-- A message that neither moves the commit point nor stores anything. -/
theorem Settled.skip (settled : Settled start viewId handled c) (msg : ConsensusMsg)
    (covers : ∀ point, commitPoint msg = some point →
      (vstol point).toNat ≤ (vstol c.highestToCommitVs).toNat)
    (known : ∀ reqId, reqId ≠ 0 → carriedVs msg = some ⟨viewId, reqId⟩ →
      c.stored ⟨viewId, reqId⟩ ≠ none) :
    Settled start viewId (fun m => handled m ∨ m = msg) c where
  toFollows := settled.absorb msg c.highestSeenVs c.highestToCommitVs c.db c.upCalls
    settled.toCommitView le_rfl covers (.inl rfl)
    (fun reqId nonzero => ⟨.inl, fun either => either.elim id (known reqId nonzero)⟩)
    (settled.kept msg)
  below := settled.below
  maximal := settled.maximal

/-- A request stored under its own stamp. -/
private theorem Settled.store (settled : Settled start viewId handled c) (msg : ConsensusMsg)
    (vs : ViewStamp) (record : RequestRecord) (inView : vs.viewId = viewId)
    (brings : vs.reqId ≠ 0 →
      Brings start viewId (fun m => handled m ∨ m = msg) vs.reqId record.data) :
    (∀ reqId, reqId ≠ 0 →
      ((c.db.storeRecord (vstol vs) (.request record)).retrieveRecord (vstol ⟨viewId, reqId⟩) ≠
        none ↔ c.stored ⟨viewId, reqId⟩ ≠ none ∨ some vs = some ⟨viewId, reqId⟩)) ∧
    (∀ reqId, reqId ≠ 0 →
      (c.db.storeRecord (vstol vs) (.request record)).retrieveRecord (vstol ⟨viewId, reqId⟩) ≠
        none → ∃ data, ({ c with db := c.db.storeRecord (vstol vs) (.request record) } :
          Comp).payloadAt ⟨viewId, reqId⟩ = some data ∧
            Brings start viewId (fun m => handled m ∨ m = msg) reqId data) := by
  have lookup : ∀ reqId, c.db.retrieveRecord (vstol ⟨viewId, reqId⟩) = c.stored ⟨viewId, reqId⟩ :=
    fun _ => rfl
  constructor
  · intro reqId _
    simp only [Database.retrieveRecord_storeRecord, vstol_inj, lookup, Option.some_inj]
    by_cases same : (⟨viewId, reqId⟩ : ViewStamp) = vs
    · simp [same]
    · simp [same, Ne.symm same]
  · intro reqId nonzero there
    have before := settled.kept msg reqId nonzero
    simp only [payloadAt, Database.retrieveRecord_storeRecord, vstol_inj] at there before ⊢
    by_cases same : (⟨viewId, reqId⟩ : ViewStamp) = vs
    · subst same
      exact ⟨record.data, by simp, brings nonzero⟩
    · rw [if_neg same] at there ⊢
      exact before there

private theorem noPoint_skip (msg : ConsensusMsg) (c : Comp) (none : commitPoint msg = none) :
    ∀ point, commitPoint msg = some point →
      (vstol point).toNat ≤ (vstol c.highestToCommitVs).toNat := by
  intro point carried
  rw [none] at carried
  cases carried

/-- What a follower has after handling a message: it is settled, and has kept its deliveries. -/
def Absorbs (start : Comp) (viewId : UInt32) (handled : ConsensusMsg → Prop) (c c' : Comp) : Prop :=
  Settled start viewId handled c' ∧ c.delivered <+: c'.delivered

/-- A request of the leader. -/
theorem Settled.acceptReq {log : UInt32 → List UInt8} (settled : Settled start viewId handled c)
    (env : Env) (stores : env.storeOk = true) (active : start.curView.viewId = viewId)
    (nonzero : viewId ≠ 0)
    (own : ∀ reqId, reqId ≠ 0 → start.stored ⟨viewId, reqId⟩ ≠ none →
      start.payloadAt ⟨viewId, reqId⟩ = some (log reqId))
    (msgVs reqCanbeExed : ViewStamp) (record : RequestRecord) (inView : msgVs.viewId = viewId)
    (payload : record.data = log msgVs.reqId) (earlier : viewStampComp reqCanbeExed msgVs < 0) :
    Absorbs start viewId
      (fun m => handled m ∨ m = .acceptReq msgVs reqCanbeExed start.curView.leaderId record) c
      (handleAcceptReq env c msgVs reqCanbeExed start.curView.leaderId record) := by
  have order := (viewStampComp_neg _ _).mp earlier
  have bound := (vstol msgVs).toNat_lt
  have active' : start.curView.viewId ≠ 0 := active ▸ nonzero
  rw [Comp.handleAcceptReq]
  rcases storeAcceptReq_cases env c msgVs reqCanbeExed start.curView.leaderId record with
    ⟨ignored, why⟩ | ⟨-, -, -, ⟨failed, -⟩ | ⟨-, stored⟩⟩
  · -- only a request that is committed already is ignored
    have committed : (vstol msgVs).toNat ≤ (vstol c.highestCommittedVs).toNat := by
      rcases why with older | ⟨-, stranger⟩ | committed
      · rw [settled.view, active, inView] at older
        exact absurd older (Nat.lt_irrefl _)
      · exact absurd (settled.view ▸ rfl) stranger
      · exact committed
    have skipped := settled.skip (.acceptReq msgVs reqCanbeExed start.curView.leaderId record)
      (fun point carried => by
        have reached := settled.committed_le
        obtain rfl := Option.some.inj carried
        omega)
      (fun reqId positive carried => by
        have same := Option.some.inj carried
        simp only at same
        rw [← same]
        exact settled.stored_of_le msgVs inView (by rw [same]; exact positive) committed)
    rw [ignored]
    exact skipped.tryToExecute env active' skipped.below
  · rw [stores] at failed
    cases failed
  · obtain ⟨seen, toCommit, noted, -, -, toCommitIs, above, covered⟩ :=
      noteAcceptReq_cases c msgVs reqCanbeExed
    -- a record from before the view was entered has the payload the leader sends
    have brings : msgVs.reqId ≠ 0 → Brings start viewId (fun m => handled m ∨
        m = .acceptReq msgVs reqCanbeExed start.curView.leaderId record) msgVs.reqId
          (acceptedRecord env record).data := by
      intro positive
      by_cases absent : start.stored ⟨viewId, msgVs.reqId⟩ = none
      · refine .inr ⟨absent, _, .inr rfl, ?_⟩
        rw [← inView]
        rfl
      · refine .inl ((own msgVs.reqId positive absent).trans ?_)
        rw [← payload]
        rfl
    obtain ⟨holds, payloads⟩ := settled.store _ msgVs (acceptedRecord env record) inView brings
    rw [stored, noted]
    -- a commit point of another view is below every stamp of this one
    have toCommitView : toCommit.viewId = viewId := by
      rcases toCommitIs with rfl | rfl
      · exact settled.toCommitView
      · apply UInt32.toNat_inj.mp
        apply Nat.le_antisymm
        · rw [← inView]
          exact viewId_le_of_vstol_le (by omega)
        · rw [← settled.toCommitView]
          exact viewId_le_of_vstol_le above
    have below : (vstol toCommit).toNat + 1 ≠ 2 ^ 64 := by
      rcases toCommitIs with rfl | rfl
      · exact settled.below
      · omega
    have follows := settled.absorb (.acceptReq msgVs reqCanbeExed start.curView.leaderId record)
      seen toCommit _ (c.upCalls ++ [(start.curView.leaderId, c.buildAcceptAck msgVs)])
      toCommitView above (fun point carried => Option.some.inj carried ▸ covered)
      (toCommitIs.imp_right fun same => congrArg some same.symm) holds payloads
    exact follows.tryToExecute env active' below

theorem largest_iff (vs : ViewStamp) : (vstol vs).toNat + 1 = 2 ^ 64 ↔ vs = largestVs := by
  have view_lt := vs.viewId.toNat_lt
  have req_lt := vs.reqId.toNat_lt
  rw [vstol_toNat]
  constructor
  · intro largest
    apply ViewStamp.ext_toNat
    · simp only [largestVs, UInt32.reduceToNat]
      omega
    · simp only [largestVs, UInt32.reduceToNat]
      omega
  · rintro rfl
    rfl

/-- A commit point of the leader. -/
theorem Settled.forceExec (settled : Settled start viewId handled c) (env : Env)
    (active : start.curView.viewId ≠ 0) (highestCommittedOp : ViewStamp)
    (inView : highestCommittedOp.viewId = viewId) (room : highestCommittedOp ≠ largestVs) :
    Absorbs start viewId
      (fun m => handled m ∨ m = .forceExec start.curView.leaderId highestCommittedOp) c
      (handleForceExec env c start.curView.leaderId highestCommittedOp) := by
  rcases handleForceExec_cases env c start.curView.leaderId highestCommittedOp with
    ⟨ignored, why⟩ | ⟨-, further, moved⟩
  · have reached : (vstol highestCommittedOp).toNat ≤ (vstol c.highestToCommitVs).toNat := by
      rcases why with stranger | reached
      · exact absurd (settled.view ▸ rfl) stranger
      · exact reached
    rw [ignored]
    exact ⟨settled.skip _ (fun point carried => Option.some.inj carried ▸ reached)
      (fun _ _ carried => by cases carried), List.prefix_rfl⟩
  · rw [moved]
    have follows := settled.absorb (.forceExec start.curView.leaderId highestCommittedOp)
      c.highestSeenVs highestCommittedOp c.db c.upCalls inView further.le
      (fun point carried => Option.some.inj carried ▸ le_rfl) (.inr rfl)
      (fun _ _ => ⟨.inl, fun either => either.elim id fun carried => by cases carried⟩)
      (settled.kept _)
    exact follows.tryToExecute env active fun largest => room ((largest_iff _).mp largest)

/-- A record of the leader that was asked for. -/
theorem Settled.missingAck (settled : Settled start viewId handled c) (env : Env)
    (stores : env.storeOk = true) (active : start.curView.viewId ≠ 0) (nodeId : NodeId)
    (missingVs : ViewStamp) (record : RequestRecord) (inView : missingVs.viewId = viewId) :
    Absorbs start viewId (fun m => handled m ∨ m = .missingAck nodeId missingVs record) c
      (handleMissingAck env c missingVs record) := by
  have silent := noPoint_skip (.missingAck nodeId missingVs record) c rfl
  rcases handleMissingAck_cases env c missingVs record with
    ⟨ignored, why⟩ | ⟨-, absent, ⟨failed, -⟩ | ⟨-, stored⟩⟩
  · rw [ignored]
    refine ⟨settled.skip _ silent fun reqId nonzero carried => ?_, List.prefix_rfl⟩
    have same := Option.some.inj carried
    simp only at same
    rw [← same]
    rcases why with committed | there
    · exact settled.stored_of_le missingVs inView (by rw [same]; exact nonzero) committed
    · exact there
  · rw [stores] at failed
    cases failed
  · -- nothing is stored under the stamp, so nothing was at the start
    have brings : missingVs.reqId ≠ 0 → Brings start viewId (fun m => handled m ∨
        m = .missingAck nodeId missingVs record) missingVs.reqId (missingRecord env record).data := by
      intro positive
      have stamp : missingVs = ⟨viewId, missingVs.reqId⟩ := by rw [← inView]
      refine .inr ⟨?_, _, .inr rfl, congrArg (fun vs => some (vs, record.data)) stamp⟩
      by_contra there
      rw [stamp] at absent
      exact (settled.holds missingVs.reqId positive).mpr (.inl there) absent
    obtain ⟨holds, payloads⟩ := settled.store _ missingVs (missingRecord env record) inView brings
    rw [stored]
    have follows := settled.absorb (.missingAck nodeId missingVs record) c.highestSeenVs
      c.highestToCommitVs _ c.upCalls settled.toCommitView le_rfl silent (.inl rfl) holds payloads
    exact follows.tryToExecute env active settled.below

/-- One message of the leader. -/
theorem Settled.handle {log : UInt32 → List UInt8} (settled : Settled start viewId handled c)
    (env : Env) (stores : env.storeOk = true) (active : start.curView.viewId = viewId)
    (nonzero : viewId ≠ 0)
    (own : ∀ reqId, reqId ≠ 0 → start.stored ⟨viewId, reqId⟩ ≠ none →
      start.payloadAt ⟨viewId, reqId⟩ = some (log reqId))
    (msg : ConsensusMsg) (source : FromLeader viewId start.curView.leaderId log msg) :
    Absorbs start viewId (fun m => handled m ∨ m = msg) c (consensusHandleMsg env c msg) := by
  have active' : start.curView.viewId ≠ 0 := active ▸ nonzero
  cases source with
  | acceptReq msgVs reqCanbeExed record inView payload earlier =>
    exact settled.acceptReq env stores active nonzero own msgVs reqCanbeExed record inView payload
      earlier
  | forceExec highestCommittedOp inView room =>
    exact settled.forceExec env active' highestCommittedOp inView room
  | missingAck nodeId missingVs record read inView payload received =>
    exact settled.missingAck env stores active' nodeId missingVs read inView

end Execution

/-! ## Any order of messages -/

theorem handleMsgs_cons (c : Comp) (env : Env) (msg : ConsensusMsg)
    (rest : List (Env × ConsensusMsg)) (running : c.fault = none) :
    c.handleMsgs ((env, msg) :: rest) = (consensusHandleMsg env c msg).handleMsgs rest := by
  simp [handleMsgs, running]

theorem handleMsgs_append (c : Comp) (early late : List (Env × ConsensusMsg)) :
    c.handleMsgs (early ++ late) = (c.handleMsgs early).handleMsgs late := List.foldl_append ..

section Order

variable {start : Comp} {viewId : UInt32} {log : UInt32 → List UInt8}

/-- The messages of a list come from the leader and every store succeeds. -/
def LeaderMessages (start : Comp) (viewId : UInt32) (log : UInt32 → List UInt8)
    (msgs : List (Env × ConsensusMsg)) : Prop :=
  ∀ m ∈ msgs, m.1.storeOk = true ∧ FromLeader viewId start.curView.leaderId log m.2

/-- A follower that has just entered the view of the leader; the requests of the view it has
already have the leader's payloads. -/
structure Entered (start : Comp) (viewId : UInt32) (log : UInt32 → List UInt8) : Prop where
  settled : Settled start viewId (fun _ => False) start
  active : start.curView.viewId = viewId
  nonzero : viewId ≠ 0
  toCommit : start.highestToCommitVs = ⟨viewId, 0⟩
  own : ∀ reqId, reqId ≠ 0 → start.stored ⟨viewId, reqId⟩ ≠ none →
    start.payloadAt ⟨viewId, reqId⟩ = some (log reqId)

/-- A list of messages is absorbed as a set. -/
theorem Settled.handleMsgs {c : Comp} {handled : ConsensusMsg → Prop}
    (settled : Settled start viewId handled c) (entered : Entered start viewId log)
    (msgs : List (Env × ConsensusMsg)) (source : LeaderMessages start viewId log msgs) :
    Absorbs start viewId (fun msg => handled msg ∨ msg ∈ msgs.map Prod.snd) c
      (c.handleMsgs msgs) := by
  induction msgs generalizing c handled with
  | nil => exact ⟨by simpa [Comp.handleMsgs] using settled, List.prefix_rfl⟩
  | cons m rest ih =>
    obtain ⟨env, msg⟩ := m
    obtain ⟨stores, fromLeader⟩ := source (env, msg) (by simp)
    obtain ⟨next, grown⟩ := settled.handle env stores entered.active entered.nonzero entered.own msg
      fromLeader
    obtain ⟨all, grown'⟩ := ih next fun m member => source m (List.mem_cons_of_mem _ member)
    rw [handleMsgs_cons c env msg rest settled.running]
    exact ⟨by simpa [or_assoc] using all, grown.trans grown'⟩

theorem Entered.handleMsgs (entered : Entered start viewId log)
    (msgs : List (Env × ConsensusMsg)) (source : LeaderMessages start viewId log msgs) :
    Settled start viewId (· ∈ msgs.map Prod.snd) (start.handleMsgs msgs) := by
  obtain ⟨settled, -⟩ := entered.settled.handleMsgs entered msgs source
  simpa using settled

/-- Once all these messages are handled the request is executed: it and those before it are there,
and one of them brings a commit point that far. -/
structure Executable (start : Comp) (viewId : UInt32) (msgs : ConsensusMsg → Prop)
    (reqId : UInt32) : Prop where
  there : ∀ i : UInt32, i ≠ 0 → i.toNat ≤ reqId.toNat →
    start.stored ⟨viewId, i⟩ ≠ none ∨ ∃ msg, msgs msg ∧ carriedVs msg = some ⟨viewId, i⟩
  point : ∃ msg, msgs msg ∧ ∃ point, commitPoint msg = some point ∧
    (vstol ⟨viewId, reqId⟩).toNat ≤ (vstol point).toNat

/-- The messages that carry a request that is executed carry it with one payload, unless it is
stored when the view is entered. -/
def OnePayload (start : Comp) (viewId : UInt32) (msgs : ConsensusMsg → Prop) : Prop :=
  ∀ reqId, reqId ≠ 0 → Executable start viewId msgs reqId →
    start.stored ⟨viewId, reqId⟩ = none → ∀ msg msg', msgs msg → msgs msg' → ∀ data data',
    carriedRequest msg = some (⟨viewId, reqId⟩, data) →
    carriedRequest msg' = some (⟨viewId, reqId⟩, data') → data = data'

theorem OnePayload.brings {msgs : ConsensusMsg → Prop} (one : OnePayload start viewId msgs)
    {reqId : UInt32} (nonzero : reqId ≠ 0) (executable : Executable start viewId msgs reqId)
    {data data' : List UInt8} (first : Brings start viewId msgs reqId data)
    (second : Brings start viewId msgs reqId data') : data = data' := by
  have stored {payload : List UInt8} (initial : start.payloadAt ⟨viewId, reqId⟩ = some payload) :
      start.stored ⟨viewId, reqId⟩ ≠ none := by
    intro absent
    have lookup : start.db.retrieveRecord (vstol ⟨viewId, reqId⟩) = none := absent
    rw [payloadAt, lookup] at initial
    cases initial
  rcases first with initial | ⟨absent, msg, known, carried⟩
  · rcases second with initial' | ⟨absent, -⟩
    · exact Option.some.inj (initial.symm.trans initial')
    · exact absurd absent (stored initial)
  · rcases second with initial | ⟨-, msg', known', carried'⟩
    · exact absurd absent (stored initial)
    · exact one reqId nonzero executable absent msg msg' known known' data data' carried carried'

section Settled

variable {c c' : Comp} {handled handled' : ConsensusMsg → Prop}

/-- Exactly what is executable is executed. -/
theorem Settled.committed_iff (settled : Settled start viewId handled c)
    (entered : Entered start viewId log) (reqId : UInt32) (nonzero : reqId ≠ 0) :
    reqId.toNat ≤ c.highestCommittedVs.reqId.toNat ↔ Executable start viewId handled reqId := by
  have positive : reqId.toNat ≠ 0 := fun zero => nonzero (UInt32.toNat_inj.mp zero)
  have le := settled.le
  have stored (i : UInt32) (iNonzero : i ≠ 0) (there : c.HasRequest viewId i.toNat) :
      start.stored ⟨viewId, i⟩ ≠ none ∨ ∃ msg, handled msg ∧ carriedVs msg = some ⟨viewId, i⟩ := by
    rw [HasRequest, UInt32.ofNat_toNat] at there
    exact (settled.holds i iNonzero).mp there
  constructor
  · intro committed
    refine ⟨fun i iNonzero low => stored i iNonzero (settled.filled i.toNat ?_ (by omega)), ?_⟩
    · have iPositive : i.toNat ≠ 0 := fun zero => iNonzero (UInt32.toNat_inj.mp zero)
      omega
    · rcases settled.named with initial | ⟨msg, known, carried⟩
      · -- at the start nothing of the view may be executed
        rw [initial, entered.toCommit, UInt32.toNat_zero] at le
        omega
      · refine ⟨msg, known, _, carried, ?_⟩
        rw [vstol_toNat, vstol_toNat, settled.toCommitView]
        show viewId.toNat * 4294967296 + reqId.toNat ≤ _
        omega
  · intro executable
    by_contra later
    obtain ⟨msg, known, point, carried, far⟩ := executable.point
    have reached := far.trans (settled.reaches msg known point carried)
    rw [vstol_toNat, vstol_toNat, settled.toCommitView] at reached
    have bound := reqId.toNat_lt
    have inside : reqId.toNat ≤ c.highestToCommitVs.reqId.toNat := by
      have split : viewId.toNat * 4294967296 + reqId.toNat ≤
        viewId.toNat * 4294967296 + c.highestToCommitVs.reqId.toNat := reached
      omega
    -- the first request that is not executed would be there
    let next : UInt32 := UInt32.ofNat (c.highestCommittedVs.reqId.toNat + 1)
    have value : next.toNat = c.highestCommittedVs.reqId.toNat + 1 := by
      rw [UInt32.toNat_ofNat']
      omega
    have nextNonzero : next ≠ 0 := by
      intro zero
      rw [zero, UInt32.toNat_zero] at value
      omega
    refine settled.maximal (by omega) ?_
    exact (settled.holds next nextNonzero).mpr (executable.there next nextNonzero (by omega))

/-- The deliveries of a settled follower, by their numbers. -/
theorem Settled.delivered_at (settled : Settled start viewId handled c) (reqId : UInt32)
    (nonzero : reqId ≠ 0) (committed : reqId.toNat ≤ c.highestCommittedVs.reqId.toNat) :
    ∃ data, c.delivered[start.delivered.length + (reqId.toNat - 1)]? =
      some ⟨⟨viewId, reqId⟩, some data⟩ ∧ Brings start viewId handled reqId data := by
  have positive : reqId.toNat ≠ 0 := fun zero => nonzero (UInt32.toNat_inj.mp zero)
  obtain ⟨fresh, delivered, stamps, brought⟩ := settled.delivered
  have length : fresh.length = c.highestCommittedVs.reqId.toNat := by
    have same := congrArg List.length stamps
    simpa [stampsAfter] using same
  have inside : reqId.toNat - 1 < fresh.length := by omega
  have stamp : fresh[reqId.toNat - 1].vs = ⟨viewId, reqId⟩ := by
    have there : (fresh.map Delivery.vs)[reqId.toNat - 1]? =
        (stampsAfter ⟨viewId, 0⟩ c.highestCommittedVs.reqId.toNat)[reqId.toNat - 1]? := by
      rw [stamps]
    rw [List.getElem?_map, List.getElem?_eq_getElem inside, stampsAfter, List.getElem?_map,
      List.getElem?_range (by omega)] at there
    have same : fresh[reqId.toNat - 1].vs = stampAfter ⟨viewId, 0⟩ (reqId.toNat - 1 + 1) :=
      Option.some.inj there
    rw [same, stampAfter_boundary, Nat.sub_add_cancel (by omega), UInt32.ofNat_toNat]
  obtain ⟨data, same, brings⟩ := brought _ (List.getElem_mem inside)
  rw [stamp] at brings
  refine ⟨data, ?_, brings⟩
  rw [delivered, List.getElem?_append_right (by omega), Nat.add_sub_cancel_left,
    List.getElem?_eq_getElem inside, ← stamp, ← same]

/-- Two followers that have absorbed the same messages have the same commit points. -/
theorem Settled.agree (first : Settled start viewId handled c)
    (second : Settled start viewId handled' c') (entered : Entered start viewId log)
    (same : ∀ msg, handled msg ↔ handled' msg) :
    c.highestToCommitVs = c'.highestToCommitVs ∧ c.highestCommittedVs = c'.highestCommittedVs := by
  have toCommit_le : ∀ {a b : Comp} {p q : ConsensusMsg → Prop},
      Settled start viewId p a → Settled start viewId q b → (∀ msg, p msg → q msg) →
      (vstol a.highestToCommitVs).toNat ≤ (vstol b.highestToCommitVs).toNat := by
    intro a b p q left right implies
    rcases left.named with initial | ⟨msg, known, carried⟩
    · rw [initial]
      exact right.above
    · exact right.reaches msg (implies msg known) _ carried
  have toCommit : c.highestToCommitVs = c'.highestToCommitVs := by
    apply (vstol_inj _ _).mp
    apply UInt64.toNat_inj.mp
    exact Nat.le_antisymm (toCommit_le first second fun msg => (same msg).mp)
      (toCommit_le second first fun msg => (same msg).mpr)
  obtain rfl : handled = handled' := funext fun msg => propext (same msg)
  -- both have executed exactly what is executable
  have committed_le : ∀ {a b : Comp}, Settled start viewId handled a →
      Settled start viewId handled b →
      a.highestCommittedVs.reqId.toNat ≤ b.highestCommittedVs.reqId.toNat := by
    intro a b left right
    by_cases none : a.highestCommittedVs.reqId = 0
    · rw [none, UInt32.toNat_zero]
      exact Nat.zero_le _
    · exact (right.committed_iff entered _ none).mpr ((left.committed_iff entered _ none).mp le_rfl)
  refine ⟨toCommit, ?_⟩
  rw [first.committed_eq, second.committed_eq,
    Nat.le_antisymm (committed_le first second) (committed_le second first)]

/-- If requests come with one payload each, they have delivered the same. -/
theorem Settled.agree_delivered (first : Settled start viewId handled c)
    (second : Settled start viewId handled' c') (entered : Entered start viewId log)
    (same : ∀ msg, handled msg ↔ handled' msg) (one : OnePayload start viewId handled) :
    c.delivered = c'.delivered := by
  obtain ⟨-, committed⟩ := first.agree second entered same
  obtain rfl : handled = handled' := funext fun msg => propext (same msg)
  obtain ⟨fresh, delivered, stamps, -⟩ := first.delivered
  obtain ⟨fresh', delivered', stamps', -⟩ := second.delivered
  have length : fresh.length = c.highestCommittedVs.reqId.toNat := by
    simpa [stampsAfter] using congrArg List.length stamps
  have length' : fresh'.length = c.highestCommittedVs.reqId.toNat := by
    rw [committed]
    simpa [stampsAfter] using congrArg List.length stamps'
  rw [delivered, delivered']
  congr 1
  apply List.ext_getElem (length.trans length'.symm)
  intro i inside inside'
  have bound := c.highestCommittedVs.reqId.toNat_lt
  let reqId : UInt32 := UInt32.ofNat (i + 1)
  have value : reqId.toNat = i + 1 := by
    rw [UInt32.toNat_ofNat']
    omega
  have nonzero : reqId ≠ 0 := by
    intro zero
    rw [zero, UInt32.toNat_zero] at value
    omega
  have reached : reqId.toNat ≤ c.highestCommittedVs.reqId.toNat := by omega
  obtain ⟨data, there, brings⟩ := first.delivered_at reqId nonzero reached
  obtain ⟨data', there', brings'⟩ := second.delivered_at reqId nonzero (committed ▸ reached)
  have index : reqId.toNat - 1 = i := by omega
  rw [index, delivered, List.getElem?_append_right (by omega), Nat.add_sub_cancel_left,
    List.getElem?_eq_getElem inside] at there
  rw [index, delivered', List.getElem?_append_right (by omega), Nat.add_sub_cancel_left,
    List.getElem?_eq_getElem inside'] at there'
  rw [Option.some.inj there, Option.some.inj there', one.brings nonzero
    ((first.committed_iff entered reqId nonzero).mp reached) brings brings']

end Settled

end Order

/-! ## The state in which a view is entered -/

/-- The follower right after `update_view` has brought it into the view. -/
theorem updateView_entered (env : Env) (before : Comp) (newViewInfo : View)
    (log : UInt32 → List UInt8) (running : before.fault = none) (stores : env.storeOk = true)
    (entered : newViewInfo.viewId.toNat = before.curView.viewId.toNat + 1)
    (secondary : newViewInfo.leaderId ≠ before.nodeId)
    (stored : ∀ reqId, reqId ≠ 0 → before.stored ⟨newViewInfo.viewId, reqId⟩ ≠ none →
      before.payloadAt ⟨newViewInfo.viewId, reqId⟩ = some (log reqId)) :
    Entered (updateView env before newViewInfo) newViewInfo.viewId log ∧
      (updateView env before newViewInfo).curView = newViewInfo := by
  have view_lt := newViewInfo.viewId.toNat_lt
  have successor : before.curView.viewId + 1 = newViewInfo.viewId := by
    apply UInt32.toNat_inj.mp
    rw [UInt32.toNat_add, UInt32.toNat_one]
    omega
  have result : updateView env before newViewInfo = consensusUpdateRole
      { before with curView := newViewInfo, db := boundaryDb env before newViewInfo } := by
    simp only [updateView, if_pos successor, storeViewBoundary, boundaryDb, stores]
    by_cases first : newViewInfo.viewId = 1 <;> simp [first, running]
  -- requests of the new view are not touched by the boundary
  have lookup : ∀ reqId, reqId ≠ 0 →
      (boundaryDb env before newViewInfo).retrieveRecord (vstol ⟨newViewInfo.viewId, reqId⟩) =
        before.stored ⟨newViewInfo.viewId, reqId⟩ := by
    intro reqId nonzero
    have notBoundary : (⟨newViewInfo.viewId, reqId⟩ : ViewStamp) ≠ ⟨newViewInfo.viewId, 0⟩ :=
      fun same => nonzero (congrArg ViewStamp.reqId same)
    have notLast : (⟨newViewInfo.viewId, reqId⟩ : ViewStamp) ≠
        ⟨newViewInfo.viewId - 1, newViewInfo.reqId + 1⟩ := by
      intro same
      have views := congrArg (fun vs : ViewStamp => vs.viewId + 1) same
      simp only [UInt32.sub_add_cancel] at views
      have sum := congrArg UInt32.toNat views
      rw [UInt32.toNat_add, UInt32.toNat_one] at sum
      omega
    simp only [boundaryDb]
    split
    next first => rfl
    next other =>
      rw [Database.retrieveRecord_deleteRecord, if_neg (mt (vstol_inj _ _).mp notLast),
        Database.retrieveRecord_storeRecord, if_neg (mt (vstol_inj _ _).mp notBoundary)]
      rfl
  rw [result]
  have own : ∀ reqId, reqId ≠ 0 →
      (boundaryDb env before newViewInfo).retrieveRecord (vstol ⟨newViewInfo.viewId, reqId⟩) ≠
        none → (consensusUpdateRole { before with
          curView := newViewInfo, db := boundaryDb env before newViewInfo }).payloadAt
            ⟨newViewInfo.viewId, reqId⟩ = some (log reqId) := by
    intro reqId nonzero there
    rw [lookup reqId nonzero] at there
    have payload := stored reqId nonzero there
    rw [payloadAt] at payload ⊢
    simp only [consensusUpdateRole, lookup reqId nonzero]
    exact payload
  refine ⟨⟨?_, rfl, ?_, rfl, own⟩, rfl⟩
  · exact {
      running := running
      role := by simp [consensusUpdateRole, secondary]
      view := rfl
      toCommitView := rfl
      committedView := rfl
      above := le_rfl
      reaches := fun _ known => known.elim
      named := .inl rfl
      holds := by
        intro reqId _
        constructor
        · exact .inl
        · rintro (there | ⟨_, known, _⟩)
          · exact there
          · exact known.elim
      payload := fun reqId nonzero there =>
        ⟨log reqId, own reqId nonzero there, .inl (own reqId nonzero there)⟩
      le := le_rfl
      filled := by
        intro i low high
        simp only [consensusUpdateRole, UInt32.toNat_zero] at high
        omega
      delivered := ⟨[], by simp [consensusUpdateRole], by simp [consensusUpdateRole],
        fun d member => by cases member⟩
      below := by
        simp only [consensusUpdateRole, vstol_boundary]
        omega
      maximal := fun below => absurd below (Nat.lt_irrefl _) }
  · intro zero
    rw [zero, UInt32.toNat_zero] at entered
    omega

/-! ## Confluence -/

/-- A follower that was sent two lists of messages ends in the same place, the longest stored
prefix of the view. -/
structure Confluent (start : Comp) (first second : List (Env × ConsensusMsg)) : Prop where
  returns : (start.handleMsgs first).fault = none ∧ (start.handleMsgs second).fault = none
  toCommit : (start.handleMsgs first).highestToCommitVs =
    (start.handleMsgs second).highestToCommitVs
  committed : (start.handleMsgs first).highestCommittedVs =
    (start.handleMsgs second).highestCommittedVs
  delivered : (start.handleMsgs first).delivered = (start.handleMsgs second).delivered
  longest : ∃ k, (start.handleMsgs first).highestCommittedVs =
      stampAfter ⟨start.curView.viewId, 0⟩ k ∧
    LongestPrefix ((start.handleMsgs first).HasRequest start.curView.viewId)
      (start.handleMsgs first).highestToCommitVs.reqId.toNat k ∧
    (start.handleMsgs first).delivered.map Delivery.vs =
      start.delivered.map Delivery.vs ++ stampsAfter ⟨start.curView.viewId, 0⟩ k

section Confluence

variable {start : Comp} {viewId : UInt32} {log : UInt32 → List UInt8}
  {first : List (Env × ConsensusMsg)}

/-- An order in which a request is delivered with the payload of a message of choice: all that does
not carry the request comes before it, the rest after it. -/
def withFirst (vs : ViewStamp) (m : Env × ConsensusMsg) (msgs : List (Env × ConsensusMsg)) :
    List (Env × ConsensusMsg) :=
  (msgs.filter fun m => decide (carriedVs m.2 ≠ some vs)) ++ [m] ++ msgs

theorem mem_withFirst {vs : ViewStamp} {m : Env × ConsensusMsg} (member : m ∈ first)
    (other : Env × ConsensusMsg) : other ∈ withFirst vs m first ↔ other ∈ first := by
  simp only [withFirst, List.mem_append, List.mem_filter, List.mem_singleton]
  constructor
  · rintro ((⟨there, -⟩ | rfl) | there)
    · exact there
    · exact member
    · exact there
  · exact .inr

/-- A request that is executable is so without the messages that carry it, but for one. -/
theorem Executable.withFirst {reqId : UInt32} {m : Env × ConsensusMsg} {data : List UInt8}
    {leaderId : NodeId} (fromLeader : ∀ m ∈ first, FromLeader viewId leaderId log m.2)
    (executable : Executable start viewId (· ∈ first.map Prod.snd) reqId)
    (carries : carriedRequest m.2 = some (⟨viewId, reqId⟩, data)) :
    Executable start viewId (· ∈ ((first.filter fun m =>
      decide (carriedVs m.2 ≠ some ⟨viewId, reqId⟩)) ++ [m]).map Prod.snd) reqId := by
  have early {other : Env × ConsensusMsg} (member : other ∈ first)
      (different : carriedVs other.2 ≠ some ⟨viewId, reqId⟩) :
      other.2 ∈ ((first.filter fun m =>
        decide (carriedVs m.2 ≠ some ⟨viewId, reqId⟩)) ++ [m]).map Prod.snd :=
    List.mem_map_of_mem (List.mem_append_left _
      (List.mem_filter.mpr ⟨member, decide_eq_true different⟩))
  constructor
  · intro i nonzero le
    rcases executable.there i nonzero le with initial | ⟨msg, known, carried⟩
    · exact .inl initial
    · obtain ⟨other, member, rfl⟩ := List.mem_map.mp known
      by_cases same : i = reqId
      · refine .inr ⟨m.2, by simp, ?_⟩
        rw [same]
        exact carriedVs_eq_some.mpr ⟨data, carries⟩
      · refine .inr ⟨other.2, early member ?_, carried⟩
        rw [carried]
        intro equal
        exact same (congrArg ViewStamp.reqId (Option.some.inj equal))
  · obtain ⟨msg, known, point, carried, far⟩ := executable.point
    obtain ⟨other, member, rfl⟩ := List.mem_map.mp known
    refine ⟨other.2, early member ?_, point, carried, far⟩
    -- a message that carries the request brings a commit point below it
    intro same
    have source := fromLeader other member
    obtain ⟨env, msg⟩ := other
    simp only at source same carried
    cases source with
    | acceptReq msgVs reqCanbeExed record inView payload earlier =>
      have order := (viewStampComp_neg _ _).mp earlier
      obtain rfl := Option.some.inj carried
      have stamp : msgVs = ⟨viewId, reqId⟩ := Option.some.inj same
      rw [← stamp] at far
      omega
    | forceExec highestCommittedOp inView room => cases same
    | missingAck nodeId missingVs record read inView payload received => cases carried

/-- In that order the request is delivered with the payload of the message. -/
theorem delivered_withFirst (entered : Entered start viewId log)
    (source : LeaderMessages start viewId log first) {reqId : UInt32} (nonzero : reqId ≠ 0)
    (executable : Executable start viewId (· ∈ first.map Prod.snd) reqId)
    (absent : start.stored ⟨viewId, reqId⟩ = none) {m : Env × ConsensusMsg} (member : m ∈ first)
    {data : List UInt8} (carries : carriedRequest m.2 = some (⟨viewId, reqId⟩, data)) :
    (start.handleMsgs (withFirst ⟨viewId, reqId⟩ m first)).delivered[start.delivered.length +
      (reqId.toNat - 1)]? = some ⟨⟨viewId, reqId⟩, some data⟩ := by
  let early := (first.filter fun m => decide (carriedVs m.2 ≠ some ⟨viewId, reqId⟩)) ++ [m]
  have part : ∀ other ∈ early, other ∈ first := fun other there =>
    (mem_withFirst member other).mp (List.mem_append_left first there)
  have executable' := executable.withFirst (fun other there => (source other there).2) carries
  have settled := entered.handleMsgs early fun other there => source other (part other there)
  obtain ⟨payload, there, brings⟩ := settled.delivered_at reqId nonzero
    ((settled.committed_iff entered reqId nonzero).mpr executable')
  -- only the chosen message has brought the request
  have chosen : payload = data := by
    rcases brings with initial | ⟨-, msg, handled, carried⟩
    · have lookup : start.db.retrieveRecord (vstol ⟨viewId, reqId⟩) = none := absent
      rw [payloadAt, lookup] at initial
      cases initial
    · obtain ⟨other, among, rfl⟩ := List.mem_map.mp handled
      rcases List.mem_append.mp among with before | last
      · have different := of_decide_eq_true (List.mem_filter.mp before).2
        exact absurd (carriedVs_eq_some.mpr ⟨payload, carried⟩) different
      · rw [List.mem_singleton.mp last, carries] at carried
        exact (congrArg Prod.snd (Option.some.inj carried)).symm
  obtain ⟨-, grown⟩ := settled.handleMsgs entered first source
  rw [withFirst, handleMsgs_append]
  obtain ⟨rest, longer⟩ := grown
  rw [← longer, List.getElem?_append_left (List.getElem?_eq_some_iff.mp there).1, there, chosen]

end Confluence

/-- Any two orders of the leader's messages, with any repetitions, have the same outcome exactly
if the messages that carry a request that is executed carry it with one payload. -/
theorem follower_confluent_iff (env : Env) (before : Comp) (newViewInfo : View)
    (log : UInt32 → List UInt8) (running : before.fault = none) (stores : env.storeOk = true)
    (entered : newViewInfo.viewId.toNat = before.curView.viewId.toNat + 1)
    (secondary : newViewInfo.leaderId ≠ before.nodeId)
    (stored : ∀ reqId, reqId ≠ 0 → before.stored ⟨newViewInfo.viewId, reqId⟩ ≠ none →
      before.payloadAt ⟨newViewInfo.viewId, reqId⟩ = some (log reqId))
    (first : List (Env × ConsensusMsg))
    (source : LeaderMessages (updateView env before newViewInfo) newViewInfo.viewId log first) :
    (∀ second, LeaderMessages (updateView env before newViewInfo) newViewInfo.viewId log second →
        (∀ msg, msg ∈ first.map Prod.snd ↔ msg ∈ second.map Prod.snd) →
        Confluent (updateView env before newViewInfo) first second) ↔
      OnePayload (updateView env before newViewInfo) newViewInfo.viewId
        (· ∈ first.map Prod.snd) := by
  obtain ⟨entered, -⟩ :=
    updateView_entered env before newViewInfo log running stores entered secondary stored
  generalize updateView env before newViewInfo = start at *
  constructor
  · intro confluent reqId nonzero executable absent msg msg' there there' data data' carried carried'
    obtain ⟨m, member, rfl⟩ := List.mem_map.mp there
    obtain ⟨m', member', rfl⟩ := List.mem_map.mp there'
    have outcome {m : Env × ConsensusMsg} (member : m ∈ first) :=
      confluent (withFirst ⟨newViewInfo.viewId, reqId⟩ m first)
        (fun other among => source other ((mem_withFirst member other).mp among))
        (fun msg => by simp only [List.mem_map, mem_withFirst member])
    have one := delivered_withFirst entered source nonzero executable absent member carried
    have two := delivered_withFirst entered source nonzero executable absent member' carried'
    rw [← (outcome member).delivered] at one
    rw [← (outcome member').delivered, one] at two
    exact Option.some.inj (congrArg Delivery.data (Option.some.inj two))
  · intro onePayload second source' same
    have one := entered.handleMsgs first source
    have two := entered.handleMsgs second source'
    obtain ⟨toCommit, committed⟩ := one.agree two entered same
    obtain ⟨fresh, delivered, stamps, -⟩ := one.delivered
    refine ⟨⟨one.running, two.running⟩, toCommit, committed,
      one.agree_delivered two entered same onePayload, ?_⟩
    rw [entered.active]
    exact ⟨_, one.committed_eq, one.longest, by rw [delivered, List.map_append, stamps]⟩

/-- If all records arrive as they were sent, each request has one payload. -/
theorem onePayload_of_log (start : Comp) (viewId : UInt32) (log : UInt32 → List UInt8)
    (msgs : ConsensusMsg → Prop) (intact : ∀ msg, msgs msg → ∀ vs data,
      carriedRequest msg = some (vs, data) → data = log vs.reqId) : OnePayload start viewId msgs := by
  intro reqId _ _ _ msg msg' known known' data data' carried carried'
  rw [intact msg known _ _ carried, intact msg' known' _ _ carried']

/-- A request and its commit point may overtake each other. -/
theorem commit_overtakes_request :
    let record : RequestRecord := ⟨⟨0, 0⟩, 0, 1, [7]⟩
    Confluent (updateView quietEnv (init false 1 3) ⟨1, 0, 0⟩)
      [(quietEnv, .acceptReq ⟨1, 1⟩ ⟨1, 0⟩ 0 record), (quietEnv, .forceExec 0 ⟨1, 1⟩)]
      [(quietEnv, .forceExec 0 ⟨1, 1⟩), (quietEnv, .acceptReq ⟨1, 1⟩ ⟨1, 0⟩ 0 record)] := by
  intro record
  have accept : FromLeader 1 0 (fun _ => [7]) (.acceptReq ⟨1, 1⟩ ⟨1, 0⟩ 0 record) :=
    .acceptReq _ _ _ rfl rfl (by decide)
  have force : FromLeader 1 0 (fun _ => [7]) (.forceExec 0 ⟨1, 1⟩) := .forceExec _ rfl (by decide)
  refine (follower_confluent_iff quietEnv (init false 1 3) ⟨1, 0, 0⟩ (fun _ => [7]) rfl rfl
    (by decide) (by decide) (fun _ _ there => absurd rfl there) _ ?_).mpr ?_ _ ?_ ?_
  · intro m member
    rcases List.mem_pair.mp member with rfl | rfl
    exacts [⟨rfl, accept⟩, ⟨rfl, force⟩]
  · refine onePayload_of_log _ _ (fun _ => [7]) _ fun msg known vs data carried => ?_
    rcases List.mem_pair.mp known with rfl | rfl
    · exact (congrArg Prod.snd (Option.some.inj carried)).symm
    · cases carried
  · intro m member
    rcases List.mem_pair.mp member with rfl | rfl
    exacts [⟨rfl, force⟩, ⟨rfl, accept⟩]
  · intro msg
    simp [or_comm]

/-- The five bytes of a request are behind the message that brings it on demand: the follower
delivers it with zeros if that message is there before the request of the leader. -/
theorem arrival_decides_payload :
    ¬ ∀ (env : Env) (before : Comp) (newViewInfo : View) (log : UInt32 → List UInt8),
      before.fault = none → env.storeOk = true →
      newViewInfo.viewId.toNat = before.curView.viewId.toNat + 1 →
      newViewInfo.leaderId ≠ before.nodeId →
      (∀ reqId, reqId ≠ 0 → before.stored ⟨newViewInfo.viewId, reqId⟩ ≠ none →
        before.payloadAt ⟨newViewInfo.viewId, reqId⟩ = some (log reqId)) →
      ∀ first second,
        LeaderMessages (updateView env before newViewInfo) newViewInfo.viewId log first →
        LeaderMessages (updateView env before newViewInfo) newViewInfo.viewId log second →
        (∀ msg, msg ∈ first.map Prod.snd ↔ msg ∈ second.map Prod.snd) →
        Confluent (updateView env before newViewInfo) first second := by
  intro claim
  let sent : RequestRecord := ⟨⟨0, 0⟩, 0, 1, [1, 2, 3, 4, 5]⟩
  let read : RequestRecord := ⟨⟨0, 0⟩, 0, 1, [0, 0, 0, 0, 0]⟩
  let accept : Env × ConsensusMsg := (quietEnv, .acceptReq ⟨1, 1⟩ ⟨1, 0⟩ 0 sent)
  let missing : Env × ConsensusMsg := (quietEnv, .missingAck 0 ⟨1, 1⟩ read)
  let force : Env × ConsensusMsg := (quietEnv, .forceExec 0 ⟨1, 1⟩)
  have fromLeader : ∀ m ∈ [accept, missing, force], m.1.storeOk = true ∧
      FromLeader 1 0 (fun _ => [1, 2, 3, 4, 5]) m.2 := by
    intro m member
    simp only [List.mem_cons, List.not_mem_nil, or_false] at member
    rcases member with rfl | rfl | rfl
    · exact ⟨rfl, .acceptReq _ _ _ rfl rfl (by decide)⟩
    · exact ⟨rfl, .missingAck _ _ sent _ rfl rfl (by decide +kernel)⟩
    · exact ⟨rfl, .forceExec _ rfl (by decide)⟩
  have confluent := claim quietEnv (init false 1 3) ⟨1, 0, 0⟩ (fun _ => [1, 2, 3, 4, 5]) rfl rfl
    (by decide) (by decide) (fun _ _ there => absurd rfl there)
    [force, accept, missing] [force, missing, accept]
    (fun m member => fromLeader m (by simp at member ⊢; tauto))
    (fun m member => fromLeader m (by simp at member ⊢; tauto))
    (fun msg => by simp; tauto)
  exact absurd confluent.delivered (by decide +kernel)

end Comp

end LibeventPaxos
