import LibeventPaxos.StampLinear
import LibeventPaxos.ConsensusFrame
import LibeventPaxos.Lib.Machine

/-!
The stamps a leader gives within one view: requests of its own and forwarded ones, with failed
stores between them, interleaved with acks and make-progress ticks.
-/
namespace LibeventPaxos

open Lib

namespace Comp

/-- What reaches a leader within one view. -/
def LeaderEvent : CompEvent → Prop
  | .submit _ => True
  | .message (.forwardReq _ _) => True
  | .message (.acceptAck _ _) => True
  | .makeProgress => True
  | _ => False

instance : ∀ event, Decidable (LeaderEvent event)
  | .submit _ => .isTrue trivial
  | .message (.forwardReq _ _) => .isTrue trivial
  | .message (.acceptAck _ _) => .isTrue trivial
  | .makeProgress => .isTrue trivial
  | .message (.acceptReq _ _ _ _) => .isFalse id
  | .message (.missingReq _ _) => .isFalse id
  | .message (.missingAck _ _ _) => .isFalse id
  | .message (.forceExec _ _) => .isFalse id
  | .updateView _ => .isFalse id
  | .acceptorUpdateRecord _ _ => .isFalse id

/-- The stamps of view `v` given to requests so far, oldest first. -/
def givenIn (v : UInt32) (c : Comp) : List ViewStamp :=
  (c.assigned.map Prod.fst).filter fun vs => vs.viewId = v

/-- The component leads view `v` and has given no stamp of it yet. -/
structure LeadsFrom (v : UInt32) (c : Comp) : Prop where
  role : c.myRole = .leader
  view : c.curView.viewId = v
  seen : c.highestSeenVs = ⟨v, 0⟩
  nothing : c.givenIn v = []

/-- A leader within view `v`. -/
def leading (v : UInt32) : Machine Comp (Env × CompEvent) where
  initial := LeadsFrom v
  enabled := fun c e => c.fault = none ∧ LeaderEvent e.2
  apply := handle

instance (v : UInt32) (c : Comp) (e : Env × CompEvent) : Decidable ((leading v).enabled c e) :=
  inferInstanceAs (Decidable (c.fault = none ∧ LeaderEvent e.2))

/-- No request is stored while the highest seen request number is the largest one. -/
def HasRoom (c : Comp) (e : Env × CompEvent) : Prop :=
  c.taken e ≠ none → c.highestSeenVs.reqId ≠ 0xFFFFFFFF

instance (c : Comp) (e : Env × CompEvent) : Decidable (HasRoom c e) :=
  inferInstanceAs (Decidable (c.taken e ≠ none → c.highestSeenVs.reqId ≠ 0xFFFFFFFF))

/-- The stamp `a` comes before the stamp `b`, compared as stamps and as keys. -/
def Before (a b : ViewStamp) : Prop := viewStampComp a b < 0 ∧ vstol a < vstol b

/-- What the next call of `leader_handle_submit_req` does for a request: a stored one gets a
stamp behind all of the view and off its boundary, a failed store leaves everything as it was,
and the record of the boundary is not touched. -/
structure SubmitsFresh (v : UInt32) (env : Env) (c : Comp) (data : List UInt8) : Prop where
  behind : env.storeOk = true →
    ∀ vs ∈ c.givenIn v, Before vs (leaderHandleSubmitReq env c data).2.2
  offBoundary : env.storeOk = true → (leaderHandleSubmitReq env c data).2.2 ≠ ⟨v, 0⟩
  failed : env.storeOk = false →
    (leaderHandleSubmitReq env c data).1 = c ∧ (leaderHandleSubmitReq env c data).2.1 = 1
  boundary : (leaderHandleSubmitReq env c data).1.stored ⟨v, 0⟩ = c.stored ⟨v, 0⟩

/-- The stamps of the view are given in order, and none is that of its boundary. -/
structure GivenInOrder (v : UInt32) (c : Comp) : Prop where
  increasing : (c.givenIn v).Pairwise Before
  offBoundary : ⟨v, 0⟩ ∉ c.givenIn v

/-! ## One step -/

theorem before_iff (a b : ViewStamp) : Before a b ↔ (vstol a).toNat < (vstol b).toNat := by
  rw [Before, vstol_lt_iff, viewStampComp_neg, and_self]

theorem givenIn_append (v : UInt32) (c c' : Comp) (vs : ViewStamp) (data : List UInt8)
    (assigned : c'.assigned = c.assigned ++ [(vs, data)]) (view : vs.viewId = v) :
    c'.givenIn v = c.givenIn v ++ [vs] := by
  simp [givenIn, assigned, view]

theorem givenIn_same (v : UInt32) (c c' : Comp) (assigned : c'.assigned = c.assigned) :
    c'.givenIn v = c.givenIn v := by
  rw [givenIn, assigned, givenIn]

private theorem submit_seen (env : Env) (c : Comp) (data : List UInt8)
    (refused : env.storeOk = false) :
    (leaderHandleSubmitReq env c data).1.highestSeenVs = c.highestSeenVs := by
  simp [leaderHandleSubmitReq, refused]

/-- A call that gives no stamp leaves the highest seen stamp as it is. -/
theorem seen_kept (c : Comp) (e : Env × CompEvent) (event : LeaderEvent e.2)
    (nothing : c.taken e = none) : (c.handle e).highestSeenVs = c.highestSeenVs := by
  obtain ⟨env, event'⟩ := e
  cases event' with
  | submit data =>
    simp only [Comp.handle, consensusSubmitRequest]
    split
    next leader =>
      -- a leader takes no request only if the store fails
      have refused : env.storeOk = false := by simpa [taken, leader] using nothing
      exact submit_seen env c data refused
    next secondary => rfl
  | message msg =>
    cases msg with
    | forwardReq nodeId data =>
      simp only [Comp.handle, consensusHandleMsg, handleForwardReq]
      split
      next secondary => rfl
      next leader =>
        have refused : env.storeOk = false := by simpa [taken, not_not.mp leader] using nothing
        exact submit_seen env c data refused
    | acceptAck msgVs nodeId =>
      simp only [Comp.handle, consensusHandleMsg, Comp.handleAcceptAck]
      have executed := (sameRecords_tryToExecute env (storeAcceptAck env c msgVs nodeId)).seen
      rcases storeAcceptAck_cases env c msgVs nodeId with ignored | ⟨-, -, -, value, -, stored⟩
      · rw [executed, ignored]
      · rw [executed, stored]
    | acceptReq | missingReq | missingAck | forceExec => cases event
  | makeProgress =>
    simp only [Comp.handle, Comp.consensusMakeProgress]
    split
    next secondary => rfl
    next leader =>
      -- the scan and the messages sent again leave the highest seen stamp
      have scanned := (sameRecords_leaderTryToExecute env c).seen
      obtain ⟨sent, fault, -, resent, -⟩ := retransmit_spec env (leaderTryToExecute env c)
      split
      next faulty => exact scanned
      next running =>
        rw [resent]
        split
        next faulty => exact scanned
        next running => exact scanned
  | updateView | acceptorUpdateRecord => cases event

/-- What one call does to the stamps of a leader. -/
theorem leading_step (c : Comp) (e : Env × CompEvent) (running : c.fault = none)
    (event : LeaderEvent e.2) :
    (c.handle e).assigned = c.assigned ∧ (c.handle e).highestSeenVs = c.highestSeenVs ∨
    ∃ data, c.taken e = some data ∧
      (c.handle e).assigned = c.assigned ++ [(c.getNextViewStamp, data)] ∧
      (c.handle e).highestSeenVs = c.getNextViewStamp := by
  cases (handle_step c e running).1 with
  | stays nothing assigned view role seen => exact .inl ⟨assigned, seen_kept c e event nothing⟩
  | takes data some_data leader assigned view role seen =>
    exact .inr ⟨data, some_data, assigned, seen⟩
  | enters newViewInfo isUpdate =>
    rw [isUpdate] at event
    cases event

/-! ## The invariant -/

/-- The highest seen stamp is in the view and not before any stamp given in it. -/
structure Gives (v : UInt32) (c : Comp) : Prop where
  view : c.highestSeenVs.viewId = v
  below : ∀ vs ∈ c.givenIn v, (vstol vs).toNat ≤ (vstol c.highestSeenVs).toNat
  order : GivenInOrder v c

theorem LeadsFrom.gives {v : UInt32} {c : Comp} (leads : LeadsFrom v c) : Gives v c where
  view := by rw [leads.seen]
  below := by simp [leads.nothing]
  order := ⟨by simp [leads.nothing], by simp [leads.nothing]⟩

theorem getNextViewStamp_reqId (c : Comp) (room : c.highestSeenVs.reqId ≠ 0xFFFFFFFF) :
    c.getNextViewStamp.reqId.toNat = c.highestSeenVs.reqId.toNat + 1 := by
  have seen_lt := c.highestSeenVs.reqId.toNat_lt
  have smaller : c.highestSeenVs.reqId.toNat ≠ 4294967295 := fun largest =>
    room (UInt32.toNat_inj.mp largest)
  simp only [getNextViewStamp, UInt32.toNat_add, UInt32.toNat_one]
  omega

/-- With room, the next stamp is behind all stamps given in the view. -/
theorem Gives.next {v : UInt32} {c : Comp} (gives : Gives v c)
    (room : c.highestSeenVs.reqId ≠ 0xFFFFFFFF) :
    (∀ vs ∈ c.givenIn v, Before vs c.getNextViewStamp) ∧ c.getNextViewStamp ≠ ⟨v, 0⟩ := by
  have reqId := getNextViewStamp_reqId c room
  have view : c.getNextViewStamp.viewId = c.highestSeenVs.viewId := rfl
  constructor
  · intro vs member
    have below := gives.below vs member
    rw [before_iff]
    rw [vstol_toNat c.highestSeenVs] at below
    rw [vstol_toNat c.getNextViewStamp, reqId, view]
    omega
  · intro boundary
    rw [boundary, UInt32.toNat_zero] at reqId
    omega

theorem Gives.handle {v : UInt32} {c : Comp} (gives : Gives v c) (e : Env × CompEvent)
    (running : c.fault = none) (event : LeaderEvent e.2) (room : HasRoom c e) :
    Gives v (c.handle e) := by
  rcases leading_step c e running event with ⟨assigned, seen⟩ | ⟨data, takes, assigned, seen⟩
  · have same := givenIn_same v c (c.handle e) assigned
    exact {
      view := by rw [seen]; exact gives.view
      below := by rw [same, seen]; exact gives.below
      order := ⟨by rw [same]; exact gives.order.increasing,
        by rw [same]; exact gives.order.offBoundary⟩ }
  · obtain ⟨behind, offBoundary⟩ := gives.next (room (by rw [takes]; exact Option.some_ne_none data))
    have more := givenIn_append v c (c.handle e) c.getNextViewStamp data assigned gives.view
    exact {
      view := by rw [seen]; exact gives.view
      below := by
        rw [more, seen]
        intro vs member
        rcases List.mem_append.mp member with old | new
        · exact ((before_iff vs _).mp (behind vs old)).le
        · rw [List.mem_singleton.mp new]
      order := {
        increasing := by
          rw [more]
          refine List.pairwise_append.mpr
            ⟨gives.order.increasing, List.pairwise_singleton _ _, ?_⟩
          intro vs old last new
          rw [List.mem_singleton.mp new]
          exact behind vs old
        offBoundary := by
          rw [more]
          intro member
          rcases List.mem_append.mp member with old | new
          · exact gives.order.offBoundary old
          · exact offBoundary (List.mem_singleton.mp new).symm } }

theorem gives_of_reaches (v : UInt32) (c : Comp) (reached : (leading v).Reaches HasRoom c) :
    Gives v c := by
  apply reached.invariant
  · intro s initial
    exact initial.gives
  · intro s e gives room enabled
    exact gives.handle e enabled.1 enabled.2 room

/-! ## A submission -/

theorem leaderHandleSubmitReq_vs (env : Env) (c : Comp) (data : List UInt8) :
    (leaderHandleSubmitReq env c data).2.2 = c.getNextViewStamp := by
  simp only [leaderHandleSubmitReq]
  split
  next stores =>
    split
    next group => rfl
    next alone => rfl
  next refused => rfl

/-- A submission writes no key but that of its stamp. -/
theorem stored_leaderHandleSubmitReq (env : Env) (c : Comp) (data : List UInt8) (vs : ViewStamp)
    (other : env.storeOk = true → c.getNextViewStamp ≠ vs) :
    (leaderHandleSubmitReq env c data).1.stored vs = c.stored vs := by
  rcases leaderHandleSubmitReq_cases env c data with
    ⟨-, failed⟩ | ⟨stores, submitted, rfl, result⟩
  · rw [failed]
  · have written : (leaderHandleSubmitReq env c data).1.db =
        c.db.storeRecord (vstol c.getNextViewStamp) (.request (submitRecord env c data)) := by
      rcases result with ⟨-, sent⟩ | ⟨-, executed⟩
      · rw [sent]
        rfl
      · rw [executed, (sameRecords_tryToExecute env _).db]
    have different : vstol vs ≠ vstol c.getNextViewStamp := fun same =>
      other stores ((vstol_inj vs _).mp same).symm
    rw [stored, written, Database.retrieveRecord_storeRecord, if_neg different, stored]

theorem Gives.submitsFresh_iff {v : UInt32} {c : Comp} (gives : Gives v c) (env : Env)
    (data : List UInt8) :
    SubmitsFresh v env c data ↔
      (env.storeOk = true → c.highestSeenVs.reqId ≠ 0xFFFFFFFF) := by
  constructor
  · intro fresh stores largest
    apply fresh.offBoundary stores
    rw [leaderHandleSubmitReq_vs, getNextViewStamp, gives.view, largest]
    rfl
  · intro room
    exact {
      behind := by
        intro stores
        rw [leaderHandleSubmitReq_vs]
        exact (gives.next (room stores)).1
      offBoundary := by
        intro stores
        rw [leaderHandleSubmitReq_vs]
        exact (gives.next (room stores)).2
      failed := fun refused => by simp [leaderHandleSubmitReq, refused]
      boundary := stored_leaderHandleSubmitReq env c data ⟨v, 0⟩ fun stores =>
        (gives.next (room stores)).2 }

/-- In every run in which no request is stored behind the largest request number of the view, the
stamps are given in order, and the next request gets a fresh one if and only if it too is not
stored behind that number. -/
theorem assigned_fresh_iff (v : UInt32) (c : Comp) (reached : (leading v).Reaches HasRoom c) :
    GivenInOrder v c ∧ ∀ env data, SubmitsFresh v env c data ↔
      (env.storeOk = true → c.highestSeenVs.reqId ≠ 0xFFFFFFFF) := by
  have gives := gives_of_reaches v c reached
  exact ⟨gives.order, fun env data => gives.submitsFresh_iff env data⟩

/-- Two requests with a failed store between them, an ack and a tick. -/
def twoSubmissions : List (Env × CompEvent) :=
  [(quietEnv, .submit [5]), ({ quietEnv with storeOk := false }, .submit [6]),
    (quietEnv, .message (.acceptAck ⟨1, 1⟩ 1)), (quietEnv, .makeProgress),
    (quietEnv, .message (.forwardReq 2 [6]))]

theorem leadsFrom_seed (nodeId groupSize : ℕ) : LeadsFrom 1 (init true nodeId groupSize) :=
  ⟨by simp [init], rfl, rfl, rfl⟩

theorem twoSubmissions_fresh :
    (twoSubmissions.foldl handle (init true 0 3)).givenIn 1 = [⟨1, 1⟩, ⟨1, 2⟩] ∧
      SubmitsFresh 1 quietEnv (twoSubmissions.foldl handle (init true 0 3)) [7] := by
  refine ⟨by decide, ((assigned_fresh_iff 1 _ ⟨init true 0 3, leadsFrom_seed 0 3, ?_⟩).2
    quietEnv [7]).mpr (by decide)⟩
  apply Machine.Accepts.run (m := leading 1)
  decide

/-! ## The request number wraps -/

/-- `k` requests of a group of three that nobody acknowledges. -/
theorem unanswered_run (k : ℕ) :
    ∃ c, (leading 1).Run Machine.anything (init true 0 3) c ∧ c.fault = none ∧
      c.myRole = .leader ∧ c.groupSize = 3 ∧ c.highestSeenVs = stampAfter ⟨1, 0⟩ k := by
  induction k with
  | zero => exact ⟨init true 0 3, .refl, rfl, rfl, rfl, rfl⟩
  | succ k ih =>
    obtain ⟨c, run, running, leader, group, seen⟩ := ih
    have next : (c.handle (quietEnv, .submit [])).highestSeenVs = stampAfter ⟨1, 0⟩ (k + 1) ∧
        (c.handle (quietEnv, .submit [])).fault = none ∧
        (c.handle (quietEnv, .submit [])).myRole = .leader ∧
        (c.handle (quietEnv, .submit [])).groupSize = 3 := by
      rw [← viewStampInc_stampAfter, ← seen]
      simp [Comp.handle, consensusSubmitRequest, leader, leaderHandleSubmitReq, group, quietEnv,
        uc, running]
    have submitted : (leading 1).enabled c (quietEnv, .submit []) := ⟨running, trivial⟩
    exact ⟨c.handle (quietEnv, .submit []), .step run trivial submitted, next.2.1, next.2.2.1,
      next.2.2.2, next.1⟩

/-- After `2 ^ 32 - 1` requests the next one is stored under the boundary (1,0). -/
theorem boundary_given :
    ¬ ∀ (v : UInt32) (c : Comp), (leading v).Reaches Machine.anything c →
      GivenInOrder v c ∧ ∀ env data, SubmitsFresh v env c data := by
  intro claim
  obtain ⟨c, run, -, -, -, seen⟩ := unanswered_run 4294967295
  have fresh := (claim 1 c ⟨init true 0 3, leadsFrom_seed 0 3, run⟩).2 quietEnv []
  apply fresh.offBoundary rfl
  have next : c.getNextViewStamp = viewStampInc c.highestSeenVs := rfl
  rw [leaderHandleSubmitReq_vs, next, seen]
  decide

end Comp

end LibeventPaxos
