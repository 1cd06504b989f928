import LibeventPaxos.ViewFence

/-!
When `expected_leader_ping_period` gives up on the leader. `timeval_add` adds the two fields and
carries nothing, and `timeval_comp` compares seconds first, so a sum of microseconds that reaches
a second is not counted as one.
-/
namespace LibeventPaxos

namespace TimeVal

/-- A time in microseconds. -/
def micros (time : TimeVal) : Int := time.tvSec * 1000000 + time.tvUsec

/-- The microseconds stay below a second. -/
structure Normalised (time : TimeVal) : Prop where
  nonneg : 0 ≤ time.tvUsec
  below : time.tvUsec < 1000000

end TimeVal

theorem timevalComp_neg (op1 op2 : TimeVal) :
    timevalComp op1 op2 < 0 ↔
      op1.tvSec < op2.tvSec ∨ op1.tvSec = op2.tvSec ∧ op1.tvUsec < op2.tvUsec := by
  simp only [timevalComp]
  split_ifs <;> omega

@[simp] theorem timevalAdd_tvSec (op1 op2 : TimeVal) :
    (timevalAdd op1 op2).tvSec = op1.tvSec + op2.tvSec := rfl

@[simp] theorem timevalAdd_tvUsec (op1 op2 : TimeVal) :
    (timevalAdd op1 op2).tvUsec = op1.tvUsec + op2.tvUsec := rfl

theorem micros_timevalAdd (op1 op2 : TimeVal) :
    (timevalAdd op1 op2).micros = op1.micros + op2.micros := by
  simp only [TimeVal.micros, timevalAdd_tvSec, timevalAdd_tvUsec]
  omega

/-- Comparing normalised times field by field compares their microseconds. -/
theorem timevalComp_normalised (op1 op2 : TimeVal) (normal1 : op1.Normalised)
    (normal2 : op2.Normalised) : timevalComp op1 op2 < 0 ↔ op1.micros < op2.micros := by
  obtain ⟨nonneg1, below1⟩ := normal1
  obtain ⟨nonneg2, below2⟩ := normal2
  rw [timevalComp_neg, TimeVal.micros, TimeVal.micros]
  omega

/-- The deadline lies in a second before `cur`, but its microseconds, which count for more than
the seconds between, carry it up to `cur` or past it. -/
def CarryLost (deadline cur : TimeVal) : Prop :=
  deadline.tvSec < cur.tvSec ∧ cur.micros ≤ deadline.micros

instance (deadline cur : TimeVal) : Decidable (CarryLost deadline cur) :=
  inferInstanceAs (Decidable (_ ∧ _))

/-- Where one of the two times is a sum, the comparison is right but for a lost carry. -/
theorem timevalComp_agrees_iff (deadline cur : TimeVal) (nonneg : 0 ≤ deadline.tvUsec)
    (normal : cur.Normalised) :
    (timevalComp deadline cur < 0 ↔ deadline.micros < cur.micros) ↔ ¬ CarryLost deadline cur := by
  obtain ⟨curNonneg, curBelow⟩ := normal
  rw [timevalComp_neg, CarryLost, TimeVal.micros, TimeVal.micros]
  omega

namespace Node

/-- The callback of the timer starts an election if it finds the deadline passed. -/
theorem expectedLeaderPingPeriod_state (env : NodeEnv) (node : Node)
    (follower : node.isLeader = false) (quiet : node.state ≠ .inLele) :
    (node.expectedLeaderPingPeriod env).state = .inLele ↔
      timevalComp (timevalAdd node.lastPingMsg node.expectPingTimeval) env.now < 0 := by
  have kept : node.initializeExpectPing.state = node.state := by
    simp only [initializeExpectPing]
    split <;> rfl
  simp only [expectedLeaderPingPeriod, follower, Bool.false_eq_true, if_false]
  split
  next heard =>
    rw [kept]
    exact iff_of_false quiet (by omega)
  next silent => exact iff_of_true rfl (by omega)

/-- The election starts exactly when the current time is past the last ping by more than the
interval, counted in microseconds. -/
def ElectsOnTime (env : NodeEnv) (node : Node) : Prop :=
  (node.expectedLeaderPingPeriod env).state = .inLele ↔
    node.lastPingMsg.micros + node.expectPingTimeval.micros < env.now.micros

/-- The callback is right unless the carry it loses decides the comparison. -/
theorem electsOnTime_iff_carried (env : NodeEnv) (node : Node)
    (follower : node.isLeader = false) (quiet : node.state ≠ .inLele)
    (last : node.lastPingMsg.Normalised) (cur : env.now.Normalised)
    (interval : 0 ≤ node.expectPingTimeval.tvUsec) :
    ElectsOnTime env node ↔
      ¬ CarryLost (timevalAdd node.lastPingMsg node.expectPingTimeval) env.now := by
  have nonneg : 0 ≤ (timevalAdd node.lastPingMsg node.expectPingTimeval).tvUsec :=
    Int.add_nonneg last.nonneg interval
  rw [ElectsOnTime, expectedLeaderPingPeriod_state env node follower quiet,
    ← micros_timevalAdd]
  exact timevalComp_agrees_iff _ _ nonneg cur

/-- An interval of whole seconds is the only one that is right for all times. -/
theorem electsOnTime_always_iff (env : NodeEnv) (node : Node) (follower : node.isLeader = false)
    (quiet : node.state ≠ .inLele) (interval : 0 ≤ node.expectPingTimeval.tvUsec) :
    (∀ last cur : TimeVal, last.Normalised → cur.Normalised →
      ElectsOnTime { env with now := cur } { node with lastPingMsg := last }) ↔
      node.expectPingTimeval.tvUsec = 0 := by
  constructor
  · intro always
    by_contra fraction
    -- the last microsecond of a second and the first of the one the interval leads to
    have last : (⟨0, 999999⟩ : TimeVal).Normalised := ⟨by decide, by decide⟩
    have cur : (⟨node.expectPingTimeval.tvSec + 1, 0⟩ : TimeVal).Normalised :=
      ⟨le_rfl, by show (0 : Int) < 1000000; decide⟩
    have onTime := always _ _ last cur
    have carries := (electsOnTime_iff_carried _ { node with lastPingMsg := ⟨0, 999999⟩ } follower
      quiet last cur interval).mp onTime
    refine carries ⟨?_, ?_⟩
    · simp only [timevalAdd_tvSec]
      omega
    · simp only [TimeVal.micros, timevalAdd_tvSec, timevalAdd_tvUsec]
      omega
  · intro whole last cur normal normal'
    -- the deadline is normalised like the last ping
    have deadline : (timevalAdd last node.expectPingTimeval).Normalised := by
      constructor
      · rw [timevalAdd_tvUsec, whole, Int.add_zero]
        exact normal.nonneg
      · rw [timevalAdd_tvUsec, whole, Int.add_zero]
        exact normal.below
    rw [ElectsOnTime, expectedLeaderPingPeriod_state _ { node with lastPingMsg := last } follower
      quiet, ← micros_timevalAdd]
    exact timevalComp_normalised _ _ deadline normal'

/-- The callback is wrong exactly in the window of the lost carry, and has no such window only if
the interval is one of whole seconds. -/
theorem electsOnTime_iff (env : NodeEnv) (node : Node) (follower : node.isLeader = false)
    (quiet : node.state ≠ .inLele) (last : node.lastPingMsg.Normalised)
    (cur : env.now.Normalised) (interval : 0 ≤ node.expectPingTimeval.tvUsec) :
    (ElectsOnTime env node ↔
      ¬ CarryLost (timevalAdd node.lastPingMsg node.expectPingTimeval) env.now) ∧
    ((∀ last cur : TimeVal, last.Normalised → cur.Normalised →
        ElectsOnTime { env with now := cur } { node with lastPingMsg := last }) ↔
      node.expectPingTimeval.tvUsec = 0) :=
  ⟨electsOnTime_iff_carried env node follower quiet last cur interval,
    electsOnTime_always_iff env node follower quiet interval⟩

/-- A follower with an interval of 0.2 s that has heard from its leader at 0.9 s. -/
def pinged : Node := init false 1 3 ⟨0, 200000⟩ ⟨0, 900000⟩ lateEnv

/-- At 1.0 s it starts an election, a tenth of a second early. -/
theorem pinged_early :
    (pinged.lastPingMsg.Normalised ∧ (⟨1, 0⟩ : TimeVal).Normalised) ∧
      pinged.lastPingMsg.micros + pinged.expectPingTimeval.micros = 1100000 ∧
      (pinged.expectedLeaderPingPeriod { lateEnv with now := ⟨1, 0⟩ }).state = .inLele ∧
      ¬ ElectsOnTime { lateEnv with now := ⟨1, 0⟩ } pinged := by
  have starts :
      (pinged.expectedLeaderPingPeriod { lateEnv with now := ⟨1, 0⟩ }).state = .inLele := by
    decide
  refine ⟨⟨⟨by decide, by decide⟩, ⟨by decide, by decide⟩⟩, by decide, starts, ?_⟩
  intro onTime
  exact absurd (onTime.mp starts) (by decide)

/-- Heard from at 0.7 s, it starts the election at 1.0 s, on time. -/
theorem pinged_onTime :
    ElectsOnTime { lateEnv with now := ⟨1, 0⟩ } { pinged with lastPingMsg := ⟨0, 700000⟩ } :=
  (electsOnTime_iff { lateEnv with now := ⟨1, 0⟩ } { pinged with lastPingMsg := ⟨0, 700000⟩ }
    (by decide) (by decide) ⟨by decide, by decide⟩ ⟨by decide, by decide⟩ (by decide)).1.mpr
    (by decide)

end Node

end LibeventPaxos
