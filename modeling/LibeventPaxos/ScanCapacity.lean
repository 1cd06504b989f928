import LibeventPaxos.AnnounceAcks
import LibeventPaxos.PeerIndices

/-!
The arrays of an election: what the scans and the merge of a node write to them over its life, and
when all of it fits.
-/
namespace LibeventPaxos

open Lib

namespace EdgeMod

/-! ## The ids the merge appends -/

/-- The slots are gone through one by one: each is the id under the cursor or below it. -/
inductive Passes (ids : ℕ → UInt32) (count : ℕ) : List UInt32 → ℕ → ℕ → Prop
  | done (j : ℕ) : Passes ids count [] j j
  | keep {slot : UInt32} {rest : List UInt32} {j k : ℕ} (more : j < count) (same : slot = ids j)
      (later : Passes ids count rest (j + 1) k) : Passes ids count (slot :: rest) j k
  | drop {slot : UInt32} {rest : List UInt32} {j k : ℕ} (more : j < count) (below : slot < ids j)
      (later : Passes ids count rest j k) : Passes ids count (slot :: rest) j k

/-- The first index from the cursor on whose id lies beyond the end, or the number of ids. -/
structure FirstBeyond (ids : ℕ → UInt32) (bound : UInt32) (count j stop : ℕ) : Prop where
  from_cursor : j ≤ stop
  inside : stop ≤ count
  beyond : stop < count → bound.toNat < (ids stop).toNat
  before : ∀ k, j ≤ k → k < stop → (ids k).toNat ≤ bound.toNat

section Merge

variable {ids : ℕ → UInt32} {count : ℕ} {rest : List UInt32} {j k : ℕ}

theorem Passes.le (passes : Passes ids count rest j k) (inside : j ≤ count) : k ≤ count := by
  induction passes with
  | done j => exact inside
  | keep more same later ih => exact ih more
  | drop more below later ih => exact ih inside

theorem Passes.unique {k' : ℕ} (passes : Passes ids count rest j k)
    (passes' : Passes ids count rest j k') : k = k' := by
  induction passes with
  | done j =>
    cases passes'
    rfl
  | keep more same later ih =>
    cases passes' with
    | keep _ _ later' => exact ih later'
    | drop _ below _ =>
      rw [same] at below
      exact absurd (UInt32.lt_iff_toNat_lt.mp below) (Nat.lt_irrefl _)
  | drop more below later ih =>
    cases passes' with
    | keep _ same _ =>
      rw [same] at below
      exact absurd (UInt32.lt_iff_toNat_lt.mp below) (Nat.lt_irrefl _)
    | drop _ _ later' => exact ih later'

theorem FirstBeyond.unique {bound : UInt32} {stop stop' : ℕ}
    (first : FirstBeyond ids bound count j stop) (first' : FirstBeyond ids bound count j stop') :
    stop = stop' := by
  have inside := first.inside
  have inside' := first'.inside
  rcases Nat.lt_trichotomy stop stop' with less | same | more
  · have beyond := first.beyond (by omega)
    have before := first'.before stop first.from_cursor less
    omega
  · exact same
  · have beyond := first'.beyond (by omega)
    have before := first.before stop' first'.from_cursor more
    omega

theorem firstBeyond_skipIds (ids : ℕ → UInt32) (bound : UInt32) (count j : ℕ)
    (inside : j ≤ count) :
    FirstBeyond ids bound count j (skipIds ids bound count (count - j) j) := by
  obtain ⟨low, high, beyond, before⟩ := skipIds_spec ids bound count (count - j) j (by omega) inside
  exact ⟨low, high, beyond, before⟩

/-- The merge comes to the end of the slots exactly if they can be gone through. -/
theorem mergeSlots_passes (ids : ℕ → UInt32) (cur count : ℕ) (front rest tail : List UInt32)
    (j fuel : ℕ) (all : front.length + rest.length = cur) (enough : rest.length < fuel) :
    let result := mergeSlots ids cur count fuel front.length j (front ++ (rest ++ tail))
    (∃ k slots, result = some (cur, k, slots) ∧ slots.length = cur + tail.length ∧
      Passes ids count rest j k) ∨
    ((∀ i k slots, result = some (i, k, slots) → i ≠ cur) ∧ ∀ k, ¬ Passes ids count rest j k) := by
  intro result
  induction rest generalizing front j fuel with
  | nil =>
    -- no slot is left
    have done : ¬ (front.length < cur ∧ j < count) := by
      rintro ⟨less, -⟩
      rw [← all, List.length_nil] at less
      omega
    obtain ⟨fuel, rfl⟩ : ∃ less, fuel = less + 1 := ⟨fuel - 1, by omega⟩
    rw [List.length_nil, Nat.add_zero] at all
    refine .inl ⟨j, front ++ ([] ++ tail), ?_, ?_, .done j⟩
    · simp only [result]
      rw [mergeSlots, if_neg done, all]
    · rw [List.nil_append, List.length_append, all]
  | cons slot rest ih =>
    rw [List.length_cons] at all enough
    obtain ⟨fuel, rfl⟩ : ∃ less, fuel = less + 1 := ⟨fuel - 1, by omega⟩
    have step : result = _ := mergeSlots_cons ids cur count fuel j front rest tail slot (by omega)
    have longer : ∀ kept : UInt32, (front ++ [kept]).length + rest.length = cur := by
      intro kept
      rw [List.length_append, List.length_singleton]
      omega
    by_cases more : j < count
    · rw [if_pos more] at step
      by_cases below : slot < ids j
      · rw [if_pos below] at step
        rw [step]
        rcases ih (front ++ [0]) j fuel (longer 0) (by omega) with
          ⟨k, slots, same, length, passes⟩ | ⟨never, stuck⟩
        · exact .inl ⟨k, slots, same, length, passes.drop more below⟩
        · refine .inr ⟨never, ?_⟩
          intro k passes
          cases passes with
          | keep _ same _ =>
            rw [same] at below
            exact Nat.lt_irrefl _ (UInt32.lt_iff_toNat_lt.mp below)
          | drop _ _ later => exact stuck k later
      · rw [if_neg below] at step
        by_cases same : slot = ids j
        · rw [if_pos same] at step
          rw [step]
          rcases ih (front ++ [slot]) (j + 1) fuel (longer slot) (by omega) with
            ⟨k, slots, found, length, passes⟩ | ⟨never, stuck⟩
          · exact .inl ⟨k, slots, found, length, passes.keep more same⟩
          · refine .inr ⟨never, ?_⟩
            intro k passes
            cases passes with
            | keep _ _ later => exact stuck k later
            | drop _ less _ => exact below less
        · -- an id below the slot: the loop never ends
          rw [if_neg same] at step
          refine .inr ⟨?_, ?_⟩
          · intro i k slots found
            rw [step] at found
            exact absurd found.symm (Option.some_ne_none _)
          · intro k passes
            cases passes with
            | keep _ equal _ => exact same equal
            | drop _ less _ => exact below less
    · -- the ids have run out before the slots
      rw [if_neg more] at step
      refine .inr ⟨?_, ?_⟩
      · intro i k slots found
        rw [step] at found
        obtain ⟨rfl, -⟩ := Prod.mk.inj (Option.some.inj found)
        omega
      · intro k passes
        cases passes with
        | keep less _ _ => exact more less
        | drop less _ _ => exact more less

/-- The appended ids fit exactly if an id that is not below the number of ids comes soon enough. -/
theorem appendIds_fits (ids : ℕ → UInt32) (pnum : Int) (fuel j : ℕ) (edge : EdgeMod)
    (slots : List UInt32) (enough : edge.maxEmptySlots.toNat ≤ fuel + edge.curEmptySlots) :
    let fault := (appendIds ids pnum (fuel + 1) j edge slots).2.2
    ((∃ m ≤ scanRoom edge slots, pnum ≤ (ids (j + m)).toNat) → fault = none) ∧
      ((¬ ∃ m ≤ scanRoom edge slots, pnum ≤ (ids (j + m)).toNat) →
        fault = some .assertion ∨ fault = some .outOfBounds) := by
  intro fault
  induction fuel generalizing j edge slots with
  | zero =>
    -- the recorded capacity is used up
    have full : ¬ (edge.curEmptySlots : Int) < edge.maxEmptySlots := by omega
    have room : scanRoom edge slots = 0 := by
      rw [scanRoom]
      omega
    rw [room]
    by_cases below : ((ids j).toNat : Int) < pnum
    · have fails : fault = some .assertion := by
        simp only [fault]
        rw [appendIds, if_pos below, if_neg full]
      refine ⟨?_, fun _ => .inl fails⟩
      rintro ⟨m, least, large⟩
      obtain rfl : m = 0 := by omega
      rw [Nat.add_zero] at large
      omega
    · have stops : fault = none := by
        simp only [fault]
        rw [appendIds, if_neg below]
      refine ⟨fun _ => stops, ?_⟩
      intro never
      exact absurd ⟨0, Nat.le_refl 0, by rw [Nat.add_zero]; omega⟩ never
  | succ fuel ih =>
    by_cases below : ((ids j).toNat : Int) < pnum
    · by_cases room : (edge.curEmptySlots : Int) < edge.maxEmptySlots
      · by_cases inside : edge.curEmptySlots < slots.length
        · have step : fault = (appendIds ids pnum (fuel + 1) (j + 1)
              { edge with curEmptySlots := edge.curEmptySlots + 1 }
              (slots.set edge.curEmptySlots (ids j))).2.2 := by
            simp only [fault]
            rw [appendIds, if_pos below, if_pos room, if_pos inside]
          have less : scanRoom edge slots =
              scanRoom { edge with curEmptySlots := edge.curEmptySlots + 1 }
                (slots.set edge.curEmptySlots (ids j)) + 1 := by
            simp only [scanRoom, List.length_set]
            omega
          obtain ⟨fits, overruns⟩ := ih (j + 1)
            { edge with curEmptySlots := edge.curEmptySlots + 1 }
            (slots.set edge.curEmptySlots (ids j)) (by simp only; omega)
          have shift : (∃ m ≤ scanRoom edge slots, pnum ≤ (ids (j + m)).toNat) ↔
              ∃ m ≤ scanRoom { edge with curEmptySlots := edge.curEmptySlots + 1 }
                (slots.set edge.curEmptySlots (ids j)), pnum ≤ (ids (j + 1 + m)).toNat := by
            rw [less]
            constructor
            · rintro ⟨m, least, large⟩
              cases m with
              | zero =>
                rw [Nat.add_zero] at large
                omega
              | succ m => exact ⟨m, by omega, by rwa [Nat.add_assoc, Nat.add_comm 1]⟩
            · rintro ⟨m, least, large⟩
              exact ⟨m + 1, by omega, by rwa [Nat.add_assoc, Nat.add_comm 1] at large⟩
          rw [step, shift]
          exact ⟨fits, overruns⟩
        · have fails : fault = some .outOfBounds := by
            simp only [fault]
            rw [appendIds, if_pos below, if_pos room, if_neg inside]
          have none_left : scanRoom edge slots = 0 := by
            rw [scanRoom]
            omega
          refine ⟨?_, fun _ => .inr fails⟩
          rintro ⟨m, least, large⟩
          obtain rfl : m = 0 := by omega
          rw [Nat.add_zero] at large
          omega
      · have fails : fault = some .assertion := by
          simp only [fault]
          rw [appendIds, if_pos below, if_neg room]
        have none_left : scanRoom edge slots = 0 := by
          rw [scanRoom]
          omega
        refine ⟨?_, fun _ => .inl fails⟩
        rintro ⟨m, least, large⟩
        obtain rfl : m = 0 := by omega
        rw [Nat.add_zero] at large
        omega
    · have stops : fault = none := by
        simp only [fault]
        rw [appendIds, if_neg below]
      refine ⟨fun _ => stops, ?_⟩
      intro never
      exact absurd ⟨0, Nat.zero_le _, by rw [Nat.add_zero]; omega⟩ never

/-- The merge stays in the allocated slots, and there is room for the ids it appends. -/
def MergeFits (env : NodeEnv) (edge : EdgeMod) (msg : LeleMsg) (data : List UInt32) : Prop :=
  ∀ slots, edge.reqEdge = some slots → edge.curEmptySlots ≤ slots.length ∧
    let count := (msg.pnum % 18446744073709551616).toNat
    ∀ matched stop,
      Passes (ackIds env data) count (edge.remaining ⟨msg.startReq, msg.lastReq, data⟩) 0 matched →
        FirstBeyond (ackIds env data) edge.stop count matched stop →
          ∃ m ≤ scanRoom edge slots, msg.pnum ≤ (ackIds env data (stop + m)).toNat

/-- A capacity is exceeded: by an assertion, or by an access behind the array. -/
def Exceeds (fault : Option Fault) : Prop := fault = some .assertion ∨ fault = some .outOfBounds

theorem mergeAck_fits_iff (env : NodeEnv) (edge : EdgeMod) (msg : LeleMsg) (data : List UInt32) :
    ¬ Exceeds (mergeAck env edge msg data).2 ↔ MergeFits env edge msg data := by
  cases req : edge.reqEdge with
  | none =>
    have result : (mergeAck env edge msg data).2 = some .nullPointer := by
      rw [mergeAck, req]
    rw [result, MergeFits]
    simp [Exceeds, req]
  | some slots =>
    -- the array is known here, so the condition is read for it alone
    have fits : MergeFits env edge msg data ↔ edge.curEmptySlots ≤ slots.length ∧
        ∀ matched stop, Passes (ackIds env data) (msg.pnum % 18446744073709551616).toNat
          (edge.remaining ⟨msg.startReq, msg.lastReq, data⟩) 0 matched →
            FirstBeyond (ackIds env data) edge.stop (msg.pnum % 18446744073709551616).toNat matched
              stop → ∃ m ≤ scanRoom edge slots, msg.pnum ≤ (ackIds env data (stop + m)).toNat := by
      constructor
      · intro all
        exact all slots req
      · intro both slots' same
        obtain rfl := Option.some.inj (req.symm.trans same)
        exact both
    rw [fits]
    by_cases inside : edge.curEmptySlots ≤ slots.length
    · -- the slots split into the ones zeroed by the move, the remaining ids and the tail
      obtain ⟨zeros, total, moved⟩ := start_moved edge msg data slots req inside
      have triple : (if edge.start < msg.startReq then
            (msg.startReq, clearUpTo msg.startReq edge.curEmptySlots edge.curEmptySlots 0 slots)
          else (edge.start, 0, slots)) =
          (edge.mergedStart ⟨msg.startReq, msg.lastReq, data⟩, zeros, List.replicate zeros 0 ++
            (edge.remaining ⟨msg.startReq, msg.lastReq, data⟩ ++
              slots.drop edge.curEmptySlots)) := by
        rw [mergedStart, ← moved]
        split
        next less => rfl
        next greater => rfl
      have ids : (fun j => data.getD j (env.heapIds j)) = ackIds env data := rfl
      have merge := mergeSlots_passes (ackIds env data) edge.curEmptySlots
        (msg.pnum % 18446744073709551616).toNat (List.replicate zeros 0)
        (edge.remaining ⟨msg.startReq, msg.lastReq, data⟩) (slots.drop edge.curEmptySlots) 0
        (edge.curEmptySlots + 1) (by rw [List.length_replicate, total]) (by omega)
      rw [List.length_replicate] at merge
      rcases merge with ⟨matched, slots', run, length, passes⟩ | ⟨never, stuck⟩
      · -- the slots have run out: the rest of the ids is appended
        have same_length : slots'.length = slots.length := by
          rw [length, List.length_drop]
          omega
        have first := firstBeyond_skipIds (ackIds env data) edge.stop
          (msg.pnum % 18446744073709551616).toNat matched (passes.le (Nat.zero_le _))
        obtain ⟨stop, skipped⟩ : ∃ stop, skipIds (ackIds env data) edge.stop
          (msg.pnum % 18446744073709551616).toNat
          ((msg.pnum % 18446744073709551616).toNat - matched) matched = stop := ⟨_, rfl⟩
        rw [skipped] at first
        have result : (mergeAck env edge msg data).2 = (appendIds (ackIds env data) msg.pnum
            (edge.maxEmptySlots.toNat + 1) stop
            { edge with start := edge.mergedStart ⟨msg.startReq, msg.lastReq, data⟩ }
            slots').2.2 := by
          rw [mergeAck, req]
          simp only [if_neg (Nat.not_lt.mpr inside), triple, ids, run, if_true, skipped]
        have room : scanRoom
            { edge with start := edge.mergedStart ⟨msg.startReq, msg.lastReq, data⟩ } slots' =
              scanRoom edge slots := by
          rw [scanRoom, scanRoom, same_length]
        obtain ⟨enough, overruns⟩ := appendIds_fits (ackIds env data) msg.pnum
          edge.maxEmptySlots.toNat stop
          { edge with start := edge.mergedStart ⟨msg.startReq, msg.lastReq, data⟩ } slots'
          (Nat.le_add_right _ _)
        rw [room, ← result] at enough overruns
        constructor
        · intro safe
          refine ⟨inside, ?_⟩
          intro matched' stop' passes' first'
          obtain rfl := passes.unique passes'
          obtain rfl := first.unique first'
          by_contra full
          exact safe (overruns full)
        · rintro ⟨-, all⟩ exceeds
          rw [Exceeds, enough (all matched stop passes first)] at exceeds
          rcases exceeds with assertion | outside
          · exact Option.some_ne_none _ assertion.symm
          · exact Option.some_ne_none _ outside.symm
      · -- the ids have run out first, or the loop never ends: nothing is appended
        have quiet : ¬ Exceeds (mergeAck env edge msg data).2 := by
          generalize merged : mergeSlots (ackIds env data) edge.curEmptySlots
            (msg.pnum % 18446744073709551616).toNat (edge.curEmptySlots + 1) zeros 0
            (List.replicate zeros 0 ++ (edge.remaining ⟨msg.startReq, msg.lastReq, data⟩ ++
              slots.drop edge.curEmptySlots)) = result at never
          rw [mergeAck, req]
          simp only [if_neg (Nat.not_lt.mpr inside), triple, ids, merged]
          cases result with
          | none => simp [Exceeds]
          | some cursors =>
            obtain ⟨i, k, slots'⟩ := cursors
            simp only [if_neg (never i k slots' rfl)]
            split
            next done => simp [Exceeds]
            next left => simp [Exceeds]
        constructor
        · intro _
          refine ⟨inside, ?_⟩
          intro matched stop passes
          exact absurd passes (stuck matched)
        · exact fun _ => quiet
    · -- the move of the start already writes outside the array
      have result : (mergeAck env edge msg data).2 = some .outOfBounds := by
        rw [mergeAck, req]
        simp only [if_pos (by omega : slots.length < edge.curEmptySlots)]
      rw [result]
      constructor
      · intro safe
        exact absurd (.inr rfl) safe
      · intro both
        exact absurd both.1 inside

end Merge

/-! ## The scans -/

/-- An array of the given size holds what the scan of the new leader writes: the front that is
cleared, and the missing ids behind the slots listed before. -/
structure HoldsScan (c : Comp) (edge : EdgeMod) (size : ℕ) : Prop where
  length : 0 ≤ initialLength c
  inside : initialLength c ≤ size
  halts : ¬ ((undecidedRange c).1.toNat ≤ (undecidedRange c).2.toNat ∧
    (undecidedRange c).2.toNat + 1 = 2 ^ 32)
  room : (c.missingIds (undecidedRange c).1 (undecidedRange c).2).length ≤
    (initialLength c).toNat - edge.curEmptySlots

/-- The first array of a node has the size asked for; if none can be, nothing is scanned. Every
later scan gets the same array. -/
structure LeaderFits (c : Comp) (edge : EdgeMod) : Prop where
  first : edge.reqEdge = none → initialLength c < 0 ∨ HoldsScan c edge (initialLength c).toNat
  later : ∀ slots, edge.reqEdge = some slots → HoldsScan c edge slots.length

/-- A follower that has a range to report scans the one in `mod->edge`. -/
structure FollowerFits (c : Comp) (edge : EdgeMod) : Prop where
  length : 0 ≤ edgeLength (undecidedRange c).1 (undecidedRange c).2
  room : (c.missingIds edge.start edge.stop).length ≤
    edgeLength (undecidedRange c).1 (undecidedRange c).2
  halts : edge.ScanHalts

theorem leaderCalEdge_fits_iff (c : Comp) (edge : EdgeMod) (slots : List UInt32)
    (fits : 0 ≤ initialLength c) (inside : initialLength c ≤ slots.length) :
    (leaderCalEdge c (restarted c edge slots)).2 = none ↔ HoldsScan c edge slots.length := by
  have size := length_clearFront slots (initialLength c).toNat (by omega)
  have room : scanRoom (restarted c edge slots) (clearFront slots (initialLength c).toNat) =
      (initialLength c).toNat - edge.curEmptySlots := by
    simp only [scanRoom, restarted, size]
    omega
  have range : (restarted c edge slots).start = (undecidedRange c).1 ∧
      (restarted c edge slots).stop = (undecidedRange c).2 := ⟨rfl, rfl⟩
  rw [leaderCalEdge_eq c (restarted c edge slots) (clearFront slots (initialLength c).toNat) rfl,
    room, range.1, range.2]
  by_cases enough : (c.missingIds (undecidedRange c).1 (undecidedRange c).2).length ≤
      (initialLength c).toNat - edge.curEmptySlots
  · rw [if_pos enough]
    by_cases halts : (restarted c edge slots).ScanHalts
    · simp only [if_pos halts, true_iff]
      exact ⟨fits, inside, halts, enough⟩
    · simp only [if_neg halts]
      constructor
      · intro faultless
        exact absurd faultless (Option.some_ne_none _)
      · exact fun holds => absurd holds.halts halts
  · rw [if_neg enough]
    constructor
    · intro faultless
      exact absurd faultless (Option.some_ne_none _)
    · exact fun holds => absurd holds.room enough

/-- The first announcement: the array is as long as the scan asks for. -/
theorem initializeEdgeMod_first (c : Comp) (edge : EdgeMod) (req : edge.reqEdge = none)
    (fits : 0 ≤ initialLength c) :
    initializeEdgeMod c edge =
      leaderCalEdge c (restarted c edge (List.replicate (initialLength c).toNat 0)) := by
  have length : (if c.highestSeenVs.viewId = c.curView.viewId then
      edgeLength (undecidedRange c).1 (undecidedRange c).2 else 100) = initialLength c := rfl
  have fresh : clearFront (List.replicate (initialLength c).toNat 0) (initialLength c).toNat =
      List.replicate (initialLength c).toNat 0 := by
    rw [clearFront, List.drop_of_length_le (by rw [List.length_replicate]), List.append_nil]
  simp only [initializeEdgeMod, length, req, restarted, fresh]
  rw [if_neg (by omega)]

/-- The range is set up without a fault exactly if its array holds the scan. -/
theorem initializeEdgeMod_fits_iff (c : Comp) (edge : EdgeMod) :
    (initializeEdgeMod c edge).2 = none ↔ LeaderFits c edge := by
  cases req : edge.reqEdge with
  | none =>
    have only : LeaderFits c edge ↔
        initialLength c < 0 ∨ HoldsScan c edge (initialLength c).toNat := by
      constructor
      · exact fun fits => fits.first req
      · intro fits
        refine ⟨fun _ => fits, ?_⟩
        intro slots some_slots
        rw [req] at some_slots
        exact absurd some_slots.symm (Option.some_ne_none _)
    have length : (if c.highestSeenVs.viewId = c.curView.viewId then
        edgeLength (undecidedRange c).1 (undecidedRange c).2 else 100) = initialLength c := rfl
    rw [only]
    by_cases fits : 0 ≤ initialLength c
    · -- a fresh array of the scan's own length
      have allocated := initializeEdgeMod_first c edge req fits
      have size : (List.replicate (initialLength c).toNat (0 : UInt32)).length =
          (initialLength c).toNat := List.length_replicate
      rw [allocated, leaderCalEdge_fits_iff c edge _ fits (by rw [size]; omega), size]
      constructor
      · exact fun holds => .inr holds
      · rintro (negative | holds)
        · omega
        · exact holds
    · -- a negative length leaves the module as it was, without a fault
      have refused : (initializeEdgeMod c edge).2 = none := by
        simp only [initializeEdgeMod, length, req]
        rw [if_pos (by omega)]
      simp only [refused, true_iff]
      exact .inl (by omega)
  | some slots =>
    -- the array of an earlier election is used again
    have only : LeaderFits c edge ↔ HoldsScan c edge slots.length := by
      constructor
      · exact fun fits => fits.later slots req
      · intro holds
        refine ⟨fun absent => ?_, ?_⟩
        · rw [req] at absent
          exact absurd absent (Option.some_ne_none _)
        · intro slots' same
          obtain rfl := Option.some.inj (req.symm.trans same)
          exact holds
    rw [only]
    by_cases fits : 0 ≤ initialLength c ∧ initialLength c ≤ slots.length
    · rw [initializeEdgeMod_again c edge slots req fits.1 fits.2]
      exact leaderCalEdge_fits_iff c edge slots fits.1 fits.2
    · rw [initializeEdgeMod_refused c edge slots req (by omega)]
      constructor
      · intro faultless
        exact absurd faultless (Option.some_ne_none _)
      · intro holds
        exact absurd ⟨holds.length, holds.inside⟩ fits

end EdgeMod

/-- An acknowledgement of an announcement. -/
def SysMsg.isAck : SysMsg → Bool
  | .leaderElection msg _ => msg.type = .announceAck
  | _ => false

namespace Node

/-- The scan of `leader_election_handle_announce` fits its array and ends. -/
def AnnounceFits (node : Node) (msg : LeleMsg) : Prop :=
  (msg.content = node.nodeId → EdgeMod.LeaderFits node.comp node.electionMod.edge) ∧
    (msg.content ≠ node.nodeId → (EdgeMod.undecidedRange node.comp).2 ≠ 0xFFFFFFFF →
      EdgeMod.FollowerFits node.comp node.electionMod.edge)

theorem leaderElectionCalEdge_fits_iff (env : NodeEnv) (node : Node)
    (running : node.comp.fault = none) :
    (node.leaderElectionCalEdge env).comp.fault = none ↔
      ((EdgeMod.undecidedRange node.comp).2 ≠ 0xFFFFFFFF →
        EdgeMod.FollowerFits node.comp node.electionMod.edge) := by
  obtain ⟨start, stop, range⟩ : ∃ start stop, EdgeMod.undecidedRange node.comp = (start, stop) :=
    ⟨_, _, rfl⟩
  have fits_iff : EdgeMod.FollowerFits node.comp node.electionMod.edge ↔
      0 ≤ EdgeMod.edgeLength start stop ∧
        (node.comp.missingIds node.electionMod.edge.start node.electionMod.edge.stop).length ≤
          EdgeMod.edgeLength start stop ∧ node.electionMod.edge.ScanHalts := by
    constructor
    · rintro ⟨length, room, halts⟩
      rw [range] at length room
      exact ⟨length, room, halts⟩
    · rintro ⟨length, room, halts⟩
      refine ⟨?_, ?_, halts⟩
      · rwa [range]
      · rwa [range]
  rw [fits_iff]
  simp only [leaderElectionCalEdge, range]
  -- the three refusals of the scan come in the order of the code
  by_cases ends : stop ≠ 0xFFFFFFFF
  · simp only [ne_eq, ends, not_false_eq_true, forall_const, if_true]
    by_cases length : EdgeMod.edgeLength start stop < 0
    · rw [if_pos length]
      constructor
      · intro faultless
        exact absurd faultless (Option.some_ne_none _)
      · intro fits
        omega
    · rw [if_neg length, emptySlots_eq _ _ _ (by omega)]
      by_cases room : (node.comp.missingIds node.electionMod.edge.start
          node.electionMod.edge.stop).length ≤ (EdgeMod.edgeLength start stop).toNat
      · simp only [if_pos room]
        by_cases halts : node.electionMod.edge.ScanHalts
        · simp only [if_pos halts]
          constructor
          · exact fun _ => ⟨by omega, by omega, halts⟩
          · exact fun _ => running
        · simp only [if_neg halts]
          constructor
          · intro faultless
            exact absurd faultless (Option.some_ne_none _)
          · exact fun fits => absurd fits.2.2 halts
      · simp only [if_neg room]
        constructor
        · intro faultless
          exact absurd faultless (Option.some_ne_none _)
        · intro fits
          omega
  · -- nothing undecided is known: the code does not scan at all
    rw [if_neg ends]
    constructor
    · exact fun _ other => absurd other ends
    · exact fun _ => running

theorem handleAnnounce_fits_iff (env : NodeEnv) (node : Node) (msg : LeleMsg)
    (running : node.comp.fault = none) :
    (node.leaderElectionHandleAnnounce env msg).comp.fault = none ↔ node.AnnounceFits msg := by
  rw [AnnounceFits]
  by_cases own : msg.content = node.nodeId
  · have scan := EdgeMod.initializeEdgeMod_fits_iff node.comp node.electionMod.edge
    have result : (node.leaderElectionHandleAnnounce env msg).comp.fault = none ↔
        (EdgeMod.initializeEdgeMod node.comp node.electionMod.edge).2 = none := by
      simp only [leaderElectionHandleAnnounce]
      rw [if_pos (by exact own)]
      simp only [leaderElectionInitializeEdgeMod, withMod]
      generalize EdgeMod.initializeEdgeMod node.comp node.electionMod.edge = result
      obtain ⟨edge, fault⟩ := result
      cases fault with
      | none => exact ⟨fun _ => rfl, fun _ => running⟩
      | some fault => exact ⟨fun faultless => absurd faultless (Option.some_ne_none _),
          fun faultless => absurd faultless (Option.some_ne_none _)⟩
    rw [result, scan]
    exact ⟨fun fits => ⟨fun _ => fits, fun other => absurd own other⟩, fun both => both.1 own⟩
  · obtain ⟨posted, same⟩ : ∃ posted : Node, posted = { node with
        state := .postLele
        electionMod := { node.electionMod with newLeader := msg.content } } := ⟨_, rfl⟩
    have comp : posted.comp = node.comp := by rw [same]
    have edge : posted.electionMod.edge = node.electionMod.edge := by rw [same]
    have result : node.leaderElectionHandleAnnounce env msg =
        posted.leaderElectionCalEdge env := by
      rw [same]
      simp only [leaderElectionHandleAnnounce]
      rw [if_neg (by exact own)]
    rw [result, leaderElectionCalEdge_fits_iff env posted (by rw [comp, running]), comp, edge]
    exact ⟨fun fits => ⟨fun same => absurd same own, fun _ => fits⟩, fun both => both.2 own⟩

/-! ## The calls of an event -/


/-- The message of an event that the node handles as one of the election it is in. -/
def electionMsg (node : Node) : NodeEvent → Option (LeleMsg × List UInt32)
  | .message (.leaderElection msg data) =>
    if (node.state = .inLele ∨ node.state = .postLele) ∧ msg.nextView = node.viewId + 1 then
      some (msg, data)
    else none
  | _ => none

/-- The call of `leader_election_handle_announce` in `leader_election_learner_do`. -/
def learnerCall (env : NodeEnv) (node : Node) (msg : LeleMsg) : Option (Node × LeleMsg) :=
  if InGroup node.groupSize msg.nodeId ∧
      msg.pnum > (node.electionMod.learnerArr msg.nodeId).pnum then
    let mod := { node.electionMod with
      learnerArr := Function.update node.electionMod.learnerArr msg.nodeId ⟨msg.pnum, msg.content⟩ }
    (mod.learnerCheckAccept node.groupSize).map fun decided =>
      let announce := mod.buildLeleMsg env node.nodeId .announce (decided.pnum, decided.content)
      ((node.withMod mod).sendToOtherNodes (.leaderElection announce []), announce)
  else none

/-- The node when the accept branch asks its own learner. -/
def accepting (node : Node) (msg : LeleMsg) : Node :=
  ({ node with
    electionMod := { node.electionMod with acceptor := ⟨msg.pnum, msg.pnum, msg.content⟩ }
    accepted := node.accepted ++ [(node.electionMod.nextView, msg.pnum, msg.content)] } :
      Node).acceptorUpdateRecord

/-- The call of `leader_election_handle_announce` while a message is handled, if there is one: the
node and the announcement at the call. -/
def announceCall (env : NodeEnv) (node : Node) (msg : LeleMsg) : Option (Node × LeleMsg) :=
  match msg.type with
  | .accept =>
    if node.electionMod.acceptor.highestSeenPnum ≤ msg.pnum then
      let node := node.accepting msg
      node.learnerCall env (node.electionMod.buildLeleMsg env node.nodeId .acceptAck (0, 0))
    else none
  | .acceptAck => node.learnerCall env msg
  | .announce => some (node, msg)
  | .announceAck =>
    if node.electionMod.edge.start = 0xFFFFFFFF ∧ node.nodeId = msg.content then some (node, msg)
    else none
  | _ => none

/-- The module an acknowledgement is merged into, if it is merged. -/
def mergeCall (node : Node) (ack : Ack) : Option EdgeMod :=
  let node := node.earlyAnnounce ack
  if ack.msg.type = .announceAck ∧ node.comp.fault = none ∧ InGroup node.groupSize ack.sender ∧
      node.electionMod.edge.msgCount.isSome ∧ node.electionMod.edge.counts ack.sender = false then
    some (node.electionMod.edge.hearing ack.sender)
  else none

/-- The acknowledgements of announcements among the messages a node has sent. -/
def acksSent (node : Node) : List (Int × SysMsg) := node.sent.filter fun call => call.2.isAck

/-- The range, the leader and the acknowledgements of the node are left as they are, and it does not
enter the post stage. -/
structure Unannounced (node node' : Node) : Prop where
  edge : node'.electionMod.edge = node.electionMod.edge
  newLeader : node'.electionMod.newLeader = node.electionMod.newLeader
  kept : node'.electionMod.announceAckMsg = node.electionMod.announceAckMsg
  post : node'.state = .postLele → node.state = .postLele
  acks : node'.acksSent = node.acksSent

section Calls

variable {env : NodeEnv} {node called : Node} {msg announce : LeleMsg} {data : List UInt32}

theorem Unannounced.refl (node : Node) : Unannounced node node := ⟨rfl, rfl, rfl, id, rfl⟩

/-- A message that acknowledges no announcement adds no acknowledgement. -/
theorem acksSent_send {node' : Node} {call : Int × SysMsg}
    (sent : node'.sent = node.sent ++ [call]) (other : call.2.isAck = false) :
    node'.acksSent = node.acksSent := by
  rw [acksSent, sent, List.filter_append, List.filter_singleton, other]
  exact List.append_nil _

theorem acksSent_same {node' : Node} (sent : node'.sent = node.sent) :
    node'.acksSent = node.acksSent := by
  rw [acksSent, sent]
  rfl

theorem Unannounced.trans {a b c : Node} (first : Unannounced a b) (second : Unannounced b c) :
    Unannounced a c :=
  ⟨second.edge.trans first.edge, second.newLeader.trans first.newLeader,
    second.kept.trans first.kept, fun post => first.post (second.post post),
    second.acks.trans first.acks⟩

theorem Unannounced.andThen {before : Node} {next : Node → Node} (first : Unannounced node before)
    (rest : Unannounced before (next before)) : Unannounced node (before.andThen next) := by
  simp only [Node.andThen]
  split
  next runs => exact first.trans rest
  next fails => exact first

theorem dispatch_electionMsg {event : NodeEvent}
    (handled : node.electionMsg event = some (msg, data)) :
    node.dispatch (env, event) = node.leaderElectionDo env msg data := by
  cases event with
  | message sysMsg =>
    cases sysMsg with
    | leaderElection msg' data' =>
      simp only [electionMsg] at handled
      split at handled
      next election =>
        obtain ⟨rfl, rfl⟩ := Prod.mk.inj (Option.some.inj handled)
        simp only [dispatch, handleMsg, handleLeaderElectionMsg]
        rw [if_pos election.1, if_neg (not_not_intro election.2)]
      next other => exact absurd handled.symm (Option.some_ne_none _)
    | _ => exact absurd handled.symm (Option.some_ne_none _)
  | _ => exact absurd handled.symm (Option.some_ne_none _)

theorem groupSize_withMod (node : Node) (mod : LeleMod) :
    (node.withMod mod).groupSize = node.groupSize := rfl

theorem learnerCall_some (call : node.learnerCall env msg = some (called, announce)) :
    node.leaderElectionLearnerDo env msg = called.leaderElectionHandleAnnounce env announce ∧
      called.comp = node.comp := by
  simp only [learnerCall] at call
  split at call
  next newer =>
    obtain ⟨decided, found, same⟩ := Option.map_eq_some_iff.mp call
    obtain ⟨rfl, rfl⟩ := Prod.mk.inj same
    refine ⟨?_, rfl⟩
    simp only [leaderElectionLearnerDo, groupSize_withMod, found]
    rw [if_pos newer.1, if_pos newer.2]
    rfl
  next older => exact absurd call.symm (Option.some_ne_none _)

theorem learnerCall_none (call : node.learnerCall env msg = none) :
    Unannounced node (node.leaderElectionLearnerDo env msg) := by
  simp only [leaderElectionLearnerDo, groupSize_withMod]
  split
  next inGroup =>
    split
    next newer =>
      simp only [learnerCall, if_pos (And.intro inGroup newer), Option.map_eq_none_iff] at call
      simp only [call]
      exact ⟨rfl, rfl, rfl, id, rfl⟩
    next older => exact .refl node
  next outside => exact ⟨rfl, rfl, rfl, id, rfl⟩

theorem handleAccept_eq (accepts : node.electionMod.acceptor.highestSeenPnum ≤ msg.pnum) :
    node.handleAccept env msg =
      ((node.accepting msg).leaderElectionLearnerDo env
        ((node.accepting msg).electionMod.buildLeleMsg env (node.accepting msg).nodeId .acceptAck
          (0, 0))).andThen fun after => after.sendToOtherNodes (.leaderElection
            ((node.accepting msg).electionMod.buildLeleMsg env (node.accepting msg).nodeId
              .acceptAck (0, 0)) []) := by
  simp only [handleAccept]
  rw [if_pos accepts]
  rfl

/-- A step with a call is the call and what follows it. -/
theorem leaderElectionDo_announceCall (data : List UInt32)
    (call : node.announceCall env msg = some (called, announce)) :
    called.comp.fault = node.comp.fault ∧ ∃ next : Node → Node,
      node.leaderElectionDo env msg data =
        (called.leaderElectionHandleAnnounce env announce).andThen next := by
  cases type : msg.type with
  | accept =>
    simp only [announceCall, type] at call
    split at call
    next accepts =>
      obtain ⟨same, comp⟩ := learnerCall_some call
      -- what follows the announce is the ack to the other nodes
      refine ⟨by rw [comp]; rfl, fun after => after.sendToOtherNodes (.leaderElection
        ((node.accepting msg).electionMod.buildLeleMsg env (node.accepting msg).nodeId .acceptAck
          (0, 0)) []), ?_⟩
      simp only [leaderElectionDo, type]
      rw [handleAccept_eq accepts, same]
    next refuses => exact absurd call.symm (Option.some_ne_none _)
  | acceptAck =>
    simp only [announceCall, type] at call
    obtain ⟨same, comp⟩ := learnerCall_some call
    refine ⟨by rw [comp], id, ?_⟩
    simp only [leaderElectionDo, type, same]
    simp [andThen]
  | announce =>
    simp only [announceCall, type] at call
    obtain ⟨rfl, rfl⟩ := Prod.mk.inj (Option.some.inj call)
    refine ⟨rfl, id, ?_⟩
    simp only [leaderElectionDo, type]
    simp [andThen]
  | announceAck =>
    simp only [announceCall, type] at call
    split at call
    next early =>
      obtain ⟨rfl, rfl⟩ := Prod.mk.inj (Option.some.inj call)
      -- what follows the leader's own early announce is the merge of the ack
      refine ⟨rfl, fun node => node.mergeAnnounceAck env msg data, ?_⟩
      simp only [leaderElectionDo, type, leaderElectionHandleAnnounceAck]
      rw [if_pos early]
    next late => exact absurd call.symm (Option.some_ne_none _)
  | _ =>
    simp only [announceCall, type] at call
    exact absurd call.symm (Option.some_ne_none _)

/-- A step that merges an acknowledgement fails as the merge does. -/
theorem leaderElectionDo_mergeCall {edge : EdgeMod}
    (call : node.mergeCall ⟨env, msg, data⟩ = some edge) :
    (node.leaderElectionDo env msg data).electionMod.edge = (edge.mergeAck env msg data).1 ∧
      ∀ fault, (edge.mergeAck env msg data).2 = some fault →
        (node.leaderElectionDo env msg data).comp.fault = some fault := by
  simp only [mergeCall] at call
  split at call
  next merges =>
    obtain ⟨type, running, group, allocated, unheard⟩ := merges
    obtain rfl := Option.some.inj call
    obtain ⟨msgCount, counts⟩ := Option.isSome_iff_exists.mp allocated
    -- the sender was not counted yet, so the counting branch is taken
    have fresh : msgCount msg.nodeId = false := by
      rw [EdgeMod.counts, counts, Option.elim_some] at unheard
      exact unheard
    have handled : node.leaderElectionDo env msg data =
        (node.earlyAnnounce ⟨env, msg, data⟩).mergeAnnounceAck env msg data := by
      have first := receive_eq node ⟨env, msg, data⟩
      rw [andThen_of_running _ _ running] at first
      simp only [leaderElectionDo, type]
      exact first
    rw [handled]
    refine ⟨edge_mergeAnnounceAck env _ msg data msgCount counts group fresh, ?_⟩
    intro fault failed
    have counting : ({ (node.earlyAnnounce ⟨env, msg, data⟩).electionMod.edge with
        msgCount := some (Function.update msgCount msg.nodeId true) } : EdgeMod) =
          (node.earlyAnnounce ⟨env, msg, data⟩).electionMod.edge.hearing msg.nodeId := by
      rw [EdgeMod.hearing, counts, Option.map_some]
    simp only [Ack.sender] at failed group
    simp only [mergeAnnounceAck, counts, if_pos group, fresh, counting, Bool.false_eq_true,
      if_false]
    generalize ((node.earlyAnnounce ⟨env, msg, data⟩).electionMod.edge.hearing msg.nodeId).mergeAck
      env msg data = result at failed
    obtain ⟨edge, fault'⟩ := result
    simp only at failed
    subst failed
    rfl
  next ignored => exact absurd call.symm (Option.some_ne_none _)

theorem unannounced_checkPrepare (env : NodeEnv) (node : Node) :
    Unannounced node (node.checkPrepare env) := by
  simp only [checkPrepare, leaderElectionProposerPhaseTwo]
  split
  next content found =>
    split
    next unset => exact ⟨rfl, rfl, rfl, id, rfl⟩
    next proposed => exact ⟨rfl, rfl, rfl, id, acksSent_send rfl rfl⟩
  next waiting => exact .refl node

theorem unannounced_leaderElectionPropose (env : NodeEnv) (node : Node) :
    Unannounced node (node.leaderElectionPropose env) := by
  simp only [leaderElectionPropose]
  split
  next higher =>
    refine Unannounced.trans ?_ (unannounced_checkPrepare env _)
    exact ⟨rfl, rfl, rfl, id, acksSent_send rfl rfl⟩
  next lower => exact ⟨rfl, rfl, rfl, id, acksSent_send rfl rfl⟩

theorem unannounced_leaderElectionProposerDo (env : NodeEnv) (node : Node) (msg : LeleMsg) :
    Unannounced node (node.leaderElectionProposerDo env msg) := by
  simp only [leaderElectionProposerDo]
  split
  next other => exact ⟨rfl, rfl, rfl, id, rfl⟩
  next prepareAck =>
    split
    next current =>
      split
      next group =>
        refine Unannounced.trans ?_ (unannounced_checkPrepare env _)
        exact ⟨rfl, rfl, rfl, id, rfl⟩
      next outside => exact ⟨rfl, rfl, rfl, id, rfl⟩
    next stale => exact .refl node

theorem unannounced_handlePrepare (env : NodeEnv) (node : Node) (msg : LeleMsg) :
    Unannounced node (node.handlePrepare env msg) := by
  obtain ⟨timer, waits⟩ := stopPropose_timer node msg
  simp only [handlePrepare, waits]
  split
  next newer => exact ⟨rfl, rfl, rfl, id, acksSent_send rfl rfl⟩
  next older => exact ⟨rfl, rfl, rfl, id, rfl⟩

theorem unannounced_updateView (env : NodeEnv) (node : Node) (newViewInfo : View) :
    Unannounced node (node.updateView env newViewInfo) := by
  have mod := (electionMod_updateView env node newViewInfo).1
  refine ⟨by rw [mod], by rw [mod], by rw [mod], ?_, acksSent_same
    (sent_afterUpdateView env node newViewInfo)⟩
  simp only [updateView, Node.andThen, initializeLeaderPing, initializeExpectPing]
  split_ifs <;> first | exact id | (intro post; cases post)

/-- Without a call and without a merge the node announces nothing. -/
theorem leaderElectionDo_unannounced (alone : node.announceCall env msg = none)
    (ignored : node.mergeCall ⟨env, msg, data⟩ = none) :
    Unannounced node (node.leaderElectionDo env msg data) := by
  cases type : msg.type with
  | prepare =>
    simp only [leaderElectionDo, type]
    exact unannounced_handlePrepare env node msg
  | prepareAck =>
    simp only [leaderElectionDo, type]
    exact unannounced_leaderElectionProposerDo env node msg
  | higherNode =>
    simp only [leaderElectionDo, type]
    exact unannounced_leaderElectionProposerDo env node msg
  -- an accept announces only through the learner
  | accept =>
    simp only [announceCall, type] at alone
    simp only [leaderElectionDo, type]
    by_cases accepts : node.electionMod.acceptor.highestSeenPnum ≤ msg.pnum
    · rw [if_pos accepts] at alone
      rw [handleAccept_eq accepts]
      refine Unannounced.andThen ?_ ⟨rfl, rfl, rfl, id, acksSent_send rfl rfl⟩
      refine Unannounced.trans ?_ (learnerCall_none alone)
      exact ⟨rfl, rfl, rfl, id, rfl⟩
    · simp only [handleAccept]
      rw [if_neg accepts]
      exact .refl node
  | acceptAck =>
    simp only [announceCall, type] at alone
    simp only [leaderElectionDo, type]
    exact learnerCall_none alone
  | announce =>
    simp only [announceCall, type] at alone
    exact absurd alone (Option.some_ne_none _)
  | announceAck =>
    simp only [announceCall, type] at alone
    -- the early announce has not run, so only the merge itself could touch the edge
    have late : ¬ (node.electionMod.edge.start = 0xFFFFFFFF ∧ node.nodeId = msg.content) := by
      intro early
      rw [if_pos early] at alone
      exact absurd alone (Option.some_ne_none _)
    have announced : node.earlyAnnounce ⟨env, msg, data⟩ = node := if_neg late
    simp only [mergeCall, announced] at ignored
    simp only [leaderElectionDo, type]
    have first := receive_eq node ⟨env, msg, data⟩
    rw [announced] at first
    have handled : node.leaderElectionHandleAnnounceAck env msg data =
        node.andThen fun node => node.mergeAnnounceAck env msg data := first
    rw [handled]
    by_cases running : node.comp.fault = none
    · rw [andThen_of_running _ _ running]
      simp only [mergeAnnounceAck]
      split
      next unset => exact ⟨rfl, rfl, rfl, id, rfl⟩
      next msgCount counts =>
        by_cases group : InGroup node.groupSize msg.nodeId
        · rw [if_pos group]
          by_cases heard : msgCount msg.nodeId = true
          · rw [if_pos heard]
            exact .refl node
          · rw [Bool.not_eq_true] at heard
            rw [if_pos ⟨type, running, group, by rw [counts]; rfl, by
              rw [EdgeMod.counts, counts, Option.elim_some]
              exact heard⟩] at ignored
            exact absurd ignored (Option.some_ne_none _)
        · rw [if_neg group]
          exact ⟨rfl, rfl, rfl, id, rfl⟩
    · rw [andThen_of_fault _ _ running]
      exact .refl node
  | fin =>
    simp only [leaderElectionDo, type, leaderElectionHandleClose]
    split
    next next_view => exact unannounced_updateView env node _
    next other => exact .refl node
  | lagged =>
    simp only [leaderElectionDo, type]
    exact .refl node

/-- In particular the range and its array stay as they are. -/
theorem leaderElectionDo_quiet (alone : node.announceCall env msg = none)
    (ignored : node.mergeCall ⟨env, msg, data⟩ = none) :
    (node.leaderElectionDo env msg data).electionMod.edge = node.electionMod.edge :=
  (leaderElectionDo_unannounced alone ignored).edge

end Calls

/-! ## Runs -/

/-- Every scan of the step ends in the array it writes to, and so does the merge. -/
def SafeScans (node : Node) (e : NodeEnv × NodeEvent) : Prop :=
  ∀ msg data, node.electionMsg e.2 = some (msg, data) →
    (∀ called announce, node.announceCall e.1 msg = some (called, announce) →
      (called.leaderElectionHandleAnnounce e.1 announce).comp.fault = none) ∧
    ∀ edge, node.mergeCall ⟨e.1, msg, data⟩ = some edge →
      ¬ EdgeMod.Exceeds (edge.mergeAck e.1 msg data).2

/-- What the scans and the merge of the step need of the node at their calls. -/
def ScansFit (node : Node) (e : NodeEnv × NodeEvent) : Prop :=
  ∀ msg data, node.electionMsg e.2 = some (msg, data) →
    (∀ called announce, node.announceCall e.1 msg = some (called, announce) →
      called.AnnounceFits announce) ∧
    ∀ edge, node.mergeCall ⟨e.1, msg, data⟩ = some edge → EdgeMod.MergeFits e.1 edge msg data

theorem safeScans_iff (node : Node) (e : NodeEnv × NodeEvent) (running : node.comp.fault = none) :
    node.SafeScans e ↔ node.ScansFit e := by
  have announces : ∀ msg called announce,
      node.announceCall e.1 msg = some (called, announce) →
        ((called.leaderElectionHandleAnnounce e.1 announce).comp.fault = none ↔
          called.AnnounceFits announce) := by
    intro msg called announce call
    obtain ⟨same, -⟩ := leaderElectionDo_announceCall [] call
    exact handleAnnounce_fits_iff e.1 called announce (by rw [same, running])
  constructor
  · intro safe msg data handled
    obtain ⟨scans, merges⟩ := safe msg data handled
    refine ⟨?_, ?_⟩
    · intro called announce call
      exact (announces msg called announce call).mp (scans called announce call)
    · intro edge call
      exact (EdgeMod.mergeAck_fits_iff e.1 edge msg data).mp (merges edge call)
  · intro fits msg data handled
    obtain ⟨scans, merges⟩ := fits msg data handled
    refine ⟨?_, ?_⟩
    · intro called announce call
      exact (announces msg called announce call).mpr (scans called announce call)
    · intro edge call
      exact (EdgeMod.mergeAck_fits_iff e.1 edge msg data).mpr (merges edge call)

/-- All scans and merges of a run are safe exactly if they fit where they are called. -/
theorem scans_fit_iff (start : Node) (events : List (NodeEnv × NodeEvent)) :
    machine.Accepts SafeScans start events ↔ machine.Accepts ScansFit start events := by
  induction events generalizing start with
  | nil => exact Iff.rfl
  | cons e events ih =>
    simp only [Machine.Accepts]
    rw [ih]
    constructor
    · rintro ⟨safe, enabled, rest⟩
      exact ⟨(safeScans_iff start e enabled.1).mp safe, enabled, rest⟩
    · rintro ⟨fits, enabled, rest⟩
      exact ⟨(safeScans_iff start e enabled.1).mpr fits, enabled, rest⟩

/-- The first election of a group: the node that is told it leads has seen no request of view 0,
and scans all ids up to the largest. -/
theorem first_leader_scan :
    ¬ ∀ (start : Node) (events : List (NodeEnv × NodeEvent)), machine.initial start →
      machine.Accepts Machine.anything start events → machine.Accepts SafeScans start events := by
  intro always
  have safe := always (init false 0 3 ⟨8, 0⟩ ⟨0, 0⟩ lateEnv) [(lateEnv, .expectPing),
    (lateEnv, .message (.leaderElection ⟨.announce, 1, 1, 0, 0, 0, 0, 0⟩ []))]
    ⟨false, 0, 3, _, _, _, by decide, rfl⟩ (by decide)
  have scans := (safe.2.2.1 ⟨.announce, 1, 1, 0, 0, 0, 0, 0⟩ [] (by decide)).1 _ _ rfl
  rw [handleAnnounce_fits_iff _ _ _ (by decide)] at scans
  rcases (scans.1 (by decide)).first (by decide) with negative | holds
  · exact absurd negative (by decide)
  · exact holds.halts (by decide)

end Node

end LibeventPaxos
