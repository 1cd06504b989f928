import LibeventPaxos.Proxy
import LibeventPaxos.Lib.Machine

/-!
The proxy finds the stamps its component announces by reading key after key, and takes a key that
holds nothing for the end of a view. Here the two threads run side by side: the component stores
records, announces stamps and changes views, and the proxy is woken and works through the keys.
-/
namespace LibeventPaxos

open Lib

/-- What the two threads share. The boundaries of the views that were left, the calls of
`update_state` (the last one first) and the highest key known to the last run of `real_do_action`
that has ended are histories. -/
structure Replay where
  db : Database
  viewId : UInt32
  boundary : UInt32 → Option UInt32
  announced : List ViewStamp
  proxy : Proxy
  /-- `cur_higest` of the run of `real_do_action` that is under way. -/
  bound : Option DbKey
  served : Option DbKey

inductive ReplayEvent where
  | store (vs : ViewStamp) (value : DbValue)
  | announce (vs : ViewStamp)
  | updateView (boundary : UInt32) (record : DbValue)
  | wakeUp
  | pass (junk : DbKey → RequestRecord)

namespace Replay

/-- The last stamp announced; a component starts with (1,0) committed. -/
def latest (s : Replay) : ViewStamp := s.announced.headD ⟨1, 0⟩

/-- The next stamp of a view, or the first of a later one. -/
def Next (last vs : ViewStamp) : Prop :=
  vs.viewId = last.viewId ∧ vs.reqId.toNat = last.reqId.toNat + 1 ∨
    last.viewId.toNat < vs.viewId.toNat ∧ vs.reqId = 1

instance (last vs : ViewStamp) : Decidable (Next last vs) :=
  inferInstanceAs (Decidable (_ ∧ _ ∨ _ ∧ _))

/-- What the component and the node keep to. No record of a view that was left is stored, but for
those of the acceptor, which lie in view 0 under the next view. -/
def Kept (s : Replay) : ReplayEvent → Prop
  | .store vs _ => vs ≠ ⟨0, 0⟩ ∧ (s.viewId.toNat ≤ vs.viewId.toNat ∨ vs.viewId = 0)
  | .announce vs => Next s.latest vs ∧ vs.viewId.toNat ≤ s.viewId.toNat ∧
      (s.db.retrieveRecord (vstol vs)).isSome
  | .updateView boundary _ => s.viewId.toNat + 1 < 2 ^ 32 ∧
      ∀ vs ∈ s.announced, vs.viewId = s.viewId → vs.reqId.toNat ≤ boundary.toNat
  | .wakeUp => s.bound.isNone
  | .pass _ => s.bound.isSome

instance (s : Replay) : ∀ event, Decidable (s.Kept event)
  | .store _ _ => inferInstanceAs (Decidable (_ ∧ _))
  | .announce _ => inferInstanceAs (Decidable (_ ∧ _ ∧ _))
  | .updateView _ _ => inferInstanceAs (Decidable (_ ∧ ∀ vs ∈ s.announced, _ → _))
  | .wakeUp => inferInstanceAs (Decidable (s.bound.isNone = true))
  | .pass _ => inferInstanceAs (Decidable (s.bound.isSome = true))

/-- `update_view` as far as it changes the database. -/
def updateView (s : Replay) (boundary : UInt32) (record : DbValue) : Replay :=
  let next := s.viewId + 1
  { s with
    viewId := next
    boundary := Function.update s.boundary s.viewId (some boundary)
    db := if next ≠ 1 then
        (s.db.storeRecord (vstol ⟨next, 0⟩) record).deleteRecord (vstol ⟨s.viewId, boundary + 1⟩)
      else s.db }

/-- The loop of `real_do_action` looks at its condition and, while it holds, runs its body. -/
def pass (s : Replay) (junk : DbKey → RequestRecord) : Replay :=
  match s.bound with
  | none => s
  | some bound =>
    if s.proxy.curRec ≤ bound then { s with proxy := s.proxy.doActionOnce junk s.db }
    else { s with bound := none, served := some bound }

def apply (s : Replay) : ReplayEvent → Replay
  | .store vs value => { s with db := s.db.storeRecord (vstol vs) value }
  | .announce vs => { s with
      announced := vs :: s.announced
      proxy := s.proxy.updateState (vstol vs) }
  | .updateView boundary record => s.updateView boundary record
  | .wakeUp => { s with bound := some s.proxy.highestRec }
  | .pass junk => s.pass junk

/-- Only a seed starts in view 1. -/
def machine : Machine Replay ReplayEvent where
  initial s := ∃ viewId : UInt32, viewId.toNat ≤ 1 ∧
    s = ⟨Database.empty, viewId, fun _ => none, [], Proxy.init, none, none⟩
  enabled := Kept
  apply := apply

instance (s : Replay) (event : ReplayEvent) : Decidable (machine.enabled s event) :=
  inferInstanceAs (Decidable (s.Kept event))

/-- The keys `do_action_to_server` was called for, in order. -/
def executed (s : Replay) : List DbKey := s.proxy.actions.map Prod.fst

/-- The stamp under the cursor. -/
def cursor (s : Replay) : ViewStamp := ltovs s.proxy.curRec

/-- The pass finds a record under the cursor. -/
def Reads (s : Replay) : Prop :=
  (s.bound.any fun bound => decide (s.proxy.curRec ≤ bound)) = true ∧
    (s.db.retrieveRecord s.proxy.curRec).isSome = true

/-- The proxy executes no request with the last id of a view, behind which the cursor would come to
the boundary record of the next. -/
def staysInView (s : Replay) : ReplayEvent → Prop
  | .pass _ => ¬ (s.Reads ∧ s.cursor.reqId = 0xFFFFFFFF)
  | _ => True

/-- What the proxy owes to the component. -/
structure Replayed (s : Replay) : Prop where
  ordered : s.executed.Pairwise fun a b => a.toNat < b.toNat
  requests : ∀ key ∈ s.executed, (ltovs key).reqId ≠ 0
  within : ∀ key ∈ s.executed, ∀ boundary, s.boundary (ltovs key).viewId = some boundary →
    (ltovs key).reqId.toNat ≤ boundary.toNat
  /-- Behind the cursor nothing announced is left out. -/
  once : ∀ vs ∈ s.announced, vstol vs < s.proxy.curRec → s.executed.count (vstol vs) = 1
  /-- A run of `real_do_action` executes all it knew of when it began. -/
  served : ∀ vs ∈ s.announced, ∀ bound, s.served = some bound → vstol vs ≤ bound →
    s.executed.count (vstol vs) = 1

section Effects

variable (s : Replay)

theorem apply_store (vs : ViewStamp) (value : DbValue) :
    (s.apply (.store vs value)).db = s.db.storeRecord (vstol vs) value := rfl

theorem boundary_store (vs : ViewStamp) (value : DbValue) :
    (s.apply (.store vs value)).boundary = s.boundary := rfl

theorem apply_announce (vs : ViewStamp) :
    (s.apply (.announce vs)).proxy = s.proxy.updateState (vstol vs) := rfl

theorem latest_announce (vs : ViewStamp) : (s.apply (.announce vs)).latest = vs := rfl

theorem bound_wakeUp : (s.apply .wakeUp).bound = some s.proxy.highestRec := rfl

theorem proxy_wakeUp : (s.apply .wakeUp).proxy = s.proxy := rfl

theorem retrieveRecord_updateView (boundary : UInt32) (record : DbValue) (key : DbKey) :
    (s.apply (.updateView boundary record)).db.retrieveRecord key =
      if s.viewId + 1 ≠ 1 then
        if key = vstol ⟨s.viewId, boundary + 1⟩ then none
        else if key = vstol ⟨s.viewId + 1, 0⟩ then some record else s.db.retrieveRecord key
      else s.db.retrieveRecord key := by
  simp only [apply, updateView]
  split
  next later => rw [Database.retrieveRecord_deleteRecord, Database.retrieveRecord_storeRecord]
  next first => rfl

theorem boundary_updateView (boundary : UInt32) (record : DbValue) (viewId : UInt32) :
    (s.apply (.updateView boundary record)).boundary viewId =
      if viewId = s.viewId then some boundary else s.boundary viewId :=
  Function.update_apply s.boundary s.viewId (some boundary) viewId

theorem viewId_updateView (boundary : UInt32) (record : DbValue)
    (room : s.viewId.toNat + 1 < 2 ^ 32) :
    (s.apply (.updateView boundary record)).viewId.toNat = s.viewId.toNat + 1 := by
  show (s.viewId + 1).toNat = s.viewId.toNat + 1
  rw [UInt32.toNat_add, UInt32.toNat_one]
  omega

end Effects

/-! ## Keys -/

theorem vstol_ne_zero {vs : ViewStamp} (other : vs ≠ ⟨0, 0⟩) : vstol vs ≠ 0 := by
  intro zero
  have same : vstol vs = vstol ⟨0, 0⟩ := zero
  exact other ((vstol_inj vs ⟨0, 0⟩).mp same)

/-- Within a view the next key is that of the next id. -/
theorem ltovs_succ (key : DbKey) (room : (ltovs key).reqId ≠ 0xFFFFFFFF) :
    ltovs (key + 1) = ⟨(ltovs key).viewId, (ltovs key).reqId + 1⟩ ∧
      (key + 1).toNat = key.toNat + 1 ∧
      ((ltovs key).reqId + 1).toNat = (ltovs key).reqId.toNat + 1 := by
  have key_lt := key.toNat_lt
  have req := ltovs_reqId_toNat key
  have small : (ltovs key).reqId.toNat ≠ 4294967295 := fun large =>
    room (UInt32.toNat_inj.mp large)
  have next : (key + 1).toNat = key.toNat + 1 := by
    rw [UInt64.toNat_add, UInt64.toNat_one]
    omega
  have id : ((ltovs key).reqId + 1).toNat = (ltovs key).reqId.toNat + 1 := by
    rw [UInt32.toNat_add, UInt32.toNat_one]
    omega
  refine ⟨?_, next, id⟩
  apply ViewStamp.ext_toNat
  · rw [ltovs_viewId_toNat, ltovs_viewId_toNat, next]
    omega
  · rw [ltovs_reqId_toNat, id, next]
    omega

theorem ltovs_crossView (proxy : Proxy) (room : (ltovs proxy.curRec).viewId.toNat + 1 < 2 ^ 32) :
    ltovs proxy.crossView.curRec = ⟨(ltovs proxy.curRec).viewId + 1, 1⟩ ∧
      ((ltovs proxy.curRec).viewId + 1).toNat = (ltovs proxy.curRec).viewId.toNat + 1 := by
  have view := ltovs_viewId_toNat proxy.curRec
  have crossed := proxy.crossView_curRec (by omega)
  have next : ((ltovs proxy.curRec).viewId + 1).toNat = (ltovs proxy.curRec).viewId.toNat + 1 := by
    rw [UInt32.toNat_add, UInt32.toNat_one]
    omega
  refine ⟨?_, next⟩
  apply ViewStamp.ext_toNat
  · rw [ltovs_viewId_toNat, crossed, next, view]
    omega
  · rw [ltovs_reqId_toNat, crossed, UInt32.toNat_one]
    omega

/-! ## The component's side -/

/-- What holds of the records and the announcements. -/
structure Announces (s : Replay) : Prop where
  zero : s.db.retrieveRecord 0 = none
  highest : s.announced = [] ∧ s.proxy.highestRec = 0 ∨
    s.announced ≠ [] ∧ s.proxy.highestRec = vstol s.latest
  latest : 1 ≤ s.latest.viewId.toNat
  known : ∀ vs ∈ s.announced, (vstol vs).toNat ≤ (vstol s.latest).toNat
  early : ∀ vs ∈ s.announced, 1 ≤ vs.viewId.toNat ∧ 1 ≤ vs.reqId.toNat ∧
    vs.viewId.toNat ≤ s.viewId.toNat
  closed : ∀ vs ∈ s.announced, ∀ k : UInt32, 1 ≤ k.toNat → k.toNat ≤ vs.reqId.toNat →
    (⟨vs.viewId, k⟩ : ViewStamp) ∈ s.announced
  stored : ∀ vs ∈ s.announced, (s.db.retrieveRecord (vstol vs)).isSome = true
  left : ∀ viewId, (s.boundary viewId).isSome = true → viewId.toNat < s.viewId.toNat
  entered : ∀ viewId : UInt32, 1 ≤ viewId.toNat → viewId.toNat < s.viewId.toNat →
    (s.boundary viewId).isSome = true
  missing : ∀ viewId boundary, s.boundary viewId = some boundary → viewId ≠ 0 →
    boundary.toNat + 1 < 2 ^ 32 → s.db.retrieveRecord (vstol ⟨viewId, boundary + 1⟩) = none

theorem next_lt {last vs : ViewStamp} (next : Next last vs) :
    (vstol last).toNat < (vstol vs).toNat ∧ 1 ≤ vs.reqId.toNat ∧
      last.viewId.toNat ≤ vs.viewId.toNat := by
  have last_lt := last.reqId.toNat_lt
  rw [vstol_toNat, vstol_toNat]
  rcases next with ⟨view, id⟩ | ⟨view, id⟩
  · rw [view]
    omega
  · have first : vs.reqId.toNat = 1 := by rw [id]; rfl
    omega

section Component

variable {s : Replay}

theorem Announces.store (announces : Announces s) (vs : ViewStamp) (value : DbValue)
    (kept : s.Kept (.store vs value)) : Announces (s.apply (.store vs value)) := by
  obtain ⟨other, allowed⟩ := kept
  constructor
  · rw [apply_store, Database.retrieveRecord_storeRecord, if_neg ?_]
    · exact announces.zero
    · intro same
      exact vstol_ne_zero other same.symm
  · exact announces.highest
  · exact announces.latest
  · exact announces.known
  · exact announces.early
  · exact announces.closed
  · intro vs' member
    rw [apply_store, Database.retrieveRecord_storeRecord]
    split
    next same => rfl
    next different => exact announces.stored vs' member
  · exact announces.left
  · exact announces.entered
  · intro viewId boundary closed later room
    rw [boundary_store] at closed
    rw [apply_store, Database.retrieveRecord_storeRecord, if_neg ?_]
    · exact announces.missing viewId boundary closed later room
    · intro same
      have view : viewId = vs.viewId := congrArg ViewStamp.viewId ((vstol_inj _ _).mp same)
      have before := announces.left viewId (by rw [closed]; rfl)
      rcases allowed with current | acceptor
      · rw [← view] at current
        omega
      · exact later (view.trans acceptor)

theorem Announces.announce (announces : Announces s) (vs : ViewStamp)
    (kept : s.Kept (.announce vs)) : Announces (s.apply (.announce vs)) := by
  obtain ⟨next, current, stored⟩ := kept
  obtain ⟨order, positive, view⟩ := next_lt next
  have latest := announces.latest
  -- the stamps of the view up to the last one are known
  have before : ∀ k : UInt32, 1 ≤ k.toNat → k.toNat ≤ s.latest.reqId.toNat →
      (⟨s.latest.viewId, k⟩ : ViewStamp) ∈ s.announced := by
    rcases announces.highest with ⟨nothing, -⟩ | ⟨something, -⟩
    · intro k low high
      have start : s.latest = ⟨1, 0⟩ := by rw [Replay.latest, nothing]; rfl
      rw [start] at high
      exact absurd (Nat.le_trans low high) (by decide)
    · refine announces.closed s.latest ?_
      obtain ⟨first, rest, same⟩ := List.exists_cons_of_ne_nil something
      rw [Replay.latest, same]
      exact List.mem_cons_self
  constructor
  · exact announces.zero
  · right
    refine ⟨List.cons_ne_nil _ _, ?_⟩
    rw [apply_announce, latest_announce, Proxy.updateState, if_pos]
    rw [UInt64.lt_iff_toNat_lt]
    rcases announces.highest with ⟨-, same⟩ | ⟨-, same⟩
    · rw [same, vstol_toNat]
      exact Nat.lt_of_lt_of_le (by decide : (0 : UInt64).toNat < 1) (by omega)
    · rw [same]
      exact order
  · rw [latest_announce]
    omega
  · intro vs' member
    rw [latest_announce]
    rcases List.mem_cons.mp member with rfl | earlier
    · exact Nat.le_refl _
    · exact Nat.le_of_lt (Nat.lt_of_le_of_lt (announces.known vs' earlier) order)
  · intro vs' member
    rcases List.mem_cons.mp member with rfl | earlier
    · exact ⟨by omega, positive, current⟩
    · exact announces.early vs' earlier
  · intro vs' member k low high
    rcases List.mem_cons.mp member with rfl | earlier
    · rcases Nat.eq_or_lt_of_le high with same | below
      · rw [UInt32.toNat_inj.mp same]
        exact List.mem_cons_self
      · apply List.mem_cons_of_mem
        rcases next with ⟨view, id⟩ | ⟨-, id⟩
        · rw [view]
          exact before k low (by omega)
        · rw [id, UInt32.toNat_one] at below
          omega
    · exact List.mem_cons_of_mem _ (announces.closed vs' earlier k low high)
  · intro vs' member
    rcases List.mem_cons.mp member with rfl | earlier
    · exact stored
    · exact announces.stored vs' earlier
  · exact announces.left
  · exact announces.entered
  · exact announces.missing

theorem Announces.updateView (announces : Announces s) (boundary : UInt32) (record : DbValue)
    (kept : s.Kept (.updateView boundary record)) :
    Announces (s.apply (.updateView boundary record)) := by
  obtain ⟨room, above⟩ := kept
  have view := s.viewId_updateView boundary record room
  -- only the record one past the boundary is deleted; every part looks at that key
  have next : (s.viewId + 1).toNat = s.viewId.toNat + 1 := view
  constructor
  · rw [retrieveRecord_updateView]
    split
    next later =>
      split
      next deleted => rfl
      next kept =>
        rw [if_neg ?_]
        · exact announces.zero
        · intro same
          have zero := congrArg UInt64.toNat same
          rw [vstol_boundary, next, UInt64.toNat_zero] at zero
          omega
    next first => exact announces.zero
  · exact announces.highest
  · exact announces.latest
  · exact announces.known
  · intro vs member
    obtain ⟨low, id, high⟩ := announces.early vs member
    exact ⟨low, id, by omega⟩
  · exact announces.closed
  · intro vs member
    have id := (announces.early vs member).2.1
    rw [retrieveRecord_updateView]
    split
    next later =>
      rw [if_neg ?_]
      · split
        next same => rfl
        next different => exact announces.stored vs member
      · -- what is deleted lies behind all that was announced
        intro same
        obtain rfl := (vstol_inj _ _).mp same
        have inside := above _ member rfl
        simp only at inside id
        have wraps := UInt32.toNat_add boundary 1
        have boundary_lt := boundary.toNat_lt
        rw [UInt32.toNat_one] at wraps
        omega
    next first => exact announces.stored vs member
  · intro viewId some_boundary
    rw [boundary_updateView] at some_boundary
    rw [view]
    split at some_boundary
    next same =>
      rw [same]
      omega
    next other =>
      have before := announces.left viewId some_boundary
      omega
  · intro viewId low high
    rw [boundary_updateView]
    split
    next same => rfl
    next other =>
      have different : viewId.toNat ≠ s.viewId.toNat := fun same =>
        other (UInt32.toNat_inj.mp same)
      exact announces.entered viewId low (by omega)
  · intro viewId boundary' closed later fits
    rw [boundary_updateView] at closed
    rw [retrieveRecord_updateView]
    -- the view just left closes at the new boundary; older ones keep theirs
    by_cases same : viewId = s.viewId
    · rw [if_pos same] at closed
      obtain rfl := Option.some.inj closed
      have not_first : s.viewId + 1 ≠ 1 := by
        intro first
        have one := congrArg UInt32.toNat first
        rw [next, UInt32.toNat_one] at one
        exact later (UInt32.toNat_inj.mp (by rw [same, UInt32.toNat_zero]; omega))
      rw [if_pos not_first, same, if_pos rfl]
    · rw [if_neg same] at closed
      have absent := announces.missing viewId boundary' closed later fits
      have before := announces.left viewId (by rw [closed]; rfl)
      split
      next deletes =>
        split
        next deleted => rfl
        next kept =>
          rw [if_neg ?_]
          · exact absent
          · intro equal
            have equal := congrArg ViewStamp.viewId ((vstol_inj _ _).mp equal)
            have number := congrArg UInt32.toNat equal
            simp only at number
            omega
      next first => exact absent

/-- What the proxy's own steps leave alone. -/
theorem Announces.of_proxy {s' : Replay} (announces : Announces s) (db : s'.db = s.db)
    (viewId : s'.viewId = s.viewId) (boundary : s'.boundary = s.boundary)
    (announced : s'.announced = s.announced)
    (highestRec : s'.proxy.highestRec = s.proxy.highestRec) : Announces s' := by
  have latest : s'.latest = s.latest := by rw [Replay.latest, Replay.latest, announced]
  constructor
  · rw [db]
    exact announces.zero
  · rw [announced, highestRec, latest]
    exact announces.highest
  · rw [latest]
    exact announces.latest
  · rw [announced, latest]
    exact announces.known
  · rw [announced, viewId]
    exact announces.early
  · rw [announced]
    exact announces.closed
  · rw [announced, db]
    exact announces.stored
  · rw [boundary, viewId]
    exact announces.left
  · rw [boundary, viewId]
    exact announces.entered
  · rw [boundary, db]
    exact announces.missing

end Component

/-! ## The proxy's side -/

/-- Where the cursor stands, and what lies behind it. -/
structure Tracks (s : Replay) : Prop where
  start : s.cursor = ⟨0, 0⟩ ∨ 1 ≤ s.cursor.viewId.toNat ∧ 1 ≤ s.cursor.reqId.toNat
  behind : s.proxy.curRec.toNat ≤ (vstol s.latest).toNat + 1
  /-- In a view that was left the cursor is at most at the key that was deleted. -/
  inside : ∀ boundary, s.boundary s.cursor.viewId = some boundary →
    s.cursor.reqId.toNat ≤ boundary.toNat + 1
  /-- In a view that was not left it has passed stamps that were announced. -/
  current : s.boundary s.cursor.viewId = none → ∀ k : UInt32, 1 ≤ k.toNat →
    k.toNat < s.cursor.reqId.toNat → (⟨s.cursor.viewId, k⟩ : ViewStamp) ∈ s.announced
  passed : ∀ vs ∈ s.announced, (vstol vs).toNat < s.proxy.curRec.toNat → vstol vs ∈ s.executed
  sorted : s.executed.Pairwise fun a b => a.toNat < b.toNat
  before : ∀ key ∈ s.executed, key.toNat < s.proxy.curRec.toNat
  stamps : ∀ key ∈ s.executed, 1 ≤ (ltovs key).viewId.toNat ∧ 1 ≤ (ltovs key).reqId.toNat
  within : ∀ key ∈ s.executed, ∀ boundary, s.boundary (ltovs key).viewId = some boundary →
    (ltovs key).reqId.toNat ≤ boundary.toNat
  unleft : ∀ key ∈ s.executed, s.boundary (ltovs key).viewId = none → ltovs key ∈ s.announced
  bounded : ∀ bound, s.bound = some bound → bound.toNat ≤ s.proxy.highestRec.toNat
  serves : ∀ bound, s.served = some bound → bound.toNat < s.proxy.curRec.toNat

section Cursor

variable {s : Replay}

theorem Tracks.store (tracks : Tracks s) (vs : ViewStamp) (value : DbValue) :
    Tracks (s.apply (.store vs value)) :=
  ⟨tracks.start, tracks.behind, tracks.inside, tracks.current, tracks.passed, tracks.sorted,
    tracks.before, tracks.stamps, tracks.within, tracks.unleft, tracks.bounded, tracks.serves⟩

theorem Tracks.announce (tracks : Tracks s) (vs : ViewStamp) (kept : s.Kept (.announce vs)) :
    Tracks (s.apply (.announce vs)) := by
  -- the cursor and the actions stay; only the announced stamps and the highest record grow
  have order := (next_lt kept.1).1
  have behind := tracks.behind
  have curRec : (s.apply (.announce vs)).proxy.curRec = s.proxy.curRec := by
    rw [apply_announce, Proxy.updateState_curRec]
  have cursor : (s.apply (.announce vs)).cursor = s.cursor := by
    rw [Replay.cursor, Replay.cursor, curRec]
  have executed : (s.apply (.announce vs)).executed = s.executed := by
    rw [Replay.executed, apply_announce, Proxy.updateState, Replay.executed]
  have boundary : (s.apply (.announce vs)).boundary = s.boundary := rfl
  have announced : (s.apply (.announce vs)).announced = vs :: s.announced := rfl
  constructor
  · rw [cursor]
    exact tracks.start
  · rw [latest_announce, curRec]
    omega
  · rw [cursor, boundary]
    exact tracks.inside
  · rw [cursor, boundary, announced]
    intro unleft k low high
    exact List.mem_cons_of_mem _ (tracks.current unleft k low high)
  · rw [curRec, executed, announced]
    intro vs' member passed
    rcases List.mem_cons.mp member with rfl | earlier
    · omega
    · exact tracks.passed vs' earlier passed
  · rw [executed]
    exact tracks.sorted
  · rw [executed, curRec]
    exact tracks.before
  · rw [executed]
    exact tracks.stamps
  · rw [executed, boundary]
    exact tracks.within
  · rw [executed, boundary, announced]
    intro key member unleft
    exact List.mem_cons_of_mem _ (tracks.unleft key member unleft)
  · intro bound running
    have old := tracks.bounded bound running
    rw [apply_announce, Proxy.updateState]
    split
    next higher =>
      rw [UInt64.lt_iff_toNat_lt] at higher
      exact Nat.le_of_lt (Nat.lt_of_le_of_lt old higher)
    next lower => exact old
  · rw [curRec]
    exact tracks.serves

theorem Tracks.updateView (announces : Announces s) (tracks : Tracks s) (boundary : UInt32)
    (record : DbValue) (kept : s.Kept (.updateView boundary record)) :
    Tracks (s.apply (.updateView boundary record)) := by
  obtain ⟨room, above⟩ := kept
  -- the view that is left has no boundary yet
  have unleft : s.boundary s.viewId = none := by
    cases closed : s.boundary s.viewId with
    | none => rfl
    | some old => exact absurd (announces.left s.viewId (by rw [closed]; rfl)) (Nat.lt_irrefl _)
  refine ⟨tracks.start, tracks.behind, ?_, ?_, tracks.passed, tracks.sorted, tracks.before,
    tracks.stamps, ?_, ?_, tracks.bounded, tracks.serves⟩
  · intro boundary' closed
    rw [boundary_updateView] at closed
    split at closed
    next same =>
      obtain rfl := Option.some.inj closed
      have same : s.cursor.viewId = s.viewId := same
      show s.cursor.reqId.toNat ≤ boundary.toNat + 1
      by_contra far
      have id_lt := s.cursor.reqId.toNat_lt
      have value : (s.cursor.reqId - 1).toNat = s.cursor.reqId.toNat - 1 := by
        rw [UInt32.toNat_sub_of_le _ _ (UInt32.le_iff_toNat_le.mpr (by
          rw [UInt32.toNat_one]
          omega)), UInt32.toNat_one]
      have announced := tracks.current (by rw [same]; exact unleft) (s.cursor.reqId - 1)
        (by omega) (by omega)
      have inside := above _ announced same
      simp only at inside
      omega
    next other => exact tracks.inside boundary' closed
  · intro open_ k low high
    rw [boundary_updateView] at open_
    split at open_
    next same => exact absurd open_ (Option.some_ne_none _)
    next other => exact tracks.current open_ k low high
  · intro key member boundary' closed
    rw [boundary_updateView] at closed
    split at closed
    next same =>
      obtain rfl := Option.some.inj closed
      exact above _ (tracks.unleft key member (by rw [same]; exact unleft)) same
    next other => exact tracks.within key member boundary' closed
  · intro key member open_
    rw [boundary_updateView] at open_
    split at open_
    next same => exact absurd open_ (Option.some_ne_none _)
    next other => exact tracks.unleft key member open_

theorem Tracks.wakeUp (tracks : Tracks s) : Tracks (s.apply .wakeUp) := by
  refine ⟨tracks.start, tracks.behind, tracks.inside, tracks.current, tracks.passed, tracks.sorted,
    tracks.before, tracks.stamps, tracks.within, tracks.unleft, ?_, tracks.serves⟩
  intro bound running
  rw [← Option.some.inj running]
  exact Nat.le_refl _

/-- A cursor at or below the highest key announced stands on an announced stamp, or in a view
before that of the last one. -/
theorem Tracks.under (announces : Announces s) (tracks : Tracks s) (other : s.cursor ≠ ⟨0, 0⟩)
    (reach : s.proxy.curRec.toNat ≤ s.proxy.highestRec.toNat) :
    s.latest ∈ s.announced ∧ s.proxy.curRec.toNat ≤ (vstol s.latest).toNat ∧
      (s.cursor.viewId.toNat < s.latest.viewId.toNat ∨ s.cursor ∈ s.announced) := by
  have key : (vstol s.cursor).toNat = s.proxy.curRec.toNat := by
    rw [cursor, vstol_ltovs]
  have stamp := vstol_toNat s.cursor
  obtain ⟨positive, id⟩ : 1 ≤ s.cursor.viewId.toNat ∧ 1 ≤ s.cursor.reqId.toNat := by
    rcases tracks.start with zero | both
    · exact absurd zero other
    · exact both
  rcases announces.highest with ⟨-, zero⟩ | ⟨something, highest⟩
  · rw [zero, UInt64.toNat_zero] at reach
    omega
  · have member : s.latest ∈ s.announced := by
      obtain ⟨first, rest, same⟩ := List.exists_cons_of_ne_nil something
      rw [Replay.latest, same]
      exact List.mem_cons_self
    rw [highest] at reach
    refine ⟨member, reach, ?_⟩
    have last := vstol_toNat s.latest
    have id_lt := s.latest.reqId.toNat_lt
    have cursor_lt := s.cursor.reqId.toNat_lt
    rcases Nat.lt_or_ge s.cursor.viewId.toNat s.latest.viewId.toNat with earlier | later
    · exact .inl earlier
    · right
      have view : s.latest.viewId = s.cursor.viewId := UInt32.toNat_inj.mp (by omega)
      have found := announces.closed s.latest member s.cursor.reqId id (by
        rw [view] at last
        omega)
      rw [view] at found
      exact found

/-- A key that holds nothing ends the view: no announced stamp lies between it and the next
view. -/
theorem Tracks.cross (announces : Announces s) (tracks : Tracks s) (junk : DbKey → RequestRecord)
    (reach : s.proxy.curRec.toNat ≤ s.proxy.highestRec.toNat)
    (absent : s.db.retrieveRecord s.proxy.curRec = none) :
    Tracks { s with proxy := s.proxy.doActionOnce junk s.db } ∧
      s.proxy.curRec.toNat < (s.proxy.doActionOnce junk s.db).curRec.toNat := by
  rw [Proxy.doActionOnce_none junk s.db s.proxy absent]
  have key : (vstol s.cursor).toNat = s.proxy.curRec.toNat := by
    rw [Replay.cursor, vstol_ltovs]
  have stamp := vstol_toNat s.cursor
  have id_lt := s.cursor.reqId.toNat_lt
  have last := vstol_toNat s.latest
  have latest := announces.latest
  have unannounced : s.cursor ∉ s.announced := by
    intro member
    have stored := announces.stored s.cursor member
    rw [Replay.cursor, vstol_ltovs, absent] at stored
    exact Bool.false_ne_true stored
  -- an absent record under the cursor means that a later view has begun
  have earlier : s.cursor.viewId.toNat < s.latest.viewId.toNat := by
    by_cases zero : s.cursor = ⟨0, 0⟩
    · rw [zero]
      exact latest
    · rcases (tracks.under announces zero reach).2.2 with before | member
      · exact before
      · exact absurd member unannounced
  have latest_lt := s.latest.viewId.toNat_lt
  obtain ⟨crossed, next⟩ := ltovs_crossView s.proxy (by
    show s.cursor.viewId.toNat + 1 < 2 ^ 32
    omega)
  have next : (s.cursor.viewId + 1).toNat = s.cursor.viewId.toNat + 1 := next
  -- the cursor lands on the first stamp of the next view
  have place : s.proxy.crossView.curRec.toNat = (s.cursor.viewId.toNat + 1) * 4294967296 + 1 := by
    have value := vstol_toNat (ltovs s.proxy.crossView.curRec)
    rw [vstol_ltovs, crossed] at value
    rw [value, UInt32.toNat_one]
    exact congrArg (· * 4294967296 + 1) next
  have highest : s.proxy.crossView.highestRec = s.proxy.highestRec := by rw [Proxy.crossView]
  have actions : s.proxy.crossView.actions = s.proxy.actions := by rw [Proxy.crossView]
  generalize s.proxy.crossView = proxy at crossed place highest actions ⊢
  have forward : s.proxy.curRec.toNat < proxy.curRec.toNat := by
    rw [place]
    omega
  have cursor : ({ s with proxy := proxy } : Replay).cursor = ⟨s.cursor.viewId + 1, 1⟩ := crossed
  have executed : ({ s with proxy := proxy } : Replay).executed = s.executed :=
    congrArg (List.map Prod.fst) actions
  refine ⟨?_, forward⟩
  constructor
  · rw [cursor]
    refine .inr ⟨?_, Nat.le_refl _⟩
    simp only [next]
    omega
  · show proxy.curRec.toNat ≤ (vstol s.latest).toNat + 1
    rw [place]
    omega
  · rw [cursor]
    intro boundary _
    exact Nat.le_add_left 1 boundary.toNat
  · rw [cursor]
    intro _ k low high
    exact absurd (Nat.lt_of_le_of_lt low high) (Nat.lt_irrefl _)
  · rw [executed]
    intro vs member passed
    have passed : (vstol vs).toNat < proxy.curRec.toNat := passed
    rcases Nat.lt_or_ge (vstol vs).toNat s.proxy.curRec.toNat with old | skipped
    · exact tracks.passed vs member old
    · -- what is skipped would make the stamp under the cursor an announced one
      exfalso
      obtain ⟨view, id, -⟩ := announces.early vs member
      rw [place, vstol_toNat] at passed
      rw [vstol_toNat, ← key] at skipped
      have vs_lt := vs.reqId.toNat_lt
      have same : vs.viewId = s.cursor.viewId := UInt32.toNat_inj.mp (by omega)
      have positive : 1 ≤ s.cursor.reqId.toNat := by
        rcases tracks.start with zero | both
        · rw [same, zero] at view
          exact absurd view (by decide)
        · exact both.2
      have found := announces.closed vs member s.cursor.reqId positive (by
        rw [same] at skipped
        omega)
      rw [same] at found
      exact unannounced found
  · rw [executed]
    exact tracks.sorted
  · rw [executed]
    intro done member
    exact Nat.lt_trans (tracks.before done member) forward
  · rw [executed]
    exact tracks.stamps
  · rw [executed]
    exact tracks.within
  · rw [executed]
    exact tracks.unleft
  · intro bound running
    show bound.toNat ≤ proxy.highestRec.toNat
    rw [highest]
    exact tracks.bounded bound running
  · intro bound served
    exact Nat.lt_trans (tracks.serves bound served) forward

/-- A key that holds something lies behind the first request of its view. -/
theorem positive_of_found (announces : Announces s) (tracks : Tracks s) {value : DbValue}
    (found : s.db.retrieveRecord s.proxy.curRec = some value) :
    1 ≤ s.cursor.viewId.toNat ∧ 1 ≤ s.cursor.reqId.toNat := by
  rcases tracks.start with zero | both
  · have first : s.proxy.curRec = 0 := by
      have key : vstol s.cursor = s.proxy.curRec := vstol_ltovs _
      rw [← key, zero]
      decide
    rw [first, announces.zero] at found
    cases found
  · exact both

/-- The request that a pass finds under the cursor. -/
structure UnderCursor (s : Replay) : Prop where
  view : 1 ≤ s.cursor.viewId.toNat
  id : 1 ≤ s.cursor.reqId.toNat
  below : s.proxy.curRec.toNat ≤ (vstol s.latest).toNat
  within : ∀ boundary, s.boundary s.cursor.viewId = some boundary →
    s.cursor.reqId.toNat ≤ boundary.toNat
  unleft : s.boundary s.cursor.viewId = none → s.cursor ∈ s.announced

theorem Tracks.underCursor (announces : Announces s) (tracks : Tracks s) (value : DbValue)
    (reach : s.proxy.curRec.toNat ≤ s.proxy.highestRec.toNat)
    (found : s.db.retrieveRecord s.proxy.curRec = some value) : UnderCursor s := by
  obtain ⟨view, id⟩ := positive_of_found announces tracks found
  have other : s.cursor ≠ ⟨0, 0⟩ := by
    intro zero
    rw [zero] at view
    exact absurd view (by decide)
  obtain ⟨member, below, under⟩ := tracks.under announces other reach
  refine ⟨view, id, below, ?_, ?_⟩
  -- in a view that was left the deleted key is not this one
  · intro boundary closed
    have inside := tracks.inside boundary closed
    have id_lt := s.cursor.reqId.toNat_lt
    by_contra beyond
    have absent := announces.missing s.cursor.viewId boundary closed (by
      intro zero
      rw [zero] at view
      exact absurd view (by decide)) (by omega)
    have same : boundary + 1 = s.cursor.reqId := by
      apply UInt32.toNat_inj.mp
      rw [UInt32.toNat_add, UInt32.toNat_one]
      omega
    rw [same] at absent
    have here : vstol ⟨s.cursor.viewId, s.cursor.reqId⟩ = s.proxy.curRec := vstol_ltovs _
    rw [here, found] at absent
    exact Option.some_ne_none value absent
  -- in one that was not the stamp was announced
  · intro unleft
    rcases under with earlier | announced
    · have entered := (announces.early s.latest member).2.2
      have closed := announces.entered s.cursor.viewId view (by omega)
      rw [unleft] at closed
      exact absurd closed Bool.false_ne_true
    · exact announced

/-- The proxy after it has executed the request under its cursor. -/
structure Executes (s : Replay) (proxy : Proxy) : Prop where
  executed : ({ s with proxy := proxy } : Replay).executed = s.executed ++ [s.proxy.curRec]
  cursor : ({ s with proxy := proxy } : Replay).cursor = ⟨s.cursor.viewId, s.cursor.reqId + 1⟩
  next : proxy.curRec.toNat = s.proxy.curRec.toNat + 1
  id : (s.cursor.reqId + 1).toNat = s.cursor.reqId.toNat + 1
  highest : proxy.highestRec = s.proxy.highestRec

theorem executes_doActionOnce (junk : DbKey → RequestRecord) (value : DbValue)
    (found : s.db.retrieveRecord s.proxy.curRec = some value)
    (room : s.cursor.reqId ≠ 0xFFFFFFFF) : Executes s (s.proxy.doActionOnce junk s.db) := by
  obtain ⟨stamp, next, id⟩ := ltovs_succ s.proxy.curRec room
  have curRec := Proxy.doActionOnce_some junk s.db s.proxy value found
  constructor
  · simp only [Replay.executed, Proxy.doActionOnce, found, Proxy.doActionToServer, List.map_append,
      List.map_cons, List.map_nil]
  · show ltovs (s.proxy.doActionOnce junk s.db).curRec = _
    rw [curRec]
    exact stamp
  · rw [curRec, next]
  · exact id
  · exact Proxy.doActionOnce_highestRec junk s.db s.proxy

/-- What holds of the requests executed so far and of the one under the cursor. -/
theorem Executes.all {proxy : Proxy} {p : DbKey → Prop} (executes : Executes s proxy)
    (earlier : ∀ done ∈ s.executed, p done) (here : p s.proxy.curRec) :
    ∀ done ∈ ({ s with proxy := proxy } : Replay).executed, p done := by
  rw [executes.executed]
  intro done member
  rcases List.mem_append.mp member with old | last
  · exact earlier done old
  · rw [List.mem_singleton.mp last]
    exact here

/-- A request under the cursor is executed. -/
theorem Tracks.execute (announces : Announces s) (tracks : Tracks s) (junk : DbKey → RequestRecord)
    (value : DbValue) (reach : s.proxy.curRec.toNat ≤ s.proxy.highestRec.toNat)
    (found : s.db.retrieveRecord s.proxy.curRec = some value)
    (room : s.cursor.reqId ≠ 0xFFFFFFFF) :
    Tracks { s with proxy := s.proxy.doActionOnce junk s.db } ∧
      s.proxy.curRec.toNat < (s.proxy.doActionOnce junk s.db).curRec.toNat := by
  have under := tracks.underCursor announces value reach found
  have executes := executes_doActionOnce junk value found room
  generalize s.proxy.doActionOnce junk s.db = proxy at executes ⊢
  have forward : s.proxy.curRec.toNat < proxy.curRec.toNat := by
    rw [executes.next]
    exact Nat.lt_succ_self _
  refine ⟨?_, forward⟩
  constructor
  · rw [executes.cursor]
    refine .inr ⟨under.view, ?_⟩
    simp only [executes.id]
    omega
  · show proxy.curRec.toNat ≤ (vstol s.latest).toNat + 1
    rw [executes.next]
    exact Nat.succ_le_succ under.below
  · rw [executes.cursor]
    intro boundary closed
    have inside := under.within boundary closed
    simp only [executes.id]
    omega
  · rw [executes.cursor]
    intro unleft k low high
    simp only [executes.id] at high
    rcases Nat.lt_succ_iff_lt_or_eq.mp high with before | here
    · exact tracks.current unleft k low before
    · rw [UInt32.toNat_inj.mp here]
      exact under.unleft unleft
  · rw [executes.executed]
    intro vs announced passed
    have passed : (vstol vs).toNat < proxy.curRec.toNat := passed
    rw [executes.next] at passed
    rcases Nat.lt_succ_iff_lt_or_eq.mp passed with before | here
    · exact List.mem_append_left _ (tracks.passed vs announced before)
    · rw [UInt64.toNat_inj.mp here]
      exact List.mem_append_right _ (List.mem_singleton_self _)
  · rw [executes.executed]
    refine List.pairwise_append.mpr ⟨tracks.sorted, List.pairwise_singleton _ _, ?_⟩
    intro a earlier b last
    rw [List.mem_singleton.mp last]
    exact tracks.before a earlier
  · exact executes.all (fun done earlier => (tracks.before done earlier).trans forward) forward
  · exact executes.all tracks.stamps ⟨under.view, under.id⟩
  · exact executes.all tracks.within under.within
  · exact executes.all tracks.unleft under.unleft
  · intro bound running
    show bound.toNat ≤ proxy.highestRec.toNat
    rw [executes.highest]
    exact tracks.bounded bound running
  · intro bound served
    exact Nat.lt_trans (tracks.serves bound served) forward

/-- One look at the condition of the loop, and its body while it holds. -/
theorem Tracks.pass (announces : Announces s) (tracks : Tracks s) (junk : DbKey → RequestRecord)
    (allowed : s.staysInView (.pass junk)) :
    Announces (s.apply (.pass junk)) ∧ Tracks (s.apply (.pass junk)) ∧
      ∀ bound, s.bound = some bound → s.proxy.curRec ≤ bound →
        s.proxy.curRec.toNat < (s.apply (.pass junk)).proxy.curRec.toNat := by
  cases running : s.bound with
  | none =>
    -- no bound is set: the replay is not running
    have idle : s.apply (.pass junk) = s := by
      simp only [Replay.apply, Replay.pass, running]
    rw [idle]
    exact ⟨announces, tracks, fun bound some_bound => absurd some_bound.symm (Option.some_ne_none _)⟩
  | some bound =>
    by_cases behind : s.proxy.curRec ≤ bound
    · have body : s.apply (.pass junk) = { s with proxy := s.proxy.doActionOnce junk s.db } := by
        simp only [Replay.apply, Replay.pass, running, if_pos behind]
      have reach : s.proxy.curRec.toNat ≤ s.proxy.highestRec.toNat :=
        Nat.le_trans (UInt64.le_iff_toNat_le.mp behind) (tracks.bounded bound running)
      rw [body]
      refine ⟨announces.of_proxy rfl rfl rfl rfl (Proxy.doActionOnce_highestRec junk s.db s.proxy),
        ?_⟩
      cases found : s.db.retrieveRecord s.proxy.curRec with
      | none =>
        obtain ⟨tracks', forward⟩ := tracks.cross announces junk reach found
        exact ⟨tracks', fun _ _ _ => forward⟩
      | some value =>
        -- the excluded pass would wrap the request id of the cursor
        have room : s.cursor.reqId ≠ 0xFFFFFFFF := by
          intro last
          refine allowed ⟨⟨?_, by rw [found]; rfl⟩, last⟩
          rw [running]
          exact decide_eq_true behind
        obtain ⟨tracks', forward⟩ := tracks.execute announces junk value reach found room
        exact ⟨tracks', fun _ _ _ => forward⟩
    · -- the cursor has passed the bound: the loop ends here
      have ends : s.apply (.pass junk) = { s with bound := none, served := some bound } := by
        simp only [Replay.apply, Replay.pass, running, if_neg behind]
      rw [ends]
      refine ⟨announces.of_proxy rfl rfl rfl rfl rfl, ?_, ?_⟩
      · refine ⟨tracks.start, tracks.behind, tracks.inside, tracks.current, tracks.passed,
          tracks.sorted, tracks.before, tracks.stamps, tracks.within, tracks.unleft, ?_, ?_⟩
        · intro bound' some_bound
          exact absurd some_bound.symm (Option.some_ne_none _)
        · intro bound' served
          obtain rfl := Option.some.inj served
          rw [UInt64.le_iff_toNat_le] at behind
          exact Nat.lt_of_not_le behind
      · intro bound' same behind'
        obtain rfl := Option.some.inj same
        exact absurd behind' behind

end Cursor

/-! ## Runs -/

theorem tracks_start (viewId : UInt32) (first : viewId.toNat ≤ 1) :
    let s : Replay := ⟨Database.empty, viewId, fun _ => none, [], Proxy.init, none, none⟩
    Announces s ∧ Tracks s := by
  intro s
  have cursor : s.cursor = ⟨0, 0⟩ := by
    show ltovs 0 = ⟨0, 0⟩
    decide
  constructor
  · refine ⟨rfl, .inl ⟨rfl, rfl⟩, Nat.le_refl 1, ?_, ?_, ?_, ?_, ?_, ?_, ?_⟩
    · intro vs member
      cases member
    · intro vs member
      cases member
    · intro vs member
      cases member
    · intro vs member
      cases member
    · intro viewId closed
      exact absurd closed Bool.false_ne_true
    · intro viewId' low high
      have high : viewId'.toNat < viewId.toNat := high
      omega
    · intro viewId boundary closed
      exact absurd closed.symm (Option.some_ne_none _)
  · refine ⟨.inl cursor, Nat.zero_le _, ?_, ?_, ?_, List.Pairwise.nil, ?_, ?_, ?_, ?_, ?_, ?_⟩
    · intro boundary closed
      exact absurd closed.symm (Option.some_ne_none _)
    · intro _ k low high
      rw [cursor] at high
      exact absurd high (Nat.not_lt_zero _)
    · intro vs member
      cases member
    · intro key member
      cases member
    · intro key member
      cases member
    · intro key member
      cases member
    · intro key member
      cases member
    · intro bound running
      exact absurd running.symm (Option.some_ne_none _)
    · intro bound served
      exact absurd served.symm (Option.some_ne_none _)

theorem tracks_of_reaches (s : Replay) (reached : machine.Reaches staysInView s) :
    Announces s ∧ Tracks s := by
  apply reached.invariant (I := fun s => Announces s ∧ Tracks s)
  · rintro s ⟨viewId, first, rfl⟩
    exact tracks_start viewId first
  · intro s event known allowed kept
    obtain ⟨announces, tracks⟩ := known
    cases event with
    | store vs value => exact ⟨announces.store vs value kept, tracks.store vs value⟩
    | announce vs => exact ⟨announces.announce vs kept, tracks.announce vs kept⟩
    | updateView boundary record =>
      exact ⟨announces.updateView boundary record kept,
        tracks.updateView announces boundary record kept⟩
    | wakeUp => exact ⟨announces.of_proxy rfl rfl rfl rfl rfl, tracks.wakeUp⟩
    | pass junk =>
      obtain ⟨announces', tracks', -⟩ := tracks.pass announces junk allowed
      exact ⟨announces', tracks'⟩

theorem Tracks.replayed {s : Replay} (tracks : Tracks s) : Replayed s := by
  have distinct : s.executed.Nodup := by
    refine tracks.sorted.imp ?_
    rintro a b less rfl
    exact Nat.lt_irrefl _ less
  have once : ∀ vs ∈ s.announced, (vstol vs).toNat < s.proxy.curRec.toNat →
      s.executed.count (vstol vs) = 1 := fun vs member passed =>
    List.count_eq_one_of_mem distinct (tracks.passed vs member passed)
  refine ⟨tracks.sorted, ?_, tracks.within, ?_, ?_⟩
  · intro key member zero
    have positive := (tracks.stamps key member).2
    rw [zero] at positive
    exact absurd positive (by decide)
  · intro vs member passed
    exact once vs member (UInt64.lt_iff_toNat_lt.mp passed)
  · intro vs member bound served known
    exact once vs member (Nat.lt_of_le_of_lt (UInt64.le_iff_toNat_le.mp known)
      (tracks.serves bound served))

/-- In every run in which no request with the last id of a view is executed, the proxy executes
what its component announces, once and in order, and each pass of its loop comes closer to the
highest key. -/
theorem replay_in_order (s : Replay) (reached : machine.Reaches staysInView s) :
    Replayed s ∧ ∀ (junk : DbKey → RequestRecord) (bound : DbKey), s.bound = some bound →
      s.proxy.curRec ≤ bound → s.staysInView (.pass junk) →
        s.proxy.curRec.toNat < (s.apply (.pass junk)).proxy.curRec.toNat := by
  obtain ⟨announces, tracks⟩ := tracks_of_reaches s reached
  refine ⟨tracks.replayed, ?_⟩
  intro junk bound running behind allowed
  exact (tracks.pass announces junk allowed).2.2 bound running behind

/-! ## Runs on fixed events -/

instance (s : Replay) : ∀ event, Decidable (s.staysInView event)
  | .store _ _ => .isTrue trivial
  | .announce _ => .isTrue trivial
  | .updateView _ _ => .isTrue trivial
  | .wakeUp => .isTrue trivial
  | .pass _ => inferInstanceAs (Decidable (¬ ((_ ∧ _) ∧ _)))

/-- A seed before its first request. -/
def seeded : Replay := ⟨Database.empty, 1, fun _ => none, [], Proxy.init, none, none⟩

def emptyRecord : DbValue := .request ⟨⟨0, 0⟩, 0, 0, []⟩

def zeroJunk : DbKey → RequestRecord := fun _ => ⟨⟨0, 0⟩, 0, 0, []⟩

/-- One request in each of two views, and one wake-up for both. -/
theorem two_views_replayed :
    let run : List ReplayEvent := [.wakeUp, .pass zeroJunk, .pass zeroJunk,
      .store ⟨1, 1⟩ emptyRecord, .announce ⟨1, 1⟩, .updateView 1 emptyRecord,
      .store ⟨2, 1⟩ emptyRecord, .announce ⟨2, 1⟩, .wakeUp, .pass zeroJunk, .pass zeroJunk,
      .pass zeroJunk, .pass zeroJunk]
    Replayed (run.foldl apply seeded) ∧
      (run.foldl apply seeded).executed = [vstol ⟨1, 1⟩, vstol ⟨2, 1⟩] := by
  intro run
  refine ⟨(replay_in_order _ ⟨seeded, ⟨1, by decide, rfl⟩, Machine.Accepts.run ?_⟩).1, by decide⟩
  decide

theorem run_event {s t : Replay} (event : ReplayEvent)
    (run : machine.Run Machine.anything s t) (kept : t.Kept event) :
    machine.Run Machine.anything s (t.apply event) := .step run trivial kept

/-- A view with `k` requests, all executed. -/
structure Filled (k : ℕ) (s : Replay) : Prop where
  idle : s.bound = none
  viewId : s.viewId = 1
  latest : s.latest = ⟨1, UInt32.ofNat k⟩
  curRec : s.proxy.curRec.toNat = 4294967296 + k + 1
  highest : s.proxy.highestRec.toNat ≤ 4294967296 + k
  executed : ∀ key ∈ s.executed, key.toNat < 8589934592

/-- Request `k` of view 1. -/
def firstViewStamp (k : ℕ) : ViewStamp := ⟨1, UInt32.ofNat k⟩

theorem reqId_firstViewStamp {k : ℕ} (room : k < 4294967296) :
    (firstViewStamp k).reqId.toNat = k := by
  rw [firstViewStamp, UInt32.toNat_ofNat', Nat.mod_eq_of_lt room]

theorem key_firstViewStamp {k : ℕ} (room : k < 4294967296) :
    (vstol (firstViewStamp k)).toNat = 4294967296 + k := by
  rw [vstol_toNat, reqId_firstViewStamp room, firstViewStamp, UInt32.toNat_one]

/-- The next request is stored and announced, and the proxy has been woken for it. -/
structure Woken (k : ℕ) (s told : Replay) : Prop where
  viewId : told.viewId = 1
  latest : told.latest = firstViewStamp (k + 1)
  proxy : told.proxy = { s.proxy with highestRec := vstol (firstViewStamp (k + 1)) }
  bound : told.bound = some (vstol (firstViewStamp (k + 1)))
  record : told.db.retrieveRecord (vstol (firstViewStamp (k + 1))) = some emptyRecord

theorem Filled.wakes {k : ℕ} {s : Replay} (filled : Filled k s) (room : k + 1 < 4294967296) :
    ∃ told, machine.Run Machine.anything s told ∧ Woken k s told := by
  have id := reqId_firstViewStamp room
  have key := key_firstViewStamp room
  have view : (firstViewStamp (k + 1)).viewId = 1 := rfl
  generalize stamp : firstViewStamp (k + 1) = vs at id key view
  have first : s.Kept (.store vs emptyRecord) := by
    refine ⟨?_, .inl ?_⟩
    · intro zero
      rw [zero] at view
      exact absurd view (by decide)
    · rw [filled.viewId, view]
  obtain ⟨stored, is_stored⟩ : ∃ stored, stored = s.apply (.store vs emptyRecord) := ⟨_, rfl⟩
  have record : stored.db.retrieveRecord (vstol vs) = some emptyRecord := by
    rw [is_stored, apply_store, Database.retrieveRecord_storeRecord_self]
  have second : stored.Kept (.announce vs) := by
    refine ⟨.inl ?_, ?_, by rw [record]; rfl⟩
    · have latest : stored.latest = firstViewStamp k := by
        rw [is_stored]
        exact filled.latest
      rw [latest, id, reqId_firstViewStamp (by omega)]
      exact ⟨view, rfl⟩
    · rw [view, is_stored]
      exact Nat.le_of_eq (congrArg UInt32.toNat filled.viewId.symm)
  -- the stamp is now the highest key
  have proxy : stored.proxy.updateState (vstol vs) =
      { s.proxy with highestRec := vstol vs } := by
    rw [is_stored]
    show s.proxy.updateState (vstol vs) = _
    rw [Proxy.updateState, if_pos]
    rw [UInt64.lt_iff_toNat_lt, key]
    exact Nat.lt_succ_of_le filled.highest
  have third : (stored.apply (.announce vs)).Kept .wakeUp := by
    show stored.bound.isNone = true
    rw [is_stored]
    exact Option.isNone_iff_eq_none.mpr filled.idle
  refine ⟨(stored.apply (.announce vs)).apply .wakeUp, ?_, ?_⟩
  · have storing : machine.Run Machine.anything s stored := by
      rw [is_stored]
      exact run_event _ .refl first
    exact run_event _ (run_event _ storing second) third
  · subst stamp
    refine ⟨?_, rfl, ?_, ?_, record⟩
    · rw [is_stored]
      exact filled.viewId
    · rw [proxy_wakeUp, apply_announce, proxy]
    · rw [bound_wakeUp, apply_announce, proxy]

/-- One pass executes the request, the next ends the run. -/
theorem Woken.serves {k : ℕ} {s told : Replay} (woken : Woken k s told) (filled : Filled k s)
    (room : k + 1 < 4294967296) :
    ∃ s', machine.Run Machine.anything told s' ∧ Filled (k + 1) s' := by
  have key := key_firstViewStamp room
  obtain ⟨viewId, latest, proxy, bound, record⟩ := woken
  have is_vs : firstViewStamp (k + 1) = ⟨1, UInt32.ofNat (k + 1)⟩ := rfl
  generalize firstViewStamp (k + 1) = vs at *
  have here : s.proxy.curRec = vstol vs := UInt64.toNat_inj.mp (by rw [key, filled.curRec]; rfl)
  have found : told.db.retrieveRecord told.proxy.curRec = some emptyRecord := by
    rw [proxy]
    show told.db.retrieveRecord s.proxy.curRec = some emptyRecord
    rw [here, record]
  obtain ⟨done, is_done⟩ : ∃ done, done = told.apply (.pass zeroJunk) := ⟨_, rfl⟩
  have body : done = { told with proxy := told.proxy.doActionOnce zeroJunk told.db } := by
    rw [is_done]
    simp only [apply, pass, bound]
    rw [if_pos]
    rw [proxy, UInt64.le_iff_toNat_le]
    exact Nat.le_of_eq (congrArg UInt64.toNat here)
  have done_cur : done.proxy.curRec.toNat = 4294967296 + k + 2 := by
    rw [body]
    show (told.proxy.doActionOnce zeroJunk told.db).curRec.toNat = _
    rw [Proxy.doActionOnce_some zeroJunk told.db told.proxy emptyRecord found, proxy]
    show (s.proxy.curRec + 1).toNat = _
    rw [UInt64.toNat_add, filled.curRec, UInt64.toNat_one]
    omega
  have done_executed : done.executed = s.executed ++ [vstol vs] := by
    rw [body]
    show (told.proxy.doActionOnce zeroJunk told.db).actions.map Prod.fst = _
    rw [Proxy.doActionOnce, found, proxy]
    simp only [Proxy.doActionToServer, List.map_append, List.map_cons, List.map_nil, here]
    rfl
  have done_bound : done.bound = some (vstol vs) := by
    rw [body]
    exact bound
  have ends : done.apply (.pass zeroJunk) =
      { done with bound := none, served := some (vstol vs) } := by
    simp only [apply, pass, done_bound]
    rw [if_neg]
    rw [UInt64.le_iff_toNat_le, done_cur, key]
    omega
  refine ⟨done.apply (.pass zeroJunk), ?_, ?_⟩
  · have due : told.Kept (.pass zeroJunk) := by
      show told.bound.isSome = true
      rw [bound]
      rfl
    have executing : machine.Run Machine.anything told done := by
      rw [is_done]
      exact run_event _ .refl due
    have due : done.Kept (.pass zeroJunk) := by
      show done.bound.isSome = true
      rw [done_bound]
      rfl
    exact run_event _ executing due
  · rw [ends]
    refine ⟨rfl, ?_, ?_, done_cur, ?_, ?_⟩
    · show done.viewId = 1
      rw [body]
      exact viewId
    · show done.latest = _
      rw [body]
      exact latest.trans is_vs
    · show done.proxy.highestRec.toNat ≤ _
      rw [body]
      show (told.proxy.doActionOnce zeroJunk told.db).highestRec.toNat ≤ _
      rw [Proxy.doActionOnce_highestRec, proxy]
      exact Nat.le_of_eq key
    · show ∀ key ∈ done.executed, key.toNat < 8589934592
      rw [done_executed]
      intro action member
      rcases List.mem_append.mp member with earlier | last
      · exact filled.executed action earlier
      · rw [List.mem_singleton.mp last, key]
        omega

theorem Filled.next {k : ℕ} {s : Replay} (filled : Filled k s) (room : k + 1 < 4294967296) :
    ∃ s', machine.Run Machine.anything s s' ∧ Filled (k + 1) s' := by
  obtain ⟨told, telling, woken⟩ := filled.wakes room
  obtain ⟨s', serving, filled'⟩ := woken.serves filled room
  exact ⟨s', telling.trans serving, filled'⟩

theorem filled_reached (k : ℕ) (room : k < 4294967296) :
    ∃ s, machine.Reaches Machine.anything s ∧ Filled k s := by
  induction k with
  | zero =>
    -- the cursor leaves key 0
    refine ⟨[.wakeUp, .pass zeroJunk, .pass zeroJunk].foldl apply seeded,
      ⟨seeded, ⟨1, by decide, rfl⟩, Machine.Accepts.run (by decide)⟩, ?_⟩
    exact ⟨by decide, by decide, by decide, by decide, by decide, fun key member => by cases member⟩
  | succ k ih =>
    obtain ⟨s, reached, filled⟩ := ih (by omega)
    obtain ⟨s', run, filled'⟩ := filled.next room
    exact ⟨s', reached.extend run, filled'⟩

/-- The view is left at the largest id, and the next one announces its first request. -/
structure Moved (s s' : Replay) : Prop where
  run : machine.Run Machine.anything s s'
  idle : s'.bound = none
  viewId : s'.viewId = s.viewId + 1
  latest : s'.latest = ⟨s.viewId + 1, 1⟩
  proxy : s'.proxy = { s.proxy with highestRec := vstol ⟨s.viewId + 1, 1⟩ }
  announced : (⟨s.viewId + 1, 1⟩ : ViewStamp) ∈ s'.announced
  kept : ∀ vs ∈ s.announced, vs ∈ s'.announced
  removed : s'.db.retrieveRecord (vstol ⟨s.viewId, 0⟩) = none

theorem moved_on (s : Replay) (idle : s.bound = none) (room : s.viewId.toNat + 1 < 2 ^ 32)
    (later : 1 ≤ s.viewId.toNat) (known : s.latest.viewId.toNat ≤ s.viewId.toNat)
    (highest : s.proxy.highestRec.toNat < (vstol ⟨s.viewId + 1, 1⟩).toNat) :
    ∃ s', Moved s s' := by
  have next : (s.viewId + 1).toNat = s.viewId.toNat + 1 :=
    s.viewId_updateView 0xFFFFFFFF emptyRecord room
  have leaves : s.Kept (.updateView 0xFFFFFFFF emptyRecord) := by
    refine ⟨room, fun vs _ _ => ?_⟩
    exact Nat.le_of_lt_succ vs.reqId.toNat_lt
  obtain ⟨entered, is_entered⟩ :
      ∃ entered, entered = s.apply (.updateView 0xFFFFFFFF emptyRecord) := ⟨_, rfl⟩
  have view : entered.viewId = s.viewId + 1 := by
    rw [is_entered]
    rfl
  have stores : entered.Kept (.store ⟨s.viewId + 1, 1⟩ emptyRecord) := by
    refine ⟨?_, .inl ?_⟩
    · intro zero
      exact absurd (congrArg ViewStamp.reqId zero) (by decide : (1 : UInt32) ≠ 0)
    · rw [view]
  obtain ⟨stored, is_stored⟩ :
      ∃ stored, stored = entered.apply (.store ⟨s.viewId + 1, 1⟩ emptyRecord) := ⟨_, rfl⟩
  have announces : stored.Kept (.announce ⟨s.viewId + 1, 1⟩) := by
    refine ⟨.inr ⟨?_, rfl⟩, ?_, ?_⟩
    · have same : stored.latest = s.latest := by
        rw [is_stored, is_entered]
        rfl
      rw [same, next]
      exact Nat.lt_succ_of_le known
    · rw [is_stored]
      show (s.viewId + 1).toNat ≤ entered.viewId.toNat
      rw [view]
    · rw [is_stored, apply_store, Database.retrieveRecord_storeRecord_self]
      rfl
  refine ⟨stored.apply (.announce ⟨s.viewId + 1, 1⟩), ?_⟩
  constructor
  · have entering : machine.Run Machine.anything s entered := by
      rw [is_entered]
      exact run_event _ .refl leaves
    have storing : machine.Run Machine.anything s stored := by
      rw [is_stored]
      exact run_event _ entering stores
    exact run_event _ storing announces
  · show stored.bound = none
    rw [is_stored, is_entered]
    exact idle
  · show stored.viewId = s.viewId + 1
    rw [is_stored]
    exact view
  · exact latest_announce stored ⟨s.viewId + 1, 1⟩
  · have same : stored.proxy = s.proxy := by
      rw [is_stored, is_entered]
      rfl
    rw [apply_announce, same, Proxy.updateState, if_pos (UInt64.lt_iff_toNat_lt.mpr highest)]
  · exact List.mem_cons_self
  · intro vs member
    show vs ∈ _ :: stored.announced
    rw [is_stored, is_entered]
    exact List.mem_cons_of_mem _ member
  · show stored.db.retrieveRecord (vstol ⟨s.viewId, 0⟩) = none
    have other : vstol ⟨s.viewId, 0⟩ ≠ vstol ⟨s.viewId + 1, 1⟩ := by
      intro same
      have ids := congrArg ViewStamp.reqId ((vstol_inj _ _).mp same)
      exact absurd ids (by decide : (0 : UInt32) ≠ 1)
    have second : s.viewId + 1 ≠ 1 := by
      intro first
      rw [first, UInt32.toNat_one] at next
      omega
    -- the id behind the largest one is 0
    have wraps : (0xFFFFFFFF : UInt32) + 1 = 0 := by decide
    rw [is_stored, apply_store, Database.retrieveRecord_storeRecord, if_neg other, is_entered,
      retrieveRecord_updateView, if_pos second, wraps, if_pos rfl]

/-- Behind a view with all its ids the cursor comes to the boundary record of the next view. If that
view is left at its largest id, the record is deleted, and the proxy crosses into the view after it
without a look at the request announced in between. -/
theorem view_skipped :
    ¬ ∀ s, machine.Reaches Machine.anything s → Replayed s := by
  intro always
  obtain ⟨s, reached, filled⟩ := filled_reached 4294967295 (by decide)
  have second : s.viewId + 1 = 2 := by
    rw [filled.viewId]
    rfl
  obtain ⟨s₂, moved₂⟩ := s.moved_on filled.idle (by rw [filled.viewId]; decide)
    (by rw [filled.viewId]; decide) (by rw [filled.latest, filled.viewId])
    (by rw [second]; exact Nat.lt_of_le_of_lt filled.highest (by decide))
  have view₂ : s₂.viewId = 2 := moved₂.viewId.trans second
  have third : s₂.viewId + 1 = 3 := by
    rw [view₂]
    rfl
  obtain ⟨s₃, moved₃⟩ := s₂.moved_on moved₂.idle (by rw [view₂]; decide) (by rw [view₂]; decide)
    (by rw [moved₂.latest, second, view₂])
    (by
      rw [moved₂.proxy, second, third]
      show (vstol ⟨2, 1⟩).toNat < (vstol ⟨3, 1⟩).toNat
      decide)
  -- the cursor stands under the boundary record of view 2, which is gone
  have curRec : s₃.proxy.curRec = vstol ⟨2, 0⟩ := by
    apply UInt64.toNat_inj.mp
    rw [moved₃.proxy, moved₂.proxy]
    exact filled.curRec
  have absent : s₃.db.retrieveRecord s₃.proxy.curRec = none := by
    rw [curRec, ← view₂]
    exact moved₃.removed
  have highest : s₃.proxy.highestRec = vstol ⟨3, 1⟩ := by
    rw [moved₃.proxy, third]
  obtain ⟨awake, is_awake⟩ : ∃ awake, awake = s₃.apply .wakeUp := ⟨_, rfl⟩
  have bound : awake.bound = some (vstol ⟨3, 1⟩) := by
    rw [is_awake, bound_wakeUp, highest]
  have crossed : awake.apply (.pass zeroJunk) = { awake with proxy := s₃.proxy.crossView } := by
    have same : awake.proxy = s₃.proxy ∧ awake.db = s₃.db := by
      rw [is_awake]
      exact ⟨rfl, rfl⟩
    have behind : s₃.proxy.curRec ≤ vstol ⟨3, 1⟩ := by
      rw [curRec]
      decide
    simp only [apply, pass, bound]
    rw [same.1, same.2, if_pos behind, Proxy.doActionOnce_none zeroJunk s₃.db s₃.proxy absent]
  have wakes : machine.Run Machine.anything s awake := by
    rw [is_awake]
    exact run_event _ (moved₂.run.trans moved₃.run) (Option.isNone_iff_eq_none.mpr moved₃.idle)
  have due : awake.Kept (.pass zeroJunk) := by
    show awake.bound.isSome = true
    rw [bound]
    rfl
  have replayed : Replayed (awake.apply (.pass zeroJunk)) :=
    always _ (reached.extend (run_event _ wakes due))
  rw [crossed] at replayed
  have known : (⟨2, 1⟩ : ViewStamp) ∈ awake.announced := by
    have announced := moved₂.announced
    rw [second] at announced
    rw [is_awake]
    exact moved₃.kept _ announced
  have passed : vstol ⟨2, 1⟩ < s₃.proxy.crossView.curRec := by
    rw [UInt64.lt_iff_toNat_lt, Proxy.crossView_curRec s₃.proxy (by rw [curRec]; decide), curRec]
    decide
  have once := replayed.once ⟨2, 1⟩ known passed
  -- what was executed lies in view 1
  have executed : s₃.proxy.crossView.actions = s.proxy.actions := by
    simp only [Proxy.crossView]
    rw [moved₃.proxy, moved₂.proxy]
  have none_of_it : s.executed.count (vstol ⟨2, 1⟩) = 0 := by
    apply List.count_eq_zero_of_not_mem
    intro member
    exact absurd (filled.executed _ member) (by decide)
  have same : (Replay.executed { awake with proxy := s₃.proxy.crossView }) = s.executed := by
    rw [Replay.executed, Replay.executed, executed]
  rw [same, none_of_it] at once
  exact absurd once (by decide)

end Replay

end LibeventPaxos
