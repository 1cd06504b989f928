import LibeventPaxos.ReplicaReplay
import LibeventPaxos.ViewAgreement
import LibeventPaxos.Lib.Simulation

/-!
A group of replicas. Each is a consensus component and a proxy on threads of their own: what a call
of the component does becomes visible to the proxy one write and one announcement at a time, while
the proxy works through the keys of the database they share.
-/
namespace LibeventPaxos

open Lib

/-- `pending` is what the component's thread has done in its last call and the proxy's thread cannot
see yet. -/
structure Replica where
  comp : Comp
  pending : List ReplayEvent
  replay : Replay

inductive ReplicaEvent where
  | call (e : Env × CompEvent)
  | publish
  | wakeUp
  | pass (junk : DbKey → RequestRecord)

namespace Replica

def init (seed : Bool) (nodeId groupSize : Nat) : Replica :=
  let comp := Comp.init seed nodeId groupSize
  ⟨comp, [], ⟨Database.empty, comp.curView.viewId, fun _ => none, [], Proxy.init, none, none⟩⟩

def publish (r : Replica) : Replica :=
  match r.pending with
  | [] => r
  | event :: rest => { r with pending := rest, replay := r.replay.apply event }

def handle (r : Replica) : ReplicaEvent → Replica
  | .call e => { r with comp := Comp.handle r.comp e, pending := r.comp.effects e }
  | .publish => r.publish
  | .wakeUp => { r with replay := r.replay.apply .wakeUp }
  | .pass junk => { r with replay := r.replay.apply (.pass junk) }

/-- What one replica knows: its proxy sees its component up to what is pending, and what lies in the
database and was executed are payloads of `P`. -/
structure Linked (P : ViewStamp → List UInt8 → Prop) (r : Replica) : Prop where
  due : Replay.Due r.comp r.pending r.replay
  replays : Replay.machine.Reaches Replay.staysInView r.replay
  writes : ∀ vs value, .store vs value ∈ r.pending → r.comp.stored vs = some value
  records : ∀ vs, Comp.IsRequest vs → ∀ value,
    r.replay.db.retrieveRecord (vstol vs) = some value →
      ∃ record, value = .request record ∧ P vs record.data
  executed : ∀ action ∈ r.replay.proxy.actions, P (ltovs action.1) action.2

section Linked

variable {P Q : ViewStamp → List UInt8 → Prop} {r : Replica}

theorem Linked.mono (linked : Linked P r) (implies : ∀ vs data, P vs data → Q vs data) :
    Linked Q r where
  due := linked.due
  replays := linked.replays
  writes := linked.writes
  records vs request value found := by
    obtain ⟨record, same, payload⟩ := linked.records vs request value found
    exact ⟨record, same, implies vs record.data payload⟩
  executed action member := implies _ _ (linked.executed action member)

theorem init_linked (P : ViewStamp → List UInt8 → Prop) (seed : Bool) (nodeId groupSize : Nat) :
    Linked P (init seed nodeId groupSize) where
  due := ⟨rfl, rfl, rfl⟩
  replays := by
    refine ⟨_, ⟨(Comp.init seed nodeId groupSize).curView.viewId, ?_, rfl⟩, .refl⟩
    cases seed with
    | false => exact Nat.zero_le 1
    | true => exact Nat.le_refl 1
  writes vs value member := by cases member
  records vs request value found := by cases found
  executed action member := by cases member

/-- Only what a call writes is pending. -/
private theorem stored_of_effects (c : Comp) (e : Env × CompEvent) (vs : ViewStamp)
    (value : DbValue) (member : .store vs value ∈ c.effects e) :
    (Comp.handle c e).stored vs = some value := by
  obtain ⟨env, event⟩ := e
  cases event with
  | updateView newViewInfo =>
    simp only [Comp.effects] at member
    split at member
    next enters => cases List.mem_singleton.mp member
    next ignored => cases member
  | message | submit | makeProgress | acceptorUpdateRecord =>
    simp only [Comp.effects, List.mem_append, List.mem_map, Option.mem_toList] at member
    rcases member with ⟨write, written, same⟩ | ⟨d, -, same⟩
    · cases same
      rw [Comp.stored, Comp.handle_db c _ (fun _ same => by cases same), c.writtenDb_some written,
        Database.retrieveRecord_storeRecord_self]
    · cases same

/-- A call of the component; its payloads may be new. -/
theorem Linked.call (linked : Linked P r) (e : Env × CompEvent) (idle : r.pending = [])
    (inOrder : r.comp.InOrder) (after : (Comp.handle r.comp e).OrderInv)
    (inView : Group.TakesInView r.comp e) (covers : r.comp.Covers e)
    (commits : Comp.Commits (fun _ => True) r.comp (Comp.handle r.comp e)) :
    Linked P (r.handle (.call e)) where
  due := by
    have shown := linked.due
    rw [idle] at shown
    exact shown.handle inOrder e after inView covers commits
  replays := linked.replays
  writes := stored_of_effects r.comp e
  records := linked.records
  executed := linked.executed

/-- Entering a view changes boundaries only, or removes a record. -/
private theorem request_of_updateView {s : Replay} {boundary : UInt32} {record value : DbValue}
    {vs : ViewStamp} (request : Comp.IsRequest vs)
    (found : (s.apply (.updateView boundary record)).db.retrieveRecord (vstol vs) = some value) :
    s.db.retrieveRecord (vstol vs) = some value := by
  have notBoundary : vstol vs ≠ vstol ⟨s.viewId + 1, 0⟩ := fun same =>
    request.2 (congrArg ViewStamp.reqId ((vstol_inj _ _).mp same))
  rw [Replay.retrieveRecord_updateView] at found
  split at found
  next later =>
    split at found
    next removed => cases found
    next kept => exact found
  next first => exact found

theorem Linked.publish (linked : Linked P r) (source : Comp.RecordsFrom P r.comp) :
    Linked P r.publish := by
  obtain ⟨comp, pending, replay⟩ := r
  cases pending with
  | nil => exact linked
  | cons event rest =>
    obtain ⟨own, kept, later⟩ := linked.due
    obtain ⟨-, actions⟩ := replay.proxy_byComponent own
    refine ⟨later, linked.replays.step ?_ kept, ?_, ?_, ?_⟩
    · cases event with
      | pass junk => exact own.elim
      | store | announce | updateView | wakeUp => trivial
    · intro vs value member
      exact linked.writes vs value (List.mem_cons_of_mem _ member)
    · intro vs request value found
      cases event with
      | store vs' value' =>
        have found : (replay.apply (.store vs' value')).db.retrieveRecord (vstol vs) =
            some value := found
        rw [Replay.apply_store, Database.retrieveRecord_storeRecord] at found
        split at found
        next same =>
          -- the record is the one the component has stored
          obtain rfl := Option.some.inj found
          have written := linked.writes vs' value' List.mem_cons_self
          rw [← (vstol_inj vs vs').mp same] at written
          exact source vs request value' written
        next other => exact linked.records vs request value found
      | announce vs' =>
        have found : (replay.apply (.announce vs')).db.retrieveRecord (vstol vs) =
            some value := found
        rw [Replay.db_announce] at found
        exact linked.records vs request value found
      | updateView boundary record =>
        exact linked.records vs request value (request_of_updateView request found)
      | wakeUp => exact own.elim
      | pass junk => exact own.elim
    · intro action member
      exact linked.executed action (actions ▸ member)

theorem Linked.wakeUp (linked : Linked P r) (idle : r.replay.bound.isNone = true) :
    Linked P (r.handle .wakeUp) where
  due := linked.due.congr (Replay.sameShared_wakeUp r.replay)
  replays := linked.replays.step trivial idle
  writes := linked.writes
  records := linked.records
  executed := linked.executed

theorem Linked.pass (linked : Linked P r) (junk : DbKey → RequestRecord)
    (running : r.replay.bound.isSome = true) (allowed : r.replay.staysInView (.pass junk)) :
    Linked P (r.handle (.pass junk)) := by
  have same := r.replay.sameShared_pass junk
  refine ⟨linked.due.congr same, linked.replays.step allowed running, linked.writes, ?_, ?_⟩
  · intro vs request value found
    have db : (r.handle (.pass junk)).replay.db = r.replay.db := same.db
    rw [db] at found
    exact linked.records vs request value found
  · intro action member
    have member : action ∈ (r.replay.apply (.pass junk)).proxy.actions := member
    rcases r.replay.pass_cases junk with
      unmoved | ⟨bound, -, -, ⟨-, crossed⟩ | ⟨value, found, next⟩⟩
    · rw [unmoved] at member
      exact linked.executed action member
    · rw [crossed, Proxy.crossView] at member
      exact linked.executed action member
    · rw [next] at member
      rcases List.mem_append.mp member with earlier | last
      · exact linked.executed action earlier
      · -- what is executed is the payload of the request under the cursor
        obtain rfl := List.mem_singleton.mp last
        obtain ⟨announces, tracks⟩ := Replay.tracks_of_reaches r.replay linked.replays
        obtain ⟨view, reqId⟩ := Replay.positive_of_found announces tracks found
        have request : Comp.IsRequest (ltovs r.replay.proxy.curRec) := by
          constructor
          · intro zero
            rw [Replay.cursor, zero] at view
            exact absurd view (by decide)
          · intro zero
            rw [Replay.cursor, zero] at reqId
            exact absurd reqId (by decide)
        obtain ⟨record, rfl, payload⟩ := linked.records (ltovs r.replay.proxy.curRec) request value
          (by rw [vstol_ltovs]; exact found)
        exact payload

end Linked

end Replica

/-! ## Groups -/

abbrev ReplicaGroup (n : ℕ) := Fin n → Replica

namespace ReplicaGroup

variable {n : ℕ}

def comps (g : ReplicaGroup n) : Group n := fun i => (g i).comp

def start (n : ℕ) (seed : Option (Fin n)) : ReplicaGroup n :=
  fun i => Replica.init (decide (seed = some i)) i n

def act (g : ReplicaGroup n) (e : Fin n × ReplicaEvent) : ReplicaGroup n :=
  Function.update g e.1 ((g e.1).handle e.2)

/-- A component makes its next call when it has done all of the last one; a message that arrives was
sent. -/
def Enabled (g : ReplicaGroup n) : Fin n × ReplicaEvent → Prop
  | (i, .call e) => (g i).pending = [] ∧ (g i).comp.fault = none ∧ Group.Sent (comps g) i e.2
  | (i, .publish) => (g i).pending ≠ []
  | (i, .wakeUp) => (g i).replay.bound.isNone = true
  | (i, .pass _) => (g i).replay.bound.isSome = true

def machine (n : ℕ) (seed : Option (Fin n)) : Machine (ReplicaGroup n) (Fin n × ReplicaEvent) where
  initial g := g = start n seed
  enabled := Enabled
  apply := act

/-- Calls of a run with one leader for each view, which read every record as it was sent and leave a
view at a boundary that covers what the node has delivered, and passes of the proxy that stay in the
view. -/
def Allowed (leaderOf : UInt32 → NodeId) (g : ReplicaGroup n) : Fin n × ReplicaEvent → Prop
  | (i, .call e) => Group.orderly leaderOf (comps g) (i, e) ∧ (g i).comp.Covers e
  | (i, .pass junk) => (g i).replay.staysInView (.pass junk)
  | _ => True

section Step

variable (g : ReplicaGroup n) (e : Fin n × ReplicaEvent)

@[simp] theorem act_self : act g e e.1 = (g e.1).handle e.2 := Function.update_self ..

theorem act_other (i : Fin n) (other : i ≠ e.1) : act g e i = g i :=
  Function.update_of_ne other ..

/-- A call of a component is a step of the group of components. -/
theorem comps_call (i : Fin n) (call : Env × CompEvent) :
    comps (act g (i, .call call)) = Group.act (comps g) (i, call) := by
  funext j
  by_cases same : j = i
  · subst same
    rw [comps, act_self g (j, .call call), Group.act_self (comps g) (j, call)]
    rfl
  · rw [comps, act_other g (i, .call call) j same, Group.act_other (comps g) (i, call) j same]
    rfl

/-- All other events leave the components alone. -/
theorem comps_silent (silent : ∀ call, e.2 ≠ .call call) : comps (act g e) = comps g := by
  obtain ⟨i, event⟩ := e
  funext j
  by_cases same : j = i
  · subst same
    rw [comps, act_self g (j, event), comps]
    cases event with
    | call call => exact absurd rfl (silent call)
    | publish =>
      simp only [Replica.handle, Replica.publish]
      split
      next nothing => rfl
      next event rest some_event => rfl
    | wakeUp => rfl
    | pass junk => rfl
  · rw [comps, act_other g (i, event) j same, comps]

end Step

/-- A group of replicas refines the group of its components. -/
theorem simulates_group (leaderOf : UInt32 → NodeId) (seed : Option (Fin n)) :
    (machine n seed).Simulates (Allowed leaderOf) (Group.machine n seed)
      (Group.orderly leaderOf) (fun g h => h = comps g) := by
  rintro g h ⟨i, event⟩ - rfl allowed enabled
  by_cases calls : ∃ call, event = .call call
  · obtain ⟨call, rfl⟩ := calls
    obtain ⟨-, running, sent⟩ := enabled
    have matched : (Group.machine n seed).Run (Group.orderly leaderOf) (comps g)
        (Group.act (comps g) (i, call)) := Machine.Run.refl.step allowed.1 ⟨running, sent⟩
    exact ⟨_, matched, (comps_call g i call).symm⟩
  · have silent := comps_silent g (i, event) fun call same => calls ⟨call, same⟩
    exact ⟨comps g, .refl, silent.symm⟩

theorem comps_reaches {leaderOf : UInt32 → NodeId} {seed : Option (Fin n)} {g : ReplicaGroup n}
    (reached : (machine n seed).Reaches (Allowed leaderOf) g) :
    (Group.machine n seed).Reaches (Group.orderly leaderOf) (comps g) := by
  obtain ⟨h, reached', rfl⟩ := (simulates_group leaderOf seed).reaches
    (fun g initial => ⟨comps g, by rw [initial]; rfl, rfl⟩) reached
  exact reached'

/-- Every replica of a group is linked to what the group has assigned. -/
theorem linked_of_reaches (seed : Option (Fin n)) (leaderOf : UInt32 → NodeId)
    (consistent : ∀ i, seed = some i → leaderOf 1 = (i : ℕ)) (g : ReplicaGroup n)
    (reached : (machine n seed).Reaches (Allowed leaderOf) g) :
    ∀ i, (g i).Linked (Group.Assigned (comps g)) := by
  apply reached.invariant_using (I := fun g => ∀ i, (g i).Linked (Group.Assigned (comps g)))
  · rintro g rfl i
    exact Replica.init_linked _ _ _ _
  · rintro g ⟨i, event⟩ before linked allowed enabled j
    have known := Group.known_of_reaches seed leaderOf consistent _ (comps_reaches before)
    by_cases calls : ∃ call, event = .call call
    · obtain ⟨call, rfl⟩ := calls
      obtain ⟨idle, running, sent⟩ := enabled
      obtain ⟨orderly, covers⟩ := allowed
      -- a call may assign stamps, which are never taken back; only its own replica changes
      have grown : (g j).Linked (Group.Assigned (comps (act g (i, .call call)))) := by
        rw [comps_call]
        exact (linked j).mono fun _ _ assigned => assigned.act (i, call) running
      show (act g (i, .call call) j).Linked (Group.Assigned (comps (act g (i, .call call))))
      by_cases same : j = i
      · subst same
        rw [act_self g (j, .call call)]
        have inOrder := (known.order j).inOrder running
        exact grown.call call idle inOrder
          (inOrder.handle call orderly.1.2.below orderly.1.2.kept) orderly.1.2.inView covers
          (known.commits (e := (j, call)) running sent orderly)
      · rw [act_other g (i, .call call) j same]
        exact grown
    -- the proxy's thread moves: the components stay as they are
    · have silent := comps_silent g (i, event) fun call same => calls ⟨call, same⟩
      show (act g (i, event) j).Linked (Group.Assigned (comps (act g (i, event))))
      rw [silent]
      by_cases same : j = i
      · subst same
        rw [act_self g (j, event)]
        cases event with
        | call call => exact absurd ⟨call, rfl⟩ calls
        | publish => exact (linked j).publish (known.owned.sourced j).records
        | wakeUp => exact (linked j).wakeUp enabled
        | pass junk => exact (linked j).pass junk enabled allowed
      · rw [act_other g (i, event) j same]
        exact linked j

/-! ## What the servers execute -/

/-- Servers execute the same requests in the same order. -/
structure ServersAgree (leaderOf : UInt32 → NodeId) (g : ReplicaGroup n) : Prop where
  /-- A proxy executes a prefix of what the leader of the view has numbered. -/
  fromLeader : ∀ i viewId, (g i).replay.executedIn viewId ≠ [] →
    ∃ j : Fin n, leaderOf viewId = (j : ℕ) ∧
      (g i).replay.executedIn viewId <+: (g j).comp.assignedIn viewId
  comparable : ∀ i j viewId, (g i).replay.executedIn viewId <+: (g j).replay.executedIn viewId ∨
    (g j).replay.executedIn viewId <+: (g i).replay.executedIn viewId
  /-- Views are executed one after the other. -/
  ordered : ∀ i, (g i).replay.executed.Pairwise fun a b => a.toNat < b.toNat
  /-- What a component has delivered is executed once, with the payload it was delivered with, when
  the cursor has passed it. -/
  delivered : ∀ i, (g i).pending = [] → ∀ d ∈ (g i).comp.delivered,
    vstol d.vs < (g i).replay.proxy.curRec → ∃ data, d.data = some data ∧
      (g i).replay.proxy.actions.count (vstol d.vs, data) = 1

section Agreement

variable {leaderOf : UInt32 → NodeId} {g : ReplicaGroup n}

/-- An action whose key occurs once occurs once itself. -/
private theorem count_action {actions : List (DbKey × List UInt8)} {key : DbKey}
    {data : List UInt8} (once : (actions.map Prod.fst).count key = 1)
    (member : (key, data) ∈ actions) : actions.count (key, data) = 1 := by
  refine Nat.le_antisymm ?_ (List.count_pos_iff.mpr member)
  calc actions.count (key, data)
      ≤ (actions.map Prod.fst).count (Prod.fst (key, data)) := List.count_le_count_map
    _ = 1 := once

private theorem serversAgree_delivered (known : Group.Known leaderOf (comps g))
    (delivered : Group.DeliveredAssigned (comps g))
    (linked : ∀ i, (g i).Linked (Group.Assigned (comps g))) (i : Fin n)
    (idle : (g i).pending = []) (d : Delivery) (done : d ∈ (g i).comp.delivered)
    (passed : vstol d.vs < (g i).replay.proxy.curRec) :
    ∃ data, d.data = some data ∧ (g i).replay.proxy.actions.count (vstol d.vs, data) = 1 := by
  have shown := (linked i).due
  rw [idle] at shown
  have announced : d.vs ∈ (g i).replay.announced := by
    rw [shown.2.2, List.mem_reverse]
    exact List.mem_map_of_mem done
  have once := (Replay.tracks_of_reaches _ (linked i).replays).2.replayed.once d.vs announced passed
  obtain ⟨-, data, found, assigned⟩ := delivered i d done
  refine ⟨data, found, count_action once ?_⟩
  have executed : vstol d.vs ∈ (g i).replay.executed :=
    List.count_pos_iff.mp (by rw [once]; exact Nat.one_pos)
  obtain ⟨⟨key, data'⟩, member, same⟩ := List.mem_map.mp executed
  obtain rfl : key = vstol d.vs := same
  -- a stamp has one payload
  have assigned' := (linked i).executed _ member
  rw [ltovs_vstol] at assigned'
  rwa [known.owned.unique d.vs data data' assigned assigned']

theorem serversAgree (known : Group.Known leaderOf (comps g))
    (delivered : Group.DeliveredAssigned (comps g))
    (numbered : ∀ i, ∀ a ∈ (comps g i).assigned, 0 < a.1.reqId.toNat)
    (linked : ∀ i, (g i).Linked (Group.Assigned (comps g))) : ServersAgree leaderOf g := by
  have taken : ∀ i viewId, ∀ entry ∈ (g i).replay.executedIn viewId, entry.1.viewId = viewId ∧
      ∃ data, entry.2 = some data ∧ Group.Assigned (comps g) entry.1 data := by
    intro i viewId entry member
    obtain ⟨action, done, view, rfl⟩ := Replay.mem_executedIn.mp member
    exact ⟨view, action.2, rfl, (linked i).executed action done⟩
  have fromLeader : ∀ i viewId, (g i).replay.executedIn viewId ≠ [] → ∃ j : Fin n,
      leaderOf viewId = (j : ℕ) ∧
        (g i).replay.executedIn viewId <+: (g j).comp.assignedIn viewId := by
    intro i viewId some_executed
    obtain ⟨entry, member⟩ := List.exists_mem_of_ne_nil _ some_executed
    obtain ⟨view, data, -, assigned⟩ := taken i viewId entry member
    obtain ⟨j, leads⟩ := known.leads assigned
    rw [view] at leads
    exact ⟨j, leads, known.prefix_of_numbers numbered _ viewId
      (Replay.executedIn_numbers (Replay.executed_numbered _ (linked i).replays) viewId)
      (taken i viewId) j leads⟩
  refine ⟨fromLeader, ?_, ?_, serversAgree_delivered known delivered linked⟩
  · intro i j viewId
    exact Group.comparable_of_leader (g := comps g) (fromLeader i viewId) (fromLeader j viewId)
  · intro i
    exact (Replay.tracks_of_reaches _ (linked i).replays).2.sorted

end Agreement

/-- Under any interleaving of components, proxies and messages, the servers of a group execute in
each view what its leader has numbered, in that order. -/
theorem servers_agree (seed : Option (Fin n)) (leaderOf : UInt32 → NodeId)
    (consistent : ∀ i, seed = some i → leaderOf 1 = (i : ℕ)) (g : ReplicaGroup n)
    (reached : (machine n seed).Reaches (Allowed leaderOf) g) : ServersAgree leaderOf g := by
  have reached' := comps_reaches reached
  exact serversAgree (Group.known_of_reaches seed leaderOf consistent _ reached')
    (Group.delivered_of_reaches seed leaderOf consistent _ reached')
    (Group.assigned_numbered seed leaderOf _
      (reached'.mono fun _ _ => Group.inView_of_orderly))
    (linked_of_reaches seed leaderOf consistent g reached)

instance (g : ReplicaGroup n) : ∀ e, Decidable (Enabled g e)
  | (i, .call e) => inferInstanceAs (Decidable
      ((g i).pending = [] ∧ (g i).comp.fault = none ∧ Group.Sent (comps g) i e.2))
  | (i, .publish) => inferInstanceAs (Decidable ((g i).pending ≠ []))
  | (i, .wakeUp) => inferInstanceAs (Decidable ((g i).replay.bound.isNone = true))
  | (i, .pass _) => inferInstanceAs (Decidable ((g i).replay.bound.isSome = true))

instance (seed : Option (Fin n)) (g : ReplicaGroup n) (e : Fin n × ReplicaEvent) :
    Decidable ((machine n seed).enabled g e) := inferInstanceAs (Decidable (Enabled g e))

instance (leaderOf : UInt32 → NodeId) (g : ReplicaGroup n) : ∀ e, Decidable (Allowed leaderOf g e)
  | (i, .call e) => inferInstanceAs (Decidable
      (Group.orderly leaderOf (comps g) (i, e) ∧ (g i).comp.Covers e))
  | (_, .publish) => .isTrue trivial
  | (_, .wakeUp) => .isTrue trivial
  | (i, .pass junk) => inferInstanceAs (Decidable ((g i).replay.staysInView (.pass junk)))

/-- A call and the publication of all it has done. -/
def published (i : Fin n) (call : Env × CompEvent) (effects : ℕ) : List (Fin n × ReplicaEvent) :=
  (i, .call call) :: List.replicate effects (i, .publish)

/-- A wake-up and the passes of the loop it starts. -/
def replayed (i : Fin n) (passes : ℕ) : List (Fin n × ReplicaEvent) :=
  (i, .wakeUp) :: List.replicate passes (i, .pass Replay.zeroJunk)

/-- The calls of `Group.twoViews`. The proxy of the seed executes the request of view 1; that of
node 1, whose component has delivered the request of view 2 only, executes both. -/
def twoViews : List (Fin 3 × ReplicaEvent) :=
  published 1 (Comp.quietEnv, .updateView ⟨1, 0, 0⟩) 1 ++
  published 2 (Comp.quietEnv, .updateView ⟨1, 0, 0⟩) 1 ++
  published 0 (Comp.quietEnv, .submit [5]) 1 ++
  published 1
    (Comp.quietEnv, .message (.acceptReq ⟨1, 1⟩ ⟨1, 0⟩ 0 ⟨⟨0, 0⟩, 0, 1, [5]⟩)) 1 ++
  published 0 (Comp.quietEnv, .message (.acceptAck ⟨1, 1⟩ 1)) 1 ++
  replayed 0 2 ++ [(0, .publish)] ++ replayed 0 2 ++
  published 1 (Comp.quietEnv, .updateView ⟨2, 1, 1⟩) 1 ++
  published 2 (Comp.quietEnv, .updateView ⟨2, 1, 1⟩) 1 ++
  published 1 (Comp.quietEnv, .submit [6]) 1 ++
  published 2
    (Comp.quietEnv, .message (.acceptReq ⟨2, 1⟩ ⟨2, 0⟩ 1 ⟨⟨0, 0⟩, 0, 2, [6]⟩)) 1 ++
  published 1 (Comp.quietEnv, .message (.acceptAck ⟨2, 1⟩ 2)) 2 ++ replayed 1 5

def afterTwoViews : ReplicaGroup 3 := twoViews.foldl act (start 3 (some 0))

theorem two_views_executed :
    (afterTwoViews 0).replay.proxy.actions = [(vstol ⟨1, 1⟩, [5])] ∧
      (afterTwoViews 1).replay.proxy.actions = [(vstol ⟨1, 1⟩, [5]), (vstol ⟨2, 1⟩, [6])] ∧
      ServersAgree Group.secondLeads afterTwoViews := by
  refine ⟨by decide +kernel, by decide +kernel, servers_agree (some 0) Group.secondLeads
    (by decide) afterTwoViews ⟨start 3 (some 0), rfl, Machine.Accepts.run ?_⟩⟩
  decide +kernel

end ReplicaGroup

end LibeventPaxos
