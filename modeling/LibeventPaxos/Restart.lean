import LibeventPaxos.NodeVotes

/-!
A node over its restarts. Every promise and every acceptance is stored in the database before it is
answered, and nothing ever reads it back.
-/
namespace LibeventPaxos

open Lib

namespace Node

/-! ## What a call stores -/

/-- The record `acceptor_update_record` stores during the call, and the view it is for. -/
def storesAcceptor (node : Node) : NodeEvent → Option (UInt32 × AcceptorRecord)
  | .message (.leaderElection msg _) =>
    let mod := node.electionMod
    if node.Handles msg then
      if msg.type = .prepare ∧ mod.acceptor.highestSeenPnum < msg.pnum then
        some (mod.nextView,
          { mod.acceptor with highestSeenPnum := msg.pnum, content := msg.content })
      else if msg.type = .accept ∧ mod.acceptor.highestSeenPnum ≤ msg.pnum then
        some (mod.nextView, ⟨msg.pnum, msg.pnum, msg.content⟩)
      else none
    else none
  | .electionTimeout =>
    let mod := node.electionMod
    if node.state = .inLele ∧ mod.acceptor.highestSeenPnum < mod.nextPnum then
      some (mod.nextView, { mod.acceptor with highestSeenPnum := mod.nextPnum })
    else none
  | _ => none

section Calls

variable {node : Node}

/-- The call ends with this acceptor, and the database holds it. -/
def Stores (node : Node) (stored : UInt32 × AcceptorRecord) : Prop :=
  node.electionMod.acceptor = stored.2 ∧
    node.comp.db.retrieveRecord stored.1.toUInt64 = some (.acceptor stored.2)

theorem stores_acceptorUpdateRecord (node : Node) :
    node.acceptorUpdateRecord.Stores (node.electionMod.nextView, node.electionMod.acceptor) :=
  ⟨rfl, Database.retrieveRecord_storeRecord_self _ _ _⟩

/-- Acceptor and database are those of before. -/
def KeepsAcceptor (node node' : Node) : Prop :=
  node'.electionMod.acceptor = node.electionMod.acceptor ∧ node'.comp.db = node.comp.db

theorem KeepsAcceptor.stores {node' : Node} {stored : UInt32 × AcceptorRecord}
    (keeps : KeepsAcceptor node node') (stores : node.Stores stored) : node'.Stores stored := by
  rw [Stores, keeps.1, keeps.2]
  exact stores

private theorem keeps_checkPrepare (env : NodeEnv) (node : Node) :
    KeepsAcceptor node (node.checkPrepare env) := by
  simp only [checkPrepare, leaderElectionProposerPhaseTwo]
  split
  next => split <;> exact ⟨rfl, rfl⟩
  next => exact ⟨rfl, rfl⟩

private theorem keeps_leaderElectionHandleAnnounce (env : NodeEnv) (node : Node)
    (msg : LeleMsg) : KeepsAcceptor node (node.leaderElectionHandleAnnounce env msg) := by
  simp only [leaderElectionHandleAnnounce, leaderElectionInitializeEdgeMod, leaderElectionCalEdge]
  split
  next own => split <;> exact ⟨rfl, rfl⟩
  next other =>
    split
    next seen =>
      split
      next => exact ⟨rfl, rfl⟩
      next => split <;> exact ⟨rfl, rfl⟩
    next nothing => exact ⟨rfl, rfl⟩

private theorem keeps_leaderElectionLearnerDo (env : NodeEnv) (node : Node) (msg : LeleMsg) :
    KeepsAcceptor node (node.leaderElectionLearnerDo env msg) := by
  simp only [leaderElectionLearnerDo]
  split
  next inGroup =>
    split
    next newer =>
      split
      next undecided => exact ⟨rfl, rfl⟩
      next => exact keeps_leaderElectionHandleAnnounce env _ _
    next => exact ⟨rfl, rfl⟩
  next => exact ⟨rfl, rfl⟩

private theorem stores_leaderElectionPropose (env : NodeEnv)
    (higher : node.electionMod.acceptor.highestSeenPnum < node.electionMod.nextPnum) :
    (node.leaderElectionPropose env).Stores (node.electionMod.nextView,
      { node.electionMod.acceptor with highestSeenPnum := node.electionMod.nextPnum }) := by
  simp only [leaderElectionPropose]
  split
  next =>
    have checked := keeps_checkPrepare env
    exact (checked _).stores (stores_acceptorUpdateRecord _)
  next lower => exact absurd higher lower

private theorem stores_handlePrepare (env : NodeEnv) (msg : LeleMsg)
    (higher : node.electionMod.acceptor.highestSeenPnum < msg.pnum) :
    (node.handlePrepare env msg).Stores (node.electionMod.nextView,
      { node.electionMod.acceptor with highestSeenPnum := msg.pnum, content := msg.content }) := by
  simp only [handlePrepare]
  -- whether the node is made to wait plays no part
  obtain ⟨timer, waits⟩ := stopPropose_timer node msg
  rw [waits, if_pos higher]
  exact stores_acceptorUpdateRecord (node.withMod { node.electionMod with
    slientPeriod := timer
    acceptor := { node.electionMod.acceptor with
      highestSeenPnum := msg.pnum, content := msg.content } })

private theorem stores_handleAccept (env : NodeEnv) (msg : LeleMsg)
    (order : node.electionMod.acceptor.highestSeenPnum ≤ msg.pnum) :
    (node.handleAccept env msg).Stores (node.electionMod.nextView,
      ⟨msg.pnum, msg.pnum, msg.content⟩) := by
  simp only [handleAccept, if_pos order, andThen]
  have learned := keeps_leaderElectionLearnerDo env
  split
  next => exact (learned _ _).stores (stores_acceptorUpdateRecord _)
  next => exact (learned _ _).stores (stores_acceptorUpdateRecord _)

/-- What a call stores is the acceptor it ends with, and it is in the database. -/
theorem storesAcceptor_stores (e : NodeEnv × NodeEvent) (stored : UInt32 × AcceptorRecord)
    (stores : node.storesAcceptor e.2 = some stored) : (node.dispatch e).Stores stored := by
  obtain ⟨env, event⟩ := e
  cases event with
  | message msg =>
    cases msg with
    | leaderElection msg data =>
      simp only [storesAcceptor] at stores
      split at stores
      next handles =>
        rw [dispatch_handled env msg data handles]
        split at stores
        next prepares =>
          cases stores
          simp only [leaderElectionDo, prepares.1]
          exact stores_handlePrepare env msg prepares.2
        next =>
          split at stores
          next accepts =>
            cases stores
            simp only [leaderElectionDo, accepts.1]
            exact stores_handleAccept env msg accepts.2
          next => cases stores
      next => cases stores
    | _ => cases stores
  | electionTimeout =>
    simp only [storesAcceptor] at stores
    split at stores
    next proposes =>
      cases stores
      -- a proposal stores the promise the node makes to itself
      generalize fired : node.withMod { node.electionMod with slientPeriod := .idle } = node'
      have proposed : (node'.leaderElectionPropose env).Stores (node.electionMod.nextView,
          { node.electionMod.acceptor with highestSeenPnum := node.electionMod.nextPnum }) := by
        subst fired
        exact stores_leaderElectionPropose env proposes.2
      have inElection : node'.state = .inLele := by
        subst fired
        exact proposes.1
      simp only [dispatch, fired, leaderElectionOnTimeout, inElection, andThen]
      split
      next => exact KeepsAcceptor.stores ⟨rfl, rfl⟩ proposed
      next => exact proposed
    next => cases stores
  | _ => cases stores

/-- The numbers of the acceptor are those of before. -/
def SameNumbers (v v' : Voting) : Prop :=
  v'.mod.acceptor.highestSeenPnum = v.mod.acceptor.highestSeenPnum ∧
    v'.mod.acceptor.acceptedPnum = v.mod.acceptor.acceptedPnum

/-- A call that stores no acceptor leaves its numbers alone. -/
theorem storesAcceptor_none {n : ℕ} {i : NodeId} (member : Member n i node) (e : NodeEnv × NodeEvent)
    (stores : node.storesAcceptor e.2 = none) :
    SameNumbers node.voting (node.dispatch e).voting := by
  obtain ⟨env, event⟩ := e
  -- nothing that is heard moves the numbers, unless it is a PREPARE or an ACCEPT
  have quiet : event ≠ .electionTimeout →
      (∀ msg data, event = .message (.leaderElection msg data) → node.Handles msg →
        msg.type ≠ .prepare ∧ msg.type ≠ .accept) →
      SameNumbers node.voting (node.dispatch (env, event)).voting := by
    intro noTimeout hears
    have steps : Voting.Steps n i False (fun msg => msg.type ≠ .prepare ∧ msg.type ≠ .accept)
        (fun _ => True) (fun _ => True) node.voting (node.dispatch (env, event)).voting :=
      steps_dispatch member.timed member.tidy (env, event) member.groupSize member.nodeId
        noTimeout hears (fun _ _ => trivial) fun _ _ => trivial
    refine steps.invariant (I := SameNumbers node.voting) ?_ ⟨rfl, rfl⟩
    intro v v' kept step
    cases step with
    | propose due => exact due.elim
    | promiseOwn due => exact due.elim
    | proposeAlone due => exact due.elim
    | promise msg ack heard => exact absurd heard.type heard.heard.1
    | accept msg heard => exact absurd heard.type heard.heard.2
    | _ => exact kept
  cases event with
  | message msg =>
    cases msg with
    | leaderElection msg data =>
      by_cases handles : node.Handles msg
      swap
      · rw [voting_ignored env msg data handles]
        exact ⟨rfl, rfl⟩
      simp only [storesAcceptor, if_pos handles] at stores
      split at stores
      next => cases stores
      next notPromised =>
        split at stores
        next => cases stores
        next notAccepted =>
          by_cases prepare : msg.type = .prepare
          · rw [dispatch_handled env msg data handles]
            simp only [leaderElectionDo, prepare]
            rcases voting_handlePrepare env msg member.nodeId with ⟨-, same⟩ | ⟨higher, -⟩
            · rw [same]
              exact ⟨rfl, rfl⟩
            · exact absurd ⟨prepare, higher⟩ notPromised
          by_cases accept : msg.type = .accept
          · rw [dispatch_handled env msg data handles]
            simp only [leaderElectionDo, accept, handleAccept]
            split
            next order => exact absurd ⟨accept, order⟩ notAccepted
            next => exact ⟨rfl, rfl⟩
          refine quiet NodeEvent.noConfusion fun msg' data' same _ => ?_
          cases same
          exact ⟨prepare, accept⟩
    | _ => exact quiet NodeEvent.noConfusion (by simp)
  | electionTimeout =>
    by_cases inElection : node.state = .inLele
    · obtain ⟨msg, proposes⟩ := proposes_electionTimeout env member.tidy member.groupSize
        member.nodeId inElection
      have lower : ¬ node.voting.mod.acceptor.highestSeenPnum < node.voting.mod.nextPnum := by
        intro higher
        simp only [storesAcceptor] at stores
        rw [if_pos ⟨inElection, higher⟩] at stores
        cases stores
      rw [proposes.lower lower]
      exact ⟨rfl, rfl⟩
    · rw [voting_electionTimeout env member.tidy, if_neg inElection]
      exact ⟨rfl, rfl⟩
  | _ => exact quiet NodeEvent.noConfusion (by simp)

/-- The acceptor of an election that starts: the numbers of the one before, without a content. -/
theorem acceptor_of_begun (tidy : Tidy node) (active : node.state = .active) (env : NodeEnv)
    (begun : (node.dispatch (env, .expectPing)).state = .inLele) :
    (node.dispatch (env, .expectPing)).electionMod.acceptor =
        { node.electionMod.acceptor with content := -1 } ∧
      (node.dispatch (env, .expectPing)).electionMod.nextView = node.viewId + 1 := by
  have stays : node.state ≠ .inLele := by
    rw [active]
    exact NodeState.noConfusion
  simp only [dispatch, expectedLeaderPingPeriod, initializeExpectPing, initializeLeaderPing]
    at begun ⊢
  split_ifs at begun ⊢
  -- every branch but the last leaves the node active
  all_goals first
    | exact absurd begun stays
    | skip
  refine ⟨?_, rfl⟩
  simp only [initializeLeaderElection, LeleMod.refreshLeaderElection]
  split
  next => rfl
  next fresh =>
    rw [LeleMod.initializeLeaderElectionMod, tidy.cleared (Bool.eq_false_iff.mpr fresh)]

end Calls

end Node

/-! ## Lives -/

/-- A node and its database over all its restarts. The histories hold what `acceptor_update_record`
has stored since the last restart and before it. -/
structure Life where
  node : Node
  storedBefore : List (UInt32 × AcceptorRecord)
  storedSince : List (UInt32 × AcceptorRecord)

/-- The arguments of `system_initialize` that a restart may choose, and the time. -/
structure Boot where
  seed : Bool
  expectPingTimeval : TimeVal
  now : TimeVal
  env : NodeEnv

/-- The process handles an event, ends between two calls, or ends during a call: then the database
is `db`, which holds the acceptor record of the call or not. -/
inductive LifeEvent where
  | call (e : NodeEnv × NodeEvent)
  | restart (boot : Boot)
  | crash (e : NodeEnv × NodeEvent) (persisted : Bool) (db : Database) (boot : Boot)

namespace Life

open Node

/-- `system_initialize` over an existing database. -/
def boot (node : Node) (db : Database) (boot : Boot) : Node :=
  let fresh := Node.init boot.seed node.comp.nodeId node.groupSize boot.expectPingTimeval boot.now
    boot.env
  { fresh with comp := { fresh.comp with db := db } }

/-- What an interrupted call has stored. -/
def persists (node : Node) (event : NodeEvent) (persisted : Bool) :
    List (UInt32 × AcceptorRecord) :=
  if persisted then (node.storesAcceptor event).toList else []

def apply (life : Life) : LifeEvent → Life
  | .call e =>
    { life with
      node := life.node.dispatch e
      storedSince := life.storedSince ++ (life.node.storesAcceptor e.2).toList }
  | .restart boot =>
    { node := Life.boot life.node life.node.comp.db boot
      storedBefore := life.storedBefore ++ life.storedSince
      storedSince := [] }
  | .crash e persisted db boot =>
    { node := Life.boot life.node db boot
      storedBefore :=
        life.storedBefore ++ life.storedSince ++ persists life.node e.2 persisted
      storedSince := [] }

/-- An ACCEPT names a node, as `leader_election_proposer_phase_two` sends it. -/
def NamesNode : NodeEvent → Prop
  | .message (.leaderElection msg _) => msg.type = .accept → msg.content ≠ -1
  | _ => True

/-- What an interrupted call has not written is as before, and the acceptor record it stores is
there or is the old one. -/
def Survives (node : Node) (e : NodeEnv × NodeEvent) (persisted : Bool) (db : Database) : Prop :=
  (∀ key, (node.dispatch e).comp.db key = node.comp.db key → db key = node.comp.db key) ∧
    ∀ w record, node.storesAcceptor e.2 = some (w, record) → db.retrieveRecord w.toUInt64 =
      if persisted then some (.acceptor record) else node.comp.db.retrieveRecord w.toUInt64

def machine : Machine Life LifeEvent where
  initial life := Node.machine.initial life.node ∧ life.storedBefore = [] ∧ life.storedSince = []
  enabled life
    | .call e => Node.machine.enabled life.node e ∧ NamesNode e.2
    | .restart _ => True
    | .crash e persisted db _ => Node.machine.enabled life.node e ∧ NamesNode e.2 ∧
      Survives life.node e persisted db
  apply := apply

/-- The last record stored for view `w`. -/
def lastStored (w : UInt32) (stored : List (UInt32 × AcceptorRecord)) : Option AcceptorRecord :=
  ((stored.filter fun entry => entry.1 = w).getLast?).map Prod.snd

/-! ## Every run -/

/-- The numbers of an acceptor that has stored nothing since the restart are 0, and no record that
was ever stored is that of an acceptor at rest. -/
structure Recorded (life : Life) : Prop where
  member : ∃ n i, life.node.Member n i
  bounds : 0 ≤ life.node.electionMod.acceptor.highestSeenPnum
  fresh : life.storedSince = [] → life.node.electionMod.acceptor.highestSeenPnum = 0 ∧
    life.node.electionMod.acceptor.acceptedPnum = 0
  marked : ∀ entry ∈ life.storedBefore ++ life.storedSince,
    0 < entry.2.highestSeenPnum ∨ entry.2.content ≠ -1

theorem boot_member (node : Node) (db : Database) (start : Boot) {n : ℕ} {i : NodeId}
    (member : node.Member n i) : (boot node db start).Member n i := by
  have timed := Node.init_timed start.seed node.comp.nodeId node.groupSize start.expectPingTimeval
    start.now start.env
  have tidy := Node.init_tidy start.seed node.comp.nodeId node.groupSize start.expectPingTimeval
    start.now start.env
  exact ⟨⟨timed.leaderPing, timed.kept, timed.expectPing, timed.leads, timed.election⟩,
    ⟨tidy.cleared, tidy.allocated, tidy.resent⟩, member.nodeId, member.groupSize⟩

/-- What a call stores has a number above 0 or names a node. -/
theorem stores_marked {node : Node} (bounds : 0 ≤ node.electionMod.acceptor.highestSeenPnum)
    (event : NodeEvent) (names : NamesNode event) (stored : UInt32 × AcceptorRecord)
    (stores : node.storesAcceptor event = some stored) :
    (0 < stored.2.highestSeenPnum ∨ stored.2.content ≠ -1) ∧ 0 ≤ stored.2.highestSeenPnum := by
  cases event with
  | message msg =>
    cases msg with
    | leaderElection msg data =>
      simp only [storesAcceptor] at stores
      split at stores
      next =>
        split at stores
        next prepares =>
          cases stores
          have higher := bounds.trans_lt prepares.2
          exact ⟨.inl higher, higher.le⟩
        next =>
          split at stores
          next accepts =>
            cases stores
            exact ⟨.inr (names accepts.1), bounds.trans accepts.2⟩
          next => cases stores
      next => cases stores
    | _ => cases stores
  | electionTimeout =>
    simp only [storesAcceptor] at stores
    split at stores
    next proposes =>
      cases stores
      have higher := bounds.trans_lt proposes.2
      exact ⟨.inl higher, higher.le⟩
    next => cases stores
  | _ => cases stores

/-- A node that starts over the database of the one before it. -/
theorem Recorded.boot {life : Life} (recorded : Recorded life) (db : Database) (start : Boot)
    (last : List (UInt32 × AcceptorRecord))
    (marked : ∀ entry ∈ last, 0 < entry.2.highestSeenPnum ∨ entry.2.content ≠ -1) :
    Recorded { node := Life.boot life.node db start
               storedBefore := life.storedBefore ++ life.storedSince ++ last
               storedSince := [] } := by
  obtain ⟨n, i, member⟩ := recorded.member
  refine ⟨⟨n, i, boot_member life.node db start member⟩, le_rfl, fun _ => ⟨rfl, rfl⟩, ?_⟩
  intro entry present
  rw [List.append_nil] at present
  rcases List.mem_append.mp present with old | new
  · exact recorded.marked entry old
  · exact marked entry new

theorem Recorded.call {life : Life} (recorded : Recorded life) (e : NodeEnv × NodeEvent)
    (enabled : Node.machine.enabled life.node e) (names : NamesNode e.2) :
    Recorded (life.apply (.call e)) := by
  obtain ⟨n, i, member⟩ := recorded.member
  have next : ∃ n i, (life.node.dispatch e).Member n i := ⟨n, i, member.dispatch e enabled⟩
  cases stores : life.node.storesAcceptor e.2 with
  | none =>
    obtain ⟨seen, accepted⟩ := storesAcceptor_none member e stores
    have same : life.apply (.call e) = { life with node := life.node.dispatch e } := by
      simp only [apply, stores, Option.toList_none, List.append_nil]
    rw [same]
    refine ⟨next, ?_, fun nothing => ?_, recorded.marked⟩
    · exact recorded.bounds.trans seen.ge
    · exact ⟨seen.trans (recorded.fresh nothing).1, accepted.trans (recorded.fresh nothing).2⟩
  | some stored =>
    obtain ⟨marked, bounds⟩ := stores_marked recorded.bounds e.2 names stored stores
    have same : life.apply (.call e) = { life with
        node := life.node.dispatch e, storedSince := life.storedSince ++ [stored] } := by
      simp only [apply, stores, Option.toList_some]
    rw [same]
    refine ⟨next, ?_, fun nothing => ?_, ?_⟩
    · rw [(storesAcceptor_stores e stored stores).1]
      exact bounds
    · exact absurd nothing (List.append_ne_nil_of_right_ne_nil _ (List.cons_ne_nil _ _))
    · intro entry present
      rw [← List.append_assoc] at present
      rcases List.mem_append.mp present with old | new
      · exact recorded.marked entry old
      · rw [List.mem_singleton.mp new]
        exact marked

theorem recorded_of_reaches (life : Life) (reached : machine.Reaches Machine.anything life) :
    Recorded life := by
  apply reached.invariant
  · rintro life ⟨⟨seed, nodeId, groupSize, expectPingTimeval, now, env, -, same⟩, before, since⟩
    refine ⟨⟨groupSize, nodeId, ?_⟩, ?_, ?_, ?_⟩
    · rw [same]
      exact ⟨Node.init_timed .., Node.init_tidy .., rfl, rfl⟩
    · rw [same]
      exact le_rfl
    · rw [same]
      exact fun _ => ⟨rfl, rfl⟩
    · rw [before, since]
      exact fun entry present => by cases present
  · intro life event recorded _ enabled
    cases event with
    | call e => exact recorded.call e enabled.1 enabled.2
    | restart start =>
      have restarted := recorded.boot life.node.comp.db start []
        fun entry present => by cases present
      rw [List.append_nil] at restarted
      exact restarted
    | crash e persisted db start =>
      refine recorded.boot db start _ fun entry present => ?_
      simp only [persists] at present
      split at present
      next =>
        exact (stores_marked recorded.bounds e.2 enabled.2.1 entry
          (Option.mem_toList.mp present)).1
      next => cases present

/-- With this event the node begins an election. -/
def Begins (life : Life) (e : NodeEnv × NodeEvent) : Prop :=
  e.2 = .expectPing ∧ (life.node.dispatch e).state = .inLele

instance (life : Life) (e : NodeEnv × NodeEvent) : Decidable (Begins life e) :=
  inferInstanceAs (Decidable (_ ∧ _))

/-- The record stored for the view of the election before the last restart. -/
def recordBefore (life : Life) (e : NodeEnv × NodeEvent) : Option AcceptorRecord :=
  lastStored (life.node.dispatch e).electionMod.nextView life.storedBefore

/-- The acceptor of the election that begins is the one stored for its view before the last
restart, if one was. -/
def Durable (life : Life) (e : NodeEnv × NodeEvent) : Prop :=
  ∀ record ∈ life.recordBefore e, (life.node.dispatch e).electionMod.acceptor = record

instance (life : Life) (e : NodeEnv × NodeEvent) : Decidable (Durable life e) :=
  inferInstanceAs (Decidable (∀ record ∈ life.recordBefore e, _))

/-- In every life: the acceptor of an election is the stored one only if nothing was stored, or if
what was stored happens to be a promise with the numbers the node has reached since the restart. A
node that has stored nothing since then has reached none, so then nothing may have been stored. -/
theorem durable_iff (life : Life) (reached : machine.Reaches Machine.anything life)
    (e : NodeEnv × NodeEvent) (enabled : Node.machine.enabled life.node e) (begins : Begins life e) :
    (Durable life e ↔ ∀ record ∈ life.recordBefore e,
      record = { life.node.electionMod.acceptor with content := -1 }) ∧
    (life.storedSince = [] → (Durable life e ↔ life.recordBefore e = none)) := by
  have recorded := recorded_of_reaches life reached
  obtain ⟨n, i, member⟩ := recorded.member
  obtain ⟨env, event⟩ := e
  obtain ⟨rfl, begun⟩ := begins
  have active := (member.timed.expectPing enabled.2).2
  obtain ⟨acceptor, -⟩ := acceptor_of_begun member.tidy active env begun
  have first : Durable life (env, .expectPing) ↔ ∀ record ∈ life.recordBefore (env, .expectPing),
      record = { life.node.electionMod.acceptor with content := -1 } := by
    simp only [Durable, acceptor, eq_comm]
  refine ⟨first, fun nothing => ?_⟩
  rw [first]
  constructor
  · intro matching
    rw [Option.eq_none_iff_forall_ne_some]
    intro record found
    have same := matching record found
    -- the record found was stored, and no acceptor at rest is
    have stored : ∃ entry ∈ life.storedBefore, entry.2 = record := by
      obtain ⟨entry, last, rfl⟩ := Option.map_eq_some_iff.mp found
      exact ⟨entry, (List.mem_filter.mp (List.mem_of_getLast? last)).1, rfl⟩
    obtain ⟨entry, present, rfl⟩ := stored
    rcases recorded.marked entry (List.mem_append_left _ present) with above | names
    · rw [same] at above
      exact absurd (recorded.fresh nothing).1 above.ne'
    · rw [same] at names
      exact absurd rfl names
  · intro none record found
    rw [none] at found
    cases found

/-! ## Lives on fixed events -/

/-- Node 2 of three, which starts outside the group. -/
def third : Life := ⟨Node.init false 2 3 ⟨8, 0⟩ ⟨0, 0⟩ Node.lateEnv, [], []⟩

def again : Boot := ⟨false, ⟨8, 0⟩, ⟨0, 0⟩, Node.lateEnv⟩

def expectPing : NodeEnv × NodeEvent := (Node.lateEnv, .expectPing)

/-- Node 1 prepares number 1 in the election for view 1. -/
def prepareOne : NodeEnv × NodeEvent :=
  (Node.lateEnv, .message (.leaderElection ⟨.prepare, 1, 1, 1, -1, -1, 0, 0⟩ []))

theorem third_reaches (run : List LifeEvent)
    (accepted : machine.Accepts Machine.anything third run) :
    machine.Reaches Machine.anything (run.foldl machine.apply third) :=
  ⟨third, ⟨⟨false, 2, 3, _, _, _, by decide, rfl⟩, rfl, rfl⟩, accepted.run⟩

/-- A node that crashes before it promises anything has nothing to remember. -/
theorem nothing_to_remember :
    Durable (([.call expectPing, .restart again] : List LifeEvent).foldl machine.apply third)
      expectPing := by
  have reached := third_reaches [.call expectPing, .restart again]
    ⟨trivial, ⟨by decide, trivial⟩, trivial, trivial, trivial⟩
  exact ((durable_iff _ reached expectPing (by decide) (by decide)).2 rfl).mpr (by decide)

/-- A node promises number 1, restarts and begins the same election with nothing promised. -/
theorem promise_forgotten :
    ¬ ∀ life : Life, machine.Reaches Machine.anything life → ∀ e,
      Node.machine.enabled life.node e → Begins life e → Durable life e := by
  intro claim
  have reached := third_reaches [.call expectPing, .call prepareOne, .restart again]
    ⟨trivial, ⟨by decide, trivial⟩, trivial, ⟨by decide, LeleType.noConfusion⟩, trivial, trivial,
      trivial⟩
  have durable := claim _ reached expectPing (by decide) (by decide)
  exact absurd durable (by decide)

end Life

end LibeventPaxos
