import LibeventPaxos.ServiceRuns
import LibeventPaxos.ReplicaGroup

/-!
What the servers of the service are asked: what a log asks for that consists of requests of proxies,
each of them as often at most as it was submitted.
-/
namespace LibeventPaxos

open Lib Finset

/-! ## Proxies and their logs -/

namespace Proxies

variable {ι : Type} [DecidableEq ι] {nodeId : ι → UInt32} {g : Proxies ι}

/-- What a proxy executes. -/
def logAt (i : ι) (events : List (ProxiesEvent ι)) : List ProxyMsg :=
  events.filterMap fun e => match e.2.2 with
    | .execute msg => if e.1 = i then some msg else none
    | _ => none

theorem logAt_append (i : ι) (before after : List (ProxiesEvent ι)) :
    logAt i (before ++ after) = logAt i before ++ logAt i after := List.filterMap_append ..

theorem logAt_self (e : ProxiesEvent ι) : logAt e.1 [e] = ProxyNode.logOf [e.2] := by
  obtain ⟨i, env, event⟩ := e
  cases event with
  | execute msg => simp [logAt, ProxyNode.logOf]
  | connectConsensus | loseConsensus | accept | clientRead | clientErr | serverRead | serverErr =>
    rfl

theorem logAt_other {i : ι} {e : ProxiesEvent ι} (other : i ≠ e.1) : logAt i [e] = [] := by
  obtain ⟨j, env, event⟩ := e
  cases event with
  | execute msg => simp [logAt, Ne.symm other]
  | connectConsensus | loseConsensus | accept | clientRead | clientErr | serverRead | serverErr =>
    rfl

/-- Every server has seen what the log of its proxy asks for. -/
theorem follows_of_accepts (events : List (ProxiesEvent ι))
    (accepted : (machine nodeId).Accepts (fun g e => (g e.1).DistinctIds e.2) (start nodeId) events)
    (i : ι) : ProxyNode.Follows (logAt i events) (events.foldl act (start nodeId) i) := by
  induction events using List.reverseRecOn with
  | nil => exact ProxyNode.follows_init _
  | append_singleton events e ih =>
    obtain ⟨before, distinct, -, -⟩ := Machine.accepts_append.mp accepted
    have follows := ih before
    rw [List.foldl_append, List.foldl_cons, List.foldl_nil, logAt_append]
    -- only an execution changes what the log asks for; other events at a proxy keep to it
    by_cases here : i = e.1
    · subst here
      rw [act_self, logAt_self]
      exact ProxyNode.follows_dispatch follows e.2 distinct
    · rw [act_other _ e here, logAt_other here, List.append_nil]
      exact follows

theorem requests_grow (g : Proxies ι) (e : ProxiesEvent ι) (i : ι) :
    (g i).requests <+: (act g e i).requests := by
  by_cases here : i = e.1
  · subst here
    rw [act_self]
    obtain ⟨j, env, event⟩ := e
    have local' (own : event.Local) :
        (g j).requests <+: ((g j).dispatch (env, event)).requests := by
      obtain ⟨-, added, requests, -⟩ := (g j).submits_dispatch env own
      rw [requests]
      exact List.prefix_append _ _
    cases event with
    | execute msg =>
      have same := ((g j).doActionToServer_submits (Memory.placed msg.bytes env.behind)).2
      show (g j).requests <+: ((g j).doActionToServer (Memory.placed msg.bytes env.behind)).requests
      rw [same]
    | connectConsensus | loseConsensus => exact List.prefix_refl _
    | accept | clientRead | clientErr | serverRead | serverErr => exact local' trivial
  · rw [act_other g e here]

theorem requests_of_fold (g : Proxies ι) (events : List (ProxiesEvent ι)) (i : ι) :
    (g i).requests <+: (events.foldl act g i).requests := by
  induction events generalizing g with
  | nil => exact List.prefix_refl _
  | cons e events ih => exact (requests_grow g e i).trans (ih (act g e))

/-- What has been executed was submitted by one of the proxies. -/
theorem submitted_of_accepts (events : List (ProxiesEvent ι))
    (accepted : (machine nodeId).Accepts Submitted (start nodeId) events) (i : ι) :
    ∀ msg ∈ logAt i events, ∃ j, ∃ request ∈ (events.foldl act (start nodeId) j).requests,
      request.msg = msg := by
  induction events using List.reverseRecOn with
  | nil => exact fun msg member => (by cases member)
  | append_singleton events e ih =>
    obtain ⟨before, submitted, -, -⟩ := Machine.accepts_append.mp accepted
    intro msg member
    rw [List.foldl_append, List.foldl_cons, List.foldl_nil]
    -- submitted when it was executed, and requests are only added
    have there : ∃ j, ∃ request ∈ (events.foldl act (start nodeId) j).requests,
        request.msg = msg := by
      rw [logAt_append] at member
      rcases List.mem_append.mp member with old | new
      · exact ih before msg old
      · obtain ⟨j, env, event⟩ := e
        cases event with
        | execute executed =>
          by_cases here : j = i
          · obtain rfl : msg = executed := by simpa [logAt, here] using new
            exact submitted
          · simp [logAt, here] at new
        | connectConsensus | loseConsensus | accept | clientRead | clientErr | serverRead
        | serverErr => cases new
    obtain ⟨j, request, present, same⟩ := there
    exact ⟨j, request, (requests_grow _ e j).subset present, same⟩

/-- Proxies that have lost their connections make them. -/
theorem connects_accepted (env : ProxyEnv) (members : List ι) (distinct : members.Nodup)
    (lost : ∀ i ∈ members, (g i).fault = none ∧ (g i).conConn = false) :
    let events : List (ProxiesEvent ι) := members.map fun i => (i, env, .connectConsensus)
    (machine nodeId).Accepts Submitted g events ∧
      events.foldl act g = fun i => if i ∈ members then { g i with conConn := true } else g i := by
  induction members generalizing g with
  | nil => exact ⟨trivial, by simp⟩
  | cons i members ih =>
    obtain ⟨absent, distinct⟩ := List.nodup_cons.mp distinct
    have apart (j : ι) (member : j ∈ members) : j ≠ i := fun same => absent (same ▸ member)
    have acts : act g (i, env, .connectConsensus) =
        Function.update g i { g i with conConn := true } := rfl
    obtain ⟨accepted, result⟩ := ih (g := act g (i, env, .connectConsensus)) distinct
      fun j member => by
        rw [acts, Function.update_of_ne (apart j member)]
        exact lost j (List.mem_cons_of_mem _ member)
    refine ⟨⟨trivial, lost i List.mem_cons_self, accepted⟩, ?_⟩
    rw [List.map_cons, List.foldl_cons]
    refine result.trans ?_
    funext j
    rw [acts]
    by_cases here : j = i
    · subst here
      simp [absent]
    · simp [here]

end Proxies

/-- Proxies whose cursors move as `Replay` has it execute what leaders have numbered, each of it
once. -/
theorem ReplicaGroup.executed_le_numbered {n : ℕ} (seed : Option (Fin n))
    (leaderOf : UInt32 → NodeId) (consistent : ∀ i, seed = some i → leaderOf 1 = (i : ℕ))
    (g : ReplicaGroup n) (reached : (machine n seed).Reaches (Allowed leaderOf) g) (i : Fin n) :
    ((g i).replay.proxy.actions.map Prod.snd : Multiset (List UInt8)) ≤
      ∑ j, ((comps g j).numbered : Multiset (List UInt8)) := by
  have linked := linked_of_reaches seed leaderOf consistent g reached i
  let entry (action : DbKey × List UInt8) : ViewStamp × List UInt8 := (ltovs action.1, action.2)
  have distinct : ((g i).replay.proxy.actions.map entry).Nodup := by
    -- the keys grow, so their stamps differ
    have sorted := (Replay.tracks_of_reaches _ linked.replays).2.sorted
    rw [Replay.executed, List.pairwise_map] at sorted
    rw [List.Nodup, List.pairwise_map]
    refine sorted.imp fun {a b} order same => ?_
    have stamps : ltovs a.1 = ltovs b.1 := congrArg Prod.fst same
    have keys : a.1 = b.1 := by rw [← vstol_ltovs a.1, stamps, vstol_ltovs]
    rw [keys] at order
    exact lt_irrefl _ order
  have assigned : ∀ x ∈ (g i).replay.proxy.actions.map entry,
      Group.Assigned (comps g) x.1 x.2 := by
    intro x member
    obtain ⟨action, done, rfl⟩ := List.mem_map.mp member
    exact linked.executed action done
  have payloads : (g i).replay.proxy.actions.map Prod.snd =
      ((g i).replay.proxy.actions.map entry).map Prod.snd := by
    rw [List.map_map]
    rfl
  rw [payloads]
  exact Group.payloads_le_numbered distinct assigned

namespace Service

variable {n : ℕ} {s s' : Service n} {g₀ : Cluster n}

/-- The proxies have taken the ids of their nodes. -/
def nodeIds (n : ℕ) (i : Fin n) : UInt32 := UInt32.ofNat i

/-! ## Runs of the proxies -/

/-- A run of the proxies that shows all that has happened at them, in which what is executed was
submitted by one of them. -/
structure Logged (s : Service n) (events : List (ProxiesEvent (Fin n))) : Prop where
  accepted : (Proxies.machine (nodeIds n)).Accepts Proxies.Submitted (Proxies.start (nodeIds n))
    events
  proxies : s.proxies = events.foldl Proxies.act (Proxies.start (nodeIds n))
  seconds : ∀ i, Proxies.secsAt i events = s.seconds i
  executed : ∀ i, (Proxies.logAt i events).map ProxyMsg.bytes = s.executed i

section Logged

variable {events : List (ProxiesEvent (Fin n))}

theorem logged_start (g₀ : Cluster n) : ∃ events, Logged (start g₀) events := by
  have lost (i : Fin n) : (Proxies.start (nodeIds n) i).fault = none ∧
      (Proxies.start (nodeIds n) i).conConn = false := ⟨rfl, rfl⟩
  obtain ⟨accepted, result⟩ := Proxies.connects_accepted clientEnv (List.finRange n)
    (List.nodup_finRange n) fun i _ => lost i
  refine ⟨_, accepted, ?_, fun i => ?_, fun i => ?_⟩
  · rw [result]
    funext i
    rw [if_pos (List.mem_finRange i)]
    rfl
  · rw [Proxies.secsAt, List.filterMap_eq_nil_iff.mpr]
    · rfl
    · intro e member
      obtain ⟨j, -, rfl⟩ := List.mem_map.mp member
      rfl
  · rw [Proxies.logAt, List.filterMap_eq_nil_iff.mpr]
    · rfl
    · intro e member
      obtain ⟨j, -, rfl⟩ := List.mem_map.mp member
      rfl

/-- Nothing happens at the proxies. -/
theorem Logged.same (logged : Logged s events) (proxies : s'.proxies = s.proxies)
    (seconds : s'.seconds = s.seconds) (executed : s'.executed = s.executed) :
    Logged s' events where
  accepted := logged.accepted
  proxies := by rw [proxies, logged.proxies]
  seconds := by rw [seconds]; exact logged.seconds
  executed := by rw [executed]; exact logged.executed

/-- An event at one of them. -/
theorem Logged.snoc (logged : Logged s events) (i : Fin n) (env : ProxyEnv)
    (event : ProxyEvent) (submitted : Proxies.Submitted s.proxies (i, env, event))
    (running : (s.proxies i).fault = none) (offered : (s.proxies i).Offered event)
    (proxies : s'.proxies = Function.update s.proxies i ((s.proxies i).dispatch (env, event)))
    (seconds : ∀ j, s'.seconds j = s.seconds j ++ Proxies.secsAt j [(i, env, event)])
    (executed : ∀ j, s'.executed j =
      s.executed j ++ (Proxies.logAt j [(i, env, event)]).map ProxyMsg.bytes) :
    Logged s' (events ++ [(i, env, event)]) where
  accepted := by
    have there : events.foldl (Proxies.machine (nodeIds n)).apply (Proxies.start (nodeIds n)) =
        s.proxies := logged.proxies.symm
    refine logged.accepted.snoc ?_ ?_
    · rw [there]
      exact submitted
    · rw [there]
      exact ⟨running, offered⟩
  proxies := by
    rw [List.foldl_append, ← logged.proxies, proxies]
    rfl
  seconds j := by rw [Proxies.secsAt_append, logged.seconds, seconds]
  executed j := by rw [Proxies.logAt_append, List.map_append, logged.executed, executed]

end Logged

/-- Requests are only added. -/
theorem Logged.issued_le {events added : List (ProxiesEvent (Fin n))} (logged : Logged s events)
    (later : Logged s' (events ++ added)) : s.issued ≤ s'.issued := by
  refine sum_le_sum fun i _ => Multiset.coe_le.mpr ?_
  have proxies : s'.proxies = added.foldl Proxies.act s.proxies := by
    rw [later.proxies, List.foldl_append, ← logged.proxies]
  rw [proxies]
  exact ((Proxies.requests_of_fold s.proxies added i).sublist.map _).subperm

/-! ## What is executed -/

/-- What a proxy executes has been numbered, and it is executed once. -/
def ReplaysNumbered (s : Service n) : ServiceEvent n → Prop
  | .execute i env key junk =>
    ((s.execute i env key junk).executed i : Multiset (List UInt8)) ≤ Cluster.numbered s.net.nodes
  | _ => True

instance (s : Service n) : ∀ e, Decidable (ReplaysNumbered s e)
  | .execute i env key junk => inferInstanceAs (Decidable
      (((s.execute i env key junk).executed i : Multiset (List UInt8)) ≤
        Cluster.numbered s.net.nodes))
  | .net _ => .isTrue trivial
  | .arrive _ _ _ _ => .isTrue trivial
  | .proxy _ _ _ => .isTrue trivial
  | .bev _ _ _ => .isTrue trivial
  | .timeout _ => .isTrue trivial

/-- The replicas of a group have numbered and delivered what the nodes have. -/
structure Mirrors (g : ReplicaGroup n) (nodes : Cluster n) : Prop where
  numbered : ∀ i, (g i).comp.assigned = (nodes i).comp.assigned
  delivered : ∀ i, (g i).comp.delivered = (nodes i).comp.delivered

instance (g : ReplicaGroup n) (nodes : Cluster n) : Decidable (Mirrors g nodes) :=
  decidable_of_iff ((∀ i, (g i).comp.assigned = (nodes i).comp.assigned) ∧
      ∀ i, (g i).comp.delivered = (nodes i).comp.delivered)
    ⟨fun both => ⟨both.1, both.2⟩, fun mirrors => ⟨mirrors.numbered, mirrors.delivered⟩⟩

/-- With this execution the proxy has executed what the loop of `real_do_action` has at its replica
in a group that mirrors the nodes. -/
def FollowsCursor (s : Service n) : ServiceEvent n → Prop
  | .execute i env key junk => ∃ (seed : Option (Fin n)) (leaderOf : UInt32 → NodeId)
      (g : ReplicaGroup n), (∀ k, seed = some k → leaderOf 1 = (k : ℕ)) ∧
        (ReplicaGroup.machine n seed).Reaches (ReplicaGroup.Allowed leaderOf) g ∧
        Mirrors g s.net.nodes ∧
        (s.execute i env key junk).executed i = (g i).replay.proxy.actions.map Prod.snd
  | _ => True

/-- The cursor of the source comes to numbered requests only, and to each of them once. -/
theorem FollowsCursor.replaysNumbered {e : ServiceEvent n} (follows : FollowsCursor s e) :
    ReplaysNumbered s e := by
  cases e with
  | execute i env key junk =>
    obtain ⟨seed, leaderOf, g, consistent, reached, mirrors, executed⟩ := follows
    have once := ReplicaGroup.executed_le_numbered seed leaderOf consistent g reached i
    have same (j : Fin n) : (ReplicaGroup.comps g j).numbered = (s.net.nodes j).comp.numbered :=
      congrArg (List.map Prod.snd) (mirrors.numbered j)
    simp only [same] at once
    rw [ReplaysNumbered, executed]
    exact once
  | net | arrive | proxy | bev | timeout => trivial

theorem executed_other {i j : Fin n} (other : i ≠ j) (env : ProxyEnv) (key : DbKey)
    (junk : RequestRecord) : (s.execute j env key junk).executed i = s.executed i := by
  rw [execute]
  split
  next nothing => rfl
  next value found => exact Function.update_of_ne other ..

theorem executed_found {i : Fin n} {key : DbKey} {value : DbValue}
    (found : (s.net.nodes i).comp.db.retrieveRecord key = some value) (env : ProxyEnv)
    (junk : RequestRecord) : (s.execute i env key junk).executed i =
      s.executed i ++ [(value.asRequest junk).data] := by
  simp only [execute, found]
  exact Function.update_self ..

/-- What has been issued is a payload of a request. -/
theorem request_of_issued {data : List UInt8} (member : data ∈ s.issued) :
    ∃ j, ∃ request ∈ (s.proxies j).requests, request.msg.bytes = data := by
  obtain ⟨j, -, there⟩ := Multiset.mem_sum.mp member
  obtain ⟨request, submitted, same⟩ := List.mem_map.mp (Multiset.mem_coe.mp there)
  exact ⟨j, request, submitted, same⟩

/-! ## Steps -/

/-- No late election message is answered with a record that names no node, and no request comes to
a node that has entered no view. -/
def Named (g₀ : Cluster n) (net : Network n) : Prop :=
  (Cluster.machine Cluster.Booted).Meets Cluster.members g₀ net.history

/-- The invariant, for such runs. -/
structure Told (g₀ : Cluster n) (s : Service n) : Prop where
  inv : Inv Cluster.Booted g₀ s
  logged : Named g₀ s.net → ∃ events, Logged s events
  once : Named g₀ s.net → ∀ i, (s.executed i : Multiset (List UInt8)) ≤ s.issued

section Told

/-- A connection that is lost was there. -/
theorem conConn_of_raises (inv : Inv Cluster.Booted g₀ s) {i : Fin n} {k : ℕ} {event : BevEvent}
    (raises : (s.uplinks i).Raises k event) : (s.proxies i).conConn = true := by
  have joined := inv.joined i
  rw [joined.conConn]
  rcases Uplink.ok_cases joined.ok with ⟨-, -, freed⟩ | ⟨older, conn, here, -, -⟩
  · exfalso
    cases event with
    | connected =>
      obtain ⟨conn, found, connecting⟩ := raises
      rw [freed conn (List.mem_of_getElem? found)] at connecting
      cases connecting
    | lost =>
      obtain ⟨conn, found, alive⟩ := raises
      exact alive (freed conn (List.mem_of_getElem? found))
  · rw [here]
    rfl

theorem conConn_of_due (inv : Inv Cluster.Booted g₀ s) {i : Fin n}
    (due : (s.uplinks i).reCon = .pending) : (s.proxies i).conConn = false := by
  have joined := inv.joined i
  rw [joined.conConn]
  rcases Uplink.ok_cases joined.ok with ⟨none, -, -⟩ | ⟨older, conn, here, -, -⟩
  · rw [none]
    rfl
  · rw [here] at due
    cases due

theorem secsAt_single (i j : Fin n) (env : ProxyEnv) (event : ProxyEvent) :
    Proxies.secsAt j [(i, env, event)] = if i = j then event.second.toList else [] := by
  cases event with
  | accept sec =>
    by_cases same : i = j <;> simp [Proxies.secsAt, ProxyEvent.second, same]
  | connectConsensus | loseConsensus | execute | clientRead | clientErr | serverRead | serverErr =>
    simp [Proxies.secsAt, ProxyEvent.second]

/-- Of the proxies only the one that acts changes. -/
theorem Logged.step {events : List (ProxiesEvent (Fin n))} (logged : Logged s events)
    (inv : Inv Cluster.Booted g₀ s) {e : ServiceEvent n} (carried : Carried s e)
    (enabled : Enabled s e)
    (issued : ∀ i env key junk, e = .execute i env key junk → ∀ value,
      (s.net.nodes i).comp.db.retrieveRecord key = some value →
        ∃ j, ∃ request ∈ (s.proxies j).requests,
          request.msg.bytes = (value.asRequest junk).data) :
    ∃ added, Logged (s.act e) (events ++ added) := by
  have nothing {s' : Service n} (same : Logged s' events) : ∃ added, Logged s' (events ++ added) :=
    ⟨[], by rwa [List.append_nil]⟩
  -- what `onBev` and the timer do to a proxy
  have link (i : Fin n) (event : ProxyEvent) (quiet : event.second = none)
      (plain : ∀ msg, event ≠ .execute msg) (s' : Service n) (running : (s.proxies i).fault = none)
      (offered : (s.proxies i).Offered event)
      (proxies : s'.proxies =
        Function.update s.proxies i ((s.proxies i).dispatch (clientEnv, event)))
      (seconds : s'.seconds = s.seconds) (executed : s'.executed = s.executed) :
      ∃ added, Logged s' (events ++ added) := by
    refine ⟨_, logged.snoc i clientEnv event ?_ running offered proxies (fun j => ?_) fun j => ?_⟩
    · cases event with
      | execute msg => exact absurd rfl (plain msg)
      | _ => trivial
    · rw [secsAt_single, quiet, Option.toList_none, ite_self, List.append_nil, seconds]
    · have nothing : Proxies.logAt j [(i, clientEnv, event)] = [] := by
        cases event with
        | execute msg => exact absurd rfl (plain msg)
        | _ => rfl
      rw [nothing, List.map_nil, List.append_nil, executed]
  cases e with
  | net e => exact nothing (logged.same rfl rfl rfl)
  | arrive i k len envs =>
    obtain ⟨⟨running, -⟩, conn, found, -⟩ := enabled
    obtain ⟨done, s', uplink, result, takes, -⟩ :=
      inv.takes_arrive len envs running found (carried conn found)
    refine nothing ?_
    show Logged (s.arrive i k len envs) events
    rw [result]
    exact logged.same takes.proxies takes.seconds takes.executed
  | proxy i env event =>
    obtain ⟨⟨-, running⟩, offered, own⟩ := enabled
    obtain ⟨uplink, result, -⟩ := dispatchProxy_spec env own (inv.joined i)
    have step : s.act (.proxy i env event) = s.dispatchProxy i env event := rfl
    rw [step, result]
    refine ⟨_, logged.snoc i env event ?_ running offered rfl (fun j => ?_) fun j => ?_⟩
    · cases event with
      | execute msg => exact own.elim
      | _ => trivial
    · rw [secsAt_single]
      by_cases same : i = j
      · subst same
        rw [if_pos rfl]
        exact Function.update_self ..
      · rw [if_neg same, List.append_nil]
        exact Function.update_of_ne (Ne.symm same) ..
    · have nothing : Proxies.logAt j [(i, env, event)] = [] := by
        cases event with
        | execute msg => exact own.elim
        | _ => rfl
      rw [nothing, List.map_nil, List.append_nil]
      rfl
  | execute i env key junk =>
    obtain ⟨-, running⟩ := enabled
    have step : s.act (.execute i env key junk) = s.execute i env key junk := rfl
    cases found : (s.net.nodes i).comp.db.retrieveRecord key with
    | none =>
      have idle : s.execute i env key junk = s := by simp only [execute, found]
      rw [step, idle]
      exact nothing logged
    | some value =>
    obtain ⟨j, request, submitted, same⟩ := issued i env key junk rfl value found
    simp only [step, execute, found, ← same]
    refine ⟨_, logged.snoc i env (.execute request.msg) ⟨j, request, submitted, rfl⟩ running
      trivial rfl (fun index => ?_) fun index => ?_⟩
    · have quiet : (ProxyEvent.execute request.msg).second = none := rfl
      rw [secsAt_single, quiet, Option.toList_none, ite_self, List.append_nil]
      rfl
    · by_cases same : i = index
      · subst same
        simp [Proxies.logAt]
      · simp [Proxies.logAt, same, Ne.symm same]
  | bev i k event =>
    obtain ⟨⟨-, running⟩, raises⟩ := enabled
    cases event with
    | connected =>
      refine nothing (logged.same ?_ rfl rfl)
      exact Function.update_eq_self i s.proxies
    | lost =>
      exact link i .loseConsensus rfl (fun _ other => by cases other) _ running
        (conConn_of_raises inv raises) rfl rfl rfl
  | timeout i =>
    obtain ⟨⟨-, running⟩, due⟩ := enabled
    exact link i .connectConsensus rfl (fun _ other => by cases other) _ running
      (conConn_of_due inv due) rfl rfl rfl

/-- Nothing is executed but by an execution. -/
theorem Inv.executed (inv : Inv Cluster.Booted g₀ s) {e : ServiceEvent n} (carried : Carried s e)
    (enabled : Enabled s e) (quiet : ∀ i env key junk, e ≠ .execute i env key junk) :
    (s.act e).executed = s.executed := by
  cases e with
  | net e => rfl
  | arrive i k len envs =>
    obtain ⟨⟨running, -⟩, conn, found, -⟩ := enabled
    obtain ⟨done, s', uplink, result, takes, -⟩ :=
      inv.takes_arrive len envs running found (carried conn found)
    show (s.arrive i k len envs).executed = s.executed
    rw [result]
    exact takes.executed
  | proxy i env event =>
    obtain ⟨uplink, result, -⟩ := dispatchProxy_spec env enabled.2.2 (inv.joined i)
    show (s.dispatchProxy i env event).executed = s.executed
    rw [result]
    rfl
  | execute i env key junk => exact absurd rfl (quiet i env key junk)
  | bev i k event => rfl
  | timeout i => rfl

/-- An earlier part of such a run is one. -/
theorem Named.before {net net' : Network n} (named : Named g₀ net')
    (later : (Network.machine Cluster.Booted).Run Network.Carried net net') : Named g₀ net := by
  obtain ⟨es, longer⟩ := Network.history_grows later
  rw [Named, ← longer, Machine.meets_append] at named
  exact named.1

theorem Told.step (told : Told g₀ s) (booted : Cluster.Booted g₀) {e : ServiceEvent n}
    (carried : Carried s e) (replays : ReplaysNumbered s e) (enabled : Enabled s e) :
    Told g₀ (s.act e) := by
  have later := told.inv.net_run carried enabled
  have elective := Network.elective_of_booted booted
  -- what an execution leaves was numbered, so it was submitted, so it was issued
  have within (named : Named g₀ s.net) (i : Fin n) :
      ((s.act e).executed i : Multiset (List UInt8)) ≤ s.issued := by
    by_cases executes : ∃ j env key junk, e = .execute j env key junk
    · obtain ⟨j, env, key, junk, rfl⟩ := executes
      show ((s.execute j env key junk).executed i : Multiset (List UInt8)) ≤ s.issued
      by_cases same : i = j
      · subst same
        calc ((s.execute i env key junk).executed i : Multiset (List UInt8))
            ≤ Cluster.numbered s.net.nodes := replays
          _ ≤ Cluster.submitted s.net.history :=
            (Network.requestsOnce_of_run booted told.inv.run named).numbered
          _ ≤ s.issued := told.inv.submitted_le_issued elective
      · rw [executed_other same]
        exact told.once named i
    · have quiet := told.inv.executed carried enabled fun j env key junk same =>
        executes ⟨j, env, key, junk, same⟩
      rw [quiet]
      exact told.once named i
  have steps (named : Named g₀ s.net) : ∃ events added, Logged s events ∧
      Logged (s.act e) (events ++ added) := by
    obtain ⟨events, logged⟩ := told.logged named
    obtain ⟨added, logged'⟩ := logged.step told.inv carried enabled
      fun i env key junk same value found => by
        subst same
        refine request_of_issued (Multiset.mem_of_le (within named i) ?_)
        show _ ∈ ((s.execute i env key junk).executed i : Multiset (List UInt8))
        rw [executed_found found, Multiset.mem_coe]
        exact List.mem_append_right _ (List.mem_singleton_self _)
    exact ⟨events, added, logged, logged'⟩
  refine ⟨told.inv.step carried enabled, fun named => ?_, fun named i => ?_⟩
  · obtain ⟨events, added, -, logged'⟩ := steps (named.before later)
    exact ⟨events ++ added, logged'⟩
  · obtain ⟨events, added, logged, logged'⟩ := steps (named.before later)
    exact (within (named.before later) i).trans (logged.issued_le logged')

theorem told_of_run (booted : Cluster.Booted g₀)
    (run : (machine Cluster.Booted).Run (fun s e => Carried s e ∧ ReplaysNumbered s e) (start g₀)
      s) : Told g₀ s :=
  run.invariant (I := Told g₀)
    (fun _ _ told allowed enabled => told.step booted allowed.1 allowed.2 enabled)
    ⟨.start _ g₀, fun _ => logged_start g₀, fun _ _ => Multiset.zero_le _⟩

end Told

/-! ## What the servers are asked -/

/-- A proxy has executed each request at most as often as it was issued; and its server has been
asked, connection by connection, what a log of requests of the proxies asks for. -/
structure Serves (s : Service n) (i : Fin n) : Prop where
  once : (s.executed i : Multiset (List UInt8)) ≤ s.issued
  log : ∃ log : List ProxyMsg, log.map ProxyMsg.bytes = s.executed i ∧
    (∀ msg ∈ log, ∃ j, ∃ request ∈ (s.proxies j).requests, request.msg = msg) ∧
    ∀ key, (s.proxies i).actionsOn key = (ProxyNode.serverActions key log).2

/-- The servers of the service execute what clients have asked its proxies for, each request once at
most, through all views and however connections are lost. -/
theorem servers_execute_requests (n : ℕ) (small : n ≤ 4096) (g₀ : Cluster n)
    (booted : Cluster.Booted g₀) (s : Service n)
    (run : (machine Cluster.Booted).Run
      (fun s e => Carried s e ∧ (ReplaysNumbered s e ∨ FollowsCursor s e)) (start g₀) s)
    (named : Named g₀ s.net) (clocked : ∀ i, Clocked (s.seconds i)) (i : Fin n) :
    s.Serves i := by
  have told := told_of_run booted (run.mono fun _ _ allowed =>
    ⟨allowed.1, allowed.2.elim id FollowsCursor.replaysNumbered⟩)
  obtain ⟨events, logged⟩ := told.logged named
  have toNat (j : Fin n) : (nodeIds n j).toNat = j := by
    rw [nodeIds, UInt32.toNat_ofNat', Nat.mod_eq_of_lt]
    have below := j.isLt
    omega
  have distinct : Function.Injective (nodeIds n) := by
    intro j k same
    have words := congrArg UInt32.toNat same
    rw [toNat, toNat] at words
    exact Fin.ext words
  have ids : ∀ j, (nodeIds n j).toNat < 4096 := fun j => by
    rw [toNat]
    have below := j.isLt
    omega
  -- no two connections of the service have one key, so each server follows its log key by key
  have apart := Proxies.distinctIds_of_accepts distinct ids [] events
    (fun j => by rw [List.nil_append, logged.seconds]; exact clocked j)
    (Proxies.keyed_start (nodeIds n)) logged.accepted
  have follows := Proxies.follows_of_accepts events apart i
  have submitted := Proxies.submitted_of_accepts events logged.accepted i
  rw [← logged.proxies] at follows submitted
  exact ⟨told.once named i, Proxies.logAt i events, logged.executed i, submitted, fun key =>
    congrArg Prod.snd (follows.server key)⟩

/-- The calls of the components in `clientConnects`, and the loop that executes the message. -/
def connectReplayed : List (Fin 3 × ReplicaEvent) :=
  let env := Network.lateLink.toEnv
  let request := (afterConnect.executed 2).headD []
  ReplicaGroup.published 1 (env, .updateView ⟨1, 2, 0⟩) 1 ++
  ReplicaGroup.published 2 (env, .submit request) 1 ++
  ReplicaGroup.published 1
    (env, .message (.acceptReq ⟨1, 1⟩ ⟨1, 0⟩ 2 ⟨⟨9, 0⟩, 0, 4, request⟩)) 1 ++
  ReplicaGroup.published 2 (env, .message (.acceptAck ⟨1, 1⟩ 1)) 2 ++ ReplicaGroup.replayed 2 2

theorem clientConnects_follows :
    FollowsCursor ((clientConnects.dropLast).foldl act (start Cluster.ledByLast))
      (.execute 2 clientEnv (vstol ⟨1, 1⟩) ⟨⟨0, 0⟩, 0, 0, []⟩) := by
  have accepted : (ReplicaGroup.machine 3 (some 2)).Accepts (ReplicaGroup.Allowed fun _ => 2)
      (ReplicaGroup.start 3 (some 2)) connectReplayed := by decide +kernel
  exact ⟨some 2, fun _ => 2, connectReplayed.foldl ReplicaGroup.act (ReplicaGroup.start 3 (some 2)),
    by decide, ⟨_, rfl, accepted.run⟩, by decide +kernel, by decide +kernel⟩

theorem clientConnects_serves :
    afterConnect.Serves 2 ∧ (afterConnect.proxies 2).actionsOn 9007199254740997 = [.connect] := by
  have forward : ∀ i, ((afterConnect.seconds i).map UInt64.toNat).Pairwise (· ≤ ·) := by
    decide +kernel
  -- over the list: there is also an instance that decides it for all 64-bit words
  have early : ∀ i, (afterConnect.seconds i).all (fun sec => decide (sec.toNat < 2 ^ 36)) := by
    decide +kernel
  have short : ∀ i, (afterConnect.seconds i).length < 2 ^ 16 := by decide +kernel
  have clocked (i : Fin 3) : Clocked (afterConnect.seconds i) :=
    Proxies.clocked_of_length (forward i)
      (fun sec member => of_decide_eq_true (List.all_eq_true.mp (early i) sec member)) (short i)
  have accepted : (machine Cluster.Booted).Accepts
      (fun s e => CarriesPlain s e ∧ ReplaysNumbered s e) (start Cluster.ledByLast)
      clientConnects.dropLast := by decide +kernel
  have before : (machine Cluster.Booted).Run
      (fun s e => Carried s e ∧ (ReplaysNumbered s e ∨ FollowsCursor s e)) (start Cluster.ledByLast)
      (clientConnects.dropLast.foldl act (start Cluster.ledByLast)) :=
    accepted.run.mono fun _ _ allowed => ⟨allowed.1.carried, .inl allowed.2⟩
  have last : clientConnects.dropLast ++
      [.execute 2 clientEnv (vstol ⟨1, 1⟩) ⟨⟨0, 0⟩, 0, 0, []⟩] = clientConnects := rfl
  have run : (machine Cluster.Booted).Run
      (fun s e => Carried s e ∧ (ReplaysNumbered s e ∨ FollowsCursor s e)) (start Cluster.ledByLast)
      afterConnect := by
    have running : (machine Cluster.Booted).enabled
        (clientConnects.dropLast.foldl act (start Cluster.ledByLast))
        (.execute 2 clientEnv (vstol ⟨1, 1⟩) ⟨⟨0, 0⟩, 0, 0, []⟩) := by decide +kernel
    have follows := clientConnects_follows
    rw [afterConnect, ← last, List.foldl_append, List.foldl_cons, List.foldl_nil]
    generalize clientConnects.dropLast.foldl act (start Cluster.ledByLast) = s at *
    exact before.step (And.intro (show Carried s (.execute 2 clientEnv _ _) from trivial)
      (.inr follows)) running
  exact ⟨servers_execute_requests 3 (by decide) Cluster.ledByLast Cluster.ledByLast_booted
    afterConnect run (by unfold Named; decide +kernel) clocked 2, by decide +kernel⟩

end Service

end LibeventPaxos
