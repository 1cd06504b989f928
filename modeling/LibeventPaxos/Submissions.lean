import LibeventPaxos.Lib.Shares
import LibeventPaxos.Forwards
import LibeventPaxos.NetworkCluster

/-!
What becomes of requests in the whole network: each one a proxy submits is numbered once at most, by
the node it is submitted to or by the one it is forwarded to, and nothing else is numbered.
-/
namespace LibeventPaxos

open Lib Finset

namespace Cluster

variable {n : ℕ} {initial : Cluster n → Prop} {g₀ g : Cluster n}

/-! ## A cluster -/

/-- All payloads that have been numbered, by any node. -/
def numbered (g : Cluster n) : Multiset (List UInt8) :=
  ∑ i, ((g i).comp.numbered : Multiset (List UInt8))

/-- All payloads that have been forwarded, by any node. -/
def forwarded (g : Cluster n) : Multiset (List UInt8) :=
  ∑ i, ((g i).comp.forwards.map Prod.snd : Multiset (List UInt8))

/-- What the nodes have read off the messages they have handled. -/
def handled {α : Type} (f : SysMsg → Option α) (es : List (ClusterEvent n)) : Multiset α :=
  (es.filterMap fun e => e.2.2.handled f : List α)

/-- The requests of the proxies. -/
def submitted (es : List (ClusterEvent n)) : Multiset (List UInt8) := handled SysMsg.submitted es

/-- The forwarded requests that have been handled. -/
def handedOn (es : List (ClusterEvent n)) : Multiset (List UInt8) := handled SysMsg.forwarded es

section Handled

variable {α : Type} (f : SysMsg → Option α)

theorem handled_cons (e : ClusterEvent n) (es : List (ClusterEvent n)) :
    handled f (e :: es) = ((e.2.2.handled f).toList : Multiset α) + handled f es := by
  rw [handled, List.filterMap_cons]
  cases e.2.2.handled f <;> rfl

theorem handled_snoc (es : List (ClusterEvent n)) (e : ClusterEvent n) :
    handled f (es ++ [e]) = handled f es + ((e.2.2.handled f).toList : Multiset α) := by
  rw [handled, List.filterMap_append, ← Multiset.coe_add, handled]
  congr 1

end Handled

theorem accounts_act (g : Cluster n) (e : ClusterEvent n) (running : (g e.1).comp.fault = none) :
    numbered (act g e) + forwarded (act g e) ≤ numbered g + forwarded g +
      ((e.2.2.submitted.toList : Multiset (List UInt8)) + e.2.2.handedOn.toList) := by
  obtain ⟨taken, given, numbers, forwards, request, -⟩ :=
    (g e.1).dispatch_accounts e.2 running
  have more : numbered (act g e) = numbered g + taken := by
    refine sum_update g e.1 _ (fun node => (node.comp.numbered : Multiset (List UInt8))) _ ?_
    rw [numbers, ← Multiset.coe_add]
  have more' : forwarded (act g e) = forwarded g + (given.map Prod.snd : Multiset (List UInt8)) := by
    refine sum_update g e.1 _
      (fun node => (node.comp.forwards.map Prod.snd : Multiset (List UInt8))) _ ?_
    rw [forwards, List.map_append, ← Multiset.coe_add]
  have part : (taken : Multiset (List UInt8)) + (given.map Prod.snd : List (List UInt8)) ≤
      (e.2.2.submitted.toList : Multiset (List UInt8)) + e.2.2.handedOn.toList := by
    rw [Multiset.coe_add, Multiset.coe_add]
    exact Multiset.coe_le.mpr request.subperm
  calc numbered (act g e) + forwarded (act g e)
      = numbered g + forwarded g +
          ((taken : Multiset (List UInt8)) + (given.map Prod.snd : List (List UInt8))) := by
        rw [more, more', add_add_add_comm]
    _ ≤ _ := by gcongr

/-- What a cluster numbers and forwards are requests of its proxies and forwarded ones. -/
theorem accounts_run (es : List (ClusterEvent n))
    (accepted : (machine initial).Accepts intact g es) :
    numbered (es.foldl act g) + forwarded (es.foldl act g) ≤
      numbered g + forwarded g + (submitted es + handedOn es) := by
  induction es generalizing g with
  | nil => exact le_of_eq (add_zero _).symm
  | cons e es ih =>
    obtain ⟨-, enabled, rest⟩ := accepted
    calc numbered (es.foldl act (act g e)) + forwarded (es.foldl act (act g e))
        ≤ numbered (act g e) + forwarded (act g e) + (submitted es + handedOn es) := ih rest
      _ ≤ numbered g + forwarded g + ((e.2.2.submitted.toList : Multiset (List UInt8)) +
            e.2.2.handedOn.toList) + (submitted es + handedOn es) :=
          add_le_add (accounts_act g e enabled.1.1) le_rfl
      _ = numbered g + forwarded g + (submitted (e :: es) + handedOn (e :: es)) := by
          rw [submitted, submitted, handedOn, handedOn, handled_cons, handled_cons]
          exact (add_assoc _ _ _).trans (congrArg (_ + ·) (add_add_add_comm _ _ _ _))

theorem accounts_booted (booted : Booted g₀) : numbered g₀ + forwarded g₀ = 0 := by
  have nothing (i : Fin n) : (g₀ i).comp.numbered = [] ∧ (g₀ i).comp.forwards = [] := by
    obtain ⟨seed, expectPingTimeval, now, env, same⟩ := booted i
    rw [same]
    exact ⟨rfl, rfl⟩
  have first : numbered g₀ = 0 := sum_eq_zero fun i _ => by rw [(nothing i).1]; rfl
  have second : forwarded g₀ = 0 := sum_eq_zero fun i _ => by rw [(nothing i).2]; rfl
  rw [first, second, add_zero]

/-! ## Where forwarded requests go -/

/-- No request comes to a node that has entered no view, and no late election message is answered
with a record that names no node. -/
def members (g : Cluster n) (e : ClusterEvent n) : Prop := namesMembers g (.call e)

instance (g : Cluster n) (e : ClusterEvent n) : Decidable (members g e) :=
  inferInstanceAs (Decidable (namesMembers g (.call e)))

/-- A forwarded request goes to one node. -/
theorem forwards_addressed (booted : Booted g₀) (run : (machine Booted).Run members g₀ g)
    (i : Fin n) : ∀ call ∈ (g i).comp.forwards, 0 ≤ call.1 := by
  have both : (lives n).Reaches namesMembers g ∧
      ∀ i, ∀ call ∈ (g i).comp.forwards, 0 ≤ call.1 := by
    apply run.invariant (I := fun g => (lives n).Reaches namesMembers g ∧
      ∀ i, ∀ call ∈ (g i).comp.forwards, 0 ≤ call.1)
    · rintro g e ⟨reached, addressed⟩ allowed enabled
      have names : namesMembers g (.call e) := allowed
      have moves : (lives n).enabled g (.call e) := enabled
      refine ⟨reached.step names moves, fun i call member => ?_⟩
      replace member : call ∈ (act g e i).comp.forwards := member
      by_cases actor : i = e.1
      swap
      · rw [act_other g e i actor] at member
        exact addressed i call member
      subst actor
      obtain ⟨-, given, -, forwards, -, toLeader⟩ := (g e.1).dispatch_accounts e.2 enabled.1.1
      rw [act_self, forwards] at member
      rcases List.mem_append.mp member with old | new
      · exact addressed e.1 call old
      · rw [toLeader call new]
        rcases (knows_of_reaches g reached e.1).2.leader with inGroup | alone
        · exact inGroup.1
        · rw [alone]
          decide
    · refine ⟨⟨g₀, booted, .refl⟩, fun i call member => ?_⟩
      obtain ⟨seed, expectPingTimeval, now, env, same⟩ := booted i
      rw [same] at member
      cases member
  exact both.2 i

end Cluster

/-- What `f` reads off the message of a step that is no arrival. -/
def NetworkEvent.handled {n : ℕ} {α : Type} (f : SysMsg → Option α) : NetworkEvent n → Multiset α
  | .node _ _ event => (event.handled f).toList
  | .arrive _ _ _ _ _ => 0
  | .bev _ _ _ _ => 0
  | .timeout _ _ => 0

namespace Network

variable {n : ℕ} {net : Network n}

/-! ## A network -/

/-- What `f` reads off the messages that have arrived. -/
def heardOf {α : Type} (f : SysMsg → Option α) (net : Network n) : Multiset α :=
  ∑ j, ((net.heard j).filterMap fun entry => f entry.2 : List α)

/-- A dispatch adds its event to the history, and what it writes to none. -/
theorem histories_dispatch (net : Network n) (i : Fin n) (env : LinkEnv) (event : NodeEvent) :
    (net.dispatch i env event).history = net.history ++ [(i, env.toNodeEnv, event)] ∧
      (net.dispatch i env event).heard = net.heard := by
  exact net.dispatch_invariant i env event
    (P := fun net' => net'.history = net.history ++ [(i, env.toNodeEnv, event)] ∧
      net'.heard = net.heard)
    (fun _ _ _ before => before) (fun _ _ before => before) ⟨rfl, rfl⟩

section Noted

variable {α : Type} {f : SysMsg → Option α} {others : Multiset α}

/-- What has been read off messages was read off those that have arrived, but for these. -/
def Noted (f : SysMsg → Option α) (others : Multiset α) (net : Network n) : Prop :=
  Cluster.handled f net.history = others + net.heardOf f

theorem Noted.dispatch (noted : Noted f others net) (i : Fin n) (env : LinkEnv)
    (event : NodeEvent) : Noted f (others + (event.handled f).toList) (net.dispatch i env event) := by
  obtain ⟨history, heard⟩ := histories_dispatch net i env event
  rw [Noted, history, Cluster.handled_snoc, heardOf, heard, ← heardOf, noted]
  exact add_right_comm _ _ _

theorem Noted.hear (noted : Noted f others net) (j : Fin n) (source : Fin n × ℕ) (env : LinkEnv)
    (msg : SysMsg) : Noted f others (net.hear j source env msg) := by
  rw [Network.hear]
  split
  next running =>
    obtain ⟨history, heard⟩ := histories_dispatch
      { net with heard := Function.update net.heard j (net.heard j ++ [(source, msg)]) } j env
      (.message msg)
    have more : heardOf f { net with
        heard := Function.update net.heard j (net.heard j ++ [(source, msg)]) } =
        net.heardOf f + ((f msg).toList : Multiset α) := by
      refine sum_update net.heard j _ (fun log =>
        (↑(log.filterMap fun entry => f entry.2) : Multiset α)) _ ?_
      rw [List.filterMap_append, Multiset.coe_add]
      congr 2
    rw [Noted, history, Cluster.handled_snoc, heardOf, heard, ← heardOf, more, ← add_assoc]
    exact congrArg (· + _) noted
  next failed => exact noted

theorem Noted.act (noted : Noted f others net) (e : NetworkEvent n) :
    Noted f (others + e.handled f) (net.act e) := by
  cases e with
  | node i env event => exact noted.dispatch i env event
  | arrive i j k len envs =>
    rw [NetworkEvent.handled, add_zero]
    exact arrive_invariant i k len envs (fun _ env msg before => before.hear j (i, k) env msg)
      (fun _ before => before) (fun _ _ before _ => before) noted
  | bev i j k event => exact noted.trans (congrArg (· + _) (add_zero others).symm)
  | timeout i j => exact noted.trans (congrArg (· + _) (add_zero others).symm)

theorem handled_of_local {event : NodeEvent} (own : event.Local) :
    event.handled SysMsg.forwarded = none := by
  cases event with
  | message msg =>
    cases msg with
    | requestSubmit data => rfl
    | pingReq | pingAck | consensus | leaderElection => exact own.elim
  | leaderPing | expectPing | makeProgress | electionTimeout => rfl

/-- Forwarded requests only arrive. -/
theorem noted_of_reaches {initial : Cluster n → Prop}
    {guard : Network n → NetworkEvent n → Prop} (reached : (machine initial).Reaches guard net) :
    Noted SysMsg.forwarded 0 net := by
  apply reached.invariant
  · rintro net ⟨nodes, -, rfl⟩
    exact (zero_add _).trans (sum_eq_zero fun j _ => rfl) |>.symm
  · intro net e noted _ enabled
    have step := noted.act e
    have nothing : e.handled SysMsg.forwarded = 0 := by
      cases e with
      | node i env event =>
        rw [NetworkEvent.handled, handled_of_local enabled.2]
        rfl
      | arrive | bev | timeout => rfl
    rwa [nothing] at step

end Noted

/-- The messages of a node, as they were sent to others, are shared out among them. -/
theorem sum_sentTo_le {α : Type} (i : Fin n) (f : α → Option (List UInt8)) (calls : List (Int × α))
    (addressed : ∀ call ∈ calls, f call.2 ≠ none → 0 ≤ call.1) :
    ∑ j, ((sentTo i j calls).filterMap f : Multiset (List UInt8)) ≤
      (calls.filterMap fun call => f call.2 : List (List UInt8)) := by
  induction calls with
  | nil => simp [sentTo]
  | cons call calls ih =>
    have rest := ih fun other member => addressed other (List.mem_cons_of_mem _ member)
    have split (j : Fin n) : ((sentTo i j (call :: calls)).filterMap f : Multiset (List UInt8)) =
        ((sentTo i j [call]).filterMap f : List (List UInt8)) +
          ((sentTo i j calls).filterMap f : Multiset (List UInt8)) := by
      rw [Multiset.coe_add, ← List.filterMap_append, ← sentTo_append]
      rfl
    have one (j : Fin n) : sentTo i j [call] = if j ∈ targets i call.1 then [call.2] else [] := by
      by_cases goes : j ∈ targets i call.1 <;> simp [sentTo, goes]
    have first : ∑ j, ((sentTo i j [call]).filterMap f : Multiset (List UInt8)) ≤
        (f call.2).toList := by
      cases found : f call.2 with
      | none =>
        refine le_of_eq (sum_eq_zero fun j _ => ?_)
        have nothing : (sentTo i j [call]).filterMap f = [] := by
          rw [one]
          split <;> simp [found]
        rw [nothing]
        rfl
      | some data =>
        -- it goes to the node with this index, if there is one
        have positive := addressed call List.mem_cons_self (by rw [found]; exact Option.some_ne_none _)
        have goes (j : Fin n) : j ∈ targets i call.1 ↔ call.1 = (j : ℕ) := by
          simp [targets, Int.not_lt.mpr positive]
        have each (j : Fin n) : ((sentTo i j [call]).filterMap f : Multiset (List UInt8)) =
            if call.1 = (j : ℕ) then {data} else 0 := by
          rw [one]
          by_cases here : call.1 = (j : ℕ)
          · rw [if_pos ((goes j).mpr here), if_pos here, List.filterMap_cons_some found]
            rfl
          · rw [if_neg (mt (goes j).mp here), if_neg here]
            rfl
        simp only [each]
        by_cases someone : ∃ j : Fin n, call.1 = (j : ℕ)
        · obtain ⟨j, here⟩ := someone
          rw [sum_eq_single j, if_pos here]
          · rfl
          · intro k _ other
            exact if_neg fun same => other (Fin.ext (Int.ofNat_inj.mp (same.symm.trans here)))
          · intro outside
            exact absurd (mem_univ j) outside
        · rw [sum_eq_zero fun j _ => if_neg fun here => someone ⟨j, here⟩]
          exact Multiset.zero_le _
    have whole : ((call :: calls).filterMap fun call => f call.2 : List (List UInt8)) =
        (f call.2).toList ++ calls.filterMap fun call => f call.2 := by
      rw [List.filterMap_cons]
      cases f call.2 <;> rfl
    simp only [split, sum_add_distrib]
    rw [whole, ← Multiset.coe_add]
    exact add_le_add first rest

/-- What a node has heard, by the connection it came on. -/
theorem heard_by_connection (inOrder : ∀ i j, InOrder net i j) (j : Fin n) :
    ((net.heard j).filterMap fun entry => entry.2.forwarded : Multiset (List UInt8)) =
      ∑ i, ((net.heardFrom i j).filterMap SysMsg.forwarded : Multiset (List UInt8)) := by
  have inside : ∀ entry ∈ net.heard j, entry.2.forwarded ≠ none →
      entry.1.2 < (net.channels entry.1.1 j).conns.length := by
    intro entry member _
    by_contra outside
    have nothing := (inOrder entry.1.1 j).known entry.1.2
      (List.getElem?_eq_none (Nat.le_of_not_lt outside))
    have there : entry.2 ∈ net.heardOn j (entry.1.1, entry.1.2) :=
      List.mem_map.mpr ⟨entry, List.mem_filter.mpr ⟨member, decide_eq_true rfl⟩, rfl⟩
    rw [nothing] at there
    cases there
  rw [← sum_sorted Prod.fst (fun i => (net.channels i j).conns.length)
    (fun entry => entry.2.forwarded) (net.heard j) inside]
  apply sum_congr rfl
  intro i _
  rw [heardFrom, List.filterMap_flatMap, coe_flatMap_range]
  apply sum_congr rfl
  intro k _
  rw [heardOn, List.filterMap_map]
  rfl

/-- A forwarded request is handled once at most. -/
theorem heardForwards_le (inOrder : ∀ i j, InOrder net i j)
    (addressed : ∀ i, ∀ call ∈ (net.nodes i).comp.forwards, 0 ≤ call.1) :
    net.heardOf SysMsg.forwarded ≤ Cluster.forwarded net.nodes := by
  have arrived (i j : Fin n) :
      ((net.heardFrom i j).filterMap SysMsg.forwarded : Multiset (List UInt8)) ≤
        ((sentTo i j (net.nodes i).comp.upCalls).filterMap ConsensusMsg.forwarded :
          List (List UInt8)) := by
    have through : SysMsg.forwarded = fun msg => msg.asConsensus.bind ConsensusMsg.forwarded := by
      funext msg
      cases msg <;> rfl
    have sub := (inOrder i j).once.consensus.filterMap ConsensusMsg.forwarded
    rw [List.filterMap_filterMap, ← through] at sub
    exact Multiset.coe_le.mpr sub.subperm
  have given (i : Fin n) :
      ∑ j, ((sentTo i j (net.nodes i).comp.upCalls).filterMap ConsensusMsg.forwarded :
        Multiset (List UInt8)) ≤ ((net.nodes i).comp.forwards.map Prod.snd : List (List UInt8)) := by
    have all : (net.nodes i).comp.forwards.map Prod.snd =
        (net.nodes i).comp.upCalls.filterMap fun call => call.2.forwarded := by
      rw [Comp.forwards, List.map_filterMap]
      congr 1
      funext call
      rw [Comp.forwardOf]
      cases call.2.forwarded <;> rfl
    rw [all]
    refine sum_sentTo_le i ConsensusMsg.forwarded _ fun call member forwards => ?_
    obtain ⟨data, found⟩ := Option.ne_none_iff_exists'.mp forwards
    exact addressed i (call.1, data) (List.mem_filterMap.mpr
      ⟨call, member, by rw [Comp.forwardOf, found]; rfl⟩)
  calc net.heardOf SysMsg.forwarded
      = ∑ j, ∑ i, ((net.heardFrom i j).filterMap SysMsg.forwarded : Multiset (List UInt8)) :=
        sum_congr rfl fun j _ => heard_by_connection inOrder j
    _ ≤ ∑ j, ∑ i, ((sentTo i j (net.nodes i).comp.upCalls).filterMap ConsensusMsg.forwarded :
          Multiset (List UInt8)) := sum_le_sum fun j _ => sum_le_sum fun i _ => arrived i j
    _ = ∑ i, ∑ j, ((sentTo i j (net.nodes i).comp.upCalls).filterMap ConsensusMsg.forwarded :
          Multiset (List UInt8)) := sum_comm
    _ ≤ Cluster.forwarded net.nodes := sum_le_sum fun i _ => given i

/-- What has become of the requests of a run: leaders have numbered no more than was submitted; of
what a node took in, from its proxy or from another node, it has numbered or forwarded each request
once at most, not both; and what was forwarded has been taken in once at most. -/
structure RequestsOnce (net : Network n) : Prop where
  numbered : Cluster.numbered net.nodes ≤ Cluster.submitted net.history
  taken : Cluster.numbered net.nodes + Cluster.forwarded net.nodes ≤
    Cluster.submitted net.history + Cluster.handedOn net.history
  handed : Cluster.handedOn net.history ≤ Cluster.forwarded net.nodes

theorem requestsOnce_of_run {g₀ : Cluster n} (booted : Cluster.Booted g₀)
    (run : (machine Cluster.Booted).Run Carried (start g₀) net)
    (named : (Cluster.machine Cluster.Booted).Meets Cluster.members g₀ net.history) :
    RequestsOnce net := by
  have kept := kept_of_run (elective_of_booted booted) run
  have reached : (machine Cluster.Booted).Reaches Carried net :=
    ⟨start g₀, ⟨g₀, booted, rfl⟩, run⟩
  have there : net.history.foldl (Cluster.machine Cluster.Booted).apply g₀ = net.nodes :=
    kept.replays.nodes.symm
  have replayed := (kept.replays.accepted.both named).run.mono fun _ _ => And.right
  rw [there] at replayed
  have accounts := Cluster.accounts_run net.history kept.replays.accepted
  rw [← kept.replays.nodes, Cluster.accounts_booted booted, zero_add] at accounts
  have once : Cluster.handedOn net.history ≤ Cluster.forwarded net.nodes := by
    have noted := noted_of_reaches reached
    rw [Noted, zero_add] at noted
    rw [Cluster.handedOn, noted]
    exact heardForwards_le kept.inv.inOrder (Cluster.forwards_addressed booted replayed)
  -- what has been forwarded stands on both sides
  exact ⟨le_of_add_le_add_right (accounts.trans (add_le_add le_rfl once)), accounts, once⟩

end Network

namespace Group

variable {n : ℕ}

/-- Payloads of stamps that were given, each stamp once, have been numbered as often. -/
theorem payloads_le_numbered {g : Group n} {entries : List (ViewStamp × List UInt8)}
    (distinct : entries.Nodup) (assigned : ∀ entry ∈ entries, Assigned g entry.1 entry.2) :
    (entries.map Prod.snd : Multiset (List UInt8)) ≤
      ∑ j, ((g j).numbered : Multiset (List UInt8)) := by
  have part : (entries : Multiset (ViewStamp × List UInt8)) ≤
      ∑ j, ((g j).assigned : Multiset (ViewStamp × List UInt8)) := by
    refine (Multiset.le_iff_subset (Multiset.coe_nodup.mpr distinct)).mpr fun entry member => ?_
    obtain ⟨j, given⟩ := assigned entry (Multiset.mem_coe.mp member)
    exact Multiset.mem_sum.mpr ⟨j, mem_univ j, Multiset.mem_coe.mpr given⟩
  have payloads := Multiset.map_le_map part (f := Prod.snd)
  refine payloads.trans (le_of_eq ?_)
  exact map_sum (Multiset.mapAddMonoidHom Prod.snd) _ _

/-- No node delivers a request more often than it has been numbered. -/
theorem delivered_le_numbered (seed : Option (Fin n)) (leaderOf : UInt32 → NodeId)
    (consistent : ∀ i, seed = some i → leaderOf 1 = (i : ℕ)) (g : Group n)
    (reached : (machine n seed).Reaches (orderly leaderOf) g) (i : Fin n) :
    ((g i).delivered.filterMap Delivery.data : Multiset (List UInt8)) ≤
      ∑ j, ((g j).numbered : Multiset (List UInt8)) := by
  have known := known_of_reaches seed leaderOf consistent g reached
  have delivered := delivered_of_reaches seed leaderOf consistent g reached i
  obtain ⟨epoch, count, log⟩ := (known.order i).delivered
  have increasing := (Comp.gapFree_of_numbered (g i) epoch count log).increasing
  -- the deliveries with their stamps, which differ, are entries of the logs of the leaders
  let entry (d : Delivery) : Option (ViewStamp × List UInt8) := d.data.map fun data => (d.vs, data)
  have distinct : ((g i).delivered.filterMap entry).Nodup := by
    rw [List.pairwise_map] at increasing
    refine List.Pairwise.filterMap entry (S := fun a b => a ≠ b) ?_ increasing
    intro a b order x isA y isB same
    subst same
    obtain ⟨data, -, rfl⟩ := Option.map_eq_some_iff.mp isA
    obtain ⟨data', -, same⟩ := Option.map_eq_some_iff.mp isB
    rw [(Prod.mk.inj same).1, viewStampComp_neg] at order
    exact absurd order (lt_irrefl _)
  have assigned : ∀ x ∈ (g i).delivered.filterMap entry, Assigned g x.1 x.2 := by
    intro x member
    obtain ⟨d, done, found⟩ := List.mem_filterMap.mp member
    obtain ⟨-, data, payload, given⟩ := delivered d done
    obtain ⟨data', payload', rfl⟩ := Option.map_eq_some_iff.mp found
    obtain rfl := Option.some.inj (payload.symm.trans payload')
    exact given
  have payloads : (g i).delivered.filterMap Delivery.data =
      ((g i).delivered.filterMap entry).map Prod.snd := by
    rw [List.map_filterMap]
    congr 1
    funext d
    cases found : d.data <;> simp [entry, found]
  rw [payloads]
  exact payloads_le_numbered distinct assigned

end Group

namespace Network

/-! ## Requests in a run -/

/-- What has happened is that leaders are elected, calls are steady and announcements name one
leader for each view, as for `Cluster.elected_deliveries_agree`, and that no request came to a node
that had entered no view. -/
structure Vouched (leader : UInt32 → Fin n) (stray : View → Prop) (g₀ : Cluster n)
    (net : Network n) : Prop where
  named : (Cluster.machine Cluster.Booted).Meets Cluster.members g₀ net.history
  steady : (Cluster.machine Cluster.Booted).Meets (fun g e =>
    Cluster.installsElected stray g e ∧ Cluster.steadyCalls g e) g₀ net.history
  announced : ∀ i, Node.Honest (Cluster.seat leader) (net.nodes i)

section Vouched

variable {leader : UInt32 → Fin n} {stray : View → Prop} {g₀ : Cluster n} {net' : Network n}

theorem delivered_le_submitted (booted : Cluster.Booted g₀)
    (seeds : ∀ i, (g₀ i).viewId ≠ 0 → leader 1 = i)
    (run : (machine Cluster.Booted).Run Carried (start g₀) net)
    (vouched : Vouched leader stray g₀ net)
    (i : Fin n) : (∀ d ∈ (net.nodes i).comp.delivered, d.data ≠ none) ∧
      ((net.nodes i).comp.delivered.filterMap Delivery.data : Multiset (List UInt8)) ≤
        Cluster.submitted net.history := by
  have replays := (kept_of_run (elective_of_booted booted) run).replays
  have there : net.history.foldl (Cluster.machine Cluster.Booted).apply g₀ = net.nodes :=
    replays.nodes.symm
  have reached := (replays.accepted.both vouched.steady).run
  rw [there] at reached
  obtain ⟨h, faults, orderly, equal⟩ := Cluster.orderlyGroup_of_run booted seeds
    (reached.mono fun _ _ allowed => ⟨allowed.2.1, allowed.2.2, allowed.1⟩) vouched.announced
  have consistent : ∀ i, Cluster.seedOf leader g₀ = some i →
      Cluster.seat leader 1 = ((i : ℕ) : Int) := Cluster.seedOf_leads g₀
  have same (j : Fin n) : (net.nodes j).comp = { h j with fault := faults j } := congrFun equal j
  have numbered : ∑ j, ((h j).numbered : Multiset (List UInt8)) = Cluster.numbered net.nodes :=
    sum_congr rfl fun j _ => by rw [same]; rfl
  have part := Group.delivered_le_numbered _ _ consistent h orderly i
  rw [numbered] at part
  rw [same]
  refine ⟨fun d done nothing => ?_,
    part.trans (requestsOnce_of_run booted run vouched.named).numbered⟩
  obtain ⟨-, data, payload, -⟩ := Group.delivered_of_reaches _ _ consistent h orderly i d done
  rw [nothing] at payload
  cases payload

theorem history_grows {initial : Cluster n → Prop} {guard : Network n → NetworkEvent n → Prop}
    (run : (machine initial).Run guard net net') : net.history <+: net'.history := by
  apply run.invariant (I := fun net' => net.history <+: net'.history) _ (List.prefix_refl _)
  have dispatched (net' : Network n) (i : Fin n) (env : LinkEnv) (event : NodeEvent)
      (before : net.history <+: net'.history) :
      net.history <+: (net'.dispatch i env event).history := by
    rw [(histories_dispatch net' i env event).1]
    exact before.trans (List.prefix_append _ _)
  intro net' e before _ _
  cases e with
  | node i env event => exact dispatched net' i env event before
  | arrive i j k len envs =>
    refine arrive_invariant (P := fun net' => net.history <+: net'.history) i k len envs
      (fun net' env msg before => ?_) (fun _ before => before) (fun _ _ before _ => before) before
    rw [Network.hear]
    split
    next running => exact dispatched _ j env _ before
    next failed => exact before
  | bev i j k event => exact before
  | timeout i j => exact before

end Vouched

/-- Node 1, a secondary, gets a request in view 1, which node 2 numbers and delivers. -/
def forwardedRequest : List (NetworkEvent 3) :=
  [.bev 2 1 0 .connected, .bev 1 2 0 .connected, .node 2 lateLink .leaderPing,
    .arrive 2 1 0 64 fun _ => lateLink, .node 1 lateLink (.message (.requestSubmit [6])),
    .arrive 1 2 0 37 fun _ => lateLink, .arrive 2 1 0 86 fun _ => lateLink,
    .arrive 1 2 0 40 fun _ => lateLink]

/-- Where that gets to. -/
def afterForward : Network 3 := forwardedRequest.foldl act (start Cluster.ledByLast)

theorem forwardedRequest_run : (machine Cluster.Booted).Run Carried (start Cluster.ledByLast)
    afterForward := by
  have accepted : (machine Cluster.Booted).Accepts CarriesPlain (start Cluster.ledByLast)
      forwardedRequest := by decide +kernel
  exact accepted.run.mono fun _ _ carries => carries.carried

/-- The leaders number each request at most as often as the proxies have submitted it, and nothing
that has not been submitted; a request is numbered or forwarded, and taken in once at most where it
is forwarded to. -/
theorem requests_numbered_once (n : ℕ) (g₀ : Cluster n) (booted : Cluster.Booted g₀)
    (net : Network n) (run : (machine Cluster.Booted).Run Carried (start g₀) net)
    (named : (Cluster.machine Cluster.Booted).Meets Cluster.members g₀ net.history) :
    RequestsOnce net :=
  requestsOnce_of_run booted run named

theorem forwarded_numbered_once :
    RequestsOnce afterForward ∧ (afterForward.nodes 2).comp.numbered = [[6]] :=
  ⟨requests_numbered_once 3 Cluster.ledByLast Cluster.ledByLast_booted afterForward
    forwardedRequest_run (by decide +kernel), by decide +kernel⟩

/-- A node delivers each request at most as often as the proxies have submitted it, and nothing
else, over all views. -/
theorem requests_delivered_once (n : ℕ) (leader : UInt32 → Fin n) (stray : View → Prop)
    (g₀ : Cluster n) (booted : Cluster.Booted g₀)
    (seeds : ∀ i, (g₀ i).viewId ≠ 0 → leader 1 = i) (net : Network n)
    (run : (machine Cluster.Booted).Run Carried (start g₀) net)
    (named : (Cluster.machine Cluster.Booted).Meets Cluster.members g₀ net.history)
    (steady : (Cluster.machine Cluster.Booted).Meets (fun g e =>
      Cluster.installsElected stray g e ∧ Cluster.steadyCalls g e) g₀ net.history)
    (announced : ∀ i, Node.Honest (Cluster.seat leader) (net.nodes i)) (i : Fin n) :
    (∀ d ∈ (net.nodes i).comp.delivered, d.data ≠ none) ∧
      ((net.nodes i).comp.delivered.filterMap Delivery.data : Multiset (List UInt8)) ≤
        Cluster.submitted net.history :=
  delivered_le_submitted booted seeds run ⟨named, steady, announced⟩ i

theorem forwarded_delivered_once :
    (∀ d ∈ (afterForward.nodes 2).comp.delivered, d.data ≠ none) ∧
      ((afterForward.nodes 2).comp.delivered.filterMap Delivery.data : Multiset (List UInt8)) ≤
        Cluster.submitted afterForward.history :=
  requests_delivered_once 3 Cluster.electedLeader (fun _ => False) Cluster.ledByLast
    Cluster.ledByLast_booted (by decide +kernel) afterForward forwardedRequest_run
    (by decide +kernel) (by decide +kernel)
    (by decide +kernel) 2

end Network

end LibeventPaxos
