import LibeventPaxos.Service

/-!
Runs of the service: its nodes are those of a network, in which proxies submit what they have
written to their connections, each request once at most and in the order of its connection.
-/
namespace LibeventPaxos

open Lib Finset

/-! ## Steps of the network -/

namespace Network

variable {n : ℕ}

theorem nodes_dispatch_other (net : Network n) {i j : Fin n} (other : j ≠ i) (env : LinkEnv)
    (event : NodeEvent) : (net.dispatch i env event).nodes j = net.nodes j :=
  net.dispatch_invariant i env event (P := fun net' => net'.nodes j = net.nodes j)
    (fun _ _ _ before => before)
    (fun _ _ before => (Function.update_of_ne other ..).trans before)
    (Function.update_of_ne other ..)

/-- A step changes one node only. -/
theorem nodes_act_other (net : Network n) (e : NetworkEvent n) {j : Fin n} (other : j ≠ e.actor) :
    (net.act e).nodes j = net.nodes j := by
  cases e with
  | node i env event => exact nodes_dispatch_other net other env event
  | arrive i target k len envs =>
    refine arrive_invariant (P := fun net' => net'.nodes j = net.nodes j) i k len envs ?_
      (fun net' before => (Function.update_of_ne other ..).trans before)
      (fun _ _ before _ => before) rfl
    intro net' env msg before
    rw [Network.hear]
    split
    next running => exact (nodes_dispatch_other _ other env _).trans before
    next failed => exact before
  | bev i target k event => rfl
  | timeout i target => rfl

theorem running_of_act {net : Network n} {e : NetworkEvent n} (enabled : Enabled net e) {j : Fin n}
    (running : ((net.act e).nodes j).comp.fault = none) : (net.nodes j).comp.fault = none := by
  -- no step brings back a node that has failed, and only one that runs takes a step
  by_cases other : j = e.actor
  · subst other
    cases e with
    | node i env event => exact enabled.1.1
    | arrive i target k len envs => exact enabled.1
    | bev i target k event => exact enabled.1
    | timeout i target => exact enabled.1
  · rwa [nodes_act_other net e other] at running

end Network

namespace Network

variable {n : ℕ} {net : Network n} {initial : Cluster n → Prop} {g₀ : Cluster n}

/-- Nodes send each other no requests of proxies. -/
theorem heard_no_request (kept : Kept initial g₀ net) : net.heardOf SysMsg.submitted = 0 := by
  refine sum_eq_zero fun j _ => ?_
  have nothing : ((net.heard j).filterMap fun entry => entry.2.submitted) = [] := by
    rw [List.filterMap_eq_nil_iff]
    rintro ⟨⟨i, k⟩, msg⟩ member
    have there : msg ∈ net.heardOn j (i, k) :=
      List.mem_map.mpr ⟨_, List.mem_filter.mpr ⟨member, decide_eq_true rfl⟩, rfl⟩
    rcases kept.inv.heard i j k with silent | ⟨conn, found, part⟩
    · rw [silent] at there
      cases there
    -- what was handled had been written, and nodes write no request
    · have written : msg ∈ (net.channels i j).written :=
        List.mem_flatMap.mpr ⟨conn, List.mem_of_getElem? found, part.subset there⟩
      cases msg with
      | requestSubmit data =>
        -- what is no message of the component is a ping or an election message
        have own : SysMsg.requestSubmit data ∈
            (net.channels i j).written.filter fun msg => msg.asConsensus.isNone :=
          List.mem_filter.mpr ⟨written, rfl⟩
        obtain ⟨call, sent, -, same⟩ := mem_sentTo.mp ((kept.inv.said i j).elective.subset own)
        have elective := (kept.inv.elective i).sent call sent
        rw [same] at elective
        exact elective.elim
      | pingReq | pingAck | consensus | leaderElection => rfl
  rw [nothing]
  rfl

end Network

/-- A proxy and its link, of which its component has taken what is in the log: all requests were
written to the link, and to one connection after the other. -/
structure Joined (proxy : ProxyNode) (uplink : Uplink) (log : List (ℕ × SysMsg)) (running : Prop) :
    Prop where
  ok : uplink.Ok
  conConn : proxy.conConn = uplink.conCon.isSome
  written : uplink.written = proxy.requests.map ReqSubMsg.asMsg
  drained : Uplink.Drained running log uplink.conns

section Joined

variable {proxy : ProxyNode} {uplink : Uplink} {log : List (ℕ × SysMsg)} {running running' : Prop}

theorem Joined.start (nodeId : UInt32) (running : Prop) :
    Joined { ProxyNode.init nodeId with conConn := true } .start [] running :=
  ⟨Uplink.ok_start, rfl, rfl, Uplink.drained_start running⟩

theorem Joined.mono (joined : Joined proxy uplink log running) (implies : running' → running) :
    Joined proxy uplink log running' :=
  ⟨joined.ok, joined.conConn, joined.written, joined.drained.mono implies⟩

theorem Joined.execute (joined : Joined proxy uplink log running) (data : Memory) :
    Joined (proxy.doActionToServer data) uplink log running := by
  obtain ⟨conConn, requests⟩ := proxy.doActionToServer_submits data
  exact ⟨joined.ok, conConn.trans joined.conConn, by rw [requests]; exact joined.written,
    joined.drained⟩

/-- The events of a buffer event; only the newest connection raises any. -/
theorem Joined.bev (joined : Joined proxy uplink log running) {k : ℕ} {event : BevEvent}
    (raises : uplink.Raises k event) :
    Joined (Service.onBev proxy event) (uplink.consensusOnEvent k event) log running := by
  have longer (status : BevStatus) : List.Forall₂ Conn.Extends uplink.conns
      (uplink.conns.modify k fun conn => { conn with status := status }) :=
    Uplink.extends_modify k (fun conn => { conn with status := status })
      (fun _ => ⟨List.prefix_refl _, fun _ flows => flows⟩) _
  have written (status : BevStatus) :
      (uplink.conns.modify k fun conn => { conn with status := status }).flatMap Conn.written =
        proxy.requests.map ReqSubMsg.asMsg :=
    (Uplink.written_modify k (fun conn => { conn with status := status }) fun _ => rfl).trans
      joined.written
  -- a connection that is lost keeps what was written to it, some of which never arrives
  cases event with
  | connected =>
    exact ⟨joined.ok.onEvent raises, joined.conConn, written .connected,
      joined.drained.extend (longer .connected)⟩
  | lost =>
    exact ⟨joined.ok.onEvent raises, rfl, written .freed, joined.drained.extend (longer .freed)⟩

theorem Joined.timeout (joined : Joined proxy uplink log running) (due : uplink.reCon = .pending) :
    Joined { proxy with conConn := true } uplink.reconnectOnTimeout log running := by
  refine ⟨joined.ok.onTimeout due, rfl, ?_, joined.drained.connect⟩
  rw [← joined.written]
  simp only [Uplink.written, Uplink.reconnectOnTimeout, Uplink.connectConsensus,
    List.flatMap_append, List.flatMap_singleton, Conn.fresh, List.append_nil]

/-- What the component has taken of a proxy: of each connection the front of what was written to it,
all of that once all has arrived, and no request twice. -/
structure TakenInOrder (proxy : ProxyNode) (uplink : Uplink) (log : List (ℕ × SysMsg))
    (running : Prop) : Prop where
  written : uplink.written = proxy.requests.map ReqSubMsg.asMsg
  front : ∀ k : ℕ, ∀ conn ∈ uplink.conns[k]?, Uplink.takenOf log k <+: conn.written
  whole : running → ∀ k : ℕ, ∀ conn ∈ uplink.conns[k]?, conn.inFlight = [] →
    Uplink.takenOf log k = conn.written
  once : (log.filterMap (fun entry => entry.2.submitted) : Multiset (List UInt8)) ≤
    (proxy.requests.map fun request => request.msg.bytes : List (List UInt8))

theorem Joined.front (joined : Joined proxy uplink log running) (k : ℕ) (conn : Conn)
    (found : conn ∈ uplink.conns[k]?) : Uplink.takenOf log k <+: conn.written := by
  rcases joined.drained.front k with nothing | ⟨conn', found', part⟩
  · rw [nothing]
    exact List.nil_prefix
  · obtain rfl := Option.some.inj (found.symm.trans found')
    exact part

theorem Joined.inOrder (joined : Joined proxy uplink log running) :
    TakenInOrder proxy uplink log running := by
  refine ⟨joined.written, joined.front, fun runs k conn found arrived =>
    Network.whole_of_flows (joined.drained.flows runs k conn found) arrived, ?_⟩
  have inside : ∀ entry ∈ log, entry.2.submitted ≠ none →
      ((((), entry.1) : Unit × ℕ)).2 < uplink.conns.length := by
    intro entry member _
    by_contra outside
    have there : entry.2 ∈ Uplink.takenOf log entry.1 :=
      List.mem_map.mpr ⟨entry, List.mem_filter.mpr ⟨member, decide_eq_true rfl⟩, rfl⟩
    rcases joined.drained.front entry.1 with nothing | ⟨conn, found, -⟩
    · rw [nothing] at there
      cases there
    · exact outside (List.getElem?_eq_some_iff.mp found).1
  -- the log, sorted by the connections of the link
  have sorted := sum_sorted (fun entry : ℕ × SysMsg => ((), entry.1)) (fun _ => uplink.conns.length)
    (fun entry => entry.2.submitted) log inside
  have each (k : ℕ) :
      ((log.filter fun entry => decide ((((), entry.1) : Unit × ℕ) = ((), k))).filterMap
        fun entry => entry.2.submitted) = (Uplink.takenOf log k).filterMap SysMsg.submitted := by
    rw [Uplink.takenOf, List.filterMap_map]
    congr 2
    funext entry
    simp
  -- fronts of all connections, put together, are part of all that was written
  have parts := (Network.sublist_flatMap fun k conn found =>
    (joined.front k conn found).sublist).filterMap SysMsg.submitted
  have requests : (uplink.conns.flatMap Conn.written).filterMap SysMsg.submitted =
      proxy.requests.map fun request => request.msg.bytes := by
    have written : uplink.conns.flatMap Conn.written = _ := joined.written
    rw [written, List.filterMap_map, ← List.filterMap_eq_map]
    rfl
  rw [← sorted, ← requests]
  simp only [univ_unique, PUnit.default_eq_unit, sum_singleton, each]
  rw [← coe_flatMap_range, ← List.filterMap_flatMap]
  exact Multiset.coe_le.mpr parts.subperm

end Joined

namespace Service

variable {n : ℕ} {s s' : Service n} {i : Fin n} {initial : Cluster n → Prop} {g₀ : Cluster n}

@[simp] theorem setUplink_setUplink (s : Service n) (i : Fin n) (uplink uplink' : Uplink) :
    (s.setUplink i uplink).setUplink i uplink' = s.setUplink i uplink' := by
  simp only [setUplink, Function.update_idem]

@[simp] theorem uplinks_setUplink (s : Service n) (i : Fin n) (uplink : Uplink) :
    (s.setUplink i uplink).uplinks i = uplink := Function.update_self ..

/-! ## Proxies -/

/-- The requests of one event are written one after the other. -/
theorem submit_all (s : Service n) (i : Fin n) (added : List ReqSubMsg) (ok : (s.uplinks i).Ok)
    (there : (s.uplinks i).conCon.isSome = true) :
    ∃ uplink, added.foldl (submit i) s = s.setUplink i uplink ∧ uplink.Ok ∧
      Uplink.Grows (added.map ReqSubMsg.asMsg) (s.uplinks i) uplink := by
  -- induction over what is written; the link keeps its connection, so the next write succeeds too
  induction added generalizing s with
  | nil =>
    refine ⟨s.uplinks i, ?_, ok, .refl _⟩
    rw [setUplink, Function.update_eq_self]
    rfl
  | cons request added ih =>
    obtain ⟨uplink, written, ok', grows⟩ := ok.write there request.encodes
    have first : submit i s request = s.setUplink i uplink := by rw [submit, written]
    obtain ⟨uplink', rest, ok'', grows'⟩ := ih (s.setUplink i uplink)
      (by rw [uplinks_setUplink]; exact ok') (by rw [uplinks_setUplink, grows.conCon]; exact there)
    rw [uplinks_setUplink] at grows'
    refine ⟨uplink', ?_, ok'', grows.trans grows'⟩
    rw [List.foldl_cons, first, rest, setUplink_setUplink]

/-- An event at a proxy: what it submits has been written to its link. -/
theorem dispatchProxy_spec {running : Prop} (env : ProxyEnv) {event : ProxyEvent}
    (own : event.Local) (joined : Joined (s.proxies i) (s.uplinks i) (s.taken i) running) :
    ∃ uplink, s.dispatchProxy i env event =
        { (s.setProxy i ((s.proxies i).dispatch (env, event))).setUplink i uplink with
          seconds := Function.update s.seconds i (s.seconds i ++ event.second.toList) } ∧
      Joined ((s.proxies i).dispatch (env, event)) uplink (s.taken i) running := by
  obtain ⟨conConn, added, requests, nothing⟩ := (s.proxies i).submits_dispatch env own
  have fresh : ((s.proxies i).dispatch (env, event)).requests.drop (s.proxies i).requests.length =
      added := by rw [requests, List.drop_left]
  simp only [dispatchProxy, fresh]
  -- without a connection the event submits nothing, so nothing is written to NULL
  by_cases there : (s.uplinks i).conCon.isSome = true
  · obtain ⟨uplink, written, ok, grows⟩ := submit_all
      { s.setProxy i ((s.proxies i).dispatch (env, event)) with
        seconds := Function.update s.seconds i (s.seconds i ++ event.second.toList) } i added
      joined.ok there
    refine ⟨uplink, written, ok, ?_, ?_, joined.drained.extend grows.conns⟩
    · rw [conConn, grows.conCon]
      exact joined.conConn
    · rw [grows.written, requests, List.map_append]
      exact congrArg (· ++ _) joined.written
  · have lost : (s.proxies i).conConn = false := by
      rw [joined.conConn]
      exact Bool.eq_false_iff.mpr there
    obtain rfl := nothing lost
    refine ⟨s.uplinks i, ?_, joined.ok, conConn.trans joined.conConn, ?_, joined.drained⟩
    · rw [List.foldl_nil, setUplink]
      simp only [setProxy, Function.update_eq_self]
    · rw [requests, List.append_nil]
      exact joined.written

/-! ## Nodes -/

/-- From `s` to `s'` node `i` has taken these messages from a connection of its proxy, which are
steps of the network. -/
structure Takes (initial : Cluster n → Prop) (i : Fin n) (k : ℕ) (done : List SysMsg)
    (s s' : Service n) : Prop where
  run : (Network.machine initial).Run Network.Carried s.net s'.net
  proxies : s'.proxies = s.proxies
  uplinks : s'.uplinks = s.uplinks
  executed : s'.executed = s.executed
  seconds : s'.seconds = s.seconds
  others : ∀ j, j ≠ i → s'.net.nodes j = s.net.nodes j
  taken : s'.taken = Function.update s.taken i (s.taken i ++ done.map fun msg => (k, msg))
  noted : ∀ others, Network.Noted SysMsg.submitted others s.net → Network.Noted SysMsg.submitted
    (others + (done.filterMap SysMsg.submitted : List (List UInt8))) s'.net

theorem Takes.refl (initial : Cluster n → Prop) (i : Fin n) (k : ℕ) (s : Service n) :
    Takes initial i k [] s s := by
  refine ⟨.refl, rfl, rfl, rfl, rfl, fun _ _ => rfl, ?_, fun others noted => ?_⟩
  · rw [List.map_nil, List.append_nil, Function.update_eq_self]
  · rw [List.filterMap_nil]
    exact noted.trans (congrArg (· + _) (add_zero others).symm)

theorem Takes.trans {k : ℕ} {first second : List SysMsg} {middle : Service n}
    (early : Takes initial i k first s middle) (late : Takes initial i k second middle s') :
    Takes initial i k (first ++ second) s s' where
  run := early.run.trans late.run
  proxies := late.proxies.trans early.proxies
  uplinks := late.uplinks.trans early.uplinks
  executed := late.executed.trans early.executed
  seconds := late.seconds.trans early.seconds
  others j other := (late.others j other).trans (early.others j other)
  taken := by
    rw [late.taken, early.taken, Function.update_self, Function.update_idem, List.map_append,
      List.append_assoc]
  noted others noted := by
    have after := late.noted _ (early.noted others noted)
    rw [add_assoc, Multiset.coe_add, ← List.filterMap_append] at after
    exact after

/-- A request that is taken is an event at the node. -/
theorem takes_hear (initial : Cluster n → Prop) (i : Fin n) (k : ℕ) (env : LinkEnv)
    (request : ReqSubMsg) (running : (s.net.nodes i).comp.fault = none) :
    Takes initial i k [request.asMsg] s (s.hear i k env request.asMsg) := by
  have hears : s.hear i k env request.asMsg = { s with
      net := s.net.act (.node i env (.message request.asMsg))
      taken := Function.update s.taken i (s.taken i ++ [(k, request.asMsg)]) } := by
    rw [hear, if_pos (by rw [Node.running, running]; rfl)]
    rfl
  rw [hears]
  refine ⟨?_, rfl, rfl, rfl, rfl, fun j other => ?_, rfl, fun others noted => ?_⟩
  · exact Machine.Run.refl.step trivial ⟨⟨running, trivial⟩, trivial⟩
  · exact Network.nodes_dispatch_other s.net other env _
  · exact noted.act (.node i env (.message request.asMsg))

theorem hear_failed (i : Fin n) (k : ℕ) (env : LinkEnv) (msg : SysMsg)
    (failed : (s.net.nodes i).comp.fault ≠ none) : s.hear i k env msg = s := by
  rw [hear, if_neg]
  rw [Node.running, Option.isNone_iff_eq_none]
  exact failed

theorem handleMsgs_failed (i : Fin n) (k : ℕ) (envs : ℕ → LinkEnv) (count : ℕ)
    (failed : (s.net.nodes i).comp.fault ≠ none) (msgs : List SysMsg) :
    (handleMsgs (handler i k envs) (count, s) msgs).2 = s := by
  induction msgs generalizing count with
  | nil => rfl
  | cons msg msgs ih =>
    rw [handleMsgs, List.foldl_cons, ← handleMsgs, handler, hear_failed i k _ msg failed]
    exact ih (count + 1)

/-- The requests of one call, as many as are taken before the node fails. -/
theorem takes_all (initial : Cluster n → Prop) (i : Fin n) (k : ℕ) (envs : ℕ → LinkEnv)
    (requests : List ReqSubMsg) (s : Service n) (count : ℕ) :
    ∃ done, done <+: requests.map ReqSubMsg.asMsg ∧
      Takes initial i k done s
        (handleMsgs (handler i k envs) (count, s) (requests.map ReqSubMsg.asMsg)).2 ∧
      (((handleMsgs (handler i k envs) (count, s) (requests.map ReqSubMsg.asMsg)).2.net.nodes
        i).comp.fault = none → (s.net.nodes i).comp.fault = none ∧
        done = requests.map ReqSubMsg.asMsg) := by
  -- induction over the requests of the call, from any state of the service
  induction requests generalizing s count with
  | nil => exact ⟨[], List.nil_prefix, .refl .., fun running => ⟨running, rfl⟩⟩
  | cons request requests ih =>
    by_cases running : (s.net.nodes i).comp.fault = none
    · obtain ⟨done, front, takes, all⟩ := ih (s.hear i k (envs count) request.asMsg) (count + 1)
      refine ⟨request.asMsg :: done, List.cons_prefix_cons.mpr ⟨rfl, front⟩,
        (takes_hear initial i k (envs count) request running).trans takes, fun after => ?_⟩
      exact ⟨running, congrArg _ (all after).2⟩
    -- once the node has failed, the rest of the call is lost
    · have same := handleMsgs_failed i k envs count running
        ((request :: requests).map ReqSubMsg.asMsg)
      refine ⟨[], List.nil_prefix, by rw [same]; exact .refl .., fun after => ?_⟩
      rw [same] at after
      exact absurd after running

/-! ## The invariant -/

/-- The requests the nodes have taken from their proxies. -/
def takenRequests (s : Service n) : Multiset (List UInt8) :=
  ∑ i, ((s.taken i).filterMap fun entry => entry.2.submitted : List (List UInt8))

/-- The nodes are those of a network, in which what is submitted is taken from the proxies. -/
structure Inv (initial : Cluster n → Prop) (g₀ : Cluster n) (s : Service n) : Prop where
  run : (Network.machine initial).Run Network.Carried (.start g₀) s.net
  joined : ∀ i, Joined (s.proxies i) (s.uplinks i) (s.taken i)
    ((s.net.nodes i).comp.fault = none)
  noted : Network.Noted SysMsg.submitted s.takenRequests s.net

theorem Inv.start (initial : Cluster n → Prop) (g₀ : Cluster n) : Inv initial g₀ (start g₀) where
  run := .refl
  joined i := .start _ _
  noted := by
    have nothing : takenRequests (Service.start g₀) = 0 := sum_eq_zero fun _ _ => rfl
    rw [nothing]
    exact ((zero_add _).trans (sum_eq_zero fun _ _ => rfl)).symm

/-- What one process has, and the others keep. -/
theorem Inv.member (inv : Inv initial g₀ s) {net : Network n} {proxy : ProxyNode} {uplink : Uplink}
    {log : List (ℕ × SysMsg)}
    (others : ∀ j, j ≠ i → (net.nodes j).comp.fault = none → (s.net.nodes j).comp.fault = none)
    (own : Joined proxy uplink log ((net.nodes i).comp.fault = none)) (j : Fin n) :
    Joined (Function.update s.proxies i proxy j) (Function.update s.uplinks i uplink j)
      (Function.update s.taken i log j) ((net.nodes j).comp.fault = none) := by
  by_cases same : j = i
  · subst same
    rw [Function.update_self, Function.update_self, Function.update_self]
    exact own
  · rw [Function.update_of_ne same, Function.update_of_ne same, Function.update_of_ne same]
    exact (inv.joined j).mono (others j same)

theorem requests_of_msgs {msgs : List SysMsg}
    (each : ∀ msg ∈ msgs, ∃ request : ReqSubMsg, request.asMsg = msg) :
    ∃ requests : List ReqSubMsg, requests.map ReqSubMsg.asMsg = msgs := by
  induction msgs with
  | nil => exact ⟨[], rfl⟩
  | cons msg msgs ih =>
    obtain ⟨request, rfl⟩ := each msg List.mem_cons_self
    obtain ⟨requests, rfl⟩ := ih fun msg member => each msg (List.mem_cons_of_mem _ member)
    exact ⟨request :: requests, rfl⟩

/-- Bytes of a proxy that arrive, of which whole requests are taken. -/
theorem Inv.takes_arrive (inv : Inv initial g₀ s) {k : ℕ} (len : ℕ) (envs : ℕ → LinkEnv)
    (running : (s.net.nodes i).comp.fault = none) {conn : Conn}
    (found : (s.uplinks i).conns[k]? = some conn) (fits : ∀ msg ∈ s.unheard i k conn, msg.Fits) :
    ∃ (done : List SysMsg) (s' : Service n) (uplink : Uplink),
      s.arrive i k len envs = s'.setUplink i uplink ∧ Takes initial i k done s s' ∧
      Joined (s.proxies i) uplink (s.taken i ++ done.map fun msg => (k, msg))
        ((s'.net.nodes i).comp.fault = none) := by
  have joined := inv.joined i
  obtain ⟨later, split, unread⟩ := joined.drained.flows running k conn found
  have left : s.unheard i k conn = later := by rw [unheard, split, List.drop_left]
  rw [left] at fits
  -- all messages of the link are requests
  have submitted : ∀ msg ∈ later, ∃ request : ReqSubMsg, request.asMsg = msg := by
    intro msg member
    have written : msg ∈ (s.uplinks i).written := List.mem_flatMap.mpr
      ⟨conn, List.mem_of_getElem? found, by rw [split]; exact List.mem_append_right _ member⟩
    rw [joined.written] at written
    obtain ⟨request, -, same⟩ := List.mem_map.mp written
    exact ⟨request, same⟩
  have whole : AllWhole (fun count => (envs count).behind) 0 later := by
    intro index msg there
    obtain ⟨request, rfl⟩ := submitted msg (List.mem_of_getElem? there)
    trivial
  rw [← List.take_append_drop len conn.inFlight] at unread
  obtain ⟨read, later, rest, rfl, called, unread'⟩ :=
    unread.onRead (handler i k envs) (0, s) fits whole
  obtain ⟨requests, rfl⟩ : ∃ requests : List ReqSubMsg, requests.map ReqSubMsg.asMsg = read := by
    have each : ∀ msg ∈ read, ∃ request : ReqSubMsg, request.asMsg = msg := fun msg member =>
      submitted msg (List.mem_append_left _ member)
    exact requests_of_msgs each
  obtain ⟨done, front, takes, all⟩ := takes_all initial i k envs requests s 0
  have result : s.arrive i k len envs =
      let s' := (handleMsgs (handler i k envs) (0, s) (requests.map ReqSubMsg.asMsg)).2
      s'.setUplink i { s'.uplinks i with conns := (s'.uplinks i).conns.modify k fun conn =>
        { conn with inFlight := conn.inFlight.drop len, input := rest } } := by
    simp only [Service.arrive, found, called]
  rw [result]
  generalize (handleMsgs (handler i k envs) (0, s) (requests.map ReqSubMsg.asMsg)).2 = s'
    at takes all
  have prior : Uplink.takenOf (s.taken i) k ++ done <+: conn.written := by
    rw [split]
    exact (List.prefix_append_right_inj _).mpr (front.trans (List.prefix_append _ _))
  refine ⟨done, s', { s.uplinks i with conns := (s.uplinks i).conns.modify k fun conn =>
      { conn with inFlight := conn.inFlight.drop len, input := rest } },
    by rw [← takes.uplinks], takes, joined.ok.modify k _ fun _ => rfl, joined.conConn, ?_, ?_⟩
  · exact (Uplink.written_modify k (fun conn => { conn with
      inFlight := conn.inFlight.drop len, input := rest }) fun _ => rfl).trans joined.written
  -- a node that still runs has taken all whole requests, and what is left is the buffer's
  · refine joined.drained.take found prior _ rfl fun alive => ⟨running, ?_⟩
    obtain ⟨-, rfl⟩ := all alive
    exact ⟨later, by rw [split, List.append_assoc], unread'⟩

theorem Inv.arrive (inv : Inv initial g₀ s) {k : ℕ} (len : ℕ) (envs : ℕ → LinkEnv)
    (running : (s.net.nodes i).comp.fault = none) {conn : Conn}
    (found : (s.uplinks i).conns[k]? = some conn)
    (fits : ∀ msg ∈ s.unheard i k conn, msg.Fits) : Inv initial g₀ (s.arrive i k len envs) := by
  obtain ⟨done, s', uplink, result, takes, own⟩ := inv.takes_arrive len envs running found fits
  rw [result]
  refine ⟨inv.run.trans takes.run, ?_, ?_⟩
  · intro j
    have alive (j : Fin n) (other : j ≠ i) (running' : (s'.net.nodes j).comp.fault = none) :
        (s.net.nodes j).comp.fault = none := by
      rwa [takes.others j other] at running'
    have whole := inv.member alive own j
    rw [Function.update_eq_self] at whole
    simp only [setUplink, takes.proxies, takes.uplinks, takes.taken]
    exact whole
  -- the sum over all logs grows by what this log has got
  · have noted := takes.noted _ inv.noted
    have sum : takenRequests s' = s.takenRequests +
        (done.filterMap SysMsg.submitted : List (List UInt8)) := by
      rw [takenRequests, takes.taken]
      refine sum_update s.taken i _ (fun log =>
        ((log.filterMap fun entry => entry.2.submitted : List (List UInt8)) :
          Multiset (List UInt8))) _ ?_
      rw [List.filterMap_append, ← Multiset.coe_add, List.filterMap_map]
      rfl
    rw [← sum] at noted
    exact noted

theorem Inv.step (inv : Inv initial g₀ s) {e : ServiceEvent n} (carried : Carried s e)
    (enabled : Enabled s e) : Inv initial g₀ (s.act e) := by
  have alone {i : Fin n} (proxy : ProxyNode) (uplink : Uplink)
      (own : Joined proxy uplink (s.taken i) ((s.net.nodes i).comp.fault = none)) (j : Fin n) :
      Joined (Function.update s.proxies i proxy j) (Function.update s.uplinks i uplink j)
        (s.taken j) ((s.net.nodes j).comp.fault = none) := by
    have whole := inv.member (fun _ _ alive => alive) own j
    rwa [Function.update_eq_self] at whole
  cases e with
  | net e =>
    obtain ⟨enabled, nothing, -⟩ := enabled
    refine ⟨inv.run.step carried enabled, fun j => (inv.joined j).mono fun alive =>
      Network.running_of_act enabled alive, ?_⟩
    have noted := inv.noted.act e
    rw [nothing, add_zero] at noted
    exact noted
  | arrive j k len envs =>
    obtain ⟨⟨running, -⟩, conn, found, -⟩ := enabled
    exact inv.arrive len envs running found (carried conn found)
  | proxy j env event =>
    obtain ⟨uplink, result, own⟩ := dispatchProxy_spec env enabled.2.2 (inv.joined j)
    show Inv initial g₀ (s.dispatchProxy j env event)
    rw [result]
    exact ⟨inv.run, alone _ uplink own, inv.noted⟩
  | execute j env key junk =>
    show Inv initial g₀ (s.execute j env key junk)
    rw [execute]
    split
    next nothing => exact inv
    next value found =>
      refine ⟨inv.run, fun index => ?_, inv.noted⟩
      have whole := alone _ (s.uplinks j)
        ((inv.joined j).execute (Memory.placed (value.asRequest junk).data env.behind)) index
      rwa [Function.update_eq_self] at whole
  | bev j k event =>
    exact ⟨inv.run, alone _ _ ((inv.joined j).bev enabled.2), inv.noted⟩
  | timeout j =>
    exact ⟨inv.run, alone _ _ ((inv.joined j).timeout enabled.2), inv.noted⟩

/-- Every step of the service is a run of the network. -/
theorem Inv.net_run (inv : Inv initial g₀ s) {e : ServiceEvent n} (carried : Carried s e)
    (enabled : Enabled s e) :
    (Network.machine initial).Run Network.Carried s.net (s.act e).net := by
  cases e with
  | net e => exact Machine.Run.refl.step carried enabled.1
  | arrive j k len envs =>
    obtain ⟨⟨running, -⟩, conn, found, -⟩ := enabled
    obtain ⟨done, s', uplink, result, takes, -⟩ :=
      inv.takes_arrive len envs running found (carried conn found)
    show (Network.machine initial).Run Network.Carried s.net (s.arrive j k len envs).net
    rw [result]
    exact takes.run
  | proxy j env event =>
    obtain ⟨uplink, result, -⟩ := dispatchProxy_spec env enabled.2.2 (inv.joined j)
    show (Network.machine initial).Run Network.Carried s.net (s.dispatchProxy j env event).net
    rw [result]
    exact .refl
  | execute j env key junk =>
    show (Network.machine initial).Run Network.Carried s.net (s.execute j env key junk).net
    rw [execute]
    split
    next nothing => exact .refl
    next value found => exact .refl
  | bev j k event => exact .refl
  | timeout j => exact .refl

theorem inv_of_run (run : (machine initial).Run Carried (start g₀) s) : Inv initial g₀ s :=
  run.invariant (I := Inv initial g₀) (fun _ _ inv carried enabled => inv.step carried enabled)
    (.start initial g₀)

/-! ## Requests -/

/-- The payloads of all requests that proxies have submitted. -/
def issued (s : Service n) : Multiset (List UInt8) :=
  ∑ i, ((s.proxies i).requests.map fun request => request.msg.bytes : List (List UInt8))

/-- Each proxy's requests are submitted to its node once at most, and in their order. -/
def RequestsTaken (s : Service n) : Prop :=
  ∀ i, TakenInOrder (s.proxies i) (s.uplinks i) (s.taken i) ((s.net.nodes i).comp.fault = none)

theorem Inv.submitted_le_issued (inv : Inv initial g₀ s) (elective : ∀ i, (g₀ i).Elective) :
    Cluster.submitted s.net.history ≤ s.issued := by
  have kept := Network.kept_of_run elective inv.run
  have noted := inv.noted
  rw [Network.Noted, Network.heard_no_request kept, add_zero] at noted
  rw [Cluster.submitted, noted]
  exact sum_le_sum fun i _ => (inv.joined i).inOrder.once

/-! ## A run of a small service -/

def clientEnv : ProxyEnv := ⟨⟨5, 0⟩, ⟨5, 0⟩, 0, 0, fun _ => 0⟩

/-- What arrives is plain, and what is submitted fits its frames. -/
def CarriesPlain (s : Service n) : ServiceEvent n → Prop
  | .net e => Network.CarriesPlain s.net e
  | .arrive i k _ _ => ∀ conn ∈ (s.uplinks i).conns[k]?, ∀ msg ∈ s.unheard i k conn, msg.Fits
  | .proxy _ _ _ => True
  | .execute _ _ _ _ => True
  | .bev _ _ _ => True
  | .timeout _ => True

instance (s : Service n) : ∀ e, Decidable (CarriesPlain s e)
  | .net e => inferInstanceAs (Decidable (Network.CarriesPlain s.net e))
  | .arrive i k _ _ => inferInstanceAs (Decidable
      (∀ conn ∈ (s.uplinks i).conns[k]?, ∀ msg ∈ s.unheard i k conn, msg.Fits))
  | .proxy _ _ _ => .isTrue trivial
  | .execute _ _ _ _ => .isTrue trivial
  | .bev _ _ _ => .isTrue trivial
  | .timeout _ => .isTrue trivial

theorem CarriesPlain.carried {e : ServiceEvent n} (carries : CarriesPlain s e) : Carried s e := by
  cases e with
  | net e => exact Network.CarriesPlain.carried carries
  | arrive => exact carries
  | proxy | execute | bev | timeout => trivial

/-- A client connects to proxy 2, whose node leads: the nodes agree on the connect message, which
proxy 2 executes. -/
def clientConnects : List (ServiceEvent 3) :=
  [.net (.bev 2 1 0 .connected), .net (.bev 1 2 0 .connected), .bev 2 0 .connected,
    .net (.node 2 Network.lateLink .leaderPing),
    .net (.arrive 2 1 0 64 fun _ => Network.lateLink), .proxy 2 clientEnv (.accept 5),
    .arrive 2 0 30 fun _ => Network.lateLink, .arrive 2 0 42 fun _ => Network.lateLink,
    .net (.arrive 2 1 0 141 fun _ => Network.lateLink),
    .net (.arrive 1 2 0 40 fun _ => Network.lateLink),
    .execute 2 clientEnv (vstol ⟨1, 1⟩) ⟨⟨0, 0⟩, 0, 0, []⟩]

/-- Where that gets to. -/
def afterConnect : Service 3 := clientConnects.foldl act (start Cluster.ledByLast)

theorem clientConnects_run : (machine Cluster.Booted).Run Carried (start Cluster.ledByLast)
    afterConnect := by
  have accepted : (machine Cluster.Booted).Accepts CarriesPlain (start Cluster.ledByLast)
      clientConnects := by decide +kernel
  exact accepted.run.mono fun _ _ carries => carries.carried

/-- The nodes of the service are those of a network in which each request of a proxy is submitted
once at most, in the order of its connection. -/
theorem service_refines_network (n : ℕ) (g₀ : Cluster n) (booted : Cluster.Booted g₀)
    (s : Service n) (run : (machine Cluster.Booted).Run Carried (start g₀) s) :
    (Network.machine Cluster.Booted).Run Network.Carried (Network.start g₀) s.net ∧
      Cluster.submitted s.net.history ≤ s.issued ∧ s.RequestsTaken := by
  have inv := inv_of_run run
  exact ⟨inv.run, inv.submitted_le_issued (Network.elective_of_booted booted),
    fun i => (inv.joined i).inOrder⟩

theorem clientConnects_refines :
    ((Network.machine Cluster.Booted).Run Network.Carried (Network.start Cluster.ledByLast)
        afterConnect.net ∧
      Cluster.submitted afterConnect.net.history ≤ afterConnect.issued ∧
      afterConnect.RequestsTaken) ∧ (afterConnect.executed 2).map List.length = [56] :=
  ⟨service_refines_network 3 Cluster.ledByLast Cluster.ledByLast_booted afterConnect
    clientConnects_run, by decide +kernel⟩

end Service

end LibeventPaxos
