import LibeventPaxos.Connections
import LibeventPaxos.Lib.Ticks

/-!
The keys of connections over a set of proxies: `gen_key` packs a second, a node id and a 16-bit
count into one word, and the three fields of two accepts never agree.
-/
namespace LibeventPaxos

open Lib

namespace ProxyNode

/-! ## The fields of a key -/

/-- The three fields do not overlap. -/
theorem genKey_toNat (nodeId : UInt32) (nodeCount : UInt16) (time : UInt64)
    (small : nodeId.toNat < 4096) (early : time.toNat < 2 ^ 36) :
    (genKey nodeId nodeCount time).toNat =
      (nodeId.toNat * 2 ^ 16 + nodeCount.toNat) * 2 ^ 36 + time.toNat := by
  have count_lt := nodeCount.toNat_lt
  have high : (nodeId.toUInt64 <<< 52).toNat = nodeId.toNat <<< 52 := by
    rw [UInt64.toNat_shiftLeft, UInt32.toNat_toUInt64, Nat.shiftLeft_eq, Nat.shiftLeft_eq]
    simp only [UInt64.reduceToNat, Nat.reduceMod]
    omega
  have middle : (nodeCount.toUInt64 <<< 36).toNat = nodeCount.toNat <<< 36 := by
    rw [UInt64.toNat_shiftLeft, UInt16.toNat_toUInt64, Nat.shiftLeft_eq, Nat.shiftLeft_eq]
    simp only [UInt64.reduceToNat, Nat.reduceMod]
    omega
  have low : nodeCount.toNat <<< 36 ||| time.toNat = nodeCount.toNat * 2 ^ 36 + time.toNat := by
    rw [← Nat.shiftLeft_add_eq_or_of_lt early, Nat.shiftLeft_eq]
  have below : nodeCount.toNat * 2 ^ 36 + time.toNat < 2 ^ 52 := by omega
  rw [genKey, UInt64.toNat_or, UInt64.toNat_or, high, middle, Nat.or_comm time.toNat,
    Nat.or_assoc, Nat.or_comm time.toNat, low, ← Nat.shiftLeft_add_eq_or_of_lt below,
    Nat.shiftLeft_eq]
  omega

theorem genKey_inj {nodeId nodeId' : UInt32} {nodeCount nodeCount' : UInt16} {time time' : UInt64}
    (small : nodeId.toNat < 4096) (small' : nodeId'.toNat < 4096) (early : time.toNat < 2 ^ 36)
    (early' : time'.toNat < 2 ^ 36)
    (same : genKey nodeId nodeCount time = genKey nodeId' nodeCount' time') :
    nodeId = nodeId' ∧ nodeCount = nodeCount' ∧ time = time' := by
  have words := congrArg UInt64.toNat same
  rw [genKey_toNat nodeId nodeCount time small early,
    genKey_toNat nodeId' nodeCount' time' small' early'] at words
  have count_lt := nodeCount.toNat_lt
  have count_lt' := nodeCount'.toNat_lt
  refine ⟨UInt32.toNat_inj.mp ?_, UInt16.toNat_inj.mp ?_, UInt64.toNat_inj.mp ?_⟩ <;> omega

/-! ## What an event does to the keys -/

/-- Between the two states no key was assigned. Entries of the map stay, new ones are under keys
in `fresh`, and what was submitted is about connections in the map. -/
structure Unassigned (fresh : UInt64 → Prop) (proxy proxy' : ProxyNode) : Prop where
  nodeId : proxy'.nodeId = proxy.nodeId
  pairCount : proxy'.pairCount = proxy.pairCount
  accepted : proxy'.accepted = proxy.accepted
  stays : ∀ key, proxy.hashMap key ≠ none → proxy'.hashMap key ≠ none
  entries : ∀ key, proxy'.hashMap key ≠ none → proxy.hashMap key ≠ none ∨ fresh key
  requests : ∀ request ∈ proxy'.requests, request ∈ proxy.requests ∨
    proxy'.hashMap request.msg.connectionId ≠ none

section Unassigned

variable {fresh : UInt64 → Prop} {proxy middle after : ProxyNode} {env : ProxyEnv} {key : UInt64}

theorem Unassigned.refl (fresh : UInt64 → Prop) (proxy : ProxyNode) :
    Unassigned fresh proxy proxy :=
  ⟨rfl, rfl, rfl, fun _ => id, fun _ => .inl, fun _ => .inl⟩

theorem Unassigned.trans (first : Unassigned fresh proxy middle)
    (second : Unassigned fresh middle after) : Unassigned fresh proxy after := by
  refine ⟨second.nodeId.trans first.nodeId, second.pairCount.trans first.pairCount,
    second.accepted.trans first.accepted, fun key has => second.stays key (first.stays key has),
    ?_, ?_⟩
  · intro key has
    rcases second.entries key has with earlier | new
    · exact first.entries key earlier
    · exact .inr new
  · intro request member
    rcases second.requests request member with earlier | entry
    · exact (first.requests request earlier).imp_right (second.stays _)
    · exact .inr entry

/-- A state that differs in other fields only. -/
theorem unassigned_of_same (nodeId : after.nodeId = proxy.nodeId)
    (pairCount : after.pairCount = proxy.pairCount) (accepted : after.accepted = proxy.accepted)
    (map : after.hashMap = proxy.hashMap) (requests : after.requests = proxy.requests) :
    Unassigned fresh proxy after := by
  refine ⟨nodeId, pairCount, accepted, ?_, ?_, ?_⟩
  · intro key
    rw [map]
    exact id
  · intro key
    rw [map]
    exact .inl
  · intro request
    rw [requests]
    exact .inl

theorem unassigned_setPair (pair : SocketPair) (known : proxy.hashMap key ≠ none ∨ fresh key) :
    Unassigned fresh proxy (proxy.setPair key pair) := by
  refine ⟨rfl, rfl, rfl, ?_, ?_, fun _ => .inl⟩
  · intro other has
    simp only [setPair, Function.update_apply]
    split
    next => exact Option.some_ne_none pair
    next => exact has
  · intro other has
    simp only [setPair, Function.update_apply] at has
    split at has
    next same => rwa [same]
    next => exact .inl has

theorem unassigned_submit (msg : ProxyMsg) (entry : proxy.hashMap msg.connectionId ≠ none) :
    Unassigned fresh proxy (proxy.submit env msg) := by
  rw [submit]
  split
  next connected =>
    refine ⟨rfl, rfl, rfl, fun _ => id, fun _ => .inl, ?_⟩
    intro request member
    rcases List.mem_append.mp member with earlier | now
    · exact .inl earlier
    · rw [List.mem_singleton.mp now]
      exact .inr entry
  next lost => exact .refl fresh proxy

theorem hashMap_setPair_ne_none (pair : SocketPair) :
    (proxy.setPair key pair).hashMap key ≠ none := by
  simp [setPair]

theorem unassigned_submitPair (pair : SocketPair) (action : ProxyAction)
    (known : proxy.hashMap key ≠ none ∨ fresh key) :
    Unassigned fresh proxy (proxy.submitPair env key pair action) := by
  rw [submitPair]
  exact (unassigned_setPair _ known).trans (unassigned_submit _ (hashMap_setPair_ne_none _))

theorem unassigned_sideOnErr : Unassigned fresh proxy (proxy.sideOnErr env key) := by
  rw [sideOnErr]
  split
  next absent => exact .refl fresh proxy
  next pair found => exact unassigned_submitPair pair .close (.inl (by simp [found]))

theorem unassigned_clientProcessData (frame : List UInt8) :
    Unassigned fresh proxy (proxy.clientProcessData env key frame) := by
  rw [clientProcessData]
  split
  next absent => exact .refl fresh proxy
  next pair found =>
    have known : proxy.hashMap key ≠ none ∨ fresh key := .inl (by simp [found])
    split
    next short => exact unassigned_of_same rfl rfl rfl rfl rfl
    next whole =>
      split
      next write =>
        simp only
        split
        next fits =>
          exact (unassigned_setPair _ known).trans
            (unassigned_submit _ (hashMap_setPair_ne_none _))
        next huge => exact unassigned_of_same rfl rfl rfl rfl rfl
      next other => exact .refl fresh proxy

/-- The frames of one read, one after the other. -/
private theorem unassigned_frames (frames : List (List UInt8)) (proxy : ProxyNode) :
    Unassigned fresh proxy (frames.foldl (fun proxy frame =>
      if proxy.fault.isSome then proxy else clientProcessData env key proxy frame) proxy) := by
  induction frames generalizing proxy with
  | nil => exact .refl fresh proxy
  | cons frame frames ih =>
    rw [List.foldl_cons]
    split
    next faulty => exact ih proxy
    next running => exact (unassigned_clientProcessData frame).trans (ih _)

theorem unassigned_clientSideOnRead (chunk : List UInt8) :
    Unassigned fresh proxy (proxy.clientSideOnRead env key chunk) := by
  rw [clientSideOnRead]
  split
  next absent => exact .refl fresh proxy
  next pair found =>
    split
    next closed => exact .refl fresh proxy
    next input client =>
      simp only
      split
      next endless => exact unassigned_of_same rfl rfl rfl rfl rfl
      next frames rest read =>
        exact (unassigned_setPair _ (.inl (by simp [found]))).trans (unassigned_frames frames _)

theorem unassigned_serverSideOnRead (bytes : List UInt8) :
    Unassigned fresh proxy (proxy.serverSideOnRead key bytes) := by
  rw [serverSideOnRead]
  split
  next absent => exact .refl fresh proxy
  next pair found =>
    split
    next client => exact unassigned_of_same rfl rfl rfl rfl rfl
    next drained => exact .refl fresh proxy

theorem unassigned_issue (action : ServerAction) : Unassigned fresh proxy (proxy.issue key action) :=
  unassigned_of_same rfl rfl rfl rfl rfl

/-- An entry of the log touches the entry of its connection only. -/
theorem unassigned_execute (msg : ProxyMsg) (behind : Memory) (new : fresh msg.connectionId) :
    Unassigned fresh proxy (proxy.doActionToServer (Memory.placed msg.bytes behind)) := by
  simp only [doActionToServer, connectionIdAt_placed]
  split
  next connect =>
    rw [doActionConnect]
    have paired : Unassigned fresh proxy (proxy.setPair msg.connectionId
        ((proxy.hashMap msg.connectionId).getD ⟨0, false, none⟩)) := unassigned_setPair _ (.inr new)
    split
    next open_ => exact paired
    next closed => exact paired.trans ((unassigned_setPair _ (.inr new)).trans (unassigned_issue _))
  next send =>
    rw [doActionSend]
    split
    next absent => exact .refl fresh proxy
    next pair found =>
      split
      next server => exact unassigned_issue _
      next => exact .refl fresh proxy
  next close =>
    rw [doActionClose]
    split
    next absent => exact .refl fresh proxy
    next pair found =>
      have closed : Unassigned fresh proxy (proxy.setPair msg.connectionId
          { pair with server := false, client := none }) := unassigned_setPair _ (.inr new)
      simp only
      split
      next server => exact closed.trans (unassigned_issue _)
      next => exact closed
  next other => exact .refl fresh proxy

end Unassigned

/-- A client is accepted and gets the next key, or no key is assigned. -/
theorem dispatch_keys (proxy : ProxyNode) (env : ProxyEnv) (event : ProxyEvent) :
    (∃ sec, event = .accept sec ∧ Unassigned (· = genKey proxy.nodeId proxy.pairCount sec)
      { proxy with
        pairCount := proxy.pairCount + 1
        accepted := proxy.accepted ++ [genKey proxy.nodeId proxy.pairCount sec] }
      (proxy.dispatch (env, event))) ∨
    Unassigned (fun key => ∃ msg, event = .execute msg ∧ key = msg.connectionId) proxy
      (proxy.dispatch (env, event)) := by
  cases event with
  | connectConsensus => exact .inr (unassigned_of_same rfl rfl rfl rfl rfl)
  | loseConsensus => exact .inr (unassigned_of_same rfl rfl rfl rfl rfl)
  | accept sec =>
    have step : proxy.dispatch (env, .accept sec) = proxy.onAccept env sec := rfl
    rw [step, onAccept]
    split
    next connected => exact .inl ⟨sec, rfl, unassigned_submitPair _ .connect (.inr rfl)⟩
    next lost => exact .inr (.refl _ proxy)
  | clientRead key chunk => exact .inr (unassigned_clientSideOnRead chunk)
  | clientErr key => exact .inr unassigned_sideOnErr
  | serverRead key bytes => exact .inr (unassigned_serverSideOnRead bytes)
  | serverErr key => exact .inr unassigned_sideOnErr
  | execute msg => exact .inr (unassigned_execute msg env.behind ⟨msg, rfl, rfl⟩)

/-- A proxy has assigned one key in each of these seconds, and counted them. -/
structure Counts (proxy : ProxyNode) (secs : List UInt64) : Prop where
  pairCount : proxy.pairCount = UInt16.ofNat secs.length
  accepted : proxy.accepted =
    secs.mapIdx fun k sec => genKey proxy.nodeId (UInt16.ofNat k) sec

theorem Counts.unassigned {fresh : UInt64 → Prop} {proxy proxy' : ProxyNode} {secs : List UInt64}
    (counts : Counts proxy secs) (unassigned : Unassigned fresh proxy proxy') :
    Counts proxy' secs :=
  ⟨unassigned.pairCount.trans counts.pairCount,
    by rw [unassigned.accepted, unassigned.nodeId]; exact counts.accepted⟩

theorem Counts.assign {proxy : ProxyNode} {secs : List UInt64} (counts : Counts proxy secs)
    (sec : UInt64) :
    Counts { proxy with
      pairCount := proxy.pairCount + 1
      accepted := proxy.accepted ++ [genKey proxy.nodeId proxy.pairCount sec] }
      (secs ++ [sec]) := by
  constructor
  · rw [List.length_append, List.length_singleton]
    simp only [counts.pairCount]
    exact (UInt16.ofNat_add secs.length 1).symm
  · simp only [List.mapIdx_append, List.mapIdx_cons, List.mapIdx_nil, Nat.zero_add]
    rw [counts.accepted, counts.pairCount]

theorem Counts.getElem? {proxy : ProxyNode} {secs : List UInt64} (counts : Counts proxy secs)
    {n : ℕ} {key : UInt64} (found : proxy.accepted[n]? = some key) :
    ∃ bound : n < secs.length, key = genKey proxy.nodeId (UInt16.ofNat n) secs[n] := by
  rw [counts.accepted, List.getElem?_mapIdx, Option.map_eq_some_iff] at found
  obtain ⟨sec, there, rfl⟩ := found
  obtain ⟨bound, rfl⟩ := List.getElem?_eq_some_iff.mp there
  exact ⟨bound, rfl⟩

end ProxyNode

/-- A clock that does not go back and stays below `2^36` seconds, looked at fewer than `2^16` times
in each second. -/
structure Clocked (secs : List UInt64) : Prop where
  forward : (secs.map UInt64.toNat).Pairwise (· ≤ ·)
  early : ∀ sec ∈ secs, sec.toNat < 2 ^ 36
  few : ∀ tick, (secs.map UInt64.toNat).count tick < 2 ^ 16

theorem Clocked.sublist {secs secs' : List UInt64} (clocked : Clocked secs)
    (part : secs'.Sublist secs) : Clocked secs' :=
  ⟨clocked.forward.sublist (part.map _), fun sec member => clocked.early sec (part.subset member),
    fun tick => lt_of_le_of_lt ((part.map UInt64.toNat).count_le tick) (clocked.few tick)⟩

/-- Two keys of one proxy are keys of one accept. -/
theorem Clocked.index_eq {secs : List UInt64} (clocked : Clocked secs) {m n : ℕ}
    (hm : m < secs.length) (hn : n < secs.length) (counts : UInt16.ofNat m = UInt16.ofNat n)
    (same : secs[m] = secs[n]) : m = n := by
  have turns : m % 2 ^ 16 = n % 2 ^ 16 := by
    have words := congrArg UInt16.toNat counts
    rwa [UInt16.toNat_ofNat', UInt16.toNat_ofNat'] at words
  have length : (secs.map UInt64.toNat).length = secs.length := List.length_map ..
  have hm' : m < (secs.map UInt64.toNat).length := length ▸ hm
  have hn' : n < (secs.map UInt64.toNat).length := length ▸ hn
  have ticks : (secs.map UInt64.toNat)[m] = (secs.map UInt64.toNat)[n] := by
    rw [List.getElem_map, List.getElem_map, same]
  exact index_eq_of_tick clocked.forward clocked.few _ _ ticks turns

/-! ## A set of proxies -/

abbrev Proxies (ι : Type) := ι → ProxyNode

/-- An event at one proxy. -/
abbrev ProxiesEvent (ι : Type) := ι × ProxyEnv × ProxyEvent

namespace Proxies

variable {ι : Type} [DecidableEq ι] {nodeId : ι → UInt32} {g : Proxies ι} {i : ι}

def start (nodeId : ι → UInt32) : Proxies ι := fun i => ProxyNode.init (nodeId i)

def act (g : Proxies ι) (e : ProxiesEvent ι) : Proxies ι :=
  Function.update g e.1 ((g e.1).dispatch e.2)

def machine (nodeId : ι → UInt32) : Machine (Proxies ι) (ProxiesEvent ι) where
  initial g := g = start nodeId
  enabled g e := (g e.1).fault = none ∧ (g e.1).Offered e.2.2
  apply := act

/-- The seconds in which clients arrive at a proxy. -/
def secsAt (i : ι) (events : List (ProxiesEvent ι)) : List UInt64 :=
  events.filterMap fun e => match e.2.2 with
    | .accept sec => if e.1 = i then some sec else none
    | _ => none

theorem secsAt_append (i : ι) (before after : List (ProxiesEvent ι)) :
    secsAt i (before ++ after) = secsAt i before ++ secsAt i after := List.filterMap_append ..

/-- Every proxy has counted the keys it has assigned, in some of the seconds in which clients have
arrived. -/
theorem counts_run (nodeId : ι → UInt32) (events : List (ProxiesEvent ι)) (i : ι) :
    ∃ secs, secs.Sublist (secsAt i events) ∧
      ProxyNode.Counts (events.foldl act (start nodeId) i) secs ∧
      (events.foldl act (start nodeId) i).nodeId = nodeId i := by
  induction events using List.reverseRecOn with
  | nil => exact ⟨[], List.Sublist.refl _, ⟨rfl, rfl⟩, rfl⟩
  | append_singleton events e ih =>
    obtain ⟨secs, part, counts, id⟩ := ih
    rw [List.foldl_append, List.foldl_cons, List.foldl_nil, secsAt_append]
    generalize events.foldl act (start nodeId) = g at counts id
    obtain ⟨j, env, event⟩ := e
    by_cases here : i = j
    · subst here
      have acts : act g (i, env, event) i = (g i).dispatch (env, event) := Function.update_self ..
      rw [acts]
      rcases ProxyNode.dispatch_keys (g i) env event with ⟨sec, rfl, assigned⟩ | quiet
      · refine ⟨secs ++ [sec], part.append ?_, (counts.assign sec).unassigned assigned,
          assigned.nodeId.trans id⟩
        simp [secsAt]
      · exact ⟨secs, part.trans (List.sublist_append_left _ _), counts.unassigned quiet,
          quiet.nodeId.trans id⟩
    · have stays : act g (j, env, event) i = g i := Function.update_of_ne here ..
      rw [stays]
      exact ⟨secs, part.trans (List.sublist_append_left _ _), counts, id⟩

/-- No key is assigned twice, by one proxy or by two. -/
theorem accepted_apart (events : List (ProxiesEvent ι)) (distinct : Function.Injective nodeId)
    (small : ∀ i, (nodeId i).toNat < 4096) (clocked : ∀ i, Clocked (secsAt i events)) {i j : ι}
    {m n : ℕ} {key : UInt64}
    (here : (events.foldl act (start nodeId) i).accepted[m]? = some key)
    (there : (events.foldl act (start nodeId) j).accepted[n]? = some key) : i = j ∧ m = n := by
  obtain ⟨secs, part, counts, id⟩ := counts_run nodeId events i
  obtain ⟨secs', part', counts', id'⟩ := counts_run nodeId events j
  obtain ⟨bound, rfl⟩ := counts.getElem? here
  have early := ((clocked i).sublist part).early secs[m] (List.getElem_mem bound)
  have owner : i = j := by
    obtain ⟨bound', same⟩ := counts'.getElem? there
    have early' := ((clocked j).sublist part').early secs'[n] (List.getElem_mem bound')
    rw [id, id'] at same
    exact distinct (ProxyNode.genKey_inj (small i) (small j) early early' same).1
  subst owner
  obtain ⟨bound', same⟩ := counts.getElem? there
  have early' := ((clocked i).sublist part).early secs[n] (List.getElem_mem bound')
  rw [id] at same
  obtain ⟨-, numbers, times⟩ := ProxyNode.genKey_inj (small i) (small i) early early' same
  exact ⟨rfl, ((clocked i).sublist part).index_eq bound bound' numbers times⟩

/-! ## Entries of the maps -/

/-- Some proxy has assigned the key to a connection. -/
def Assigned (g : Proxies ι) (key : UInt64) : Prop := ∃ i, key ∈ (g i).accepted

/-- What is executed was submitted by one of the proxies. -/
def Submitted (g : Proxies ι) (e : ProxiesEvent ι) : Prop :=
  match e.2.2 with
  | .execute msg => ∃ i, ∃ request ∈ (g i).requests, request.msg = msg
  | _ => True

/-- Entries of the maps, and requests, are about connections that were accepted. -/
structure Keyed (g : Proxies ι) : Prop where
  entries : ∀ i key, (g i).hashMap key ≠ none → Assigned g key
  requests : ∀ i, ∀ request ∈ (g i).requests, Assigned g request.msg.connectionId

omit [DecidableEq ι] in
theorem keyed_start (nodeId : ι → UInt32) : Keyed (start nodeId) :=
  ⟨fun _ _ has => absurd rfl has, fun _ _ member => absurd member List.not_mem_nil⟩

theorem act_self (g : Proxies ι) (e : ProxiesEvent ι) : act g e e.1 = (g e.1).dispatch e.2 :=
  Function.update_self ..

theorem act_other (g : Proxies ι) (e : ProxiesEvent ι) (other : i ≠ e.1) : act g e i = g i :=
  Function.update_of_ne other ..

theorem Assigned.act {key : UInt64} (assigned : Assigned g key) (e : ProxiesEvent ι) :
    Assigned (act g e) key := by
  obtain ⟨i, member⟩ := assigned
  refine ⟨i, ?_⟩
  by_cases here : i = e.1
  · subst here
    rw [act_self]
    rcases ProxyNode.dispatch_keys (g e.1) e.2.1 e.2.2 with ⟨sec, -, assigns⟩ | quiet
    · rw [assigns.accepted]
      exact List.mem_append_left _ member
    · rwa [quiet.accepted]
  · rwa [act_other g e here]

theorem Keyed.act (keyed : Keyed g) (e : ProxiesEvent ι) (submitted : Submitted g e) :
    Keyed (act g e) := by
  -- the proxy that acts, by what it has added to its map
  have acts : (∀ key, ((g e.1).dispatch e.2).hashMap key ≠ none → Assigned (Proxies.act g e) key) ∧
      ∀ request ∈ ((g e.1).dispatch e.2).requests,
        request ∈ (g e.1).requests ∨
          ((g e.1).dispatch e.2).hashMap request.msg.connectionId ≠ none := by
    rcases ProxyNode.dispatch_keys (g e.1) e.2.1 e.2.2 with ⟨sec, -, assigns⟩ | quiet
    · refine ⟨fun key has => ?_, assigns.requests⟩
      rcases assigns.entries key has with earlier | rfl
      · exact (keyed.entries e.1 key earlier).act e
      · refine ⟨e.1, ?_⟩
        rw [act_self, assigns.accepted]
        exact List.mem_append_right _ (List.mem_singleton.mpr rfl)
    · refine ⟨fun key has => ?_, quiet.requests⟩
      rcases quiet.entries key has with earlier | ⟨msg, execute, rfl⟩
      · exact (keyed.entries e.1 key earlier).act e
      · simp only [Submitted, execute] at submitted
        obtain ⟨i, request, member, rfl⟩ := submitted
        exact (keyed.requests i request member).act e
  constructor
  · intro i key has
    by_cases here : i = e.1
    · subst here
      rw [act_self] at has
      exact acts.1 key has
    · rw [act_other g e here] at has
      exact (keyed.entries i key has).act e
  · intro i request member
    by_cases here : i = e.1
    · subst here
      rw [act_self] at member
      rcases acts.2 request member with earlier | entry
      · exact (keyed.requests e.1 request earlier).act e
      · exact acts.1 _ entry
    · rw [act_other g e here] at member
      exact (keyed.requests i request member).act e

/-- The next key of a proxy was never assigned before. -/
theorem next_unassigned (events : List (ProxiesEvent ι)) (distinct : Function.Injective nodeId)
    (small : ∀ i, (nodeId i).toNat < 4096) (env : ProxyEnv) (sec : UInt64)
    (clocked : ∀ j, Clocked (secsAt j (events ++ [(i, env, .accept sec)]))) :
    ¬ Assigned (events.foldl act (start nodeId))
      (ProxyNode.genKey (nodeId i) (events.foldl act (start nodeId) i).pairCount sec) := by
  rintro ⟨j, member⟩
  obtain ⟨n, found⟩ := List.mem_iff_getElem?.mp member
  obtain ⟨secs, part, counts, id⟩ := counts_run nodeId events i
  obtain ⟨secs', part', counts', id'⟩ := counts_run nodeId events j
  have arrives : (secs ++ [sec]).Sublist (secsAt i (events ++ [(i, env, .accept sec)])) := by
    rw [secsAt_append]
    exact part.append (by simp [secsAt])
  have here := (clocked i).sublist arrives
  have early := here.early sec (List.mem_append_right _ (List.mem_singleton.mpr rfl))
  rw [counts.pairCount] at found
  have owner : i = j := by
    obtain ⟨bound, same⟩ := counts'.getElem? found
    have part'' : secs'.Sublist (secsAt j (events ++ [(i, env, .accept sec)])) := by
      rw [secsAt_append]
      exact part'.trans (List.sublist_append_left _ _)
    have early' := ((clocked j).sublist part'').early secs'[n] (List.getElem_mem bound)
    rw [id'] at same
    exact distinct (ProxyNode.genKey_inj (small i) (small j) early early' same).1
  subst owner
  obtain ⟨bound, same⟩ := counts.getElem? found
  have before : n < (secs ++ [sec]).length := by
    rw [List.length_append]
    omega
  have last : secs.length < (secs ++ [sec]).length := by simp
  have early' := here.early secs[n] (List.mem_append_left _ (List.getElem_mem bound))
  rw [id] at same
  obtain ⟨-, numbers, times⟩ := ProxyNode.genKey_inj (small i) (small i) early early' same
  have index := here.index_eq last before numbers (by simp [times, List.getElem_append_left bound])
  omega

/-- In a run every key a proxy is about to assign is free. -/
theorem distinctIds_of_accepts (distinct : Function.Injective nodeId)
    (small : ∀ i, (nodeId i).toNat < 4096) (before after : List (ProxiesEvent ι))
    (clocked : ∀ i, Clocked (secsAt i (before ++ after)))
    (keyed : Keyed (before.foldl act (start nodeId)))
    (run : (machine nodeId).Accepts Submitted (before.foldl act (start nodeId)) after) :
    (machine nodeId).Accepts (fun g e => (g e.1).DistinctIds e.2)
      (before.foldl act (start nodeId)) after := by
  induction after generalizing before with
  | nil => exact trivial
  | cons e after ih =>
    obtain ⟨submitted, enabled, rest⟩ := run
    have moved : (before ++ [e]).foldl act (start nodeId) =
        act (before.foldl act (start nodeId)) e := by
      rw [List.foldl_append, List.foldl_cons, List.foldl_nil]
    have split : before ++ e :: after = before ++ [e] ++ after := by simp
    rw [split] at clocked
    have next := ih (before ++ [e]) clocked (by rw [moved]; exact keyed.act e submitted)
      (by rw [moved]; exact rest)
    rw [moved] at next
    refine ⟨?_, enabled, next⟩
    obtain ⟨i, env, event⟩ := e
    cases event with
    | accept sec =>
      have upto : ∀ j, Clocked (secsAt j (before ++ [(i, env, .accept sec)])) := fun j =>
        (clocked j).sublist (by rw [secsAt_append j _ after]; exact List.sublist_append_left _ _)
      have free := next_unassigned before distinct small env sec upto
      obtain ⟨-, -, -, id⟩ := counts_run nodeId before i
      by_contra entry
      refine free (keyed.entries i _ ?_)
      rw [← id]
      exact entry
    | connectConsensus => exact trivial
    | loseConsensus => exact trivial
    | clientRead key chunk => exact trivial
    | clientErr key => exact trivial
    | serverRead key bytes => exact trivial
    | serverErr key => exact trivial
    | execute msg => exact trivial

/-- No two connections have one key, a client never arrives where the map has an entry, and an
entry belongs to one connection. -/
theorem connection_keys_unique (nodeId : ι → UInt32) (events : List (ProxiesEvent ι))
    (distinct : Function.Injective nodeId) (small : ∀ i, (nodeId i).toNat < 4096)
    (clocked : ∀ i, Clocked (secsAt i events)) :
    (∀ (i j : ι) (m n : ℕ) (key : UInt64),
      (events.foldl act (start nodeId) i).accepted[m]? = some key →
      (events.foldl act (start nodeId) j).accepted[n]? = some key → i = j ∧ m = n) ∧
    ((machine nodeId).Accepts Submitted (start nodeId) events →
      (machine nodeId).Accepts (fun g e => (g e.1).DistinctIds e.2) (start nodeId) events ∧
      ∀ i key, (events.foldl act (start nodeId) i).hashMap key ≠ none →
        ∃! c : ι × ℕ, (events.foldl act (start nodeId) c.1).accepted[c.2]? = some key) := by
  have apart : ∀ (i j : ι) (m n : ℕ) (key : UInt64),
      (events.foldl act (start nodeId) i).accepted[m]? = some key →
      (events.foldl act (start nodeId) j).accepted[n]? = some key → i = j ∧ m = n :=
    fun i j m n key => accepted_apart events distinct small clocked
  refine ⟨apart, fun run => ⟨distinctIds_of_accepts distinct small [] events clocked
    (keyed_start nodeId) run, ?_⟩⟩
  intro i key entry
  have keyed : Keyed (events.foldl act (start nodeId)) :=
    run.run.invariant (fun g e keyed submitted _ => keyed.act e submitted) (keyed_start nodeId)
  obtain ⟨j, member⟩ := keyed.entries i key entry
  obtain ⟨n, found⟩ := List.mem_iff_getElem?.mp member
  refine ⟨(j, n), found, ?_⟩
  rintro ⟨j', n'⟩ found'
  obtain ⟨rfl, rfl⟩ := apart j' j n' n key found' found
  rfl

/-- Two clients at proxy 0 and one at proxy 1, all in second 5. -/
def arrivals : List (ProxiesEvent (Fin 2)) :=
  let env : ProxyEnv := ⟨⟨0, 0⟩, ⟨0, 0⟩, 0, 0, fun _ => 0⟩
  [(0, env, .connectConsensus), (1, env, .connectConsensus), (0, env, .accept 5),
    (1, env, .accept 5), (0, env, .accept 5)]

theorem clocked_of_length {secs : List UInt64}
    (forward : (secs.map UInt64.toNat).Pairwise (· ≤ ·))
    (early : ∀ sec ∈ secs, sec.toNat < 2 ^ 36) (short : secs.length < 2 ^ 16) : Clocked secs :=
  ⟨forward, early, fun tick => lt_of_le_of_lt List.count_le_length (by rwa [List.length_map])⟩

/-- Their keys are different ones. -/
theorem arrivals_keys_unique :
    (arrivals.foldl act (start fun i => UInt32.ofNat i.val) 0).accepted = [5, 68719476741] ∧
    (arrivals.foldl act (start fun i => UInt32.ofNat i.val) 1).accepted = [4503599627370501] ∧
    ∀ (i j : Fin 2) (m n : ℕ) (key : UInt64),
      (arrivals.foldl act (start fun i => UInt32.ofNat i.val) i).accepted[m]? = some key →
      (arrivals.foldl act (start fun i => UInt32.ofNat i.val) j).accepted[n]? = some key →
      i = j ∧ m = n := by
  refine ⟨by decide, by decide, (connection_keys_unique _ arrivals ?_ (by decide) ?_).1⟩
  · intro i j
    revert i j
    decide
  · intro i
    refine clocked_of_length (by revert i; decide) ?_ (by revert i; decide)
    have all_early : (secsAt i arrivals).all (fun sec => decide (sec.toNat < 2 ^ 36)) = true := by
      revert i
      decide
    simpa using all_early

end Proxies

end LibeventPaxos
