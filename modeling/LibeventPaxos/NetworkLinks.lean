import LibeventPaxos.NetworkRuns

/-!
The links of a network in any run, also in one where what arrives at a node is no message: a node
writes to live connections only, and can always get back the link to a peer.
-/
namespace LibeventPaxos

open Lib

namespace Network

variable {n : ℕ} {net : Network n}

/-- Every link keeps its invariant. -/
def Links (net : Network n) : Prop := ∀ i j, (net.channels i j).Sound (decide (i = j))

/-! ## Steps -/

theorem Links.setChannel (links : Links net) {i j : Fin n} {channel : Channel}
    (sound : channel.Sound (decide (i = j))) : Links (net.setChannel i j channel) := by
  intro a b
  by_cases same : a = i ∧ b = j
  · obtain ⟨rfl, rfl⟩ := same
    rw [channels_setChannel_self]
    exact sound
  · rw [channels_setChannel_other net i j channel (not_and_or.mp same)]
    exact links a b

/-- A node only writes to its own links. -/
theorem Links.dispatch (links : Links net) (i : Fin n) (env : LinkEnv) (event : NodeEvent) :
    Links (net.dispatch i env event) := by
  have sends := sends_dispatch (links i) env event
  intro a b
  by_cases same : a = i
  · rw [same]
    exact sends.sound b
  · rw [sends.others a b same]
    exact links a b

theorem Links.hear (links : Links net) (j : Fin n) (source : Fin n × ℕ) (env : LinkEnv)
    (msg : SysMsg) : Links (net.hear j source env msg) := by
  rw [Network.hear]
  split
  next running =>
    have noted : Links { net with
        heard := Function.update net.heard j (net.heard j ++ [(source, msg)]) } := links
    exact noted.dispatch j env _
  next failed => exact links

theorem Links.arrive (links : Links net) (i j : Fin n) (k len : ℕ) (envs : ℕ → LinkEnv) :
    Links (net.arrive i j k len envs) :=
  arrive_invariant i k len envs (fun _ env msg before => before.hear j (i, k) env msg)
    (fun _ before => before) (fun _ f before same => before.setChannel ((before i j).modify k f same))
    links

theorem Links.other {i j : Fin n} (links : Links net) (other : i ≠ j) : (net.channels i j).Ok := by
  have sound := links i j
  rwa [decide_eq_false other] at sound

/-- A node has no link to itself, so nothing happens on it. -/
theorem Links.own (links : Links net) (i : Fin n) : net.channels i i = .start true := by
  have sound := links i i
  rwa [decide_eq_true rfl] at sound

theorem Links.step (links : Links net) {e : NetworkEvent n} (enabled : Enabled net e) :
    Links (net.act e) := by
  have alone {i j : Fin n} (happens : net.channels i j ≠ .start true) : i ≠ j := by
    rintro rfl
    exact happens (links.own i)
  cases e with
  | node i env event => exact links.dispatch i env event
  | arrive i j k len envs => exact links.arrive i j k len envs
  | bev i j k event =>
    have other : i ≠ j := by
      apply alone
      intro start
      have raises := enabled.2
      rw [start] at raises
      cases event with
      | connected | lost =>
        obtain ⟨conn, found, -⟩ := raises
        cases found
    refine links.setChannel ?_
    rw [decide_eq_false other]
    exact (links.other other).onEvent enabled.2
  | timeout i j =>
    have other : i ≠ j := by
      apply alone
      intro start
      have due := enabled.2
      rw [start] at due
      cases due
    refine links.setChannel ?_
    rw [decide_eq_false other]
    exact (links.other other).onTimeout enabled.2

theorem links_of_reaches {initial : Cluster n → Prop}
    {guard : Network n → NetworkEvent n → Prop} (reached : (machine initial).Reaches guard net) :
    Links net := by
  apply reached.invariant
  · rintro net ⟨nodes, -, rfl⟩ i j
    exact Channel.sound_start _
  · intro net e links _ enabled
    exact links.step enabled

/-! ## Reconnecting -/

/-- A node that runs can make its link to a peer active by its own timer and a connection that
succeeds, and changes nothing else. -/
def Recovers (initial : Cluster n → Prop) (net : Network n) (i j : Fin n) : Prop :=
  ∃ events : List (NetworkEvent n), events.length ≤ 2 ∧
    (machine initial).Accepts Machine.anything net events ∧
    ((events.foldl act net).channels i j).peer.active = true ∧
    (events.foldl act net).nodes = net.nodes

theorem recovers_of_connecting (initial : Cluster n → Prop) {i j : Fin n}
    (running : (net.nodes i).comp.fault = none) {older : List Conn} {conn : Conn}
    (connecting : conn.status = .connecting)
    (newest : (net.channels i j).conns = older ++ [conn]) :
    (machine initial).Accepts Machine.anything net [.bev i j older.length .connected] ∧
      ((net.act (.bev i j older.length .connected)).channels i j).peer.active = true := by
  have found : (net.channels i j).conns[older.length]? = some conn := by
    rw [newest]
    exact Channel.getElem?_newest older conn
  refine ⟨⟨trivial, ⟨running, conn, found, connecting⟩, trivial⟩, ?_⟩
  simp only [act, channels_setChannel_self]
  rfl

theorem Links.recovers (links : Links net) (initial : Cluster n → Prop) {i j : Fin n}
    (other : i ≠ j) (running : (net.nodes i).comp.fault = none) : Recovers initial net i j := by
  have ok := links.other other
  generalize here : net.channels i j = channel at ok
  cases ok with
  | waiting conns freed =>
    -- the timer is armed, and connects the peer again
    have due : (net.channels i j).peer.reconnect = .pending := by rw [here]
    have running' : ((net.act (.timeout i j)).nodes i).comp.fault = none := running
    have newest : ((net.act (.timeout i j)).channels i j).conns = conns ++ [.fresh] := by
      simp only [act, channels_setChannel_self, here]
      rfl
    obtain ⟨accepted, active⟩ := recovers_of_connecting initial running' rfl newest
    exact ⟨[.timeout i j, .bev i j conns.length .connected], le_refl 2,
      ⟨trivial, ⟨running, due⟩, accepted⟩, active, rfl⟩
  | live older conn freed alive =>
    by_cases connected : conn.status = .connected
    · exact ⟨[], Nat.zero_le 2, trivial, by rw [List.foldl_nil, here]; exact decide_eq_true connected,
        rfl⟩
    · have connecting : conn.status = .connecting := by
        cases status : conn.status with
        | connecting => rfl
        | connected => exact absurd status connected
        | freed => exact absurd status alive
      obtain ⟨accepted, active⟩ := recovers_of_connecting initial running connecting
        (congrArg Channel.conns here)
      exact ⟨[.bev i j older.length .connected], Nat.le_succ 1, accepted, active, rfl⟩

/-- The link from a node to another: what is written to it does not fail, and it can be made active
again. -/
structure Linked (initial : Cluster n → Prop) (net : Network n) (i j : Fin n) : Prop where
  ok : (net.channels i j).Ok
  writes : ∀ msg padding, ∃ channel, (net.channels i j).send msg (msg.frame padding) = .ok channel
  recovers : (net.nodes i).comp.fault = none → Recovers initial net i j

/-- In any run, whatever arrives, a node never writes to a connection that is gone, and it never
loses a peer for good. -/
theorem links_recover (n : ℕ) (initial : Cluster n → Prop) (net : Network n)
    (reached : (machine initial).Reaches Machine.anything net) (i j : Fin n) (other : i ≠ j) :
    Linked initial net i j := by
  have links := links_of_reaches reached
  refine ⟨links.other other, fun msg padding => ?_, links.recovers initial other⟩
  have encodes : Encodes msg (msg.frame padding) := ⟨padding, rfl⟩
  obtain ⟨channel, sent, -, -⟩ := (links i j).send encodes
  exact ⟨channel, sent⟩

/-- Node 0 has connected to node 1 and has lost the connection. -/
theorem lost_link_recovers :
    let nodes : Cluster 2 := fun i => Node.init true i 2 ⟨8, 0⟩ ⟨0, 0⟩ Node.lateEnv
    let net := [.bev 0 1 0 .connected, .bev 0 1 0 .lost].foldl act (start nodes)
    Linked (fun _ => True) net 0 1 ∧ (net.channels 0 1).peer.active = false := by
  intro nodes net
  have accepted : (machine fun _ => True).Accepts Machine.anything (start nodes)
      [.bev 0 1 0 .connected, .bev 0 1 0 .lost] := by decide +kernel
  have reached : (machine fun _ => True).Reaches Machine.anything net :=
    ⟨start nodes, ⟨nodes, trivial, rfl⟩, accepted.run⟩
  exact ⟨links_recover 2 (fun _ => True) net reached 0 1 (by decide), rfl⟩

end Network

end LibeventPaxos
