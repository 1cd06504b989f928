import LibeventPaxos.AcceptorMemory

/-!
What a proposer asks for under one number: one content, as long as a check that finds a majority
again finds what the check before it found.
-/
namespace LibeventPaxos

open Lib

namespace LeleMod

/-! ## Which record the proposer picks -/

/-- The record of `k` is the one `proposer_check_prepare` picks among the first `m`: it has the
highest number of those that answer the round, and the others with that number come later. -/
def Picked (n : ℕ) (mod : LeleMod) (m k : ℕ) : Prop :=
  (mod.proposerArr k).pPnum = mod.origin n ∧ -1 < (mod.proposerArr k).aPnum ∧
    ∀ j < m, mod.Answered n j →
      (j < k → (mod.proposerArr j).aPnum < (mod.proposerArr k).aPnum) ∧
      (k < j → (mod.proposerArr j).aPnum ≤ (mod.proposerArr k).aPnum)

instance (n : ℕ) (mod : LeleMod) (m k : ℕ) : Decidable (mod.Picked n m k) :=
  inferInstanceAs (Decidable (_ ∧ _ ∧ _))

theorem Picked.unique {n m : ℕ} {mod : LeleMod} {j k : ℕ} (first : mod.Picked n m j)
    (second : mod.Picked n m k) (inside : j < m) (inside' : k < m) : j = k := by
  have answered : ∀ {l : ℕ}, mod.Picked n m l → mod.Answered n l := fun picked =>
    ⟨picked.1, picked.2.1.ne'⟩
  have left := first.2.2 k inside' (answered second)
  have right := second.2.2 j inside (answered first)
  omega

/-- The scan ends with the record it picks, or with none. -/
theorem prepareScan_picked (n : ℕ) (mod : LeleMod) (m : ℕ) :
    let found := (List.range m).foldl (mod.prepareStep n) (0, -1, -1)
    (found.2 = (-1, -1) ∧ ∀ k < m, mod.Answered n k → (mod.proposerArr k).aPnum ≤ -1) ∨
      ∃ k < m, mod.Picked n m k ∧
        found.2 = ((mod.proposerArr k).aPnum, (mod.proposerArr k).content) := by
  induction m with
  | zero => exact .inl ⟨rfl, fun k inside => absurd inside (Nat.not_lt_zero k)⟩
  | succ m ih =>
    rw [List.range_succ, List.foldl_append]
    generalize (List.range m).foldl (mod.prepareStep n) (0, -1, -1) = found at ih
    simp only [List.foldl_cons, List.foldl_nil]
    -- the record that is scanned last replaces what was found only if its number is higher
    rcases ih with ⟨nothing, low⟩ | ⟨k, inside, picked, result⟩
    · rw [prepareStep_snd n mod found m (by rw [nothing])]
      rw [nothing]
      by_cases higher : mod.Answered n m ∧ -1 < (mod.proposerArr (m : ℕ)).aPnum
      · rw [if_pos higher]
        refine .inr ⟨m, Nat.lt_succ_self m, ⟨higher.1.1, higher.2, fun j before answered => ?_⟩, rfl⟩
        refine ⟨fun earlier => ?_, fun later => absurd before (by omega)⟩
        exact (low j earlier answered).trans_lt higher.2
      · rw [if_neg higher]
        refine .inl ⟨rfl, fun j before answered => ?_⟩
        rcases Nat.lt_succ_iff_lt_or_eq.mp before with earlier | rfl
        · exact low j earlier answered
        · exact not_lt.mp fun above => higher ⟨answered, above⟩
    · have bounded : -1 ≤ found.2.1 := by
        rw [result]
        exact picked.2.1.le
      rw [prepareStep_snd n mod found m bounded, result]
      by_cases higher : mod.Answered n m ∧
          (mod.proposerArr (k : ℕ)).aPnum < (mod.proposerArr (m : ℕ)).aPnum
      · rw [if_pos higher]
        have above := picked.2.1.trans higher.2
        refine .inr ⟨m, Nat.lt_succ_self m, ⟨higher.1.1, above, fun j before answered => ?_⟩, rfl⟩
        refine ⟨fun earlier => ?_, fun later => absurd before (by omega)⟩
        have known := picked.2.2 j earlier answered
        rcases lt_trichotomy j k with less | rfl | more
        · exact (known.1 less).trans higher.2
        · exact higher.2
        · exact (known.2 more).trans_lt higher.2
      · rw [if_neg higher]
        refine .inr ⟨k, inside.trans (Nat.lt_succ_self m), ⟨picked.1, picked.2.1,
          fun j before answered => ?_⟩, rfl⟩
        rcases Nat.lt_succ_iff_lt_or_eq.mp before with earlier | rfl
        · exact picked.2.2 j earlier answered
        · exact ⟨fun less => absurd inside less.not_gt,
            fun _ => not_lt.mp fun above => higher ⟨answered, above⟩⟩

/-- The proposer's own record is picked and has a content. -/
def OwnLeads (n own : ℕ) (mod : LeleMod) : Prop :=
  mod.Picked n n own ∧ (mod.proposerArr (own : ℕ)).content ≠ -1

instance (n own : ℕ) (mod : LeleMod) : Decidable (mod.OwnLeads n own) :=
  inferInstanceAs (Decidable (_ ∧ _))

/-- With no content in the records of the others, the check finds the proposer's own or none. -/
theorem proposerCheckPrepare_own (n own : ℕ) (mod : LeleMod) (inside : own < n)
    (others : ∀ k : ℕ, k < n → k ≠ own → mod.Answered n k → (mod.proposerArr k).content = -1)
    (content : NodeId) (found : mod.proposerCheckPrepare n = some content) :
    content = if mod.OwnLeads n own then (mod.proposerArr own).content else -1 := by
  have scanned := prepareScan_picked n mod n
  have result : content = ((List.range n).foldl (mod.prepareStep n) (0, -1, -1)).2.2 := by
    simp only [proposerCheckPrepare] at found
    split at found
    next => exact (Option.some.inj found).symm
    next => cases found
  rw [result]
  rcases scanned with ⟨nothing, low⟩ | ⟨k, inside', picked, same⟩
  · rw [nothing, if_neg]
    rintro ⟨own, -⟩
    exact absurd own.2.1 (low _ inside ⟨own.1, own.2.1.ne'⟩).not_gt
  · rw [same]
    by_cases isOwn : k = own
    · subst isOwn
      by_cases none : (mod.proposerArr (k : ℕ)).content = -1
      · rw [none, ite_self]
      · rw [if_pos ⟨picked, none⟩]
    · rw [if_neg fun leads => isOwn (picked.unique leads.1 inside' inside)]
      exact others k inside' isOwn ⟨picked.1, picked.2.1.ne'⟩

/-- Some record answers the round of a check that finds a majority. -/
theorem proposerCheckPrepare_answered (n : ℕ) (mod : LeleMod) (content : NodeId)
    (found : mod.proposerCheckPrepare n = some content) : ∃ k : Fin n, mod.Answered n (k : ℕ) := by
  have majority := proposerCheckPrepare_majority n mod content found
  obtain ⟨k, member, -⟩ := majority.meet majority
  exact ⟨k, (Finset.mem_filter.mp member).2⟩

end LeleMod

namespace Voting

open Node (Mine)

variable {n : ℕ} {i : Fin n}

/-! ## What a proposer asks for -/

/-- The numbers of a node are `n` apart. -/
theorem mine_previous {b : Int} (mine : Mine n i (b + n)) (positive : 0 < b) : Mine n i b := by
  obtain ⟨round, same⟩ := mine
  have inGroup := i.isLt
  cases round with
  | zero =>
    rw [Nat.cast_zero, mul_zero] at same
    omega
  | succ round =>
    refine ⟨round, ?_⟩
    rw [Nat.cast_succ, mul_add, mul_one] at same
    omega

/-- If the check finds a majority although the node has asked under this number for a node other
than itself, it still picks the proposer's own record. -/
def Steady (i : Fin n) (v : Voting) : Prop :=
  v.mod.proposerCheckPrepare n ≠ none → ∀ msg ∈ v.said, msg.type = .accept →
    msg.nextView = v.mod.nextView → msg.pnum = v.mod.origin n → msg.content ≠ (i : ℕ) →
    v.mod.OwnLeads n i

instance (v : Voting) : Decidable (Steady i v) :=
  inferInstanceAs (Decidable (_ → ∀ msg ∈ v.said, _ → _ → _ → _ → _))

/-- The current round is not above what the acceptor has seen. -/
def Settled (n : ℕ) (v : Voting) : Prop :=
  v.begun = true → v.mod.origin n ≤ v.mod.acceptor.highestSeenPnum

/-- What is known of a proposer whose checks are steady; `others k` are the votes node `k` has
sent. An acceptor answers every number once, so a record of another node does not change within a
round; and what was asked for while the proposer's own record was picked is its content. -/
structure Proposer (i : Fin n) (others : Fin n → LeleMsg → Prop) (v : Voting) : Prop where
  memory : Memory i v
  nextPnum : v.begun = true → Mine n i v.mod.nextPnum
  acks : ∀ msg ∈ v.said, msg.type = .prepareAck → msg.content = -1 ∧ 0 < msg.pPnum
  once : ∀ msg ∈ v.said, ∀ msg' ∈ v.said, msg.type = .prepareAck → msg'.type = .prepareAck →
    msg.pPnum = msg'.pPnum → msg.pnum = msg'.pnum
  entries : v.begun = true → ∀ k : Fin n, k ≠ i →
    (v.mod.proposerArr ((k : ℕ) : Int)).aPnum ≠ -1 →
    (v.mod.proposerArr ((k : ℕ) : Int)).content = -1 ∧
      ∃ ack, others k ack ∧ ack.type = .prepareAck ∧
        ack.pPnum = (v.mod.proposerArr ((k : ℕ) : Int)).pPnum ∧
        ack.pnum = (v.mod.proposerArr ((k : ℕ) : Int)).aPnum
  ownRound : v.begun = true → (v.own i).aPnum ≠ -1 →
    0 < (v.own i).pPnum ∧ (v.own i).pPnum ≤ v.mod.origin n
  accepts : ∀ msg ∈ v.said, msg.type = .accept →
    Mine n i msg.pnum ∧ msg.pnum ≤ v.mod.acceptor.highestSeenPnum
  standing : v.begun = true → v.mod.Answered n (i : ℕ) → ∀ msg ∈ v.said, msg.type = .accept →
    msg.pnum = v.mod.origin n → v.mod.OwnLeads n i ∨ msg.content ≠ (i : ℕ) →
    msg.content = (v.own i).content
  agreed : ∀ msg ∈ v.said, ∀ msg' ∈ v.said, msg.type = .accept → msg'.type = .accept →
    msg.nextView = msg'.nextView → msg.pnum = msg'.pnum → msg.content = msg'.content

/-- What other nodes send. -/
structure Correspondents (i : Fin n) (others : Fin n → LeleMsg → Prop)
    (heard : LeleMsg → Prop) : Prop where
  peer : ∀ msg, heard msg → Peer i msg
  sender : ∀ msg, heard msg → msg.type = .prepareAck →
    ∃ k : Fin n, k ≠ i ∧ msg.nodeId = ((k : ℕ) : Int) ∧ others k msg
  acks : ∀ k msg, others k msg → msg.type = .prepareAck → msg.content = -1 ∧ 0 < msg.pPnum
  once : ∀ k msg msg', others k msg → others k msg' → msg.type = .prepareAck →
    msg'.type = .prepareAck → msg.pPnum = msg'.pPnum → msg.pnum = msg'.pnum

section Steps

variable {others : Fin n → LeleMsg → Prop} {heard : LeleMsg → Prop} {v v' : Voting}

/-- Records and round are those of before, and no PREPARE_ACK and no ACCEPT is sent. -/
theorem Proposer.frame (proposer : Proposer i others v) (memory : Memory i v')
    (begun : v'.begun = v.begun) (nextPnum : v'.mod.nextPnum = v.mod.nextPnum)
    (records : v'.mod.proposerArr = v.mod.proposerArr)
    (seen : v.mod.acceptor.highestSeenPnum ≤ v'.mod.acceptor.highestSeenPnum)
    (said : ∀ msg ∈ v'.said, msg.type = .prepareAck ∨ msg.type = .accept → msg ∈ v.said) :
    Proposer i others v' := by
  have origin : v'.mod.origin n = v.mod.origin n := by rw [LeleMod.origin, nextPnum]; rfl
  have answered : ∀ k, v'.mod.Answered n k ↔ v.mod.Answered n k := by
    intro k
    rw [LeleMod.Answered, LeleMod.Answered, records, origin]
  have leads : v'.mod.OwnLeads n i ↔ v.mod.OwnLeads n i := by
    simp only [LeleMod.OwnLeads, LeleMod.Picked, answered, records, origin]
  have own : v'.own i = v.own i := by rw [Voting.own, records]; rfl
  refine ⟨memory, ?_, ?_, ?_, ?_, ?_, ?_, ?_, ?_⟩
  · rw [begun, nextPnum]
    exact proposer.nextPnum
  · exact fun msg member type => proposer.acks msg (said msg member (.inl type)) type
  · intro msg member msg' member' type type'
    exact proposer.once msg (said msg member (.inl type)) msg' (said msg' member' (.inl type'))
      type type'
  · rw [begun, records]
    exact proposer.entries
  · rw [begun, own, origin]
    exact proposer.ownRound
  · intro msg member type
    obtain ⟨mine, below⟩ := proposer.accepts msg (said msg member (.inr type)) type
    exact ⟨mine, below.trans seen⟩
  · rw [begun, answered, leads, own, origin]
    exact fun begun answered msg member type =>
      proposer.standing begun answered msg (said msg member (.inr type)) type
  · intro msg member msg' member' type type'
    exact proposer.agreed msg (said msg member (.inr type)) msg' (said msg' member' (.inr type'))
      type type'

theorem Proposer.say {type : LeleType} {msg : LeleMsg} (proposer : Proposer i others v)
    (vote : Vote (i : ℕ) v type msg) (other : type ≠ .prepareAck ∧ type ≠ .accept)
    (content : type = .prepare → msg.content = -1) : Proposer i others (v.say msg) := by
  have memory := proposer.memory.say vote content (fun same => absurd same other.2)
    fun same => absurd same other.1
  refine proposer.frame memory rfl rfl rfl le_rfl fun msg' member asks => ?_
  rcases mem_say member with old | rfl
  · exact old
  · rw [vote.type] at asks
    rcases asks with same | same
    · exact absurd same other.1
    · exact absurd same other.2

theorem Proposer.learn (proposer : Proposer i others v) (k : NodeId) (pnum : Int)
    (content : NodeId) : Proposer i others (v.learn k pnum content) :=
  proposer.frame (proposer.memory.learn k pnum content) rfl rfl rfl le_rfl fun _ member _ => member

/-- The number of a round that has been answered is one of the node's. -/
theorem Proposer.origin_mine (proposer : Proposer i others v)
    (known : Correspondents i others heard) (begun : v.begun = true) (content : NodeId)
    (found : v.mod.proposerCheckPrepare n = some content) : Mine n i (v.mod.origin n) := by
  have next := proposer.nextPnum begun
  have positive : 0 < v.mod.origin n := by
    obtain ⟨k, round, answered⟩ := v.mod.proposerCheckPrepare_answered n content found
    by_cases own : k = i
    · subst own
      exact round ▸ (proposer.ownRound begun answered).1
    · obtain ⟨-, ack, sent, isAck, pPnum, -⟩ := proposer.entries begun k own answered
      rw [← round, ← pPnum]
      exact (known.acks k ack sent isAck).2
  refine mine_previous ?_ positive
  rwa [LeleMod.origin, Int.sub_add_cancel]

/-- What the proposer chooses. -/
theorem Proposer.chosen (proposer : Proposer i others v) (begun : v.begun = true)
    (content : NodeId) (found : v.mod.proposerCheckPrepare n = some content) :
    (v.mod.OwnLeads n i ∧ choice (i : ℕ) content = (v.own i).content) ∨
      (¬ v.mod.OwnLeads n i ∧ choice (i : ℕ) content = (i : ℕ)) := by
  have others : ∀ k : ℕ, k < n → k ≠ i → v.mod.Answered n k →
      (v.mod.proposerArr k).content = -1 := by
    intro k inside other answered
    have isOther : (⟨k, inside⟩ : Fin n) ≠ i := fun same => other (congrArg Fin.val same)
    exact (proposer.entries begun ⟨k, inside⟩ isOther answered.2).1
  have result := v.mod.proposerCheckPrepare_own n i i.isLt others content found
  by_cases leads : v.mod.OwnLeads n i
  · rw [if_pos leads] at result
    refine .inl ⟨leads, ?_⟩
    rw [choice, if_neg (result ▸ leads.2), result]
    rfl
  · rw [if_neg leads] at result
    exact .inr ⟨leads, by rw [choice, if_pos result]⟩

/-- The second phase: what is asked for is what was asked for under this number before. -/
theorem Proposer.ask (proposer : Proposer i others v) (known : Correspondents i others heard)
    (begun : v.begun = true) (content : NodeId) (msg : LeleMsg)
    (vote : Vote (i : ℕ) v .accept msg) (found : v.mod.proposerCheckPrepare n = some content)
    (pnum : msg.pnum = v.mod.origin n) (chosen : msg.content = choice (i : ℕ) content)
    (seen : v.mod.origin n ≤ v.mod.acceptor.highestSeenPnum)
    (steady : ∀ msg ∈ v.said, msg.type = .accept → msg.nextView = v.mod.nextView →
      msg.pnum = v.mod.origin n → msg.content ≠ (i : ℕ) → v.mod.OwnLeads n i) :
    Proposer i others ((v.learn (i : ℕ) msg.pnum msg.content).say msg) := by
  have learned := proposer.learn (i : ℕ) msg.pnum msg.content
  have cases := proposer.chosen begun content found
  rw [← chosen] at cases
  -- an earlier message under this number asks for the same content
  have repeats : ∀ old ∈ v.said, old.type = .accept → old.nextView = msg.nextView →
      old.pnum = msg.pnum → old.content = msg.content := by
    intro old member type view round
    have standing := fun answered => proposer.standing begun answered old member type
      (round.trans pnum)
    rcases cases with ⟨leads, same⟩ | ⟨trails, same⟩
    · rw [same]
      exact standing ⟨leads.1.1, leads.1.2.1.ne'⟩ (.inl leads)
    · rw [same]
      by_contra other
      exact trails (steady old member type (view.trans vote.nextView) (round.trans pnum) other)
  have memory := learned.memory.say ⟨vote.type, vote.nodeId, vote.nextView⟩ (by simp)
    (fun _ => chosen ▸ choice_ne i content) (by simp)
  refine { learned with memory := memory, acks := ?_, once := ?_, accepts := ?_, standing := ?_,
                        agreed := ?_ }
  · intro msg' member type
    rcases mem_say member with old | rfl
    · exact proposer.acks msg' old type
    · exact absurd (vote.type.symm.trans type) (by simp)
  · intro msg' member msg'' member' type type'
    rcases mem_say member with old | rfl
    · rcases mem_say member' with old' | rfl
      · exact proposer.once msg' old msg'' old' type type'
      · exact absurd (vote.type.symm.trans type') (by simp)
    · exact absurd (vote.type.symm.trans type) (by simp)
  · intro msg' member type
    rcases mem_say member with old | rfl
    · exact proposer.accepts msg' old type
    · rw [pnum]
      exact ⟨proposer.origin_mine known begun content found, seen⟩
  · intro begun' answered msg' member type round asks
    rcases mem_say member with old | rfl
    · exact proposer.standing begun' answered msg' old type round asks
    · rcases cases with ⟨-, same⟩ | ⟨trails, same⟩
      · exact same
      · rcases asks with leads | other
        · exact absurd leads trails
        · exact absurd same other
  · intro msg' member msg'' member' type type' view round
    rcases mem_say member with old | rfl
    · rcases mem_say member' with old' | rfl
      · exact proposer.agreed msg' old msg'' old' type type' view round
      · exact repeats msg' old type view round
    · rcases mem_say member' with old' | rfl
      · exact (repeats msg'' old' type' view.symm round.symm).symm
      · rfl

/-- The round that begins is above every number the node has asked for. -/
theorem Proposer.promiseOwn (proposer : Proposer i others v)
    (higher : v.mod.acceptor.highestSeenPnum < v.mod.origin n) :
    Proposer i others (v.promiseOwn n (i : ℕ)) := by
  have memory := proposer.memory.promiseOwn higher
  have bounds := proposer.memory.bounds
  have own : (v.promiseOwn n (i : ℕ)).own i =
      ⟨v.mod.origin n, v.mod.acceptor.acceptedPnum, v.mod.acceptor.content⟩ := by
    simp only [Voting.own, Voting.promiseOwn, Function.update_self]
  refine { proposer with memory := memory, entries := ?_, ownRound := ?_, accepts := ?_,
                         standing := ?_ }
  · intro begun k other
    have entry : (v.promiseOwn n (i : ℕ)).mod.proposerArr ((k : ℕ) : Int) =
        v.mod.proposerArr ((k : ℕ) : Int) := by
      refine Function.update_of_ne (fun same => other (Fin.ext ?_)) _ _
      exact Int.ofNat_inj.mp same
    rw [entry]
    exact proposer.entries begun k other
  · intro _ _
    rw [own]
    exact ⟨bounds.2.trans_lt higher, le_rfl⟩
  · intro msg member type
    obtain ⟨mine, below⟩ := proposer.accepts msg member type
    exact ⟨mine, below.trans higher.le⟩
  · intro _ _ msg member type round
    have below := (proposer.accepts msg member type).2
    rw [round] at below
    exact absurd higher below.not_gt

/-- An answer replaces the record of its sender only by itself within a round. -/
theorem Proposer.answer (proposer : Proposer i others v) (known : Correspondents i others heard)
    {msg : LeleMsg} (hears : Hears heard v .prepareAck msg)
    (round : msg.pPnum = v.mod.origin n) (memory : Memory i (v.answer n msg)) :
    Proposer i others (v.answer n msg) := by
  obtain ⟨sender, other, nodeId, sent⟩ := known.sender msg hears.heard hears.type
  have entry : ∀ k : Fin n, (v.answer n msg).mod.proposerArr ((k : ℕ) : Int) =
      if k = sender then ⟨v.mod.origin n, msg.pnum, msg.content⟩
      else v.mod.proposerArr ((k : ℕ) : Int) := by
    intro k
    simp only [Voting.answer, nodeId]
    split
    next same =>
      subst same
      exact Function.update_self ..
    next same =>
      refine Function.update_of_ne (fun equal => same (Fin.ext ?_)) _ _
      exact Int.ofNat_inj.mp equal
  have own : (v.answer n msg).own i = v.own i := by
    rw [Voting.own, entry i, if_neg other.symm]
    rfl
  refine { proposer with memory := memory, entries := ?_, ownRound := ?_, standing := ?_ }
  · intro begun k isOther
    rw [entry k]
    split
    next same =>
      subst same
      exact fun _ => ⟨(known.acks k msg sent hears.type).1, msg, sent, hears.type, round, rfl⟩
    next => exact proposer.entries begun k isOther
  · rw [own]
    exact proposer.ownRound
  · intro begun answered old member type same asks
    have ownAnswered : v.mod.Answered n (i : ℕ) := by
      have unchanged := entry i
      rw [if_neg other.symm] at unchanged
      rw [LeleMod.Answered, unchanged] at answered
      exact answered
    rw [own]
    refine proposer.standing begun ownAnswered old member type same (asks.imp_left ?_)
    -- a record that answered the round before still does, with the same number
    rintro ⟨⟨round', above, first⟩, set⟩
    have unchanged := entry i
    rw [if_neg other.symm] at unchanged
    rw [unchanged] at round' above set
    refine ⟨⟨round', above, fun j inside answers => ?_⟩, set⟩
    have kept : (v.answer n msg).mod.Answered n j ∧
        ((v.answer n msg).mod.proposerArr j).aPnum = (v.mod.proposerArr j).aPnum := by
      have entry' := entry ⟨j, inside⟩
      by_cases isSender : (⟨j, inside⟩ : Fin n) = sender
      · rw [if_pos isSender] at entry'
        have isOther : (⟨j, inside⟩ : Fin n) ≠ i := isSender ▸ other
        obtain ⟨-, ack, sent', isAck, pPnum, pnum⟩ :=
          proposer.entries begun ⟨j, inside⟩ isOther answers.2
        rw [isSender] at sent'
        have equal : msg.pnum = ack.pnum := known.once sender msg ack sent sent' hears.type isAck
          (round.trans (answers.1.symm.trans pPnum.symm))
        have number : msg.pnum = (v.mod.proposerArr (j : ℕ)).aPnum := equal.trans pnum
        rw [LeleMod.Answered, entry']
        exact ⟨⟨rfl, number ▸ answers.2⟩, number⟩
      · rw [if_neg isSender] at entry'
        rw [LeleMod.Answered, entry']
        exact ⟨answers, rfl⟩
    have before := first j inside kept.1
    rw [kept.2, unchanged] at before
    exact before

/-- A number is answered once: it is above all that were answered before. -/
theorem Proposer.promise (proposer : Proposer i others v) {msg ack : LeleMsg}
    (memory : Memory i ((v.promise msg.pnum msg.content).say ack))
    (higher : v.mod.acceptor.highestSeenPnum < msg.pnum) (vote : Vote (i : ℕ) v .prepareAck ack)
    (content : ack.content = -1) (pPnum : ack.pPnum = msg.pnum) :
    Proposer i others ((v.promise msg.pnum msg.content).say ack) := by
  have bounds := proposer.memory.bounds
  -- promises are made under growing numbers, so no number is promised twice
  have older : ∀ old ∈ v.said, old.type = .prepareAck → old.pPnum < ack.pPnum := by
    intro old member type
    have below := proposer.memory.promised _ (.inl ⟨old, member, type, rfl⟩)
    exact below.trans_lt (pPnum ▸ higher)
  -- the message that is new is no proposal, so what holds of proposals is as before
  have notAccept : ∀ msg' ∈ ((v.promise msg.pnum msg.content).say ack).said,
      msg'.type = .accept → msg' ∈ v.said := by
    intro msg' member type
    rcases mem_say member with old | rfl
    · exact old
    · exact absurd (vote.type.symm.trans type) (by simp)
  refine { proposer with memory := memory, acks := ?_, once := ?_, accepts := ?_, standing := ?_,
                         agreed := ?_ }
  · intro msg' member type
    rcases mem_say member with old | rfl
    · exact proposer.acks msg' old type
    · exact ⟨content, pPnum ▸ bounds.2.trans_lt higher⟩
  · intro msg' member msg'' member' type type' same
    rcases mem_say member with old | rfl
    · rcases mem_say member' with old' | rfl
      · exact proposer.once msg' old msg'' old' type type' same
      · exact absurd same (older msg' old type).ne
    · rcases mem_say member' with old' | rfl
      · exact absurd same (older msg'' old' type').ne'
      · rfl
  · intro msg' member type
    obtain ⟨mine, below⟩ := proposer.accepts msg' (notAccept msg' member type) type
    exact ⟨mine, below.trans higher.le⟩
  · intro begun answered msg' member type
    exact proposer.standing begun answered msg' (notAccept msg' member type) type
  · intro msg' member msg'' member' type type'
    exact proposer.agreed msg' (notAccept msg' member type) msg'' (notAccept msg'' member' type')
      type type'

/-- Every atomic step of a steady proposer keeps what is known of it. -/
theorem Proposer.step {timeout : Prop} {decides : Voting → Prop}
    (proposer : Proposer i others v) (known : Correspondents i others heard)
    (step : Step n (i : ℕ) timeout heard (fun v => Steady i v ∧ Settled n v) decides v v') :
    Proposer i others v' := by
  have memory := proposer.memory.step known.peer step
  cases step with
  | start nextView learnerArr proposerArr learner cleared =>
    have unset : ∀ k : Fin n, (proposerArr ((k : ℕ) : Int)).aPnum = -1 := fun k =>
      (cleared _ ⟨Int.natCast_nonneg _, Int.ofNat_lt.mpr k.isLt⟩).1
    exact { proposer with
      memory := memory
      nextPnum := fun _ => ⟨0, by rw [Nat.cast_zero, mul_zero, add_zero]⟩
      entries := fun _ k _ set => absurd (unset k) set
      ownRound := fun _ set => absurd (unset i) set
      standing := fun _ answered => absurd (unset i) answered.2 }
  | propose due msg vote pnum content =>
    have later : (v.mod.nextPnum + n) - (n : Int) = v.mod.origin n + n := by
      rw [LeleMod.origin]
      omega
    have inGroup := i.isLt
    have memory' : Memory i { v with mod := { v.mod with nextPnum := v.mod.nextPnum + n } } :=
      { proposer.memory with }
    have begins : Proposer i others
        { v with mod := { v.mod with nextPnum := v.mod.nextPnum + n } } :=
      { proposer with
        memory := memory'
        nextPnum := fun begun => (proposer.nextPnum begun).next
        ownRound := fun begun set => by
          obtain ⟨positive, below⟩ := proposer.ownRound begun set
          refine ⟨positive, below.trans ?_⟩
          simp only [LeleMod.origin] at later ⊢
          omega
        standing := fun begun answered => by
          -- no record answers a round that has just begun
          obtain ⟨-, below⟩ := proposer.ownRound begun answered.2
          have round := answered.1
          simp only [LeleMod.origin, Voting.own] at round below later
          omega }
    exact begins.say ⟨vote.type, vote.nodeId, vote.nextView⟩ (by simp) fun _ => content
  | promiseOwn due higher => exact proposer.promiseOwn higher
  | proposeAlone due begun higher content msg vote found pnum chosen =>
    have promised := proposer.promiseOwn higher
    refine promised.ask known begun content msg ⟨vote.type, vote.nodeId, vote.nextView⟩ found pnum
      chosen le_rfl fun old member type _ round => ?_
    have below := (proposer.accepts old member type).2
    exact absurd higher (round ▸ below).not_gt
  | answer msg hears round inGroup => exact proposer.answer known hears round memory
  | phaseTwo begun content msg vote checked found pnum chosen =>
    refine proposer.ask known begun content msg vote found pnum chosen (checked.2 begun) ?_
    exact checked.1 (by rw [found]; exact Option.some_ne_none content)
  | promise msg ack hears higher vote pnum content pPnum =>
    have wiped := (known.peer msg hears.heard).prepare hears.type
    exact proposer.promise memory higher vote (content.trans wiped) pPnum
  | accept msg hears order => exact proposer.frame memory rfl rfl rfl order fun _ member _ => member
  | learn msg source inGroup newer => exact proposer.learn _ _ _
  | announce begun entry msg vote => exact proposer.say vote (by simp) (by simp)
  | acknowledge msg vote accepted => exact proposer.say vote (by simp) (by simp)

/-- Between two rounds the current one stays below what the acceptor has seen. -/
theorem settled_step {checks decides : Voting → Prop} (memory : Memory i v)
    (settled : Settled n v) (step : Step n (i : ℕ) False heard checks decides v v') :
    Settled n v' := by
  intro begun
  cases step with
  | start nextView learnerArr proposerArr learner cleared =>
    have seen := memory.bounds.2
    have inGroup := i.isLt
    simp only [LeleMod.origin]
    omega
  | propose due => exact due.elim
  | promiseOwn due => exact due.elim
  | proposeAlone due => exact due.elim
  | promise msg ack hears higher => exact (settled begun).trans higher.le
  | accept msg hears order => exact (settled begun).trans order
  | _ => exact settled begun

theorem settled_round {msg : LeleMsg} (proposes : Node.Proposes n (i : ℕ) v msg v') :
    Settled n v' := by
  intro _
  have origin := Node.begunRound_origin (n := n) v msg
  by_cases higher : v.mod.acceptor.highestSeenPnum < v.mod.nextPnum
  · rcases proposes.higher higher with rfl | ⟨content, accept, -, -, -, -, rfl⟩
    · exact le_rfl
    · exact le_rfl
  · rw [proposes.lower higher, origin]
    exact not_lt.mp higher

end Steps

end Voting

/-! ## Runs -/

namespace Node

open Voting

/-- Between two calls the current round is not above what the acceptor has seen. -/
theorem settled_dispatch {n : ℕ} {i : Fin n} {node : Node} (settled : Settled n node.voting)
    (member : Member n (i : ℕ) node) (memory : Memory i node.voting) (e : NodeEnv × NodeEvent)
    (hears : ∀ msg data, e.2 = .message (.leaderElection msg data) → Peer i msg) :
    Settled n (node.dispatch e).voting := by
  obtain ⟨env, event⟩ := e
  by_cases timeout : event = .electionTimeout
  · subst timeout
    by_cases inElection : node.state = .inLele
    · obtain ⟨msg, proposes⟩ := proposes_electionTimeout env member.tidy member.groupSize
        member.nodeId inElection
      exact settled_round proposes
    · rw [voting_electionTimeout env member.tidy, if_neg inElection]
      exact settled
  · have steps : Steps n (i : ℕ) False (Peer i) (fun _ => True) (fun _ => True) node.voting
        (node.dispatch (env, event)).voting :=
      steps_dispatch member.timed member.tidy (env, event) member.groupSize member.nodeId timeout
        (fun msg data isMsg _ => hears msg data isMsg) (fun _ _ => trivial) (fun _ _ => trivial)
    have kept := steps.invariant (I := fun v => Memory i v ∧ Settled n v)
      (fun _ _ known step =>
        ⟨known.1.step (fun _ heard => heard) step, settled_step known.1 known.2 step⟩)
      ⟨memory, settled⟩
    exact kept.2

end Node

namespace Cluster

open Node Voting

variable {n : ℕ}

/-- A check that finds a majority for a number under which the node has asked for another node
still picks the node's own record. -/
def checksSteady (g : Cluster n) (e : ClusterEvent n) : Prop :=
  ∀ v ∈ (g e.1).checksPrepare e.2.2, Steady e.1 v

instance (g : Cluster n) (e : ClusterEvent n) : Decidable (checksSteady g e) :=
  inferInstanceAs (Decidable (∀ v ∈ (g e.1).checksPrepare e.2.2, Steady e.1 v))

theorem settled_of_reaches {guard : Cluster n → ClusterEvent n → Prop} (g : Cluster n)
    (reached : (machine Booted).Reaches guard g) (i : Fin n) : Settled n (g i).voting := by
  revert i
  apply reached.invariant_using
  · intro g booted i begun
    obtain ⟨seed, expectPingTimeval, now, env, same⟩ := booted i
    rw [same] at begun
    cases begun
  · intro g e reached settled _ enabled i
    by_cases actor : i = e.1
    · subst actor
      show Settled n (act g e e.1).voting
      rw [act_self]
      have memory := memory_of_reaches g reached
      refine settled_dispatch (settled e.1) (member_of_reaches g reached e.1) (memory e.1) e.2 ?_
      intro msg data isMsg
      have sent := enabled.2
      rw [isMsg] at sent
      exact peer_of_hear memory (hear_of_sent sent)
    · show Settled n (act g e i).voting
      rw [act_other g e i actor]
      exact settled i

/-- The votes node `k` has sent. -/
def HasSaid (g : Cluster n) (k : Fin n) (msg : LeleMsg) : Prop := msg ∈ (g k).voting.said

theorem correspondents {g : Cluster n} (proposers : ∀ k, Proposer k (HasSaid g) (g k).voting)
    (i : Fin n) : Correspondents i (HasSaid g) (Hear g i) where
  peer msg := peer_of_hear fun k => (proposers k).memory
  sender msg heard isAck := by
    obtain ⟨k, other, said⟩ := heard (by rw [isAck]; rfl)
    exact ⟨k, other, (proposers k).memory.nodeId msg said, said⟩
  acks k := (proposers k).acks
  once k msg msg' said said' := (proposers k).once msg said msg' said'

theorem said_act {g : Cluster n} {e : ClusterEvent n} (member : (g e.1).Member n ((e.1 : ℕ) : Int))
    (enabled : (machine Booted).enabled g e) (k : Fin n) (msg : LeleMsg)
    (said : HasSaid g k msg) : HasSaid (act g e) k msg := by
  by_cases actor : k = e.1
  · subst actor
    refine (steps_act_any member enabled).invariant (I := fun v => msg ∈ v.said)
      (fun v v' old step => ?_) said
    cases step with
    | propose => exact List.mem_append_left _ old
    | proposeAlone => exact List.mem_append_left _ old
    | phaseTwo => exact List.mem_append_left _ old
    | promise => exact List.mem_append_left _ old
    | announce => exact List.mem_append_left _ old
    | acknowledge => exact List.mem_append_left _ old
    | _ => exact old
  · rw [HasSaid, act_other g e k actor]
    exact said

theorem proposer_of_reaches (g : Cluster n) (reached : (machine Booted).Reaches checksSteady g)
    (i : Fin n) : Proposer i (HasSaid g) (g i).voting := by
  revert i
  apply reached.invariant_using
  · intro g booted i
    have memory := memory_of_reaches g
      (⟨g, booted, .refl⟩ : (machine Booted).Reaches Machine.anything g) i
    obtain ⟨seed, expectPingTimeval, now, env, same⟩ := booted i
    rw [same] at memory ⊢
    exact {
      memory := memory
      nextPnum := fun begun => by cases begun
      acks := fun msg member => by cases member
      once := fun msg member => by cases member
      entries := fun begun => by cases begun
      ownRound := fun begun => by cases begun
      accepts := fun msg member => by cases member
      standing := fun begun => by cases begun
      agreed := fun msg member => by cases member }
  · intro g e reached proposers allowed enabled i
    have member := member_of_reaches g reached e.1
    have settled := settled_of_reaches g reached e.1
    have checked : ∀ v ∈ (g e.1).checksPrepare e.2.2, Steady e.1 v ∧ Settled n v := by
      intro v checks
      refine ⟨allowed v checks, ?_⟩
      -- the answer moves neither the round nor the acceptor
      revert checks
      simp only [checksPrepare]
      split
      next =>
        split
        next => rintro ⟨⟩; exact settled
        next => rintro ⟨⟩
      next => rintro ⟨⟩
    have known := correspondents proposers e.1
    have steps : Steps n ((e.1 : ℕ) : Int) True (Hear g e.1)
        (fun v => Steady e.1 v ∧ Settled n v) (fun _ => True) (g e.1).voting (act g e e.1).voting :=
      steps_act member enabled checked fun _ _ => trivial
    have self : Proposer e.1 (HasSaid g) (act g e e.1).voting :=
      steps.invariant (fun v v' proposer step => proposer.step known step) (proposers e.1)
    have grown : Proposer i (HasSaid g) (act g e i).voting := by
      by_cases actor : i = e.1
      · subst actor
        exact self
      · rw [act_other g e i actor]
        exact proposers i
    exact { grown with
      entries := fun begun k other set => by
        obtain ⟨none, ack, said, rest⟩ := grown.entries begun k other set
        exact ⟨none, ack, said_act member enabled k ack said, rest⟩ }

/-- One value for each ballot: two ACCEPTs with the same view and number come from one node and
ask for the same node. -/
def OneContent (g : Cluster n) : Prop :=
  ∀ (w : UInt32) (k k' : Fin n) (msg msg' : LeleMsg), Said w (g k) .accept msg →
    Said w (g k') .accept msg' → msg.pnum = msg'.pnum → k = k' ∧ msg.content = msg'.content

/-- In every run whose checks are steady, the ACCEPTs with one number ask for one node. -/
theorem one_content (n : ℕ) (g : Cluster n) (reached : (machine Booted).Reaches checksSteady g) :
    OneContent g := by
  intro w k k' msg msg' said said' number
  obtain ⟨member, type, view⟩ := (mem_said (by rfl)).mp said
  obtain ⟨member', type', view'⟩ := (mem_said (by rfl)).mp said'
  have proposer := proposer_of_reaches g reached
  have mine := ((proposer k).accepts msg member type).1
  rw [number] at mine
  have same := mine.unique ((proposer k').accepts msg' member' type').1
  subst same
  exact ⟨rfl, (proposer k).agreed msg member msg' member' type type' (view.trans view'.symm)
    number⟩

/-- Node 2 accepts node 1 with number 1 and node 1 accepts node 0 with number 3; then node 2 opens
round 5, which node 0 and node 1 answer. -/
def overtaken : List (ClusterEvent 3) :=
  [(0, lateEnv, .expectPing), (1, lateEnv, .expectPing), (2, lateEnv, .expectPing),
    (1, lateEnv, .electionTimeout), firstElection 2 1 .prepare 1 (-1) (-1),
    firstElection 1 2 .prepareAck 0 1 (-1), firstElection 2 1 .accept 1 (-1) 1,
    (0, lateEnv, .electionTimeout), (0, lateEnv, .electionTimeout),
    firstElection 1 0 .prepare 3 (-1) (-1), firstElection 0 1 .prepareAck 0 3 (-1),
    firstElection 1 0 .accept 3 (-1) 0, (2, lateEnv, .electionTimeout),
    (2, lateEnv, .electionTimeout), firstElection 0 2 .prepare 5 (-1) (-1),
    firstElection 2 0 .prepareAck 0 5 (-1), firstElection 1 2 .prepare 5 (-1) (-1)]

theorem unseeded_reaches (guard : Cluster 3 → ClusterEvent 3 → Prop)
    (run : List (ClusterEvent 3)) (accepted : (machine Booted).Accepts guard unseeded run) :
    (machine Booted).Reaches guard (run.foldl act unseeded) :=
  ⟨unseeded, fun _ => ⟨_, _, _, _, rfl⟩, accepted.run⟩

/-- The first answer, once more, changes nothing. -/
theorem one_content_so_far : OneContent
    ((overtaken ++ [firstElection 2 0 .prepareAck 0 5 (-1)]).foldl act unseeded) :=
  one_content 3 _ (unseeded_reaches checksSteady _ (by decide))

/-- The answer of node 1 beats the record of node 2, which now asks for itself under number 5. -/
theorem two_contents : ¬ ∀ (n : ℕ) (g : Cluster n),
    (machine Booted).Reaches Machine.anything g → OneContent g := by
  intro claim
  have one := claim 3 _ (unseeded_reaches Machine.anything
    (overtaken ++ [firstElection 2 1 .prepareAck 3 5 (-1)]) (by decide))
  have asks : ∀ content : NodeId, (-1, .leaderElection ⟨.accept, 2, 1, 5, -1, content, 0, 0⟩ []) ∈
      ((overtaken ++ [firstElection 2 1 .prepareAck 3 5 (-1)]).foldl act unseeded 2).sent →
      Said 1 ((overtaken ++ [firstElection 2 1 .prepareAck 3 5 (-1)]).foldl act unseeded 2) .accept
        ⟨.accept, 2, 1, 5, -1, content, 0, 0⟩ :=
    fun _ member => ⟨rfl, rfl, _, _, member⟩
  have same := one 1 2 2 _ _ (asks 1 (by decide)) (asks 2 (by decide)) rfl
  exact absurd same.2 (by decide)

end Cluster

end LibeventPaxos
