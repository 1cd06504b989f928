import Mathlib.Order.Interval.Finset.Nat
import LibeventPaxos.LeaderLog
import LibeventPaxos.Lib.BitVotes

/-!
The votes of a request as the bits of its map: ids are shifted modulo 32, and the id 31 brings the
upper half of the map with it, so beyond 31 nodes the map does not count the voters.
-/
namespace LibeventPaxos

open Lib

namespace Comp

/-- Bit `b` of the map of one node. -/
theorem getLsbD_nodeBit_iff (i b : ℕ) :
    (nodeBit i).toBitVec.getLsbD b = true ↔ b = i % 32 ∨ (i % 32 = 31 ∧ 32 ≤ b ∧ b < 64) := by
  have shift : ((i : ℤ) % 32).toNat = i % 32 := by omega
  have less : i % 32 < 32 := Nat.mod_lt i (by decide)
  simp only [nodeBit, shift, BitVec.getLsbD_signExtend, BitVec.msb_eq_getLsbD_last,
    BitVec.getLsbD_shiftLeft, BitVec.getLsbD_one]
  by_cases low : b < 32
  · simp only [low, if_true, Bool.and_eq_true, decide_eq_true_eq, Bool.not_eq_true',
      decide_eq_false_iff_not, true_and]
    omega
  · simp only [low, if_false, Bool.and_eq_true, decide_eq_true_eq, Bool.not_eq_true',
      decide_eq_false_iff_not]
    omega

/-- Bit `b` of the map of a leader that has heard some senders. -/
theorem getLsbD_ackBits_iff (nodeId : ℕ) (senders : List ℕ) (b : ℕ) :
    (ackBits nodeId (senders.map Nat.cast)).toBitVec.getLsbD b = true ↔
      ∃ voter ∈ nodeId :: senders, b = voter % 32 ∨ (voter % 32 = 31 ∧ 32 ≤ b ∧ b < 64) := by
  induction senders using List.reverseRecOn with
  | nil =>
    rw [List.map_nil, ackBits_nil, getLsbD_nodeBit_iff]
    simp
  | append_singleton senders sender ih =>
    rw [List.map_append, List.map_singleton, ackBits_append, UInt64.toBitVec_or, BitVec.getLsbD_or,
      Bool.or_eq_true, ih, getLsbD_nodeBit_iff]
    constructor
    · rintro (⟨voter, member, bit⟩ | bit)
      · exact ⟨voter, by simp only [List.mem_cons, List.mem_append] at member ⊢; tauto, bit⟩
      · exact ⟨sender, by simp, bit⟩
    · rintro ⟨voter, member, bit⟩
      simp only [List.mem_cons, List.mem_append, List.not_mem_nil, or_false] at member
      rcases member with own | earlier | rfl
      · exact .inl ⟨voter, by simp [own], bit⟩
      · exact .inl ⟨voter, by simp [earlier], bit⟩
      · exact .inr bit

/-- The shift counts the voters use. -/
def shiftCounts (voters : Finset ℕ) : Finset ℕ := voters.image (· % 32)

/-- The map counts shift counts, and 32 more once the count 31 is among them. -/
theorem popcount_ackBits_shiftCounts (nodeId : ℕ) (senders : List ℕ) :
    popcount (ackBits nodeId (senders.map Nat.cast)) =
      (shiftCounts (insert nodeId senders.toFinset)).card +
        if 31 ∈ shiftCounts (insert nodeId senders.toFinset) then 32 else 0 := by
  have members : ∀ voter, voter ∈ insert nodeId senders.toFinset ↔ voter ∈ nodeId :: senders := by
    intro voter
    rw [Finset.mem_insert, List.mem_toFinset, List.mem_cons]
  have upper : (if 31 ∈ shiftCounts (insert nodeId senders.toFinset) then 32 else 0) =
      (if 31 ∈ shiftCounts (insert nodeId senders.toFinset)
        then Finset.Ico 32 64 else (∅ : Finset ℕ)).card := by
    split
    next full => rfl
    next apart => rfl
  have below : ∀ b ∈ shiftCounts (insert nodeId senders.toFinset), b < 32 := by
    intro b member
    obtain ⟨voter, -, rfl⟩ := Finset.mem_image.mp member
    exact Nat.mod_lt voter (by decide)
  rw [upper, ← Finset.card_union_of_disjoint]
  · apply cpop_eq_card _ (fun b : ℕ => b) _ Function.injective_id
    intro b
    rw [getLsbD_ackBits_iff]
    constructor
    · rintro ⟨voter, member, low | ⟨full, high⟩⟩
      · refine ⟨b, Finset.mem_union_left _ ?_, rfl⟩
        exact Finset.mem_image.mpr ⟨voter, (members voter).mpr member, low.symm⟩
      · have there : 31 ∈ shiftCounts (insert nodeId senders.toFinset) :=
          Finset.mem_image.mpr ⟨voter, (members voter).mpr member, full⟩
        refine ⟨b, Finset.mem_union_right _ ?_, rfl⟩
        rw [if_pos there, Finset.mem_Ico]
        exact high
    · rintro ⟨_, member, rfl⟩
      rcases Finset.mem_union.mp member with low | high
      · obtain ⟨voter, known, same⟩ := Finset.mem_image.mp low
        exact ⟨voter, (members voter).mp known, .inl same.symm⟩
      · split at high
        next full =>
          obtain ⟨voter, known, same⟩ := Finset.mem_image.mp full
          exact ⟨voter, (members voter).mp known, .inr ⟨same, Finset.mem_Ico.mp high⟩⟩
        next apart => simp at high
  · rw [Finset.disjoint_left]
    intro b low high
    have less := below b low
    split at high
    next full =>
      have more := (Finset.mem_Ico.mp high).1
      omega
    next apart => simp at high

/-! ## Counting the voters of a group -/

/-- The record `leader_handle_submit_req` creates, after `update_record` for each sender. -/
def ackedRecord (env : Env) (c : Comp) (data : List UInt8) (senders : List ℕ) : RequestRecord :=
  senders.foldl (fun record (sender : ℕ) => updateRecord record (sender : Int))
    (submitRecord env c data)

/-- The leader together with the distinct senders. -/
def voters (c : Comp) (senders : List ℕ) : Finset ℕ := insert c.nodeId senders.toFinset

/-- The shift counts say of these voters what their ids say. -/
structure CountsAlike (n : ℕ) (voters : Finset ℕ) : Prop where
  /-- The sign bit fills half of the map, so it must not come without a quorum. -/
  sign : (∃ voter ∈ voters, voter % 32 = 31) → n / 2 + 1 ≤ voters.card
  /-- Voters with equal shift counts are one, so enough of them must differ. -/
  apart : (∀ voter ∈ voters, voter % 32 ≠ 31) → n / 2 + 1 ≤ voters.card →
    n / 2 + 1 ≤ (shiftCounts voters).card

/-- Up to 31 nodes every id is its own shift count. -/
theorem countsAlike_of_small {n : ℕ} (small : n ≤ 31) (voters : Finset ℕ)
    (members : ∀ voter ∈ voters, voter < n) : CountsAlike n voters := by
  constructor
  · rintro ⟨voter, member, full⟩
    have less := members voter member
    omega
  · intro _ quorum
    have same : (shiftCounts voters).card = voters.card := by
      apply Finset.card_image_of_injOn
      intro a a_member b b_member equal
      have a_less := members a a_member
      have b_less := members b b_member
      have equal : a % 32 = b % 32 := equal
      omega
    rwa [same]

theorem bitMap_ackedRecord (env : Env) (c : Comp) (data : List UInt8) (senders : List ℕ) :
    (ackedRecord env c data senders).bitMap = ackBits c.nodeId (senders.map Nat.cast) := by
  induction senders using List.reverseRecOn with
  | nil => rfl
  | append_singleton senders sender ih =>
    rw [ackedRecord, List.foldl_append, List.foldl_cons, List.foldl_nil, ← ackedRecord,
      List.map_append, List.map_singleton, ackBits_append, ← ih]
    rfl

/-- `reached_quorum` tells whether the leader and the distinct senders are a quorum if and only if
their shift counts say the same as their ids. -/
theorem quorum_counted_iff (n : ℕ) (most : n ≤ 64) (env : Env) (c : Comp) (data : List UInt8)
    (senders : List ℕ) :
    (reachedQuorum (ackedRecord env c data senders) n = true ↔
      n / 2 + 1 ≤ (voters c senders).card) ↔ CountsAlike n (voters c senders) := by
  have count := popcount_ackBits_shiftCounts c.nodeId senders
  rw [← bitMap_ackedRecord env c data] at count
  have fewer : (shiftCounts (voters c senders)).card ≤ (voters c senders).card :=
    Finset.card_image_le
  have full : 31 ∈ shiftCounts (voters c senders) ↔
      ∃ voter ∈ voters c senders, voter % 32 = 31 := Finset.mem_image
  rw [reachedQuorum, decide_eq_true_eq, count]
  rw [← voters]
  by_cases signed : 31 ∈ shiftCounts (voters c senders)
  · -- 32 bits more are a quorum of any group
    rw [if_pos signed]
    have positive : 0 < (shiftCounts (voters c senders)).card := Finset.card_pos.mpr ⟨31, signed⟩
    constructor
    · intro counted
      exact ⟨fun _ => counted.mp (by omega), fun none _ => by
        obtain ⟨voter, member, same⟩ := full.mp signed
        exact absurd same (none voter member)⟩
    · intro alike
      have quorum := alike.sign (full.mp signed)
      exact ⟨fun _ => quorum, fun _ => by omega⟩
  · rw [if_neg signed, Nat.add_zero]
    have unsigned : ∀ voter ∈ voters c senders, voter % 32 ≠ 31 := fun voter member same =>
      signed (full.mpr ⟨voter, member, same⟩)
    constructor
    · intro counted
      exact ⟨fun some => absurd (full.mpr some) signed, fun _ quorum => counted.mpr quorum⟩
    · intro alike
      exact ⟨fun reached => reached.trans fewer, fun quorum => alike.apart unsigned quorum⟩

theorem repeated_ack_counted :
    (reachedQuorum (ackedRecord quietEnv (init true 0 3) [7] [1, 1]) 3 = true ↔
      3 / 2 + 1 ≤ (voters (init true 0 3) [1, 1]).card) ↔
        CountsAlike 3 (voters (init true 0 3) [1, 1]) :=
  quorum_counted_iff 3 (by decide) quietEnv (init true 0 3) [7] [1, 1]

/-- Node 31 of 32 is a quorum by itself. -/
theorem sign_bit_quorum : ¬ ∀ (n : ℕ) (env : Env) (c : Comp) (data : List UInt8)
    (senders : List ℕ), n ≤ 64 → c.nodeId < n → (∀ sender ∈ senders, sender < n) →
    (reachedQuorum (ackedRecord env c data senders) n = true ↔
      n / 2 + 1 ≤ (voters c senders).card) := by
  intro claim
  have counted := claim 32 quietEnv (init true 31 32) [7] [] (by decide) (by decide) (by simp)
  exact absurd (counted.mp (by decide)) (by decide)

end Comp

end LibeventPaxos
