import LibeventPaxos.EdgeReset

/-!
The merge of `leader_election_handle_announce_ack`: what the new leader should make of the ranges
and empty slots the nodes report, and what the loops of the merge make of them.
-/
namespace LibeventPaxos

open Lib

/-! ## Reports -/

/-- What a node reports of its view: its undecided range and the empty slots in it. -/
structure Report where
  start : UInt32
  stop : UInt32
  ids : List UInt32
  deriving DecidableEq, Repr

/-- The slots are in increasing order and in the range. -/
structure Report.Ordered (report : Report) : Prop where
  sorted : report.ids.Pairwise fun a b => a.toNat < b.toNat
  inside : ∀ r ∈ report.ids, report.start.toNat ≤ r.toNat ∧ r.toNat ≤ report.stop.toNat

/-- Every node reports the id as empty or ends before it. -/
def OpenIn (reports : List Report) (r : UInt32) : Prop :=
  ∀ report ∈ reports, r ∈ report.ids ∨ report.stop.toNat < r.toNat

def Largest (values : List UInt32) (bound : UInt32) : Prop :=
  bound ∈ values ∧ ∀ value ∈ values, value.toNat ≤ bound.toNat

theorem Largest.cons {values : List UInt32} {bound : UInt32} (largest : Largest values bound)
    (value : UInt32) :
    Largest (value :: values) (if bound < value then value else bound) := by
  split
  next less =>
    rw [UInt32.lt_iff_toNat_lt] at less
    refine ⟨List.mem_cons_self, ?_⟩
    intro other member
    rcases List.mem_cons.mp member with rfl | earlier
    · exact Nat.le_refl _
    · exact Nat.le_trans (largest.2 other earlier) (Nat.le_of_lt less)
  next more =>
    rw [UInt32.lt_iff_toNat_lt] at more
    refine ⟨List.mem_cons_of_mem _ largest.1, ?_⟩
    intro other member
    rcases List.mem_cons.mp member with rfl | earlier
    · exact Nat.le_of_not_lt more
    · exact largest.2 other earlier

theorem Largest.unique {values values' : List UInt32} {bound bound' : UInt32}
    (largest : Largest values bound) (largest' : Largest values' bound')
    (same : ∀ value, value ∈ values ↔ value ∈ values') : bound = bound' := by
  have up := largest'.2 bound ((same bound).mp largest.1)
  have down := largest.2 bound' ((same bound').mpr largest'.1)
  exact UInt32.toNat_inj.mp (Nat.le_antisymm up down)

/-- The range and the slots the leader should have after the reports. -/
structure Merges (reports : List Report) (edge : EdgeMod) : Prop where
  start : Largest (reports.map Report.start) edge.start
  stop : Largest (reports.map Report.stop) edge.stop
  sorted : edge.listed.Pairwise fun a b => a.toNat < b.toNat
  holes : ∀ r, r ∈ edge.listed ↔ edge.start.toNat < r.toNat ∧ r.toNat ≤ edge.stop.toNat ∧
    OpenIn reports r

/-- Increasing lists with the same ids are equal. -/
theorem sorted_ext {slots slots' : List UInt32}
    (sorted : slots.Pairwise fun a b => a.toNat < b.toNat)
    (sorted' : slots'.Pairwise fun a b => a.toNat < b.toNat)
    (same : ∀ r, r ∈ slots ↔ r ∈ slots') : slots = slots' := by
  have distinct : ∀ {slots : List UInt32}, (slots.Pairwise fun a b => a.toNat < b.toNat) →
      slots.Nodup := by
    intro slots sorted
    refine sorted.imp ?_
    rintro a b less rfl
    exact lt_irrefl _ less
  refine List.Perm.eq_of_pairwise ?_ sorted sorted' ?_
  · intro a b _ _ less more
    omega
  · exact (List.perm_ext_iff_of_nodup (distinct sorted) (distinct sorted')).mpr same

/-- The order of the reports does not matter. -/
theorem Merges.unique {reports reports' : List Report} {edge edge' : EdgeMod}
    (merges : Merges reports edge) (merges' : Merges reports' edge')
    (same : ∀ report, report ∈ reports ↔ report ∈ reports') :
    edge.start = edge'.start ∧ edge.stop = edge'.stop ∧ edge.listed = edge'.listed := by
  have start := merges.start.unique merges'.start fun value => by
    simp only [List.mem_map, same]
  have stop := merges.stop.unique merges'.stop fun value => by
    simp only [List.mem_map, same]
  have missing : ∀ r, OpenIn reports r ↔ OpenIn reports' r := by
    intro r
    simp only [OpenIn, same]
  refine ⟨start, stop, sorted_ext merges.sorted merges'.sorted ?_⟩
  intro r
  rw [merges.holes, merges'.holes, start, stop, missing]

namespace EdgeMod

/-! ## The loops of the merge -/

/-- The slots at the cursor up to the bound are deleted. -/
theorem clearUpTo_eq (bound : UInt32) (cur : ℕ) (front rest tail : List UInt32) (fuel : ℕ)
    (all : front.length + rest.length = cur) (enough : rest.length ≤ fuel) :
    clearUpTo bound cur fuel front.length (front ++ (rest ++ tail)) =
      (front.length + (rest.takeWhile (· ≤ bound)).length,
        front ++ (List.replicate (rest.takeWhile (· ≤ bound)).length 0 ++
          (rest.dropWhile (· ≤ bound) ++ tail))) := by
  induction rest generalizing front fuel with
  | nil =>
    have done : ¬ front.length < cur := by
      rw [← all, List.length_nil]
      omega
    cases fuel with
    | zero => rfl
    | succ fuel =>
      rw [clearUpTo, if_neg fun more => done more.1]
      rfl
  | cons slot rest ih =>
    rw [List.length_cons] at all enough
    obtain ⟨fuel, rfl⟩ : ∃ less, fuel = less + 1 := ⟨fuel - 1, by omega⟩
    have here : (front ++ (slot :: rest ++ tail)).getD front.length 0 = slot := by
      simp [List.getD_eq_getElem?_getD]
    have written : (front ++ (slot :: rest ++ tail)).set front.length 0 =
        (front ++ [0]) ++ (rest ++ tail) := by
      rw [List.set_append_right _ _ (Nat.le_refl _), Nat.sub_self, List.cons_append,
        List.set_cons_zero, List.append_assoc]
      rfl
    rw [clearUpTo, here]
    by_cases small : slot ≤ bound
    · have step := ih (front ++ [0]) fuel (by rw [List.length_append, List.length_singleton]; omega)
        (by omega)
      rw [List.length_append, List.length_singleton] at step
      rw [if_pos ⟨by omega, small⟩, written, step]
      simp only [List.takeWhile_cons, List.dropWhile_cons, small, decide_true, if_true,
        List.length_cons, List.replicate_succ, List.append_assoc, List.cons_append,
        List.nil_append, Prod.mk.injEq, and_true]
      omega
    · rw [if_neg fun more => small more.2]
      simp only [List.takeWhile_cons, List.dropWhile_cons, small, decide_false, if_false,
        List.length_nil, List.replicate_zero, List.nil_append, Nat.add_zero, Bool.false_eq_true]

/-- Of increasing slots those above the bound are left. -/
theorem mem_dropWhile (bound : UInt32) (slots : List UInt32)
    (sorted : slots.Pairwise fun a b => a.toNat < b.toNat) (r : UInt32) :
    r ∈ slots.dropWhile (· ≤ bound) ↔ r ∈ slots ∧ bound.toNat < r.toNat := by
  induction slots with
  | nil => simp
  | cons slot slots ih =>
    obtain ⟨above, sorted⟩ := List.pairwise_cons.mp sorted
    rw [List.dropWhile_cons]
    split
    next small =>
      have small := UInt32.le_iff_toNat_le.mp (of_decide_eq_true small)
      rw [ih sorted, List.mem_cons]
      constructor
      · rintro ⟨member, high⟩
        exact ⟨.inr member, high⟩
      · rintro ⟨rfl | member, high⟩
        · omega
        · exact ⟨member, high⟩
    next large =>
      have large : ¬ slot.toNat ≤ bound.toNat := fun small =>
        large (decide_eq_true (UInt32.le_iff_toNat_le.mpr small))
      constructor
      · intro member
        refine ⟨member, ?_⟩
        rcases List.mem_cons.mp member with rfl | later
        · omega
        · have more := above r later
          omega
      · exact fun both => both.1

/-- One pass of the merge loop, with the slots split at the cursor. -/
theorem mergeSlots_cons (ids : ℕ → UInt32) (cur count fuel j : ℕ) (front rest tail : List UInt32)
    (slot : UInt32) (more : front.length < cur) :
    mergeSlots ids cur count (fuel + 1) front.length j (front ++ (slot :: rest ++ tail)) =
      if j < count then
        if slot < ids j then
          mergeSlots ids cur count fuel (front ++ [0]).length j ((front ++ [0]) ++ (rest ++ tail))
        else if slot = ids j then
          mergeSlots ids cur count fuel (front ++ [slot]).length (j + 1)
            ((front ++ [slot]) ++ (rest ++ tail))
        else none
      else some (front.length, j, front ++ (slot :: rest ++ tail)) := by
  have here : (front ++ (slot :: rest ++ tail)).getD front.length 0 = slot := by
    simp [List.getD_eq_getElem?_getD]
  have written : (front ++ (slot :: rest ++ tail)).set front.length 0 =
      (front ++ [0]) ++ (rest ++ tail) := by
    rw [List.set_append_right _ _ (Nat.le_refl _), Nat.sub_self, List.cons_append,
      List.set_cons_zero, List.append_assoc]
    rfl
  have kept : front ++ (slot :: rest ++ tail) = (front ++ [slot]) ++ (rest ++ tail) := by
    simp
  rw [mergeSlots, here, written]
  by_cases left : j < count
  · rw [if_pos ⟨more, left⟩, if_pos left, List.length_append, List.length_append,
      List.length_singleton, List.length_singleton, ← kept]
  · rw [if_neg fun both => left both.2, if_neg left]

/-- Ids that all are slots, with a larger slot behind them: each id keeps its slot, the slots
between them are deleted, and the cursor stops at the first slot behind the last id. -/
theorem mergeSlots_matched (ids : ℕ → UInt32) (cur count : ℕ) (front rest tail after : List UInt32)
    (j fuel : ℕ) (all : front.length + rest.length = cur) (enough : rest.length < fuel)
    (last : j + after.length = count) (ahead : ∀ k x, after[k]? = some x → ids (j + k) = x)
    (sorted : rest.Pairwise fun a b => a.toNat < b.toNat)
    (sorted' : after.Pairwise fun a b => a.toNat < b.toNat) (listed : ∀ x ∈ after, x ∈ rest)
    (larger : ∃ slot ∈ rest, ∀ x ∈ after, x.toNat < slot.toNat) :
    ∃ passed left, mergeSlots ids cur count fuel front.length j (front ++ (rest ++ tail)) =
        some (front.length + passed.length, count, front ++ (passed ++ (left ++ tail))) ∧
      passed.length + left.length = rest.length ∧ left ≠ [] ∧
      passed.filter (· ≠ 0) = after.filter (· ≠ 0) ∧
      left.Pairwise (fun a b => a.toNat < b.toNat) ∧
      ∀ r, r ∈ left ↔ r ∈ rest ∧ ∀ x ∈ after, x.toNat < r.toNat := by
  induction rest generalizing front after j fuel with
  | nil =>
    obtain ⟨slot, member, -⟩ := larger
    cases member
  | cons slot rest ih =>
    rw [List.length_cons] at all enough
    obtain ⟨fuel, rfl⟩ : ∃ less, fuel = less + 1 := ⟨fuel - 1, by omega⟩
    obtain ⟨above, sorted⟩ := List.pairwise_cons.mp sorted
    have longer : ∀ kept : UInt32, (front ++ [kept]).length + rest.length = cur := by
      intro kept
      rw [List.length_append, List.length_singleton]
      omega
    cases after with
    | nil =>
      -- no id is left: the cursors stop here
      rw [List.length_nil, Nat.add_zero] at last
      refine ⟨[], slot :: rest, ?_, by simp, List.cons_ne_nil _ _, rfl,
        List.pairwise_cons.mpr ⟨above, sorted⟩, ?_⟩
      · rw [mergeSlots_cons _ _ _ _ _ _ _ _ _ (by omega), if_neg (by omega), last]
        rfl
      · simp
    | cons id after =>
      obtain ⟨above', later_sorted⟩ := List.pairwise_cons.mp sorted'
      rw [List.length_cons] at last
      have first : ids j = id := ahead 0 id rfl
      have next : j < count := by omega
      have low : slot.toNat ≤ id.toNat := by
        rcases List.mem_cons.mp (listed id List.mem_cons_self) with rfl | later
        · exact Nat.le_refl _
        · exact Nat.le_of_lt (above id later)
      -- the other ids lie behind this slot
      have listed_later : ∀ x ∈ id :: after, slot.toNat < x.toNat → x ∈ rest := by
        intro x member less
        rcases List.mem_cons.mp (listed x member) with rfl | later
        · omega
        · exact later
      obtain ⟨top, top_member, top_larger⟩ := larger
      have top_later : top ∈ rest := by
        have less := top_larger id List.mem_cons_self
        rcases List.mem_cons.mp top_member with rfl | later
        · omega
        · exact later
      rw [mergeSlots_cons _ _ _ _ _ _ _ _ _ (by omega), if_pos next, first]
      by_cases below : slot < id
      · rw [UInt32.lt_iff_toNat_lt] at below
        obtain ⟨passed, left, run, lengths, some_left, kept, left_sorted, members⟩ :=
          ih (front ++ [0]) (id :: after) j fuel (longer 0) (by omega)
            (by rw [List.length_cons]; omega) ahead sorted sorted'
            (fun x member => listed_later x member (by
              rcases List.mem_cons.mp member with rfl | later
              · exact below
              · exact Nat.lt_trans below (above' x later)))
            ⟨top, top_later, top_larger⟩
        refine ⟨0 :: passed, left, ?_, ?_, some_left, ?_, left_sorted, ?_⟩
        · rw [if_pos (UInt32.lt_iff_toNat_lt.mpr below), run]
          simp only [List.length_append, List.length_cons, List.length_nil, List.append_assoc,
            List.cons_append, List.nil_append]
          congr 2
          omega
        · rw [List.length_cons, List.length_cons]
          omega
        · rw [List.filter_cons_of_neg (by simp), kept]
        · intro r
          rw [members, List.mem_cons]
          constructor
          · rintro ⟨member, beyond⟩
            exact ⟨.inr member, beyond⟩
          · rintro ⟨rfl | member, beyond⟩
            · have less := beyond id List.mem_cons_self
              omega
            · exact ⟨member, beyond⟩
      · have same : slot = id := by
          rw [UInt32.lt_iff_toNat_lt] at below
          exact UInt32.toNat_inj.mp (by omega)
        subst same
        obtain ⟨passed, left, run, lengths, some_left, kept, left_sorted, members⟩ :=
          ih (front ++ [slot]) after (j + 1) fuel (longer slot) (by omega) (by omega)
            (fun k x found => by
              rw [Nat.add_assoc, Nat.add_comm 1]
              exact ahead (k + 1) x found)
            sorted later_sorted
            (fun x member => listed_later x (List.mem_cons_of_mem _ member) (above' x member))
            ⟨top, top_later, fun x member => top_larger x (List.mem_cons_of_mem _ member)⟩
        refine ⟨slot :: passed, left, ?_, ?_, some_left, ?_, left_sorted, ?_⟩
        · rw [if_neg below, if_pos rfl, run]
          simp only [List.length_append, List.length_cons, List.length_nil, List.append_assoc,
            List.cons_append, List.nil_append]
          congr 2
          omega
        · rw [List.length_cons, List.length_cons]
          omega
        · by_cases zero : slot = 0
          · rw [List.filter_cons_of_neg (by simp [zero]), List.filter_cons_of_neg (by simp [zero]),
              kept]
          · rw [List.filter_cons_of_pos (by simp [zero]), List.filter_cons_of_pos (by simp [zero]),
              kept]
        · intro r
          rw [members, List.mem_cons]
          constructor
          · rintro ⟨member, beyond⟩
            refine ⟨.inr member, ?_⟩
            intro x inside
            rcases List.mem_cons.mp inside with rfl | later
            · exact above r member
            · exact beyond x later
          · rintro ⟨rfl | member, beyond⟩
            · exact absurd (beyond r List.mem_cons_self) (Nat.lt_irrefl _)
            · exact ⟨member, fun x inside => beyond x (List.mem_cons_of_mem _ inside)⟩

/-- `skipIds` stops at the first id beyond the bound. -/
theorem skipIds_spec (ids : ℕ → UInt32) (bound : UInt32) (count fuel j : ℕ)
    (enough : count ≤ j + fuel) (inside : j ≤ count) :
    let stop := skipIds ids bound count fuel j
    j ≤ stop ∧ stop ≤ count ∧ (stop < count → bound.toNat < (ids stop).toNat) ∧
      ∀ k, j ≤ k → k < stop → (ids k).toNat ≤ bound.toNat := by
  induction fuel generalizing j with
  | zero =>
    simp only [skipIds]
    exact ⟨Nat.le_refl j, inside, fun less => by omega, fun k low high => by omega⟩
  | succ fuel ih =>
    simp only [skipIds]
    by_cases skipped : ids j ≤ bound ∧ j < count
    · rw [if_pos skipped]
      obtain ⟨low, high, beyond, passed⟩ := ih (j + 1) (by omega) (by omega)
      refine ⟨by omega, high, beyond, ?_⟩
      intro k from_j below
      rcases Nat.eq_or_lt_of_le from_j with rfl | later
      · exact UInt32.le_iff_toNat_le.mp skipped.1
      · exact passed k later below
    · rw [if_neg skipped]
      refine ⟨Nat.le_refl j, inside, ?_, fun k low high => by omega⟩
      intro less
      by_contra small
      exact skipped ⟨UInt32.le_iff_toNat_le.mpr (by omega), less⟩

/-! ## What is read of the acknowledgement -/

/-- The ids of the message, and what lies behind it. -/
def ackIds (env : NodeEnv) (data : List UInt32) (j : ℕ) : UInt32 := data.getD j (env.heapIds j)

/-- The cursors and the slots when one of the two lists has run out. -/
def compared (env : NodeEnv) (edge : EdgeMod) (msg : LeleMsg) (data : List UInt32)
    (slots : List UInt32) : Option (ℕ × ℕ × List UInt32) :=
  let cur := edge.curEmptySlots
  let count := (msg.pnum % 18446744073709551616).toNat
  let (i, slots) :=
    if edge.start < msg.startReq then clearUpTo msg.startReq cur cur 0 slots else (0, slots)
  mergeSlots (ackIds env data) cur count (cur + 1) i 0 slots

/-- The last index read by the loop that appends ids, when there is room for some more. -/
def lastRead (ids : ℕ → UInt32) (pnum : Int) : ℕ → ℕ → ℕ
  | 0, j => j
  | room + 1, j => if (ids j).toNat < pnum then lastRead ids pnum room (j + 1) else j

/-- Every index of the list of the acknowledgement that is read is below `pnum`. The comparison
looks at the index first; behind it the two loops read on until they stop. -/
def ReadsInside (env : NodeEnv) (edge : EdgeMod) (msg : LeleMsg) (data : List UInt32) : Prop :=
  ∀ slots, edge.reqEdge = some slots → ∀ i j left, compared env edge msg data slots =
    some (i, j, left) → i = edge.curEmptySlots →
      let count := (msg.pnum % 18446744073709551616).toNat
      lastRead (ackIds env data) msg.pnum (scanRoom edge slots)
        (skipIds (ackIds env data) edge.stop count (count - j) j) < count

/-! ## Two cases in which the merge is right -/

/-- The slots left once the start is moved. -/
def remaining (edge : EdgeMod) (report : Report) : List UInt32 :=
  if edge.start < report.start then edge.listed.dropWhile (· ≤ report.start) else edge.listed

def mergedStart (edge : EdgeMod) (report : Report) : UInt32 :=
  if edge.start < report.start then report.start else edge.start

def mergedStop (edge : EdgeMod) (report : Report) : UInt32 :=
  if edge.stop < report.stop then report.stop else edge.stop

/-- All ids are slots that are left, and a larger one is left as well. A slot at the start of the
range, which only the leader's own scan lists, goes with this report. -/
structure Matched (edge : EdgeMod) (report : Report) : Prop where
  listed : ∀ r ∈ report.ids, r ∈ edge.remaining report
  larger : ∃ slot ∈ edge.remaining report, ∀ r ∈ report.ids, r.toNat < slot.toNat
  first : edge.start ∈ edge.remaining report → edge.start = 0 ∨
    edge.start ∉ report.ids ∧ edge.start.toNat ≤ report.stop.toNat

/-- No slot is left, no id is above the start, and the ids beyond the end are not below the number
of ids. -/
structure Passed (edge : EdgeMod) (report : Report) : Prop where
  cleared : edge.remaining report = []
  low : ∀ r ∈ report.ids, r.toNat ≤ (edge.mergedStart report).toNat
  beyond : ∃ r ∈ report.ids, edge.stop.toNat < r.toNat
  large : ∀ r ∈ report.ids, edge.stop.toNat < r.toNat → report.ids.length ≤ r.toNat

/-- No slot is left, every id lies up to the end, and the word read behind them is not below their
number. -/
structure Covered (env : NodeEnv) (edge : EdgeMod) (report : Report) : Prop where
  cleared : edge.remaining report = []
  within : ∀ r ∈ report.ids, r.toNat ≤ edge.stop.toNat
  behind : report.ids.length ≤ (env.heapIds report.ids.length).toNat

/-- The slots that are counted are allocated. -/
def Allocated (edge : EdgeMod) : Prop :=
  ∃ slots, edge.reqEdge = some slots ∧ edge.curEmptySlots ≤ slots.length

section Ack

variable (env : NodeEnv) (edge : EdgeMod) (msg : LeleMsg) (data : List UInt32)

/-- What moving the start leaves of the slots: zeros and the slots that are left. -/
theorem start_moved (slots : List UInt32) (allocated : edge.reqEdge = some slots)
    (inside : edge.curEmptySlots ≤ slots.length) :
    ∃ zeros, zeros + (edge.remaining ⟨msg.startReq, msg.lastReq, data⟩).length =
        edge.curEmptySlots ∧
      (if edge.start < msg.startReq then
          clearUpTo msg.startReq edge.curEmptySlots edge.curEmptySlots 0 slots
        else (0, slots)) =
        (zeros, List.replicate zeros 0 ++ (edge.remaining ⟨msg.startReq, msg.lastReq, data⟩ ++
          slots.drop edge.curEmptySlots)) := by
  have listed : edge.listed = slots.take edge.curEmptySlots := by
    rw [EdgeMod.listed, allocated, Option.getD_some]
  have length : edge.listed.length = edge.curEmptySlots := by
    rw [listed, List.length_take, Nat.min_eq_left inside]
  have whole : slots = edge.listed ++ slots.drop edge.curEmptySlots := by
    rw [listed, List.take_append_drop]
  simp only [remaining]
  by_cases moved : edge.start < msg.startReq
  · have cleared := clearUpTo_eq msg.startReq edge.curEmptySlots [] edge.listed
      (slots.drop edge.curEmptySlots) edge.curEmptySlots (by simp [length]) (by rw [length])
    simp only [List.nil_append, List.length_nil, Nat.zero_add, ← whole] at cleared
    refine ⟨(edge.listed.takeWhile (· ≤ msg.startReq)).length, ?_, ?_⟩
    · rw [if_pos moved, ← List.length_append, List.takeWhile_append_dropWhile, length]
    · rw [if_pos moved, if_pos moved, cleared]
  · refine ⟨0, ?_, ?_⟩
    · rw [if_neg moved, length, Nat.zero_add]
    · rw [if_neg moved, if_neg moved, List.replicate_zero, List.nil_append, ← whole]

theorem remaining_sorted (report : Report)
    (sorted : edge.listed.Pairwise fun a b => a.toNat < b.toNat) :
    (edge.remaining report).Pairwise fun a b => a.toNat < b.toNat := by
  rw [remaining]
  split
  next moved => exact sorted.sublist (List.dropWhile_sublist _)
  next same => exact sorted

/-- There are not more increasing ids than there are ids at all. -/
theorem length_sorted (ids : List UInt32) (low : ℕ)
    (sorted : ids.Pairwise fun a b => a.toNat < b.toNat) (above : ∀ r ∈ ids, low ≤ r.toNat)
    (start : low ≤ 2 ^ 32) : low + ids.length ≤ 2 ^ 32 := by
  induction ids generalizing low with
  | nil => simpa using start
  | cons id ids ih =>
    obtain ⟨larger, sorted⟩ := List.pairwise_cons.mp sorted
    have first := above id List.mem_cons_self
    have id_lt := id.toNat_lt
    have later := ih (id.toNat + 1) sorted (fun r member => larger r member) (by omega)
    rw [List.length_cons]
    omega

/-- An acknowledgement as a node builds it. -/
structure Counted (msg : LeleMsg) (data : List UInt32) : Prop where
  count : msg.pnum = data.length
  ordered : Report.Ordered ⟨msg.startReq, msg.lastReq, data⟩

variable {msg data} in
theorem Counted.toNat (counted : Counted msg data) :
    (msg.pnum % 18446744073709551616).toNat = data.length := by
  have few := length_sorted data 0 counted.ordered.sorted (fun _ _ => Nat.zero_le _) (by omega)
  rw [counted.count]
  omega

/-- The slots that are kept when the last loop has moved them to the front. -/
theorem compact_listed (cur : ℕ) (front tail : List UInt32) (length : front.length = cur) :
    compact cur (front ++ tail) =
      ((front.filter (· ≠ 0)).length,
        front.filter (· ≠ 0) ++ (front ++ tail).drop (front.filter (· ≠ 0)).length) := by
  rw [compact, ← length, List.take_left]

/-- What a merge has made of the range and the slots. -/
structure Merged (edge : EdgeMod) (report : Report) (slots : List UInt32) (edge' : EdgeMod) :
    Prop where
  start : edge'.start = edge.mergedStart report
  stop : edge'.stop = edge.mergedStop report
  msgCount : edge'.msgCount = edge.msgCount
  allocated : edge'.Allocated
  listed : edge'.listed = slots

/-- The end of the merge. -/
theorem merged_compact (report : Report) (front tail : List UInt32) :
    Merged edge report (front.filter (· ≠ 0))
      { edge with
        start := edge.mergedStart report
        stop := edge.mergedStop report
        curEmptySlots := (front.filter (· ≠ 0)).length
        reqEdge := some (front.filter (· ≠ 0) ++
          (front ++ tail).drop (front.filter (· ≠ 0)).length) } := by
  refine ⟨rfl, rfl, rfl, ⟨_, rfl, ?_⟩, ?_⟩
  · simp only [List.length_append]
    omega
  · rw [EdgeMod.listed, Option.getD_some, List.take_left]

theorem zeros_filtered (zeros : ℕ) : (List.replicate zeros (0 : UInt32)).filter (· ≠ 0) = [] := by
  rw [List.filter_replicate_of_neg (by simp)]

/-- Every id keeps its slot and so do the slots beyond the end of the report. -/
theorem mergeAck_matched (counted : Counted msg data) (allocated : edge.Allocated)
    (sorted : edge.listed.Pairwise fun a b => a.toNat < b.toNat)
    (matched : edge.Matched ⟨msg.startReq, msg.lastReq, data⟩) :
    ReadsInside env edge msg data ∧ ∃ edge', ∃ left : List UInt32,
      mergeAck env edge msg data = (edge', none) ∧
      Merged edge ⟨msg.startReq, msg.lastReq, data⟩
        (data.filter (· ≠ 0) ++ (left.dropWhile (· ≤ msg.lastReq)).filter (· ≠ 0)) edge' ∧
      left.Pairwise (fun a b => a.toNat < b.toNat) ∧
      ∀ r, r ∈ left ↔ r ∈ edge.remaining ⟨msg.startReq, msg.lastReq, data⟩ ∧
        ∀ x ∈ data, x.toNat < r.toNat := by
  obtain ⟨slots, req, inside⟩ := allocated
  obtain ⟨zeros, total, moved⟩ := start_moved edge msg data slots req inside
  have sorted' := edge.remaining_sorted ⟨msg.startReq, msg.lastReq, data⟩ sorted
  obtain ⟨passed, left, run, lengths, some_left, kept, left_sorted, members⟩ :=
    mergeSlots_matched (ackIds env data) edge.curEmptySlots data.length (List.replicate zeros 0)
      (edge.remaining ⟨msg.startReq, msg.lastReq, data⟩) (slots.drop edge.curEmptySlots) data 0
      (edge.curEmptySlots + 1) (by rw [List.length_replicate, total]) (by omega) (by simp)
      (fun k x found => by
        rw [Nat.zero_add, ackIds, List.getD_eq_getElem?_getD, found, Option.getD_some])
      sorted' counted.ordered.sorted matched.listed matched.larger
  rw [List.length_replicate] at run
  have more : zeros + passed.length ≠ edge.curEmptySlots := by
    have positive := List.length_pos_iff.mpr some_left
    omega
  constructor
  · intro slots' same i j rest result last
    obtain rfl := Option.some.inj (req.symm.trans same)
    simp only [compared, moved, counted.toNat, run, Option.some.injEq, Prod.mk.injEq] at result
    exact absurd (result.1.trans last) more
  · have triple : (if edge.start < msg.startReq then
          (msg.startReq, clearUpTo msg.startReq edge.curEmptySlots edge.curEmptySlots 0 slots)
        else (edge.start, 0, slots)) =
        (edge.mergedStart ⟨msg.startReq, msg.lastReq, data⟩, zeros, List.replicate zeros 0 ++
          (edge.remaining ⟨msg.startReq, msg.lastReq, data⟩ ++ slots.drop edge.curEmptySlots)) := by
      rw [mergedStart, ← moved]
      split
      next less => rfl
      next greater => rfl
    -- the slots when the loops are done
    obtain ⟨block, whole⟩ : ∃ block, block = List.replicate zeros 0 ++ (passed ++
        (List.replicate (left.takeWhile (· ≤ msg.lastReq)).length 0 ++
          left.dropWhile (· ≤ msg.lastReq))) := ⟨_, rfl⟩
    have cleared : (clearUpTo msg.lastReq edge.curEmptySlots
        (edge.curEmptySlots - (zeros + passed.length)) (zeros + passed.length)
        (List.replicate zeros 0 ++ (passed ++ (left ++ slots.drop edge.curEmptySlots)))).2 =
        block ++ slots.drop edge.curEmptySlots := by
      have loop := clearUpTo_eq msg.lastReq edge.curEmptySlots (List.replicate zeros 0 ++ passed)
        left (slots.drop edge.curEmptySlots) (edge.curEmptySlots - (zeros + passed.length))
        (by rw [List.length_append, List.length_replicate]; omega) (by omega)
      rw [List.length_append, List.length_replicate, List.append_assoc] at loop
      rw [loop, whole]
      simp only [List.append_assoc]
    have length : block.length = edge.curEmptySlots := by
      have parts := congrArg List.length (@List.takeWhile_append_dropWhile _ (· ≤ msg.lastReq) left)
      rw [List.length_append] at parts
      rw [whole]
      simp only [List.length_append, List.length_replicate]
      omega
    have front : block.filter (· ≠ 0) =
        data.filter (· ≠ 0) ++ (left.dropWhile (· ≤ msg.lastReq)).filter (· ≠ 0) := by
      rw [whole]
      simp only [List.filter_append, zeros_filtered, List.nil_append, kept]
    have merged := merged_compact edge ⟨msg.startReq, msg.lastReq, data⟩ block
      (slots.drop edge.curEmptySlots)
    have finish := compact_listed edge.curEmptySlots block (slots.drop edge.curEmptySlots) length
    have ids : (fun j => data.getD j (env.heapIds j)) = ackIds env data := rfl
    refine ⟨_, left, ?_, ⟨merged.start, merged.stop, merged.msgCount, merged.allocated,
      merged.listed.trans front⟩, left_sorted, members⟩
    rw [mergeAck, req]
    simp only [if_neg (Nat.not_lt.mpr inside), triple, counted.toNat, ids, run, if_neg more,
      if_true, cleared, finish]
    rfl

/-- With no slot left under the cursor the comparison ends at once. -/
theorem mergeSlots_at_end (ids : ℕ → UInt32) (cur count fuel j : ℕ) (slots : List UInt32) :
    mergeSlots ids cur count (fuel + 1) cur j slots = some (cur, j, slots) := by
  rw [mergeSlots, if_neg fun more => Nat.lt_irrefl _ more.1]

/-- What moving the start leaves when no slot is left. -/
theorem start_cleared (slots : List UInt32) (allocated : edge.reqEdge = some slots)
    (inside : edge.curEmptySlots ≤ slots.length)
    (cleared : edge.remaining ⟨msg.startReq, msg.lastReq, data⟩ = []) :
    (if edge.start < msg.startReq then
        clearUpTo msg.startReq edge.curEmptySlots edge.curEmptySlots 0 slots
      else (0, slots)) =
      (edge.curEmptySlots, List.replicate edge.curEmptySlots 0 ++ slots.drop edge.curEmptySlots) := by
  obtain ⟨zeros, total, moved⟩ := start_moved edge msg data slots allocated inside
  rw [cleared, List.length_nil, Nat.add_zero] at total
  subst total
  rw [moved, cleared, List.nil_append]

/-- No slot is left, and the word the cursor comes to is not below the number of ids: nothing is
appended. -/
theorem mergeAck_cleared (counted : Counted msg data) (allocated : edge.Allocated)
    (cleared : edge.remaining ⟨msg.startReq, msg.lastReq, data⟩ = []) {stop : ℕ}
    (skipped : skipIds (ackIds env data) edge.stop data.length data.length 0 = stop)
    (large : ¬ ((ackIds env data stop).toNat : Int) < msg.pnum) :
    ∃ edge', mergeAck env edge msg data = (edge', none) ∧
      Merged edge ⟨msg.startReq, msg.lastReq, data⟩ [] edge' := by
  obtain ⟨slots, req, inside⟩ := allocated
  have moved := start_cleared edge msg data slots req inside cleared
  have ids : (fun j => data.getD j (env.heapIds j)) = ackIds env data := rfl
  have triple : (if edge.start < msg.startReq then
        (msg.startReq, clearUpTo msg.startReq edge.curEmptySlots edge.curEmptySlots 0 slots)
      else (edge.start, 0, slots)) =
      (edge.mergedStart ⟨msg.startReq, msg.lastReq, data⟩, edge.curEmptySlots,
        List.replicate edge.curEmptySlots 0 ++ slots.drop edge.curEmptySlots) := by
    rw [mergedStart, ← moved]
    split
    next less => rfl
    next greater => rfl
  have finish := compact_listed edge.curEmptySlots (List.replicate edge.curEmptySlots 0)
    (slots.drop edge.curEmptySlots) List.length_replicate
  have merged := merged_compact edge ⟨msg.startReq, msg.lastReq, data⟩
    (List.replicate edge.curEmptySlots 0) (slots.drop edge.curEmptySlots)
  refine ⟨_, ?_, ⟨merged.start, merged.stop, merged.msgCount, merged.allocated,
    merged.listed.trans (zeros_filtered _)⟩⟩
  have appended : ∀ edge : EdgeMod, ∀ slots fuel, appendIds (ackIds env data) msg.pnum (fuel + 1)
      stop edge slots = (edge, slots, none) := by
    intro edge slots fuel
    rw [appendIds, if_neg large]
  rw [mergeAck, req]
  simp only [if_neg (Nat.not_lt.mpr inside), triple, counted.toNat, ids, mergeSlots_at_end, if_true,
    Nat.sub_zero, skipped, appended, finish]
  rfl

/-- No slot is left, and no id is appended. -/
theorem mergeAck_passed (counted : Counted msg data) (allocated : edge.Allocated)
    (passed : edge.Passed ⟨msg.startReq, msg.lastReq, data⟩) :
    ReadsInside env edge msg data ∧ ∃ edge', mergeAck env edge msg data = (edge', none) ∧
      Merged edge ⟨msg.startReq, msg.lastReq, data⟩ [] edge' := by
  -- the first id beyond the end
  obtain ⟨stop, skipped⟩ : ∃ stop, skipIds (ackIds env data) edge.stop data.length data.length 0 =
      stop := ⟨_, rfl⟩
  have spec := skipIds_spec (ackIds env data) edge.stop data.length data.length 0 (by omega)
    (by omega)
  simp only [skipped] at spec
  obtain ⟨-, within, beyond, before⟩ := spec
  have entry : ∀ k, ∀ inside : k < data.length, ackIds env data k = data[k] := by
    intro k inside
    rw [ackIds, List.getD_eq_getElem _ _ inside]
  have less : stop < data.length := by
    obtain ⟨r, member, large⟩ := passed.beyond
    have member : r ∈ data := member
    obtain ⟨k, inside, rfl⟩ := List.getElem_of_mem member
    by_contra all
    have small := before k (Nat.zero_le k) (by omega)
    rw [entry k inside] at small
    omega
  have large : ¬ ((ackIds env data stop).toNat : Int) < msg.pnum := by
    have above := beyond less
    rw [entry stop less] at above ⊢
    have enough := passed.large data[stop] (List.getElem_mem less) above
    rw [counted.count]
    simp only at enough
    omega
  refine ⟨?_, mergeAck_cleared env edge msg data counted allocated passed.cleared skipped large⟩
  intro slots req i j rest result last
  obtain ⟨slots', req', inside⟩ := allocated
  obtain rfl := Option.some.inj (req.symm.trans req')
  have moved := start_cleared edge msg data slots req inside passed.cleared
  simp only [compared, moved, counted.toNat, mergeSlots_at_end, Option.some.injEq,
    Prod.mk.injEq] at result
  obtain ⟨-, rfl, -⟩ := result
  simp only [counted.toNat, Nat.sub_zero, skipped]
  cases scanRoom edge slots with
  | zero => exact less
  | succ room =>
    rw [lastRead, if_neg large]
    exact less

/-- No slot is left and every id lies up to the end: the word behind the ids decides. -/
theorem mergeAck_covered (counted : Counted msg data) (allocated : edge.Allocated)
    (covered : edge.Covered env ⟨msg.startReq, msg.lastReq, data⟩) :
    ∃ edge', mergeAck env edge msg data = (edge', none) ∧
      Merged edge ⟨msg.startReq, msg.lastReq, data⟩ [] edge' := by
  have spec := skipIds_spec (ackIds env data) edge.stop data.length data.length 0 (by omega)
    (by omega)
  have skipped : skipIds (ackIds env data) edge.stop data.length data.length 0 = data.length := by
    obtain ⟨-, within, beyond, -⟩ := spec
    by_contra other
    have less := Nat.lt_of_le_of_ne within other
    have above := beyond less
    rw [ackIds, List.getD_eq_getElem _ _ less] at above
    exact absurd (covered.within _ (List.getElem_mem less)) (Nat.not_le.mpr above)
  refine mergeAck_cleared env edge msg data counted allocated covered.cleared skipped ?_
  have behind := covered.behind
  have last : ackIds env data data.length = env.heapIds data.length := by
    rw [ackIds, List.getD_eq_default _ _ (Nat.le_refl _)]
  rw [last, counted.count]
  simp only at behind
  omega

end Ack

/-! ## One acknowledgement -/

/-- The leader's state on the way: the slots are right above the start, where its own scan may have
listed one more. -/
structure Merging (reports : List Report) (edge : EdgeMod) : Prop where
  allocated : edge.Allocated
  start : Largest (reports.map Report.start) edge.start
  stop : Largest (reports.map Report.stop) edge.stop
  sorted : edge.listed.Pairwise fun a b => a.toNat < b.toNat
  low : ∀ r ∈ edge.listed, edge.start.toNat ≤ r.toNat
  holes : ∀ r, edge.start.toNat < r.toNat →
    (r ∈ edge.listed ↔ r.toNat ≤ edge.stop.toNat ∧ OpenIn reports r)

theorem Merging.of_merges {reports : List Report} {edge : EdgeMod} (allocated : edge.Allocated)
    (merges : Merges reports edge) : Merging reports edge where
  allocated := allocated
  start := merges.start
  stop := merges.stop
  sorted := merges.sorted
  low r member := Nat.le_of_lt ((merges.holes r).mp member).1
  holes r above := by
    rw [merges.holes]
    exact ⟨fun all => all.2, fun both => ⟨above, both⟩⟩

theorem openIn_cons (report : Report) (reports : List Report) (r : UInt32) :
    OpenIn (report :: reports) r ↔
      (r ∈ report.ids ∨ report.stop.toNat < r.toNat) ∧ OpenIn reports r := by
  simp only [OpenIn, List.forall_mem_cons]

section Step

variable {reports : List Report} {edge edge' : EdgeMod} {report : Report}

theorem Merging.mergedStart (merging : Merging reports edge) (report : Report) :
    Largest ((report :: reports).map Report.start) (edge.mergedStart report) :=
  merging.start.cons report.start

theorem Merging.start_le (merging : Merging reports edge) (report : Report) :
    edge.start.toNat ≤ (edge.mergedStart report).toNat :=
  (merging.mergedStart report).2 edge.start (List.mem_cons_of_mem _ merging.start.1)

theorem Merging.mergedStop (merging : Merging reports edge) (report : Report) :
    Largest ((report :: reports).map Report.stop) (edge.mergedStop report) :=
  merging.stop.cons report.stop

/-- The slots that are left once the start is moved: all above it, and perhaps one at it. -/
theorem Merging.mem_remaining (merging : Merging reports edge) (report : Report) (r : UInt32) :
    r ∈ edge.remaining report ↔ r ∈ edge.listed ∧
      ((edge.mergedStart report).toNat < r.toNat ∨
        r = edge.start ∧ ¬ edge.start < report.start) := by
  rw [remaining, EdgeMod.mergedStart]
  split
  next less =>
    rw [mem_dropWhile report.start edge.listed merging.sorted]
    simp [less]
  next more =>
    constructor
    · intro member
      refine ⟨member, ?_⟩
      rcases Nat.eq_or_lt_of_le (merging.low r member) with same | above
      · exact .inr ⟨(UInt32.toNat_inj.mp same).symm, more⟩
      · exact .inl above
    · exact fun both => both.1

/-- An id in both ranges ends before the leader's own end, or is in the report's. -/
theorem le_stop_of_mergedStop {r : UInt32} (inside : r.toNat ≤ (edge.mergedStop report).toNat)
    (beyond : report.stop.toNat < r.toNat) : r.toNat ≤ edge.stop.toNat := by
  rw [EdgeMod.mergedStop] at inside
  split at inside
  next less => omega
  next more => exact inside

/-- Without a slot left the merge is right if every id above the start lies up to the end, where an
open one would be a slot. -/
theorem Merging.cleared (merging : Merging reports edge) (cleared : edge.remaining report = [])
    (known : ∀ r ∈ report.ids, (edge.mergedStart report).toNat < r.toNat →
      r.toNat ≤ edge.stop.toNat)
    (merged : Merged edge report [] edge') : Merges (report :: reports) edge' where
  start := by
    rw [merged.start]
    exact merging.mergedStart report
  stop := by
    rw [merged.stop]
    exact merging.mergedStop report
  sorted := by
    rw [merged.listed]
    exact List.Pairwise.nil
  holes r := by
    rw [merged.listed, merged.start, merged.stop, openIn_cons]
    constructor
    · intro member
      cases member
    · rintro ⟨above, inside, own, open_⟩
      -- an open id above the start would be a slot that is left
      exfalso
      have short : r.toNat ≤ edge.stop.toNat := by
        rcases own with listed | beyond
        · exact known r listed above
        · exact le_stop_of_mergedStop inside beyond
      have start := merging.start_le report
      have member : r ∈ edge.remaining report := by
        rw [merging.mem_remaining]
        exact ⟨(merging.holes r (by omega)).mpr ⟨short, open_⟩, .inl above⟩
      rw [cleared] at member
      cases member

theorem Merging.passed (merging : Merging reports edge) (passed : edge.Passed report)
    (merged : Merged edge report [] edge') : Merges (report :: reports) edge' :=
  merging.cleared passed.cleared
    (fun r member above => absurd above (Nat.not_lt.mpr (passed.low r member))) merged

theorem Merging.covered {env : NodeEnv} (merging : Merging reports edge)
    (covered : edge.Covered env report) (merged : Merged edge report [] edge') :
    Merges (report :: reports) edge' :=
  merging.cleared covered.cleared (fun r member _ => covered.within r member) merged

theorem Merging.matched (merging : Merging reports edge) (ordered : report.Ordered)
    (matched : edge.Matched report) (left : List UInt32)
    (left_sorted : left.Pairwise fun a b => a.toNat < b.toNat)
    (members : ∀ r, r ∈ left ↔ r ∈ edge.remaining report ∧ ∀ x ∈ report.ids, x.toNat < r.toNat)
    (merged : Merged edge report (report.ids.filter (· ≠ 0) ++
      (left.dropWhile (· ≤ report.stop)).filter (· ≠ 0)) edge') :
    Merges (report :: reports) edge' := by
  have listed : ∀ r, r ∈ edge'.listed ↔
      r ≠ 0 ∧ (r ∈ report.ids ∨ r ∈ left ∧ report.stop.toNat < r.toNat) := by
    intro r
    rw [merged.listed, List.mem_append, List.mem_filter, List.mem_filter,
      mem_dropWhile report.stop left left_sorted, decide_eq_true_eq]
    tauto
  -- what is left lies above the start, but for a slot that goes now
  have above : ∀ r, r ∈ edge.remaining report → r ≠ 0 →
      (r ∈ report.ids ∨ report.stop.toNat < r.toNat) →
        (edge.mergedStart report).toNat < r.toNat := by
    intro r member nonzero own
    rcases ((merging.mem_remaining report r).mp member).2 with above | ⟨rfl, -⟩
    · exact above
    · exfalso
      rcases matched.first member with zero | ⟨unlisted, short⟩
      · exact nonzero zero
      · rcases own with listed | beyond
        · exact unlisted listed
        · omega
  have start := merging.start_le report
  constructor
  · rw [merged.start]
    exact merging.mergedStart report
  · rw [merged.stop]
    exact merging.mergedStop report
  · rw [merged.listed]
    refine List.pairwise_append.mpr ⟨ordered.sorted.filter _,
      (left_sorted.sublist (List.dropWhile_sublist _)).filter _, ?_⟩
    intro a first b second
    have later := List.mem_of_mem_filter second
    rw [mem_dropWhile report.stop left left_sorted, members] at later
    exact later.1.2 a (List.mem_of_mem_filter first)
  · intro r
    rw [listed, merged.start, merged.stop, openIn_cons]
    constructor
    · rintro ⟨nonzero, own⟩
      have member : r ∈ edge.remaining report := by
        rcases own with id | ⟨kept, -⟩
        · exact matched.listed r id
        · exact ((members r).mp kept).1
      have own : r ∈ report.ids ∨ report.stop.toNat < r.toNat := by
        rcases own with id | ⟨-, beyond⟩
        · exact .inl id
        · exact .inr beyond
      have high := above r member nonzero own
      have slot := (merging.holes r (by omega)).mp ((merging.mem_remaining report r).mp member).1
      have inside := (merging.mergedStop report).2 edge.stop
        (List.mem_cons_of_mem _ merging.stop.1)
      exact ⟨high, by omega, own, slot.2⟩
    · rintro ⟨high, inside, own, open_⟩
      refine ⟨?_, ?_⟩
      · rintro rfl
        rw [UInt32.toNat_zero] at high
        omega
      · rcases own with id | beyond
        · exact .inl id
        · have short := le_stop_of_mergedStop inside beyond
          have slot := (merging.holes r (by omega)).mpr ⟨short, open_⟩
          refine .inr ⟨(members r).mpr ⟨?_, ?_⟩, beyond⟩
          · rw [merging.mem_remaining]
            exact ⟨slot, .inl high⟩
          · intro x id
            have last := (ordered.inside x id).2
            omega

end Step

/-! ## The boundary -/

section Boundary

variable {edge : EdgeMod}

/-- The boundary lies before the first slot that is listed. -/
theorem boundary_eq (allocated : edge.Allocated) :
    edge.boundary = match edge.listed with
      | [] => edge.stop
      | slot :: _ => slot - 1 := by
  obtain ⟨slots, req, inside⟩ := allocated
  rw [boundary, EdgeMod.listed, req, Option.getD_some]
  cases cur : edge.curEmptySlots with
  | zero => rw [if_neg (not_not_intro rfl), List.take_zero]
  | succ count =>
    rw [if_pos (Nat.succ_ne_zero count)]
    cases slots with
    | nil =>
      rw [cur, List.length_nil] at inside
      omega
    | cons slot rest => rfl

theorem toNat_before (slot : UInt32) (positive : 0 < slot.toNat) :
    (slot - 1).toNat = slot.toNat - 1 := by
  have one : 1 ≤ slot := UInt32.le_iff_toNat_le.mpr positive
  rw [UInt32.toNat_sub_of_le slot 1 one, UInt32.toNat_one]

end Boundary

end EdgeMod

section Boundary

variable {reports : List Report} {edge : EdgeMod}

/-- What lies above the start and up to the boundary is not reported as empty by every node. -/
theorem Merges.below_boundary (merges : Merges reports edge) (allocated : edge.Allocated)
    (r : UInt32) (above : edge.start.toNat < r.toNat) (below : r.toNat ≤ edge.boundary.toNat) :
    ¬ OpenIn reports r := by
  intro empty
  have listed := merges.holes r
  have sorted := merges.sorted
  rw [EdgeMod.boundary_eq allocated] at below
  cases slots : edge.listed with
  | nil =>
    rw [slots] at listed below
    cases listed.mpr ⟨above, below, empty⟩
  | cons slot rest =>
    obtain ⟨first, last, -⟩ := (merges.holes slot).mp (slots ▸ List.mem_cons_self)
    rw [slots] at listed below sorted
    simp only [EdgeMod.toNat_before slot (by omega)] at below
    rcases List.mem_cons.mp (listed.mpr ⟨above, by omega, empty⟩) with rfl | later
    · omega
    · have order := List.rel_of_pairwise_cons sorted later
      omega

/-- An id is not above the boundary if it lies in the range and no id up to it is reported as empty
by every node. -/
theorem Merges.le_boundary (merges : Merges reports edge) (allocated : edge.Allocated)
    (r : UInt32) (inside : r.toNat ≤ edge.stop.toNat)
    (decided : ∀ r', 0 < r'.toNat → r'.toNat ≤ r.toNat → ¬ OpenIn reports r') :
    r.toNat ≤ edge.boundary.toNat := by
  rw [EdgeMod.boundary_eq allocated]
  cases slots : edge.listed with
  | nil => exact inside
  | cons slot rest =>
    obtain ⟨first, last, empty⟩ := (merges.holes slot).mp (slots ▸ List.mem_cons_self)
    have beyond : r.toNat < slot.toNat := by
      by_contra below
      exact decided slot (by omega) (by omega) empty
    show r.toNat ≤ (slot - 1).toNat
    rw [EdgeMod.toNat_before slot (by omega)]
    omega

end Boundary

end LibeventPaxos
