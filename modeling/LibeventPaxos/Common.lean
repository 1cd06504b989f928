import Mathlib.Data.UInt
import Mathlib.Tactic.Common

/-! `util/common-structure.c`: views, view stamps, their 64-bit keys and times. -/
namespace LibeventPaxos

/-- `node_id_t`; -1 and 9999 are used as special values. -/
abbrev NodeId := Int

/-- `db_key_type`. -/
abbrev DbKey := UInt64

structure View where
  viewId : UInt32
  leaderId : NodeId
  reqId : UInt32
  deriving DecidableEq, Repr

structure ViewStamp where
  viewId : UInt32
  reqId : UInt32
  deriving DecidableEq, Repr

/-- `struct timeval`. -/
structure TimeVal where
  tvSec : Int
  tvUsec : Int
  deriving DecidableEq, Repr

def viewStampComp (op1 op2 : ViewStamp) : Int :=
  if op1.viewId < op2.viewId then -1
  else if op1.viewId > op2.viewId then 1
  else if op1.reqId > op2.reqId then 1
  else if op1.reqId < op2.reqId then -1
  else 0

def vstol (vs : ViewStamp) : DbKey :=
  let result : UInt64 := vs.reqId.toUInt64 &&& 0xFFFFFFFF
  let temp : UInt64 := vs.viewId.toUInt64 &&& 0xFFFFFFFF
  result + (temp <<< 32)

def ltovs (recordNo : DbKey) : ViewStamp :=
  let temp : UInt64 := recordNo &&& 0x00000000FFFFFFFF
  { reqId := temp.toUInt32
    viewId := ((recordNo >>> 32) &&& 0x00000000FFFFFFFF).toUInt32 }

def timevalComp (op1 op2 : TimeVal) : Int :=
  if op1.tvSec > op2.tvSec then 1
  else if op1.tvSec = op2.tvSec ∧ op1.tvUsec > op2.tvUsec then 1
  else if op1.tvSec = op2.tvSec ∧ op1.tvUsec = op2.tvUsec then 0
  else -1

def timevalAdd (op1 op2 : TimeVal) : TimeVal :=
  ⟨op1.tvSec + op2.tvSec, op1.tvUsec + op2.tvUsec⟩

/-! ## Keys -/

private theorem mask_low (n : Nat) : n &&& 4294967295 = n % 4294967296 :=
  Nat.and_two_pow_sub_one_eq_mod n 32

@[simp] theorem vstol_toNat (vs : ViewStamp) :
    (vstol vs).toNat = vs.viewId.toNat * 4294967296 + vs.reqId.toNat := by
  have view_lt := vs.viewId.toNat_lt
  have req_lt := vs.reqId.toNat_lt
  simp only [vstol, UInt64.toNat_add, UInt64.toNat_shiftLeft, UInt64.toNat_and,
    UInt32.toNat_toUInt64, UInt64.reduceToNat, mask_low, Nat.shiftLeft_eq, Nat.reduceMod,
    Nat.reducePow]
  omega

theorem vstol_boundary (viewId : UInt32) :
    (vstol ⟨viewId, 0⟩).toNat = viewId.toNat * 4294967296 := by
  simp only [vstol_toNat, UInt32.toNat_zero, Nat.add_zero]

@[simp] theorem ltovs_viewId_toNat (key : DbKey) :
    (ltovs key).viewId.toNat = key.toNat / 4294967296 := by
  have key_lt := key.toNat_lt
  simp only [ltovs, UInt64.toNat_toUInt32, UInt64.toNat_and, UInt64.toNat_shiftRight,
    UInt64.reduceToNat, mask_low, Nat.shiftRight_eq_div_pow, Nat.reduceMod, Nat.reducePow]
  omega

@[simp] theorem ltovs_reqId_toNat (key : DbKey) :
    (ltovs key).reqId.toNat = key.toNat % 4294967296 := by
  simp only [ltovs, UInt64.toNat_toUInt32, UInt64.toNat_and, UInt64.reduceToNat, mask_low]
  omega

theorem ViewStamp.ext_toNat {a b : ViewStamp} (views : a.viewId.toNat = b.viewId.toNat)
    (reqs : a.reqId.toNat = b.reqId.toNat) : a = b := by
  cases a
  cases b
  simp only [ViewStamp.mk.injEq]
  exact ⟨UInt32.toNat_inj.mp views, UInt32.toNat_inj.mp reqs⟩

theorem ViewStamp.eq_boundary {vs : ViewStamp} (zero : vs.reqId = 0) : vs = ⟨vs.viewId, 0⟩ := by
  cases vs
  exact congrArg _ zero

@[simp] theorem ltovs_vstol (vs : ViewStamp) : ltovs (vstol vs) = vs := by
  have req_lt := vs.reqId.toNat_lt
  apply ViewStamp.ext_toNat
  · rw [ltovs_viewId_toNat, vstol_toNat]; omega
  · rw [ltovs_reqId_toNat, vstol_toNat]; omega

@[simp] theorem vstol_ltovs (key : DbKey) : vstol (ltovs key) = key := by
  apply UInt64.toNat_inj.mp
  rw [vstol_toNat, ltovs_viewId_toNat, ltovs_reqId_toNat]
  omega

@[simp] theorem vstol_inj (a b : ViewStamp) : vstol a = vstol b ↔ a = b := by
  constructor
  · intro same
    rw [← ltovs_vstol a, same, ltovs_vstol]
  · rintro rfl; rfl

/-! ## The order of stamps is the order of their keys -/

theorem viewStampComp_cases (a b : ViewStamp) :
    (viewStampComp a b = -1 ∧ (vstol a).toNat < (vstol b).toNat) ∨
    (viewStampComp a b = 0 ∧ a = b) ∨
    (viewStampComp a b = 1 ∧ (vstol b).toNat < (vstol a).toNat) := by
  have req_lt := a.reqId.toNat_lt
  have req_lt' := b.reqId.toNat_lt
  simp only [viewStampComp, UInt32.lt_iff_toNat_lt, vstol_toNat, gt_iff_lt]
  split_ifs with below above higher lower
  · left; omega
  · right; right; omega
  · right; right; omega
  · left; omega
  · right; left
    exact ⟨rfl, ViewStamp.ext_toNat (by omega) (by omega)⟩

theorem viewStampComp_neg (a b : ViewStamp) :
    viewStampComp a b < 0 ↔ (vstol a).toNat < (vstol b).toNat := by
  rcases viewStampComp_cases a b with ⟨value, order⟩ | ⟨value, rfl⟩ | ⟨value, order⟩ <;>
    rw [value] <;> omega

theorem viewStampComp_pos (a b : ViewStamp) :
    0 < viewStampComp a b ↔ (vstol b).toNat < (vstol a).toNat := by
  rcases viewStampComp_cases a b with ⟨value, order⟩ | ⟨value, rfl⟩ | ⟨value, order⟩ <;>
    rw [value] <;> omega

theorem viewStampComp_nonpos (a b : ViewStamp) :
    viewStampComp a b ≤ 0 ↔ (vstol a).toNat ≤ (vstol b).toNat := by
  have above := viewStampComp_pos a b
  omega

theorem viewStampComp_nonneg (a b : ViewStamp) :
    0 ≤ viewStampComp a b ↔ (vstol b).toNat ≤ (vstol a).toNat := by
  have below := viewStampComp_neg a b
  omega

theorem viewStampComp_eq_zero (a b : ViewStamp) : viewStampComp a b = 0 ↔ a = b := by
  rcases viewStampComp_cases a b with ⟨value, order⟩ | ⟨value, rfl⟩ | ⟨value, order⟩
  · rw [value]
    constructor
    · intro impossible; omega
    · rintro rfl; omega
  · simp [value]
  · rw [value]
    constructor
    · intro impossible; omega
    · rintro rfl; omega

/-! ## View numbers -/

/-- Two views in a row have different numbers, also where the number wraps. -/
theorem viewId_succ_ne (viewId : UInt32) : viewId + 1 ≠ viewId := by
  intro same
  have value := congrArg UInt32.toNat same
  rw [UInt32.toNat_add, UInt32.toNat_one] at value
  have less := viewId.toNat_lt
  omega

end LibeventPaxos
