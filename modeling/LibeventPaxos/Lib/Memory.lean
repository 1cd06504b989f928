import Mathlib.Data.Nat.Digits.Defs
import Mathlib.Tactic.Common

/-!
Memory as bytes by address: blocks in it, and words in little-endian order.
-/
namespace LibeventPaxos.Lib

/-! ## Little-endian words -/

/-- The lowest `width` bytes of a number, lowest first. -/
def littleEndian : ℕ → ℕ → List UInt8
  | 0, _ => []
  | width + 1, value => UInt8.ofNat value :: littleEndian width (value / 256)

def littleEndianValue (bytes : List UInt8) : ℕ := Nat.ofDigits 256 (bytes.map UInt8.toNat)

@[simp] theorem length_littleEndian (width value : ℕ) :
    (littleEndian width value).length = width := by
  induction width generalizing value with
  | zero => rfl
  | succ width ih => rw [littleEndian, List.length_cons, ih]

theorem littleEndianValue_littleEndian (width value : ℕ) :
    littleEndianValue (littleEndian width value) = value % 256 ^ width := by
  induction width generalizing value with
  | zero => simp [littleEndian, littleEndianValue, Nat.mod_one]
  | succ width ih =>
    simp only [littleEndianValue] at ih ⊢
    have lowest : (UInt8.ofNat value).toNat = value % 256 := UInt8.toNat_ofNat'
    rw [littleEndian, List.map_cons, Nat.ofDigits_cons, ih, lowest, Nat.pow_succ,
      Nat.mul_comm (256 ^ width), Nat.mod_mul]

private theorem toNat_lt_base (bytes : List UInt8) :
    ∀ digit ∈ bytes.map UInt8.toNat, digit < 256 := by
  intro digit member
  obtain ⟨byte, -, rfl⟩ := List.mem_map.mp member
  exact byte.toNat_lt

/-- Words of one width with the same value are the same bytes. -/
theorem littleEndianValue_inj {a b : List UInt8} (length : a.length = b.length)
    (same : littleEndianValue a = littleEndianValue b) : a = b := by
  have digits := Nat.ofDigits_inj_of_len_eq (by decide : 1 < 256) (by simpa using length)
    (toNat_lt_base a) (toNat_lt_base b) same
  exact (List.map_inj_right fun _ _ => UInt8.toNat_inj.mp).mp digits

/-! ## Memory -/

def Memory := ℕ → UInt8

namespace Memory

def zero : Memory := fun _ => 0

/-- A block at address 0, with what lies behind it. -/
def placed (block : List UInt8) (behind : Memory) : Memory := fun address =>
  block[address]?.getD (behind (address - block.length))

def bytesAt (m : Memory) (start len : ℕ) : List UInt8 :=
  (List.range len).map fun i => m (start + i)

def wordAt (m : Memory) (start width : ℕ) : ℕ := littleEndianValue (m.bytesAt start width)

theorem placed_of_lt {block : List UInt8} {behind : Memory} {address : ℕ}
    (inside : address < block.length) : placed block behind address = block[address] := by
  rw [placed, List.getElem?_eq_getElem inside, Option.getD_some]

theorem placed_of_ge {block : List UInt8} {behind : Memory} {address : ℕ}
    (outside : block.length ≤ address) :
    placed block behind address = behind (address - block.length) := by
  rw [placed, List.getElem?_eq_none outside, Option.getD_none]

theorem placed_append (block more : List UInt8) (behind : Memory) :
    placed (block ++ more) behind = placed block (placed more behind) := by
  funext address
  simp only [placed, List.getElem?_append, List.length_append, Nat.sub_add_eq]
  split
  next inside => rw [List.getElem?_eq_getElem inside, Option.getD_some, Option.getD_some]
  next outside => rw [List.getElem?_eq_none (Nat.le_of_not_lt outside), Option.getD_none]

@[simp] theorem length_bytesAt (m : Memory) (start len : ℕ) :
    (m.bytesAt start len).length = len := by
  simp [bytesAt]

theorem bytesAt_add (m : Memory) (start len more : ℕ) :
    m.bytesAt start (len + more) = m.bytesAt start len ++ m.bytesAt (start + len) more := by
  simp only [bytesAt, List.range_add, List.map_append, List.map_map, Function.comp_def,
    Nat.add_assoc]

theorem bytesAt_eq_iff (m : Memory) (start : ℕ) (bytes : List UInt8) :
    m.bytesAt start bytes.length = bytes ↔
      ∀ i, ∀ inside : i < bytes.length, m (start + i) = bytes[i] := by
  constructor
  · intro same i inside
    have at_i : (m.bytesAt start bytes.length)[i]? = bytes[i]? := by rw [same]
    rw [List.getElem?_eq_getElem inside] at at_i
    simpa [bytesAt, inside] using at_i
  · intro each
    apply List.ext_getElem
    · exact m.length_bytesAt start bytes.length
    · intro i _ inside
      simpa [bytesAt] using each i inside

/-- What lies in the middle of a block is read back. -/
theorem bytesAt_placed (before bytes after : List UInt8) (behind : Memory) :
    (placed (before ++ (bytes ++ after)) behind).bytesAt before.length bytes.length = bytes := by
  rw [bytesAt_eq_iff]
  intro i inside
  rw [placed_of_lt (by simp only [List.length_append]; omega), List.getElem_append_right (by omega)]
  simp only [Nat.add_sub_cancel_left]
  exact List.getElem_append_left inside

theorem wordAt_eq_iff (m : Memory) (start width value : ℕ) (fits : value < 256 ^ width) :
    m.wordAt start width = value ↔ m.bytesAt start width = littleEndian width value := by
  constructor
  · intro same
    apply littleEndianValue_inj
    · rw [length_bytesAt, length_littleEndian]
    · rw [littleEndianValue_littleEndian, Nat.mod_eq_of_lt fits]
      exact same
  · intro same
    rw [wordAt, same, littleEndianValue_littleEndian, Nat.mod_eq_of_lt fits]

theorem wordAt_lt (m : Memory) (start width : ℕ) : m.wordAt start width < 256 ^ width := by
  have below := Nat.ofDigits_lt_base_pow_length (by decide : 1 < 256)
    (toNat_lt_base (m.bytesAt start width))
  rwa [List.length_map, length_bytesAt] at below

theorem littleEndian_wordAt (m : Memory) (start width : ℕ) :
    littleEndian width (m.wordAt start width) = m.bytesAt start width :=
  ((m.wordAt_eq_iff start width _ (m.wordAt_lt start width)).mp rfl).symm

theorem bytesAt_prefix (m : Memory) (start : ℕ) {len more : ℕ} (le : len ≤ more) :
    m.bytesAt start len <+: m.bytesAt start more := by
  rw [show more = len + (more - len) by omega, bytesAt_add]
  exact List.prefix_append _ _

/-- Memory as a pointer behind some bytes sees it. -/
def offset (m : Memory) (start : ℕ) : Memory := fun address => m (start + address)

/-- Behind the front of a block lies the rest of it. -/
theorem offset_placed (before bytes : List UInt8) (behind : Memory) :
    (placed (before ++ bytes) behind).offset before.length = placed bytes behind := by
  funext address
  simp only [offset]
  rcases Nat.lt_or_ge address bytes.length with inside | outside
  · rw [placed_of_lt (by rw [List.length_append]; omega), placed_of_lt inside,
      List.getElem_append_right (by omega)]
    simp only [Nat.add_sub_cancel_left]
  · rw [placed_of_ge (by rw [List.length_append]; omega), placed_of_ge outside,
      List.length_append, Nat.add_sub_add_left]

end Memory

end LibeventPaxos.Lib
