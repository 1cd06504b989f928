import LibeventPaxos.Lib.Memory

/-!
Packed structures: words of given widths, one after the other. Whatever stands in front of a
structure and whatever lies behind it, each of its words is read back at its offset.
-/
namespace LibeventPaxos.Lib

/-- A field of a structure: its width in bytes and its value. -/
structure Word where
  width : ℕ
  value : ℕ

namespace Word

def Fits (word : Word) : Prop := word.value < 256 ^ word.width

def bytes (word : Word) : List UInt8 := littleEndian word.width word.value

/-- The two's complement of a signed field. -/
def signed (width : ℕ) (value : Int) : Word := ⟨width, (value % (256 ^ width : ℕ)).toNat⟩

@[simp] theorem width_signed (width : ℕ) (value : Int) : (signed width value).width = width := rfl

theorem signed_fits (width : ℕ) (value : Int) : (signed width value).Fits := by
  have positive : 0 < 256 ^ width := Nat.pow_pos (by decide)
  have below := Int.emod_lt_of_pos value (b := (256 ^ width : ℕ)) (by omega)
  simp only [Fits, signed]
  omega

/-- Eight bytes hold a signed value of 64 bits. -/
theorem bmod_signed {value : Int} (lower : -2 ^ 63 ≤ value) (upper : value < 2 ^ 63) :
    ((signed 8 value).value : Int).bmod (256 ^ 8) = value := by
  have nonneg : 0 ≤ value % (256 ^ 8 : ℕ) := Int.emod_nonneg _ (by decide)
  have width : (256 : ℕ) ^ 8 = 2 ^ 64 := by decide
  rw [signed, Int.toNat_of_nonneg nonneg, width, Int.emod_bmod]
  exact Int.bmod_eq_of_le (by omega) (by omega)

end Word

/-- The bytes of a structure that is these words. -/
def packed (words : List Word) : List UInt8 := words.flatMap Word.bytes

@[simp] theorem packed_nil : packed [] = [] := rfl

theorem packed_cons (word : Word) (words : List Word) :
    packed (word :: words) = word.bytes ++ packed words := List.flatMap_cons ..

@[simp] theorem packed_append (first second : List Word) :
    packed (first ++ second) = packed first ++ packed second := List.flatMap_append ..

@[simp] theorem length_packed (words : List Word) :
    (packed words).length = (words.map Word.width).sum := by
  induction words with
  | nil => rfl
  | cons word words ih =>
    rw [packed_cons, List.length_append, ih, List.map_cons, List.sum_cons, Word.bytes,
      length_littleEndian]

namespace Memory

/-- The words stand in memory from an address on. -/
def Holds (m : Memory) : ℕ → List Word → Prop
  | _, [] => True
  | start, word :: words =>
    m.wordAt start word.width = word.value ∧ m.Holds (start + word.width) words

theorem holds_nil (m : Memory) (start : ℕ) : m.Holds start [] ↔ True := Iff.rfl

theorem holds_cons (m : Memory) (start : ℕ) (word : Word) (words : List Word) :
    m.Holds start (word :: words) ↔
      m.wordAt start word.width = word.value ∧ m.Holds (start + word.width) words := Iff.rfl

theorem holds_append (m : Memory) (start : ℕ) (first second : List Word) :
    m.Holds start (first ++ second) ↔
      m.Holds start first ∧ m.Holds (start + (first.map Word.width).sum) second := by
  induction first generalizing start with
  | nil => simp [holds_nil]
  | cons word words ih =>
    rw [List.cons_append, holds_cons, holds_cons, ih, and_assoc, List.map_cons, List.sum_cons,
      Nat.add_assoc]

/-- A structure is read back where it stands. -/
theorem holds_placed (before : List UInt8) (words : List Word) (after : List UInt8)
    (behind : Memory) (fits : ∀ word ∈ words, word.Fits) :
    (placed (before ++ (packed words ++ after)) behind).Holds before.length words := by
  induction words generalizing before with
  | nil => trivial
  | cons word words ih =>
    rw [packed_cons, List.append_assoc]
    constructor
    · rw [wordAt_eq_iff _ _ _ _ (fits word List.mem_cons_self)]
      have read := bytesAt_placed before word.bytes (packed words ++ after) behind
      rwa [Word.bytes, length_littleEndian] at read
    · have rest := ih (before ++ word.bytes)
        (fun other member => fits other (List.mem_cons_of_mem _ member))
      rwa [List.append_assoc, List.length_append, Word.bytes, length_littleEndian] at rest

/-- What stands behind a structure is read back too. -/
theorem bytesAt_packed (before : List UInt8) (words : List Word) (bytes : List UInt8)
    (behind : Memory) :
    (placed (before ++ (packed words ++ bytes)) behind).bytesAt
      (before.length + (words.map Word.width).sum) bytes.length = bytes := by
  have read := bytesAt_placed (before ++ packed words) bytes [] behind
  rwa [List.append_nil, List.append_assoc, List.length_append, length_packed] at read

end Memory

end LibeventPaxos.Lib
