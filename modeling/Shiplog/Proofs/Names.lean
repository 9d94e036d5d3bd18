import Shiplog.Proofs.Directories
import Shiplog.Segment

/-!
The names of files. Hexadecimal digits spell back the number that they were made
from, so a segment's name gives back its term and collection and the name of a key's
file the key; both are plain names, made of lower-case digits alone.
-/
namespace Shiplog

namespace Hex

theorem digitChar_spec (d : Nat) (small : d < 16) : value? (Nat.digitChar d) = some d ∧
    isLower (Nat.digitChar d) = true ∧ (Nat.digitChar d).utf8Size = 1 := by
  have all : ∀ d : Fin 16, value? (Nat.digitChar d) = some d.val ∧
    isLower (Nat.digitChar d) = true ∧ (Nat.digitChar d).utf8Size = 1 := by decide
  exact all ⟨d, small⟩

@[simp] theorem length_digits (width n : Nat) : (digits width n).length = width := by
  induction width generalizing n with
  | zero => rfl
  | succ width ih => simp [digits, ih]

theorem mem_digits {width n : Nat} {c : Char} (member : c ∈ digits width n) :
    isLower c = true ∧ c.utf8Size = 1 := by
  induction width generalizing n with
  | zero => simp [digits] at member
  | succ width ih =>
    rw [digits, List.mem_append, List.mem_singleton] at member
    rcases member with earlier | same
    · exact ih earlier
    · subst same
      exact (digitChar_spec (n % 16) (Nat.mod_lt _ (by decide))).2

theorem toNatFrom?_append (n : Nat) (cs ds : List Char) :
    toNatFrom? n (cs ++ ds) = (toNatFrom? n cs).bind fun m => toNatFrom? m ds := by
  induction cs generalizing n with
  | nil => rfl
  | cons c cs ih =>
    simp only [List.cons_append, toNatFrom?]
    cases value? c with
    | none => rfl
    | some d => exact ih _

theorem toNatFrom?_digits (m width n : Nat) :
    toNatFrom? m (digits width n) = some (m * 16 ^ width + n % 16 ^ width) := by
  induction width generalizing n with
  | zero => simp [digits, toNatFrom?, Nat.mod_one]
  | succ width ih =>
    have digit := (digitChar_spec (n % 16) (Nat.mod_lt _ (by decide))).1
    rw [digits, toNatFrom?_append, ih]
    simp only [Option.bind_some, toNatFrom?, digit, Option.some.injEq]
    rw [Nat.pow_succ, Nat.mul_comm (16 ^ width) 16, Nat.mod_mul, Nat.mul_add, Nat.mul_left_comm]
    omega

/-- Digits spell the number that they were made from. -/
theorem toNat?_digits {width n : Nat} (small : n < 16 ^ width) : toNat? (digits width n) = some n := by
  rw [toNat?, toNatFrom?_digits, Nat.zero_mul, Nat.zero_add, Nat.mod_eq_of_lt small]

/-- Characters of one byte each take as many bytes as there are. -/
theorem utf8Len_eq {cs : List Char} (small : ∀ c ∈ cs, c.utf8Size = 1) : String.utf8Len cs = cs.length := by
  induction cs with
  | nil => rfl
  | cons c cs ih =>
    rw [String.utf8Len_cons, ih fun d member => small d (List.mem_cons_of_mem _ member), small c List.mem_cons_self,
      List.length_cons]

/-- A text of lower-case digits is a plain name, unless it is empty or too long. -/
theorem plain_of_lower {cs : List Char} (lower : ∀ c ∈ cs, isLower c = true ∧ c.utf8Size = 1) (ne : cs ≠ [])
    (short : cs.length ≤ Path.maxNameSize) :
    Path.Plain (String.ofList cs) ∧ Path.nameSize (String.ofList cs) = cs.length := by
  have size : Path.nameSize (String.ofList cs) = cs.length := by
    rw [Path.nameSize, String.utf8ByteSize_ofList, utf8Len_eq fun c member => (lower c member).2]
  have noDot : '.' ∉ cs := fun member => absurd (lower _ member).1 (by decide)
  refine ⟨⟨⟨?_, ?_, ?_⟩, ?_, ?_⟩, size⟩
  · intro same
    have := congrArg String.toList same
    simp [ne] at this
  · intro same
    have := congrArg String.toList same
    rw [String.toList_ofList] at this
    exact noDot (by rw [this]; decide)
  · intro same
    have := congrArg String.toList same
    rw [String.toList_ofList] at this
    exact noDot (by rw [this]; decide)
  · rw [size]
    exact short
  · intro c member zero
    rw [String.toList_ofList] at member
    have low := (lower c member).1
    have nul : c = '\x00' := Char.ext (UInt32.toNat_inj.mp zero)
    rw [nul] at low
    exact absurd low (by decide)

/-! ## Bytes -/

theorem pairs?_ofByte (b : UInt8) (rest : List Char) :
    pairs? (ofByte b ++ rest) = (pairs? rest).map (b :: ·) := by
  have all : ∀ n : Fin 256, toNat? (digits 2 n) = some n.val := fun n => toNat?_digits n.isLt
  have spelt := all ⟨b.toNat, b.toNat_lt⟩
  obtain ⟨c, d, two⟩ : ∃ c d, digits 2 b.toNat = [c, d] := ⟨_, _, rfl⟩
  have lower : ∀ x ∈ digits 2 b.toNat, isLower x = true := fun x member => (mem_digits member).1
  rw [two] at spelt lower
  have first := lower c (by simp)
  have second := lower d (by simp)
  simp only [ofByte, two, List.cons_append, List.nil_append, pairs?, first, second, Bool.and_self, ↓reduceIte, spelt,
    Option.bind_some, UInt8.ofNat_toNat]

theorem pairs?_ofBytes (bs : Bytes) : pairs? (bs.flatMap ofByte) = some bs := by
  induction bs with
  | nil => rfl
  | cons b bs ih => rw [List.flatMap_cons, pairs?_ofByte, ih, Option.map_some]

/-- The text of bytes gives the bytes back. -/
theorem toBytes?_ofBytes (bs : Bytes) : toBytes? (ofBytes bs) = some bs := by
  rw [toBytes?, ofBytes, String.toList_ofList, pairs?_ofBytes]

theorem length_flatMap_ofByte (bs : Bytes) : (bs.flatMap ofByte).length = 2 * bs.length := by
  induction bs with
  | nil => rfl
  | cons b bs ih => simp [ofByte, ih, Nat.mul_add, Nat.add_comm]

theorem mem_flatMap_ofByte {bs : Bytes} {c : Char} (member : c ∈ bs.flatMap ofByte) :
    isLower c = true ∧ c.utf8Size = 1 := by
  obtain ⟨b, -, digit⟩ := List.mem_flatMap.mp member
  exact mem_digits digit

end Hex

namespace Segment

variable (term collection : UInt64)

/-- The bytes that the name of a segment takes. -/
def nameWidth : Nat := 32

theorem plain_name : Path.Plain (name term collection) ∧ Path.nameSize (name term collection) = nameWidth := by
  have lower : ∀ c ∈ Hex.digits 16 term.toNat ++ Hex.digits 16 collection.toNat,
      Hex.isLower c = true ∧ c.utf8Size = 1 := by
    intro c member
    rcases List.mem_append.mp member with first | second
    · exact Hex.mem_digits first
    · exact Hex.mem_digits second
  have length : (Hex.digits 16 term.toNat ++ Hex.digits 16 collection.toNat).length = 32 := by simp
  have ne : Hex.digits 16 term.toNat ++ Hex.digits 16 collection.toNat ≠ [] := by
    intro empty
    simp [empty] at length
  have plain := Hex.plain_of_lower lower ne (by rw [length]; decide)
  exact ⟨plain.1, plain.2.trans length⟩

/-- The name of a segment gives back its term and collection. -/
theorem parseName?_name (termPos : term ≠ 0) (collectionPos : collection ≠ 0) :
    parseName? (name term collection) = some (term, collection) := by
  have first : Hex.toNat? (Hex.digits 16 term.toNat) = some term.toNat :=
    Hex.toNat?_digits (Nat.lt_of_lt_of_le term.toNat_lt (by decide))
  have second : Hex.toNat? (Hex.digits 16 collection.toNat) = some collection.toNat :=
    Hex.toNat?_digits (Nat.lt_of_lt_of_le collection.toNat_lt (by decide))
  have pos : ¬ (term.toNat = 0 ∨ collection.toNat = 0) := by
    rintro (zero | zero)
    · exact termPos (UInt64.toNat_inj.mp zero)
    · exact collectionPos (UInt64.toNat_inj.mp zero)
  simp only [parseName?, name, String.toList_ofList, List.length_append, Hex.length_digits, Nat.reduceAdd, ne_eq,
    not_true_eq_false, ↓reduceIte, List.take_left' (Hex.length_digits 16 _), List.drop_left' (Hex.length_digits 16 _),
    first, second, pos, UInt64.ofNat_toNat]

end Segment
end Shiplog
