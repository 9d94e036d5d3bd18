/-!
Byte strings and the fixed-width words written in them. A word is a natural
number in base 256, least or most significant byte first.
-/
namespace Shiplog

/-- A byte string. -/
abbrev Bytes := List UInt8

namespace Bytes

/-- The lowest `width` bytes of a number, least significant first. -/
def ofNatLE : Nat → Nat → Bytes
  | 0, _ => []
  | width + 1, n => UInt8.ofNat n :: ofNatLE width (n / 256)

/-- The number that bytes spell, least significant first. -/
def toNatLE : Bytes → Nat
  | [] => 0
  | b :: bs => b.toNat + 256 * toNatLE bs

/-- The lowest `width` bytes of a number, most significant first. -/
def ofNatBE (width n : Nat) : Bytes :=
  (ofNatLE width n).reverse

/-- The number that bytes spell, most significant first. -/
def toNatBE (bs : Bytes) : Nat :=
  toNatLE bs.reverse

/-- The pieces of `size` bytes that a byte string falls into; the last may be
    shorter, and no piece is empty. -/
def chunks (size : Nat) (bs : Bytes) : List Bytes :=
  if _h : size = 0 ∨ bs = [] then [] else bs.take size :: chunks size (bs.drop size)
termination_by bs.length
decreasing_by
  cases bs with
  | nil => simp_all
  | cons b bs => simp [List.length_drop]; omega

def zeros (n : Nat) : Bytes :=
  List.replicate n 0

/-- Whether there are at least `n` bytes; no more than `n` are looked at. -/
def atLeast : Nat → Bytes → Bool
  | 0, _ => true
  | _ + 1, [] => false
  | n + 1, _ :: bs => atLeast n bs

/-- A byte string that starts as `start` does. -/
def startsWith (bs start : Bytes) : Bool :=
  start.isPrefixOf bs

/-! ## Words read back what was written -/

@[simp] theorem length_ofNatLE (width n : Nat) : (ofNatLE width n).length = width := by
  induction width generalizing n with
  | zero => rfl
  | succ width ih => simp [ofNatLE, ih]

@[simp] theorem length_ofNatBE (width n : Nat) : (ofNatBE width n).length = width := by
  simp [ofNatBE]

theorem atLeast_iff (n : Nat) (bs : Bytes) : atLeast n bs = true ↔ n ≤ bs.length := by
  induction n generalizing bs with
  | zero => simp [atLeast]
  | succ n ih => cases bs <;> simp [atLeast, ih]

/-! ## Pieces join to the whole -/

theorem flatten_chunks {size : Nat} (pos : 0 < size) (bs : Bytes) : (chunks size bs).flatten = bs := by
  fun_induction chunks size bs with
  | case1 bs stop =>
    rcases stop with zero | rfl
    · omega
    · rfl
  | case2 bs _ ih => rw [List.flatten_cons, ih, List.take_append_drop]

end Bytes
end Shiplog
