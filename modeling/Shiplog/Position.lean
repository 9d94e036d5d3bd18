/-!
Positions in a log. A position names the term, the segment file (its collection
number) and the number of pages written to that segment; positions are ordered
field by field, the term first.
-/
namespace Shiplog

/-- A point in a log. -/
structure Position where
  /-- The epoch; it grows only when a node starts a new term. -/
  term : UInt64
  /-- The number of the segment file; it grows with every new segment. -/
  collection : UInt64
  /-- The pages written to the segment so far. -/
  seq : UInt64
  deriving DecidableEq

namespace Position

/-- The position of an empty log: the first term, before the first segment. -/
def start : Position := ⟨1, 0, 0⟩

instance : Inhabited Position := ⟨start⟩

/-- The order of two positions: by term, then collection, then pages. -/
def order (p q : Position) : Ordering :=
  (compare p.term q.term).then ((compare p.collection q.collection).then (compare p.seq q.seq))

instance : Ord Position := ⟨order⟩

/-- Before: a lower term, or the same term and a lower collection, or the same
    segment and fewer pages. -/
def Before (p q : Position) : Prop :=
  p.term < q.term ∨ p.term = q.term ∧
    (p.collection < q.collection ∨ p.collection = q.collection ∧ p.seq < q.seq)

instance : LT Position := ⟨Before⟩

instance : LE Position := ⟨fun p q => p < q ∨ p = q⟩

instance (p q : Position) : Decidable (p < q) :=
  inferInstanceAs (Decidable (p.term < q.term ∨ p.term = q.term ∧
    (p.collection < q.collection ∨ p.collection = q.collection ∧ p.seq < q.seq)))

instance (p q : Position) : Decidable (p ≤ q) :=
  inferInstanceAs (Decidable (p < q ∨ p = q))

/-- A position at or before another in the segment order, pages aside. -/
def segmentLE (p q : Position) : Bool :=
  decide (p.term < q.term) || (decide (p.term = q.term) && decide (p.collection ≤ q.collection))

/-- The position with its fields in decimal, separated by colons. -/
def text (p : Position) : String :=
  s!"{p.term.toNat}:{p.collection.toNat}:{p.seq.toNat}"

theorem lt_def (p q : Position) : p < q ↔ p.term < q.term ∨ p.term = q.term ∧
    (p.collection < q.collection ∨ p.collection = q.collection ∧ p.seq < q.seq) := Iff.rfl

theorem le_def (p q : Position) : p ≤ q ↔ p < q ∨ p = q := Iff.rfl

end Position
end Shiplog
