import Mathlib
import Shiplog.Position

/-!
The order of positions. A position has a rank, one number for its three fields, and
positions compare as their ranks do; so every fact about the order is one of numbers.
-/
namespace Shiplog.Position

variable {p q r : Position}

/-- The three fields as one number, the term first. -/
def rank (p : Position) : Nat :=
  p.term.toNat * 2 ^ 128 + p.collection.toNat * 2 ^ 64 + p.seq.toNat

theorem lt_iff_rank : p < q ↔ p.rank < q.rank := by
  have pc := p.collection.toNat_lt
  have ps := p.seq.toNat_lt
  have qc := q.collection.toNat_lt
  have qs := q.seq.toNat_lt
  simp only [lt_def, rank, UInt64.lt_iff_toNat_lt, ← UInt64.toNat_inj]
  omega

theorem rank_inj : p.rank = q.rank ↔ p = q := by
  constructor
  · intro same
    have pc := p.collection.toNat_lt
    have ps := p.seq.toNat_lt
    have qc := q.collection.toNat_lt
    have qs := q.seq.toNat_lt
    unfold rank at same
    obtain ⟨term, collection, seq⟩ : p.term.toNat = q.term.toNat ∧ p.collection.toNat = q.collection.toNat ∧
        p.seq.toNat = q.seq.toNat := by omega
    cases p
    cases q
    simp_all [UInt64.toNat_inj]
  · rintro rfl
    rfl

theorem le_iff_rank : p ≤ q ↔ p.rank ≤ q.rank := by
  rw [le_def, lt_iff_rank, ← rank_inj]
  omega

theorem lt_irrefl (p : Position) : ¬ p < p := by
  rw [lt_iff_rank]
  omega

theorem lt_trans (first : p < q) (second : q < r) : p < r := by
  rw [lt_iff_rank] at *
  omega

theorem le_refl (p : Position) : p ≤ p := .inr rfl

theorem le_trans (first : p ≤ q) (second : q ≤ r) : p ≤ r := by
  rw [le_iff_rank] at *
  omega

theorem le_of_lt (less : p < q) : p ≤ q := .inl less

theorem lt_of_le_of_lt (first : p ≤ q) (second : q < r) : p < r := by
  rw [le_iff_rank] at first
  rw [lt_iff_rank] at *
  omega

theorem lt_of_lt_of_le (first : p < q) (second : q ≤ r) : p < r := by
  rw [le_iff_rank] at second
  rw [lt_iff_rank] at *
  omega

theorem not_lt : ¬ p < q ↔ q ≤ p := by
  rw [lt_iff_rank, le_iff_rank]
  omega

theorem not_le : ¬ p ≤ q ↔ q < p := by
  rw [lt_iff_rank, le_iff_rank]
  omega

end Shiplog.Position
