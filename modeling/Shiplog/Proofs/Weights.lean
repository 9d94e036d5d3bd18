import Shiplog.Proofs.DiskRuns

/-!
The bytes that a store in memory holds. The running count is that of the keys and values in the
entries, which stand in strictly ascending order of the keys, one for each key that has a value;
so no operation takes more off the count than is in it (`MemoryStore.run_accounts`).
-/
namespace Shiplog

namespace OrderedMap

variable {m : OrderedMap Bytes Bytes} {k v : Bytes}

/-- The bytes of the keys and values in a map. -/
def weight (m : OrderedMap Bytes Bytes) : Nat :=
  (m.entries.map fun entry => entry.1.length + entry.2.length).sum

/-- The bytes of a key and its value, where the key has one. -/
def share (m : OrderedMap Bytes Bytes) (k : Bytes) : Nat :=
  match m.get? k with
  | some old => k.length + old.length
  | none => 0

theorem weight_cons (j b : Bytes) (rest : List (Bytes × Bytes)) :
    weight ⟨(j, b) :: rest⟩ = j.length + b.length + weight ⟨rest⟩ := by
  simp [weight]

theorem share_of_ne {j : Bytes} (b : Bytes) (rest : List (Bytes × Bytes)) (ne : k ≠ j) :
    share ⟨(j, b) :: rest⟩ k = share ⟨rest⟩ k := by
  simp [share, get?_cons, ne]

theorem share_head (b : Bytes) (rest : List (Bytes × Bytes)) : share ⟨(k, b) :: rest⟩ k = k.length + b.length := by
  simp [share, get?_cons]

/-- A key before all others has no share. -/
theorem share_before {rest : List (Bytes × Bytes)} (sorted : Sorted ⟨rest⟩) (first : ∀ entry ∈ rest, k < entry.1) :
    share ⟨rest⟩ k = 0 := by
  rw [share]
  cases found : (⟨rest⟩ : OrderedMap Bytes Bytes).get? k with
  | none => rfl
  | some old => exact absurd (first _ (sorted.get?_eq_some.mp found)) (Strict.irrefl k)

/-- An entry put into a map takes the place of the share that its key had. -/
theorem Sorted.weight_insert (sorted : m.Sorted) (k v : Bytes) :
    (m.insert k v).weight + m.share k = m.weight + (k.length + v.length) := by
  obtain ⟨entries⟩ := m
  simp only [OrderedMap.insert]
  induction entries with
  | nil =>
    have none : share ⟨[]⟩ k = 0 := rfl
    simp only [insertEntry, weight_cons, none]
    omega
  | cons entry rest ih =>
    obtain ⟨j, b⟩ := entry
    obtain ⟨first, later⟩ := List.pairwise_cons.mp sorted
    by_cases before : k < j
    · have none : share ⟨(j, b) :: rest⟩ k = 0 := by
        refine share_before sorted fun entry member => ?_
        rcases List.mem_cons.mp member with rfl | member
        · exact before
        · exact Strict.trans before (first entry member)
      rw [insertEntry, if_pos before, weight_cons, none]
      omega
    · by_cases behind : j < k
      · have ne : k ≠ j := by
          rintro rfl
          exact before behind
        have rest := ih later
        rw [insertEntry, if_neg before, if_pos behind, weight_cons, weight_cons, share_of_ne _ _ ne]
        omega
      · obtain rfl : k = j := by
          rcases Strict.compares k j with less | same | greater
          · exact absurd less before
          · exact same
          · exact absurd greater behind
        rw [insertEntry, if_neg before, if_neg behind, weight_cons, weight_cons, share_head]
        omega

/-- A key taken out of a map takes its share with it. -/
theorem Sorted.weight_erase (sorted : m.Sorted) (k : Bytes) : (m.erase k).weight + m.share k = m.weight := by
  obtain ⟨entries⟩ := m
  induction entries with
  | nil => rfl
  | cons entry rest ih =>
    obtain ⟨j, b⟩ := entry
    obtain ⟨first, later⟩ := List.pairwise_cons.mp sorted
    have rest_erased := ih later
    by_cases same : j = k
    · subst same
      have gone : OrderedMap.erase ⟨(j, b) :: rest⟩ j = OrderedMap.erase ⟨rest⟩ j := by
        simp [OrderedMap.erase]
      rw [share_before later first] at rest_erased
      rw [gone, share_head, weight_cons]
      omega
    · have kept : (OrderedMap.erase ⟨(j, b) :: rest⟩ k).weight =
          j.length + b.length + (OrderedMap.erase ⟨rest⟩ k).weight := by
        simp [OrderedMap.erase, same, weight_cons]
      rw [kept, weight_cons, share_of_ne b rest (Ne.symm same)]
      omega

end OrderedMap

namespace MemoryStore

open DiskStore (Op)

variable {m : MemoryStore}

/-! ## One operation -/

/-- What an operation takes off the count: the bytes of a value that is replaced, or those of a
    key and its value. -/
def released (m : MemoryStore) : Op → Nat
  | .put key _ => ((m.get key).map List.length).getD 0
  | .delete key => m.table.share key
  | _ => 0

/-- What an operation adds to the count: the bytes of a value, and those of its key if that is
    not there yet. -/
def charged (m : MemoryStore) : Op → Nat
  | .put key value => if (m.get key).isSome then value.length else key.length + value.length
  | _ => 0

/-- The count is right, and the entries are in order. -/
structure Counted (m : MemoryStore) : Prop where
  sorted : m.table.Sorted
  size : m.size = m.table.weight

theorem Counted.share_le (counted : m.Counted) (key : Bytes) : m.table.share key ≤ m.size := by
  rw [counted.size, ← counted.sorted.weight_erase key]
  exact Nat.le_add_left _ _

/-- No more is taken off than was counted. -/
theorem Counted.released_le (counted : m.Counted) (op : Op) : m.released op ≤ m.size := by
  cases op with
  | put key value =>
    refine Nat.le_trans ?_ (counted.share_le key)
    rw [released, get, OrderedMap.share]
    cases m.table.get? key <;> simp
  | delete key => exact counted.share_le key
  | _ => exact Nat.zero_le _

/-- What an operation does to the count, where it can be done. -/
theorem size_inMemory (op : Op) (enough : m.released op ≤ m.size) :
    (op.inMemory m).2.size + m.released op = m.size + m.charged op := by
  cases op with
  | put key value =>
    simp only [Op.inMemory, put, released, charged] at enough ⊢
    cases found : m.get key with
    | none => simp
    | some old =>
      simp only [found, Option.map_some, Option.getD_some] at enough
      simp only [Option.map_some, Option.getD_some, Option.isSome_some, if_true]
      omega
  | delete key =>
    simp only [Op.inMemory, delete, get, released, charged, OrderedMap.share] at enough ⊢
    cases found : m.table.get? key with
    | none => simp
    | some old =>
      simp only [found] at enough ⊢
      omega
  | _ => rfl

theorem Counted.next (counted : m.Counted) (op : Op) : (op.inMemory m).2.Counted := by
  have size := size_inMemory op (counted.released_le op)
  have right := counted.size
  cases op with
  | put key value =>
    have weight := counted.sorted.weight_insert key value
    refine ⟨counted.sorted.insert key value, ?_⟩
    change _ = (m.table.insert key value).weight
    rw [released, charged, get] at size
    rw [OrderedMap.share] at weight
    cases found : m.table.get? key with
    | none =>
      simp only [found, Option.map_none, Option.getD_none, Option.isSome_none, Bool.false_eq_true, if_false] at size weight
      omega
    | some old =>
      simp only [found, Option.map_some, Option.getD_some, Option.isSome_some, if_true] at size weight
      omega
  | delete key =>
    have weight := counted.sorted.weight_erase key
    have table : (m.delete key).table = m.table.erase key := table_delete counted.sorted key
    refine ⟨?_, ?_⟩
    · change (m.delete key).table.Sorted
      rw [table]
      exact counted.sorted.erase key
    · change (m.delete key).size = (m.delete key).table.weight
      have size : (m.delete key).size + m.table.share key = m.size + 0 := size
      rw [table]
      omega
  | _ => exact counted

/-! ## Runs -/

/-- What is true of a store in memory after some operations. -/
structure Accounts (ops : List Op) (m : MemoryStore) : Prop where
  size : m.size = (m.entries.map fun entry => entry.1.length + entry.2.length).sum
  ascending : m.entries.Pairwise (·.1 < ·.1)
  /-- The entries are those of the keys that have a value. -/
  live : ∀ key value, (key, value) ∈ m.entries ↔ Op.lastValue key ops = some value
  /-- Whatever comes next, what is taken off the count is in it. -/
  released : ∀ op, m.released op ≤ m.size
  counts : ∀ op : Op, (op.inMemory m).2.size + m.released op = m.size + m.charged op

theorem Counted.run (counted : m.Counted) (ops : List Op) : (Op.run Op.inMemory m ops).Counted ∧
    ∀ key, (Op.run Op.inMemory m ops).table.get? key = ops.foldl (Op.valueAfter key) (m.table.get? key) := by
  induction ops generalizing m with
  | nil => exact ⟨counted, fun _ => rfl⟩
  | cons op rest ih =>
    obtain ⟨ends, recalls⟩ := ih (counted.next op)
    refine ⟨ends, fun key => (recalls key).trans ?_⟩
    rw [(Op.perform_inMemory counted.sorted op).2, Op.get?_effect]
    rfl

/-- After any run from an empty store the count is that of the entries: one for each key with the
    value last put and not deleted, in strictly ascending order of the keys. No operation takes
    more off the count than is in it. -/
theorem run_accounts (ops : List Op) : Accounts ops (Op.run Op.inMemory .empty ops) := by
  have begins : Counted .empty := ⟨.empty, rfl⟩
  obtain ⟨counted, recalls⟩ := begins.run ops
  refine ⟨counted.size, counted.sorted, fun key value => ?_, counted.released_le,
    fun op => size_inMemory op (counted.released_le op)⟩
  rw [entries, ← counted.sorted.get?_eq_some, recalls]
  rfl

/-- A value replaced by a longer one, and a key deleted twice. -/
example : (Op.run Op.inMemory .empty
    [.put [1, 2] [3], .put [1, 2] [4, 5, 6], .put [7] [], .delete [1, 2], .delete [1, 2]]).size = 1 := by
  decide

end MemoryStore
end Shiplog
