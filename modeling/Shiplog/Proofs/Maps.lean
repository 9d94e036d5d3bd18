import Mathlib
import Shiplog.Bytes
import Shiplog.OrderedMap

/-!
Ordered maps by their lookups. What an operation does to a map is what it does to each
lookup (`get?_insert`, `get?_erase`, `get?_filter`); every operation keeps the keys in
order, and two maps in order with the same lookups are the same (`Sorted.ext`).
-/
set_option linter.unusedSectionVars false
namespace Shiplog

/-- An order in which nothing comes before itself and any two things compare. -/
class Strict (κ : Type) [LT κ] : Prop where
  irrefl : ∀ a : κ, ¬ a < a
  trans : ∀ {a b c : κ}, a < b → b < c → a < c
  compares : ∀ a b : κ, a < b ∨ a = b ∨ b < a

instance : Strict Bytes where
  irrefl a := List.lt_irrefl a
  trans first second := List.lt_trans first second
  compares a b := by
    by_cases less : a < b
    · exact .inl less
    · rcases List.le_iff_lt_or_eq.mp (List.not_lt.mp less) with greater | same
      · exact .inr (.inr greater)
      · exact .inr (.inl same.symm)

instance : Strict String where
  irrefl a := String.lt_irrefl a
  trans first second := String.lt_trans first second
  compares a b := by
    by_cases less : a < b
    · exact .inl less
    · by_cases greater : b < a
      · exact .inr (.inr greater)
      · exact .inr (.inl (String.le_antisymm (String.not_lt.mp greater) (String.not_lt.mp less)))

namespace OrderedMap

variable {κ α β : Type} [DecidableEq κ] {m m' : OrderedMap κ α} {k k' : κ} {a : α}

/-! ## Lookups -/

@[simp] theorem get?_empty (k : κ) : (empty : OrderedMap κ α).get? k = none := rfl

theorem get?_cons (entries : List (κ × α)) (k k' : κ) (a : α) :
    (⟨(k, a) :: entries⟩ : OrderedMap κ α).get? k' = if k' = k then some a else (⟨entries⟩ : OrderedMap κ α).get? k' := by
  simp only [get?, List.lookup_cons]
  by_cases same : k' = k
  · simp [same]
  · have test : (k' == k) = false := beq_eq_false_iff_ne.mpr same
    simp [test, same]

theorem get?_erase (m : OrderedMap κ α) (k k' : κ) : (m.erase k).get? k' = if k' = k then none else m.get? k' := by
  obtain ⟨entries⟩ := m
  simp only [erase]
  induction entries with
  | nil => simp [get?]
  | cons entry rest ih =>
    obtain ⟨j, b⟩ := entry
    by_cases here : j = k
    · have passed : ((j, b) :: rest).filter (fun entry => !decide (entry.1 = k)) =
          rest.filter fun entry => !decide (entry.1 = k) := by simp [here]
      rw [passed, ih, get?_cons]
      by_cases same : k' = k
      · simp [same]
      · simp [same, here]
    · have kept : ((j, b) :: rest).filter (fun entry => !decide (entry.1 = k)) =
          (j, b) :: rest.filter fun entry => !decide (entry.1 = k) := by simp [here]
      rw [kept, get?_cons, get?_cons, ih]
      by_cases same : k' = k
      · have apart : ¬ k = j := fun back => here back.symm
        simp [same, apart]
      · simp [same]

theorem get?_mapValues (m : OrderedMap κ α) (change : α → β) (k : κ) :
    (m.mapValues change).get? k = (m.get? k).map change := by
  obtain ⟨entries⟩ := m
  simp only [mapValues]
  induction entries with
  | nil => rfl
  | cons entry rest ih =>
    obtain ⟨j, b⟩ := entry
    rw [List.map_cons, get?_cons, get?_cons, ih]
    split <;> rfl

theorem get?_modify (m : OrderedMap κ α) (k : κ) (change : α → α) (k' : κ) :
    (m.modify k change).get? k' = if k' = k then (m.get? k').map change else m.get? k' := by
  obtain ⟨entries⟩ := m
  simp only [modify]
  induction entries with
  | nil => simp [get?]
  | cons entry rest ih =>
    obtain ⟨j, b⟩ := entry
    rw [List.map_cons]
    by_cases here : j = k
    · simp only [here, ↓reduceIte, get?_cons, ih]
      by_cases same : k' = k <;> simp [same]
    · simp only [here, ↓reduceIte, get?_cons, ih]
      by_cases same : k' = j
      · have apart : ¬ k' = k := by rwa [same]
        simp [same, here]
      · simp [same]

section
variable [LT κ] [DecidableLT κ] [Strict κ]

theorem get?_insert (m : OrderedMap κ α) (k : κ) (a : α) (k' : κ) :
    (m.insert k a).get? k' = if k' = k then some a else m.get? k' := by
  obtain ⟨entries⟩ := m
  simp only [insert]
  induction entries with
  | nil => simp only [insertEntry, get?_cons]
  | cons entry rest ih =>
    obtain ⟨j, b⟩ := entry
    simp only [insertEntry]
    split
    · rw [get?_cons]
    · split
      · rename_i before
        have apart : j ≠ k := by
          rintro rfl
          exact Strict.irrefl j before
        rw [get?_cons, get?_cons, ih]
        by_cases same : k' = j
        · simp [same, apart]
        · simp [same]
      · rename_i notBefore notAfter
        have same : j = k := by
          rcases Strict.compares j k with less | same | greater
          · exact absurd less notAfter
          · exact same
          · exact absurd greater notBefore
        rw [get?_cons, get?_cons, same]
        by_cases here : k' = k <;> simp [here]

end

/-! ## Order -/

section
variable [LT κ]

def Sorted (m : OrderedMap κ α) : Prop := m.entries.Pairwise (·.1 < ·.1)

theorem Sorted.empty : (empty : OrderedMap κ α).Sorted := List.Pairwise.nil

theorem Sorted.erase (sorted : m.Sorted) (k : κ) : (m.erase k).Sorted := List.Pairwise.filter _ sorted

theorem Sorted.filter (sorted : m.Sorted) (keep : κ → α → Bool) : (m.filter keep).Sorted := List.Pairwise.filter _ sorted

theorem Sorted.mapValues (sorted : m.Sorted) (change : α → β) : (m.mapValues change).Sorted :=
  List.pairwise_map.mpr sorted

theorem Sorted.modify (sorted : m.Sorted) (k : κ) (change : α → α) : (m.modify k change).Sorted := by
  refine List.pairwise_map.mpr (sorted.imp ?_)
  intro a b less
  by_cases first : a.1 = k <;> by_cases second : b.1 = k <;> simp [first, second] <;> simpa [first, second] using less

variable [DecidableLT κ] [Strict κ]

theorem mem_insertEntry {entries : List (κ × α)} {entry : κ × α} (member : entry ∈ insertEntry k a entries) :
    entry = (k, a) ∨ entry ∈ entries := by
  induction entries with
  | nil => simpa [insertEntry] using member
  | cons head rest ih =>
    obtain ⟨j, b⟩ := head
    simp only [insertEntry] at member
    split at member
    · exact List.mem_cons.mp member
    · split at member
      · rcases List.mem_cons.mp member with same | later
        · exact .inr (by simp [same])
        · rcases ih later with same | before
          · exact .inl same
          · exact .inr (List.mem_cons_of_mem _ before)
      · rcases List.mem_cons.mp member with same | later
        · exact .inl same
        · exact .inr (List.mem_cons_of_mem _ later)

theorem Sorted.insert (sorted : m.Sorted) (k : κ) (a : α) : (m.insert k a).Sorted := by
  obtain ⟨entries⟩ := m
  simp only [Sorted, OrderedMap.insert] at sorted ⊢
  induction entries with
  | nil => simp [insertEntry]
  | cons entry rest ih =>
    obtain ⟨j, b⟩ := entry
    obtain ⟨first, later⟩ := List.pairwise_cons.mp sorted
    simp only [insertEntry]
    split
    · rename_i before
      refine List.pairwise_cons.mpr ⟨?_, sorted⟩
      intro entry member
      rcases List.mem_cons.mp member with same | below
      · rw [same]
        exact before
      · exact Strict.trans before (first entry below)
    · split
      · rename_i after
        refine List.pairwise_cons.mpr ⟨?_, ih later⟩
        intro entry member
        rcases mem_insertEntry member with same | below
        · rw [same]
          exact after
        · exact first entry below
      · rename_i notBefore notAfter
        have same : j = k := by
          rcases Strict.compares j k with less | same | greater
          · exact absurd less notAfter
          · exact same
          · exact absurd greater notBefore
        refine List.pairwise_cons.mpr ⟨?_, later⟩
        rw [← same]
        exact first

theorem Sorted.get?_eq_some (sorted : m.Sorted) : m.get? k = some a ↔ (k, a) ∈ m.entries := by
  obtain ⟨entries⟩ := m
  simp only [Sorted] at sorted
  induction entries with
  | nil => simp [get?]
  | cons entry rest ih =>
    obtain ⟨j, b⟩ := entry
    obtain ⟨first, later⟩ := List.pairwise_cons.mp sorted
    rw [get?_cons, List.mem_cons, Prod.mk.injEq]
    by_cases same : k = j
    · subst same
      have once : (k, a) ∉ rest := fun member => Strict.irrefl k (first _ member)
      simp [once, eq_comm]
    · simp [same, ih later]

theorem Sorted.mem_keys (sorted : m.Sorted) : k ∈ m.keys ↔ ∃ a, m.get? k = some a := by
  constructor
  · intro member
    obtain ⟨⟨k', a⟩, inside, rfl⟩ := List.mem_map.mp member
    exact ⟨a, sorted.get?_eq_some.mpr inside⟩
  · rintro ⟨a, found⟩
    exact List.mem_map_of_mem (sorted.get?_eq_some.mp found)

theorem Sorted.nodup_keys (sorted : m.Sorted) : m.keys.Nodup := by
  refine List.pairwise_map.mpr (List.Pairwise.imp ?_ sorted)
  intro a b less same
  rw [same] at less
  exact Strict.irrefl b.1 less

/-- A filtered map has the lookups that satisfy the condition. -/
theorem Sorted.get?_filter (sorted : m.Sorted) (keep : κ → α → Bool) (k : κ) :
    (m.filter keep).get? k = (m.get? k).filter (keep k) := by
  cases found : m.get? k with
  | none =>
    rw [Option.filter_none, Option.eq_none_iff_forall_ne_some]
    intro a again
    have member := (sorted.filter keep).get?_eq_some.mp again
    rw [sorted.get?_eq_some.mpr (List.mem_of_mem_filter member)] at found
    cases found
  | some a =>
    have member := sorted.get?_eq_some.mp found
    by_cases kept : keep k a = true
    · rw [Option.filter_some, if_pos kept, (sorted.filter keep).get?_eq_some]
      exact List.mem_filter.mpr ⟨member, kept⟩
    · rw [Option.filter_some, if_neg kept, Option.eq_none_iff_forall_ne_some]
      intro b again
      obtain ⟨there, keeps⟩ := List.mem_filter.mp ((sorted.filter keep).get?_eq_some.mp again)
      rw [sorted.get?_eq_some.mpr there, Option.some.injEq] at found
      exact kept (found ▸ keeps)

/-- Two maps in order with the same lookups are the same. -/
theorem Sorted.ext (sorted : m.Sorted) (sorted' : m'.Sorted) (same : ∀ k, m.get? k = m'.get? k) : m = m' := by
  have once : ∀ {m : OrderedMap κ α}, m.Sorted → m.entries.Nodup := by
    intro m sorted
    refine List.Pairwise.imp ?_ sorted
    rintro a b less rfl
    exact Strict.irrefl a.1 less
  have members : ∀ entry, entry ∈ m.entries ↔ entry ∈ m'.entries := by
    rintro ⟨k, a⟩
    rw [← sorted.get?_eq_some, ← sorted'.get?_eq_some, same]
  have perm := (List.perm_ext_iff_of_nodup (once sorted) (once sorted')).mpr members
  have entries : m.entries = m'.entries := by
    refine perm.eq_of_pairwise ?_ sorted sorted'
    intro a b _ _ less greater
    exact absurd (Strict.trans less greater) (Strict.irrefl a.1)
  cases m
  cases m'
  exact congrArg OrderedMap.mk entries

theorem erase_absent (sorted : m.Sorted) (absent : m.get? k = none) : m.erase k = m := by
  refine (sorted.erase k).ext sorted fun k' => ?_
  rw [get?_erase]
  split
  · rename_i same
    rw [same, absent]
  · rfl

theorem insert_same (sorted : m.Sorted) (found : m.get? k = some a) : m.insert k a = m := by
  refine (sorted.insert k a).ext sorted fun k' => ?_
  rw [get?_insert]
  split
  · rename_i same
    rw [same, found]
  · rfl

end

end OrderedMap
end Shiplog
