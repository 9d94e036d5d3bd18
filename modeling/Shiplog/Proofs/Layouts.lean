import Mathlib
import Shiplog.Entry
import Shiplog.Proofs.Readers

/-!
Words and packed layouts read back what was written. Writing a word and reading it undo
each other (`toNatLE_ofNatLE`, `ofNatLE_toNatLE`). A layout is canonical when its reader is exact for
what its writer writes (`Layout.Canonical`): it gives back each value whatever follows, takes a
value from its own spelling only, and refuses everything else. Layouts of parts that are
canonical make layouts of the whole that are. Only the lengths of byte strings and sequences are
bounded, by what their words can count.
-/
namespace Shiplog

/-! ## Words -/

namespace Bytes

theorem toNatLE_ofNatLE (width n : Nat) : toNatLE (ofNatLE width n) = n % 256 ^ width := by
  induction width generalizing n with
  | zero => simp [ofNatLE, toNatLE, Nat.mod_one]
  | succ width ih =>
    have digit : (UInt8.ofNat n).toNat = n % 256 := by simp [UInt8.toNat_ofNat']
    rw [ofNatLE, toNatLE, ih, digit, Nat.pow_succ, Nat.mul_comm (256 ^ width) 256, Nat.mod_mul]

theorem ofNatLE_toNatLE (bs : Bytes) : ofNatLE bs.length (toNatLE bs) = bs := by
  induction bs with
  | nil => rfl
  | cons b bs ih =>
    have digit := b.toNat_lt
    have low : UInt8.ofNat (b.toNat + 256 * toNatLE bs) = b := by
      apply UInt8.toNat_inj.mp
      simp only [UInt8.toNat_ofNat']
      omega
    have high : (b.toNat + 256 * toNatLE bs) / 256 = toNatLE bs := by omega
    rw [List.length_cons, toNatLE, ofNatLE, low, high, ih]

theorem toNatLE_lt (bs : Bytes) : toNatLE bs < 256 ^ bs.length := by
  have same := toNatLE_ofNatLE bs.length (toNatLE bs)
  rw [ofNatLE_toNatLE] at same
  rw [same]
  exact Nat.mod_lt _ (by positivity)

theorem toNatBE_ofNatBE (width n : Nat) : toNatBE (ofNatBE width n) = n % 256 ^ width := by
  rw [toNatBE, ofNatBE, List.reverse_reverse, toNatLE_ofNatLE]

theorem ofNatBE_toNatBE (bs : Bytes) : ofNatBE bs.length (toNatBE bs) = bs := by
  have same := ofNatLE_toNatLE bs.reverse
  rw [List.length_reverse] at same
  rw [ofNatBE, toNatBE, same, List.reverse_reverse]

theorem toNatBE_lt (bs : Bytes) : toNatBE bs < 256 ^ bs.length := by
  have bound := toNatLE_lt bs.reverse
  rwa [List.length_reverse] at bound

end Bytes

/-! ## Layouts -/

namespace Layout

variable {α β : Type} {layout : Layout α} {a : α}

/-- The reader gives back what the writer wrote, and leaves what follows. -/
def Spells (layout : Layout α) (a : α) : Prop :=
  ∀ rest, layout.read (layout.write a ++ rest) = .ok (a, rest)

theorem Spells.decode (spells : layout.Spells a) : layout.decode (layout.write a) = .ok a := by
  have read := spells []
  rw [List.append_nil] at read
  rw [Layout.decode, read]
  rfl

theorem Spells.parse (spells : layout.Spells a) : layout.parse (layout.write a) = .ok a := by
  rw [Layout.parse, spells.decode]
  rfl

/-- The bytes that are written for a value that can be counted. -/
def Spelling (layout : Layout α) (Counted : α → Prop) (w : Bytes) (a : α) : Prop :=
  Counted a ∧ w = layout.write a

/-- The reader takes the values that can be counted, each from what is written for it, and
    nothing else. -/
def Canonical (layout : Layout α) (Counted : α → Prop) (Flagged : Bytes → Prop) : Prop :=
  Exact layout.read (layout.Spelling Counted) Flagged

section
variable {Counted : α → Prop} {Flagged : Bytes → Prop} {second : Layout β} {Counted' : β → Prop} {Flagged' : Bytes → Prop}

theorem Canonical.spells (canonical : layout.Canonical Counted Flagged) (counted : Counted a) : layout.Spells a :=
  fun rest => canonical.reads (.spelled ⟨counted, rfl⟩ rest)

theorem exact_split (n : Nat) : Exact (split n) (fun w bs => bs = w ∧ w.length = n) fun _ => False where
  reads := by
    rintro _ _ @⟨_, front, ⟨rfl, rfl⟩, rest⟩
    have enough : Bytes.atLeast front.length (front ++ rest) = true := (Bytes.atLeast_iff _ _).mpr (by simp)
    rw [split, if_pos enough, List.take_left, List.drop_left]
  refuses := by
    intro bs flaw refusal
    cases refusal with
    | short spelled breaks =>
      have less : ¬ Bytes.atLeast n bs = true := by
        have some_more := List.length_pos_of_ne_nil breaks
        have length := spelled.2
        rw [List.length_append] at length
        rw [Bytes.atLeast_iff]
        omega
      rw [split, if_neg less]
    | flag flagged => exact flagged.elim
  covers := by
    intro bs
    by_cases enough : n ≤ bs.length
    · have front : Front (fun w bs => bs = w ∧ w.length = n) (bs.take n ++ bs.drop n) (bs.take n, bs.drop n) :=
        .spelled ⟨rfl, by simpa using enough⟩ _
      rw [List.take_append_drop] at front
      exact .inl ⟨_, front⟩
    · have whole : (bs ++ Bytes.zeros (n - bs.length)).length = n := by
        simp [Bytes.zeros]
        omega
      have breaks : Bytes.zeros (n - bs.length) ≠ [] := by
        simp [Bytes.zeros]
        omega
      exact .inr ⟨_, .short ⟨rfl, whole⟩ breaks⟩
  inhabited := ⟨Bytes.zeros n, _, rfl, by simp [Bytes.zeros]⟩

theorem write_bytes (bs : Bytes) : bytes.write bs = word.write (UInt64.ofNat bs.length) ++ bs := rfl

theorem write_word (n : UInt64) : word.write n = Bytes.ofNatLE 8 n.toNat := rfl

theorem canonical_word : word.Canonical (fun _ => True) fun _ => False := by
  refine ((exact_split 8).map fun spelt => UInt64.ofNat (Bytes.toNatLE spelt)).congr (fun w n => ?_) fun _ => Iff.rfl
  constructor
  · rintro ⟨spelt, ⟨rfl, eight⟩, rfl⟩
    have word : Bytes.toNatLE spelt < 2 ^ 64 := by
      have bound := Bytes.toNatLE_lt spelt
      rwa [eight] at bound
    have same := Bytes.ofNatLE_toNatLE spelt
    rw [eight] at same
    refine ⟨trivial, ?_⟩
    rw [write_word, UInt64.toNat_ofNat', Nat.mod_eq_of_lt word, same]
  · rintro ⟨-, rfl⟩
    refine ⟨_, ⟨rfl, Bytes.length_ofNatLE 8 n.toNat⟩, ?_⟩
    rw [write_word, Bytes.toNatLE_ofNatLE, Nat.mod_eq_of_lt (Nat.lt_of_lt_of_le n.toNat_lt (by decide)), UInt64.ofNat_toNat]

theorem canonical_flag : flag.Canonical (fun _ => True) fun front => front = [] where
  reads := by
    rintro _ _ @⟨_, b, ⟨-, rfl⟩, rest⟩
    cases b <;> simp [flag]
  refuses := by
    intro bs flaw refusal
    cases refusal with
    | @short _ more b spelled breaks =>
      have one : (bs ++ more).length = 1 := by rw [spelled.2, flag, List.length_singleton]
      have some_more := List.length_pos_of_ne_nil breaks
      obtain rfl : bs = [] := by
        rw [List.length_append] at one
        exact List.eq_nil_of_length_eq_zero (by omega)
      rfl
    | flag flagged zero one rest =>
      subst flagged
      simp [flag, zero, one]
  covers := by
    intro bs
    match bs with
    | [] => exact .inr ⟨_, .short ⟨trivial, List.nil_append _⟩ (List.cons_ne_nil (if false then 1 else 0) [])⟩
    | b :: rest =>
      by_cases zero : b = 0
      · subst zero
        refine .inl ⟨(false, rest), ?_⟩
        show Front _ ([0] ++ rest) _
        exact .spelled ⟨trivial, rfl⟩ rest
      by_cases one : b = 1
      · subst one
        refine .inl ⟨(true, rest), ?_⟩
        show Front _ ([1] ++ rest) _
        exact .spelled ⟨trivial, rfl⟩ rest
      · refine .inr ⟨.badFlag b, ?_⟩
        show Refusal _ _ ([] ++ b :: rest) _
        exact .flag (by rfl) zero one rest
  inhabited := ⟨_, true, trivial, rfl⟩

theorem Canonical.congr {Counted₁ : α → Prop} {Flagged₁ : Bytes → Prop} (canonical : layout.Canonical Counted Flagged)
    (counted : ∀ a, Counted a ↔ Counted₁ a) (flagged : ∀ front, Flagged front ↔ Flagged₁ front) :
    layout.Canonical Counted₁ Flagged₁ :=
  Exact.congr canonical (fun _ a => and_congr_left fun _ => counted a) flagged

theorem canonical_bytes : bytes.Canonical (fun bs => bs.length < 2 ^ 64) fun _ => False := by
  refine (canonical_word.andThen fun {_ n} _ => exact_split n.toNat).congr (fun w bs => ?_) fun front => ?_
  · constructor
    · rintro ⟨_, n, _, ⟨-, rfl⟩, ⟨rfl, length⟩, rfl⟩
      refine ⟨length.trans_lt n.toNat_lt, ?_⟩
      rw [write_bytes, length, UInt64.ofNat_toNat]
    · rintro ⟨short, rfl⟩
      have count : (UInt64.ofNat bs.length).toNat = bs.length := by
        rw [UInt64.toNat_ofNat', Nat.mod_eq_of_lt short]
      exact ⟨_, UInt64.ofNat bs.length, bs, ⟨trivial, rfl⟩, ⟨rfl, count.symm⟩, rfl⟩
  · simp [Within]

theorem Canonical.both (first : layout.Canonical Counted Flagged) (later : second.Canonical Counted' Flagged') :
    (Layout.both layout second).Canonical (fun p => Counted p.1 ∧ Counted' p.2) fun front =>
      Flagged front ∨ ∃ a front', Counted a ∧ Flagged' front' ∧ front = layout.write a ++ front' := by
  have exact : Exact (andThen layout.read fun a => andThen second.read fun b => taken (a, b)) _ _ :=
    first.andThen fun {_ a} _ => Exact.map later fun b => (a, b)
  refine exact.congr (fun w p => ?_) fun front => ?_
  · constructor
    · rintro ⟨_, a, _, ⟨counted, rfl⟩, ⟨b, ⟨counted', rfl⟩, rfl⟩, rfl⟩
      exact ⟨⟨counted, counted'⟩, rfl⟩
    · rintro ⟨⟨counted, counted'⟩, rfl⟩
      exact ⟨_, p.1, _, ⟨counted, rfl⟩, ⟨p.2, ⟨counted', rfl⟩, rfl⟩, rfl⟩
  · refine or_congr_right ⟨?_, ?_⟩
    · rintro ⟨_, a, front', ⟨counted, rfl⟩, flagged, rfl⟩
      exact ⟨a, front', counted, flagged, rfl⟩
    · rintro ⟨a, front', counted, flagged, rfl⟩
      exact ⟨_, a, front', ⟨counted, rfl⟩, flagged, rfl⟩

theorem Canonical.imap {toFields : β → α} {ofFields : α → β} (fields : layout.Canonical Counted Flagged)
    (back : ∀ b, ofFields (toFields b) = b) (forth : ∀ a, toFields (ofFields a) = a) :
    (Layout.imap toFields ofFields layout).Canonical (fun b => Counted (toFields b)) Flagged := by
  have exact : Exact (andThen layout.read fun a => taken (ofFields a)) _ _ := Exact.map fields ofFields
  refine exact.congr (fun w b => ?_) fun _ => Iff.rfl
  constructor
  · rintro ⟨a, ⟨counted, rfl⟩, rfl⟩
    show Counted (toFields (ofFields a)) ∧ layout.write a = layout.write (toFields (ofFields a))
    rw [forth]
    exact ⟨counted, rfl⟩
  · rintro ⟨counted, rfl⟩
    exact ⟨toFields b, ⟨counted, rfl⟩, (back b).symm⟩

/-- Some values one after another. -/
def Items (layout : Layout α) (Counted : α → Prop) (n : Nat) (w : Bytes) (items : List α) : Prop :=
  items.length = n ∧ (∀ a ∈ items, Counted a) ∧ w = items.flatMap layout.write

/-- What stands in front of a flag in one of some values: the values before it, and what stands in
    front of the flag in this one. -/
def FlaggedItem (layout : Layout α) (Counted : α → Prop) (Flagged : Bytes → Prop) (n : Nat) (front : Bytes) : Prop :=
  ∃ (before : List α) (front' : Bytes), before.length < n ∧ (∀ a ∈ before, Counted a) ∧ Flagged front' ∧
    front = before.flatMap layout.write ++ front'

theorem Canonical.items (item : layout.Canonical Counted Flagged) (n : Nat) :
    Exact (readItems layout n) (layout.Items Counted n) (layout.FlaggedItem Counted Flagged n) := by
  induction n with
  | zero =>
    refine (exact_taken []).congr (fun w items => ?_) fun front => ?_
    · constructor
      · rintro ⟨rfl, rfl⟩
        exact ⟨rfl, by simp, rfl⟩
      · rintro ⟨none, -, rfl⟩
        obtain rfl := List.eq_nil_of_length_eq_zero none
        exact ⟨rfl, rfl⟩
    · simp [FlaggedItem]
  | succ n ih =>
    have exact : Exact (andThen layout.read fun a => andThen (readItems layout n) fun items => taken (a :: items)) _ _ :=
      Exact.andThen item fun {_ a} _ => ih.map (a :: ·)
    refine exact.congr (fun w items => ?_) fun front => ?_
    · constructor
      · rintro ⟨_, a, _, ⟨counted, rfl⟩, ⟨items, ⟨rfl, all, rfl⟩, rfl⟩, rfl⟩
        exact ⟨rfl, List.forall_mem_cons.mpr ⟨counted, all⟩, rfl⟩
      · rintro ⟨length, all, rfl⟩
        obtain ⟨a, items, rfl⟩ := List.exists_cons_of_length_eq_add_one length
        rw [List.forall_mem_cons] at all
        exact ⟨_, a, _, ⟨all.1, rfl⟩, ⟨items, ⟨Nat.succ.inj length, all.2, rfl⟩, rfl⟩, rfl⟩
    · constructor
      · rintro (flagged | ⟨_, a, _, ⟨counted, rfl⟩, ⟨before, front', fewer, all, flagged, rfl⟩, rfl⟩)
        · exact ⟨[], front, Nat.succ_pos n, by simp, flagged, rfl⟩
        · refine ⟨a :: before, front', Nat.succ_lt_succ fewer, List.forall_mem_cons.mpr ⟨counted, all⟩, flagged, ?_⟩
          rw [List.flatMap_cons, List.append_assoc]
      · rintro ⟨before, front', fewer, all, flagged, rfl⟩
        cases before with
        | nil => exact .inl flagged
        | cons a before =>
          rw [List.forall_mem_cons] at all
          refine .inr ⟨_, a, _, ⟨all.1, rfl⟩, ⟨before, front', Nat.lt_of_succ_lt_succ fewer, all.2, flagged, rfl⟩, ?_⟩
          rw [List.flatMap_cons, List.append_assoc]

theorem write_list (items : List α) :
    (Layout.list layout).write items = word.write (UInt64.ofNat items.length) ++ items.flatMap layout.write := rfl

theorem Canonical.list (item : layout.Canonical Counted Flagged) :
    (Layout.list layout).Canonical (fun items => items.length < 2 ^ 64 ∧ ∀ a ∈ items, Counted a) fun front =>
      ∃ (n : UInt64) (front' : Bytes), layout.FlaggedItem Counted Flagged n.toNat front' ∧ front = word.write n ++ front' := by
  refine (canonical_word.andThen fun {_ n} _ => item.items n.toNat).congr (fun w items => ?_) fun front => ?_
  · constructor
    · rintro ⟨_, n, _, ⟨-, rfl⟩, ⟨length, all, rfl⟩, rfl⟩
      refine ⟨⟨length.trans_lt n.toNat_lt, all⟩, ?_⟩
      rw [write_list, length, UInt64.ofNat_toNat]
    · rintro ⟨⟨short, all⟩, rfl⟩
      have count : (UInt64.ofNat items.length).toNat = items.length := by
        rw [UInt64.toNat_ofNat', Nat.mod_eq_of_lt short]
      exact ⟨_, UInt64.ofNat items.length, _, ⟨trivial, rfl⟩, ⟨count.symm, all, rfl⟩, rfl⟩
  · constructor
    · rintro (impossible | ⟨_, n, front', ⟨-, rfl⟩, flagged, rfl⟩)
      · exact impossible.elim
      · exact ⟨n, front', flagged, rfl⟩
    · rintro ⟨n, front', flagged, rfl⟩
      exact .inr ⟨_, n, front', ⟨trivial, rfl⟩, flagged, rfl⟩

end
end Layout

open Layout

/-! ## Values -/

theorem Position.canonical : Position.layout.Canonical (fun _ => True) fun _ => False := by
  refine ((canonical_word.both (canonical_word.both canonical_word)).imap (fun _ => rfl) fun _ => rfl).congr
    (fun p => ?_) fun front => ?_
  · simp
  · simp

theorem Position.spells (p : Position) : Position.layout.Spells p :=
  Position.canonical.spells trivial

@[simp] theorem Position.length_write (p : Position) : (Position.layout.write p).length = 24 := by
  simp [Position.layout, Layout.imap, Layout.both, Layout.word]

/-- An entry whose key and value can be counted. -/
def Entry.Counted (entry : Entry) : Prop := entry.key.length < 2 ^ 64 ∧ entry.value.length < 2 ^ 64

/-- What stands in front of the flag in an entry: its key and its value. -/
def Entry.Flagged (front : Bytes) : Prop :=
  ∃ key value : Bytes, key.length < 2 ^ 64 ∧ value.length < 2 ^ 64 ∧ front = bytes.write key ++ bytes.write value

theorem Entry.canonical : Entry.layout.Canonical Entry.Counted Entry.Flagged := by
  refine ((canonical_bytes.both (canonical_bytes.both canonical_flag)).imap (fun _ => rfl) fun _ => rfl).congr
    (fun entry => ?_) fun front => ?_
  · simp [Entry.Counted]
  · simp [Entry.Flagged]

theorem Entry.Counted.spells {entry : Entry} (counted : entry.Counted) : Entry.layout.Spells entry :=
  Entry.canonical.spells counted

/-- What stands in front of the flag in a logged entry. -/
def LoggedEntry.Flagged (front : Bytes) : Prop :=
  ∃ (p : Position) (front' : Bytes), Entry.Flagged front' ∧ front = Position.layout.write p ++ front'

theorem LoggedEntry.canonical :
    LoggedEntry.layout.Canonical (fun record => record.entry.Counted) LoggedEntry.Flagged := by
  refine ((Position.canonical.both Entry.canonical).imap (fun _ => rfl) fun _ => rfl).congr (fun record => ?_) fun front => ?_
  · simp
  · simp [LoggedEntry.Flagged]

theorem LoggedEntry.spells {record : LoggedEntry} (counted : record.entry.Counted) :
    LoggedEntry.layout.Spells record :=
  LoggedEntry.canonical.spells counted

/-- A snapshot all of whose parts can be counted. -/
structure Snapshot.Counted (snapshot : Snapshot) : Prop where
  entries : snapshot.entries.length < 2 ^ 64
  strings : ∀ entry ∈ snapshot.entries, entry.1.length < 2 ^ 64 ∧ entry.2.length < 2 ^ 64

theorem Snapshot.canonical : Snapshot.layout.Canonical Snapshot.Counted fun _ => False := by
  have entries := (canonical_bytes.both canonical_bytes).list
  refine ((Position.canonical.both (canonical_word.both (canonical_word.both entries))).imap (fun _ => rfl)
    fun _ => rfl).congr (fun snapshot => ?_) fun front => ?_
  · constructor
    · rintro ⟨-, -, -, short, strings⟩
      exact ⟨short, strings⟩
    · rintro ⟨short, strings⟩
      exact ⟨trivial, trivial, trivial, short, strings⟩
  · simp [FlaggedItem]

/-- A payload all of whose parts can be counted. -/
structure SyncPayload.Counted (payload : SyncPayload) : Prop where
  entries : payload.snapshot.entries.length < 2 ^ 64
  strings : ∀ entry ∈ payload.snapshot.entries, entry.1.length < 2 ^ 64 ∧ entry.2.length < 2 ^ 64
  logs : payload.logs.length < 2 ^ 64
  records : ∀ record ∈ payload.logs, record.entry.Counted

/-- What stands in front of a flag in what brings a standby up to date: the snapshot, the number
    of logged entries, and what stands in front of the flag in one of these. -/
def SyncPayload.Flagged (front : Bytes) : Prop :=
  ∃ (snapshot : Snapshot) (n : UInt64) (front' : Bytes), snapshot.Counted ∧
    LoggedEntry.layout.FlaggedItem (fun record => record.entry.Counted) LoggedEntry.Flagged n.toNat front' ∧
    front = Snapshot.layout.write snapshot ++ (word.write n ++ front')

theorem SyncPayload.canonical : SyncPayload.layout.Canonical SyncPayload.Counted SyncPayload.Flagged := by
  refine ((Snapshot.canonical.both LoggedEntry.canonical.list).imap (fun _ => rfl) fun _ => rfl).congr
    (fun payload => ?_) fun front => ?_
  · constructor
    · rintro ⟨⟨entries, strings⟩, logs, records⟩
      exact ⟨entries, strings, logs, records⟩
    · rintro ⟨entries, strings, logs, records⟩
      exact ⟨⟨entries, strings⟩, logs, records⟩
  · constructor
    · rintro (impossible | ⟨snapshot, _, counted, ⟨n, front', flagged, rfl⟩, rfl⟩)
      · exact impossible.elim
      · exact ⟨snapshot, n, front', counted, flagged, rfl⟩
    · rintro ⟨snapshot, n, front', counted, flagged, rfl⟩
      exact .inr ⟨snapshot, _, counted, ⟨n, front', flagged, rfl⟩, rfl⟩

theorem SyncPayload.Counted.spells {payload : SyncPayload} (counted : payload.Counted) :
    SyncPayload.layout.Spells payload :=
  SyncPayload.canonical.spells counted

/-! ## Lengths -/

namespace Layout

theorem length_le_of_mem (layout : Layout α) {items : List α} {a : α} (member : a ∈ items) :
    (layout.write a).length ≤ ((Layout.list layout).write items).length := by
  have part : (layout.write a).length ≤ (items.flatMap layout.write).length := by
    rw [List.length_flatMap]
    exact List.le_sum_of_mem (List.mem_map_of_mem member)
  simp only [Layout.list, List.length_append]
  omega

theorem length_items_le (layout : Layout α) (items : List α) (each : ∀ a ∈ items, 0 < (layout.write a).length) :
    items.length ≤ ((Layout.list layout).write items).length := by
  have parts : items.length ≤ (items.flatMap layout.write).length := by
    rw [List.length_flatMap]
    have sum := List.length_le_sum_of_one_le (items.map fun a => (layout.write a).length)
      (by simpa [Nat.succ_le_iff] using each)
    rwa [List.length_map] at sum
  simp only [Layout.list, List.length_append]
  omega

theorem length_bytes (bs : Bytes) : (bytes.write bs).length = 8 + bs.length := by
  simp [bytes, word]

end Layout

theorem Entry.length_write (entry : Entry) :
    (Entry.layout.write entry).length = 17 + entry.key.length + entry.value.length := by
  simp only [Entry.layout, imap, both, List.length_append, length_bytes, flag, List.length_singleton]
  omega

theorem LoggedEntry.length_write (record : LoggedEntry) :
    (LoggedEntry.layout.write record).length = 41 + record.entry.key.length + record.entry.value.length := by
  have position := Position.length_write record.position
  have entry := Entry.length_write record.entry
  simp only [LoggedEntry.layout, imap, both, List.length_append] at position entry ⊢
  omega

/-- A payload that can be measured can be counted. -/
theorem SyncPayload.counted_of_length {payload : SyncPayload}
    (short : (SyncPayload.layout.write payload).length < 2 ^ 64) : payload.Counted := by
  have parts : ((Layout.list (.both bytes bytes)).write payload.snapshot.entries).length +
      ((Layout.list LoggedEntry.layout).write payload.logs).length ≤ (SyncPayload.layout.write payload).length := by
    simp only [SyncPayload.layout, Snapshot.layout, imap, both, List.length_append]
    omega
  have strings : ∀ entry : Bytes × Bytes, ((Layout.both bytes bytes).write entry).length =
      16 + entry.1.length + entry.2.length := by
    intro entry
    simp only [both, List.length_append, length_bytes]
    omega
  refine ⟨?_, fun entry member => ?_, ?_, fun r member => ?_⟩
  · have count := length_items_le (Layout.both bytes bytes) payload.snapshot.entries fun entry _ => by
      rw [strings]
      omega
    omega
  · have part := length_le_of_mem (Layout.both bytes bytes) member
    rw [strings] at part
    omega
  · have count := length_items_le LoggedEntry.layout payload.logs fun r _ => by
      rw [LoggedEntry.length_write]
      omega
    omega
  · have part := length_le_of_mem LoggedEntry.layout member
    rw [LoggedEntry.length_write] at part
    constructor <;> omega

end Shiplog
