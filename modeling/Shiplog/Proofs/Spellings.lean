import Shiplog.Proofs.Layouts

/-!
Which bytes are read as a value. A value is written in its spelling, read from it, whatever
follows, and from nothing else; bytes that end before the value that they begin does, and bytes
with another byte than 0 or 1 for a flag, are errors of serialization (`Layout.Packs`). It holds of
every kind of value that is logged, shipped or kept (`Layout.packs_exactly`), and is read off
their layouts being canonical.
-/
namespace Shiplog

/-! ## Spellings -/

namespace Layout

/-- A number in a word of eight bytes, least significant first. -/
def number (n : Nat) : Bytes := Bytes.ofNatLE 8 n

/-- A byte string with its length in front. -/
def string (bs : Bytes) : Bytes := number bs.length ++ bs

end Layout

open Layout

/-- Three numbers. -/
def Position.spelling (p : Position) : Bytes :=
  number p.term.toNat ++ (number p.collection.toNat ++ number p.seq.toNat)

/-- Two byte strings and a flag of one byte. -/
def Entry.spelling (entry : Entry) : Bytes :=
  string entry.key ++ (string entry.value ++ [if entry.deleted then 1 else 0])

def LoggedEntry.spelling (record : LoggedEntry) : Bytes :=
  record.position.spelling ++ record.entry.spelling

/-- A position, two numbers, and the number of the entries with the entries. -/
def Snapshot.spelling (snapshot : Snapshot) : Bytes :=
  snapshot.position.spelling ++ (number snapshot.term.toNat ++ (number snapshot.createdAt.toNat ++
    (number snapshot.entries.length ++ snapshot.entries.flatMap fun entry => string entry.1 ++ string entry.2)))

/-- A snapshot, and the number of the logged entries with these. -/
def SyncPayload.spelling (payload : SyncPayload) : Bytes :=
  payload.snapshot.spelling ++ (number payload.logs.length ++ payload.logs.flatMap LoggedEntry.spelling)

theorem Layout.write_count {n : Nat} (small : n < 2 ^ 64) : word.write (UInt64.ofNat n) = number n := by
  rw [write_word, UInt64.toNat_ofNat', Nat.mod_eq_of_lt small, number]

theorem Layout.write_string {bs : Bytes} (small : bs.length < 2 ^ 64) : bytes.write bs = string bs := by
  rw [write_bytes, write_count small, string]

theorem Position.write_eq (p : Position) : Position.layout.write p = p.spelling := rfl

theorem Entry.Counted.write_eq {entry : Entry} (counted : entry.Counted) : Entry.layout.write entry = entry.spelling := by
  rw [Entry.spelling, ← write_string counted.1, ← write_string counted.2]
  rfl

theorem LoggedEntry.write_eq {record : LoggedEntry} (counted : record.entry.Counted) :
    LoggedEntry.layout.write record = record.spelling := by
  rw [LoggedEntry.spelling, ← counted.write_eq]
  rfl

theorem Snapshot.Counted.write_eq {snapshot : Snapshot} (counted : snapshot.Counted) :
    Snapshot.layout.write snapshot = snapshot.spelling := by
  have entries : snapshot.entries.flatMap (fun entry => string entry.1 ++ string entry.2) =
      snapshot.entries.flatMap (Layout.both bytes bytes).write :=
    List.flatMap_congr fun entry member => by
      rw [← write_string (counted.strings entry member).1, ← write_string (counted.strings entry member).2]
      rfl
  rw [Snapshot.spelling, entries, ← write_count counted.entries]
  rfl

theorem SyncPayload.Counted.write_eq {payload : SyncPayload} (counted : payload.Counted) :
    SyncPayload.layout.write payload = payload.spelling := by
  have snapshot : payload.snapshot.Counted := ⟨counted.entries, counted.strings⟩
  have logs : payload.logs.flatMap LoggedEntry.spelling = payload.logs.flatMap LoggedEntry.layout.write :=
    List.flatMap_congr fun record member => (LoggedEntry.write_eq (counted.records record member)).symm
  rw [SyncPayload.spelling, logs, ← snapshot.write_eq, ← write_count counted.logs]
  rfl

/-! ## Reading -/

namespace Layout

variable {α : Type} {layout : Layout α} {Counted : α → Prop} {Flagged : Bytes → Prop} {bs : Bytes} {a : α}

theorem decode_eq_ok_iff : layout.decode bs = .ok a ↔ ∃ rest, layout.read bs = .ok (a, rest) := by
  rw [Layout.decode]
  cases layout.read bs with
  | error flaw => simp [Except.map]
  | ok taken => simp [Except.map, Prod.ext_iff]

theorem decode_eq_error_iff {flaw : Packed.Flaw} : layout.decode bs = .error flaw ↔ layout.read bs = .error flaw := by
  rw [Layout.decode]
  cases layout.read bs <;> simp [Except.map]

theorem parse_eq_ok_iff : layout.parse bs = .ok a ↔ layout.decode bs = .ok a := by
  rw [Layout.parse]
  cases layout.decode bs <;> simp [Except.mapError]

theorem parse_eq_error_iff {e : Error} :
    layout.parse bs = .error e ↔ ∃ flaw, layout.decode bs = .error flaw ∧ e = .serialization flaw.text := by
  rw [Layout.parse]
  cases layout.decode bs <;> simp [Except.mapError, eq_comm]

/-- How a layout packs values, where `Counted` are those whose lengths a word can count, as all
    lengths in memory are, and `Flagged` is what stands in front of a flag. -/
structure Packs (layout : Layout α) (spelling : α → Bytes) (Counted : α → Prop) (Flagged : Bytes → Prop) : Prop where
  /-- A value is written in its spelling. -/
  writes : ∀ a, Counted a → layout.write a = spelling a
  /-- A value is read from its spelling, whatever follows. -/
  reads : ∀ a, Counted a → ∀ rest, layout.parse (layout.write a ++ rest) = .ok a
  /-- What is read as a value begins with the spelling of the value. -/
  canonical : ∀ bs a, layout.parse bs = .ok a → Counted a ∧ layout.write a <+: bs
  /-- What ends inside a spelling, however much of it is missing, is too short. -/
  short : ∀ a bs, Counted a → bs <+: layout.write a → bs ≠ layout.write a →
    layout.parse bs = .error (.serialization Packed.Flaw.endOfInput.text)
  /-- A flag is 0 or 1. -/
  flag : ∀ front b rest, Flagged front → b ≠ 0 → b ≠ 1 →
    layout.parse (front ++ b :: rest) = .error (.serialization (Packed.Flaw.badFlag b).text)
  /-- Nothing else is refused. -/
  refuses : ∀ bs e, layout.parse bs = .error e →
    (∃ a, Counted a ∧ bs <+: layout.write a ∧ bs ≠ layout.write a ∧ e = .serialization Packed.Flaw.endOfInput.text) ∨
    ∃ front b rest, Flagged front ∧ b ≠ 0 ∧ b ≠ 1 ∧ bs = front ++ b :: rest ∧
      e = .serialization (Packed.Flaw.badFlag b).text

theorem Canonical.parse_of_refusal (canonical : layout.Canonical Counted Flagged) {flaw : Packed.Flaw}
    (refusal : Refusal (layout.Spelling Counted) Flagged bs flaw) : layout.parse bs = .error (.serialization flaw.text) :=
  parse_eq_error_iff.mpr ⟨flaw, decode_eq_error_iff.mpr (canonical.refuses refusal), rfl⟩

theorem Canonical.packs {spelling : α → Bytes} (canonical : layout.Canonical Counted Flagged)
    (writes : ∀ a, Counted a → layout.write a = spelling a) : layout.Packs spelling Counted Flagged where
  writes
  reads a counted rest := parse_eq_ok_iff.mpr (decode_eq_ok_iff.mpr ⟨rest, canonical.spells counted rest⟩)
  canonical bs a parsed := by
    obtain ⟨rest, read⟩ := decode_eq_ok_iff.mp (parse_eq_ok_iff.mp parsed)
    cases ((canonical.read_iff bs).1 (a, rest)).mp read with
    | spelled spelled rest =>
      obtain ⟨counted, rfl⟩ := spelled
      exact ⟨counted, List.prefix_append _ _⟩
  short a bs counted part less := by
    obtain ⟨more, whole⟩ := part
    have breaks : more ≠ [] := by
      rintro rfl
      exact less (by rwa [List.append_nil] at whole)
    exact canonical.parse_of_refusal (.short ⟨counted, whole⟩ breaks)
  flag front b rest flagged zero one := canonical.parse_of_refusal (.flag flagged zero one rest)
  refuses bs e refused := by
    obtain ⟨flaw, failed, rfl⟩ := parse_eq_error_iff.mp refused
    cases ((canonical.read_iff bs).2 flaw).mp (decode_eq_error_iff.mp failed) with
    | @short _ more a spelled breaks =>
      obtain ⟨counted, whole⟩ := spelled
      refine .inl ⟨a, counted, ⟨more, whole⟩, fun same => breaks ?_, rfl⟩
      exact List.append_right_eq_self.mp (whole.trans same.symm)
    | flag flagged zero one rest => exact .inr ⟨_, _, rest, flagged, zero, one, rfl, rfl⟩

/-- Positions, entries, logged entries, snapshots and what brings a standby up to date have each
    one spelling: they are written in it, read back from it whatever follows and read from nothing
    else, and everything else is refused, for its end or for a flag. -/
theorem packs_exactly :
    Position.layout.Packs Position.spelling (fun _ => True) (fun _ => False) ∧
    Entry.layout.Packs Entry.spelling Entry.Counted Entry.Flagged ∧
    LoggedEntry.layout.Packs LoggedEntry.spelling (fun record => record.entry.Counted) LoggedEntry.Flagged ∧
    Snapshot.layout.Packs Snapshot.spelling Snapshot.Counted (fun _ => False) ∧
    SyncPayload.layout.Packs SyncPayload.spelling SyncPayload.Counted SyncPayload.Flagged :=
  ⟨Position.canonical.packs fun p _ => p.write_eq, Entry.canonical.packs fun _ counted => counted.write_eq,
    LoggedEntry.canonical.packs fun _ counted => LoggedEntry.write_eq counted,
    Snapshot.canonical.packs fun _ counted => counted.write_eq,
    SyncPayload.canonical.packs fun _ counted => counted.write_eq⟩

/-- A key of more bytes than there are, and an entry whose flag is 2. -/
example : Entry.layout.decode [255, 255, 255, 255, 255, 255, 255, 255, 7] = .error .endOfInput ∧
    Entry.layout.decode (bytes.write [7] ++ bytes.write [] ++ [2, 1]) = .error (.badFlag 2) := by
  decide

end Layout
end Shiplog
