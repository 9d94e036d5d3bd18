import Shiplog.Log.Scan
import Shiplog.Proofs.Pages

/-!
The records in a word of pages. A word that a log writes is read strictly, each
continuation after the start of its record (`Word.read`); what it holds is a list of
spans, records with the positions of their first and last page, and perhaps a record
still open at the end. A scan over a word gives its spans (`assemble_of_read`), and a
scan that sets in further on gives the spans that begin there (`assemble_skips`).
-/
namespace Shiplog

/-- A page of a log with the position after it. -/
abbrev Sheet := Position × Page.Kind × Bytes

/-- A record with the positions after its first and its last page. -/
structure Span where
  first : Position
  last : Position
  bytes : Bytes
  deriving DecidableEq

/-- A split record of which the last page is still to come. -/
structure Opened where
  /-- The position after its first page. -/
  first : Position
  bytes : Bytes
  deriving DecidableEq

def Sheet.item (sheet : Sheet) : Scan.Item := (sheet.1, .ok sheet.2)

def Span.record (span : Span) : Position × Bytes := (span.last, span.bytes)

namespace Word

/-- What a page makes of the open record: the records it completes and what is open
    then, or nothing for a page out of place. -/
def turn : Option Opened → Sheet → Option (List Span × Option Opened)
  | none, (position, .whole, bytes) => some ([⟨position, position, bytes⟩], none)
  | none, (position, .start, bytes) => some ([], some ⟨position, bytes⟩)
  | some opened, (_, .middle, bytes) => some ([], some { opened with bytes := opened.bytes ++ bytes })
  | some opened, (position, .last, bytes) => some ([⟨opened.first, position, opened.bytes ++ bytes⟩], none)
  | _, (_, .brokenEnd, _) => some ([], none)
  | _, _ => none

/-- The records in a word of pages and the record open at its end. -/
def read : Option Opened → List Sheet → Option (List Span × Option Opened)
  | opened, [] => some ([], opened)
  | opened, sheet :: rest =>
    (turn opened sheet).bind fun now => (read now.2 rest).map fun later => (now.1 ++ later.1, later.2)

variable {opened closed : Option Opened} {sheet : Sheet} {xs ys : List Sheet} {spans : List Span}

@[simp] theorem read_nil (opened : Option Opened) : read opened [] = some ([], opened) := rfl

theorem read_cons (opened : Option Opened) (sheet : Sheet) (rest : List Sheet) : read opened (sheet :: rest) =
    (turn opened sheet).bind fun now => (read now.2 rest).map fun later => (now.1 ++ later.1, later.2) := rfl

/-- A word is read page by page. -/
theorem read_cons_eq_some : read opened (sheet :: xs) = some (spans, closed) ↔
    ∃ now next after, turn opened sheet = some (now, next) ∧ read next xs = some (after, closed) ∧
      spans = now ++ after := by
  rw [read_cons]
  constructor
  · intro whole
    rw [Option.bind_eq_some_iff] at whole
    obtain ⟨⟨now, next⟩, turned, rest⟩ := whole
    rw [Option.map_eq_some_iff] at rest
    obtain ⟨⟨after, last⟩, second, same⟩ := rest
    simp only [Prod.mk.injEq] at same
    exact ⟨now, next, after, turned, same.2 ▸ second, same.1.symm⟩
  · rintro ⟨now, next, after, turned, second, rfl⟩
    simp [turned, second]

theorem read_append (opened : Option Opened) (xs ys : List Sheet) : read opened (xs ++ ys) =
    (read opened xs).bind fun first => (read first.2 ys).map fun later => (first.1 ++ later.1, later.2) := by
  induction xs generalizing opened with
  | nil => cases h : read opened ys <;> simp [h]
  | cons sheet rest ih =>
    rw [List.cons_append, read_cons, read_cons]
    cases turn opened sheet with
    | none => rfl
    | some now =>
      simp only [Option.bind_some, ih]
      cases read now.2 rest with
      | none => rfl
      | some first =>
        simp only [Option.bind_some, Option.map_some]
        cases read first.2 ys with
        | none => rfl
        | some later => simp [List.append_assoc]

/-- A word in two parts is read part by part. -/
theorem read_append_eq_some : read opened (xs ++ ys) = some (spans, closed) ↔
    ∃ before between after, read opened xs = some (before, between) ∧ read between ys = some (after, closed) ∧
      spans = before ++ after := by
  rw [read_append]
  constructor
  · intro whole
    rw [Option.bind_eq_some_iff] at whole
    obtain ⟨⟨before, between⟩, first, rest⟩ := whole
    rw [Option.map_eq_some_iff] at rest
    obtain ⟨⟨after, last⟩, second, same⟩ := rest
    simp only [Prod.mk.injEq] at same
    exact ⟨before, between, after, first, same.2 ▸ second, same.1.symm⟩
  · rintro ⟨before, between, after, first, second, rfl⟩
    simp [first, second]

theorem read_of_append {between : Option Opened} {before after : List Span}
    (first : read opened xs = some (before, between)) (second : read between ys = some (after, closed)) :
    read opened (xs ++ ys) = some (before ++ after, closed) :=
  read_append_eq_some.mpr ⟨before, between, after, first, second, rfl⟩

theorem read_singleton (opened : Option Opened) (sheet : Sheet) : read opened [sheet] = turn opened sheet := by
  rw [read_cons]
  cases turn opened sheet <;> simp

/-- Whether a record is open after a page is seen from the page. -/
theorem isDangling_of_turn (turned : turn opened sheet = some (spans, closed)) :
    sheet.2.1.isDangling = closed.isSome := by
  obtain ⟨position, kind, bytes⟩ := sheet
  cases opened <;> cases kind <;> simp [turn] at turned <;> obtain ⟨rfl, rfl⟩ := turned <;> rfl

theorem isDangling_of_read {last : Sheet} (whole : read opened (xs ++ [last]) = some (spans, closed)) :
    last.2.1.isDangling = closed.isSome := by
  obtain ⟨before, between, after, -, second, -⟩ := read_append_eq_some.mp whole
  rw [read_singleton] at second
  exact isDangling_of_turn second

/-! ## Where records lie -/

theorem positions_of_turn (turned : turn opened sheet = some (spans, closed)) :
    (∀ span ∈ spans, span.last = sheet.1 ∧ (span.first = sheet.1 ∨ ∃ o ∈ opened, span.first = o.first)) ∧
    (∀ c ∈ closed, c.first = sheet.1 ∨ ∃ o ∈ opened, c.first = o.first) := by
  obtain ⟨position, kind, bytes⟩ := sheet
  cases opened <;> cases kind <;> simp [turn] at turned <;> obtain ⟨rfl, rfl⟩ := turned <;> simp

/-- Records end where a page of the word does; they begin there too, or with the
    record open at first. -/
theorem positions_of_read (whole : read opened xs = some (spans, closed)) :
    (∀ span ∈ spans, span.last ∈ xs.map Prod.fst ∧
      (span.first ∈ xs.map Prod.fst ∨ ∃ o ∈ opened, span.first = o.first)) ∧
    (∀ c ∈ closed, c.first ∈ xs.map Prod.fst ∨ ∃ o ∈ opened, c.first = o.first) := by
  induction xs generalizing opened spans with
  | nil =>
    simp only [read_nil, Option.some.injEq, Prod.mk.injEq] at whole
    obtain ⟨rfl, rfl⟩ := whole
    exact ⟨by simp, fun c member => .inr ⟨c, member, rfl⟩⟩
  | cons sheet rest ih =>
    obtain ⟨now, next, after, turned, later, rfl⟩ := read_cons_eq_some.mp whole
    obtain ⟨spansIn, closedIn⟩ := ih later
    obtain ⟨here, start⟩ := positions_of_turn turned
    have lift : ∀ {p : Position}, (p ∈ rest.map Prod.fst ∨ ∃ o ∈ next, p = o.first) →
        p ∈ (sheet :: rest).map Prod.fst ∨ ∃ o ∈ opened, p = o.first := by
      rintro p (inRest | ⟨o, member, rfl⟩)
      · exact .inl (List.mem_cons_of_mem _ inRest)
      · rcases start o member with same | before
        · exact .inl (by simp [same])
        · exact .inr before
    refine ⟨?_, fun c member => lift (closedIn c member)⟩
    intro span member
    rcases List.mem_append.mp member with first | second
    · obtain ⟨last, began⟩ := here span first
      refine ⟨by simp [last], ?_⟩
      rcases began with same | before
      · exact .inl (by simp [same])
      · exact .inr before
    · obtain ⟨last, began⟩ := spansIn span second
      exact ⟨List.mem_cons_of_mem _ last, lift began⟩

/-- What holds of whatever ends where some page ends holds of the records that are read. -/
theorem record_of_read {P : Position × Bytes → Prop} (whole : read opened xs = some (spans, closed))
    (each : ∀ s ∈ xs, ∀ record : Position × Bytes, s.1 = record.1 → P record) : ∀ span ∈ spans, P span.record := by
  intro span member
  obtain ⟨s, stands, same⟩ := List.mem_map.mp ((positions_of_read whole).1 span member).1
  exact each s stands span.record same

theorem spans_of_turn (turned : turn opened sheet = some (spans, closed)) :
    spans = [] ∨ ∃ span, spans = [span] ∧ span.last = sheet.1 := by
  obtain ⟨position, kind, bytes⟩ := sheet
  cases opened <;> cases kind <;> simp [turn] at turned <;> obtain ⟨rfl, rfl⟩ := turned <;> simp

/-- Records end in the order of the pages. -/
theorem lasts_sublist (whole : read opened xs = some (spans, closed)) :
    (spans.map Span.last).Sublist (xs.map Prod.fst) := by
  induction xs generalizing opened spans with
  | nil =>
    simp only [read_nil, Option.some.injEq, Prod.mk.injEq] at whole
    simp [← whole.1]
  | cons sheet rest ih =>
    obtain ⟨now, next, after, turned, later, rfl⟩ := read_cons_eq_some.mp whole
    have below := ih later
    rw [List.map_append, List.map_cons]
    rcases spans_of_turn turned with rfl | ⟨span, rfl, ends⟩
    · exact below.cons _
    · rw [List.map_singleton, ends]
      exact below.cons_cons _

/-! ## What a scan makes of a word -/

theorem push_of_turn (synced : Bool) (turned : turn opened sheet = some (spans, closed)) :
    ∃ synced', Assembly.push ⟨opened.map Opened.bytes, synced⟩ sheet.2.1 sheet.2.2 =
      (.ok ((spans.map Span.bytes).head?), ⟨closed.map Opened.bytes, synced'⟩) := by
  obtain ⟨position, kind, bytes⟩ := sheet
  cases opened <;> cases kind <;> simp [turn] at turned <;> obtain ⟨rfl, rfl⟩ := turned <;>
    simp [Assembly.push]

/-- A scan over a word gives its records, wherever the word goes on. -/
theorem assemble_of_read (synced : Bool) (rest : List Scan.Item) (whole : read opened xs = some (spans, closed)) :
    ∃ synced', Scan.assemble ⟨opened.map Opened.bytes, synced⟩ (xs.map Sheet.item ++ rest) =
      ⟨spans.map Span.record ++ (Scan.assemble ⟨closed.map Opened.bytes, synced'⟩ rest).records,
        (Scan.assemble ⟨closed.map Opened.bytes, synced'⟩ rest).stopped⟩ := by
  induction xs generalizing opened spans synced with
  | nil =>
    simp only [read_nil, Option.some.injEq, Prod.mk.injEq] at whole
    obtain ⟨rfl, rfl⟩ := whole
    exact ⟨synced, rfl⟩
  | cons sheet xs ih =>
    obtain ⟨now, next, after, turned, later, rfl⟩ := read_cons_eq_some.mp whole
    obtain ⟨between, pushed⟩ := push_of_turn synced turned
    obtain ⟨synced', assembled⟩ := ih between later
    refine ⟨synced', ?_⟩
    rw [List.map_cons, List.cons_append, Sheet.item, Scan.assemble, pushed]
    rcases spans_of_turn turned with rfl | ⟨span, rfl, ends⟩
    · exact assembled
    · simp only [List.map_cons, List.map_nil, List.head?_cons, List.cons_append, List.nil_append, assembled,
        Span.record, ends]

theorem assemble_all (whole : read none xs = some (spans, closed)) :
    Scan.assemble .empty (xs.map Sheet.item) = ⟨spans.map Span.record, none⟩ := by
  obtain ⟨_, assembled⟩ := assemble_of_read false [] whole
  simpa [Scan.assemble, Assembly.empty] using assembled

/-- A page that goes on with the open record, or ends it, is passed over by a scan that
    has seen no record begin. -/
theorem skip_of_turn {o : Opened} (turned : turn (some o) sheet = some (spans, closed)) :
    Assembly.push .empty sheet.2.1 sheet.2.2 = (.ok none, .empty) ∧ (∀ c ∈ closed, c.first = o.first) ∧
      ∀ span ∈ spans, span.first = o.first := by
  obtain ⟨position, kind, bytes⟩ := sheet
  cases kind <;> simp [turn] at turned <;> obtain ⟨rfl, rfl⟩ := turned <;> simp [Assembly.push, Assembly.empty]

/-- A scan that sets in where a record is open gives the records that begin later; the
    open one is passed over, whether or not the word completes it. -/
theorem assemble_skips {opened : Option Opened} (whole : read opened xs = some (spans, closed)) :
    ∃ skipped kept, spans = skipped ++ kept ∧ (∀ span ∈ skipped, ∃ o ∈ opened, span.first = o.first) ∧
      (∀ span ∈ kept, span.first ∈ xs.map Prod.fst) ∧
      Scan.assemble .empty (xs.map Sheet.item) = ⟨kept.map Span.record, none⟩ := by
  induction xs generalizing opened spans with
  | nil =>
    simp only [read_nil, Option.some.injEq, Prod.mk.injEq] at whole
    exact ⟨[], [], by simp [← whole.1], by simp, by simp, rfl⟩
  | cons sheet rest ih =>
    cases opened with
    | none =>
      obtain ⟨within, -⟩ := positions_of_read whole
      refine ⟨[], spans, rfl, by simp, fun span member => ?_, assemble_all whole⟩
      rcases (within span member).2 with inside | ⟨o, impossible, -⟩
      · exact inside
      · cases impossible
    | some o =>
      obtain ⟨now, next, after, turned, later, rfl⟩ := read_cons_eq_some.mp whole
      obtain ⟨skipped, kept, parts, old, new, assembled⟩ := ih later
      have wider : ∀ span ∈ kept, span.first ∈ (sheet :: rest).map Prod.fst :=
        fun span member => List.mem_cons_of_mem _ (new span member)
      obtain ⟨passed, began, ended⟩ := skip_of_turn turned
      have passed : Scan.assemble .empty ((sheet :: rest).map Sheet.item) =
          Scan.assemble .empty (rest.map Sheet.item) := by
        rw [List.map_cons, Sheet.item, Scan.assemble, passed]
      refine ⟨now ++ skipped, kept, by rw [parts, List.append_assoc], ?_, wider, passed.trans assembled⟩
      intro span member
      refine ⟨o, rfl, ?_⟩
      rcases List.mem_append.mp member with first | second
      · exact ended span first
      · obtain ⟨o', here, same⟩ := old span second
        rw [same, began o' here]

end Word

/-! ## The pages of one record -/

namespace Record

theorem length_label (kind : Page.Kind) (pieces : List Bytes) : (label kind pieces).length = pieces.length := by
  fun_induction label kind pieces <;> simp_all

theorem mem_label {kind : Page.Kind} {pieces : List Bytes} {page : Page.Kind × Bytes}
    (member : page ∈ label kind pieces) : page.2 ∈ pieces := by
  fun_induction label kind pieces with
  | case1 => simp at member
  | case2 => simp_all
  | case3 kind piece rest _ ih =>
    rcases List.mem_cons.mp member with same | later
    · simp [same]
    · exact List.mem_cons_of_mem _ (ih later)

/-- Every page of a record fits. -/
theorem fits_split (record : Bytes) : ∀ page ∈ split record, Page.Fits page := by
  intro page member
  unfold split at member
  split at member
  · rename_i small
    rw [List.mem_singleton] at member
    subst member
    exact small
  · exact Bytes.length_le_of_mem_chunks (mem_label member)

/-- A long record falls into two pieces at least. -/
theorem chunks_of_long {record : Bytes} (long : Page.capacity < record.length) :
    ∃ first second rest, record.chunks Page.capacity = first :: second :: rest := by
  have pos : 0 < Page.capacity := by decide
  have firstLength : (record.take Page.capacity).length = Page.capacity := by
    rw [List.length_take]
    omega
  have parts := Bytes.chunks_cons (record.take Page.capacity) (record.drop Page.capacity) firstLength pos
  rw [List.take_append_drop] at parts
  cases rest : Bytes.chunks Page.capacity (record.drop Page.capacity) with
  | nil =>
    have joined := Bytes.flatten_chunks pos (record.drop Page.capacity)
    rw [rest, List.flatten_nil] at joined
    have short := congrArg List.length joined
    rw [List.length_nil, List.length_drop] at short
    omega
  | cons second rest' => exact ⟨_, second, rest', by rw [parts, rest]⟩

theorem split_ne_nil (record : Bytes) : split record ≠ [] := by
  unfold split
  split
  · simp
  · rename_i long
    obtain ⟨first, second, rest, parts⟩ := chunks_of_long (Nat.not_le.mp long)
    rw [parts]
    simp [label]

/-- A record begins with a whole or a start page. -/
theorem split_begins (record : Bytes) :
    ∃ page rest, split record = page :: rest ∧ (page.1 = .whole ∨ page.1 = .start) := by
  unfold split
  split
  · exact ⟨_, [], rfl, .inl rfl⟩
  · rename_i long
    obtain ⟨first, second, rest, parts⟩ := chunks_of_long (Nat.not_le.mp long)
    exact ⟨(.start, first), label .middle (second :: rest), by simp [parts, label], .inr rfl⟩

end Record

namespace Word

open Record (label split)

variable {sheets : List Sheet} {record : Bytes}

private theorem read_middles (pieces : List Bytes) (ne : pieces ≠ []) (pages : sheets.map Prod.snd = label .middle pieces)
    (o : Opened) : ∃ last, sheets.getLast?.map Prod.fst = some last ∧
      read (some o) sheets = some ([⟨o.first, last, o.bytes ++ pieces.flatten⟩], none) := by
  induction pieces generalizing sheets o with
  | nil => exact absurd rfl ne
  | cons piece rest ih =>
    cases sheets with
    | nil => cases rest <;> simp [label] at pages
    | cons sheet sheets =>
      obtain ⟨position, page⟩ := sheet
      cases rest with
      | nil =>
        simp only [label, List.map_cons, List.cons.injEq, List.map_eq_nil_iff] at pages
        obtain ⟨rfl, rfl⟩ := pages
        exact ⟨position, by simp, by simp [read_cons, turn]⟩
      | cons second rest =>
        simp only [label, List.map_cons, List.cons.injEq] at pages
        obtain ⟨rfl, later⟩ := pages
        obtain ⟨last, ends, whole⟩ := ih (by simp) later { o with bytes := o.bytes ++ piece }
        have some_left : sheets ≠ [] := by rintro rfl; simp at ends
        refine ⟨last, by rwa [List.getLast?_cons_of_ne_nil some_left], ?_⟩
        rw [read_cons]
        simp [turn, whole, List.append_assoc]

/-- The pages of a record read back as the record. -/
theorem read_split (pages : sheets.map Prod.snd = split record) :
    ∃ first last, sheets.head?.map Prod.fst = some first ∧ sheets.getLast?.map Prod.fst = some last ∧
      read none sheets = some ([⟨first, last, record⟩], none) := by
  unfold split at pages
  split at pages
  · obtain ⟨sheet, rfl⟩ : ∃ sheet, sheets = [sheet] := List.length_eq_one_iff.mp (by simpa using congrArg List.length pages)
    simp only [List.map_cons, List.map_nil, List.cons.injEq, and_true] at pages
    obtain ⟨position, page⟩ := sheet
    simp only at pages
    subst pages
    exact ⟨position, position, by simp, by simp, by simp [read_cons, turn]⟩
  · rename_i long
    obtain ⟨piece, second, rest, parts⟩ := Record.chunks_of_long (Nat.not_le.mp long)
    have joined : (Bytes.chunks Page.capacity record).flatten = record := Bytes.flatten_chunks (by decide) record
    rw [parts] at pages joined
    cases sheets with
    | nil => simp [label] at pages
    | cons sheet sheets =>
      obtain ⟨position, page⟩ := sheet
      simp only [label, List.map_cons, List.cons.injEq] at pages
      obtain ⟨rfl, later⟩ := pages
      obtain ⟨last, ends, whole⟩ := read_middles (second :: rest) (by simp) later ⟨position, piece⟩
      have some_left : sheets ≠ [] := by rintro rfl; simp at ends
      refine ⟨position, last, by simp, by rwa [List.getLast?_cons_of_ne_nil some_left], ?_⟩
      rw [read_cons]
      simp [turn, whole, ← joined]

private theorem read_some_middles (pieces : List Bytes) (count : Nat) (short : count < pieces.length)
    (pages : sheets.map Prod.snd = (label .middle pieces).take count) (o : Opened) :
    ∃ o', read (some o) sheets = some ([], some o') := by
  induction pieces generalizing sheets count o with
  | nil => simp at short
  | cons piece rest ih =>
    cases count with
    | zero =>
      rw [List.take_zero, List.map_eq_nil_iff] at pages
      exact ⟨o, by simp [pages]⟩
    | succ count =>
      cases rest with
      | nil => simp at short
      | cons second rest =>
        cases sheets with
        | nil => simp [label] at pages
        | cons sheet sheets =>
          obtain ⟨position, page⟩ := sheet
          simp only [label, List.map_cons, List.take_succ_cons, List.cons.injEq] at pages
          obtain ⟨rfl, later⟩ := pages
          obtain ⟨o', whole⟩ := ih count (by simpa using short) later { o with bytes := o.bytes ++ piece }
          exact ⟨o', by rw [read_cons]; simp [turn, whole]⟩

/-- The first pages of a record hold no record; the record is open after them, if there are any. -/
theorem read_part_of_split {count : Nat} (short : count < (split record).length)
    (pages : sheets.map Prod.snd = (split record).take count) :
    ∃ opened, read none sheets = some ([], opened) ∧ (opened = none → sheets = []) := by
  unfold split at pages short
  split at pages
  · rename_i small
    rw [if_pos small] at short
    have zero : count = 0 := by simpa using short
    rw [zero, List.take_zero, List.map_eq_nil_iff] at pages
    exact ⟨none, by simp [pages], fun _ => pages⟩
  · rename_i long
    rw [if_neg long, Record.length_label] at short
    obtain ⟨piece, second, rest, parts⟩ := Record.chunks_of_long (Nat.not_le.mp long)
    rw [parts] at pages short
    cases count with
    | zero =>
      rw [List.take_zero, List.map_eq_nil_iff] at pages
      exact ⟨none, by simp [pages], fun _ => pages⟩
    | succ count =>
      cases sheets with
      | nil => simp [label] at pages
      | cons sheet sheets =>
        obtain ⟨position, page⟩ := sheet
        simp only [label, List.map_cons, List.take_succ_cons, List.cons.injEq] at pages
        obtain ⟨rfl, later⟩ := pages
        obtain ⟨o, whole⟩ := read_some_middles (second :: rest) count (by simpa using short) later ⟨position, piece⟩
        exact ⟨some o, by rw [read_cons]; simp [turn, whole], by simp⟩

end Word
end Shiplog
