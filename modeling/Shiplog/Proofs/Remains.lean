import Shiplog.Proofs.Journals

/-!
What is left of a log whose oldest files were deleted. Some records lie before the files
that are left, and one may begin there (`Remains`). Records, terms, repairs, crashes and
further deletions leave such a log in order, whether it is up (`Chronicle`) or not
(`Archive`); what a scan gives after a position that no record straddles is told by
`Verdict`.
-/
namespace Shiplog

theorem Position.segmentLE_iff {p q : Position} :
    p.segmentLE q = true ↔ p.term < q.term ∨ p.term = q.term ∧ p.collection ≤ q.collection := by
  simp [Position.segmentLE]

theorem Position.segmentLE_of_le {p q : Position} (term : p.term ≤ q.term) (collection : p.collection ≤ q.collection) :
    p.segmentLE q = true := by
  rw [segmentLE_iff]
  rcases UInt64.lt_or_eq_of_le term with lower | same
  · exact .inl lower
  · exact .inr ⟨same, collection⟩

/-- No record begins in a segment before that of a position and ends after the position. -/
def Uncut (spans : List Span) (p : Position) : Prop := ∀ span ∈ spans, p < span.last → p.segmentLE span.first = true

/-- Whether a part of a record lay in a segment that is not there any more. -/
def Span.LacksPart (segments : List Segment) (span : Span) : Prop :=
  ∃ collection, span.first.collection ≤ collection ∧ collection ≤ span.last.collection ∧
    ∀ s ∈ segments, s.collection ≠ collection

namespace Shelf

variable {vs vs' newer older : Shelf} {v : Volume} {bound : Nat} {p : Position}

/-- A position in a segment before those on a shelf. -/
def Past (vs : Shelf) (p : Position) : Prop := 0 < p.collection ∧ ∃ b ∈ vs.bottom?, p.term ≤ b.1 ∧ p.collection < b.2

theorem Past.ne_nil (past : vs.Past p) : vs ≠ [] := by
  rintro rfl
  obtain ⟨-, b, impossible, -⟩ := past
  cases impossible

theorem Past.of_bottom (past : vs.Past p) (same : vs'.bottom? = vs.bottom?) : vs'.Past p := by
  rwa [Past, same]

theorem Past.not_founded (past : vs.Past p) : ¬ vs.Founded := by
  obtain ⟨positive, b, bottom, -, below⟩ := past
  intro founded
  have one := founded b bottom
  rw [UInt64.lt_iff_toNat_lt] at positive below
  have zero : (0 : UInt64).toNat = 0 := rfl
  omega

theorem Rising.bottom_le (rising : vs.Rising) {b : UInt64 × UInt64} (bottom : b ∈ vs.bottom?) (member : v ∈ vs) :
    b.1 ≤ v.term ∧ b.2 ≤ v.collection := by
  rcases List.eq_nil_or_concat vs with rfl | ⟨newer, oldest, rfl⟩
  · cases bottom
  · rw [List.concat_eq_append] at rising bottom member
    simp only [bottom?, List.getLast?_append, List.getLast?_singleton, Option.some_or, Option.map_some, Option.mem_def,
      Option.some.injEq] at bottom
    subst bottom
    rcases List.mem_append.mp member with above | same
    · obtain ⟨term, collection⟩ := rising.above above
      exact ⟨term, UInt64.le_of_lt collection⟩
    · obtain rfl := List.mem_singleton.mp same
      exact ⟨UInt64.le_refl _, UInt64.le_refl _⟩

theorem Past.before (past : vs.Past p) (rising : vs.Rising) (member : v ∈ vs) :
    p.term ≤ v.term ∧ p.collection < v.collection := by
  obtain ⟨-, b, bottom, term, collection⟩ := past
  obtain ⟨term', collection'⟩ := rising.bottom_le bottom member
  exact ⟨UInt64.le_trans term term', UInt64.lt_of_lt_of_le collection collection'⟩

theorem Past.lt_tail (past : vs.Past p) (rising : vs.Rising) : p < tail vs := by
  obtain ⟨v, older, rfl⟩ := List.exists_cons_of_ne_nil past.ne_nil
  obtain ⟨term, collection⟩ := past.before rising List.mem_cons_self
  rcases UInt64.lt_or_eq_of_le term with lower | same
  · exact .inl lower
  · exact .inr ⟨same, .inl collection⟩

/-- What lies before a shelf lies before its newest volumes. -/
theorem Past.front (past : Past (newer ++ older) p) (rising : Rising (newer ++ older)) (ne : newer ≠ []) : Past newer p := by
  obtain ⟨front, oldest, rfl⟩ := List.eq_nil_or_concat newer |>.resolve_left ne
  refine ⟨past.1, (oldest.term, oldest.collection), by simp [bottom?], ?_⟩
  exact past.before rising (by simp)

/-- The pages of the oldest volumes lie before the newest. -/
theorem past_of_mem_sheets (rising : Rising (newer ++ older)) (ne : newer ≠ []) {s : Sheet} (member : s ∈ sheets older) :
    Past newer s.1 := by
  obtain ⟨front, oldest, rfl⟩ := List.eq_nil_or_concat newer |>.resolve_left ne
  obtain ⟨u, stands, term, collection, -⟩ := mem_sheets member
  rw [List.concat_eq_append, List.append_assoc, List.singleton_append] at rising
  obtain ⟨_, tops⟩ := rising.drop.2.tops stands
  obtain ⟨terms, collections⟩ := rising.drop.below stands
  have positive := tops.collection_pos
  refine ⟨?_, (oldest.term, oldest.collection), by simp [bottom?], by rwa [term], by rwa [collection]⟩
  rw [collection, UInt64.lt_iff_toNat_lt]
  exact positive

theorem TidyAfter.front {before between : Option Opened} {early : List Span} (tidy : TidyAfter before (newer ++ older))
    (reads : Word.read before (sheets older) = some (early, between)) : TidyAfter between newer := by
  induction newer with
  | nil => trivial
  | cons v rest ih =>
    refine ⟨fun w newest spans o later => ?_, ih tidy.2⟩
    cases rest with
    | nil => cases newest
    | cons x rest =>
      refine tidy.1 w newest (early ++ spans) o ?_
      change Word.read before (sheets (x :: rest ++ older)) = _
      rw [sheets_append]
      exact Word.read_of_append reads later

theorem TidyAfter.cut {before : Option Opened} (tidy : vs.TidyAfter before) (count : Nat) (torn : Bytes) :
    TidyAfter before (cut count torn vs) := by
  cases vs with
  | nil => exact tidy
  | cons v older => exact tidy

end Shelf

/-- A log's directory after its oldest files were deleted: the files that are left are a
    shelf, read on from a record that may have begun before them. The records that ended
    before them are gone. Positions once given out are not past the end, and no record
    straddles one. -/
structure Remains (t : FileTree) (dir place : Path) (vs : Shelf) (bound : Nat) (before : Option Opened)
    (gone kept : List Span) (opened : Option Opened) (given : List Position) : Prop where
  shelved : Shelved t dir place vs
  steady : vs.Steady bound
  tidy : vs.TidyAfter before
  reads : Word.read before vs.sheets = some (kept, opened)
  began : ∀ o ∈ before, vs.Past o.first
  lost : ∀ span ∈ gone, vs.Past span.first ∧ vs.Past span.last
  marks : ∀ p ∈ given, Uncut (gone ++ kept) p ∧ p.term ≤ vs.tail.term ∧ p.collection ≤ vs.tail.collection

namespace Remains

variable {t t' : FileTree} {dir place : Path} {vs newer older : Shelf} {bound bound' : Nat}
  {before opened : Option Opened} {gone kept : List Span} {given : List Position}

theorem mono (remains : Remains t dir place vs bound before gone kept opened given) (le : bound ≤ bound')
    (small : bound' < 2 ^ 64) : Remains t dir place vs bound' before gone kept opened given :=
  ⟨remains.shelved, remains.steady.mono le small, remains.tidy, remains.reads, remains.began, remains.lost,
    remains.marks⟩

/-- Positions once given out need not be remembered. -/
theorem subset (remains : Remains t dir place vs bound before gone kept opened given) {given' : List Position}
    (sub : given' ⊆ given) : Remains t dir place vs bound before gone kept opened given' :=
  ⟨remains.shelved, remains.steady, remains.tidy, remains.reads, remains.began, remains.lost,
    fun p member => remains.marks p (sub member)⟩

theorem last_le_tail (remains : Remains t dir place vs bound before gone kept opened given) {span : Span}
    (member : span ∈ gone ++ kept) : span.last ≤ vs.tail := by
  rcases List.mem_append.mp member with lost | found
  · exact Position.le_of_lt ((remains.lost span lost).2.lt_tail remains.steady.rising)
  · obtain ⟨s, stands, same⟩ := List.mem_map.mp ((Word.positions_of_read remains.reads).1 span found).1
    rw [← same]
    exact remains.steady.rising.sheet_le_tail remains.steady.few stands

/-- What the shelf holds stays and more records follow: the new end is one more position that
    no record straddles. -/
theorem extend (remains : Remains t dir place vs bound before gone kept opened given) {vs' : Shelf}
    {before' opened' : Option Opened} {more : List Span} (shelved : Shelved t' dir place vs') (steady : vs'.Steady bound')
    (tidy : vs'.TidyAfter before') (reads : Word.read before' vs'.sheets = some (kept ++ more, opened'))
    (same : before' = before ∨ before' = none) (bottom : vs ≠ [] → vs'.bottom? = vs.bottom?)
    (term : vs.tail.term ≤ vs'.tail.term) (collection : vs.tail.collection ≤ vs'.tail.collection)
    (new : ∀ span ∈ more, vs.tail.term ≤ span.first.term ∧ vs.tail.collection ≤ span.first.collection) :
    Remains t' dir place vs' bound' before' gone (kept ++ more) opened' (given ++ [vs'.tail]) := by
  have past : ∀ p, vs.Past p → vs'.Past p := fun p before => before.of_bottom (bottom before.ne_nil)
  have began : ∀ o ∈ before', vs'.Past o.first := by
    intro o member
    rcases same with rfl | rfl
    · exact past _ (remains.began o member)
    · cases member
  have lost : ∀ span ∈ gone, vs'.Past span.first ∧ vs'.Past span.last :=
    fun span member => ⟨past _ (remains.lost span member).1, past _ (remains.lost span member).2⟩
  have ends : Remains t' dir place vs' bound' before' gone (kept ++ more) opened' [] :=
    ⟨shelved, steady, tidy, reads, began, lost, by simp⟩
  refine ⟨shelved, steady, tidy, reads, began, lost, fun p member => ?_⟩
  rcases List.mem_append.mp member with old | new'
  · obtain ⟨uncut, low, early⟩ := remains.marks p old
    refine ⟨fun span inside further => ?_, UInt64.le_trans low term, UInt64.le_trans early collection⟩
    rw [← List.append_assoc] at inside
    rcases List.mem_append.mp inside with stays | added
    · exact uncut span stays further
    · obtain ⟨term', collection'⟩ := new span added
      exact Position.segmentLE_of_le (UInt64.le_trans low term') (UInt64.le_trans early collection')
  · obtain rfl := List.mem_singleton.mp new'
    refine ⟨fun span inside further => ?_, UInt64.le_refl _, UInt64.le_refl _⟩
    exact absurd further (Position.not_lt.mpr (ends.last_le_tail inside))

/-- The oldest files go; a record that began in them is then open before the first file left. -/
theorem front (remains : Remains t dir place (newer ++ older) bound before gone kept opened given) (ne : newer ≠ [])
    (shelved : Shelved t' dir place newer) : ∃ before' gone' kept', gone ++ kept = gone' ++ kept' ∧
      Remains t' dir place newer bound before' gone' kept' opened given := by
  have rising := remains.steady.rising
  have reads := remains.reads
  rw [Shelf.sheets_append] at reads
  obtain ⟨early, between, late, first, second, rfl⟩ := Word.read_append_eq_some.mp reads
  obtain ⟨ends, open_⟩ := Word.positions_of_read first
  have past : ∀ {p : Position}, p ∈ (Shelf.sheets older).map Prod.fst ∨ (∃ o ∈ before, p = o.first) → newer.Past p := by
    rintro p (inOlder | ⟨o, member, rfl⟩)
    · obtain ⟨s, stands, rfl⟩ := List.mem_map.mp inOlder
      exact Shelf.past_of_mem_sheets rising ne stands
    · exact (remains.began o member).front rising ne
  have steady : Shelf.Steady bound newer := by
    refine ⟨rising.front, ?_, fun v member => remains.steady.pages v (List.mem_append_left _ member), remains.steady.small⟩
    obtain ⟨v, rest, rfl⟩ := List.exists_cons_of_ne_nil ne
    exact remains.steady.collection
  have tail : Shelf.tail newer = Shelf.tail (newer ++ older) := by
    obtain ⟨v, rest, rfl⟩ := List.exists_cons_of_ne_nil ne
    rfl
  refine ⟨between, gone ++ early, late, by simp, shelved, steady, remains.tidy.front first, second,
    fun o member => past (open_ o member), fun span member => ?_, fun p member => ?_⟩
  · rcases List.mem_append.mp member with lost | now
    · obtain ⟨first, last⟩ := remains.lost span lost
      exact ⟨first.front rising ne, last.front rising ne⟩
    · exact ⟨past (ends span now).2, past (.inl (ends span now).1)⟩
  · rw [tail, List.append_assoc]
    exact remains.marks p member

end Remains

/-! ## A log with what is left of it -/

/-- What is left of a log that is not up. -/
def Archive (t : FileTree) (dir place : Path) (bound : Nat) (spans : List Span) (given : List Position) : Prop :=
  ∃ vs before gone kept opened, spans = gone ++ kept ∧ Remains t dir place vs bound before gone kept opened given

/-- A log that is up, with what is left of it. -/
def Chronicle (m : Mounted Log) (place : Path) (bound : Nat) (spans : List Span) (given : List Position) : Prop :=
  ∃ vs before gone kept, spans = gone ++ kept ∧ Remains m.disk m.item.dir place vs bound before gone kept none given ∧
    Log.Follows m place vs ∧ vs.Whole

/-- Where the first page of a record would lie. -/
def Log.beginning (record : Bytes) (m : Mounted Log) : Position :=
  ((Log.onTail (((Record.split record).take 1).forM fun page => Tail.appendPage page.1 page.2)).perform m).2.item.position

/-- The spans whose records outlive a cut of the newest file. -/
def survivingSpans (length : Nat) (dir : Path) (t : FileTree) (spans : List Span) : List Span :=
  match newest? t dir with
  | none => spans
  | some segment => spans.filter fun span => outlives segment length span.record

/-- The tree without the oldest segment files of a log, some number of them; the newest stays. -/
def deleteOldest (count : Nat) (dir : Path) (t : FileTree) : FileTree :=
  match Segment.list t dir with
  | .error _ => t
  | .ok segments => (segments.dropLast.take count).foldl (fun t segment =>
      match t.removeFile segment.path with
      | .ok t' => t'
      | .error _ => t) t

variable {t : FileTree} {dir place : Path} {bound bound' : Nat} {spans : List Span} {given : List Position}
  {m : Mounted Log}

theorem Chronicle.archive (chronicle : Chronicle m place bound spans given) :
    Archive m.disk m.item.dir place bound spans given := by
  obtain ⟨vs, before, gone, kept, parts, remains, -⟩ := chronicle
  exact ⟨vs, before, gone, kept, none, parts, remains⟩

theorem Archive.mono (archive : Archive t dir place bound spans given) (le : bound ≤ bound') (small : bound' < 2 ^ 64) :
    Archive t dir place bound' spans given := by
  obtain ⟨vs, before, gone, kept, opened, parts, remains⟩ := archive
  exact ⟨vs, before, gone, kept, opened, parts, remains.mono le small⟩

theorem Archive.subset (archive : Archive t dir place bound spans given) {given' : List Position} (sub : given' ⊆ given) :
    Archive t dir place bound spans given' := by
  obtain ⟨vs, before, gone, kept, opened, parts, remains⟩ := archive
  exact ⟨vs, before, gone, kept, opened, parts, remains.subset sub⟩

theorem Chronicle.mono (chronicle : Chronicle m place bound spans given) (le : bound ≤ bound') (small : bound' < 2 ^ 64) :
    Chronicle m place bound' spans given := by
  obtain ⟨vs, before, gone, kept, parts, remains, rest⟩ := chronicle
  exact ⟨vs, before, gone, kept, parts, remains.mono le small, rest⟩

/-- An empty directory has lost nothing. -/
theorem Archive.nil (sound : t.Sound) (hosts : t.Hosts dir place Segment.nameWidth) (empty : t.children place = []) :
    Archive t dir place 0 [] [] :=
  ⟨[], none, [], [], none, rfl, .nil sound hosts empty, .nil (by decide), trivial, rfl, by simp, by simp, by simp⟩

/-- The pages of a record more, or some of them. -/
private theorem Remains.addPages {t' : FileTree} {vs : Shelf} {before opened : Option Opened} {gone kept more : List Span}
    (remains : Remains t dir place vs bound before gone kept none given) (whole : vs.Whole) (limit : UInt64)
    {pages : List (Page.Kind × Bytes)} (fits : ∀ page ∈ pages, Page.Fits page) (small : bound + pages.length < 2 ^ 64)
    (shelved : Shelved t' dir place (vs.addPages limit pages))
    (reads : Word.read none (Shelf.trail limit vs pages) = some (more, opened)) :
    Remains t' dir place (vs.addPages limit pages) (bound + pages.length) before gone (kept ++ more) opened
      (given ++ [(vs.addPages limit pages).tail]) := by
  obtain ⟨steady, collections⟩ := remains.steady.addPages whole limit fits small
  obtain ⟨term, terms⟩ := Shelf.term_addPages limit pages vs
  have within := (Word.positions_of_read reads).1
  have on : vs.tail.collection ≤ (vs.addPages limit pages).tail.collection := by
    have rising := (remains.steady.addPages whole limit fits small).1.rising
    cases vs with
    | nil => exact UInt64.zero_le
    | cons v older =>
      obtain ⟨v', member, -, same⟩ := Shelf.extends_addPages limit pages (v :: older) v List.mem_cons_self
      have le := (rising.le_tail member).2
      rwa [same] at le
  refine remains.extend shelved steady (remains.tidy.addPages limit pages) ?_ (.inl rfl)
    (Shelf.bottom?_addPages limit pages) (UInt64.le_of_eq term.symm) on fun span member => ?_
  · rw [Shelf.sheets_addPages]
    exact Word.read_of_append remains.reads reads
  · rcases (within span member).2 with inTrail | ⟨o, impossible, -⟩
    · obtain ⟨s, stands, same⟩ := List.mem_map.mp inTrail
      rw [← same]
      exact ⟨UInt64.le_of_eq (terms s stands).symm, collections s stands⟩
    · cases impossible

/-- The pages of a whole record are one record more, which begins where its first page would
    lie alone. -/
private theorem Remains.record {t' : FileTree} {vs : Shelf} {before : Option Opened} {gone kept : List Span}
    (remains : Remains t dir place vs bound before gone kept none given) (whole : vs.Whole) (limit : UInt64)
    (record : Bytes) (small : bound + (Record.split record).length < 2 ^ 64)
    (shelved : Shelved t' dir place (vs.addPages limit (Record.split record))) :
    Remains t' dir place (vs.addPages limit (Record.split record)) (bound + (Record.split record).length) before gone
      (kept ++ [⟨(vs.addPages limit ((Record.split record).take 1)).tail,
        (vs.addPages limit (Record.split record)).tail, record⟩]) none
      (given ++ [(vs.addPages limit (Record.split record)).tail]) := by
  obtain ⟨first, last, begins, lies, reads⟩ := Word.read_split (Shelf.trail_pages limit (Record.split record) vs)
  obtain ⟨atFirst, atLast⟩ := Shelf.trail_ends limit (Record.split record) vs
  obtain ⟨s, head, rfl⟩ := Option.map_eq_some_iff.mp begins
  obtain ⟨s', final, rfl⟩ := Option.map_eq_some_iff.mp lies
  rw [atFirst s head, atLast s' final] at reads
  exact remains.addPages whole limit (Record.fits_split record) small shelved reads

theorem Log.Follows.beginning {vs : Shelf} (follows : Log.Follows m place vs) (steady : vs.Steady bound) (whole : vs.Whole)
    (record : Bytes) (small : bound + (Record.split record).length < 2 ^ 64) :
    Log.beginning record m = (vs.addPages m.item.tail.limit ((Record.split record).take 1)).tail := by
  have fewer : ((Record.split record).take 1).length ≤ (Record.split record).length := List.length_take_le' ..
  have fits : ∀ page ∈ (Record.split record).take 1, Page.Fits page :=
    fun page member => Record.fits_split record page (List.mem_of_mem_take member)
  obtain ⟨m', done, follows', -⟩ := follows.tail.appendPages steady whole fits (by omega)
  rw [Log.beginning, Log.perform_onTail_of done]
  exact follows'.position

/-- A record written is one record more. -/
theorem Chronicle.write (chronicle : Chronicle m place bound spans given) (record : Bytes)
    (small : bound + (Record.split record).length < 2 ^ 64) :
    ∃ m', (Log.write record).perform m = (.ok m'.item.position, m') ∧
      Chronicle m' place (bound + (Record.split record).length)
        (spans ++ [⟨Log.beginning record m, m'.item.position, record⟩]) (given ++ [m'.item.position]) ∧
      Tail.Within place (Log.tailOf m) (Log.tailOf m') := by
  obtain ⟨vs, before, gone, kept, rfl, remains, follows, whole⟩ := chronicle
  obtain ⟨m', done, follows', within⟩ := follows.write remains.steady whole record small
  have position : m'.item.position = (vs.addPages m.item.tail.limit (Record.split record)).tail := follows'.tail.position
  have begins := follows.beginning remains.steady whole record small
  have dir : m'.item.dir = m.item.dir := within.dir
  have shelved : Shelved m'.disk m'.item.dir place (vs.addPages m.item.tail.limit (Record.split record)) :=
    follows'.tail.shelved
  rw [dir] at shelved
  have remains' := remains.record whole m.item.tail.limit record small shelved
  refine ⟨m', by rw [position, done], ⟨_, before, gone, _, List.append_assoc .., ?_, follows',
    whole.addPages m.item.tail.limit _⟩, within⟩
  rw [dir, position, begins]
  exact remains'

/-- A log that dies in the middle of a record leaves the record open, or written whole. -/
theorem Chronicle.interrupt (chronicle : Chronicle m place bound spans given) (record : Bytes) (pages : Nat)
    (small : bound + (Record.split record).length < 2 ^ 64) :
    ∃ m', (Log.onTail (((Record.split record).take pages).forM fun page => Tail.appendPage page.1 page.2)).perform m =
        (.ok (), m') ∧
      ((Record.split record).take pages = Record.split record →
        Archive m'.disk m.item.dir place (bound + (Record.split record).length)
          (spans ++ [⟨Log.beginning record m, m'.item.position, record⟩]) (given ++ [m'.item.position])) ∧
      ((Record.split record).take pages ≠ Record.split record →
        Archive m'.disk m.item.dir place (bound + (Record.split record).length) spans given) ∧
      Tail.Within place (Log.tailOf m) (Log.tailOf m') := by
  obtain ⟨vs, before, gone, kept, rfl, remains, follows, whole⟩ := chronicle
  have fits : ∀ page ∈ (Record.split record).take pages, Page.Fits page :=
    fun page member => Record.fits_split record page (List.mem_of_mem_take member)
  have fewer : ((Record.split record).take pages).length ≤ (Record.split record).length := List.length_take_le' ..
  obtain ⟨m', done, follows', within⟩ := follows.tail.appendPages remains.steady whole fits (by omega)
  have dir : m'.item.dir = m.item.dir := within.dir
  have shelved := follows'.shelved
  rw [dir] at shelved
  refine ⟨_, Log.perform_onTail_of done, fun all => ?_, fun part => ?_, within⟩
  · rw [all] at shelved follows'
    have position : m'.item.position = (vs.addPages m.item.tail.limit (Record.split record)).tail := follows'.position
    have remains' := remains.record whole m.item.tail.limit record small shelved
    refine ⟨vs.addPages m.item.tail.limit (Record.split record), before, gone, _, none, List.append_assoc .., ?_⟩
    change Remains m'.disk _ _ _ _ _ _ (kept ++ [⟨Log.beginning record m, m'.item.position, record⟩]) _
      (given ++ [m'.item.position])
    rw [position, follows.beginning remains.steady whole record small]
    exact remains'
  · have short : pages < (Record.split record).length := by
      by_contra enough
      exact part (List.take_of_length_le (Nat.not_lt.mp enough))
    obtain ⟨opened, partRead, -⟩ := Word.read_part_of_split short
      (Shelf.trail_pages (Log.tailOf m).item.limit ((Record.split record).take pages) vs)
    have remains' := remains.addPages whole (Log.tailOf m).item.limit fits (by omega) shelved partRead
    rw [List.append_nil] at remains'
    exact ⟨_, before, gone, kept, opened, rfl, (remains'.subset (List.subset_append_left _ _)).mono (by omega) small⟩

/-- A higher term begins with a volume of its own. -/
theorem Chronicle.startTerm (chronicle : Chronicle m place bound spans given) {term : UInt64}
    (higher : m.item.position.term < term) (small : bound + 1 < 2 ^ 64) :
    ∃ m', (Log.startTerm term).perform m = (.ok m'.item.position, m') ∧
      Chronicle m' place (bound + 1) spans (given ++ [m'.item.position]) ∧
      Tail.Within place (Log.tailOf m) (Log.tailOf m') := by
  obtain ⟨vs, before, gone, kept, rfl, remains, follows, whole⟩ := chronicle
  have position : m.item.position = vs.tail := follows.tail.position
  rw [position] at higher
  obtain ⟨m', done, follows', within⟩ := follows.startTerm remains.steady small higher
  have position' : m'.item.position = (vs.turnOver term).tail := follows'.tail.position
  have dir : m'.item.dir = m.item.dir := within.dir
  have shelved : Shelved m'.disk m'.item.dir place (vs.turnOver term) := follows'.tail.shelved
  rw [dir] at shelved
  have steady := remains.steady.turnOver whole (UInt64.le_of_lt higher) small
  have tidy : Shelf.TidyAfter before (vs.turnOver term) := by
    refine ⟨fun w _ spans o opened => ?_, remains.tidy⟩
    rw [remains.reads] at opened
    simp at opened
  have on : vs.tail.collection ≤ (vs.turnOver term).tail.collection := by
    cases vs with
    | nil => exact UInt64.zero_le
    | cons v older => exact (steady.rising.le_tail (List.mem_cons_of_mem _ List.mem_cons_self)).2
  have reads : Word.read before (vs.turnOver term).sheets = some (kept ++ [], none) := by
    rw [Shelf.sheets_turnOver, List.append_nil]
    exact remains.reads
  have remains' := remains.extend shelved steady tidy reads (.inl rfl) (Shelf.bottom?_turnOver term)
    (UInt64.le_of_lt higher) on (by simp)
  rw [List.append_nil] at remains'
  refine ⟨m', by rw [position', done], ⟨_, before, gone, kept, rfl, ?_, follows', whole.turnOver term⟩, within⟩
  rw [dir, position']
  exact remains'

/-- What is left is taken up mended, with all its records. -/
theorem Remains.mount {vs : Shelf} {before opened : Option Opened} {gone kept : List Span}
    (remains : Remains m.disk m.item.dir place vs bound before gone kept opened given) (small : bound + 1 < 2 ^ 64) :
    ∃ m' before', Log.mount.perform m = (.ok m'.item.position, m') ∧
      Remains m'.disk m'.item.dir place (vs.mend m.item.tail.limit) (bound + 1) before' gone kept none
        (given ++ [m'.item.position]) ∧
      Log.Follows m' place (vs.mend m.item.tail.limit) ∧ Shelf.Whole (vs.mend m.item.tail.limit) ∧
      Tail.Within place (Log.tailOf m) (Log.tailOf m') := by
  obtain ⟨m', done, follows, within, -⟩ := Log.perform_mount remains.shelved remains.steady small
  obtain ⟨steady, whole, on⟩ := remains.steady.mend m.item.tail.limit small
  obtain ⟨before', same, tidy, reads⟩ := remains.tidy.mend m.item.tail.limit remains.reads
  have position : m'.item.position = (vs.mend m.item.tail.limit).tail := follows.tail.position
  have dir : m'.item.dir = m.item.dir := within.dir
  have shelved : Shelved m'.disk m'.item.dir place (vs.mend m.item.tail.limit) := follows.tail.shelved
  rw [dir] at shelved
  rw [← List.append_nil kept] at reads
  have remains' := remains.extend shelved steady tidy reads same (fun _ => Shelf.bottom?_mend _ vs)
    (UInt64.le_of_eq (Shelf.term_mend _ vs).symm) on (by simp)
  rw [List.append_nil] at remains'
  refine ⟨m', before', by rw [position, done], ?_, follows, whole, within⟩
  rw [dir, position]
  exact remains'

/-- What is left is taken up with all its records. -/
theorem Archive.mount (archive : Archive m.disk m.item.dir place bound spans given) (small : bound + 1 < 2 ^ 64) :
    ∃ m', Log.mount.perform m = (.ok m'.item.position, m') ∧
      Chronicle m' place (bound + 1) spans (given ++ [m'.item.position]) ∧
      Tail.Within place (Log.tailOf m) (Log.tailOf m') := by
  obtain ⟨vs, before, gone, kept, opened, rfl, remains⟩ := archive
  obtain ⟨m', before', done, remains', follows, whole, within⟩ := remains.mount small
  exact ⟨m', done, ⟨_, before', gone, kept, rfl, remains', follows, whole⟩, within⟩

/-! ## Crashes and deletions -/

/-- A crash leaves the records that end within what is left of the newest file. -/
theorem Archive.cut (archive : Archive t dir place bound spans given) (length : Nat) :
    Archive (cutNewest length dir t) dir place bound (survivingSpans length dir t spans) given := by
  obtain ⟨vs, before, gone, kept, opened, rfl, remains⟩ := archive
  have listed := remains.shelved.newest remains.steady.rising
  obtain ⟨count, torn, lost, short, shelved, parts, none_lost, -, outlive⟩ :=
    remains.shelved.cutNewest remains.steady length
  have reads := remains.reads
  rw [parts] at reads
  obtain ⟨early, between, late, first, second, rfl⟩ := Word.read_append_eq_some.mp reads
  have steady := remains.steady.cut count torn short
  have bottom : (vs.cut count torn).bottom? = vs.bottom? := Shelf.bottom?_cut count torn vs
  have tail : (vs.cut count torn).tail.term = vs.tail.term ∧ (vs.cut count torn).tail.collection = vs.tail.collection := by
    cases vs <;> exact ⟨rfl, rfl⟩
  have remains' : Remains (cutNewest length dir t) dir place (vs.cut count torn) bound before gone early between given :=
    { shelved, steady
      tidy := remains.tidy.cut count torn
      reads := first
      began := fun o member => (remains.began o member).of_bottom bottom
      lost := fun span member =>
        ⟨(remains.lost span member).1.of_bottom bottom, (remains.lost span member).2.of_bottom bottom⟩
      marks := fun p member => by
        obtain ⟨uncut, low⟩ := remains.marks p member
        rw [tail.1, tail.2]
        exact ⟨fun span inside => uncut span (by
          rcases List.mem_append.mp inside with before | now
          · exact List.mem_append_left _ before
          · exact List.mem_append_right _ (List.mem_append_left _ now)), low⟩ }
  refine ⟨_, before, gone, early, between, ?_, remains'⟩
  rw [survivingSpans, listed]
  cases vs with
  | nil =>
    rw [none_lost rfl, Word.read_nil, Option.some.injEq, Prod.mk.injEq] at second
    simp [← second.1]
  | cons v older =>
    obtain ⟨stay, go⟩ := outlive v rfl
    have far : gone.filter (fun span => outlives (v.segment dir) length span.record) = gone := by
      rw [List.filter_eq_self]
      intro span member
      have below := ((remains.lost span member).2.before remains.steady.rising List.mem_cons_self).2
      simp only [outlives, decide_eq_true_eq]
      exact .inl fun same => UInt64.ne_of_lt below same.2
    have all : early.filter (fun span => outlives (v.segment dir) length span.record) = early := by
      rw [List.filter_eq_self]
      exact Word.record_of_read first stay
    have none_left : late.filter (fun span => outlives (v.segment dir) length span.record) = [] := by
      rw [List.filter_eq_nil_iff]
      exact fun span member => Bool.eq_false_iff.mp (Word.record_of_read second go span member)
    simp only [List.head?_cons, Option.map_some, List.filter_append, far, all, none_left, List.append_nil]

/-- The oldest volume goes with its file. -/
theorem Shelved.removeOldest {newer : Shelf} {u : Volume} (shelved : Shelved t dir place (newer ++ [u]))
    (rising : Shelf.Rising (newer ++ [u])) : ∃ t', t.removeFile (u.segment dir).path = .ok t' ∧
      Shelved t' dir place newer ∧ FileTree.ChangesOnly place t t' ∧
      ∀ v ∈ newer, t'.find? (place ++ [v.name]) = t.find? (place ++ [v.name]) := by
  obtain ⟨id, file⟩ := shelved.present u (by simp)
  obtain ⟨t', removed, sound, changes, find⟩ :=
    shelved.hosts.removeFile_child u.plain_name.1 u.plain_name.2 shelved.sound file
  have apart : ∀ v ∈ newer, v.name ≠ u.name := by
    intro v member same
    have above := (rising.above member).2
    rw [rising.name_inj (List.mem_append_left _ member) (by simp) same] at above
    exact UInt64.lt_irrefl _ above
  have others : ∀ v ∈ newer, t'.find? (place ++ [v.name]) = t.find? (place ++ [v.name]) := by
    intro v member
    rw [find, if_neg fun same => apart v member (List.head_eq_of_cons_eq (List.append_cancel_left same))]
  refine ⟨t', removed, ⟨sound, shelved.hosts.kept changes.keeps, fun v member => ?_, fun name node lies => ?_⟩, changes,
    others⟩
  · rw [others v member]
    exact shelved.present v (List.mem_append_left _ member)
  · rw [find] at lies
    split at lies
    · cases lies
    · rename_i other
      obtain ⟨v, member, same⟩ := shelved.nothing name node lies
      rcases List.mem_append.mp member with above | oldest
      · exact ⟨v, above, same⟩
      · rw [← same, List.mem_singleton.mp oldest] at other
        exact absurd rfl other

/-- The files of the oldest volumes go one after the other. -/
theorem Shelved.removeAll {newer : Shelf} {oldest : List Volume} (shelved : Shelved t dir place (newer ++ oldest.reverse))
    (rising : Shelf.Rising (newer ++ oldest.reverse)) :
    ∃ t', (oldest.map (Volume.segment dir)).foldl (fun t segment =>
        match t.removeFile segment.path with
        | .ok t' => t'
        | .error _ => t) t = t' ∧ Shelved t' dir place newer ∧ FileTree.ChangesOnly place t t' ∧
      ∀ v ∈ newer, t'.find? (place ++ [v.name]) = t.find? (place ++ [v.name]) := by
  induction oldest generalizing t with
  | nil => exact ⟨t, rfl, by simpa using shelved, .refl place t, fun _ _ => rfl⟩
  | cons u rest ih =>
    rw [List.reverse_cons, ← List.append_assoc] at shelved rising
    obtain ⟨t', removed, shelved', changes, same⟩ := shelved.removeOldest rising
    obtain ⟨t'', all, shelved'', changes', same'⟩ := ih shelved' rising.front
    refine ⟨t'', ?_, shelved'', changes.trans changes', fun v member => ?_⟩
    · rw [List.map_cons, List.foldl_cons, removed]
      exact all
    · rw [same' v member, same v (List.mem_append_left _ member)]

theorem Shelved.deleteOldest {vs : Shelf} (shelved : Shelved t dir place vs) (rising : vs.Rising) (count : Nat) :
    ∃ newer older, vs = newer ++ older ∧ (newer = [] → vs = []) ∧ Shelved (deleteOldest count dir t) dir place newer ∧
      FileTree.ChangesOnly place t (Shiplog.deleteOldest count dir t) ∧
      ∀ v ∈ newer, (Shiplog.deleteOldest count dir t).find? (place ++ [v.name]) = t.find? (place ++ [v.name]) := by
  have listed := shelved.stocked.list rising
  cases vs with
  | nil =>
    have same : Shiplog.deleteOldest count dir t = t := by simp [Shiplog.deleteOldest, listed]
    exact ⟨[], [], rfl, fun _ => rfl, by rwa [same], by rw [same]; exact .refl place t, by simp⟩
  | cons v rest =>
    have parts : v :: rest = (v :: (rest.reverse.drop count).reverse) ++ (rest.reverse.take count).reverse := by
      rw [List.cons_append, ← List.reverse_append, List.take_append_drop, List.reverse_reverse]
    have which : ((v :: rest).reverse.map (Volume.segment dir)).dropLast.take count =
        (rest.reverse.take count).map (Volume.segment dir) := by
      rw [List.reverse_cons, List.map_append, List.map_singleton, List.dropLast_concat, List.map_take]
    have rising' := rising
    rw [parts] at shelved rising'
    obtain ⟨t', all, rest'⟩ := shelved.removeAll rising'
    have tree : Shiplog.deleteOldest count dir t = t' := by
      rw [Shiplog.deleteOldest, listed]
      simp only [which]
      exact all
    rw [tree]
    exact ⟨_, _, parts, by simp, rest'⟩

/-- A log goes on over the files that are left. -/
theorem Chronicle.deleteOldest (chronicle : Chronicle m place bound spans given) (count : Nat) :
    Chronicle ⟨Shiplog.deleteOldest count m.item.dir m.disk, m.item⟩ place bound spans given := by
  obtain ⟨vs, before, gone, kept, rfl, remains, follows, whole⟩ := chronicle
  obtain ⟨newer, older, rfl, none_left, shelved, -, same⟩ := remains.shelved.deleteOldest remains.steady.rising count
  have tail : Shelf.tail newer = Shelf.tail (newer ++ older) := by
    cases newer with
    | nil => rw [List.nil_append, List.append_eq_nil_iff.mp (none_left rfl) |>.2]
    | cons v rest => rfl
  have followed : Log.Follows ⟨Shiplog.deleteOldest count m.item.dir m.disk, m.item⟩ place newer := by
    refine ⟨follows.mounted, ⟨shelved, follows.tail.position.trans tail.symm, fun empty => ?_, fun v newest => ?_⟩⟩
    · exact follows.tail.closed (none_left empty)
    · obtain ⟨rest, rfl⟩ := List.head?_eq_some_iff.mp newest
      obtain ⟨id, held, file⟩ := follows.tail.held v rfl
      exact ⟨id, held, (same v List.mem_cons_self).trans file⟩
  have whole' : Shelf.Whole newer := fun v member => whole v (List.mem_append_left _ member)
  by_cases empty : newer = []
  · have nothing := none_left empty
    subst empty
    rw [nothing] at remains
    exact ⟨[], before, gone, kept, rfl, { remains with shelved }, followed, whole'⟩
  · obtain ⟨before', gone', kept', parts, remains'⟩ := remains.front empty shelved
    exact ⟨newer, before', gone', kept', parts, remains', followed, whole'⟩

theorem Archive.deleteOldest (archive : Archive t dir place bound spans given) (count : Nat) :
    Archive (deleteOldest count dir t) dir place bound spans given := by
  obtain ⟨vs, before, gone, kept, opened, rfl, remains⟩ := archive
  obtain ⟨newer, older, rfl, none_left, shelved, -⟩ := remains.shelved.deleteOldest remains.steady.rising count
  by_cases empty : newer = []
  · have nothing := none_left empty
    subst empty
    rw [nothing] at remains
    exact ⟨[], before, gone, kept, opened, rfl, { remains with shelved }⟩
  · obtain ⟨before', gone', kept', parts, remains'⟩ := remains.front empty shelved
    exact ⟨newer, before', gone', kept', opened, parts, remains'⟩

/-! ## Scans -/

/-- What a scan after a position gives, for a log that ends at `tail` and has these segments
    left. -/
inductive Verdict (segments : List Segment) (spans : List Span) (tail p : Position) : Scan → Prop where
  | ahead (beyond : tail < p) (nothing : ∀ span ∈ spans, ¬ p < span.last) :
      Verdict segments spans tail p (.failed (.aheadOfTail p tail))
  /-- The position lies before what is left. -/
  | insufficient {oldest : Segment} (within : ¬ tail < p) (first : oldest ∈ segments.head?)
      (before : p.collection = Position.start.collection ∨
        p.term < oldest.term ∨ p.term = oldest.term ∧ p.collection < oldest.collection) :
      Verdict segments spans tail p (.failed (.insufficientHistory p ⟨oldest.term, oldest.collection, 0⟩))
  /-- The records but those that end at or before the position; nothing after it is lacking. -/
  | found (passed kept : List Span) (within : ¬ tail < p) (parts : spans = passed ++ kept)
      (old : ∀ span ∈ passed, ¬ p < span.last) (complete : ∀ span ∈ spans, p < span.last → ¬ span.LacksPart segments) :
      Verdict segments spans tail p ⟨kept.map Span.record, none⟩

namespace Shelf

variable {vs : Shelf} {p q : Position} {v : Volume}

/-- What lies before a shelf lies before the segment of a position that a volume is in reach of. -/
theorem Past.not_segmentLE (past : vs.Past q) (rising : vs.Rising) (member : v ∈ vs) (here : v.startsBy p = true) :
    ¬ p.segmentLE q = true := by
  obtain ⟨term, collection⟩ := past.before rising member
  rw [Volume.startsBy, Position.segmentLE_iff] at here
  rw [Position.segmentLE_iff]
  simp only [UInt64.lt_iff_toNat_lt, ← UInt64.toNat_inj, UInt64.le_iff_toNat_le] at *
  omega

end Shelf

namespace Remains

variable {vs : Shelf} {before opened : Option Opened} {gone kept : List Span} {p : Position}

/-- A record that lacks a part began before the files that are left. -/
theorem past_of_lacksPart (remains : Remains t dir place vs bound before gone kept opened given) {span : Span}
    (member : span ∈ gone ++ kept) (lacks : span.LacksPart (vs.reverse.map (Volume.segment dir))) : vs.Past span.first := by
  rcases List.mem_append.mp member with lost | found
  · exact (remains.lost span lost).1
  · obtain ⟨last, first⟩ := (Word.positions_of_read remains.reads).1 span found
    rcases first with inside | ⟨o, began, same⟩
    · obtain ⟨collection, low, high, lacking⟩ := lacks
      obtain ⟨s, stands, sFirst⟩ := List.mem_map.mp inside
      obtain ⟨s', stands', sLast⟩ := List.mem_map.mp last
      obtain ⟨u, uMember, -, uCollection, -⟩ := Shelf.mem_sheets stands
      obtain ⟨w, wMember, -, wCollection, -⟩ := Shelf.mem_sheets stands'
      rw [← sFirst, uCollection] at low
      rw [← sLast, wCollection] at high
      have within := UInt64.le_trans high (remains.steady.rising.le_tail wMember).2
      obtain ⟨x, xMember, same⟩ := remains.steady.rising.gapless uMember low within
      exact absurd same (lacking (x.segment dir) (List.mem_map.mpr ⟨x, List.mem_reverse.mpr xMember, rfl⟩))
    · rw [same]
      exact remains.began o began

/-- A shelf that goes back to the first collection lacks nothing. -/
theorem nothing_lost (remains : Remains t dir place vs bound before gone kept opened given) (founded : vs.Founded) :
    before = none ∧ gone = [] := by
  constructor
  · cases before with
    | none => rfl
    | some o => exact absurd founded (remains.began o rfl).not_founded
  · cases gone with
    | nil => rfl
    | cons span rest => exact absurd founded (remains.lost span List.mem_cons_self).1.not_founded

theorem last_of_tail_le (remains : Remains t dir place vs bound before gone kept opened given) (beyond : vs.tail ≤ p) :
    ∀ span ∈ gone ++ kept, ¬ p < span.last :=
  fun _ member => Position.not_lt.mpr (Position.le_trans (remains.last_le_tail member) beyond)

/-- Where no file is left nothing was ever written. -/
theorem verdict_nil (remains : Remains t dir place [] bound before gone kept opened given) (within : ¬ Shelf.tail [] < p) :
    Verdict [] (gone ++ kept) (Shelf.tail []) p ⟨[], none⟩ := by
  obtain ⟨-, rfl⟩ := remains.nothing_lost (by simp [Shelf.Founded, Shelf.bottom?])
  have reads := remains.reads
  rw [Shelf.sheets_nil, Word.read_nil, Option.some.injEq, Prod.mk.injEq] at reads
  obtain ⟨rfl, -⟩ := reads
  exact .found [] [] within rfl (by simp) (by simp)

/-- A scan whose start lies before the oldest file that is left. -/
theorem verdict_before {oldest : Volume} (within : ¬ vs.tail < p) (bottom : vs.getLast? = some oldest)
    (before : p.collection = Position.start.collection ∨
      p.term < oldest.term ∨ p.term = oldest.term ∧ p.collection < oldest.collection) :
    Verdict (vs.reverse.map (Volume.segment dir)) (gone ++ kept) vs.tail p
      (.failed (.insufficientHistory p ⟨oldest.term, oldest.collection, 0⟩)) := by
  have first : oldest.segment dir ∈ (vs.reverse.map (Volume.segment dir)).head? := by
    rw [List.head?_map, List.head?_reverse, bottom]
    rfl
  exact .insufficient within first before

/-- A scan from the very beginning. -/
theorem verdict_start (remains : Remains t dir place vs bound before gone kept opened given) (whole : vs.Whole)
    (apart : p ≠ vs.tail) (within : ¬ vs.tail < p) (zero : p.collection = Position.start.collection) :
    Verdict (vs.reverse.map (Volume.segment dir)) (gone ++ kept) vs.tail p (Scan.read t dir vs.tail p) := by
  have rising := remains.steady.rising
  rw [Scan.read_eq (remains.shelved.stocked.list rising) apart within, Shelf.segmentsAfter_zero zero]
  cases bottom : vs.getLast? with
  | none =>
    obtain rfl := List.getLast?_eq_none_iff.mp bottom
    exact remains.verdict_nil within
  | some oldest =>
    by_cases one : oldest.collection = 1
    · have founded : vs.Founded := by simp [Shelf.Founded, Shelf.bottom?, bottom, one]
      obtain ⟨rfl, rfl⟩ := remains.nothing_lost founded
      have assembled := Shelf.assemble_founded remains.shelved.stocked rising whole remains.reads
      simp only [one, ↓reduceIte, assembled]
      exact .found [] kept within rfl (by simp)
        fun span member _ lacks => absurd founded (remains.past_of_lacksPart member lacks).not_founded
    · simp only [one, ↓reduceIte]
      exact verdict_before within bottom (.inl zero)

/-- A scan from a position for which no file is left. -/
theorem verdict_nowhere (remains : Remains t dir place vs bound before gone kept opened given)
    (apart : p ≠ vs.tail) (within : ¬ vs.tail < p) (inside : p.collection ≠ Position.start.collection)
    (nowhere : ∀ u ∈ vs, u.startsBy p = false) :
    Verdict (vs.reverse.map (Volume.segment dir)) (gone ++ kept) vs.tail p (Scan.read t dir vs.tail p) := by
  rw [Scan.read_eq (remains.shelved.stocked.list remains.steady.rising) apart within,
    Shelf.segmentsAfter_error inside nowhere]
  cases bottom : vs.getLast? with
  | none =>
    obtain rfl := List.getLast?_eq_none_iff.mp bottom
    exact remains.verdict_nil within
  | some oldest =>
    exact verdict_before within bottom
      (.inr (Volume.startsBy_eq_false.mp (nowhere oldest (List.mem_of_getLast? bottom))))

/-- A scan from a position with a file. -/
theorem verdict_window {newer older : Shelf} {v : Volume}
    (remains : Remains t dir place (newer ++ v :: older) bound before gone kept opened given)
    (whole : Shelf.Whole (newer ++ v :: older)) (apart : p ≠ Shelf.tail (newer ++ v :: older))
    (within : ¬ Shelf.tail (newer ++ v :: older) < p) (inside : p.collection ≠ Position.start.collection)
    (here : v.startsBy p = true) (later : ∀ u ∈ newer, u.startsBy p = false) (uncut : Uncut (gone ++ kept) p) :
    Verdict ((newer ++ v :: older).reverse.map (Volume.segment dir)) (gone ++ kept) (Shelf.tail (newer ++ v :: older)) p
      (Scan.read t dir (Shelf.tail (newer ++ v :: older)) p) := by
  have rising := remains.steady.rising
  have stocked := remains.shelved.stocked
  have reads := remains.reads
  rw [Scan.read_eq (stocked.list rising) apart within, Shelf.segmentsAfter_ok inside here later]
  -- A record that began before the files ends before the position.
  have old : ∀ span ∈ gone ++ kept, Shelf.Past (newer ++ v :: older) span.first → ¬ p < span.last :=
    fun span member past further =>
      past.not_segmentLE rising (List.mem_append_right _ List.mem_cons_self) here (uncut span member further)
  have complete : ∀ span ∈ gone ++ kept, p < span.last →
      ¬ span.LacksPart ((newer ++ v :: older).reverse.map (Volume.segment dir)) :=
    fun span member further lacks => old span member (remains.past_of_lacksPart member lacks) further
  have split : newer ++ v :: older = (newer ++ [v]) ++ older := by simp
  rw [split] at stocked whole reads rising
  obtain ⟨passed, kept', rfl, began, assembled⟩ := Shelf.assemble_window stocked rising whole reads
  simp only [assembled]
  refine .found (gone ++ passed) kept' within (by simp) (fun span member => ?_) complete
  rcases List.mem_append.mp member with lost | skipped
  · exact old span (List.mem_append_left _ lost) (remains.lost span lost).1
  · intro further
    have stands : span ∈ gone ++ (passed ++ kept') := by simp [skipped]
    rcases began span skipped with below | ⟨o, member, same⟩
    · obtain ⟨s, stands', same⟩ := List.mem_map.mp below
      have past := Shelf.past_of_mem_sheets rising (by simp) stands'
      rw [same] at past
      exact past.not_segmentLE rising.front (List.mem_append_right _ (List.mem_singleton.mpr rfl)) here
        (uncut span stands further)
    · exact old span stands (same ▸ remains.began o member) further

/-- A scan after a position that no record straddles. -/
theorem verdict (remains : Remains t dir place vs bound before gone kept opened given) (whole : vs.Whole)
    (uncut : Uncut (gone ++ kept) p) :
    Verdict (vs.reverse.map (Volume.segment dir)) (gone ++ kept) vs.tail p (Scan.read t dir vs.tail p) := by
  by_cases atEnd : p = vs.tail
  · subst atEnd
    have old := remains.last_of_tail_le (Position.le_refl _)
    rw [Scan.read, if_pos rfl]
    exact .found _ [] (Position.lt_irrefl _) (List.append_nil _).symm old
      fun span member further => absurd further (old span member)
  by_cases beyond : vs.tail < p
  · rw [Scan.read, if_neg atEnd, if_pos beyond]
    exact .ahead beyond (remains.last_of_tail_le (Position.le_of_lt beyond))
  by_cases zero : p.collection = Position.start.collection
  · exact remains.verdict_start whole atEnd beyond zero
  rcases Shelf.startsBy_cases p vs with nowhere | ⟨newer, v, older, rfl, here, later⟩
  · exact remains.verdict_nowhere atEnd beyond zero nowhere
  · exact remains.verdict_window whole atEnd beyond zero here later uncut

end Remains

/-- A scan of a log over what is left of it. -/
theorem Chronicle.scan (chronicle : Chronicle m place bound spans given) :
    ∃ segments, Segment.list m.disk m.item.dir = .ok segments ∧ (∀ p ∈ given, Uncut spans p) ∧
      ∀ p, Uncut spans p → Verdict segments spans m.item.position p (Log.scan m.disk m.item p) := by
  obtain ⟨vs, before, gone, kept, rfl, remains, follows, whole⟩ := chronicle
  have position : m.item.position = vs.tail := follows.tail.position
  refine ⟨_, remains.shelved.stocked.list remains.steady.rising, fun p member => (remains.marks p member).1,
    fun p uncut => ?_⟩
  rw [Log.scan, position]
  exact remains.verdict whole uncut

end Shiplog
