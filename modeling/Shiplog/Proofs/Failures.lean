import Shiplog.Proofs.Repairs
import Shiplog.Proofs.Scans

/-!
A log whose next file cannot always be created. A directory in the place of the file stops a
record before its first page, or between two of its pages; the pages that were written stay, and
the record is open (`Leftover`). As long as no record follows them the log gives just the records
that it has accepted, and taking it up closes what still shows at the end. A record behind them is
never read again, nor is what comes after it: every scan from the start ends there with an error
(`Trial.run_delivers_iff`).
-/
namespace Shiplog

/-! ## What failed writes leave -/

/-- What failed writes have left in a log. -/
inductive Leftover where
  | nothing
  /-- Pages of an open record at the end, and above them so many files without pages. -/
  | pages (files : Nat)
  /-- Pages of an open record with another record behind them. -/
  | buried
  deriving DecidableEq

namespace Leftover

/-- A record is written whole. -/
def bury : Leftover → Leftover
  | .nothing => .nothing
  | _ => .buried

/-- A record is given up after some of its pages. -/
def strand : Leftover → Leftover
  | .nothing => .pages 0
  | _ => .buried

/-- A file is begun. -/
def cover : Leftover → Leftover
  | .pages files => .pages (files + 1)
  | left => left

/-- The log is taken up. An open record is looked for in the newest two files only. -/
def mend : Leftover → Leftover
  | .pages files => if files ≤ 1 then .nothing else .pages files
  | left => left

/-- What a scan from the start shows of the accepted records: all of them; or, where a record is
    buried, some of the first and then an error. -/
inductive Shows (records : List (Position × Bytes)) : Leftover → Scan → Prop where
  | all {left : Leftover} (clear : left ≠ .buried) : Shows records left ⟨records, none⟩
  | breach {found : List (Position × Bytes)} (breach : Assembly.Breach) (first : found <+: records) :
      Shows records .buried ⟨found, some (.corruption breach.text)⟩

theorem Shows.eq_all {records : List (Position × Bytes)} {left : Leftover} {scan : Scan} (shows : left.Shows records scan)
    (clear : left ≠ .buried) : scan = ⟨records, none⟩ := by
  cases shows with
  | all => rfl
  | breach => exact absurd rfl clear

/-- Mending buries nothing. -/
theorem mend_eq_buried {left : Leftover} (buried : left.mend = .buried) : left = .buried := by
  cases left with
  | nothing => exact buried
  | pages files =>
    simp only [mend] at buried
    split at buried <;> cases buried
  | buried => rfl

end Leftover

namespace Word

variable {front word : List Sheet} {spans : List Span} {o : Opened}

/-- A record begins in a word while another is open; before it are these records. -/
def Clashes (word : List Sheet) (spans : List Span) : Prop :=
  ∃ front sheet rest o, word = front ++ sheet :: rest ∧ read none front = some (spans, some o) ∧
    (sheet.2.1 = .whole ∨ sheet.2.1 = .start)

theorem Clashes.append (clashes : Clashes word spans) (more : List Sheet) : Clashes (word ++ more) spans := by
  obtain ⟨front, sheet, rest, o, rfl, reads, begins⟩ := clashes
  exact ⟨front, sheet, rest ++ more, o, by simp, reads, begins⟩

/-- The first pages of a record clash with a record that is open. -/
theorem clashes_of_split {record : Bytes} {count : Nat} (reads : read none front = some (spans, some o)) (ne : word ≠ [])
    (pages : word.map Prod.snd = (Record.split record).take count) : Clashes (front ++ word) spans := by
  obtain ⟨page, rest, parts, begins⟩ := Record.split_begins record
  obtain ⟨sheet, later, rfl⟩ := List.exists_cons_of_ne_nil ne
  refine ⟨front, sheet, later, o, rfl, reads, ?_⟩
  cases count with
  | zero => simp at pages
  | succ count =>
    rw [parts, List.map_cons, List.take_succ_cons, List.cons.injEq] at pages
    rwa [pages.1]

/-- A scan ends where records clash. -/
theorem Clashes.assemble (clashes : Clashes word spans) : ∃ breach : Assembly.Breach,
    Scan.assemble .empty (word.map Sheet.item) = ⟨spans.map Span.record, some (.corruption breach.text)⟩ := by
  obtain ⟨front, ⟨position, kind, bytes⟩, rest, o, rfl, reads, begins⟩ := clashes
  obtain ⟨synced, assembled⟩ := assemble_of_read false (Sheet.item (position, kind, bytes) :: rest.map Sheet.item) reads
  rw [List.map_append, List.map_cons]
  rcases begins with rfl | rfl
  · exact ⟨.wholeInside, by simpa [Scan.assemble, Assembly.empty, Assembly.push, Sheet.item] using assembled⟩
  · exact ⟨.startInside, by simpa [Scan.assemble, Assembly.empty, Assembly.push, Sheet.item] using assembled⟩

end Word

namespace Shelf

variable {t : FileTree} {dir place : Path} {blocked : List String} {vs vs' : Shelf} {records : List (Position × Bytes)}
  {left : Leftover} {word : List Sheet} {p : Position}

theorem Blank.turnOver {count : Nat} (blank : vs.Blank count) (term : UInt64) : Blank (count + 1) (vs.turnOver term) := by
  obtain ⟨newer, v, older, rfl, rfl, empty, pages⟩ := blank
  exact ⟨_ :: newer, v, older, rfl, rfl, by simpa using empty, pages⟩

theorem blank_put (page : Page.Kind × Bytes) (ne : vs ≠ []) : Blank 0 (put page vs) := by
  obtain ⟨v, older, rfl⟩ := List.exists_cons_of_ne_nil ne
  exact ⟨[], v.addPage page, older, rfl, rfl, by simp, by simp [Volume.addPage]⟩

/-- What a shelf holds: the accepted records, and what failed writes have left. -/
inductive Carries (vs : Shelf) (records : List (Position × Bytes)) : Leftover → Prop where
  | nothing {spans : List Span} (reads : Word.read none (sheets vs) = some (spans, none))
      (all : records = spans.map Span.record) : Carries vs records .nothing
  | pages {spans : List Span} {o : Opened} {files : Nat} (reads : Word.read none (sheets vs) = some (spans, some o))
      (all : records = spans.map Span.record) (blank : vs.Blank files) : Carries vs records (.pages files)
  | buried {spans : List Span} (clashes : Word.Clashes (sheets vs) spans) (first : spans.map Span.record <+: records) :
      Carries vs records .buried

theorem Carries.record {record : Bytes} (carries : vs.Carries records left) (more : sheets vs' = sheets vs ++ word)
    (pages : word.map Prod.snd = Record.split record) (ends : ∀ s ∈ word.getLast?, s.1 = p) :
    vs'.Carries (records ++ [(p, record)]) left.bury := by
  obtain ⟨first, last, -, lastPage, reads'⟩ := Word.read_split pages
  obtain ⟨s, newest, same⟩ := Option.map_eq_some_iff.mp lastPage
  obtain rfl : p = last := (ends s newest).symm.trans same
  have ne : word ≠ [] := by
    rintro rfl
    simp at newest
  cases carries with
  | @nothing spans reads all =>
    have reads := Word.read_of_append reads reads'
    rw [← more] at reads
    exact .nothing reads (by simp [all, Span.record])
  | pages reads all =>
    have clashes := Word.clashes_of_split reads ne (pages.trans (List.take_length).symm)
    exact .buried (more ▸ clashes) (all ▸ List.prefix_append _ _)
  | buried clashes first =>
    exact .buried (more ▸ clashes.append word) (first.trans (List.prefix_append _ _))

theorem Carries.part {record : Bytes} (carries : vs.Carries records left) (more : sheets vs' = sheets vs ++ word)
    (ne : word ≠ []) {count : Nat} (short : count < (Record.split record).length)
    (pages : word.map Prod.snd = (Record.split record).take count) (blank : vs'.Blank 0) :
    vs'.Carries records left.strand := by
  cases carries with
  | nothing reads all =>
    obtain ⟨opened, part, shut⟩ := Word.read_part_of_split short pages
    cases opened with
    | none => exact absurd (shut rfl) ne
    | some o =>
      have reads := Word.read_of_append reads part
      rw [← more, List.append_nil] at reads
      exact .pages reads all blank
  | pages reads all =>
    exact .buried (more ▸ Word.clashes_of_split reads ne pages) (all ▸ List.prefix_rfl)
  | buried clashes first =>
    exact .buried (more ▸ clashes.append word) first

theorem Carries.turnOver (carries : vs.Carries records left) (term : UInt64) :
    Carries (vs.turnOver term) records left.cover := by
  cases carries with
  | nothing reads all => exact .nothing (by rwa [sheets_turnOver]) all
  | pages reads all blank => exact .pages (by rwa [sheets_turnOver]) all (blank.turnOver term)
  | buried clashes first => exact .buried (by rwa [sheets_turnOver]) first

/-- A shelf without pages cut short on which no record shows open needs no mending. -/
theorem mend_of_shut (limit : UInt64) (whole : vs.Whole) (shut : vs.endsOpen = false) : vs.mend limit = vs := by
  rw [mend, shut, whole.isTorn]
  rfl

/-- Where no record is open, none shows. -/
theorem endsOpen_of_closed {spans : List Span} (reads : Word.read none (sheets vs) = some (spans, none)) :
    vs.endsOpen = false := by
  by_cases bare : sheets vs = []
  · exact endsOpen_of_bare bare
  · obtain ⟨count, blank⟩ := exists_blank bare
    rw [blank.endsOpen reads, Option.isSome_none, Bool.and_false]

theorem Carries.mend (carries : vs.Carries records left) (whole : vs.Whole) (limit : UInt64) :
    Carries (vs.mend limit) records left.mend := by
  cases carries with
  | nothing reads all =>
    rw [mend_of_shut limit whole (endsOpen_of_closed reads)]
    exact .nothing reads all
  | @pages spans o files reads all blank =>
    have shows := blank.endsOpen reads
    by_cases near : files ≤ 1
    · have needed : (vs.endsOpen || vs.isTorn) = true := by simp [shows, near]
      rw [Leftover.mend, if_pos near]
      exact .nothing (read_mend limit needed reads) all
    · rw [Leftover.mend, if_neg near, mend_of_shut limit whole (by simp [shows, near])]
      exact .pages reads all blank
  | buried clashes first =>
    refine .buried ?_ first
    unfold Shelf.mend
    split
    · rw [sheets_addPage, sheets_trim]
      exact clashes.append _
    · exact clashes

/-- What a scan from the start makes of a shelf. -/
theorem Carries.scan (carries : vs.Carries records left) (stocked : Stocked t dir place blocked vs) (rising : vs.Rising)
    (whole : vs.Whole) (founded : vs.Founded) {tail : Position} (from_ : .start ≤ tail)
    (upTo : ∀ s ∈ sheets vs, s.1 ≤ tail) : left.Shows records (Scan.read t dir tail .start) := by
  rw [read_start stocked rising whole founded from_ upTo]
  cases carries with
  | nothing reads all =>
    rw [Word.assemble_all reads, ← all]
    exact .all (by decide)
  | pages reads all =>
    rw [Word.assemble_all reads, ← all]
    exact .all (by simp)
  | buried clashes first =>
    obtain ⟨breach, assembled⟩ := clashes.assemble
    rw [assembled]
    exact .breach breach first

end Shelf

/-! ## Pages until a directory stops them -/

/-- What every step keeps of a shelf without pages cut short. -/
structure Shelf.Solid (bound : Nat) (vs : Shelf) : Prop where
  steady : vs.Steady bound
  whole : vs.Whole
  founded : vs.Founded

namespace Tail

variable {m m' m'' : Mounted Tail} {place : Path} {blocked : List String} {vs vs' vs'' : Shelf} {bound : Nat}
  {page : Page.Kind × Bytes} {pages : List (Page.Kind × Bytes)} {word : List Sheet}

theorem Attends.close (attends : Attends m place blocked vs) :
    Attends ⟨m.disk, { m.item with handle := none }⟩ place blocked vs :=
  ⟨attends.stocked, attends.collection, attends.seq, attends.term, by simp⟩

/-- With a file open the tail stands at the very end. -/
theorem Attends.position_eq (attends : Attends m place blocked vs) (held : m.item.handle ≠ none) :
    m.item.position = vs.tail := by
  obtain ⟨id, open?⟩ := Option.ne_none_iff_exists'.mp held
  obtain ⟨v, newest, term, -⟩ := attends.held id open?
  cases vs with
  | nil => simp at newest
  | cons w older =>
    obtain rfl : w = v := by simpa using newest
    calc m.item.position = ⟨m.item.position.term, m.item.position.collection, m.item.position.seq⟩ := rfl
      _ = ⟨w.term, w.tail.collection, w.tail.seq⟩ := by rw [term, attends.collection, attends.seq]; rfl
      _ = Shelf.tail (w :: older) := rfl

theorem Attends.tail_le (attends : Attends m place blocked vs) : vs.tail ≤ m.item.position := by
  rcases UInt64.lt_or_eq_of_le attends.term with lower | same
  · exact .inl (.inl lower)
  · refine .inr ?_
    calc vs.tail = ⟨vs.tail.term, vs.tail.collection, vs.tail.seq⟩ := rfl
      _ = ⟨m.item.position.term, m.item.position.collection, m.item.position.seq⟩ := by
        rw [same, attends.collection, attends.seq]

theorem founded_room (founded : vs.Founded) (tail : Tail) : Shelf.Founded (tail.room vs) := by
  unfold room
  split
  · exact Shelf.founded_turnOver founded _
  · exact founded

theorem sheets_room (tail : Tail) (vs : Shelf) : Shelf.sheets (tail.room vs) = vs.sheets := by
  unfold room
  split
  · exact Shelf.sheets_turnOver _ vs
  · rfl

/-- A page put where there is room moves the end on. -/
theorem lt_put_room (steady : vs.Steady bound) (small : bound + 1 < 2 ^ 64) (tail : Tail) (page : Page.Kind × Bytes)
    (ne : tail.room vs ≠ []) : vs.tail.collection < (Shelf.put page (tail.room vs)).tail.collection ∨
      vs.tail.collection = (Shelf.put page (tail.room vs)).tail.collection ∧
        vs.tail.seq < (Shelf.put page (tail.room vs)).tail.seq := by
  unfold room at ne ⊢
  split
  · left
    have next := steady.next_collection small
    change vs.tail.collection < vs.tail.collection + 1
    rw [UInt64.lt_iff_toNat_lt, next]
    exact Nat.lt_succ_self _
  · rename_i stays
    rw [if_neg stays] at ne
    obtain ⟨v, older, rfl⟩ := List.exists_cons_of_ne_nil ne
    have few := steady.pages v List.mem_cons_self
    exact .inr ⟨rfl, Volume.seq_lt_addPage page (by omega)⟩

theorem Attends.solid_put (attends : Attends m place blocked vs) (solid : vs.Solid bound) (fits : Page.Fits page)
    (small : bound + 1 < 2 ^ 64) : (Shelf.put page (m.item.room vs)).Solid (bound + 1) := by
  obtain ⟨-, whole, ne⟩ := attends.room solid.steady solid.whole small
  refine ⟨?_, whole.put page, by rw [Shelf.Founded, Shelf.bottom?_put]; exact founded_room solid.founded m.item⟩
  unfold Tail.room at ne ⊢
  split
  · exact (solid.steady.turnOver solid.whole attends.term small).put fits (by simp)
  · rename_i stays
    rw [if_neg stays] at ne
    obtain ⟨v, older, rfl⟩ := List.exists_cons_of_ne_nil ne
    have few := solid.steady.pages v List.mem_cons_self
    exact (solid.steady.mono (Nat.le_succ _) small).put fits (by omega)

/-- What becomes of a shelf by some of the pages that were to be added: those of `word`. -/
structure Appended (m : Mounted Tail) (place : Path) (blocked : List String) (vs : Shelf) (bound : Nat)
    (pages : List (Page.Kind × Bytes)) (m' : Mounted Tail) (vs' : Shelf) (word : List Sheet) : Prop where
  attends : Attends m' place blocked vs'
  solid : vs'.Solid (bound + pages.length)
  sheets : vs'.sheets = vs.sheets ++ word
  pages : word.map Prod.snd = pages.take word.length
  unmoved : word = [] → vs' = vs ∧ m'.item.position = m.item.position
  moved : word ≠ [] → m.item.position < m'.item.position ∧ vs'.Blank 0
  ends : ∀ s ∈ word.getLast?, s.1 = m'.item.position
  within : Within place m m'

/-- Nothing is added. -/
theorem appended_nil (attends : Attends m' place blocked vs) (solid : vs.Solid bound) (small : bound + pages.length < 2 ^ 64)
    (position : m'.item.position = m.item.position) (within : Within place m m') :
    Appended m place blocked vs bound pages m' vs [] where
  attends := attends
  solid := ⟨solid.steady.mono (Nat.le_add_right _ _) small, solid.whole, solid.founded⟩
  sheets := (List.append_nil _).symm
  pages := rfl
  unmoved _ := ⟨rfl, position⟩
  moved ne := absurd rfl ne
  ends := by simp
  within := within

/-- One page is added before the others. -/
theorem appended_cons (attends : Attends m place blocked vs) (solid : vs.Solid bound) (small : bound + 1 < 2 ^ 64)
    (attends' : Attends m' place blocked (Shelf.put page (m.item.room vs)))
    (term : m'.item.position.term = m.item.position.term) (held : m'.item.handle ≠ none) (within : Within place m m')
    (rest : Appended m' place blocked (Shelf.put page (m.item.room vs)) (bound + 1) pages m'' vs'' word) :
    Appended m place blocked vs bound (page :: pages) m'' vs'' ((m'.item.position, page) :: word) := by
  obtain ⟨-, -, ne⟩ := attends.room solid.steady solid.whole small
  have position := attends'.position_eq held
  have less : m.item.position < m'.item.position := by
    refine .inr ⟨term.symm, ?_⟩
    rw [attends.collection, attends.seq, position]
    exact lt_put_room solid.steady small m.item page ne
  refine ⟨rest.attends, ?_, ?_, ?_, by simp, fun _ => ?_, ?_, within.trans rest.within⟩
  · have bounds : bound + (page :: pages).length = bound + 1 + pages.length := by
      rw [List.length_cons]
      omega
    rw [bounds]
    exact rest.solid
  · rw [rest.sheets, Shelf.sheets_put page ne, sheets_room, position, List.append_assoc]
    rfl
  · rw [List.map_cons, rest.pages, List.length_cons, List.take_succ_cons]
  · by_cases last : word = []
    · obtain ⟨rfl, same⟩ := rest.unmoved last
      exact ⟨by rwa [same], Shelf.blank_put page ne⟩
    · obtain ⟨further, blank⟩ := rest.moved last
      exact ⟨Position.lt_trans less further, blank⟩
  · by_cases last : word = []
    · subst last
      simpa using (rest.unmoved rfl).2.symm
    · rw [List.getLast?_cons_of_ne_nil last]
      exact rest.ends

/-- Pages are added until a directory stands in the way. -/
theorem Attends.appendPages (attends : Attends m place blocked vs) (solid : vs.Solid bound)
    (fits : ∀ page ∈ pages, Page.Fits page) (small : bound + pages.length < 2 ^ 64) :
    ∃ m' vs' word, Appended m place blocked vs bound pages m' vs' word ∧
      ((pages.forM fun page => Tail.appendPage page.1 page.2).perform m = (.ok (), m') ∧ word.length = pages.length ∨
        ∃ e, (pages.forM fun page => Tail.appendPage page.1 page.2).perform m = (.error e, m') ∧
          word.length < pages.length ∧ blocked ≠ []) := by
  induction pages generalizing m vs bound with
  | nil => exact ⟨m, vs, [], appended_nil attends solid small rfl (.refl _ _), .inl ⟨rfl, rfl⟩⟩
  | cons page rest ih =>
    have first := fits page List.mem_cons_self
    have few : bound + 1 < 2 ^ 64 := by
      rw [List.length_cons] at small
      omega
    have outcome := attends.appendPage solid.steady solid.whole first few
    rw [Action.perform_forM_cons]
    cases added : (Tail.appendPage page.1 page.2).perform m with
    | mk answer m₁ =>
      rw [added] at outcome
      cases outcome with
      | stopped inside =>
        exact ⟨_, vs, [], appended_nil attends.close solid small rfl ⟨rfl, rfl, .refl _ _⟩,
          .inr ⟨_, rfl, by simp, List.ne_nil_of_mem inside⟩⟩
      | done attends₁ term held within =>
        rw [List.length_cons] at small
        obtain ⟨m₂, vs₂, word, more, result⟩ := ih attends₁ (attends.solid_put solid first few)
          (fun p member => fits p (List.mem_cons_of_mem _ member)) (by omega)
        refine ⟨m₂, vs₂, (m₁.item.position, page) :: word,
          appended_cons attends solid few attends₁ term held within more, ?_⟩
        simpa using result

end Tail

/-! ## Directories in the way -/

/-- A directory made under the name of a segment, if nothing lies there. -/
def obstruct (term collection : UInt64) (dir : Path) (disk : FileTree) : FileTree :=
  ((Edit.makeDirectory (Segment.pathIn dir term collection)).perform disk).2

/-- The directory under the name of a segment removed, if there is one. -/
def unblock (term collection : UInt64) (dir : Path) (disk : FileTree) : FileTree :=
  match disk.locate (Segment.pathIn dir term collection) with
  | .ok (some .directory) => ((Edit.remove (Segment.pathIn dir term collection)).perform disk).2
  | _ => disk

/-- The file names of some segments. -/
def namesOf (segments : List (UInt64 × UInt64)) : List String :=
  segments.map fun segment => Segment.name segment.1 segment.2

/-- The files of a directory stay as they are. -/
def FileTree.KeepsFiles (place : Path) (t t' : FileTree) : Prop :=
  ∀ name id content, t.find? (place ++ [name]) = some (.file id content) →
    t'.find? (place ++ [name]) = some (.file id content)

namespace Stocked

variable {t : FileTree} {dir place : Path} {blocked blocked' : List String} {vs : Shelf} {name : String}

theorem mono (stocked : Stocked t dir place blocked vs) (more : blocked ⊆ blocked') : Stocked t dir place blocked' vs :=
  { stocked with others := fun other node lies => (stocked.others other node lies).imp_right fun old => ⟨old.1, more old.2⟩ }

/-- A name under which no directory lies need not be listed. -/
theorem filter (stocked : Stocked t dir place blocked vs) (absent : t.find? (place ++ [name]) ≠ some .directory) :
    Stocked t dir place (blocked.filter (· ≠ name)) vs := by
  refine { stocked with others := fun other node lies => (stocked.others other node lies).imp_right fun old => ⟨old.1, ?_⟩ }
  refine List.mem_filter.mpr ⟨old.2, decide_eq_true ?_⟩
  rintro rfl
  exact absent (by rw [lies, old.1])

/-- A directory more among the files. -/
theorem addDirectory (stocked : Stocked t dir place blocked vs) (free : t.find? (place ++ [name]) = none) :
    Stocked (t.add (place ++ [name]) .directory) dir place (name :: blocked) vs ∧
      FileTree.KeepsFiles place t (t.add (place ++ [name]) .directory) := by
  have find := FileTree.find?_add free .directory
  have files : FileTree.KeepsFiles place t (t.add (place ++ [name]) .directory) := by
    intro other id content file
    rw [find, if_neg, file]
    intro same
    rw [same, free] at file
    cases file
  have above : t.find? (place ++ [name]).dropLast = some .directory := by
    rw [List.dropLast_concat]
    exact stocked.hosts.directory
  refine ⟨⟨stocked.sound.makeDirectory free above, stocked.hosts.kept (FileTree.keepsDirectories_add free .directory),
    fun v member => ?_, fun other node found => ?_⟩, files⟩
  · obtain ⟨id, file⟩ := stocked.present v member
    exact ⟨id, files _ _ _ file⟩
  · rw [find] at found
    split at found
    · rename_i same
      have names := List.head_eq_of_cons_eq (List.append_cancel_left same)
      exact .inr ⟨(Option.some.inj found).symm, by simp [names]⟩
    · exact (stocked.others other node found).imp_right fun old => ⟨old.1, List.mem_cons_of_mem _ old.2⟩

/-- A directory less among the files. -/
theorem prune (stocked : Stocked t dir place blocked vs) (lies : t.find? (place ++ [name]) = some .directory)
    (hosts : (t.prune (place ++ [name])).Hosts dir place Segment.nameWidth) :
    Stocked (t.prune (place ++ [name])) dir place blocked vs ∧
      FileTree.KeepsFiles place t (t.prune (place ++ [name])) := by
  have find := FileTree.find?_prune_beside t place name
  have files : FileTree.KeepsFiles place t (t.prune (place ++ [name])) := by
    intro other id content file
    rw [find, if_neg, file]
    rintro rfl
    rw [lies] at file
    cases file
  refine ⟨⟨stocked.sound.prune (by simp), hosts, fun v member => ?_, fun other node found => ?_⟩, files⟩
  · obtain ⟨id, file⟩ := stocked.present v member
    exact ⟨id, files _ _ _ file⟩
  · rw [find] at found
    split at found
    · cases found
    · exact stocked.others other node found

end Stocked

section

variable {t : FileTree} {dir place : Path} {blocked : List (UInt64 × UInt64)} {vs : Shelf}

theorem obstruct_eq (hosts : t.Hosts dir place Segment.nameWidth) (term collection : UInt64) :
    obstruct term collection dir t =
      if t.find? (place ++ [Segment.name term collection]) = none
      then t.add (place ++ [Segment.name term collection]) .directory else t := by
  have plain := Segment.plain_name term collection
  have resolved := hosts.resolve_child plain.1 (Nat.le_of_eq plain.2)
  cases lies : t.find? (place ++ [Segment.name term collection]) with
  | none => simp [obstruct, Edit.makeDirectory, Edit.change, Segment.pathIn, resolved, lies, bind, Except.bind]
  | some node =>
    cases node <;> simp [obstruct, Edit.makeDirectory, Edit.change, Segment.pathIn, resolved, lies, bind, Except.bind]

theorem unblock_eq (hosts : t.Hosts dir place Segment.nameWidth) (term collection : UInt64) :
    unblock term collection dir t =
      if t.find? (place ++ [Segment.name term collection]) = some .directory
      then t.prune (place ++ [Segment.name term collection]) else t := by
  have plain := Segment.plain_name term collection
  have located := hosts.locate_child plain.1 (Nat.le_of_eq plain.2)
  have resolved := hosts.resolve_child plain.1 (Nat.le_of_eq plain.2)
  rw [unblock, Segment.pathIn, located]
  by_cases lies : t.find? (place ++ [Segment.name term collection]) = some .directory
  · have last : (dir.child (Segment.name term collection)).trimmed.getLast? = some (Segment.name term collection) := by
      rw [Path.trimmed_child dir plain.1.named.1, Path.child_eq, List.getLast?_concat]
    rw [if_pos lies, lies]
    simp only [Edit.remove]
    rw [Action.perform_bind]
    simp [Edit.change, resolved, lies, Path.endsInDots, last, plain.1.named.2.1, plain.1.named.2.2, bind, Except.bind]
  · rw [if_neg lies]
    split
    · rename_i found
      exact absurd (Except.ok.inj found) lies
    · rfl

theorem Stocked.obstruct (stocked : Stocked t dir place (namesOf blocked) vs) (term collection : UInt64) :
    Stocked (obstruct term collection dir t) dir place (namesOf ((term, collection) :: blocked)) vs ∧
      FileTree.KeepsDirectories t (obstruct term collection dir t) ∧
      FileTree.KeepsFiles place t (obstruct term collection dir t) := by
  rw [obstruct_eq stocked.hosts]
  split
  · rename_i free
    obtain ⟨stocked', files⟩ := stocked.addDirectory free
    exact ⟨stocked', FileTree.keepsDirectories_add free .directory, files⟩
  · exact ⟨stocked.mono (List.subset_cons_self _ _), fun _ => id, fun _ _ _ => id⟩

/-- Where a segment is no longer blocked its name may be left out. -/
theorem filter_namesOf (blocked : List (UInt64 × UInt64)) (term collection : UInt64) :
    (namesOf blocked).filter (· ≠ Segment.name term collection) ⊆ namesOf (blocked.filter (· ≠ (term, collection))) := by
  intro name member
  obtain ⟨inside, apart⟩ := List.mem_filter.mp member
  obtain ⟨segment, blocks, rfl⟩ := List.mem_map.mp inside
  refine List.mem_map.mpr ⟨segment, List.mem_filter.mpr ⟨blocks, decide_eq_true ?_⟩, rfl⟩
  rintro rfl
  exact of_decide_eq_true apart rfl

/-- The directories that were there before the log stay. -/
theorem Stocked.unblock {t₀ : FileTree} (stocked : Stocked t dir place (namesOf blocked) vs) (sound : t₀.Sound)
    (hosts : t₀.Hosts dir place Segment.nameWidth) (empty : t₀.children place = [])
    (keeps : FileTree.KeepsDirectories t₀ t) (term collection : UInt64) :
    Stocked (unblock term collection dir t) dir place (namesOf (blocked.filter (· ≠ (term, collection)))) vs ∧
      FileTree.KeepsDirectories t₀ (unblock term collection dir t) ∧
      FileTree.KeepsFiles place t (unblock term collection dir t) := by
  have fewer := filter_namesOf blocked term collection
  rw [unblock_eq stocked.hosts]
  split
  · rename_i lies
    have free : t₀.find? (place ++ [Segment.name term collection]) = none := by
      cases found : t₀.find? (place ++ [Segment.name term collection]) with
      | none => rfl
      | some node =>
        have member := (sound.mem_children_iff _).mpr found
        rw [empty] at member
        cases member
    have keeps' := FileTree.keepsDirectories_prune sound free keeps
    obtain ⟨stocked', files⟩ := stocked.prune lies (hosts.kept keeps')
    have gone : (t.prune (place ++ [Segment.name term collection])).find? (place ++ [Segment.name term collection]) =
        none := by
      rw [FileTree.find?_prune_beside, if_pos rfl]
    exact ⟨(stocked'.filter (by simp [gone])).mono fewer, keeps', files⟩
  · rename_i absent
    exact ⟨(stocked.filter absent).mono fewer, keeps, fun _ _ _ => id⟩

end

/-! ## The log while directories stand in its way -/

section

variable {m : Mounted Log} {place : Path} {blocked blocked' : List String} {vs : Shelf} {bound : Nat}

/-- A tail does not mind what directories come and go. -/
theorem Tail.Attends.kept {m : Mounted Tail} (attends : Attends m place blocked vs) {disk : FileTree}
    (stocked : Stocked disk m.item.dir place blocked' vs) (files : FileTree.KeepsFiles place m.disk disk) :
    Attends ⟨disk, m.item⟩ place blocked' vs := by
  refine ⟨stocked, attends.collection, attends.seq, attends.term, fun id open? => ?_⟩
  obtain ⟨v, newest, term, file⟩ := attends.held id open?
  exact ⟨v, newest, term, files _ _ _ file⟩

namespace Log

/-- A record is written whole, or some of its pages are. -/
theorem perform_write_cases (up : m.item.mounted = true) (attends : Tail.Attends (tailOf m) place blocked vs)
    (solid : vs.Solid bound) (record : Bytes) (small : bound + (Record.split record).length < 2 ^ 64) :
    ∃ m' vs' word, Tail.Appended (tailOf m) place blocked vs bound (Record.split record) (tailOf m') vs' word ∧
      ((write record).perform m = (.ok m'.item.position, m') ∧ word.length = (Record.split record).length ∨
        ∃ e, (write record).perform m = (.error e, m') ∧ word.length < (Record.split record).length ∧ blocked ≠ []) := by
  obtain ⟨m₁, vs', word, appended, result⟩ := attends.appendPages solid (Record.fits_split record) small
  refine ⟨⟨m₁.disk, { m.item with tail := m₁.item }⟩, vs', word, appended, ?_⟩
  have ready : (write record).perform m = (onTail (Tail.append record)).perform m := by
    simp only [write, Action.perform_bind, Mounted.perform_current, up, ↓reduceIte]
  rw [ready]
  rcases result with ⟨done, all⟩ | ⟨e, failed, part⟩
  · refine .inl ⟨perform_onTail_of ?_, all⟩
    simp only [Tail.append, Tail.tell, Action.perform_bind, done, Mounted.perform_current, Action.perform_pure]
    rfl
  · refine .inr ⟨e, perform_onTail_of ?_, part⟩
    simp only [Tail.append, Action.perform_bind, failed]

/-- A higher term is entered with a file of its own; or no file is begun, whether or not the term
    is taken over. -/
theorem perform_startTerm_cases (attends : Tail.Attends (tailOf m) place blocked vs) (steady : vs.Steady bound)
    (small : bound + 1 < 2 ^ 64) (term : UInt64) :
    ∃ m', Tail.Within place (tailOf m) (tailOf m') ∧ m'.item.mounted = m.item.mounted ∧
      ((startTerm term).perform m = (.ok m'.item.position, m') ∧ vs.tail.term ≤ term ∧
          Tail.Attends (tailOf m') place blocked (vs.turnOver term) ∨
        ∃ e, (startTerm term).perform m = (.error e, m') ∧ Tail.Attends (tailOf m') place blocked vs) := by
  by_cases higher : m.item.position.term < term
  · have outcome := attends.startTerm steady small higher
    have above : vs.tail.term ≤ term := UInt64.le_trans attends.term (UInt64.le_of_lt higher)
    cases begun : (Tail.startTerm term).perform (tailOf m) with
    | mk answer m₁ =>
      rw [begun] at outcome
      have given := perform_onTail_of (m := m) begun
      refine ⟨⟨m₁.disk, { m.item with tail := m₁.item }⟩, ?_, rfl, ?_⟩
      · cases outcome with
        | done _ _ _ within => exact ⟨within.dir, within.limit, within.changes⟩
        | stopped => exact ⟨rfl, rfl, .refl _ _⟩
      · rw [startTerm, Action.perform_bind, given]
        cases outcome with
        | done attends' => exact .inl ⟨rfl, above, attends'⟩
        | stopped => exact .inr ⟨_, rfl, attends.stocked, attends.collection, attends.seq, above, by simp [tailOf]⟩
  · obtain ⟨e, refused⟩ := startTerm_low (UInt64.not_lt.mp higher)
    exact ⟨m, .refl _ _, rfl, .inr ⟨e, refused, attends⟩⟩

/-- A new log takes up the shelf; or a directory stands where the broken end should go, and nothing
    changes. -/
theorem perform_mount_fresh {disk : FileTree} {dir : Path} (stocked : Stocked disk dir place blocked vs)
    (solid : vs.Solid bound) (small : bound + 1 < 2 ^ 64) (limit : UInt64) :
    ∃ m, Tail.Within place ⟨disk, .fresh dir limit⟩ (tailOf m) ∧
      (mount.perform ⟨disk, .fresh dir limit⟩ = (.ok m.item.position, m) ∧ m.item.mounted = true ∧
          Tail.Attends (tailOf m) place blocked (vs.mend limit) ∨
        ∃ e, mount.perform ⟨disk, .fresh dir limit⟩ = (.error e, m) ∧ m.item.mounted = false ∧
          Stocked m.disk dir place blocked vs ∧ blocked ≠ []) := by
  obtain ⟨result, taken, given⟩ := perform_mount_cases (m := ⟨disk, .fresh dir limit⟩) stocked solid.steady small
  cases taken with
  | @done m attends _ _ within =>
    obtain ⟨m', same, done⟩ | ⟨e, m', impossible, -⟩ := given
    · cases same
      exact ⟨⟨m.disk, { m.item with mounted := true }⟩, within, .inl ⟨done, rfl, attends⟩⟩
    · cases impossible
  | stopped stocked' within unmounted inside =>
    obtain ⟨m, impossible, -⟩ | ⟨e, m, same, failed⟩ := given
    · cases impossible
    · cases same
      rw [solid.whole.trim] at stocked'
      exact ⟨_, within, .inr ⟨_, failed, unmounted, stocked', List.ne_nil_of_mem inside⟩⟩

end Log

end

/-- A shelf is as solid after mending. -/
theorem Shelf.Solid.mend {vs : Shelf} {bound : Nat} (solid : vs.Solid bound) (limit : UInt64) (small : bound + 1 < 2 ^ 64) :
    (vs.mend limit).Solid (bound + 1) := by
  obtain ⟨steady, whole, -⟩ := solid.steady.mend limit small
  exact ⟨steady, whole, by rw [Founded, bottom?_mend]; exact solid.founded⟩

/-- A log at work while directories come and go where its files would be. -/
structure Trial where
  log : Mounted Log
  /-- The records that the log has accepted, with the positions that it returned. -/
  records : List (Position × Bytes)
  leftover : Leftover

namespace Trial

/-- What can happen to a log, and beside it. -/
inductive Event where
  | write (record : Bytes)
  | startTerm (term : UInt64)
  /-- A new log over the directory, taken up. -/
  | restart
  /-- A directory is made where a segment would be. -/
  | obstruct (term collection : UInt64)
  /-- It is removed. -/
  | unblock (term collection : UInt64)

def begin (disk : FileTree) (dir : Path) (limit : UInt64) : Trial := ⟨⟨disk, .fresh dir limit⟩, [], .nothing⟩

/-- A record is accepted if the log returns a position; if not, it has left pages just if the log
    stands elsewhere than before. -/
def write (record : Bytes) (s : Trial) : Trial :=
  match (Log.write record).perform s.log with
  | (.ok p, log) => ⟨log, s.records ++ [(p, record)], s.leftover.bury⟩
  | (.error _, log) =>
    ⟨log, s.records, if log.item.position = s.log.item.position then s.leftover else s.leftover.strand⟩

def startTerm (term : UInt64) (s : Trial) : Trial :=
  match (Log.startTerm term).perform s.log with
  | (.ok _, log) => { s with log, leftover := s.leftover.cover }
  | (.error _, log) => { s with log }

def restart (s : Trial) : Trial :=
  match Log.mount.perform ⟨s.log.disk, .fresh s.log.item.dir s.log.item.tail.limit⟩ with
  | (.ok _, log) => { s with log, leftover := s.leftover.mend }
  | (.error _, log) => { s with log }

/-- A change of the tree beside the log. -/
def beside (change : Path → FileTree → FileTree) (s : Trial) : Trial :=
  { s with log := { s.log with disk := change s.log.item.dir s.log.disk } }

/-- One event. A log that is not taken up writes nothing. -/
def step (s : Trial) : Event → Trial
  | .write record => if s.log.item.mounted then s.write record else s
  | .startTerm term => if s.log.item.mounted then s.startTerm term else s
  | .restart => s.restart
  | .obstruct term collection => s.beside (Shiplog.obstruct term collection)
  | .unblock term collection => s.beside (Shiplog.unblock term collection)

def run (s : Trial) (events : List Event) : Trial := events.foldl step s

/-- The pages that an event may write and the files that it may create. -/
def Event.cost : Event → Nat
  | .write record => (Record.split record).length
  | .startTerm _ => 1
  | .restart => 1
  | .obstruct _ _ => 0
  | .unblock _ _ => 0

def cost (events : List Event) : Nat := (events.map Event.cost).sum

/-- The segments in whose places directories may stand after an event. -/
def Event.blocks (blocked : List (UInt64 × UInt64)) : Event → List (UInt64 × UInt64)
  | .obstruct term collection => (term, collection) :: blocked
  | .unblock term collection => blocked.filter (· ≠ (term, collection))
  | _ => blocked

/-- The segments in whose places directories may stand after some events. -/
def blocked (events : List Event) : List (UInt64 × UInt64) := events.foldl Event.blocks []

/-- The invariant of trials: the directory has a shelf that carries the accepted records, and a log
    that is up attends it. The directories of the tree that was before the log are still there. -/
structure Sound (s : Trial) (t₀ : FileTree) (dir place : Path) (blocked : List (UInt64 × UInt64)) (bound : Nat)
    (vs : Shelf) : Prop where
  sameDir : s.log.item.dir = dir
  keeps : FileTree.KeepsDirectories t₀ s.log.disk
  stocked : Stocked s.log.disk dir place (namesOf blocked) vs
  solid : vs.Solid bound
  carries : vs.Carries s.records s.leftover
  up : s.log.item.mounted = true → Tail.Attends (Log.tailOf s.log) place (namesOf blocked) vs

variable {s : Trial} {t₀ : FileTree} {dir place : Path} {blocked : List (UInt64 × UInt64)} {bound : Nat} {vs : Shelf}

theorem sound_begin (sound : t₀.Sound) (hosts : t₀.Hosts dir place Segment.nameWidth) (empty : t₀.children place = [])
    (limit : UInt64) : Sound (begin t₀ dir limit) t₀ dir place [] 0 [] where
  sameDir := rfl
  keeps := FileTree.keepsDirectories_refl t₀
  stocked := (Shelved.nil sound hosts empty).stocked
  solid := ⟨.nil (by decide), by simp [Shelf.Whole], by simp [Shelf.Founded, Shelf.bottom?]⟩
  carries := .nothing rfl rfl
  up := by simp [begin, Log.fresh]

theorem Sound.mono {bound' : Nat} (sound : Sound s t₀ dir place blocked bound vs) (le : bound ≤ bound')
    (small : bound' < 2 ^ 64) : Sound s t₀ dir place blocked bound' vs :=
  { sound with solid := ⟨sound.solid.steady.mono le small, sound.solid.whole, sound.solid.founded⟩ }

/-- What becomes of a trial when its log goes on over another shelf. -/
private theorem Sound.proceeds (sound : Sound s t₀ dir place blocked bound vs) {m : Mounted Log} {vs' : Shelf} {bound' : Nat}
    {records : List (Position × Bytes)} {left : Leftover}
    (attends : Tail.Attends (Log.tailOf m) place (namesOf blocked) vs') (solid : vs'.Solid bound')
    (carries : vs'.Carries records left) (within : Tail.Within place (Log.tailOf s.log) (Log.tailOf m)) :
    Sound ⟨m, records, left⟩ t₀ dir place blocked bound' vs' := by
  have sameDir : m.item.dir = dir := within.dir.trans sound.sameDir
  have stocked : Stocked m.disk m.item.dir place (namesOf blocked) vs' := attends.stocked
  rw [sameDir] at stocked
  exact ⟨sameDir, sound.keeps.trans within.changes.keeps, stocked, solid, carries, fun _ => attends⟩

theorem Sound.write (sound : Sound s t₀ dir place blocked bound vs) (up : s.log.item.mounted = true) (record : Bytes)
    (small : bound + (Record.split record).length < 2 ^ 64) :
    ∃ vs', Sound (s.write record) t₀ dir place blocked (bound + (Record.split record).length) vs' := by
  obtain ⟨m, vs', word, appended, result⟩ := Log.perform_write_cases up (sound.up up) sound.solid record small
  refine ⟨vs', ?_⟩
  rcases result with ⟨done, all⟩ | ⟨e, failed, part, -⟩
  · rw [Trial.write, done]
    have pages := appended.pages
    rw [all, List.take_length] at pages
    exact sound.proceeds appended.attends appended.solid (sound.carries.record appended.sheets pages appended.ends)
      appended.within
  · rw [Trial.write, failed]
    refine sound.proceeds appended.attends appended.solid ?_ appended.within
    by_cases none_added : word = []
    · obtain ⟨rfl, same⟩ := appended.unmoved none_added
      rw [if_pos (show m.item.position = s.log.item.position from same)]
      exact sound.carries
    · obtain ⟨further, blank⟩ := appended.moved none_added
      have apart : ¬ m.item.position = s.log.item.position := by
        intro same
        have less : s.log.item.position < m.item.position := further
        rw [same] at less
        exact Position.lt_irrefl _ less
      rw [if_neg apart]
      exact sound.carries.part appended.sheets none_added part appended.pages blank

theorem Sound.startTerm (sound : Sound s t₀ dir place blocked bound vs) (up : s.log.item.mounted = true) (term : UInt64)
    (small : bound + 1 < 2 ^ 64) : ∃ vs', Sound (s.startTerm term) t₀ dir place blocked (bound + 1) vs' := by
  obtain ⟨m, within, -, result⟩ := Log.perform_startTerm_cases (sound.up up) sound.solid.steady small term
  rcases result with ⟨done, above, attends⟩ | ⟨e, failed, attends⟩
  · rw [Trial.startTerm, done]
    have solid : (vs.turnOver term).Solid (bound + 1) :=
      ⟨sound.solid.steady.turnOver sound.solid.whole above small, sound.solid.whole.turnOver term,
        Shelf.founded_turnOver sound.solid.founded term⟩
    exact ⟨_, sound.proceeds attends solid (sound.carries.turnOver term) within⟩
  · rw [Trial.startTerm, failed]
    exact ⟨_, (sound.proceeds attends sound.solid sound.carries within).mono (Nat.le_succ _) small⟩

theorem Sound.restart (sound : Sound s t₀ dir place blocked bound vs) (small : bound + 1 < 2 ^ 64) :
    ∃ vs', Sound s.restart t₀ dir place blocked (bound + 1) vs' := by
  have stocked := sound.stocked
  rw [← sound.sameDir] at stocked
  obtain ⟨m, within, result⟩ := Log.perform_mount_fresh stocked sound.solid small s.log.item.tail.limit
  have within' : Tail.Within place (Log.tailOf s.log) (Log.tailOf m) := ⟨within.dir, within.limit, within.changes⟩
  rcases result with ⟨done, -, attends⟩ | ⟨e, failed, unmounted, stocked', -⟩
  · rw [Trial.restart, done]
    exact ⟨_, sound.proceeds attends (sound.solid.mend _ small) (sound.carries.mend sound.solid.whole _) within'⟩
  · rw [Trial.restart, failed]
    rw [sound.sameDir] at stocked'
    refine ⟨vs, within.dir.trans sound.sameDir, sound.keeps.trans within.changes.keeps, stocked',
      (sound.mono (Nat.le_succ _) small).solid, sound.carries, fun up => ?_⟩
    rw [unmounted] at up
    cases up

/-- What happens beside the log leaves it as it is, if the files stay. -/
private theorem Sound.besides {blocked' : List (UInt64 × UInt64)} {change : Path → FileTree → FileTree}
    (sound : Sound s t₀ dir place blocked bound vs)
    (stocked : Stocked (change dir s.log.disk) dir place (namesOf blocked') vs)
    (keeps : FileTree.KeepsDirectories t₀ (change dir s.log.disk))
    (files : FileTree.KeepsFiles place s.log.disk (change dir s.log.disk)) :
    Sound (s.beside change) t₀ dir place blocked' bound vs := by
  have tree : (s.beside change).log.disk = change dir s.log.disk := congrArg (change · s.log.disk) sound.sameDir
  rw [← tree] at stocked keeps files
  refine ⟨sound.sameDir, keeps, stocked, sound.solid, sound.carries, fun up => ?_⟩
  have home := sound.sameDir.symm
  subst home
  exact (sound.up up).kept stocked files

/-- Every event keeps the invariant. -/
theorem Sound.step (sound : Sound s t₀ dir place blocked bound vs) (start : t₀.Sound)
    (hosts : t₀.Hosts dir place Segment.nameWidth) (empty : t₀.children place = []) (event : Event)
    (small : bound + event.cost < 2 ^ 64) :
    ∃ vs', Sound (s.step event) t₀ dir place (event.blocks blocked) (bound + event.cost) vs' := by
  have stays := sound.mono (Nat.le_add_right _ _) small
  cases event with
  | write record =>
    by_cases up : s.log.item.mounted = true
    · simpa [Trial.step, up, Event.cost, Event.blocks] using sound.write up record small
    · exact ⟨vs, by simpa [Trial.step, up, Event.blocks] using stays⟩
  | startTerm term =>
    by_cases up : s.log.item.mounted = true
    · simpa [Trial.step, up, Event.cost, Event.blocks] using sound.startTerm up term small
    · exact ⟨vs, by simpa [Trial.step, up, Event.blocks] using stays⟩
  | restart => exact sound.restart small
  | obstruct term collection =>
    obtain ⟨stocked, keeps, files⟩ := sound.stocked.obstruct term collection
    exact ⟨vs, sound.besides stocked (sound.keeps.trans keeps) files⟩
  | unblock term collection =>
    obtain ⟨stocked, keeps, files⟩ := sound.stocked.unblock start hosts empty sound.keeps term collection
    exact ⟨vs, sound.besides stocked keeps files⟩

/-- Every run keeps the invariant. -/
theorem Sound.run (sound : Sound s t₀ dir place blocked bound vs) (start : t₀.Sound)
    (hosts : t₀.Hosts dir place Segment.nameWidth) (empty : t₀.children place = []) (events : List Event)
    (small : bound + cost events < 2 ^ 64) :
    ∃ vs', Sound (s.run events) t₀ dir place (events.foldl Event.blocks blocked) (bound + cost events) vs' := by
  induction events generalizing s blocked bound vs with
  | nil => exact ⟨vs, sound⟩
  | cons event rest ih =>
    simp only [cost, List.map_cons, List.sum_cons] at small ⊢
    rw [← Nat.add_assoc] at small ⊢
    obtain ⟨vs', next⟩ := sound.step start hosts empty event (by omega)
    exact ih next small

/-! ## What the log delivers -/

/-- What a log that is up shows from the start. -/
theorem Sound.shows (sound : Sound s t₀ dir place blocked bound vs) (up : s.log.item.mounted = true) :
    s.leftover.Shows s.records (Log.scan s.log.disk s.log.item .start) := by
  have rising := sound.solid.steady.rising
  have tail_le := (sound.up up).tail_le
  rw [Log.scan, sound.sameDir]
  exact sound.carries.scan sound.stocked rising sound.solid.whole sound.solid.founded
    (Position.le_trans rising.start_le tail_le)
    fun sheet member => Position.le_trans (rising.sheet_le_tail sound.solid.steady.few member) tail_le

/-- Where no directory stands in the way a new log is taken up. -/
theorem Sound.up_restart (sound : Sound s t₀ dir place [] bound vs) (small : bound + 1 < 2 ^ 64) :
    s.restart.log.item.mounted = true ∧ s.restart.records = s.records ∧ s.restart.leftover = s.leftover.mend := by
  have stocked := sound.stocked
  rw [← sound.sameDir] at stocked
  obtain ⟨m, -, ⟨done, mounted, -⟩ | ⟨e, -, -, -, never⟩⟩ :=
    Log.perform_mount_fresh stocked sound.solid small s.log.item.tail.limit
  · rw [Trial.restart, done]
    exact ⟨mounted, rfl, rfl⟩
  · exact absurd rfl never

/-- From the start a log that is up gives just the accepted records, with the positions that it
    returned; and a new log over its directory can be taken up and does the same. -/
def Delivers (s : Trial) : Prop :=
  (s.log.item.mounted = true → Log.scan s.log.disk s.log.item .start = ⟨s.records, none⟩) ∧
    s.restart.log.item.mounted = true ∧
    Log.scan s.restart.log.disk s.restart.log.item .start = ⟨s.records, none⟩

/-- Where no directory stands in the way a log delivers unless a record is buried. -/
theorem Sound.delivers_iff (sound : Sound s t₀ dir place [] bound vs) (small : bound + 1 < 2 ^ 64) :
    s.Delivers ↔ s.leftover ≠ .buried := by
  obtain ⟨vs', sound'⟩ := sound.restart small
  obtain ⟨up', records', leftover'⟩ := sound.up_restart small
  have shows' := sound'.shows up'
  rw [records', leftover'] at shows'
  constructor
  · rintro ⟨-, -, restarted⟩ buried
    rw [restarted, buried] at shows'
    cases shows' with
    | all clear => exact clear rfl
  · intro clear
    refine ⟨fun up => (sound.shows up).eq_all clear, up', shows'.eq_all ?_⟩
    exact fun buried => clear (Leftover.mend_eq_buried buried)

/-- When the directories in its way are gone, a log delivers the records that it accepted, in
    their order, unless it put one of them behind the pages of a record that it gave up. -/
theorem run_delivers_iff (start : t₀.Sound) (hosts : t₀.Hosts dir place Segment.nameWidth)
    (empty : t₀.children place = []) (limit : UInt64) (events : List Event) (gone : Trial.blocked events = [])
    (small : cost events + 1 < 2 ^ 64) :
    ((begin t₀ dir limit).run events).Delivers ↔ ((begin t₀ dir limit).run events).leftover ≠ .buried := by
  obtain ⟨vs, sound⟩ := (sound_begin start hosts empty limit).run start hosts empty events (by omega)
  rw [← Trial.blocked, gone, Nat.zero_add] at sound
  exact sound.delivers_iff small

/-- A record given up before its first page, one that is accepted, and one given up between its
    two pages. -/
theorem delivers_between_failures : FileTree.empty.Sound ∧ FileTree.empty.Hosts [""] [] Segment.nameWidth ∧
    FileTree.empty.children [] = [] ∧
    Trial.blocked [.restart, .obstruct 1 1, .write [97], .unblock 1 1, .write [98],
      .obstruct 1 3, .write (List.replicate 5000 97), .unblock 1 3] = [] ∧
    cost [.restart, .obstruct 1 1, .write [97], .unblock 1 1, .write [98],
      .obstruct 1 3, .write (List.replicate 5000 97), .unblock 1 3] + 1 < 2 ^ 64 ∧
    Delivers ((begin FileTree.empty [""] 4096).run [.restart, .obstruct 1 1, .write [97], .unblock 1 1, .write [98],
      .obstruct 1 3, .write (List.replicate 5000 97), .unblock 1 3]) := by
  have hosts : FileTree.empty.Hosts [""] [] Segment.nameWidth := ⟨rfl, rfl, by decide⟩
  have small : cost [.restart, .obstruct 1 1, .write [97], .unblock 1 1, .write [98],
      .obstruct 1 3, .write (List.replicate 5000 97), .unblock 1 3] + 1 < 2 ^ 64 := by decide +kernel
  have delivers := run_delivers_iff .empty hosts rfl 4096 [.restart, .obstruct 1 1, .write [97], .unblock 1 1,
    .write [98], .obstruct 1 3, .write (List.replicate 5000 97), .unblock 1 3] (by decide) small
  exact ⟨.empty, hosts, rfl, by decide, small, delivers.mpr (by decide +kernel)⟩

/-- A record given up between its two pages, and the next record right behind its first page. -/
theorem not_delivers_behind_part :
    Trial.blocked [.restart, .obstruct 1 2, .write (List.replicate 5000 97), .unblock 1 2, .write [98]] = [] ∧
      ¬ Delivers ((begin FileTree.empty [""] 4096).run
        [.restart, .obstruct 1 2, .write (List.replicate 5000 97), .unblock 1 2, .write [98]]) := by
  have hosts : FileTree.empty.Hosts [""] [] Segment.nameWidth := ⟨rfl, rfl, by decide⟩
  have small : cost [.restart, .obstruct 1 2, .write (List.replicate 5000 97), .unblock 1 2, .write [98]] + 1 < 2 ^ 64 := by
    decide +kernel
  obtain ⟨vs, sound⟩ := (sound_begin .empty hosts rfl 4096).run .empty hosts rfl
    [.restart, .obstruct 1 2, .write (List.replicate 5000 97), .unblock 1 2, .write [98]] (by omega)
  rw [Nat.zero_add] at sound
  refine ⟨by decide, fun delivers => (sound.delivers_iff small).mp delivers ?_⟩
  decide +kernel

end Trial
end Shiplog
