import Shiplog.Proofs.Repairs
import Shiplog.Proofs.Scans

/-!
The records of a log. A directory lies dormant with some records when its shelf holds
them, wherever its last file ends (`Dormant`); taken up, it is a journal with the same
records (`Journal`), to which records and terms are added and from which a scan gives
those after any position that the log has given out. A crash leaves the records that end
within what is left of the newest file.
-/
namespace Shiplog

def newest? (t : FileTree) (dir : Path) : Option Segment :=
  match Segment.list t dir with
  | .ok segments => segments.getLast?
  | .error _ => none

theorem Shelved.newest {t : FileTree} {dir place : Path} {vs : Shelf} (shelved : Shelved t dir place vs)
    (rising : vs.Rising) : newest? t dir = vs.head?.map (Volume.segment dir) := by
  rw [newest?, shelved.stocked.list rising]
  cases vs <;> simp

/-- The tree with the newest segment file of a log cut to a length; a length that the
    file does not reach cuts nothing. -/
def cutNewest (length : Nat) (dir : Path) (t : FileTree) : FileTree :=
  match newest? t dir with
  | none => t
  | some segment =>
    match t.length segment.path with
    | .error _ => t
    | .ok size =>
      match t.setLength segment.path (min length size) with
      | .ok t' => t'
      | .error _ => t

/-- The end of the newest segment file in a directory, if it ends with a page. -/
def endOfNewest? (t : FileTree) (dir : Path) : Option Position :=
  match newest? t dir with
  | none => some .start
  | some segment =>
    match t.length segment.path with
    | .error _ => none
    | .ok size =>
      if size % Page.size = 0 then some ⟨segment.term, segment.collection, UInt64.ofNat (size / Page.size)⟩ else none

/-- A whole shelf ends where its newest file does. -/
theorem Shelved.endOfNewest {t : FileTree} {dir place : Path} {vs : Shelf} (shelved : Shelved t dir place vs)
    (rising : vs.Rising) (whole : vs.Whole) : endOfNewest? t dir = some vs.tail := by
  rw [endOfNewest?, shelved.newest rising]
  cases vs with
  | nil => rfl
  | cons v older =>
    obtain ⟨id, file⟩ := shelved.present v List.mem_cons_self
    have size := shelved.hosts.length_child v.plain_name.1 v.plain_name.2 file
    obtain ⟨full, rest⟩ := Repair.length_content (rising.fits List.mem_cons_self)
      (rising.torn_short List.mem_cons_self)
    have untorn : v.torn.length = 0 := by simp [whole v List.mem_cons_self]
    have path : (v.segment dir).path = dir.child v.name := rfl
    simp only [List.head?_cons, Option.map_some, path, size, full, rest, untorn, ↓reduceIte]
    rfl

/-- A scan of a log that is up, from the very beginning. -/
theorem Log.Follows.scan_start {m : Mounted Log} {place : Path} {vs : Shelf} {bound : Nat} {spans : List Span}
    {opened : Option Opened} (follows : Log.Follows m place vs) (standing : vs.Standing bound) (whole : vs.Whole)
    (reads : Word.read none vs.sheets = some (spans, opened)) :
    Log.scan m.disk m.item .start = ⟨spans.map Span.record, none⟩ := by
  have position : m.item.position = vs.tail := follows.tail.position
  rw [Log.scan, position]
  exact Shelf.scan_start follows.tail.shelved standing whole reads

/-- What the start of a volume's file holds is the volume cut. -/
theorem Volume.resize_content {v : Volume} (fits : ∀ page ∈ v.pages, Page.Fits page)
    (short : v.torn.length < Page.size) {length : Nat} (within : length ≤ v.content.length) :
    ∃ torn, torn.length < Page.size ∧ FileTree.resize length v.content = (v.cut (length / Page.size) torn).content := by
  obtain ⟨torn, taken, rest⟩ := Segment.take_images v.pages fits v.torn length within short
  refine ⟨torn, by rw [rest]; exact Nat.mod_lt _ (by decide), ?_⟩
  rw [FileTree.resize, Nat.sub_eq_zero_of_le within, Volume.content, taken]
  simp [Bytes.zeros, Volume.content, Volume.cut]

/-- The records of a shelf in a directory, and positions that its log has given out. -/
structure Keeps (t : FileTree) (dir place : Path) (vs : Shelf) (bound : Nat) (spans : List Span)
    (opened : Option Opened) (records : List (Position × Bytes)) (given : List Position) : Prop where
  shelved : Shelved t dir place vs
  standing : vs.Standing bound
  reads : Word.read none vs.sheets = some (spans, opened)
  records : records = spans.map Span.record
  marks : ∀ p ∈ given, vs.Marks spans p

/-- A directory with the records of a log that is not up. -/
def Dormant (t : FileTree) (dir place : Path) (bound : Nat) (records : List (Position × Bytes))
    (given : List Position) : Prop :=
  ∃ vs spans opened, Keeps t dir place vs bound spans opened records given

/-- A log that is up, with its records. -/
def Journal (m : Mounted Log) (place : Path) (bound : Nat) (records : List (Position × Bytes))
    (given : List Position) : Prop :=
  ∃ vs spans, Keeps m.disk m.item.dir place vs bound spans none records given ∧ Log.Follows m place vs ∧ vs.Whole

variable {t t' : FileTree} {dir place : Path} {vs : Shelf} {bound bound' : Nat} {spans : List Span}
  {opened : Option Opened} {records : List (Position × Bytes)} {given : List Position} {m : Mounted Log}

theorem Journal.dormant (journal : Journal m place bound records given) :
    Dormant m.disk m.item.dir place bound records given := by
  obtain ⟨vs, spans, keeps, -⟩ := journal
  exact ⟨vs, spans, none, keeps⟩

theorem Keeps.mono (keeps : Keeps t dir place vs bound spans opened records given) (le : bound ≤ bound')
    (small : bound' < 2 ^ 64) : Keeps t dir place vs bound' spans opened records given :=
  ⟨keeps.shelved, keeps.standing.mono le small, keeps.reads, keeps.records, keeps.marks⟩

theorem Dormant.mono (dormant : Dormant t dir place bound records given) (le : bound ≤ bound') (small : bound' < 2 ^ 64) :
    Dormant t dir place bound' records given := by
  obtain ⟨vs, spans, opened, keeps⟩ := dormant
  exact ⟨vs, spans, opened, keeps.mono le small⟩

theorem Journal.mono (journal : Journal m place bound records given) (le : bound ≤ bound') (small : bound' < 2 ^ 64) :
    Journal m place bound' records given := by
  obtain ⟨vs, spans, keeps, rest⟩ := journal
  exact ⟨vs, spans, keeps.mono le small, rest⟩

/-- An empty directory has no records. -/
theorem Dormant.nil (sound : t.Sound) (hosts : t.Hosts dir place Segment.nameWidth) (empty : t.children place = []) :
    Dormant t dir place 0 [] [] :=
  ⟨[], [], none, .nil sound hosts empty, .nil (by decide), rfl, rfl, by simp⟩

/-- What happens elsewhere in the tree leaves the records as they are. -/
theorem Dormant.kept (dormant : Dormant t dir place bound records given) (sound : t'.Sound)
    (keeps : FileTree.KeepsDirectories t t') (same : ∀ name, t'.find? (place ++ [name]) = t.find? (place ++ [name])) :
    Dormant t' dir place bound records given := by
  obtain ⟨vs, spans, opened, stands⟩ := dormant
  exact ⟨vs, spans, opened, stands.shelved.kept sound keeps same, stands.standing, stands.reads, stands.records,
    stands.marks⟩

theorem Journal.kept (journal : Journal m place bound records given) (sound : t'.Sound)
    (keeps : FileTree.KeepsDirectories m.disk t')
    (same : ∀ name, t'.find? (place ++ [name]) = m.disk.find? (place ++ [name])) :
    Journal ⟨t', m.item⟩ place bound records given := by
  obtain ⟨vs, spans, stands, follows, whole⟩ := journal
  have shelved := stands.shelved.kept sound keeps same
  refine ⟨vs, spans, ⟨shelved, stands.standing, stands.reads, stands.records, stands.marks⟩,
    ⟨follows.mounted, ⟨shelved, follows.tail.position, follows.tail.closed, fun v newest => ?_⟩⟩, whole⟩
  obtain ⟨id, handle, file⟩ := follows.tail.held v newest
  exact ⟨id, handle, (same _).trans file⟩

/-- A log that is up ends where its newest file does. -/
theorem Journal.endOfNewest (journal : Journal m place bound records given) :
    endOfNewest? m.disk m.item.dir = some m.item.position := by
  obtain ⟨vs, spans, keeps, follows, whole⟩ := journal
  have position : m.item.position = vs.tail := follows.tail.position
  rw [position]
  exact keeps.shelved.endOfNewest keeps.standing.steady.rising whole

/-- Positions once given out need not be remembered. -/
theorem Journal.subset (journal : Journal m place bound records given) {given' : List Position} (sub : given' ⊆ given) :
    Journal m place bound records given' := by
  obtain ⟨vs, spans, keeps, rest⟩ := journal
  exact ⟨vs, spans, ⟨keeps.shelved, keeps.standing, keeps.reads, keeps.records, fun p member => keeps.marks p (sub member)⟩,
    rest⟩

/-- The end of a log is as good as given out. -/
theorem Journal.withTail (journal : Journal m place bound records given) :
    Journal m place bound records (given ++ [m.item.position]) := by
  obtain ⟨vs, spans, keeps, follows, whole⟩ := journal
  have position : m.item.position = vs.tail := follows.tail.position
  refine ⟨vs, spans, ⟨keeps.shelved, keeps.standing, keeps.reads, keeps.records, fun p member => ?_⟩, follows, whole⟩
  rcases List.mem_append.mp member with old | new
  · exact keeps.marks p old
  · rw [List.mem_singleton.mp new, position]
    exact Shelf.marks_tail keeps.standing.steady keeps.reads

theorem Dormant.sound (dormant : Dormant t dir place bound records given) : t.Sound := by
  obtain ⟨vs, spans, opened, keeps⟩ := dormant
  exact keeps.shelved.sound

theorem Journal.mounted (journal : Journal m place bound records given) : m.item.mounted = true := by
  obtain ⟨vs, spans, -, follows, -⟩ := journal
  exact follows.mounted

theorem Journal.sound (journal : Journal m place bound records given) : m.disk.Sound := journal.dormant.sound

/-! ## The order of the records -/

theorem Keeps.sorted (keeps : Keeps t dir place vs bound spans opened records given) :
    records.Pairwise (·.1 < ·.1) := by
  have sheets := keeps.standing.steady.rising.sheets_sorted keeps.standing.steady.few
  have lasts := (List.pairwise_map.mpr sheets).sublist (Word.lasts_sublist keeps.reads)
  rw [keeps.records]
  exact List.pairwise_map.mpr (List.pairwise_map.mp lasts)

theorem Keeps.start_lt (keeps : Keeps t dir place vs bound spans opened records given) {record : Position × Bytes}
    (member : record ∈ records) : .start < record.1 := by
  rw [keeps.records] at member
  obtain ⟨span, inside, rfl⟩ := List.mem_map.mp member
  obtain ⟨s, stands, same⟩ := List.mem_map.mp ((Word.positions_of_read keeps.reads).1 span inside).1
  rw [Span.record, ← same]
  exact keeps.standing.steady.rising.start_lt stands

theorem Keeps.le_tail (keeps : Keeps t dir place vs bound spans opened records given) {record : Position × Bytes}
    (member : record ∈ records) : record.1 ≤ vs.tail := by
  rw [keeps.records] at member
  obtain ⟨span, inside, rfl⟩ := List.mem_map.mp member
  obtain ⟨s, stands, same⟩ := List.mem_map.mp ((Word.positions_of_read keeps.reads).1 span inside).1
  rw [Span.record, ← same]
  exact keeps.standing.steady.rising.sheet_le_tail keeps.standing.steady.few stands

/-- Records stand in ascending order of their positions, after the start and up to the end
    of the log. -/
theorem Journal.sorted (journal : Journal m place bound records given) :
    records.Pairwise (·.1 < ·.1) ∧ ∀ record ∈ records, .start < record.1 ∧ record.1 ≤ m.item.position := by
  obtain ⟨vs, spans, keeps, follows, -⟩ := journal
  have position : m.item.position = vs.tail := follows.tail.position
  exact ⟨keeps.sorted, fun record member => ⟨keeps.start_lt member, position ▸ keeps.le_tail member⟩⟩

/-- A log ends nowhere before the start. -/
theorem Journal.start_le (journal : Journal m place bound records given) : .start ≤ m.item.position := by
  obtain ⟨vs, spans, keeps, follows, -⟩ := journal
  have position : m.item.position = vs.tail := follows.tail.position
  rw [position]
  exact keeps.standing.steady.rising.start_le

/-! ## Writing -/

/-- A record written whole is one record more. -/
private theorem Keeps.record (keeps : Keeps t dir place vs bound spans none records given) (whole : vs.Whole)
    (limit : UInt64) (record : Bytes) (small : bound + (Record.split record).length < 2 ^ 64)
    (shelved : Shelved t' dir place (vs.addPages limit (Record.split record))) :
    ∃ spans', Keeps t' dir place (vs.addPages limit (Record.split record)) (bound + (Record.split record).length) spans'
      none (records ++ [((vs.addPages limit (Record.split record)).tail, record)])
      (given ++ [(vs.addPages limit (Record.split record)).tail]) := by
  have standing := keeps.standing.addPages whole limit (Record.fits_split record) small
  have later := (keeps.standing.steady.addPages whole limit (Record.fits_split record) small).2
  obtain ⟨first, last, begins, lies, recordRead⟩ :=
    Word.read_split (Shelf.trail_pages limit (Record.split record) vs)
  have reads : Word.read none (vs.addPages limit (Record.split record)).sheets =
      some (spans ++ [⟨first, last, record⟩], none) := by
    rw [Shelf.sheets_addPages]
    exact Word.read_of_append keeps.reads recordRead
  refine ⟨spans ++ [⟨first, last, record⟩], shelved, standing, reads, ?_, fun p member => ?_⟩
  · obtain ⟨sheet, final, same⟩ := Option.map_eq_some_iff.mp lies
    have ends := (Shelf.trail_ends limit (Record.split record) vs).2 sheet final
    rw [keeps.records, List.map_append, ← ends, same]
    rfl
  · rcases List.mem_append.mp member with old | new'
    · refine ((keeps.marks p old).extend (Shelf.extends_addPages limit _ vs)).snoc _ ?_
      obtain ⟨sheet, head, same⟩ := Option.map_eq_some_iff.mp begins
      have collection := later sheet (List.mem_of_head? head)
      rw [same] at collection
      exact UInt64.le_trans ((keeps.marks p old).collection_le keeps.standing.steady.rising) collection
    · rw [List.mem_singleton.mp new']
      exact Shelf.marks_tail standing.steady reads

/-- A record written is one record more, at a new position. -/
theorem Journal.write (journal : Journal m place bound records given) (record : Bytes)
    (small : bound + (Record.split record).length < 2 ^ 64) :
    ∃ m', (Log.write record).perform m = (.ok m'.item.position, m') ∧
      Journal m' place (bound + (Record.split record).length) (records ++ [(m'.item.position, record)])
        (given ++ [m'.item.position]) ∧
      m.item.position < m'.item.position ∧ Tail.Within place (Log.tailOf m) (Log.tailOf m') := by
  obtain ⟨vs, spans, keeps, follows, whole⟩ := journal
  obtain ⟨m', done, follows', within⟩ := follows.write keeps.standing.steady whole record small
  have position : m.item.position = vs.tail := follows.tail.position
  have position' : m'.item.position = (vs.addPages m.item.tail.limit (Record.split record)).tail := follows'.tail.position
  have less := (keeps.standing.steady.tail_le_addPages whole m.item.tail.limit (Record.fits_split record) small).2
    (Record.split_ne_nil record)
  have whole' := whole.addPages m.item.tail.limit (Record.split record)
  have dir : m'.item.dir = m.item.dir := within.dir
  have shelved : Shelved m'.disk m'.item.dir place (vs.addPages m.item.tail.limit (Record.split record)) :=
    follows'.tail.shelved
  rw [dir] at shelved
  obtain ⟨spans', keeps'⟩ := keeps.record whole m.item.tail.limit record small shelved
  refine ⟨m', ?_⟩
  rw [position', position]
  refine ⟨done, ⟨_, spans', ?_, follows', whole'⟩, less, within⟩
  rw [dir]
  exact keeps'

/-- A log that dies in the middle of a record leaves the record open, or written whole. -/
theorem Journal.interrupt (journal : Journal m place bound records given) (record : Bytes) (pages : Nat)
    (small : bound + (Record.split record).length < 2 ^ 64) :
    ∃ m', (Log.onTail (((Record.split record).take pages).forM fun page => Tail.appendPage page.1 page.2)).perform m =
        (.ok (), m') ∧
      ((Record.split record).take pages = Record.split record →
        Journal m' place (bound + (Record.split record).length) (records ++ [(m'.item.position, record)])
          (given ++ [m'.item.position])) ∧
      ((Record.split record).take pages ≠ Record.split record →
        Dormant m'.disk m.item.dir place (bound + (Record.split record).length) records given) ∧
      Tail.Within place (Log.tailOf m) (Log.tailOf m') := by
  obtain ⟨vs, spans, keeps, follows, whole⟩ := journal
  have fits : ∀ page ∈ (Record.split record).take pages, Page.Fits page :=
    fun page member => Record.fits_split record page (List.mem_of_mem_take member)
  have fewer : ((Record.split record).take pages).length ≤ (Record.split record).length := List.length_take_le' ..
  obtain ⟨m', done, follows', within⟩ := follows.tail.appendPages keeps.standing.steady whole fits (by omega)
  have dir : m'.item.dir = m.item.dir := within.dir
  have shelved := follows'.shelved
  rw [dir] at shelved
  refine ⟨⟨m'.disk, { m.item with tail := m'.item }⟩, by rw [Log.perform_onTail, done], fun all => ?_, fun part => ?_,
    within⟩
  · rw [all] at follows' shelved
    have position' : m'.item.position = (vs.addPages m.item.tail.limit (Record.split record)).tail := follows'.position
    obtain ⟨spans', keeps'⟩ := keeps.record whole m.item.tail.limit record small shelved
    have whole' := whole.addPages m.item.tail.limit (Record.split record)
    refine ⟨_, spans', ?_, ⟨follows.mounted, follows'⟩, whole'⟩
    have here : (⟨m'.disk, { m.item with tail := m'.item }⟩ : Mounted Log).item.position =
        (vs.addPages m.item.tail.limit (Record.split record)).tail := position'
    have there : (⟨m'.disk, { m.item with tail := m'.item }⟩ : Mounted Log).item.dir = m.item.dir := dir
    rw [here, there]
    exact keeps'
  · have short : pages < (Record.split record).length := by
      by_contra enough
      exact part (List.take_of_length_le (Nat.not_lt.mp enough))
    have standing := keeps.standing.addPages whole (Log.tailOf m).item.limit fits (by omega)
    obtain ⟨opened, partRead, -⟩ :=
      Word.read_part_of_split short (Shelf.trail_pages (Log.tailOf m).item.limit ((Record.split record).take pages) vs)
    refine ⟨_, spans, opened, shelved, standing.mono (by omega) small, ?_, keeps.records,
      fun p member => (keeps.marks p member).extend (Shelf.extends_addPages _ _ vs)⟩
    rw [Shelf.sheets_addPages]
    simpa using Word.read_of_append keeps.reads partRead

/-- A higher term begins with a volume of its own. -/
theorem Journal.startTerm (journal : Journal m place bound records given) {term : UInt64}
    (higher : m.item.position.term < term) (small : bound + 1 < 2 ^ 64) :
    ∃ m', (Log.startTerm term).perform m = (.ok m'.item.position, m') ∧
      Journal m' place (bound + 1) records (given ++ [m'.item.position]) ∧
      m.item.position < m'.item.position ∧ Tail.Within place (Log.tailOf m) (Log.tailOf m') := by
  obtain ⟨vs, spans, keeps, follows, whole⟩ := journal
  have position : m.item.position = vs.tail := follows.tail.position
  rw [position] at higher
  obtain ⟨m', done, follows', within⟩ := follows.startTerm keeps.standing.steady small higher
  have position' : m'.item.position = (vs.turnOver term).tail := follows'.tail.position
  have closed : ∀ spans' o, Word.read none vs.sheets = some (spans', some o) → ∃ w ∈ vs.head?, w.pages ≠ [] := by
    intro spans' o opened
    rw [keeps.reads] at opened
    simp at opened
  have standing := keeps.standing.turnOver whole (UInt64.le_of_lt higher) small closed
  have reads : Word.read none (vs.turnOver term).sheets = some (spans, none) := by
    rw [Shelf.sheets_turnOver]
    exact keeps.reads
  have less : vs.tail < (vs.turnOver term).tail := .inl higher
  refine ⟨m', ?_⟩
  rw [position', position]
  refine ⟨done, ⟨_, spans, ⟨follows'.tail.shelved, standing, reads, keeps.records, fun p member => ?_⟩, follows',
    whole.turnOver term⟩, less, within⟩
  rcases List.mem_append.mp member with old | new
  · exact (keeps.marks p old).extend (Shelf.extends_turnOver term vs)
  · rw [List.mem_singleton.mp new]
    exact Shelf.marks_tail standing.steady reads

/-! ## Taking up -/

/-- A dormant directory is taken up with all its records, at the end of its newest file. -/
theorem Dormant.mount (dormant : Dormant m.disk m.item.dir place bound records given) (small : bound + 1 < 2 ^ 64) :
    ∃ m', Log.mount.perform m = (.ok m'.item.position, m') ∧
      Journal m' place (bound + 1) records (given ++ [m'.item.position]) ∧
      Tail.Within place (Log.tailOf m) (Log.tailOf m') := by
  obtain ⟨vs, spans, opened, keeps⟩ := dormant
  obtain ⟨m', done, follows, within, -⟩ := Log.perform_mount keeps.shelved keeps.standing.steady small
  have mended := keeps.standing.mend m.item.tail.limit small keeps.reads
  have position : m'.item.position = (vs.mend m.item.tail.limit).tail := follows.tail.position
  have shelved : Shelved m'.disk m'.item.dir place (vs.mend m.item.tail.limit) := follows.tail.shelved
  refine ⟨m', ?_⟩
  rw [position]
  refine ⟨done, ⟨_, spans, ⟨shelved, mended.standing, mended.reads, keeps.records, fun p member => ?_⟩, follows,
    mended.whole⟩, within⟩
  rcases List.mem_append.mp member with old | new
  · exact (keeps.marks p old).extend mended.extends_
  · rw [List.mem_singleton.mp new]
    exact Shelf.marks_tail mended.standing.steady mended.reads

/-- Taking up a log that is up changes no file. -/
theorem Journal.mount (journal : Journal m place bound records given) {log : Log} (dir : log.dir = m.item.dir)
    (small : bound + 1 < 2 ^ 64) :
    ∃ log', Log.mount.perform ⟨m.disk, log⟩ = (.ok m.item.position, ⟨m.disk, log'⟩) ∧
      Journal ⟨m.disk, log'⟩ place bound records given ∧ log'.position = m.item.position ∧ log'.dir = m.item.dir := by
  obtain ⟨vs, spans, keeps, follows, whole⟩ := journal
  have shelved : Shelved m.disk log.dir place vs := by
    rw [dir]
    exact keeps.shelved
  obtain ⟨⟨disk, log'⟩, done, follows', within, untouched⟩ :=
    Log.perform_mount (m := ⟨m.disk, log⟩) shelved keeps.standing.steady small
  have same := Shelf.mend_of_whole log.tail.limit keeps.standing.tidy whole keeps.reads
  have closed := Shelf.endsOpen_eq (Shelf.tidyAfter_none.mpr keeps.standing.tidy) keeps.reads (.inl rfl)
  have still : disk = m.disk := untouched closed whole.isTorn
  subst still
  simp only [same] at done follows'
  have position : m.item.position = vs.tail := follows.tail.position
  have position' : log'.position = vs.tail := follows'.tail.position
  have dir' : log'.dir = m.item.dir := within.dir.trans dir
  rw [← position] at done position'
  refine ⟨log', done, ⟨vs, spans, ⟨?_, keeps.standing, keeps.reads, keeps.records, keeps.marks⟩, follows', whole⟩,
    position', dir'⟩
  have stands := keeps.shelved
  rwa [← dir'] at stands

/-! ## Reading -/

/-- A scan after a position that the log has given out gives the records after it, and
    leaves out only records at or before it. -/
theorem Journal.scan (journal : Journal m place bound records given) {p : Position}
    (known : p = .start ∨ p ∈ given) (within : p ≤ m.item.position) :
    ∃ skipped kept, records = skipped ++ kept ∧ (∀ record ∈ skipped, record.1 ≤ p) ∧
      Log.scan m.disk m.item p = ⟨kept, none⟩ := by
  obtain ⟨vs, spans, keeps, follows, whole⟩ := journal
  have position : m.item.position = vs.tail := follows.tail.position
  have marks : vs.Marks spans p := by
    rcases known with rfl | member
    · exact Shelf.marks_start spans
    · exact keeps.marks p member
  rw [position] at within
  obtain ⟨skipped, kept, rfl, early, scan⟩ :=
    Shelf.scan_after keeps.shelved keeps.standing whole keeps.reads marks within
  refine ⟨skipped.map Span.record, kept.map Span.record, by rw [keeps.records, List.map_append], ?_, ?_⟩
  · intro record member
    obtain ⟨span, inside, rfl⟩ := List.mem_map.mp member
    exact early span inside
  · rw [Log.scan, position]
    exact scan

/-- A scan from the very beginning gives all records. -/
theorem Journal.scan_start (journal : Journal m place bound records given) :
    Log.scan m.disk m.item .start = ⟨records, none⟩ := by
  obtain ⟨vs, spans, keeps, follows, whole⟩ := journal
  rw [keeps.records]
  exact follows.scan_start keeps.standing whole keeps.reads

/-! ## Crashes -/

/-- Whether a record outlives the cut of a file: it ends in another file or within the
    length. -/
def outlives (segment : Segment) (length : Nat) (record : Position × Bytes) : Bool :=
  decide (¬ (record.1.term = segment.term ∧ record.1.collection = segment.collection) ∨
    record.1.seq.toNat * Page.size ≤ length)

/-- The records that a cut of the newest file leaves. -/
def survivors (length : Nat) (dir : Path) (t : FileTree) (records : List (Position × Bytes)) : List (Position × Bytes) :=
  match newest? t dir with
  | none => records
  | some segment => records.filter (outlives segment length)

/-- A record that ends in a page that the cut leaves outlives it. -/
theorem outlives_of_mem_cut {v : Volume} {older : Shelf} {torn : Bytes} {length : Nat} {dir : Path}
    (steady : Shelf.Steady bound (v :: older)) {sheet : Sheet}
    (stands : sheet ∈ Shelf.sheets (Shelf.cut (min length v.content.length / Page.size) torn (v :: older)))
    {record : Position × Bytes} (same : sheet.1 = record.1) : outlives (v.segment dir) length record = true := by
  have few := steady.pages v List.mem_cons_self
  have small := steady.small
  obtain ⟨u, inside, -, collection, n, seq, -, le⟩ := Shelf.mem_sheets stands
  simp only [outlives, ← same, decide_eq_true_eq]
  rcases List.mem_cons.mp inside with rfl | below
  · right
    simp only [Volume.cut, List.length_take] at le
    rw [seq, UInt64.toNat_ofNat', Nat.mod_eq_of_lt (by omega)]
    have room := Nat.div_mul_le_self (min length v.content.length) Page.size
    have times := Nat.mul_le_mul_right Page.size (Nat.le_trans le (Nat.min_le_left _ _))
    omega
  · left
    rintro ⟨-, again⟩
    rw [collection] at again
    exact (List.nodup_cons.mp steady.rising.nodup).1 (List.mem_map.mpr ⟨u, below, again⟩)

/-- A record that ends in a page past the cut does not. -/
theorem outlives_of_lost {v : Volume} {older : Shelf} {length n : Nat} {dir : Path}
    (steady : Shelf.Steady bound (v :: older)) {record : Position × Bytes} (term : record.1.term = v.term)
    (collection : record.1.collection = v.collection) (seq : record.1.seq = UInt64.ofNat n)
    (low : min (min length v.content.length / Page.size) v.pages.length < n) (high : n ≤ v.pages.length) :
    outlives (v.segment dir) length record = false := by
  have few := steady.pages v List.mem_cons_self
  have small := steady.small
  have full := (Repair.length_content (steady.rising.fits List.mem_cons_self)
    (steady.rising.torn_short List.mem_cons_self)).1
  simp only [outlives, decide_eq_false_iff_not, not_or, not_not]
  refine ⟨⟨term, collection⟩, ?_⟩
  rw [seq, UInt64.toNat_ofNat', Nat.mod_eq_of_lt (by omega)]
  have above : length / Page.size < n := by
    by_cases longer : length ≤ v.content.length
    · have most := Nat.div_le_div_right (c := Page.size) longer
      rw [full] at most
      rwa [Nat.min_eq_left longer, Nat.min_eq_left most] at low
    · rw [Nat.min_eq_right (a := length) (b := v.content.length) (by omega), full, Nat.min_self] at low
      omega
  have pos : 0 < Page.size := by decide
  have times := (Nat.div_lt_iff_lt_mul pos).mp above
  omega

/-- A cut of the newest file is a cut of the newest volume, and makes it no longer. Records that
    end in the pages that are left outlive it, the others do not. -/
theorem Shelved.cutNewest (shelved : Shelved t dir place vs) (steady : vs.Steady bound) (length : Nat) :
    ∃ count torn lost, torn.length < Page.size ∧ Shelved (cutNewest length dir t) dir place (vs.cut count torn) ∧
      vs.sheets = (vs.cut count torn).sheets ++ lost ∧ (vs = [] → lost = []) ∧
      (∀ v ∈ vs.head?, (v.cut count torn).content.length ≤ v.content.length) ∧
      ∀ v ∈ vs.head?, (∀ s ∈ (vs.cut count torn).sheets, ∀ record : Position × Bytes, s.1 = record.1 →
          outlives (v.segment dir) length record = true) ∧
        ∀ s ∈ lost, ∀ record : Position × Bytes, s.1 = record.1 → outlives (v.segment dir) length record = false := by
  have listed := shelved.newest steady.rising
  cases vs with
  | nil =>
    have same : Shiplog.cutNewest length dir t = t := by simp [Shiplog.cutNewest, listed]
    exact ⟨0, [], [], by decide, by rwa [same], rfl, fun _ => rfl, by simp, by simp⟩
  | cons v older =>
    obtain ⟨id, file⟩ := shelved.present v List.mem_cons_self
    have rising := steady.rising
    have size := shelved.hosts.length_child v.plain_name.1 v.plain_name.2 file
    have setLength := shelved.hosts.setLength_child v.plain_name.1 v.plain_name.2 file (min length v.content.length)
    obtain ⟨torn, short, content⟩ := Volume.resize_content (rising.fits List.mem_cons_self)
      (rising.torn_short List.mem_cons_self) (Nat.min_le_right length v.content.length)
    obtain ⟨lost, parts, beyond⟩ := Shelf.sheets_cut (min length v.content.length / Page.size) torn (v :: older)
    have stocked := (shelved.stocked.alter rising file (v.cut (min length v.content.length / Page.size) torn) rfl _
      content).1
    have path : (v.segment dir).path = dir.child v.name := rfl
    have tree : Shiplog.cutNewest length dir t = t.alter id (FileTree.resize (min length v.content.length)) := by
      simp [Shiplog.cutNewest, listed, path, size, setLength]
    have shorter : (v.cut (min length v.content.length / Page.size) torn).content.length ≤ v.content.length := by
      rw [← content, FileTree.resize, List.length_append, List.length_take, Bytes.zeros, List.length_replicate]
      omega
    refine ⟨_, torn, lost, short, by rw [tree]; exact shelved_iff.mpr stocked, parts, by simp, by simpa using shorter,
      fun u newest => ?_⟩
    obtain rfl : v = u := by simpa using newest
    refine ⟨fun s stands record same => outlives_of_mem_cut steady stands same, fun s gone record same => ?_⟩
    obtain ⟨w, newest', term, collection, n, seq, low, high⟩ := beyond s gone
    obtain rfl : v = w := by simpa using newest'
    rw [same] at term collection seq
    exact outlives_of_lost steady term collection seq low high

/-- A crash leaves the records that end within what is left of the newest file. -/
theorem Dormant.cut (dormant : Dormant t dir place bound records given) (length : Nat) :
    Dormant (cutNewest length dir t) dir place bound (survivors length dir t records) given := by
  obtain ⟨vs, spans, opened, keeps⟩ := dormant
  have listed := keeps.shelved.newest keeps.standing.steady.rising
  obtain ⟨count, torn, lost, short, shelved, parts, none_lost, -, outlive⟩ :=
    keeps.shelved.cutNewest keeps.standing.steady length
  have reads := keeps.reads
  rw [parts] at reads
  obtain ⟨kept, between, gone, first, second, rfl⟩ := Word.read_append_eq_some.mp reads
  refine ⟨_, kept, between, shelved, keeps.standing.cut count torn short, first, ?_, fun p member => ?_⟩
  · rw [keeps.records, survivors, listed, List.map_append]
    cases vs with
    | nil =>
      rw [none_lost rfl, Word.read_nil, Option.some.injEq, Prod.mk.injEq] at second
      simp [← second.1]
    | cons v older =>
      obtain ⟨stay, go⟩ := outlive v rfl
      have all : (kept.map Span.record).filter (outlives (v.segment dir) length) = kept.map Span.record := by
        rw [List.filter_eq_self]
        intro record member
        obtain ⟨span, inside, rfl⟩ := List.mem_map.mp member
        exact Word.record_of_read first stay span inside
      have none_left : (gone.map Span.record).filter (outlives (v.segment dir) length) = [] := by
        rw [List.filter_eq_nil_iff]
        intro record member
        obtain ⟨span, inside, rfl⟩ := List.mem_map.mp member
        exact Bool.eq_false_iff.mp (Word.record_of_read second go span inside)
      simp only [List.head?_cons, Option.map_some, List.filter_append, all, none_left, List.append_nil]
  · exact ((keeps.marks p member).extend (Shelf.extends_cut count torn vs)).sublist fun span inside =>
      List.mem_append_left _ inside

end Shiplog
