import Shiplog.Proofs.Shelving

/-!
What taking up a log makes of the shelf in its directory. The bytes of a page cut short
go, and a record left open, or a page cut short, is followed by a broken end (`mend`).
The records of the shelf stay as they are, nothing is open afterwards, and mending a
second time changes nothing.
-/
namespace Shiplog

namespace Volume

def lastKind (v : Volume) : Option Page.Kind := v.pages.getLast?.map Prod.fst

def trim (v : Volume) : Volume := { v with torn := [] }

@[simp] theorem sheets_trim (v : Volume) : v.trim.sheets = v.sheets := rfl

theorem trim_of_whole {v : Volume} (whole : v.torn = []) : v.trim = v := by
  cases v
  simp_all [trim]

theorem sheets_of_lastKind {v : Volume} {kind : Page.Kind} (last : v.lastKind = some kind) :
    ∃ sheets sheet, v.sheets = sheets ++ [sheet] ∧ sheet.2.1 = kind := by
  obtain ⟨page, ends, same⟩ := Option.map_eq_some_iff.mp last
  have whole := List.dropLast_append_getLast? _ ends
  have shown : v = addPage page { v with pages := v.pages.dropLast } := by
    cases v
    simp only [addPage] at whole ⊢
    rw [whole]
  exact ⟨_, _, by rw [shown, sheets_addPage], same⟩

theorem sheets_of_blank {v : Volume} (blank : v.pages = []) : v.sheets = [] := by
  simp [sheets, blank, sheetsFrom]

theorem lastKind_eq_none {v : Volume} : v.lastKind = none ↔ v.pages = [] := by
  simp [lastKind]

end Volume

namespace Shelf

variable {vs older : Shelf} {v : Volume} {bound : Nat} {spans : List Span} {opened : Option Opened}

/-- Whether the newest page leaves a record open; a volume without pages leaves that to
    the one before it. -/
def endsOpen : Shelf → Bool
  | [] => false
  | v :: older =>
    match v.lastKind with
    | some kind => kind.isDangling
    | none => Repair.dangles (older.head?.bind Volume.lastKind)

/-- The shelf without the page cut short at its end. -/
def trim : Shelf → Shelf
  | [] => []
  | v :: older => v.trim :: older

/-- Whether the newest volume ends in a page cut short. -/
def isTorn (vs : Shelf) : Bool := vs.head?.any fun v => decide (0 < v.torn.length)

def mend (limit : UInt64) (vs : Shelf) : Shelf :=
  if vs.endsOpen || vs.isTorn then vs.trim.addPage limit (.brokenEnd, []) else vs

theorem endsOpen_of_some {kind : Page.Kind} (last : v.lastKind = some kind) :
    endsOpen (v :: older) = kind.isDangling := by
  simp [endsOpen, last]

theorem endsOpen_of_none (last : v.lastKind = none) :
    endsOpen (v :: older) = Repair.dangles (older.head?.bind Volume.lastKind) := by
  simp [endsOpen, last]

/-- Where no page is, no record is taken to be open. -/
theorem endsOpen_of_bare (bare : sheets vs = []) : vs.endsOpen = false := by
  have pages : ∀ u ∈ vs, u.lastKind = none := by
    intro u member
    cases last : u.lastKind with
    | none => rfl
    | some kind =>
      obtain ⟨front, sheet, parts, -⟩ := Volume.sheets_of_lastKind last
      have inside : sheet ∈ sheets vs := List.mem_flatMap.mpr ⟨u, List.mem_reverse.mpr member, by simp [parts]⟩
      rw [bare] at inside
      cases inside
  cases vs with
  | nil => rfl
  | cons v older =>
    rw [endsOpen_of_none (pages v List.mem_cons_self)]
    cases older with
    | nil => rfl
    | cons w rest => simp [pages w, Repair.dangles]

/-- The newest volumes, so many of them, are blank, and the one below is not. -/
def Blank (count : Nat) (vs : Shelf) : Prop :=
  ∃ newer v older, vs = newer ++ v :: older ∧ newer.length = count ∧ (∀ u ∈ newer, u.pages = []) ∧ v.pages ≠ []

theorem exists_blank (pages : sheets vs ≠ []) : ∃ count, vs.Blank count := by
  induction vs with
  | nil => exact absurd rfl pages
  | cons v older ih =>
    by_cases empty : v.pages = []
    · have bare := Volume.sheets_of_blank empty
      obtain ⟨count, newer, w, rest, rfl, length, blank, some_pages⟩ := ih (by simpa [bare] using pages)
      exact ⟨count + 1, v :: newer, w, rest, rfl, by rw [List.length_cons, length], by simpa [empty] using blank, some_pages⟩
    · exact ⟨0, [], v, older, rfl, rfl, by simp, empty⟩

/-- Whether a record is open shows, if no more than one volume on top is blank. -/
theorem Blank.endsOpen {before : Option Opened} {count : Nat} (blank : vs.Blank count)
    (reads : Word.read before (sheets vs) = some (spans, opened)) :
    vs.endsOpen = (decide (count ≤ 1) && opened.isSome) := by
  obtain ⟨newer, v, older, rfl, rfl, empty, pages⟩ := blank
  have unwritten : ∀ u ∈ newer, u.lastKind = none := fun u member => Volume.lastKind_eq_none.mpr (empty u member)
  have bare : sheets newer = [] := by
    simp only [sheets, List.flatMap_eq_nil_iff, List.mem_reverse]
    exact fun u member => Volume.sheets_of_blank (empty u member)
  obtain ⟨kind, last⟩ : ∃ kind, v.lastKind = some kind := by
    cases last : v.lastKind with
    | none => exact absurd (Volume.lastKind_eq_none.mp last) pages
    | some kind => exact ⟨kind, rfl⟩
  have shows : kind.isDangling = opened.isSome := by
    obtain ⟨front, sheet, parts, rfl⟩ := Volume.sheets_of_lastKind last
    rw [sheets_append, bare, List.append_nil, sheets_cons, parts, ← List.append_assoc] at reads
    exact Word.isDangling_of_read reads
  cases newer with
  | nil => simpa [endsOpen_of_some last] using shows
  | cons u rest =>
    rw [List.cons_append, endsOpen_of_none (unwritten u List.mem_cons_self)]
    cases rest with
    | nil => simpa [last, Repair.dangles] using shows
    | cons w rest => simp [unwritten w (List.mem_cons_of_mem _ List.mem_cons_self), Repair.dangles]

/-- On a tidy shelf, whether a record is open shows in the newest two volumes, if there is a
    page or none was open before the first. -/
theorem endsOpen_eq {before : Option Opened} (tidy : vs.TidyAfter before)
    (reads : Word.read before (sheets vs) = some (spans, opened)) (shown : before = none ∨ sheets vs ≠ []) :
    vs.endsOpen = opened.isSome := by
  by_cases bare : sheets vs = []
  · rw [bare, Word.read_nil, Option.some.injEq, Prod.mk.injEq] at reads
    rw [endsOpen_of_bare bare, ← reads.2, shown.resolve_right fun ne => ne bare]
    rfl
  · obtain ⟨count, blank⟩ := exists_blank bare
    rw [blank.endsOpen reads]
    obtain ⟨newer, v, older, rfl, rfl, empty, -⟩ := blank
    match newer with
    | [] | [_] => simp
    | u :: w :: rest =>
      -- A blank volume on a blank one: no record is open there.
      cases opened with
      | none => simp
      | some o =>
        have under := Volume.sheets_of_blank (empty u List.mem_cons_self)
        have reads' : Word.read before (sheets (w :: rest ++ v :: older)) = some (spans, some o) := by
          simpa [under] using reads
        exact absurd (empty w (List.mem_cons_of_mem _ List.mem_cons_self)) (tidy.1 w rfl spans o reads')

@[simp] theorem sheets_trim (vs : Shelf) : sheets vs.trim = sheets vs := by
  cases vs <;> simp [trim]

@[simp] theorem tail_trim (vs : Shelf) : tail vs.trim = tail vs := by
  cases vs <;> rfl

theorem extends_trim (vs : Shelf) : Extends vs vs.trim := by
  cases vs with
  | nil => exact Extends.refl _
  | cons v older =>
    intro u member
    rcases List.mem_cons.mp member with same | below
    · subst same
      exact ⟨_, List.mem_cons_self, rfl, rfl⟩
    · exact ⟨u, List.mem_cons_of_mem _ below, rfl, rfl⟩

theorem Rising.trim (rising : vs.Rising) : Rising vs.trim := by
  cases vs with
  | nil => exact rising
  | cons v older =>
    obtain ⟨tops, below⟩ := rising
    exact ⟨⟨tops.term_pos, tops.collection_pos, tops.next, tops.fits, by simp [Volume.trim, Page.size], tops.clean⟩, below⟩

theorem Steady.trim (steady : vs.Steady bound) : Steady bound vs.trim ∧ Whole vs.trim := by
  cases vs with
  | nil => exact ⟨steady, by simp [Whole, Shelf.trim]⟩
  | cons v older =>
    have rising := steady.rising.trim
    obtain ⟨⟨tops, -⟩, collection, pages, small⟩ := steady
    refine ⟨⟨rising, collection, ?_, small⟩, ?_⟩
    · intro u member
      rcases List.mem_cons.mp member with same | under
      · subst same
        exact pages v List.mem_cons_self
      · exact pages u (List.mem_cons_of_mem _ under)
    · intro u member
      rcases List.mem_cons.mp member with same | under
      · subst same
        rfl
      · exact tops.clean u under

@[simp] theorem bottom?_trim (vs : Shelf) : vs.trim.bottom? = vs.bottom? := by
  rcases vs with _ | ⟨v, _ | ⟨w, rest⟩⟩ <;> simp [bottom?, trim, Volume.trim]

theorem TidyAfter.trim {before : Option Opened} (tidy : vs.TidyAfter before) : TidyAfter before vs.trim := by
  cases vs with
  | nil => exact tidy
  | cons v older => exact tidy

/-- A shelf without a page is tidy. -/
theorem tidyAfter_of_bare (bare : sheets vs = []) : TidyAfter none vs := by
  induction vs with
  | nil => trivial
  | cons v older ih =>
    have below : sheets older = [] := (List.append_eq_nil_iff.mp (sheets_cons v older ▸ bare)).1
    exact ⟨fun w _ spans o reads => by simp [below] at reads, ih below⟩

theorem Whole.trim (whole : vs.Whole) : vs.trim = vs := by
  cases vs with
  | nil => rfl
  | cons v older => rw [Shelf.trim, Volume.trim_of_whole (whole v List.mem_cons_self)]

/-- A shelf without a page cut short is whole. -/
theorem Rising.whole (rising : vs.Rising) (torn : vs.isTorn = false) : vs.Whole := by
  cases vs with
  | nil => simp [Whole]
  | cons v older =>
    have empty : v.torn = [] := by simpa [isTorn] using torn
    intro u member
    rcases List.mem_cons.mp member with same | below
    · subst same
      exact empty
    · exact rising.1.clean u below

theorem Whole.isTorn (whole : vs.Whole) : vs.isTorn = false := by
  cases vs with
  | nil => rfl
  | cons v older => simp [Shelf.isTorn, whole v List.mem_cons_self]

theorem extends_mend (limit : UInt64) (vs : Shelf) : Extends vs (vs.mend limit) := by
  unfold mend
  split
  · exact (extends_trim vs).trans (extends_addPage limit _ vs.trim)
  · exact Extends.refl vs

theorem term_mend (limit : UInt64) (vs : Shelf) : (tail (vs.mend limit)).term = (tail vs).term := by
  unfold mend
  split
  · rw [term_addPage, tail_trim]
  · rfl

theorem mend_nil (limit : UInt64) : mend limit [] = [] := rfl

theorem bottom?_mend (limit : UInt64) (vs : Shelf) : (vs.mend limit).bottom? = vs.bottom? := by
  cases vs with
  | nil => rw [mend_nil]
  | cons v older =>
    unfold mend
    split
    · rw [bottom?_addPage limit _ (show trim (v :: older) ≠ [] from List.cons_ne_nil _ _), bottom?_trim]
    · rfl

theorem Steady.mend (steady : vs.Steady bound) (limit : UInt64) (small : bound + 1 < 2 ^ 64) :
    Steady (bound + 1) (vs.mend limit) ∧ Whole (vs.mend limit) ∧
      (tail vs).collection ≤ (tail (vs.mend limit)).collection := by
  unfold Shelf.mend
  split
  · obtain ⟨trimmed, clean⟩ := steady.trim
    have fits : Page.Fits (.brokenEnd, []) := Nat.zero_le _
    have on := (trimmed.tail_lt_addPage limit (.brokenEnd, []) small).2
    rw [tail_trim] at on
    exact ⟨trimmed.addPage clean limit fits small, clean.addPage limit _, on⟩
  · rename_i sane
    simp only [Bool.or_eq_true, not_or, Bool.not_eq_true] at sane
    exact ⟨steady.mono (Nat.le_succ _) small, steady.rising.whole sane.2, UInt64.le_refl _⟩

/-- A broken end closes what is open, and is no record. -/
theorem read_mend {before : Option Opened} (limit : UInt64) (needed : (vs.endsOpen || vs.isTorn) = true)
    (reads : Word.read before (sheets vs) = some (spans, opened)) :
    Word.read before (sheets (vs.mend limit)) = some (spans, none) := by
  rw [mend, if_pos needed, sheets_addPage, sheets_trim]
  have ended : Word.read opened [(tail (vs.trim.addPage limit (.brokenEnd, [])), .brokenEnd, [])] = some ([], none) := by
    rw [Word.read_singleton]
    cases opened <;> rfl
  simpa using Word.read_of_append reads ended

/-- A mended shelf holds the records that it held, and none is open. A record that was open
    before the first volume is given up if no page tells of it. -/
theorem TidyAfter.mend {before : Option Opened} (tidy : vs.TidyAfter before) (limit : UInt64)
    (reads : Word.read before (sheets vs) = some (spans, opened)) :
    ∃ before', (before' = before ∨ before' = none) ∧ TidyAfter before' (vs.mend limit) ∧
      Word.read before' (sheets (vs.mend limit)) = some (spans, none) := by
  by_cases needed : vs.endsOpen || vs.isTorn
  · refine ⟨before, .inl rfl, ?_, read_mend limit needed reads⟩
    rw [Shelf.mend, if_pos needed]
    exact tidy.trim.addPage limit _
  · rw [Shelf.mend, if_neg needed]
    simp only [Bool.or_eq_true, not_or, Bool.not_eq_true] at needed
    by_cases bare : sheets vs = []
    · refine ⟨none, .inr rfl, tidyAfter_of_bare bare, ?_⟩
      rw [bare, Word.read_nil, Option.some.injEq, Prod.mk.injEq] at reads
      rw [bare, Word.read_nil, reads.1]
    · have shows := endsOpen_eq tidy reads (.inr bare)
      rw [needed.1] at shows
      have closed : opened = none := by simpa using shows.symm
      subst closed
      exact ⟨before, .inl rfl, tidy, reads⟩

/-- What a repair leaves. -/
structure Mended (bound : Nat) (spans : List Span) (before after : Shelf) : Prop where
  standing : after.Standing bound
  whole : after.Whole
  extends_ : Extends before after
  reads : Word.read none (sheets after) = some (spans, none)

theorem Standing.mend (standing : vs.Standing bound) (limit : UInt64) (small : bound + 1 < 2 ^ 64)
    (reads : Word.read none (sheets vs) = some (spans, opened)) : Mended (bound + 1) spans vs (vs.mend limit) := by
  obtain ⟨steady, founded, tidy⟩ := standing_iff.mp standing
  obtain ⟨steady', whole, -⟩ := steady.mend limit small
  obtain ⟨before, same, tidy', reads'⟩ := (tidyAfter_none.mpr tidy).mend limit reads
  obtain rfl : before = none := by simpa using same
  exact ⟨standing_iff.mpr ⟨steady', by rwa [Founded, bottom?_mend], tidyAfter_none.mp tidy'⟩, whole,
    extends_mend limit vs, reads'⟩

/-- Nothing is left to mend on a whole shelf without an open record. -/
theorem mend_of_whole (limit : UInt64) (tidy : vs.Tidy) (whole : vs.Whole)
    (reads : Word.read none (sheets vs) = some (spans, none)) : vs.mend limit = vs := by
  have shows := endsOpen_eq (tidyAfter_none.mpr tidy) reads (.inl rfl)
  rw [Option.isSome_none] at shows
  rw [mend, shows, whole.isTorn]
  rfl

end Shelf

/-! ## The repair of the newest file -/

namespace Repair

variable {t : FileTree} {dir place : Path} {blocked : List String} {vs older : Shelf} {v : Volume}

theorem kinds_ok (pages : List (Page.Kind × Bytes)) : kinds (pages.map .ok) = .ok (pages.map Prod.fst) := by
  induction pages with
  | nil => rfl
  | cons page rest ih => simp [kinds, ih, Except.map]

/-- The number of complete pages and the bytes of the next, from the length alone. -/
theorem length_content (fits : ∀ page ∈ v.pages, Page.Fits page) (short : v.torn.length < Page.size) :
    v.content.length / Page.size = v.pages.length ∧ v.content.length % Page.size = v.torn.length := by
  have pos : 0 < Page.size := by decide
  rw [Volume.content, List.length_append, Segment.length_images v.pages fits, Nat.add_comm]
  exact ⟨by rw [Nat.add_mul_div_right _ _ pos, Nat.div_eq_of_lt short, Nat.zero_add],
    by rw [Nat.add_mul_mod_self_right, Nat.mod_eq_of_lt short]⟩

/-- The end of a volume's file is found as it is. -/
theorem inspect_eq (stocked : Stocked t dir place blocked vs) (rising : vs.Rising) (member : v ∈ vs) :
    inspect t (Segment.pathIn dir v.term v.collection) = .ok ⟨v.pages.length, v.lastKind, v.torn.length⟩ := by
  obtain ⟨id, file⟩ := stocked.present v member
  have fits := rising.fits member
  have short := rising.torn_short member
  obtain ⟨full, rest⟩ := length_content fits short
  have length := stocked.hosts.length_child v.plain_name.1 v.plain_name.2 file
  have content := stocked.hosts.read_child v.plain_name.1 v.plain_name.2 file
  have path : Segment.pathIn dir v.term v.collection = dir.child v.name := rfl
  rw [path]
  by_cases empty : v.pages = []
  · simp [inspect, length, full, rest, empty, Volume.lastKind, bind, Except.bind, Except.mapError, pure, Except.pure]
  · have some_pages : v.pages.length ≠ 0 := by simpa using empty
    have front : v.content.take (v.pages.length * Page.size) = v.pages.flatMap Page.image ++ [] := by
      rw [← Segment.length_images v.pages fits, Volume.content, List.take_left, List.append_nil]
    have found :
        kinds (Segment.readContent (v.content.take (v.pages.length * Page.size))) = .ok (v.pages.map Prod.fst) := by
      rw [front, Segment.readContent_images v.pages fits [] (by decide)]
      simp [Segment.tornReads, kinds_ok]
    simp [inspect, length, content, full, rest, some_pages, found, Volume.lastKind, bind, Except.bind, Except.mapError,
      pure, Except.pure]

/-- The last page of a volume's file tells its kind. -/
theorem lastKind_eq (stocked : Stocked t dir place blocked vs) (rising : vs.Rising) (member : v ∈ vs) :
    lastKind t (Segment.pathIn dir v.term v.collection) = .ok v.lastKind := by
  obtain ⟨id, file⟩ := stocked.present v member
  have fits := rising.fits member
  obtain ⟨full, -⟩ := length_content fits (rising.torn_short member)
  have length := stocked.hosts.length_child v.plain_name.1 v.plain_name.2 file
  have content := stocked.hosts.read_child v.plain_name.1 v.plain_name.2 file
  have path : Segment.pathIn dir v.term v.collection = dir.child v.name := rfl
  rw [path]
  cases last : v.pages.getLast? with
  | none =>
    have empty : v.pages = [] := by simpa using last
    simp [lastKind, length, full, empty, Volume.lastKind, bind, Except.bind, Except.mapError, pure, Except.pure]
  | some page =>
    have whole := List.dropLast_append_getLast? _ last
    have some_pages : v.pages.length ≠ 0 := by
      intro zero
      simp [List.length_eq_zero_iff.mp zero] at last
    have fit : Page.Fits page := fits page (List.mem_of_getLast? last)
    have shorter : (v.pages.dropLast).length = v.pages.length - 1 := List.length_dropLast
    have before : (v.pages.dropLast.flatMap Page.image).length = (v.pages.length - 1) * Page.size := by
      rw [← shorter]
      exact Segment.length_images _ fun p inside => fits p (List.dropLast_subset _ inside)
    have piece : (v.content.drop ((v.pages.length - 1) * Page.size)).take Page.size = Page.image page := by
      have parts : v.content = v.pages.dropLast.flatMap Page.image ++ (Page.image page ++ v.torn) := by
        rw [Volume.content, ← List.append_assoc]
        conv => lhs; rw [← whole, List.flatMap_append, List.flatMap_singleton]
      rw [parts, ← before, List.drop_left, ← Page.length_image fit, List.take_left]
    obtain ⟨kind, payload⟩ := page
    simp [lastKind, length, content, full, some_pages, piece, Page.decode_image fit, Volume.lastKind, last, bind,
      Except.bind, Except.mapError, pure, Except.pure]

/-- Whether a record is open, told by the last page or else by the file before. -/
def asked (last : Option Page.Kind) (previous : Option Path) (t : FileTree) : Except Error Bool :=
  match last, previous with
  | some kind, _ => .ok kind.isDangling
  | none, some earlier => (lastKind t earlier).map dangles
  | none, none => .ok false

/-- What a repair comes to when it finds something; whether a record is open is asked after the
    cut. -/
theorem perform_repair_of {path : Path} {previous : Option Path} {finding : Finding} {t' : FileTree}
    (found : inspect t path = .ok finding)
    (cut : (if 0 < finding.tornBytes then t.setLength path (finding.pages * Page.size) else .ok t) = .ok t') :
    (repair path previous).perform t =
      ((asked finding.lastKind previous t').map fun opened =>
        ⟨finding.pages, finding.tornBytes, opened || decide (0 < finding.tornBytes)⟩, t') := by
  have told : ∀ next : Bool → Action FileTree Report, (match finding.lastKind, previous with
      | some kind, _ => pure kind.isDangling >>= next
      | none, some earlier => (dangles <$> Action.reading (lastKind · earlier)) >>= next
      | none, none => pure false >>= next).perform t' =
        match asked finding.lastKind previous t' with
        | .ok opened => (next opened).perform t'
        | .error e => (.error e, t') := by
    intro next
    rcases finding.lastKind with _ | kind
    · rcases previous with _ | earlier
      · rfl
      · rw [Action.perform_bind, Action.perform_map, Action.perform_reading, asked]
        rcases lastKind t' earlier with _ | _ <;> rfl
    · rfl
  have ends : ∀ outcome : Except Error Bool, (match outcome with
      | .ok opened => ((pure ⟨finding.pages, finding.tornBytes, opened || decide (0 < finding.tornBytes)⟩ :
          Action FileTree Report)).perform t'
      | .error e => (.error e, t')) = (outcome.map fun opened =>
        ⟨finding.pages, finding.tornBytes, opened || decide (0 < finding.tornBytes)⟩, t') := by
    rintro (_ | _) <;> rfl
  rw [repair, Action.perform_bind, Action.perform_reading, found]
  by_cases torn : 0 < finding.tornBytes
  · rw [if_pos torn] at cut
    simp only [if_pos torn]
    rw [Action.perform_bind, Edit.perform_change cut]
    exact (told _).trans (ends _)
  · rw [if_neg torn] at cut
    obtain rfl := Except.ok.inj cut
    simp only [if_neg torn]
    exact (told _).trans (ends _)

/-- Whether the shelf ends open shows after the cut. -/
theorem asked_eq (stocked : Stocked t dir place blocked (v.trim :: older)) (rising : Shelf.Rising (v.trim :: older)) :
    asked v.lastKind ((older.head?.map (Volume.segment dir)).map Segment.path) t = .ok (Shelf.endsOpen (v :: older)) := by
  cases last : v.lastKind with
  | some kind =>
    rw [Shelf.endsOpen_of_some last]
    rfl
  | none =>
    rw [Shelf.endsOpen_of_none last]
    cases older with
    | nil => rfl
    | cons w rest =>
      have before : lastKind t (w.segment dir).path = .ok w.lastKind :=
        lastKind_eq stocked rising (List.mem_cons_of_mem _ List.mem_cons_self)
      simp [asked, before, Except.map]

/-- The cut takes the page cut short off the newest file, and touches no other. -/
theorem cut_newest (stocked : Stocked t dir place blocked (v :: older)) (rising : Shelf.Rising (v :: older)) :
    ∃ t', (if 0 < v.torn.length then t.setLength (v.segment dir).path (v.pages.length * Page.size) else .ok t) = .ok t' ∧
      Stocked t' dir place blocked (v.trim :: older) ∧
      (∀ other, other ≠ place ++ [v.name] → t'.find? other = t.find? other) ∧ (v.torn = [] → t' = t) := by
  by_cases torn : 0 < v.torn.length
  · obtain ⟨id, file⟩ := stocked.present v List.mem_cons_self
    have cut : FileTree.resize (v.pages.length * Page.size) v.content = v.trim.content := by
      have length := Segment.length_images v.pages (rising.fits List.mem_cons_self)
      rw [FileTree.resize, ← length, Volume.content, List.take_left, List.length_append]
      simp [Bytes.zeros, Volume.trim, Volume.content]
    refine ⟨t.alter id (FileTree.resize (v.pages.length * Page.size)), ?_,
      (stocked.alter rising file v.trim rfl _ cut).1, fun other apart => ?_, fun empty => by simp [empty] at torn⟩
    · rw [if_pos torn]
      exact stocked.hosts.setLength_child v.plain_name.1 v.plain_name.2 file (v.pages.length * Page.size)
    · rw [stocked.sound.find?_alter_file file, if_neg apart]
  · have empty : v.torn = [] := by simpa using torn
    refine ⟨t, if_neg torn, ?_, fun _ _ => rfl, fun _ => rfl⟩
    rwa [Volume.trim_of_whole empty]

/-- The repair cuts the page cut short off the newest file and tells whether the shelf
    ends open or torn. -/
theorem perform_repair (stocked : Stocked t dir place blocked (v :: older)) (rising : Shelf.Rising (v :: older)) :
    ∃ t', (repair (v.segment dir).path ((older.head?.map (Volume.segment dir)).map Segment.path)).perform t =
        (.ok ⟨v.pages.length, v.torn.length, Shelf.endsOpen (v :: older) || Shelf.isTorn (v :: older)⟩, t') ∧
      Stocked t' dir place blocked (v.trim :: older) ∧ FileTree.ChangesOnly place t t' ∧ (v.torn = [] → t' = t) := by
  obtain ⟨id, file⟩ := stocked.present v List.mem_cons_self
  obtain ⟨t', cut, stocked', others, untorn⟩ := cut_newest stocked rising
  have found : inspect t (v.segment dir).path = .ok ⟨v.pages.length, v.lastKind, v.torn.length⟩ :=
    inspect_eq stocked rising List.mem_cons_self
  refine ⟨t', ?_, stocked', FileTree.changesOnly_of_find? v.name (by simp [file]) others, untorn⟩
  rw [perform_repair_of found cut, asked_eq stocked' rising.trim]
  rfl

end Repair

/-! ## Taking up a log -/

namespace Tail

variable {m : Mounted Tail} {place : Path} {blocked : List String} {older : Shelf} {v : Volume}

theorem perform_resume_eq (term collection pages : UInt64) (m : Mounted Tail) :
    (resume term collection pages).perform m =
      match m.disk.openFile (Segment.pathIn m.item.dir term collection) with
      | .ok (id, disk) => (.ok (), ⟨disk, { m.item with position := ⟨term, collection, pages⟩, handle := some id }⟩)
      | .error fault => (.error (.io fault), m) := by
  simp only [resume, Action.perform_bind, Mounted.perform_current, Mounted.produce, Action.perform_ofStep]
  rcases m.disk.openFile _ with _ | ⟨_, _⟩ <;> rfl

/-- A tail that takes up the newest file stands at the end of the shelf. -/
theorem perform_resume (stocked : Stocked m.disk m.item.dir place blocked (v :: older)) :
    ∃ tail, (resume v.term v.collection (UInt64.ofNat v.pages.length)).perform m = (.ok (), ⟨m.disk, tail⟩) ∧
      Attends ⟨m.disk, tail⟩ place blocked (v :: older) ∧ tail.position = v.tail ∧ tail.handle ≠ none ∧
      Within place m ⟨m.disk, tail⟩ := by
  obtain ⟨id, file⟩ := stocked.present v List.mem_cons_self
  have opened : m.disk.openFile (Segment.pathIn m.item.dir v.term v.collection) = .ok (id, m.disk) :=
    stocked.hosts.openFile_child v.plain_name.1 v.plain_name.2 file
  refine ⟨{ m.item with position := v.tail, handle := some id }, by rw [perform_resume_eq, opened]; rfl,
    ⟨stocked, rfl, rfl, UInt64.le_refl _, fun id' held => ?_⟩, rfl, by simp, ⟨rfl, rfl, .refl _ _⟩⟩
  obtain rfl : id = id' := by simpa using held
  exact ⟨v, rfl, rfl, file⟩

end Tail

namespace Log

variable {m : Mounted Log} {place : Path} {blocked : List String} {vs : Shelf} {bound : Nat}

def tailOf (m : Mounted Log) : Mounted Tail := ⟨m.disk, m.item.tail⟩

/-- A log has taken up the shelf in its directory and stands at its end. -/
structure Follows (m : Mounted Log) (place : Path) (vs : Shelf) : Prop where
  mounted : m.item.mounted = true
  tail : Tail.Follows (tailOf m) place vs

theorem perform_onTail {α : Type} (act : Action (Mounted Tail) α) (m : Mounted Log) :
    (onTail act).perform m =
      ((act.perform (tailOf m)).1,
        ⟨(act.perform (tailOf m)).2.disk, { m.item with tail := (act.perform (tailOf m)).2.item }⟩) := rfl

theorem perform_onDisk {α : Type} (act : Action FileTree α) (m : Mounted Log) :
    (onDisk act).perform m = ((act.perform m.disk).1, { m with disk := (act.perform m.disk).2 }) := rfl

/-- What the action on the tail gives, the log gives. -/
theorem perform_onTail_of {α : Type} {act : Action (Mounted Tail) α} {answer : Except Error α} {m' : Mounted Tail}
    (done : act.perform (tailOf m) = (answer, m')) :
    (onTail act).perform m = (answer, ⟨m'.disk, { m.item with tail := m'.item }⟩) := by
  rw [perform_onTail, done]

/-- What taking up a shelf comes to: the tail stands at the end of the mended shelf, with a file
    open unless there is none; or a directory stands where the broken end should go, and the
    shelf has lost no more than its page cut short. -/
inductive TakenUp (m : Mounted Log) (place : Path) (blocked : List String) (vs : Shelf) :
    Except Error Unit × Mounted Log → Prop where
  | done {m' : Mounted Log} (attends : Tail.Attends (tailOf m') place blocked (vs.mend m.item.tail.limit))
      (term : m'.item.position.term = vs.tail.term) (held : m'.item.tail.handle = none → vs = [])
      (within : Tail.Within place (tailOf m) (tailOf m'))
      (untouched : vs.endsOpen = false → vs.isTorn = false → m'.disk = m.disk) :
      TakenUp m place blocked vs (.ok (), m')
  | stopped {m' : Mounted Log} {name : String} {e : Error} (stocked : Stocked m'.disk m.item.dir place blocked vs.trim)
      (within : Tail.Within place (tailOf m) (tailOf m')) (mounted : m'.item.mounted = m.item.mounted)
      (inside : name ∈ blocked) :
      TakenUp m place blocked vs (.error e, m')

/-- The newest volume is repaired and resumed; then a broken end follows if one is needed. -/
theorem perform_takeUp_resumed {v : Volume} {older : Shelf}
    (stocked : Stocked m.disk m.item.dir place blocked (v :: older)) (rising : Shelf.Rising (v :: older)) :
    ∃ t' tail, (takeUp (v.segment m.item.dir) (older.head?.map (Volume.segment m.item.dir))).perform m =
        (if Shelf.endsOpen (v :: older) || Shelf.isTorn (v :: older) then onTail (Tail.appendPage .brokenEnd [])
          else pure ()).perform ⟨t', { m.item with tail }⟩ ∧
      Tail.Attends ⟨t', tail⟩ place blocked (Shelf.trim (v :: older)) ∧
      tail.position = Shelf.tail (Shelf.trim (v :: older)) ∧ tail.handle ≠ none ∧
      Tail.Within place (tailOf m) ⟨t', tail⟩ ∧ (v.torn = [] → t' = m.disk) := by
  obtain ⟨t', repaired, stocked', changes, untorn⟩ := Repair.perform_repair stocked rising
  obtain ⟨tail, resumed, attends, position, held, within⟩ :=
    Tail.perform_resume (m := ⟨t', m.item.tail⟩) (v := v.trim) stocked'
  have first : (onDisk (Repair.repair (v.segment m.item.dir).path
      ((older.head?.map (Volume.segment m.item.dir)).map Segment.path))).perform m =
      (.ok ⟨v.pages.length, v.torn.length, Shelf.endsOpen (v :: older) || Shelf.isTorn (v :: older)⟩,
        { m with disk := t' }) := by
    rw [perform_onDisk, repaired]
  have second : (onTail (Tail.resume (v.segment m.item.dir).term (v.segment m.item.dir).collection
      (UInt64.ofNat v.pages.length))).perform { m with disk := t' } = (.ok (), ⟨t', { m.item with tail }⟩) :=
    perform_onTail_of (m := { m with disk := t' }) resumed
  refine ⟨t', tail, ?_, attends, position, held, ⟨within.dir, within.limit, changes⟩, untorn⟩
  rw [takeUp, Action.perform_bind, first]
  simp only
  rw [Action.perform_bind, second]

/-- A broken end put behind a trimmed shelf mends it. -/
theorem mend_eq_put {m : Mounted Tail} (position : m.item.position = vs.trim.tail) (held : m.item.handle ≠ none)
    (ne : vs ≠ []) (needed : (vs.endsOpen || vs.isTorn) = true) :
    vs.mend m.item.limit = Shelf.put (.brokenEnd, []) (m.item.room vs.trim) := by
  have trimmed : vs.trim ≠ [] := by
    obtain ⟨v, older, rfl⟩ := List.exists_cons_of_ne_nil ne
    exact List.cons_ne_nil _ _
  rw [Shelf.mend, if_pos needed, Shelf.addPage, Tail.room_eq position (iff_of_false held trimmed)]

/-- The newest volume is taken up and mended. -/
theorem perform_takeUp {v : Volume} {older : Shelf} (stocked : Stocked m.disk m.item.dir place blocked (v :: older))
    (steady : Shelf.Steady bound (v :: older)) (small : bound + 1 < 2 ^ 64) :
    TakenUp m place blocked (v :: older)
      ((takeUp (v.segment m.item.dir) (older.head?.map (Volume.segment m.item.dir))).perform m) := by
  obtain ⟨t', tail, resumed, attends, position, held, within, untorn⟩ := perform_takeUp_resumed stocked steady.rising
  have term : tail.position.term = v.term := congrArg Position.term position
  rw [resumed]
  cases needed : Shelf.endsOpen (v :: older) || Shelf.isTorn (v :: older) with
  | true =>
    obtain ⟨trimmed, clean⟩ := steady.trim
    have mended := mend_eq_put (m := ⟨t', tail⟩) position held (List.cons_ne_nil _ _) needed
    rw [show tail.limit = m.item.tail.limit from within.limit] at mended
    have fits : Page.Fits (.brokenEnd, []) := Nat.zero_le _
    have outcome := attends.appendPage trimmed clean fits small
    rw [if_pos rfl]
    cases appended : (Tail.appendPage .brokenEnd []).perform ⟨t', tail⟩ with
    | mk answer m' =>
      rw [appended] at outcome
      rw [perform_onTail_of (m := ⟨t', { m.item with tail }⟩) appended]
      cases outcome with
      | done attends' term' held' within' =>
        refine .done (mended ▸ attends') (term'.trans term) (fun none => absurd none held') (within.trans within') ?_
        intro closed untorn'
        simp [closed, untorn'] at needed
      | stopped inside =>
        have stocked' : Stocked t' tail.dir place blocked (Shelf.trim (v :: older)) := attends.stocked
        rw [show tail.dir = m.item.dir from within.dir] at stocked'
        exact .stopped stocked' ⟨within.dir, within.limit, within.changes⟩ rfl inside
  | false =>
    have whole : v.torn = [] := by
      have torn := (Bool.or_eq_false_iff.mp needed).2
      simpa [Shelf.isTorn] using torn
    have same := Volume.trim_of_whole whole
    rw [Shelf.trim, same] at attends
    rw [if_neg Bool.false_ne_true, Action.perform_pure]
    refine .done ?_ term (fun none => absurd none held) within fun _ _ => untorn whole
    rw [Shelf.mend, if_neg (by simp [needed])]
    exact attends

/-- Over a directory with segments, taking up the log is taking up the newest. -/
theorem perform_mount_newest {width : Nat} {segments older : List Segment} {newest : Segment}
    (hosts : m.disk.Hosts m.item.dir place width) (listed : Segment.list m.disk m.item.dir = .ok segments)
    (reversed : segments.reverse = newest :: older) : mount.perform m =
      (takeUp newest older.head? >>= fun _ => do
        Mounted.update fun log => { log with mounted := true }
        return (← Mounted.current).position : Action (Mounted Log) Position).perform m := by
  have made : (onDisk (Edit.makeDirectories m.item.dir)).perform m = (.ok (), m) := by
    rw [perform_onDisk, hosts.makeDirectories]
  have looked : (Mounted.look (Segment.list · m.item.dir)).perform m = (.ok segments, m) := by
    rw [Mounted.perform_look, listed]
    rfl
  rw [mount, Action.perform_bind, Mounted.perform_current]
  simp only
  rw [Action.perform_bind, made]
  simp only
  rw [Action.perform_bind, looked]
  simp only [reversed]

/-- What taking up a log comes to. -/
theorem perform_mount_cases (stocked : Stocked m.disk m.item.dir place blocked vs) (steady : vs.Steady bound)
    (small : bound + 1 < 2 ^ 64) :
    ∃ result, TakenUp m place blocked vs result ∧ ((∃ m', result = (.ok (), m') ∧
        mount.perform m = (.ok m'.item.position, ⟨m'.disk, { m'.item with mounted := true }⟩)) ∨
      ∃ e m', result = (.error e, m') ∧ mount.perform m = (.error e, m')) := by
  have listed := stocked.list steady.rising
  cases vs with
  | nil =>
    have made : (onDisk (Edit.makeDirectories m.item.dir)).perform m = (.ok (), m) := by
      rw [perform_onDisk, stocked.hosts.makeDirectories]
    have looked : (Mounted.look (Segment.list · m.item.dir)).perform m = (.ok [], m) := by
      rw [Mounted.perform_look, listed]
      rfl
    refine ⟨(.ok (), ⟨m.disk, { m.item with tail := { m.item.tail with position := .start, handle := none } }⟩),
      .done ⟨stocked, rfl, rfl, UInt64.le_refl _, by simp [tailOf]⟩ rfl (fun _ => rfl) ⟨rfl, rfl, .refl _ _⟩ fun _ _ => rfl,
      .inl ⟨_, rfl, ?_⟩⟩
    rw [mount, Action.perform_bind, Mounted.perform_current]
    simp only
    rw [Action.perform_bind, made]
    simp only
    rw [Action.perform_bind, looked]
    simp [perform_onTail, Tail.reset, Action.perform_bind, tailOf, position, Except.map]
  | cons v older =>
    have taken := perform_takeUp stocked steady small
    refine ⟨_, taken, ?_⟩
    rw [perform_mount_newest stocked.hosts listed
      (show _ = v.segment m.item.dir :: older.map (Volume.segment m.item.dir) by
        rw [← List.map_reverse, List.reverse_reverse, List.map_cons]), Action.perform_bind, List.head?_map]
    cases (takeUp (v.segment m.item.dir) (older.head?.map (Volume.segment m.item.dir))).perform m with
    | mk answer m' =>
      cases answer with
      | ok => exact .inl ⟨m', rfl, by simp [Action.perform_bind, position, Except.map]⟩
      | error e => exact .inr ⟨e, m', rfl, rfl⟩

/-- Taking up a log mends the shelf in its directory and gives the position at its end. -/
theorem perform_mount (shelved : Shelved m.disk m.item.dir place vs) (steady : vs.Steady bound)
    (small : bound + 1 < 2 ^ 64) :
    ∃ m', mount.perform m = (.ok (vs.mend m.item.tail.limit).tail, m') ∧ Follows m' place (vs.mend m.item.tail.limit) ∧
      Tail.Within place (tailOf m) (tailOf m') ∧
      (vs.endsOpen = false → vs.isTorn = false → m'.disk = m.disk) := by
  obtain ⟨result, taken, done⟩ := perform_mount_cases shelved.stocked steady small
  cases taken with
  | stopped stocked within mounted inside => cases inside
  | @done m' attends term held within untouched =>
    obtain ⟨_, same, done⟩ | ⟨e, _, impossible, -⟩ := done
    · cases same
      have follows : Tail.Follows (tailOf m') place (vs.mend m.item.tail.limit) := by
        refine Tail.follows_iff.mpr ⟨attends, term.trans (Shelf.term_mend _ vs).symm, fun none => ?_⟩
        rw [held none]
        rfl
      refine ⟨⟨m'.disk, { m'.item with mounted := true }⟩, ?_, ⟨rfl, follows⟩, within, untouched⟩
      rw [done]
      exact congrArg (fun p => (Except.ok p, _)) follows.position
    · cases impossible

/-! ## Writing -/

/-- A record more, and the answer is the position at the new end. -/
theorem Follows.write (follows : Follows m place vs) (steady : vs.Steady bound) (whole : vs.Whole) (record : Bytes)
    (small : bound + (Record.split record).length < 2 ^ 64) :
    ∃ m', (write record).perform m = (.ok (vs.addPages m.item.tail.limit (Record.split record)).tail, m') ∧
      Follows m' place (vs.addPages m.item.tail.limit (Record.split record)) ∧
      Tail.Within place (tailOf m) (tailOf m') := by
  obtain ⟨m', done, follows', within⟩ := follows.tail.append steady whole record small
  refine ⟨⟨m'.disk, { m.item with tail := m'.item }⟩, ?_, ⟨follows.mounted, follows'⟩, within⟩
  have ready : (Log.write record).perform m = (onTail (Tail.append record)).perform m := by
    simp only [Log.write, Action.perform_bind, Mounted.perform_current, follows.mounted, ↓reduceIte]
  rw [ready]
  exact perform_onTail_of done

/-- A higher term, begun with a volume of its own. -/
theorem Follows.startTerm (follows : Follows m place vs) (steady : vs.Steady bound) (small : bound + 1 < 2 ^ 64)
    {term : UInt64} (higher : vs.tail.term < term) :
    ∃ m', (startTerm term).perform m = (.ok (vs.turnOver term).tail, m') ∧ Follows m' place (vs.turnOver term) ∧
      Tail.Within place (tailOf m) (tailOf m') := by
  obtain ⟨m', done, follows', within⟩ := follows.tail.startTerm steady small higher
  refine ⟨⟨m'.disk, { m.item with tail := m'.item }⟩, ?_, ⟨follows.mounted, follows'⟩, within⟩
  rw [Log.startTerm, Action.perform_bind, perform_onTail_of done]
  simp only [Action.perform_bind, Mounted.perform_current, Action.perform_pure, position]
  exact congrArg (fun p => (Except.ok p, _)) follows'.position

/-- A term that is not higher is refused, and nothing changes. -/
theorem startTerm_low {term : UInt64} (low : term ≤ m.item.position.term) :
    ∃ e, (Log.startTerm term).perform m = (.error e, m) := by
  obtain ⟨e, refused⟩ := Tail.startTerm_low (m := tailOf m) low
  exact ⟨e, by rw [Log.startTerm, Action.perform_bind, perform_onTail_of refused]; rfl⟩

end Log
end Shiplog
