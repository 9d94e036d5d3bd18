import Shiplog.Proofs.Endings

/-!
The files in the directory of a log, as its segments. The name of a segment is read back but for the
case of its letters (`Segment.parseName?_eq_some_iff`). In a directory without such names in upper
case every segment is one file, listed once under the path that its term and collection give, and
the newest is the file that a log repairs, resumes and appends to (`Log.segment_is_one_file`).
-/
namespace Shiplog

namespace Hex

variable {c : Char} {cs : List Char} {n : Nat}

/-- What holds of the first 128 characters and of those behind them holds of all. -/
theorem ascii_cases {p : Char → Prop} (low : ∀ k : Fin 128, p (Char.ofNat k))
    (high : ∀ c : Char, 128 ≤ c.toNat → p c) (c : Char) : p c := by
  by_cases small : c.toNat < 128
  · have inside := low ⟨c.toNat, small⟩
    rwa [Char.ofNat_toNat] at inside
  · exact high c (Nat.not_lt.mp small)

/-- Behind the first 128 characters there is no digit, and none has another lower case. -/
theorem value?_of_high (high : 128 ≤ c.toNat) : value? c = none ∧ c.toLower = c := by
  have above : ∀ e : Char, e.toNat < 128 → ¬ c ≤ e := by
    intro e small le
    have : c.toNat ≤ e.toNat := le
    omega
  constructor
  · rw [value?, if_neg fun inside => above _ (by decide) inside.2, if_neg fun inside => above _ (by decide) inside.2,
      if_neg fun inside => above _ (by decide) inside.2]
  · rw [Char.toLower, dif_neg]
    rintro ⟨-, low⟩
    exact above 'Z' (by decide) low

/-- A digit of either case is the lower-case digit of its value, but for the case. -/
theorem toLower_of_value? (c : Char) : ∀ d, value? c = some d → d < 16 ∧ c.toLower = Nat.digitChar d := by
  revert c
  refine ascii_cases (by decide +kernel) fun c high d read => ?_
  rw [(value?_of_high high).1] at read
  cases read

theorem value?_toLower (c : Char) : value? c.toLower = value? c := by
  revert c
  refine ascii_cases (by decide +kernel) fun c high => by rw [(value?_of_high high).2]

/-- The case of the digits does not matter. -/
theorem toNatFrom?_toLower (n : Nat) (cs : List Char) : toNatFrom? n (cs.map Char.toLower) = toNatFrom? n cs := by
  induction cs generalizing n with
  | nil => rfl
  | cons c cs ih => simp only [List.map_cons, toNatFrom?, value?_toLower, ih]

/-- What spells a number is, but for the case, the digits of the number. -/
theorem digits_of_toNat? : toNat? cs = some n → digits cs.length n = cs.map Char.toLower ∧ n < 16 ^ cs.length := by
  -- Digits are written from the last, so the induction takes the last away.
  induction cs using List.reverseRecOn generalizing n with
  | nil =>
    intro read
    obtain rfl : 0 = n := Option.some.inj read
    exact ⟨rfl, by decide⟩
  | append_singleton cs c ih =>
    intro read
    rw [toNat?, toNatFrom?_append] at read
    obtain ⟨m, front, last⟩ := Option.bind_eq_some_iff.mp read
    obtain ⟨d, digit, value⟩ := Option.bind_eq_some_iff.mp last
    obtain rfl : 16 * m + d = n := Option.some.inj value
    obtain ⟨spelt, small⟩ := ih front
    obtain ⟨low, lower⟩ := toLower_of_value? c d digit
    rw [List.length_append, List.length_singleton, digits, List.map_append, List.map_singleton, lower,
      show (16 * m + d) / 16 = m by omega, show (16 * m + d) % 16 = d by omega, spelt, Nat.pow_succ]
    exact ⟨rfl, by omega⟩

end Hex

namespace Segment

variable {text : String} {term collection : UInt64}

theorem toList_toLower (text : String) : text.toLower.toList = text.toList.map Char.toLower := by
  simp [String.toLower]

theorem parseName?_toLower (text : String) : parseName? text.toLower = parseName? text := by
  simp only [parseName?, Hex.toNat?, toList_toLower, List.length_map, ← List.map_take, ← List.map_drop,
    Hex.toNatFrom?_toLower]

/-- Sixteen digits spell a number of 64 bits. -/
theorem word_of_toNat? {cs : List Char} {n : Nat} (length : cs.length = 16) (read : Hex.toNat? cs = some n) :
    (UInt64.ofNat n).toNat = n := by
  have small := (Hex.digits_of_toNat? read).2
  rw [length] at small
  exact UInt64.toNat_ofNat_of_lt' small

/-- What a name that is read is made of. -/
theorem halves_of_parseName? (read : parseName? text = some (term, collection)) :
    (text.toList.take 16).length = 16 ∧ (text.toList.drop 16).length = 16 ∧
      Hex.toNat? (text.toList.take 16) = some term.toNat ∧ Hex.toNat? (text.toList.drop 16) = some collection.toNat ∧
      term ≠ 0 ∧ collection ≠ 0 := by
  rw [parseName?] at read
  by_cases length : text.toList.length = 32
  · have front : (text.toList.take 16).length = 16 := by rw [List.length_take, length]; rfl
    have back : (text.toList.drop 16).length = 16 := by rw [List.length_drop, length]
    rw [if_neg (not_not.mpr length)] at read
    rcases first : Hex.toNat? (text.toList.take 16) with _ | t
    · simp [first] at read
    rcases second : Hex.toNat? (text.toList.drop 16) with _ | c
    · simp [first, second] at read
    simp only [first, second] at read
    by_cases pos : t = 0 ∨ c = 0
    · simp [pos] at read
    · rw [if_neg pos, Option.some.injEq, Prod.mk.injEq] at read
      obtain ⟨rfl, rfl⟩ := read
      have word := word_of_toNat? front first
      have word' := word_of_toNat? back second
      refine ⟨front, back, by rw [word], by rw [word'], fun zero => pos (.inl ?_), fun zero => pos (.inr ?_)⟩
      · rw [← word, zero]
        rfl
      · rw [← word', zero]
        rfl
  · simp [length] at read

/-- A name is read as the term and the collection that it is the name of, but for the case of its
    letters. -/
theorem parseName?_eq_some_iff : parseName? text = some (term, collection) ↔
    term ≠ 0 ∧ collection ≠ 0 ∧ text.toLower = name term collection := by
  constructor
  · intro read
    obtain ⟨front, back, first, second, termPos, collectionPos⟩ := halves_of_parseName? read
    have spelt := (Hex.digits_of_toNat? first).1
    have spelt' := (Hex.digits_of_toNat? second).1
    rw [front] at spelt
    rw [back] at spelt'
    refine ⟨termPos, collectionPos, ?_⟩
    rw [name, spelt, spelt', ← List.map_append, List.take_append_drop, ← toList_toLower, String.ofList_toList]
  · rintro ⟨termPos, collectionPos, same⟩
    rw [← parseName?_toLower, same]
    exact parseName?_name _ _ termPos collectionPos

/-! ## Listings -/

/-- A name that is read as no segment's, or has its letters in lower case. -/
def Canonical (text : String) : Prop := parseName? text ≠ none → text.toLower = text

/-- The segments of a directory: one for each file that is named for a term and a collection, under
    the path that they give, and in ascending order. -/
structure Listing (t : FileTree) (dir place : Path) (segments : List Segment) : Prop where
  mem_iff : ∀ s, s ∈ segments ↔ s.term ≠ 0 ∧ s.collection ≠ 0 ∧ s.path = pathIn dir s.term s.collection ∧
    IsFile t place (name s.term s.collection)
  once : ∀ text text' key, IsFile t place text → IsFile t place text' → parseName? text = some key →
    parseName? text' = some key → text = text'
  ascending : segments.Pairwise fun a b => a.term < b.term ∨ a.term = b.term ∧ a.collection < b.collection

variable {t : FileTree} {dir place : Path} {width : Nat}

/-- Where no name is in upper case, every segment is one file. -/
theorem listing_of_canonical {segments : List Segment} (sound : t.Sound) (hosts : t.Hosts dir place width)
    (canonical : ∀ text, IsFile t place text → Canonical text) (listed : list t dir = .ok segments) :
    Listing t dir place segments := by
  obtain ⟨segments', listed', once, ascending, members⟩ := exists_list sound hosts
  obtain rfl : segments = segments' := by
    rw [listed, Except.ok.injEq] at listed'
    exact listed'
  -- A name that is read is the very name of what is read.
  have named : ∀ {text term collection}, IsFile t place text → parseName? text = some (term, collection) →
      text = name term collection := by
    intro text term collection file read
    have lower := canonical text file (by rw [read]; exact Option.some_ne_none _)
    rw [← lower]
    exact (parseName?_eq_some_iff.mp read).2.2
  have mem_iff : ∀ s, s ∈ segments ↔ s.term ≠ 0 ∧ s.collection ≠ 0 ∧ s.path = pathIn dir s.term s.collection ∧
      IsFile t place (name s.term s.collection) := by
    intro s
    rw [members]
    constructor
    · rintro ⟨text, file, read, path⟩
      obtain ⟨termPos, collectionPos, -⟩ := parseName?_eq_some_iff.mp read
      obtain rfl := named file read
      exact ⟨termPos, collectionPos, path, file⟩
    · rintro ⟨termPos, collectionPos, path, file⟩
      exact ⟨_, file, parseName?_name _ _ termPos collectionPos, path⟩
  refine ⟨mem_iff, ?_, ?_⟩
  · rintro text text' ⟨term, collection⟩ file file' read read'
    rw [named file read, named file' read']
  · refine (ascending.and once).imp_of_mem ?_
    rintro a b aMember bMember ⟨order, apart⟩
    have different : a.term = b.term → a.collection ≠ b.collection := by
      intro terms collections
      have aPath := ((mem_iff a).mp aMember).2.2.1
      have bPath := ((mem_iff b).mp bMember).2.2.1
      rw [terms, collections, ← bPath] at aPath
      exact apart (by rw [show a = ⟨a.term, a.collection, a.path⟩ from rfl, terms, collections, aPath])
    rw [notAfter_iff] at order
    rcases order with lower | ⟨terms, collections⟩
    · exact .inl lower
    · exact .inr ⟨terms, UInt64.lt_of_le_of_ne collections (different terms)⟩

end Segment

namespace Repair

variable {t t' : FileTree} {path place : Path} {previous : Option Path} {id : FileId} {content : Bytes} {report : Report}

/-- A repair cuts the file that it is for down to its complete pages, and leaves every other as it is. -/
theorem refilled_of_repair (sound : t.Sound) (resolved : t.resolve path = .ok place)
    (file : t.find? place = some (.file id content)) (done : (repair path previous).perform t = (.ok report, t')) :
    t'.Sound ∧ t.Refilled t' place id (content.take (report.pages * Page.size)) := by
  have read := FileTree.read_eq_ok.mpr ⟨place, id, resolved, file⟩
  cases found : inspect t path with
  | error e =>
    rw [perform_repair_failed found] at done
    cases done
  | ok finding =>
    obtain ⟨cut, cuts, sound', refilled⟩ := exists_cut sound resolved file found
    rw [perform_repair_of found cuts, Prod.mk.injEq] at done
    obtain ⟨reported, rfl⟩ := done
    rcases answered : asked finding.lastKind previous cut with e | opened
    · simp [answered, Except.map] at reported
    · rw [answered] at reported
      have pages : report.pages = content.length / Page.size :=
        (congrArg Report.pages (Except.ok.inj reported)).symm.trans (inspect_eq_ok read found).2.1
      rw [pages]
      exact ⟨sound', refilled⟩

end Repair

namespace Log

variable {t t' : FileTree} {dir place : Path} {log : Log} {newest : Segment} {older segments : List Segment}
  {previous : Option Segment} {id : FileId} {content : Bytes} {report : Repair.Report} {page : Page.Kind × Bytes}

/-- The log behind some pages of a segment, with the segment's file open. -/
def standing (log : Log) (newest : Segment) (pages : Nat) (id : FileId) : Log :=
  { log with tail := { log.tail with
    position := ⟨newest.term, newest.collection, UInt64.ofNat pages⟩
    handle := some id } }

/-- What is left to do when the newest segment is open again. -/
def finish (needsBrokenEnd : Bool) : Action (Mounted Log) Position := do
  if needsBrokenEnd then onTail (Tail.appendPage .brokenEnd [])
  Mounted.update fun log => { log with mounted := true }
  return (← Mounted.current).position

/-- The newest segment of a log is one file at a place, which a repair inspects and cuts and the log
    then stands on. -/
structure StandsOn (log : Log) (t : FileTree) (newest : Segment) (previous : Option Segment) (place : Path) (id : FileId)
    (content : Bytes) : Prop where
  lies : t.find? place = some (.file id content)
  inspected : t.read newest.path = .ok content
  /-- Where the repair fails, taking up the log fails with it. -/
  refused : ∀ e t', (Repair.repair newest.path (previous.map Segment.path)).perform t = (.error e, t') →
    mount.perform ⟨t, log⟩ = (.error e, ⟨t', log⟩)
  /-- The repair changes this file alone. The log goes on with it open, and the next page goes
      there unless the segment is full. -/
  resumed : ∀ report t', (Repair.repair newest.path (previous.map Segment.path)).perform t = (.ok report, t') →
    t.Refilled t' place id (content.take (report.pages * Page.size)) ∧
    mount.perform ⟨t, log⟩ = (finish report.needsBrokenEnd).perform ⟨t', log.standing newest report.pages id⟩ ∧
    ((log.standing newest report.pages id).tail.isFull = false → ∀ page, Page.Fits page → ∃ m',
      (onTail (Tail.appendPage page.1 page.2)).perform ⟨t', log.standing newest report.pages id⟩ = (.ok (), m') ∧
      t.Refilled m'.disk place id (content.take (report.pages * Page.size) ++ Page.image page))

theorem perform_mount_refused {width : Nat} {e : Error} (hosts : t.Hosts log.dir place width)
    (listed : Segment.list t log.dir = .ok segments) (reversed : segments.reverse = newest :: older)
    (done : (Repair.repair newest.path (older.head?.map Segment.path)).perform t = (.error e, t')) :
    mount.perform ⟨t, log⟩ = (.error e, ⟨t', log⟩) := by
  have repaired : (onDisk (Repair.repair newest.path (older.head?.map Segment.path))).perform ⟨t, log⟩ =
      (.error e, ⟨t', log⟩) := by
    rw [perform_onDisk, done]
  rw [perform_mount_newest hosts listed reversed, Action.perform_bind, takeUp, Action.perform_bind, repaired]

theorem perform_mount_resumed {width : Nat} (hosts : t.Hosts log.dir place width)
    (listed : Segment.list t log.dir = .ok segments) (reversed : segments.reverse = newest :: older)
    (done : (Repair.repair newest.path (older.head?.map Segment.path)).perform t = (.ok report, t'))
    (opened : t'.openFile (Segment.pathIn log.dir newest.term newest.collection) = .ok (id, t')) :
    mount.perform ⟨t, log⟩ = (finish report.needsBrokenEnd).perform ⟨t', log.standing newest report.pages id⟩ := by
  have repaired : (onDisk (Repair.repair newest.path (older.head?.map Segment.path))).perform ⟨t, log⟩ =
      (.ok report, ⟨t', log⟩) := by
    rw [perform_onDisk, done]
  have tail : (Tail.resume newest.term newest.collection (UInt64.ofNat report.pages)).perform (tailOf ⟨t', log⟩) =
      (.ok (), ⟨t', (log.standing newest report.pages id).tail⟩) := by
    simp only [Tail.perform_resume_eq, tailOf, show log.tail.dir = log.dir from rfl, opened]
    rfl
  have resumes : (onTail (Tail.resume newest.term newest.collection (UInt64.ofNat report.pages))).perform ⟨t', log⟩ =
      (.ok (), ⟨t', log.standing newest report.pages id⟩) := perform_onTail_of tail
  rw [perform_mount_newest hosts listed reversed, Action.perform_bind, takeUp, Action.perform_bind, repaired]
  simp only
  rw [Action.perform_bind, resumes]
  simp only [finish]
  cases report.needsBrokenEnd
  · rfl
  · simp only [↓reduceIte]
    rw [Action.perform_bind]

/-- A page goes to the file that a log stands on. -/
theorem perform_appendPage_standing (sound : t'.Sound) (lies : t'.find? place = some (.file id content)) {pages : Nat}
    (room : (log.standing newest pages id).tail.isFull = false) (fits : Page.Fits page) : ∃ m',
    (onTail (Tail.appendPage page.1 page.2)).perform ⟨t', log.standing newest pages id⟩ = (.ok (), m') ∧
      t'.Refilled m'.disk place id (content ++ Page.image page) := by
  have made : Tail.makeRoom.perform (tailOf ⟨t', log.standing newest pages id⟩) =
      (.ok (), tailOf ⟨t', log.standing newest pages id⟩) := by
    rw [Tail.perform_makeRoom_eq, if_neg]
    rintro (none | full)
    · cases none
    · rw [tailOf, room] at full
      cases full
  exact ⟨_, perform_onTail_of (Tail.perform_appendPage_of fits made rfl), sound.find?_alter_file lies _⟩

/-- The newest of the listed segments is one file throughout. -/
theorem exists_standsOn (sound : t.Sound) (hosts : t.Hosts log.dir place Segment.nameWidth)
    (listing : Segment.Listing t log.dir place segments) (listed : Segment.list t log.dir = .ok segments)
    (reversed : segments.reverse = newest :: older) : ∃ id content,
    log.StandsOn t newest older.head? (place ++ [Segment.name newest.term newest.collection]) id content := by
  have member : newest ∈ segments := by
    rw [← List.mem_reverse, reversed]
    exact List.mem_cons_self
  obtain ⟨-, -, path, id, content, lies⟩ := (listing.mem_iff newest).mp member
  have plain := Segment.plain_name newest.term newest.collection
  have fits := Nat.le_of_eq plain.2
  refine ⟨id, content, lies, ?_, fun e t' done => perform_mount_refused hosts listed reversed done, ?_⟩
  · rw [path]
    exact hosts.read_child plain.1 fits lies
  · intro report t' done
    have repaired := done
    rw [path] at repaired
    obtain ⟨sound', refilled⟩ := Repair.refilled_of_repair sound (hosts.resolve_child plain.1 fits) lies repaired
    refine ⟨refilled, perform_mount_resumed hosts listed reversed done
      ((hosts.kept (refilled.keeps lies)).openFile_child plain.1 fits refilled.here), fun room page fits => ?_⟩
    obtain ⟨m', appended, refilled'⟩ := perform_appendPage_standing sound' refilled.here room fits
    exact ⟨m', appended, refilled.trans refilled'⟩

/-- Where no segment's name is in upper case, names are read back just as they are given, every
    segment is one file, and the newest is the file that a log repairs, resumes and appends to. -/
theorem segment_is_one_file (sound : t.Sound) (hosts : t.Hosts dir place Segment.nameWidth)
    (canonical : ∀ text, Segment.IsFile t place text → Segment.Canonical text) :
    (∀ text, Segment.Canonical text → ∀ term collection, Segment.parseName? text = some (term, collection) ↔
      term ≠ 0 ∧ collection ≠ 0 ∧ text = Segment.name term collection) ∧
    ∃ segments, Segment.list t dir = .ok segments ∧ Segment.Listing t dir place segments ∧
      ∀ (log : Log) newest older, log.dir = dir → segments.reverse = newest :: older → ∃ id content,
        log.StandsOn t newest older.head? (place ++ [Segment.name newest.term newest.collection]) id content := by
  constructor
  · intro text lower term collection
    constructor
    · intro read
      have named := Segment.parseName?_eq_some_iff.mp read
      rwa [lower (by rw [read]; exact Option.some_ne_none _)] at named
    · rintro ⟨termPos, collectionPos, rfl⟩
      exact Segment.parseName?_name _ _ termPos collectionPos
  · obtain ⟨segments, listed, -⟩ := Segment.exists_list sound hosts
    have listing := Segment.listing_of_canonical sound hosts canonical listed
    refine ⟨segments, listed, listing, ?_⟩
    rintro log newest older rfl reversed
    exact exists_standsOn sound hosts listing listed reversed

/-- A directory with a segment and a file of another kind. -/
def besideReadme : FileTree := ((FileTree.empty.create ["README"]).2.create [Segment.name 1 2]).2

theorem find?_besideReadme (text : String) : besideReadme.find? [text] =
    if text = Segment.name 1 2 then some (.file 1 []) else if text = "README" then some (.file 0 []) else none := by
  have first : FileTree.empty.find? ["README"] = none := rfl
  have second : (FileTree.empty.create ["README"]).2.find? [Segment.name 1 2] = none := by decide
  rw [besideReadme, FileTree.find?_create second, FileTree.find?_create first]
  simp only [List.cons.injEq, and_true]
  rfl

theorem segment_is_one_file_beside_readme : besideReadme.Sound ∧ besideReadme.Hosts [""] [] Segment.nameWidth ∧
    (∀ text, Segment.IsFile besideReadme [] text → Segment.Canonical text) ∧
    ∃ segments newest older, Segment.list besideReadme [""] = .ok segments ∧
      Segment.Listing besideReadme [""] [] segments ∧ segments.reverse = newest :: older ∧
      (newest.term, newest.collection) = (1, 2) ∧ ∃ id content,
        (fresh [""] 8192).StandsOn besideReadme newest older.head? [Segment.name 1 2] id content := by
  have sound : besideReadme.Sound := (FileTree.Sound.empty.create rfl rfl).create (by decide) rfl
  have hosts : besideReadme.Hosts [""] [] Segment.nameWidth := ⟨rfl, rfl, by decide⟩
  have named : ∀ text, Segment.IsFile besideReadme [] text → text = Segment.name 1 2 ∨ text = "README" := by
    rintro text ⟨id, content, lies⟩
    rw [List.nil_append, find?_besideReadme] at lies
    by_cases segment : text = Segment.name 1 2
    · exact .inl segment
    · by_cases readme : text = "README"
      · exact .inr readme
      · simp [segment, readme] at lies
  have canonical : ∀ text, Segment.IsFile besideReadme [] text → Segment.Canonical text := by
    intro text file spelt
    rcases named text file with rfl | rfl
    · exact (Segment.parseName?_eq_some_iff.mp (Segment.parseName?_name 1 2 (by decide) (by decide))).2.2
    · exact absurd (by decide) spelt
  obtain ⟨-, segments, listed, listing, stands⟩ := segment_is_one_file sound hosts canonical
  have member : ⟨1, 2, Segment.pathIn [""] 1 2⟩ ∈ segments :=
    (listing.mem_iff _).mpr ⟨by decide, by decide, rfl, 1, [], by rw [List.nil_append, find?_besideReadme, if_pos rfl]⟩
  rcases reversed : segments.reverse with _ | ⟨newest, older⟩
  · rw [List.reverse_eq_nil_iff.mp reversed] at member
    cases member
  · have inside : newest ∈ segments := by
      rw [← List.mem_reverse, reversed]
      exact List.mem_cons_self
    have key : newest.term = 1 ∧ newest.collection = 2 := by
      rcases named _ ((listing.mem_iff newest).mp inside).2.2.2 with same | same
      · exact Segment.name_inj same
      · have width := (Segment.plain_name newest.term newest.collection).2
        rw [same] at width
        exact absurd width (by decide)
    obtain ⟨id, content, standsOn⟩ := stands (fresh [""] 8192) newest older rfl reversed
    rw [key.1, key.2] at standsOn
    exact ⟨sound, hosts, canonical, segments, newest, older, listed, listing, reversed, Prod.ext key.1 key.2, id, content,
      standsOn⟩

/-- A name in upper case is read all the same, and the file is listed under a path that is not the
    one to be resumed. -/
theorem upper_case_is_listed : Segment.parseName? "0000000000000001000000000000000A" = some (1, 10) ∧
    "0000000000000001000000000000000A" ≠ Segment.name 1 10 ∧
    ∃ t, Segment.list t [""] = .ok [⟨1, 10, ["0000000000000001000000000000000A"]⟩] ∧
      Segment.pathIn [""] 1 10 ≠ ["0000000000000001000000000000000A"] := by
  have read : Segment.parseName? "0000000000000001000000000000000A" = some (1, 10) := by decide
  have children : (FileTree.empty.create ["0000000000000001000000000000000A"]).2.list [""] =
      .ok [("0000000000000001000000000000000A", .file 0 [])] := rfl
  refine ⟨read, by decide, (FileTree.empty.create ["0000000000000001000000000000000A"]).2, ?_, by decide⟩
  simp [Segment.list, children, read, bind, Except.bind]
  rfl

end Log
end Shiplog
