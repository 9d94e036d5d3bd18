import Shiplog.Proofs.Crashes

/-!
How the segment files of a log follow one another. A volume is only begun on one that is
full, or in a higher term (`Shelf.Packed`), and what has been begun is never renamed or
taken away (`Shelf.labels`). So through any run of writes, terms, restarts and crashes the
files are numbered from 1 without a gap, none outgrows the limit unless its first page does,
and the log stands at the end of the newest; and the positions that a log gives out only
rise as long as no file is cut (`Session.run_in_order`).
-/
namespace Shiplog

namespace Volume

/-- The bytes of a volume's file. -/
def size (v : Volume) : Nat := v.pages.length * Page.size + v.torn.length

/-- There is a page, and one more would outgrow the limit. -/
def Full (limit : UInt64) (v : Volume) : Prop := 0 < v.pages.length ∧ limit.toNat < (v.pages.length + 1) * Page.size

theorem length_content {v : Volume} (fits : ∀ page ∈ v.pages, Page.Fits page) : v.content.length = v.size := by
  rw [content, List.length_append, Segment.length_images v.pages fits, size]

end Volume

namespace Shelf

variable {vs older : Shelf} {v : Volume} {bound : Nat} {limit : UInt64} {page : Page.Kind × Bytes}

/-- The size that a file may reach, by the limit or by the pages there are, can be counted. -/
def Countable (limit : UInt64) (pages : Nat) : Prop := min limit.toNat (pages * Page.size) + Page.size < 2 ^ 64

theorem Countable.mono {more : Nat} (countable : Countable limit more) (le : bound ≤ more) : Countable limit bound := by
  have times := Nat.mul_le_mul_right Page.size le
  unfold Countable at *
  omega

/-- How a volume is put on the older ones under a limit: none outgrows it but by its first page,
    and a volume is begun on a full one, or in a higher term. -/
structure Caps (limit : UInt64) (v : Volume) (older : Shelf) : Prop where
  size : v.size ≤ max limit.toNat Page.size
  begun : ∀ w ∈ older.head?, w.term < v.term ∨ w.Full limit

/-- Every volume is put on the older ones in this way. -/
def Packed (limit : UInt64) : Shelf → Prop
  | [] => True
  | v :: older => Caps limit v older ∧ Packed limit older

/-- The terms and collections of the volumes. -/
def labels (vs : Shelf) : List (UInt64 × UInt64) := vs.map fun v => (v.term, v.collection)

/-! ## A volume more -/

theorem Packed.turnOver (packed : vs.Packed limit) {term : UInt64} (why : ∀ w ∈ vs.head?, w.term < term ∨ w.Full limit) :
    Packed limit (turnOver term vs) :=
  ⟨⟨by simp [Volume.size], why⟩, packed⟩

theorem labels_turnOver (term : UInt64) (vs : Shelf) : labels vs <:+ labels (turnOver term vs) :=
  List.suffix_cons _ _

/-! ## A page more -/

@[simp] theorem labels_put (page : Page.Kind × Bytes) (vs : Shelf) : labels (put page vs) = labels vs := by
  cases vs <;> rfl

theorem Packed.put (packed : Packed limit (v :: older)) (whole : v.torn = []) (room : ¬ v.Full limit) :
    Packed limit (put page (v :: older)) := by
  obtain ⟨⟨size, begun⟩, below⟩ := packed
  refine ⟨⟨?_, begun⟩, below⟩
  simp only [Volume.Full, not_and, Nat.not_lt] at room
  simp only [Volume.size, Volume.addPage, whole, List.length_append, List.length_singleton, List.length_nil, Nat.add_zero]
  by_cases first : v.pages.length = 0
  · simp [first]
  · exact Nat.le_trans (room (by omega)) (Nat.le_max_left _ _)

/-- A log turns to a new file when the newest is full, as long as sizes can be counted. -/
theorem isFull_iff (steady : Steady bound (v :: older)) (packed : Packed limit (v :: older))
    (countable : Countable limit bound) : isFull limit (v :: older) = true ↔ v.Full limit := by
  have few := steady.few v List.mem_cons_self
  have most := Nat.mul_le_mul_right Page.size (steady.pages v List.mem_cons_self)
  have size := packed.1.size
  have one : (1 : UInt64).toNat = 1 := rfl
  have page : Page.size = 4096 := rfl
  simp only [Volume.size, Countable, page] at size countable most
  have count : (UInt64.ofNat v.pages.length).toNat = v.pages.length := by
    rw [UInt64.toNat_ofNat', Nat.mod_eq_of_lt few]
  have next : ((UInt64.ofNat v.pages.length + 1) * UInt64.ofNat Page.size).toNat = (v.pages.length + 1) * Page.size := by
    rw [UInt64.toNat_mul, UInt64.toNat_add, count, one, page]
    have bytes : (UInt64.ofNat 4096).toNat = 4096 := rfl
    rw [bytes, Nat.mod_eq_of_lt (a := v.pages.length + 1) (by omega), Nat.mod_eq_of_lt (by omega)]
  simp only [isFull, tail, Volume.tail, Bool.and_eq_true, decide_eq_true_eq, UInt64.lt_iff_toNat_lt, next, count,
    UInt64.toNat_zero, Volume.Full]

theorem Packed.addPage (packed : vs.Packed limit) (steady : vs.Steady bound) (whole : vs.Whole)
    (countable : Countable limit bound) (page : Page.Kind × Bytes) : Packed limit (vs.addPage limit page) := by
  unfold Shelf.addPage makeRoom
  split
  · rename_i turn
    refine (packed.turnOver fun w newest => .inr ?_).put rfl (by simp [Volume.Full])
    cases vs with
    | nil => simp at newest
    | cons v older =>
      obtain rfl : v = w := by simpa using newest
      exact (isFull_iff steady packed countable).mp (turn.resolve_left (List.cons_ne_nil _ _))
  · rename_i stay
    cases vs with
    | nil => exact absurd (.inl rfl) stay
    | cons v older =>
      exact packed.put (whole v List.mem_cons_self) fun full => stay (.inr ((isFull_iff steady packed countable).mpr full))

theorem labels_addPage (limit : UInt64) (page : Page.Kind × Bytes) (vs : Shelf) : labels vs <:+ labels (vs.addPage limit page) := by
  rw [addPage, labels_put]
  rcases makeRoom_cases limit vs with ⟨turned, -⟩ | ⟨stays, -⟩
  · rw [turned]
    exact labels_turnOver _ vs
  · rw [stays]

theorem Packed.addPages (packed : vs.Packed limit) (steady : vs.Steady bound) (whole : vs.Whole)
    {pages : List (Page.Kind × Bytes)} (fits : ∀ page ∈ pages, Page.Fits page) (small : bound + pages.length < 2 ^ 64)
    (countable : Countable limit (bound + pages.length)) : Packed limit (vs.addPages limit pages) := by
  induction pages generalizing vs bound with
  | nil => exact packed
  | cons page rest ih =>
    rw [List.length_cons] at small countable
    have first := steady.addPage whole limit (fits page List.mem_cons_self) (by omega)
    exact ih (packed.addPage steady whole (countable.mono (by omega)) page) first (whole.addPage limit page)
      (fun p member => fits p (List.mem_cons_of_mem page member)) (by omega) (countable.mono (by omega))

theorem labels_addPages (limit : UInt64) (pages : List (Page.Kind × Bytes)) (vs : Shelf) :
    labels vs <:+ labels (vs.addPages limit pages) := by
  induction pages generalizing vs with
  | nil => exact List.suffix_rfl
  | cons page rest ih => exact (labels_addPage limit page vs).trans (ih _)

theorem founded_addPages (founded : vs.Founded) (limit : UInt64) (pages : List (Page.Kind × Bytes)) :
    Founded (vs.addPages limit pages) := by
  induction pages generalizing vs with
  | nil => exact founded
  | cons page rest ih => exact ih (founded_addPage founded limit page)

/-! ## Cuts and repairs -/

/-- A volume that shrinks stands as it did. -/
private theorem Packed.shrink (packed : Packed limit (v :: older)) {v' : Volume} (term : v'.term = v.term)
    (smaller : v'.size ≤ v.size) : Packed limit (v' :: older) :=
  ⟨⟨Nat.le_trans smaller packed.1.size, by rw [term]; exact packed.1.begun⟩, packed.2⟩

theorem Packed.cut (packed : vs.Packed limit) {count : Nat} {torn : Bytes}
    (smaller : ∀ v ∈ vs.head?, (v.cut count torn).size ≤ v.size) : Packed limit (vs.cut count torn) := by
  cases vs with
  | nil => exact packed
  | cons v older => exact packed.shrink rfl (smaller v rfl)

@[simp] theorem labels_cut (count : Nat) (torn : Bytes) (vs : Shelf) : labels (vs.cut count torn) = labels vs := by
  cases vs <;> rfl

theorem Packed.trim (packed : vs.Packed limit) : Packed limit vs.trim := by
  cases vs with
  | nil => exact packed
  | cons v older => exact packed.shrink rfl (by simp [Volume.size, Volume.trim])

@[simp] theorem labels_trim (vs : Shelf) : labels vs.trim = labels vs := by
  cases vs <;> rfl

theorem Packed.mend (packed : vs.Packed limit) (steady : vs.Steady bound) (countable : Countable limit bound) :
    Packed limit (vs.mend limit) := by
  unfold Shelf.mend
  split
  · obtain ⟨trimmed, whole⟩ := steady.trim
    exact packed.trim.addPage trimmed whole countable _
  · exact packed

theorem labels_mend (limit : UInt64) (vs : Shelf) : labels vs <:+ labels (vs.mend limit) := by
  unfold mend
  split
  · rw [← labels_trim vs]
    exact labels_addPage limit _ vs.trim
  · exact List.suffix_rfl

/-- A repair moves the end on, or leaves it. -/
theorem Steady.tail_le_mend (steady : vs.Steady bound) (limit : UInt64) (small : bound + 1 < 2 ^ 64) :
    tail vs ≤ tail (vs.mend limit) := by
  unfold Shelf.mend
  split
  · have on := (steady.trim.1.tail_lt_addPage limit (.brokenEnd, []) small).1
    rw [tail_trim] at on
    exact Position.le_of_lt on
  · exact Position.le_refl _

end Shelf

/-! ## The files of a directory -/

/-- The segment files of a log with a limit, in the order in which they were begun. -/
structure Segment.Series (t : FileTree) (dir : Path) (limit : UInt64) (segments : List Segment) : Prop where
  listed : list t dir = .ok segments
  placed : ∀ s ∈ segments, s.path = pathIn dir s.term s.collection
  /-- Nothing else lies in the directory. -/
  alone : ∃ children, t.list dir = .ok children ∧
    ∀ name node, (name, node) ∈ children → ∃ s ∈ segments, s.path = dir.child name
  numbered : segments.map (fun s => s.collection.toNat) = List.range' 1 segments.length
  terms : segments.Pairwise fun s later => s.term ≤ later.term
  sizes : ∀ s ∈ segments, ∃ size, t.length s.path = .ok size ∧ size ≤ max limit.toNat Page.size
  /-- A file is followed by one of a higher term or is full. -/
  begun : segments.IsChain fun s next => s.term < next.term ∨
    ∃ pages, t.length s.path = .ok (pages * Page.size) ∧ 0 < pages ∧ limit.toNat < (pages + 1) * Page.size
  /-- No file has the name of the next one, whatever its term. -/
  free : ∀ term, t.locate (pathIn dir term (UInt64.ofNat (segments.length + 1))) = .ok none

namespace Shelf

variable {t : FileTree} {dir place : Path} {vs : Shelf} {bound : Nat} {limit : UInt64}

/-- Collections are numbers from 1 on, without a gap. -/
theorem Ordered.collections (ordered : vs.Ordered) :
    vs.reverse.map (fun v => v.collection.toNat) = List.range' 1 vs.length := by
  induction vs with
  | nil => rfl
  | cons v older ih =>
    obtain ⟨⟨collection, -⟩, below⟩ := ordered
    rw [List.reverse_cons, List.map_append, ih below, List.length_cons, List.range'_1_concat, List.map_singleton, collection,
      Nat.add_comm 1]

theorem Rising.terms (rising : vs.Rising) : vs.reverse.Pairwise fun u v => u.term ≤ v.term := by
  rw [List.pairwise_reverse]
  induction vs with
  | nil => exact .nil
  | cons v older ih => exact .cons (fun u below => (rising.below below).1) (ih rising.2)

theorem Packed.size_le (packed : vs.Packed limit) {v : Volume} (member : v ∈ vs) : v.size ≤ max limit.toNat Page.size := by
  induction vs with
  | nil => cases member
  | cons u older ih =>
    rcases List.mem_cons.mp member with rfl | below
    · exact packed.1.size
    · exact ih packed.2 below

/-- Every volume but the newest is full or under one of a higher term, and is whole. -/
theorem Packed.begun (packed : vs.Packed limit) (rising : vs.Rising) :
    vs.reverse.IsChain fun w v => w.term < v.term ∨ w.Full limit ∧ w.torn = [] := by
  rw [List.isChain_reverse]
  induction vs with
  | nil => exact .nil
  | cons v older ih =>
    rw [List.isChain_cons]
    refine ⟨fun w under => ?_, ih packed.2 rising.2⟩
    exact (packed.1.begun w under).imp_right fun full => ⟨full, rising.1.clean w (List.mem_of_mem_head? under)⟩

end Shelf

/-- The volumes of a packed shelf are such files. -/
theorem Shelved.series {t : FileTree} {dir place : Path} {vs : Shelf} {bound : Nat} {limit : UInt64}
    (shelved : Shelved t dir place vs) (steady : vs.Steady bound) (founded : vs.Founded) (packed : vs.Packed limit)
    (small : bound + 1 < 2 ^ 64) : Segment.Series t dir limit (vs.reverse.map (Volume.segment dir)) := by
  have ordered := Shelf.ordered_iff.mpr ⟨steady.rising, founded⟩
  have length : ∀ v ∈ vs, t.length (v.segment dir).path = .ok v.size := by
    intro v member
    obtain ⟨id, file⟩ := shelved.present v member
    rw [← Volume.length_content (steady.rising.fits member)]
    exact shelved.hosts.length_child v.plain_name.1 v.plain_name.2 file
  refine
    { listed := shelved.stocked.list steady.rising
      placed := ?placed
      alone := ⟨_, shelved.hosts.list, fun name node inside => ?alone⟩
      numbered := ?numbered
      terms := ?terms
      sizes := ?sizes
      begun := ?begun
      free := fun term => ?free }
  case placed =>
    intro s member
    obtain ⟨v, -, rfl⟩ := List.mem_map.mp member
    rfl
  case alone =>
    obtain ⟨v, member, rfl⟩ := shelved.nothing name node ((shelved.sound.mem_children_iff name).mp inside)
    exact ⟨v.segment dir, List.mem_map_of_mem (List.mem_reverse.mpr member), rfl⟩
  case numbered =>
    rw [List.map_map, List.length_map, List.length_reverse]
    exact ordered.collections
  case terms => exact List.pairwise_map.mpr steady.rising.terms
  case sizes =>
    intro s member
    obtain ⟨v, stands, rfl⟩ := List.mem_map.mp member
    have stands := List.mem_reverse.mp stands
    exact ⟨v.size, length v stands, packed.size_le stands⟩
  case begun =>
    rw [List.isChain_map]
    refine (packed.begun steady.rising).imp_of_mem_imp ?_
    rintro w v member - (higher | ⟨⟨some_pages, full⟩, whole⟩)
    · exact .inl higher
    · refine .inr ⟨w.pages.length, ?_, some_pages, full⟩
      rw [length w (List.mem_reverse.mp member), Volume.size, whole, List.length_nil, Nat.add_zero]
  case free =>
    have collection := ordered.collection_tail
    have bounded := steady.collection
    have next : UInt64.ofNat ((vs.reverse.map (Volume.segment dir)).length + 1) = vs.tail.collection + 1 := by
      rw [List.length_map, List.length_reverse, ← collection, UInt64.ofNat_add, UInt64.ofNat_toNat]
      rfl
    have plain := Segment.plain_name term (vs.tail.collection + 1)
    have resolved := shelved.hosts.resolve_child plain.1 (Nat.le_of_eq plain.2)
    have absent := (shelved.stocked.next_free steady.rising (by omega) term).resolve_right fun blocked => by
      cases blocked.2
    rw [next, FileTree.locate, Segment.pathIn, resolved]
    exact congrArg Except.ok absent

namespace Session

/-- What an event gives its caller as the position of what it wrote. -/
def answer? (s : Session) : Event → Option Position
  | .write record => if s.log.item.mounted then ((Log.write record).perform s.log).1.toOption else none
  | .startTerm term => if s.log.item.mounted then ((Log.startTerm term).perform s.log).1.toOption else none
  | _ => none

/-- All answers of a run. -/
def answers (s : Session) : List Event → List Position
  | [] => []
  | event :: rest => (s.answer? event).toList ++ answers (s.step event) rest

/-- Whether a log takes what an event brings: records when it is up, and higher terms. -/
def takes (s : Session) : Event → Bool
  | .write _ => s.log.item.mounted
  | .startTerm term => s.log.item.mounted && decide (s.log.item.position.term < term)
  | _ => false

/-- Whether an event cuts a file. -/
def Event.isCrash : Event → Bool
  | .crash _ => true
  | _ => false

/-- The directory of a session holds the volumes of a packed shelf, and a log that is up stands
    at its end. -/
structure Stacked (s : Session) (dir place : Path) (limit : UInt64) (bound : Nat) (vs : Shelf) : Prop where
  sameDir : s.log.item.dir = dir
  sameLimit : s.log.item.tail.limit = limit
  shelved : Shelved s.log.disk dir place vs
  steady : vs.Steady bound
  founded : vs.Founded
  packed : vs.Packed limit
  up : s.log.item.mounted = true → Log.Follows s.log place vs ∧ vs.Whole

/-- What an event does to the shelf: no volume goes, the end does not fall back unless a file is
    cut, and what is taken moves the end on and is answered with it. -/
structure Moves (s : Session) (event : Event) (vs vs' : Shelf) : Prop where
  grows : vs.labels <:+ vs'.labels
  onward : event.isCrash = false → vs.tail ≤ vs'.tail
  answered : s.answer? event = if s.takes event then some vs'.tail else none
  later : s.takes event = true → vs.tail < vs'.tail
  mounts : event = .restart ∨ s.takes event = true → (s.step event).log.item.mounted = true

variable {s : Session} {dir place : Path} {limit : UInt64} {bound : Nat} {vs : Shelf}

theorem Stacked.position (stacked : Stacked s dir place limit bound vs) (up : s.log.item.mounted = true) :
    s.log.item.position = vs.tail := (stacked.up up).1.tail.position

theorem Stacked.mono {bound' : Nat} (stacked : Stacked s dir place limit bound vs) (le : bound ≤ bound')
    (small : bound' < 2 ^ 64) : Stacked s dir place limit bound' vs :=
  { stacked with steady := stacked.steady.mono le small }

theorem Stacked.die (stacked : Stacked s dir place limit bound vs) : Stacked s.die dir place limit bound vs :=
  { stacked with up := by simp [Session.die, Log.fresh] }

/-- Only the log of a session is looked at. -/
private theorem Stacked.of_log (stacked : Stacked s dir place limit bound vs) {s' : Session} (same : s'.log = s.log) :
    Stacked s' dir place limit bound vs := by
  obtain ⟨log, records⟩ := s'
  obtain rfl : log = s.log := same
  exact ⟨stacked.sameDir, stacked.sameLimit, stacked.shelved, stacked.steady, stacked.founded, stacked.packed, stacked.up⟩

/-- A session whose log goes on to another packed shelf. -/
private theorem Stacked.goes (stacked : Stacked s dir place limit bound vs) {s' : Session} {bound' : Nat} {vs' : Shelf}
    (follows : Log.Follows s'.log place vs') (within : Tail.Within place (Log.tailOf s.log) (Log.tailOf s'.log))
    (steady : vs'.Steady bound') (whole : vs'.Whole) (founded : vs'.Founded) (packed : vs'.Packed limit) :
    Stacked s' dir place limit bound' vs' := by
  have sameDir : s'.log.item.dir = dir := within.dir.trans stacked.sameDir
  have shelved : Shelved s'.log.disk s'.log.item.dir place vs' := follows.tail.shelved
  rw [sameDir] at shelved
  exact ⟨sameDir, within.limit.trans stacked.sameLimit, shelved, steady, founded, packed, fun _ => ⟨follows, whole⟩⟩

/-- What is not taken changes nothing. -/
private theorem Moves.nothing {event : Event} (refused : s.takes event = false) (unanswered : s.answer? event = none)
    (other : event ≠ .restart) : Moves s event vs vs :=
  ⟨List.suffix_rfl, fun _ => Position.le_refl _, by rw [unanswered, refused]; rfl, by simp [refused], by simp [refused, other]⟩

theorem Stacked.write (stacked : Stacked s dir place limit bound vs) (up : s.log.item.mounted = true) (record : Bytes)
    (small : bound + (Record.split record).length < 2 ^ 64)
    (countable : Shelf.Countable limit (bound + (Record.split record).length)) :
    ∃ vs', Stacked (s.step (.write record)) dir place limit (bound + (Record.split record).length) vs' ∧
      Moves s (.write record) vs vs' := by
  obtain ⟨follows, whole⟩ := stacked.up up
  have fits := Record.fits_split record
  obtain ⟨m, done, follows', within⟩ := follows.write stacked.steady whole record small
  rw [stacked.sameLimit] at done follows'
  have next : s.step (.write record) = (⟨m, s.records⟩ : Session).keep record := by
    simp only [Session.step, up, ↓reduceIte, after, done]
  have answered : s.answer? (.write record) = some (vs.addPages limit (Record.split record)).tail := by
    simp [answer?, up, done, Except.toOption]
  have on := (stacked.steady.tail_le_addPages whole limit fits small).2 (Record.split_ne_nil record)
  refine ⟨vs.addPages limit (Record.split record), ?_,
    ⟨Shelf.labels_addPages _ _ vs, fun _ => Position.le_of_lt on, by simp [answered, takes, up], fun _ => on,
      fun _ => by rw [next]; exact follows'.mounted⟩⟩
  rw [next]
  exact stacked.goes follows' within (stacked.steady.addPages whole limit fits small).1 (whole.addPages limit _)
    (Shelf.founded_addPages stacked.founded limit _) (stacked.packed.addPages stacked.steady whole fits small countable)

theorem Stacked.startTerm (stacked : Stacked s dir place limit bound vs) (up : s.log.item.mounted = true) (term : UInt64)
    (small : bound + 1 < 2 ^ 64) :
    ∃ vs', Stacked (s.step (.startTerm term)) dir place limit (bound + 1) vs' ∧ Moves s (.startTerm term) vs vs' := by
  obtain ⟨follows, whole⟩ := stacked.up up
  have position := stacked.position up
  by_cases higher : vs.tail.term < term
  · obtain ⟨m, done, follows', within⟩ := follows.startTerm stacked.steady small higher
    have next : s.step (.startTerm term) = ⟨m, s.records⟩ := by simp only [Session.step, up, ↓reduceIte, after, done]
    have answered : s.answer? (.startTerm term) = some (vs.turnOver term).tail := by
      simp [answer?, up, done, Except.toOption]
    have on : vs.tail < (vs.turnOver term).tail := .inl higher
    refine ⟨vs.turnOver term, ?_, ⟨Shelf.labels_turnOver term vs, fun _ => Position.le_of_lt on,
      by simp [answered, takes, up, position, higher], fun _ => on, fun _ => by rw [next]; exact follows'.mounted⟩⟩
    rw [next]
    refine stacked.goes follows' within (stacked.steady.turnOver whole (UInt64.le_of_lt higher) small) (whole.turnOver term)
      (Shelf.founded_turnOver stacked.founded term) (stacked.packed.turnOver fun w newest => .inl ?_)
    cases vs with
    | nil => simp at newest
    | cons v older =>
      obtain rfl : v = w := by simpa using newest
      exact higher
  · obtain ⟨e, refused⟩ := Log.startTerm_low (m := s.log) (by rw [position]; exact UInt64.not_lt.mp higher)
    have next : s.step (.startTerm term) = s := by simp only [Session.step, up, ↓reduceIte, after, refused]
    have unanswered : s.answer? (.startTerm term) = none := by simp [answer?, up, refused, Except.toOption]
    refine ⟨vs, by rw [next]; exact stacked.mono (Nat.le_succ _) small, .nothing ?_ unanswered (by simp)⟩
    simpa [takes, position] using fun _ => UInt64.not_lt.mp higher

theorem Stacked.restart (stacked : Stacked s dir place limit bound vs) (small : bound + 1 < 2 ^ 64)
    (countable : Shelf.Countable limit bound) :
    ∃ vs', Stacked (s.step .restart) dir place limit (bound + 1) vs' ∧ Moves s .restart vs vs' := by
  have dead := stacked.die
  have shelved : Shelved s.die.log.disk s.die.log.item.dir place vs := by
    rw [dead.sameDir]
    exact dead.shelved
  obtain ⟨m, done, follows, within, -⟩ := Log.perform_mount shelved stacked.steady small
  rw [dead.sameLimit] at done follows
  obtain ⟨steady, whole, -⟩ := stacked.steady.mend limit small
  have next : s.step .restart = ⟨m, s.records⟩ := by rw [Session.step, after, done]; rfl
  have founded : (vs.mend limit).Founded := by rw [Shelf.Founded, Shelf.bottom?_mend]; exact stacked.founded
  refine ⟨vs.mend limit, ?_, ⟨Shelf.labels_mend limit vs, fun _ => stacked.steady.tail_le_mend limit small, rfl,
    by simp [takes], fun _ => by rw [next]; exact follows.mounted⟩⟩
  rw [next]
  exact dead.goes follows within steady whole founded (stacked.packed.mend stacked.steady countable)

theorem Stacked.interrupt (stacked : Stacked s dir place limit bound vs) (up : s.log.item.mounted = true) (record : Bytes)
    (pages : Nat) (small : bound + (Record.split record).length < 2 ^ 64)
    (countable : Shelf.Countable limit (bound + (Record.split record).length)) :
    ∃ vs', Stacked (s.step (.interrupt record pages)) dir place limit (bound + (Record.split record).length) vs' ∧
      Moves s (.interrupt record pages) vs vs' := by
  obtain ⟨follows, whole⟩ := stacked.up up
  obtain ⟨part, taken⟩ : ∃ part, (Record.split record).take pages = part := ⟨_, rfl⟩
  have fits : ∀ page ∈ part, Page.Fits page :=
    fun page member => Record.fits_split record page (List.mem_of_mem_take (taken ▸ member))
  have fewer : part.length ≤ (Record.split record).length := taken ▸ List.length_take_le' ..
  obtain ⟨m, done, follows', within⟩ := follows.tail.appendPages stacked.steady whole fits (by omega)
  rw [show (Log.tailOf s.log).item.limit = limit from stacked.sameLimit] at follows'
  have next : (s.step (.interrupt record pages)).log = (⟨⟨m.disk, { s.log.item with tail := m.item }⟩, []⟩ : Session).die.log := by
    simp only [Session.step, up, ↓reduceIte, writePart, after, taken, Log.perform_onTail_of done]
    split <;> rfl
  have gone : Stacked (⟨⟨m.disk, { s.log.item with tail := m.item }⟩, []⟩ : Session) dir place limit (bound + part.length)
      (vs.addPages limit part) :=
    stacked.goes ⟨follows.mounted, follows'⟩ within (stacked.steady.addPages whole limit fits (by omega)).1
      (whole.addPages limit part) (Shelf.founded_addPages stacked.founded limit part)
      (stacked.packed.addPages stacked.steady whole fits (by omega) (countable.mono (by omega)))
  have dead := gone.die.mono (show bound + part.length ≤ bound + (Record.split record).length by omega) small
  exact ⟨vs.addPages limit part, dead.of_log next, ⟨Shelf.labels_addPages limit part vs,
    fun _ => (stacked.steady.tail_le_addPages whole limit fits (by omega)).1, rfl, by simp [takes], by simp [takes]⟩⟩

theorem Stacked.crash (stacked : Stacked s dir place limit bound vs) (length : Nat) :
    ∃ vs', Stacked (s.step (.crash length)) dir place limit bound vs' ∧ Moves s (.crash length) vs vs' := by
  obtain ⟨count, torn, -, short, shelved, -, -, shorter, -⟩ := stacked.shelved.cutNewest stacked.steady length
  have steady := stacked.steady.cut count torn short
  have smaller : ∀ v ∈ vs.head?, (v.cut count torn).size ≤ v.size := by
    intro v newest
    have fits := stacked.steady.rising.fits (List.mem_of_mem_head? newest)
    have less := shorter v newest
    rwa [Volume.length_content fits, Volume.length_content fun page left => fits page (List.mem_of_mem_take left)] at less
  refine ⟨vs.cut count torn, ⟨stacked.sameDir, stacked.sameLimit, ?_, steady, ?_, stacked.packed.cut smaller, ?_⟩, ?_⟩
  · rw [← stacked.sameDir] at shelved ⊢
    exact shelved
  · rw [Shelf.Founded, Shelf.bottom?_cut]
    exact stacked.founded
  · simp [Session.step, Session.die, Log.fresh]
  · exact ⟨by rw [Shelf.labels_cut], by simp [Event.isCrash], rfl, by simp [takes], by simp [takes]⟩

/-- Every event leaves a packed shelf, and moves as it should. -/
theorem Stacked.step (stacked : Stacked s dir place limit bound vs) (event : Event)
    (small : bound + event.cost < 2 ^ 64) (countable : Shelf.Countable limit (bound + event.cost)) :
    ∃ vs', Stacked (s.step event) dir place limit (bound + event.cost) vs' ∧ Moves s event vs vs' := by
  have stays : Stacked s dir place limit (bound + event.cost) vs := stacked.mono (Nat.le_add_right _ _) small
  by_cases up : s.log.item.mounted = true
  · cases event with
    | write record => exact stacked.write up record small countable
    | startTerm term => exact stacked.startTerm up term small
    | restart => exact stacked.restart small (countable.mono (Nat.le_add_right _ _))
    | interrupt record pages => exact stacked.interrupt up record pages small countable
    | crash length => exact stacked.crash length
  · cases event with
    | write record =>
      exact ⟨vs, by simpa [Session.step, up] using stays, .nothing (by simp [takes, up]) (by simp [answer?, up]) (by simp)⟩
    | startTerm term =>
      exact ⟨vs, by simpa [Session.step, up] using stays, .nothing (by simp [takes, up]) (by simp [answer?, up]) (by simp)⟩
    | restart => exact stacked.restart small (countable.mono (Nat.le_add_right _ _))
    | interrupt record pages =>
      exact ⟨vs, by simpa [Session.step, up] using stays, .nothing rfl rfl (by simp)⟩
    | crash length => exact stacked.crash length

/-- Every run leaves a packed shelf that has lost no volume. Where no file is cut, the positions
    given out rise from the end of the shelf before to the end of the shelf after. -/
theorem Stacked.run (stacked : Stacked s dir place limit bound vs) (events : List Event)
    (small : bound + cost events < 2 ^ 64) (countable : Shelf.Countable limit (bound + cost events)) :
    ∃ vs', Stacked (s.run events) dir place limit (bound + cost events) vs' ∧ vs.labels <:+ vs'.labels ∧
      ((∀ event ∈ events, event.isCrash = false) →
        vs.tail ≤ vs'.tail ∧ (∀ p ∈ answers s events, vs.tail < p ∧ p ≤ vs'.tail) ∧
          (answers s events).Pairwise (· < ·)) := by
  induction events generalizing s bound vs with
  | nil => exact ⟨vs, stacked, List.suffix_rfl, fun _ => ⟨Position.le_refl _, by simp [answers], .nil⟩⟩
  | cons event rest ih =>
    simp only [cost, List.map_cons, List.sum_cons] at small countable ⊢
    rw [← Nat.add_assoc] at small countable ⊢
    obtain ⟨vs', stacked', moves⟩ := stacked.step event (by omega) (countable.mono (Nat.le_add_right _ _))
    obtain ⟨vs'', ends, grows, rises⟩ := ih stacked' small countable
    refine ⟨vs'', ends, moves.grows.trans grows, fun uncut => ?_⟩
    obtain ⟨onward, between, ascending⟩ := rises fun later member => uncut later (List.mem_cons_of_mem _ member)
    have first := moves.onward (uncut event List.mem_cons_self)
    have here : ∀ p ∈ (s.answer? event).toList, vs.tail < p ∧ p = vs'.tail := by
      intro p given
      rw [moves.answered] at given
      by_cases taken : s.takes event = true
      · obtain rfl : p = vs'.tail := by simpa [taken] using given
        exact ⟨moves.later taken, rfl⟩
      · simp [taken] at given
    refine ⟨Position.le_trans first onward, fun p given => ?_, ?_⟩
    · rcases List.mem_append.mp given with now | later
      · obtain ⟨above, rfl⟩ := here p now
        exact ⟨above, onward⟩
      · obtain ⟨above, below⟩ := between p later
        exact ⟨Position.lt_of_le_of_lt first above, below⟩
    · rw [answers, List.pairwise_append]
      refine ⟨?_, ascending, fun p now q later => ?_⟩
      · cases s.answer? event <;> simp
      · obtain ⟨-, rfl⟩ := here p now
        exact (between q later).1

/-! ## Runs from an empty directory -/

theorem stacked_begin {t : FileTree} (sound : t.Sound) (hosts : t.Hosts dir place Segment.nameWidth)
    (empty : t.children place = []) (limit : UInt64) : Stacked (begin t dir limit) dir place limit 0 [] :=
  ⟨rfl, rfl, .nil sound hosts empty, .nil (by decide), by simp [Shelf.Founded, Shelf.bottom?], trivial,
    by simp [begin, Log.fresh]⟩

theorem run_append (s : Session) (earlier later : List Event) : s.run (earlier ++ later) = (s.run earlier).run later :=
  List.foldl_append ..

theorem cost_append (earlier later : List Event) : cost (earlier ++ later) = cost earlier + cost later := by
  simp [cost]

theorem Stacked.series (stacked : Stacked s dir place limit bound vs) (small : bound + 1 < 2 ^ 64) :
    Segment.Series s.log.disk dir limit (vs.reverse.map (Volume.segment dir)) :=
  stacked.shelved.series stacked.steady stacked.founded stacked.packed small

/-- A log that is up stands at the end of the newest file. -/
theorem Stacked.ends (stacked : Stacked s dir place limit bound vs) (up : s.log.item.mounted = true) :
    endOfNewest? s.log.disk dir = some s.log.item.position := by
  rw [stacked.position up]
  exact stacked.shelved.endOfNewest stacked.steady.rising (stacked.up up).2

/-- Volumes put on top of a shelf are files put behind those of the directory, where no file was. -/
theorem Stacked.fresh (stacked : Stacked s dir place limit bound vs) {vs' : Shelf} {bound' : Nat}
    (steady : vs'.Steady bound') (grows : vs.labels <:+ vs'.labels) :
    ∃ fresh, vs'.reverse.map (Volume.segment dir) = vs.reverse.map (Volume.segment dir) ++ fresh ∧
      ∀ new ∈ fresh, s.log.disk.locate new.path = .ok none := by
  obtain ⟨above, same⟩ := grows
  obtain ⟨newer, below, rfl, aboveLabels, belowLabels⟩ := List.map_eq_append_iff.mp same.symm
  have segments : ∀ us : Shelf, us.map (Volume.segment dir) = us.labels.map fun l => ⟨l.1, l.2, Segment.pathIn dir l.1 l.2⟩ := by
    intro us
    simp only [Shelf.labels, List.map_map]
    rfl
  refine ⟨newer.reverse.map (Volume.segment dir), ?_, fun new member => ?_⟩
  · rw [List.reverse_append, List.map_append]
    congr 1
    rw [List.map_reverse, List.map_reverse, segments, segments]
    exact congrArg _ (congrArg _ belowLabels)
  · obtain ⟨v, stands, rfl⟩ := List.mem_map.mp member
    have plain := v.plain_name
    have absent : s.log.disk.find? (place ++ [v.name]) = none := by
      cases lies : s.log.disk.find? (place ++ [v.name]) with
      | none => rfl
      | some node =>
        -- A file of that name would be an old volume, and those are of lower collections.
        obtain ⟨u, old, named⟩ := stacked.shelved.nothing v.name node lies
        have label : (u.term, u.collection) ∈ vs.labels := List.mem_map_of_mem old
        rw [← belowLabels] at label
        obtain ⟨w, under, spelt⟩ := List.mem_map.mp label
        obtain ⟨between, lower, rfl⟩ := List.append_of_mem under
        have rising := steady.rising
        rw [← List.append_assoc] at rising
        have less := (rising.above (List.mem_append_left between (List.mem_reverse.mp stands))).2
        have collection : w.collection = v.collection := (Prod.mk.inj spelt).2.trans (Segment.name_inj named).2
        rw [collection] at less
        exact absurd less (UInt64.lt_irrefl _)
    have resolved := stacked.shelved.hosts.resolve_child plain.1 plain.2
    rw [FileTree.locate, show (v.segment dir).path = dir.child v.name from rfl, resolved]
    exact congrArg Except.ok absent

/-- What every step of a run shows: a log that is up stands at the end of the newest file, a
    restart takes it up, and what it takes is answered with the end after it. -/
structure Proceeds (s : Session) (event : Event) (dir : Path) : Prop where
  ends : (s.step event).log.item.mounted = true →
    endOfNewest? (s.step event).log.disk dir = some (s.step event).log.item.position
  restarts : event = .restart → (s.step event).log.item.mounted = true
  answered : s.answer? event = if s.takes event then some (s.step event).log.item.position else none

theorem Stacked.proceeds (stacked : Stacked s dir place limit bound vs) (event : Event)
    (small : bound + event.cost < 2 ^ 64) (countable : Shelf.Countable limit (bound + event.cost)) :
    Proceeds s event dir := by
  obtain ⟨vs', stacked', moves⟩ := stacked.step event small countable
  refine ⟨stacked'.ends, fun restart => moves.mounts (.inl restart), ?_⟩
  rw [moves.answered]
  by_cases taken : s.takes event = true
  · rw [if_pos taken, if_pos taken, stacked'.position (moves.mounts (.inr taken))]
  · rw [if_neg taken, if_neg taken]

/-- Through any run of writes, terms, restarts and crashes from an empty directory, as long as
    pages, files and sizes can be counted, the segment files stand in a series that only grows,
    by files that were not there before. Every step proceeds from its end; and where no file is
    cut, the positions given out rise along the whole run. -/
theorem run_in_order {t : FileTree} (sound : t.Sound) (hosts : t.Hosts dir place Segment.nameWidth)
    (empty : t.children place = []) (limit : UInt64) (events : List Event) (small : cost events + 1 < 2 ^ 64)
    (countable : Shelf.Countable limit (cost events)) :
    (∀ earlier later, events = earlier ++ later → ∃ segments fresh,
      Segment.Series ((begin t dir limit).run earlier).log.disk dir limit segments ∧
        Segment.Series ((begin t dir limit).run events).log.disk dir limit (segments ++ fresh) ∧
        ∀ new ∈ fresh, ((begin t dir limit).run earlier).log.disk.locate new.path = .ok none) ∧
      (∀ earlier event later, events = earlier ++ event :: later → Proceeds ((begin t dir limit).run earlier) event dir) ∧
      ((∀ event ∈ events, event.isCrash = false) → (answers (begin t dir limit) events).Pairwise (· < ·)) := by
  have start := stacked_begin sound hosts empty limit
  refine ⟨?_, ?_, fun uncut => ?_⟩
  · rintro earlier later rfl
    rw [cost_append] at small countable
    obtain ⟨vs, now, -⟩ := start.run earlier (by omega) (countable.mono (by omega))
    obtain ⟨vs', after, grows, -⟩ := now.run later (by omega) (countable.mono (by omega))
    rw [← run_append] at after
    obtain ⟨fresh, segments, new⟩ := now.fresh after.steady grows
    refine ⟨_, fresh, now.series (by omega), ?_, new⟩
    rw [← segments]
    exact after.series (by omega)
  · rintro earlier event later rfl
    have next : cost (event :: later) = event.cost + cost later := by simp [cost]
    rw [cost_append, next] at small countable
    obtain ⟨vs, now, -⟩ := start.run earlier (by omega) (countable.mono (by omega))
    exact now.proceeds event (by omega) (countable.mono (by omega))
  · obtain ⟨vs, -, -, rises⟩ := start.run events (by omega) (countable.mono (by omega))
    exact (rises uncut).2.2

/-- A page to a file, a new term, and a restart. -/
theorem run_in_order_with_rotations : FileTree.empty.Sound ∧ FileTree.empty.Hosts [""] [] Segment.nameWidth ∧
    FileTree.empty.children [] = [] ∧ cost [.restart, .write [7], .write [8], .startTerm 3, .restart, .write [9]] + 1 < 2 ^ 64 ∧
    Shelf.Countable 100 (cost [.restart, .write [7], .write [8], .startTerm 3, .restart, .write [9]]) ∧
    (answers (begin FileTree.empty [""] 100)
      [.restart, .write [7], .write [8], .startTerm 3, .restart, .write [9]]).Pairwise (· < ·) := by
  have hosts : FileTree.empty.Hosts [""] [] Segment.nameWidth := ⟨rfl, rfl, by decide⟩
  have countable : Shelf.Countable 100 (cost [.restart, .write [7], .write [8], .startTerm 3, .restart, .write [9]]) := by
    unfold Shelf.Countable
    decide
  refine ⟨.empty, hosts, rfl, by decide, countable, ?_⟩
  refine (run_in_order .empty hosts rfl 100 [.restart, .write [7], .write [8], .startTerm 3, .restart, .write [9]]
    (by decide) countable).2.2 ?_
  simp [Event.isCrash]

end Session
end Shiplog
