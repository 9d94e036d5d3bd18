import Shiplog.Log.Tail
import Shiplog.Proofs.Orders
import Shiplog.Proofs.Words

/-!
A log as a shelf of volumes: its segments by the pages they hold, the newest first.
A page goes to the newest volume or to a new one (`addPage`), and what stands on the
shelf reads as one word of pages. The invariants of a shelf (`Ordered`, `Bounded`,
`Tidy`, `Marks`) are kept by every page, by a new term and by a cut of the newest
volume.
-/
namespace Shiplog

/-- A segment by what it holds. -/
structure Volume where
  term : UInt64
  collection : UInt64
  pages : List (Page.Kind × Bytes)
  /-- The bytes of a page cut short at the end. -/
  torn : Bytes

namespace Volume

def tail (v : Volume) : Position := ⟨v.term, v.collection, UInt64.ofNat v.pages.length⟩

/-- The pages after the first `count` with the positions after them. -/
def sheetsFrom (term collection : UInt64) : Nat → List (Page.Kind × Bytes) → List Sheet
  | _, [] => []
  | count, page :: rest =>
    (⟨term, collection, UInt64.ofNat (count + 1)⟩, page) :: sheetsFrom term collection (count + 1) rest

/-- The pages with the positions after them. -/
def sheets (v : Volume) : List Sheet := sheetsFrom v.term v.collection 0 v.pages

def addPage (page : Page.Kind × Bytes) (v : Volume) : Volume := { v with pages := v.pages ++ [page] }

/-- What a cut leaves of a volume: some of its pages and a few bytes of the next. -/
def cut (count : Nat) (torn : Bytes) (v : Volume) : Volume := { v with pages := v.pages.take count, torn }

theorem sheetsFrom_append (term collection : UInt64) (count : Nat) (pages more : List (Page.Kind × Bytes)) :
    sheetsFrom term collection count (pages ++ more) =
      sheetsFrom term collection count pages ++ sheetsFrom term collection (count + pages.length) more := by
  induction pages generalizing count with
  | nil => rfl
  | cons page rest ih =>
    simp only [List.cons_append, sheetsFrom, ih, List.length_cons]
    rw [Nat.add_assoc, Nat.add_comm 1]

@[simp] theorem sheets_addPage (page : Page.Kind × Bytes) (v : Volume) :
    (v.addPage page).sheets = v.sheets ++ [((v.addPage page).tail, page)] := by
  simp [sheets, addPage, sheetsFrom_append, sheetsFrom, tail]

/-- A page moves the end of its volume on. -/
theorem seq_lt_addPage (page : Page.Kind × Bytes) {v : Volume} (few : v.pages.length + 1 < 2 ^ 64) :
    v.tail.seq < (v.addPage page).tail.seq := by
  simp only [tail, addPage, List.length_append, List.length_singleton]
  rw [UInt64.lt_iff_toNat_lt, UInt64.toNat_ofNat', UInt64.toNat_ofNat', Nat.mod_eq_of_lt (by omega),
    Nat.mod_eq_of_lt (by omega)]
  omega

theorem mem_sheetsFrom {term collection : UInt64} {count : Nat} {pages : List (Page.Kind × Bytes)} {s : Sheet}
    (member : s ∈ sheetsFrom term collection count pages) : s.1.term = term ∧ s.1.collection = collection ∧
      ∃ n, s.1.seq = UInt64.ofNat n ∧ count < n ∧ n ≤ count + pages.length := by
  induction pages generalizing count with
  | nil => simp [sheetsFrom] at member
  | cons page rest ih =>
    rcases List.mem_cons.mp member with same | later
    · subst same
      exact ⟨rfl, rfl, count + 1, rfl, by omega, by simp⟩
    · obtain ⟨term', collection', n, seq, low, high⟩ := ih later
      exact ⟨term', collection', n, seq, by omega, by simp; omega⟩

theorem sheetsFrom_sorted {term collection : UInt64} {count : Nat} {pages : List (Page.Kind × Bytes)}
    (small : count + pages.length < 2 ^ 64) : (sheetsFrom term collection count pages).Pairwise (·.1 < ·.1) := by
  induction pages generalizing count with
  | nil => simp [sheetsFrom]
  | cons page rest ih =>
    rw [List.length_cons] at small
    rw [sheetsFrom, List.pairwise_cons]
    refine ⟨?_, ih (by omega)⟩
    intro s member
    obtain ⟨term', collection', n, seq, low, high⟩ := mem_sheetsFrom member
    refine .inr ⟨term'.symm, .inr ⟨collection'.symm, ?_⟩⟩
    rw [UInt64.lt_iff_toNat_lt, seq, UInt64.toNat_ofNat', UInt64.toNat_ofNat', Nat.mod_eq_of_lt (by omega),
      Nat.mod_eq_of_lt (by omega)]
    omega

end Volume

/-- The segments of a log by what they hold, the newest first. -/
abbrev Shelf := List Volume

namespace Shelf

def tail : Shelf → Position
  | [] => .start
  | v :: _ => v.tail

/-- All pages, the oldest first, with the positions after them. -/
def sheets (vs : Shelf) : List Sheet := vs.reverse.flatMap Volume.sheets

def turnOver (term : UInt64) (vs : Shelf) : Shelf := ⟨term, (tail vs).collection + 1, [], []⟩ :: vs

/-- Whether one more page would outgrow the newest volume. -/
def isFull (limit : UInt64) (vs : Shelf) : Bool :=
  decide (0 < (tail vs).seq) && decide (limit < ((tail vs).seq + 1) * UInt64.ofNat Page.size)

/-- The shelf with room for a page in its newest volume. -/
def makeRoom (limit : UInt64) (vs : Shelf) : Shelf :=
  if vs = [] ∨ vs.isFull limit then turnOver (tail vs).term vs else vs

/-- The shelf with a page in its newest volume. -/
def put (page : Page.Kind × Bytes) : Shelf → Shelf
  | [] => []
  | v :: older => v.addPage page :: older

def addPage (limit : UInt64) (page : Page.Kind × Bytes) (vs : Shelf) : Shelf := put page (vs.makeRoom limit)

def addPages (limit : UInt64) (pages : List (Page.Kind × Bytes)) (vs : Shelf) : Shelf :=
  pages.foldl (fun vs page => vs.addPage limit page) vs

def cut (count : Nat) (torn : Bytes) : Shelf → Shelf
  | [] => []
  | v :: older => v.cut count torn :: older

/-! ## The invariants -/

/-- Collections count up from 1, terms do not fall, pages fit, and only the newest
    volume may end in a page cut short. -/
def Ordered : Shelf → Prop
  | [] => True
  | v :: older => (v.collection.toNat = older.length + 1 ∧ (tail older).term ≤ v.term ∧
      (∀ page ∈ v.pages, Page.Fits page) ∧ v.torn.length < Page.size ∧ ∀ u ∈ older, u.torn = []) ∧ Ordered older

/-- How a volume stands on the older ones: it is the next collection, in no lower term, its
    pages fit, and only it may end in a page cut short. -/
structure Tops (v : Volume) (older : Shelf) : Prop where
  term_pos : 1 ≤ v.term
  collection_pos : 1 ≤ v.collection.toNat
  next : ∀ w ∈ older.head?, w.term ≤ v.term ∧ v.collection.toNat = w.collection.toNat + 1
  fits : ∀ page ∈ v.pages, Page.Fits page
  short : v.torn.length < Page.size
  clean : ∀ u ∈ older, u.torn = []

/-- Volumes in order, of which the oldest ones may be missing. -/
def Rising : Shelf → Prop
  | [] => True
  | v :: older => Tops v older ∧ Rising older

/-- The term and the collection of the oldest volume. -/
def bottom? (vs : Shelf) : Option (UInt64 × UInt64) := vs.getLast?.map fun v => (v.term, v.collection)

/-- No volume is missing at the bottom. -/
def Founded (vs : Shelf) : Prop := ∀ b ∈ vs.bottom?, b.2.toNat = 1

/-- No more than `bound` volumes of no more than `bound` pages, and `bound` is a number
    that the counters of a position can hold. -/
structure Bounded (bound : Nat) (vs : Shelf) : Prop where
  volumes : vs.length ≤ bound
  pages : ∀ v ∈ vs, v.pages.length ≤ bound
  small : bound < 2 ^ 64

/-- Volumes in order whose collections and pages the counters of a position can hold. -/
structure Steady (bound : Nat) (vs : Shelf) : Prop where
  rising : vs.Rising
  collection : (tail vs).collection.toNat ≤ bound
  pages : ∀ v ∈ vs, v.pages.length ≤ bound
  small : bound < 2 ^ 64

/-- A volume on top of a record that is still open goes on from a volume with pages. -/
def Tidy : Shelf → Prop
  | [] => True
  | _ :: older => (∀ spans o, Word.read none (sheets older) = some (spans, some o) →
      ∃ w ∈ older.head?, w.pages ≠ []) ∧ Tidy older

/-- The same for a shelf that sets in where a record may be open; of the volume before the
    first nothing is known. -/
def TidyAfter (opened : Option Opened) : Shelf → Prop
  | [] => True
  | _ :: older => (∀ w ∈ older.head?, ∀ spans o, Word.read opened (sheets older) = some (spans, some o) → w.pages ≠ []) ∧
      TidyAfter opened older

/-- A position that the log has given out: it lies in a volume, or before all, and every
    record that ends after it begins in that volume or later. -/
def Marks (vs : Shelf) (spans : List Span) (p : Position) : Prop :=
  (p = .start ∨ ∃ v ∈ vs, v.term = p.term ∧ v.collection = p.collection) ∧
    ∀ span ∈ spans, p < span.last → p.collection ≤ span.first.collection

variable {vs older newer : Shelf} {u v : Volume} {bound : Nat} {limit : UInt64} {page : Page.Kind × Bytes}

@[simp] theorem sheets_nil : sheets [] = [] := rfl

@[simp] theorem sheets_cons (v : Volume) (older : Shelf) : sheets (v :: older) = sheets older ++ v.sheets := by
  simp [sheets]

theorem sheets_append (newer older : Shelf) : sheets (newer ++ older) = sheets older ++ sheets newer := by
  simp [sheets]

@[simp] theorem sheets_turnOver (term : UInt64) (vs : Shelf) : sheets (turnOver term vs) = sheets vs := by
  simp [turnOver, Volume.sheets, Volume.sheetsFrom]

theorem mem_sheets {s : Sheet} (member : s ∈ sheets vs) : ∃ v ∈ vs, s.1.term = v.term ∧
    s.1.collection = v.collection ∧ ∃ n, s.1.seq = UInt64.ofNat n ∧ 0 < n ∧ n ≤ v.pages.length := by
  simp only [sheets, List.mem_flatMap, List.mem_reverse] at member
  obtain ⟨v, stands, inside⟩ := member
  obtain ⟨term, collection, n, seq, low, high⟩ := Volume.mem_sheetsFrom inside
  exact ⟨v, stands, term, collection, n, seq, low, by omega⟩

/-! ## Volumes in order -/

theorem Rising.drop (rising : Rising (newer ++ older)) : Rising older := by
  induction newer with
  | nil => exact rising
  | cons _ rest ih => exact ih rising.2

/-- The newest volumes are in order without the oldest ones. -/
theorem Rising.front (rising : Rising (newer ++ older)) : Rising newer := by
  induction newer with
  | nil => trivial
  | cons v rest ih =>
    obtain ⟨tops, below⟩ := rising
    refine ⟨⟨tops.term_pos, tops.collection_pos, fun w first => ?_, tops.fits, tops.short, fun u member => ?_⟩, ih below⟩
    · refine tops.next w ?_
      cases rest with
      | nil => simp at first
      | cons x rest => exact first
    · exact tops.clean u (List.mem_append_left _ member)

theorem Rising.tops (rising : vs.Rising) (member : v ∈ vs) : ∃ older, Tops v older := by
  obtain ⟨newer, older, rfl⟩ := List.append_of_mem member
  exact ⟨older, rising.drop.1⟩

theorem Rising.fits (rising : vs.Rising) (member : v ∈ vs) : ∀ page ∈ v.pages, Page.Fits page := by
  obtain ⟨_, tops⟩ := rising.tops member
  exact tops.fits

theorem Rising.torn_short (rising : vs.Rising) (member : v ∈ vs) : v.torn.length < Page.size := by
  obtain ⟨_, tops⟩ := rising.tops member
  exact tops.short

theorem Rising.term_pos (rising : vs.Rising) : 1 ≤ (tail vs).term := by
  cases vs with
  | nil => decide
  | cons v older => exact rising.1.term_pos

/-- A volume below another is of an earlier collection and no higher term. -/
theorem Rising.below (rising : Rising (v :: older)) (member : u ∈ older) :
    u.term ≤ v.term ∧ u.collection < v.collection := by
  induction older generalizing v with
  | nil => simp at member
  | cons w rest ih =>
    obtain ⟨term, collection⟩ := rising.1.next w rfl
    have next : w.collection < v.collection := by
      rw [UInt64.lt_iff_toNat_lt, collection]
      omega
    rcases List.mem_cons.mp member with rfl | below
    · exact ⟨term, next⟩
    · obtain ⟨term', collection'⟩ := ih rising.2 below
      exact ⟨UInt64.le_trans term' term, UInt64.lt_trans collection' next⟩

theorem Rising.above (rising : Rising (newer ++ v :: older)) (member : u ∈ newer) :
    v.term ≤ u.term ∧ v.collection < u.collection := by
  obtain ⟨before, after, rfl⟩ := List.append_of_mem member
  rw [List.append_assoc, List.cons_append] at rising
  exact rising.drop.below (List.mem_append_right after List.mem_cons_self)

theorem Rising.le_tail (rising : vs.Rising) (member : u ∈ vs) :
    u.term ≤ (tail vs).term ∧ u.collection ≤ (tail vs).collection := by
  cases vs with
  | nil => simp at member
  | cons v older =>
    rcases List.mem_cons.mp member with rfl | below
    · exact ⟨UInt64.le_refl _, UInt64.le_refl _⟩
    · obtain ⟨term, collection⟩ := rising.below below
      exact ⟨term, UInt64.le_of_lt collection⟩

/-- Volumes are told apart by their collections. -/
theorem Rising.nodup (rising : vs.Rising) : (vs.map Volume.collection).Nodup := by
  induction vs with
  | nil => simp
  | cons v older ih =>
    rw [List.map_cons, List.nodup_cons]
    refine ⟨fun again => ?_, ih rising.2⟩
    obtain ⟨u, member, same⟩ := List.mem_map.mp again
    have less := (rising.below member).2
    rw [same] at less
    exact UInt64.lt_irrefl _ less

/-- A volume below another comes before it in the order of positions. -/
theorem Rising.lt_of_below (rising : Rising (v :: older)) {s p : Position} (member : u ∈ older)
    (sTerm : s.term = u.term) (sCollection : s.collection = u.collection) (pTerm : p.term = v.term)
    (pCollection : p.collection = v.collection) : s < p := by
  obtain ⟨terms, less⟩ := rising.below member
  rw [← sTerm, ← pTerm] at terms
  rw [← sCollection, ← pCollection] at less
  rcases UInt64.lt_or_eq_of_le terms with lower | same
  · exact .inl lower
  · exact .inr ⟨same, .inl less⟩

/-- Pages stand in ascending order of their positions. -/
theorem Rising.sheets_sorted (rising : vs.Rising) (small : ∀ v ∈ vs, v.pages.length < 2 ^ 64) :
    (sheets vs).Pairwise (·.1 < ·.1) := by
  induction vs with
  | nil => simp
  | cons v older ih =>
    rw [sheets_cons, List.pairwise_append]
    have few := small v List.mem_cons_self
    refine ⟨ih rising.2 fun u member => small u (List.mem_cons_of_mem _ member), Volume.sheetsFrom_sorted (by omega), ?_⟩
    intro s below s' above
    obtain ⟨u, member, term, collection, -⟩ := mem_sheets below
    obtain ⟨term', collection', -⟩ := Volume.mem_sheetsFrom above
    exact rising.lt_of_below member term collection term' collection'

/-- Pages lie at or before the end. -/
theorem Rising.sheet_le_tail (rising : vs.Rising) (small : ∀ v ∈ vs, v.pages.length < 2 ^ 64) {s : Sheet}
    (member : s ∈ sheets vs) : s.1 ≤ tail vs := by
  obtain ⟨u, stands, term, collection, n, seq, pos, le⟩ := mem_sheets member
  cases vs with
  | nil => simp at stands
  | cons v older =>
    rcases List.mem_cons.mp stands with same | below
    · subst same
      have few := small u List.mem_cons_self
      rcases Nat.lt_or_eq_of_le le with less | same
      · refine .inl (.inr ⟨term, .inr ⟨collection, ?_⟩⟩)
        rw [UInt64.lt_iff_toNat_lt, seq, UInt64.toNat_ofNat', Nat.mod_eq_of_lt (by omega)]
        simp only [tail, Volume.tail, UInt64.toNat_ofNat', Nat.mod_eq_of_lt few]
        exact less
      · right
        obtain ⟨⟨t, c, q⟩, _⟩ := s
        simp only at term collection seq
        simp [tail, Volume.tail, term, collection, seq, same]
    · exact .inl (rising.lt_of_below below term collection rfl rfl)

/-- Collections follow one another without a gap. -/
theorem Rising.gapless (rising : vs.Rising) (member : u ∈ vs) {c : UInt64} (from_ : u.collection ≤ c)
    (upTo : c ≤ (tail vs).collection) : ∃ w ∈ vs, w.collection = c := by
  induction vs with
  | nil => simp at member
  | cons v older ih =>
    rcases UInt64.lt_or_eq_of_le upTo with less | same
    · rcases List.mem_cons.mp member with rfl | below
      · exact absurd less (UInt64.not_lt.mpr from_)
      · have inside : c ≤ (tail older).collection := by
          cases older with
          | nil => simp at below
          | cons w rest =>
            have next : v.collection.toNat = w.collection.toNat + 1 := (rising.1.next w rfl).2
            have less : c.toNat < v.collection.toNat := UInt64.lt_iff_toNat_lt.mp less
            rw [UInt64.le_iff_toNat_le]
            change c.toNat ≤ w.collection.toNat
            omega
        obtain ⟨w, stands, same⟩ := ih rising.2 below inside
        exact ⟨w, List.mem_cons_of_mem _ stands, same⟩
    · exact ⟨v, List.mem_cons_self, same.symm⟩

/-- A shelf in order that goes back to the first collection. -/
theorem ordered_iff : Ordered vs ↔ Rising vs ∧ Founded vs := by
  induction vs with
  | nil => simp [Ordered, Rising, Founded, bottom?]
  | cons v older ih =>
    have one : Position.start.term = 1 := rfl
    cases older with
    | nil =>
      constructor
      · rintro ⟨⟨collection, term, fits, short, clean⟩, -⟩
        exact ⟨⟨⟨term, by rw [collection]; exact Nat.le_refl 1, by simp, fits, short, clean⟩, trivial⟩,
          by simpa [Founded, bottom?] using collection⟩
      · rintro ⟨⟨tops, -⟩, founded⟩
        exact ⟨⟨founded (v.term, v.collection) rfl, tops.term_pos, tops.fits, tops.short, tops.clean⟩, trivial⟩
    | cons w rest =>
      constructor
      · rintro ⟨⟨collection, term, fits, short, clean⟩, below⟩
        obtain ⟨rising, founded⟩ := ih.mp below
        have under : w.collection.toNat = rest.length + 1 := below.1.1
        refine ⟨⟨⟨UInt64.le_trans rising.term_pos term, by omega, fun x first => ?_, fits, short, clean⟩, rising⟩, ?_⟩
        · simp only [List.head?_cons, Option.mem_def, Option.some.injEq] at first
          subst first
          exact ⟨term, by rw [collection, under, List.length_cons]⟩
        · simpa [Founded, bottom?] using founded
      · rintro ⟨⟨tops, rising⟩, founded⟩
        have below := ih.mpr ⟨rising, by simpa [Founded, bottom?] using founded⟩
        obtain ⟨term, collection⟩ := tops.next w rfl
        have under : w.collection.toNat = rest.length + 1 := below.1.1
        exact ⟨⟨by rw [collection, under, List.length_cons], term, tops.fits, tops.short, tops.clean⟩, below⟩

theorem Ordered.rising (ordered : vs.Ordered) : vs.Rising := (ordered_iff.mp ordered).1

theorem Ordered.founded (ordered : vs.Ordered) : vs.Founded := (ordered_iff.mp ordered).2

theorem Ordered.collection_tail (ordered : vs.Ordered) : (tail vs).collection.toNat = vs.length := by
  cases vs with
  | nil => rfl
  | cons v older => exact ordered.1.1

/-- A shelf from the start is tidy in both senses. -/
theorem tidyAfter_none : TidyAfter none vs ↔ Tidy vs := by
  induction vs with
  | nil => exact Iff.rfl
  | cons v older ih =>
    refine and_congr ?_ ih
    cases older with
    | nil => simp
    | cons w rest => simp

/-! ## What a page changes -/

/-- No page of the shelf is cut short. -/
def Whole (vs : Shelf) : Prop := ∀ v ∈ vs, v.torn = []

/-- Every volume of one shelf stands on another, perhaps with other pages. -/
def Extends (vs vs' : Shelf) : Prop :=
  ∀ v ∈ vs, ∃ v' ∈ vs', v'.term = v.term ∧ v'.collection = v.collection

theorem Extends.refl (vs : Shelf) : Extends vs vs := fun v member => ⟨v, member, rfl, rfl⟩

theorem Extends.trans {vs' vs'' : Shelf} (first : Extends vs vs') (second : Extends vs' vs'') : Extends vs vs'' := by
  intro v member
  obtain ⟨v', member', term, collection⟩ := first v member
  obtain ⟨v'', member'', term', collection'⟩ := second v' member'
  exact ⟨v'', member'', term'.trans term, collection'.trans collection⟩

theorem extends_turnOver (term : UInt64) (vs : Shelf) : Extends vs (turnOver term vs) :=
  fun v member => ⟨v, List.mem_cons_of_mem _ member, rfl, rfl⟩

theorem extends_put (page : Page.Kind × Bytes) (vs : Shelf) : Extends vs (put page vs) := by
  cases vs with
  | nil => exact Extends.refl _
  | cons v older =>
    intro u member
    rcases List.mem_cons.mp member with same | below
    · subst same
      exact ⟨_, List.mem_cons_self, rfl, rfl⟩
    · exact ⟨u, List.mem_cons_of_mem _ below, rfl, rfl⟩

theorem Whole.turnOver (whole : vs.Whole) (term : UInt64) : Whole (turnOver term vs) := by
  intro u member
  rcases List.mem_cons.mp member with same | below
  · subst same
    rfl
  · exact whole u below

theorem Whole.put (whole : vs.Whole) (page : Page.Kind × Bytes) : Whole (put page vs) := by
  cases vs with
  | nil => exact whole
  | cons v older =>
    intro u member
    rcases List.mem_cons.mp member with same | below
    · subst same
      exact whole v List.mem_cons_self
    · exact whole u (List.mem_cons_of_mem _ below)

/-- A page put on a shelf lies at its end. -/
theorem sheets_put (page : Page.Kind × Bytes) (ne : vs ≠ []) :
    sheets (put page vs) = sheets vs ++ [(tail (put page vs), page)] := by
  cases vs with
  | nil => exact absurd rfl ne
  | cons v older =>
    rw [put, sheets_cons, sheets_cons, Volume.sheets_addPage, List.append_assoc]
    rfl

theorem isFull_pages (full : vs.isFull limit = true) : ∃ w ∈ vs.head?, w.pages ≠ [] := by
  cases vs with
  | nil => simp [isFull, tail, Position.start] at full
  | cons w older =>
    refine ⟨w, rfl, fun empty => ?_⟩
    simp [isFull, tail, Volume.tail, empty] at full

/-- Room is made on the shelf as it is or in a new, empty volume. -/
theorem makeRoom_cases (limit : UInt64) (vs : Shelf) :
    (vs.makeRoom limit = turnOver (tail vs).term vs ∧ (vs = [] ∨ ∃ w ∈ vs.head?, w.pages ≠ [])) ∨
      (vs.makeRoom limit = vs ∧ vs ≠ []) := by
  unfold makeRoom
  split
  · rename_i turn
    refine .inl ⟨rfl, ?_⟩
    rcases turn with empty | full
    · exact .inl empty
    · exact .inr (isFull_pages full)
  · rename_i stay
    exact .inr ⟨rfl, fun empty => stay (.inl empty)⟩

theorem makeRoom_ne_nil (limit : UInt64) (vs : Shelf) : vs.makeRoom limit ≠ [] := by
  rcases makeRoom_cases limit vs with ⟨turned, -⟩ | ⟨stays, ne⟩
  · simp [turned, turnOver]
  · rwa [stays]

theorem Whole.makeRoom (whole : vs.Whole) (limit : UInt64) : Whole (vs.makeRoom limit) := by
  rcases makeRoom_cases limit vs with ⟨turned, -⟩ | ⟨stays, -⟩
  · rw [turned]
    exact whole.turnOver _
  · rwa [stays]

theorem Whole.addPage (whole : vs.Whole) (limit : UInt64) (page : Page.Kind × Bytes) : Whole (vs.addPage limit page) :=
  (whole.makeRoom limit).put page

theorem extends_addPage (limit : UInt64) (page : Page.Kind × Bytes) (vs : Shelf) : Extends vs (vs.addPage limit page) := by
  have room : Extends vs (vs.makeRoom limit) := by
    rcases makeRoom_cases limit vs with ⟨turned, -⟩ | ⟨stays, -⟩
    · rw [turned]
      exact extends_turnOver _ vs
    · rw [stays]
      exact Extends.refl vs
  exact room.trans (extends_put page _)

/-- A page more lies at the new end, and nothing else changes. -/
theorem sheets_addPage (limit : UInt64) (page : Page.Kind × Bytes) (vs : Shelf) :
    sheets (vs.addPage limit page) = sheets vs ++ [(tail (vs.addPage limit page), page)] := by
  rw [addPage, sheets_put page (makeRoom_ne_nil limit vs)]
  rcases makeRoom_cases limit vs with ⟨turned, -⟩ | ⟨stays, -⟩
  · rw [turned, sheets_turnOver]
  · rw [stays]

theorem term_addPage (limit : UInt64) (page : Page.Kind × Bytes) (vs : Shelf) :
    (tail (vs.addPage limit page)).term = (tail vs).term := by
  rw [addPage]
  rcases makeRoom_cases limit vs with ⟨turned, -⟩ | ⟨stays, ne⟩
  · rw [turned]
    rfl
  · rw [stays]
    cases vs with
    | nil => exact absurd rfl ne
    | cons v older => rfl

/-- The pages that are added with the positions after them. -/
def trail (limit : UInt64) : Shelf → List (Page.Kind × Bytes) → List Sheet
  | _, [] => []
  | vs, page :: rest => (tail (vs.addPage limit page), page) :: trail limit (vs.addPage limit page) rest

theorem sheets_addPages (limit : UInt64) (pages : List (Page.Kind × Bytes)) (vs : Shelf) :
    sheets (vs.addPages limit pages) = sheets vs ++ trail limit vs pages := by
  induction pages generalizing vs with
  | nil => simp [addPages, trail]
  | cons page rest ih =>
    have later := ih (vs.addPage limit page)
    rw [sheets_addPage, List.append_assoc] at later
    exact later

theorem trail_pages (limit : UInt64) (pages : List (Page.Kind × Bytes)) (vs : Shelf) :
    (trail limit vs pages).map Prod.snd = pages := by
  induction pages generalizing vs with
  | nil => rfl
  | cons page rest ih => rw [trail, List.map_cons, ih]

/-- The first of the pages lies where it would lie alone, the last at the end. -/
theorem trail_ends (limit : UInt64) (pages : List (Page.Kind × Bytes)) (vs : Shelf) :
    (∀ s ∈ (trail limit vs pages).head?, s.1 = tail (vs.addPages limit (pages.take 1))) ∧
      ∀ s ∈ (trail limit vs pages).getLast?, s.1 = tail (vs.addPages limit pages) := by
  constructor
  · intro s first
    cases pages with
    | nil => simp [trail] at first
    | cons page rest =>
      simp only [trail, List.head?_cons, Option.mem_def, Option.some.injEq] at first
      subst first
      rfl
  · induction pages generalizing vs with
    | nil => simp [trail]
    | cons page rest ih =>
      intro s last
      have folds : vs.addPages limit (page :: rest) = (vs.addPage limit page).addPages limit rest := rfl
      rw [folds]
      cases rest with
      | nil =>
        simp only [trail, List.getLast?_singleton, Option.mem_def, Option.some.injEq] at last
        subst last
        rfl
      | cons next rest => exact ih (vs.addPage limit page) s (by simpa [trail] using last)

theorem Whole.addPages (whole : vs.Whole) (limit : UInt64) (pages : List (Page.Kind × Bytes)) :
    Whole (vs.addPages limit pages) := by
  induction pages generalizing vs with
  | nil => exact whole
  | cons page rest ih => exact ih (whole.addPage limit page)

theorem extends_addPages (limit : UInt64) (pages : List (Page.Kind × Bytes)) (vs : Shelf) :
    Extends vs (vs.addPages limit pages) := by
  induction pages generalizing vs with
  | nil => exact Extends.refl vs
  | cons page rest ih => exact (extends_addPage limit page vs).trans (ih _)

theorem term_addPages (limit : UInt64) (pages : List (Page.Kind × Bytes)) (vs : Shelf) :
    (tail (vs.addPages limit pages)).term = (tail vs).term ∧
      ∀ s ∈ trail limit vs pages, s.1.term = (tail vs).term := by
  induction pages generalizing vs with
  | nil => exact ⟨rfl, by simp [trail]⟩
  | cons page rest ih =>
    obtain ⟨ends, between⟩ := ih (vs.addPage limit page)
    have here := term_addPage limit page vs
    refine ⟨ends.trans here, fun s member => ?_⟩
    rcases List.mem_cons.mp member with rfl | later
    · exact here
    · exact (between s later).trans here

/-! ## What every step keeps -/

/-- What a shelf keeps from step to step. -/
structure Standing (bound : Nat) (vs : Shelf) : Prop where
  ordered : vs.Ordered
  bounded : vs.Bounded bound
  tidy : vs.Tidy

/-- A standing shelf is a steady one that lacks no volume. -/
theorem standing_iff : Standing bound vs ↔ Steady bound vs ∧ Founded vs ∧ Tidy vs := by
  constructor
  · rintro ⟨ordered, bounded, tidy⟩
    exact ⟨⟨ordered.rising, by rw [ordered.collection_tail]; exact bounded.volumes, bounded.pages, bounded.small⟩,
      ordered.founded, tidy⟩
  · rintro ⟨steady, founded, tidy⟩
    have ordered := ordered_iff.mpr ⟨steady.rising, founded⟩
    exact ⟨ordered, ⟨by rw [← ordered.collection_tail]; exact steady.collection, steady.pages, steady.small⟩, tidy⟩

theorem Standing.steady (standing : vs.Standing bound) : vs.Steady bound := (standing_iff.mp standing).1

theorem Steady.few (steady : vs.Steady bound) : ∀ v ∈ vs, v.pages.length < 2 ^ 64 :=
  fun v member => Nat.lt_of_le_of_lt (steady.pages v member) steady.small

theorem Steady.nil (small : bound < 2 ^ 64) : Steady bound [] := ⟨trivial, Nat.zero_le _, by simp, small⟩

theorem Standing.nil {bound : Nat} (small : bound < 2 ^ 64) : Standing bound [] :=
  ⟨trivial, ⟨Nat.zero_le _, by simp, small⟩, trivial⟩

theorem Steady.mono {bound' : Nat} (steady : vs.Steady bound) (le : bound ≤ bound') (small : bound' < 2 ^ 64) :
    vs.Steady bound' :=
  ⟨steady.rising, Nat.le_trans steady.collection le, fun v member => Nat.le_trans (steady.pages v member) le, small⟩

theorem Standing.mono {bound' : Nat} (standing : vs.Standing bound) (le : bound ≤ bound') (small : bound' < 2 ^ 64) :
    vs.Standing bound' := by
  obtain ⟨steady, founded, tidy⟩ := standing_iff.mp standing
  exact standing_iff.mpr ⟨steady.mono le small, founded, tidy⟩

theorem bottom?_turnOver (term : UInt64) (ne : vs ≠ []) : (turnOver term vs).bottom? = vs.bottom? := by
  cases vs with
  | nil => exact absurd rfl ne
  | cons v older => simp [bottom?, turnOver]

@[simp] theorem bottom?_put (page : Page.Kind × Bytes) (vs : Shelf) : (put page vs).bottom? = vs.bottom? := by
  rcases vs with _ | ⟨v, _ | ⟨w, rest⟩⟩ <;> simp [bottom?, put, Volume.addPage]

@[simp] theorem bottom?_cut (count : Nat) (torn : Bytes) (vs : Shelf) : (cut count torn vs).bottom? = vs.bottom? := by
  rcases vs with _ | ⟨v, _ | ⟨w, rest⟩⟩ <;> simp [bottom?, cut, Volume.cut]

theorem bottom?_addPage (limit : UInt64) (page : Page.Kind × Bytes) (ne : vs ≠ []) :
    (vs.addPage limit page).bottom? = vs.bottom? := by
  rw [addPage, bottom?_put]
  rcases makeRoom_cases limit vs with ⟨turned, -⟩ | ⟨stays, -⟩
  · rw [turned, bottom?_turnOver _ ne]
  · rw [stays]

theorem bottom?_addPages (limit : UInt64) (pages : List (Page.Kind × Bytes)) (ne : vs ≠ []) :
    (vs.addPages limit pages).bottom? = vs.bottom? := by
  induction pages generalizing vs with
  | nil => rfl
  | cons page rest ih =>
    have ne' : vs.addPage limit page ≠ [] := by
      obtain ⟨v, older, rfl⟩ := List.exists_cons_of_ne_nil ne
      obtain ⟨v', member, -⟩ := extends_addPage limit page (v :: older) v List.mem_cons_self
      exact List.ne_nil_of_mem member
    exact (ih ne').trans (bottom?_addPage limit page ne)

/-- The first volume of all is of the first collection. -/
theorem founded_turnOver (founded : vs.Founded) (term : UInt64) : Founded (turnOver term vs) := by
  cases vs with
  | nil => simp [Founded, bottom?, turnOver, tail, Position.start]
  | cons v older => rwa [Founded, bottom?_turnOver term (List.cons_ne_nil v older)]

theorem founded_addPage (founded : vs.Founded) (limit : UInt64) (page : Page.Kind × Bytes) :
    Founded (vs.addPage limit page) := by
  rw [Founded, addPage, bottom?_put]
  rcases makeRoom_cases limit vs with ⟨turned, -⟩ | ⟨stays, -⟩
  · rw [turned]
    exact founded_turnOver founded _
  · rwa [stays]

theorem Steady.next_collection (steady : vs.Steady bound) (small : bound + 1 < 2 ^ 64) :
    ((tail vs).collection + 1).toNat = (tail vs).collection.toNat + 1 := by
  have collection := steady.collection
  have one : (1 : UInt64).toNat = 1 := rfl
  rw [UInt64.toNat_add, one, Nat.mod_eq_of_lt (by omega)]

theorem Steady.turnOver (steady : vs.Steady bound) (whole : vs.Whole) {term : UInt64} (higher : (tail vs).term ≤ term)
    (small : bound + 1 < 2 ^ 64) : Steady (bound + 1) (turnOver term vs) := by
  have next := steady.next_collection small
  have collection := steady.collection
  refine ⟨⟨⟨UInt64.le_trans steady.rising.term_pos higher, ?_, fun w newest => ?_, by simp, by simp [Page.size], whole⟩,
    steady.rising⟩, ?_, ?_, small⟩
  · change 1 ≤ ((tail vs).collection + 1).toNat
    omega
  · cases vs with
    | nil => simp at newest
    | cons v older =>
      simp only [List.head?_cons, Option.mem_def, Option.some.injEq] at newest
      subst newest
      exact ⟨higher, next⟩
  · change ((tail vs).collection + 1).toNat ≤ bound + 1
    omega
  · intro v member
    rcases List.mem_cons.mp member with same | below
    · subst same
      exact Nat.zero_le _
    · exact Nat.le_succ_of_le (steady.pages v below)

theorem Standing.turnOver (standing : vs.Standing bound) (whole : vs.Whole) {term : UInt64}
    (higher : (tail vs).term ≤ term) (small : bound + 1 < 2 ^ 64)
    (ends : ∀ spans o, Word.read none (sheets vs) = some (spans, some o) → ∃ w ∈ vs.head?, w.pages ≠ []) :
    Standing (bound + 1) (turnOver term vs) := by
  obtain ⟨steady, founded, tidy⟩ := standing_iff.mp standing
  exact standing_iff.mpr ⟨steady.turnOver whole higher small, founded_turnOver founded term, ends, tidy⟩

theorem Steady.put (steady : Steady bound (v :: older)) (fits : Page.Fits page) (room : v.pages.length + 1 ≤ bound) :
    Steady bound (put page (v :: older)) := by
  obtain ⟨⟨tops, below⟩, collection, pages, small⟩ := steady
  refine ⟨⟨⟨tops.term_pos, tops.collection_pos, tops.next, ?_, tops.short, tops.clean⟩, below⟩, collection, ?_, small⟩
  · intro page' member
    rcases List.mem_append.mp member with old | new
    · exact tops.fits page' old
    · rw [List.mem_singleton.mp new]
      exact fits
  · intro u member
    rcases List.mem_cons.mp member with same | under
    · subst same
      simpa [Volume.addPage] using room
    · exact pages u (List.mem_cons_of_mem _ under)

theorem Steady.addPage (steady : vs.Steady bound) (whole : vs.Whole) (limit : UInt64) (fits : Page.Fits page)
    (small : bound + 1 < 2 ^ 64) : Steady (bound + 1) (vs.addPage limit page) := by
  unfold Shelf.addPage
  rcases makeRoom_cases limit vs with ⟨turned, -⟩ | ⟨stays, ne⟩
  · rw [turned]
    exact (steady.turnOver whole (UInt64.le_refl _) small).put fits (by simp)
  · rw [stays]
    cases vs with
    | nil => exact absurd rfl ne
    | cons v older =>
      have few := steady.pages v List.mem_cons_self
      exact (steady.mono (Nat.le_succ _) small).put fits (by omega)

/-- A page more leaves a shelf tidy. -/
theorem TidyAfter.addPage {opened : Option Opened} (tidy : vs.TidyAfter opened) (limit : UInt64)
    (page : Page.Kind × Bytes) : TidyAfter opened (vs.addPage limit page) := by
  unfold Shelf.addPage
  rcases makeRoom_cases limit vs with ⟨turned, why⟩ | ⟨stays, ne⟩
  · rw [turned]
    refine ⟨fun w newest spans o _ => ?_, tidy⟩
    rcases why with rfl | ⟨w', newest', pages⟩
    · simp at newest
    · obtain rfl : w = w' := Option.mem_unique newest newest'
      exact pages
  · rw [stays]
    cases vs with
    | nil => exact absurd rfl ne
    | cons v older => exact tidy

theorem Standing.addPage (standing : vs.Standing bound) (whole : vs.Whole) (limit : UInt64) (fits : Page.Fits page)
    (small : bound + 1 < 2 ^ 64) : Standing (bound + 1) (vs.addPage limit page) := by
  obtain ⟨steady, founded, tidy⟩ := standing_iff.mp standing
  exact standing_iff.mpr ⟨steady.addPage whole limit fits small, founded_addPage founded limit page,
    tidyAfter_none.mp ((tidyAfter_none.mpr tidy).addPage limit page)⟩

/-- Every page moves the end on, to no earlier collection. -/
theorem Steady.tail_lt_addPage (steady : vs.Steady bound) (limit : UInt64) (page : Page.Kind × Bytes)
    (small : bound + 1 < 2 ^ 64) :
    tail vs < tail (vs.addPage limit page) ∧ (tail vs).collection ≤ (tail (vs.addPage limit page)).collection := by
  unfold Shelf.addPage
  rcases makeRoom_cases limit vs with ⟨turned, -⟩ | ⟨stays, ne⟩
  · rw [turned]
    have next := steady.next_collection small
    have less : (tail vs).collection < (tail vs).collection + 1 := by
      rw [UInt64.lt_iff_toNat_lt, next]
      omega
    exact ⟨.inr ⟨rfl, .inl less⟩, UInt64.le_of_lt less⟩
  · rw [stays]
    cases vs with
    | nil => exact absurd rfl ne
    | cons v older =>
      have few := steady.pages v List.mem_cons_self
      exact ⟨.inr ⟨rfl, .inr ⟨rfl, Volume.seq_lt_addPage page (by omega)⟩⟩, UInt64.le_refl _⟩

theorem Steady.addPages (steady : vs.Steady bound) (whole : vs.Whole) (limit : UInt64)
    {pages : List (Page.Kind × Bytes)} (fits : ∀ page ∈ pages, Page.Fits page) (small : bound + pages.length < 2 ^ 64) :
    Steady (bound + pages.length) (vs.addPages limit pages) ∧
      ∀ s ∈ trail limit vs pages, (tail vs).collection ≤ s.1.collection := by
  induction pages generalizing vs bound with
  | nil => exact ⟨steady, by simp [trail]⟩
  | cons page rest ih =>
    rw [List.length_cons] at small
    have first := steady.addPage whole limit (fits page List.mem_cons_self) (by omega)
    have on := (steady.tail_lt_addPage limit page (by omega)).2
    obtain ⟨steady', collections⟩ :=
      ih first (whole.addPage limit page) (fun p member => fits p (List.mem_cons_of_mem page member)) (by omega)
    have bounds : bound + 1 + rest.length = bound + (page :: rest).length := by
      rw [List.length_cons]
      omega
    rw [← bounds]
    refine ⟨steady', fun s member => ?_⟩
    rcases List.mem_cons.mp member with rfl | after
    · exact on
    · exact UInt64.le_trans on (collections s after)

theorem Standing.addPages (standing : vs.Standing bound) (whole : vs.Whole) (limit : UInt64)
    {pages : List (Page.Kind × Bytes)} (fits : ∀ page ∈ pages, Page.Fits page) (small : bound + pages.length < 2 ^ 64) :
    Standing (bound + pages.length) (vs.addPages limit pages) := by
  induction pages generalizing vs bound with
  | nil => exact standing
  | cons page rest ih =>
    rw [List.length_cons] at small
    have first := standing.addPage whole limit (fits page List.mem_cons_self) (by omega)
    have bounds : bound + 1 + rest.length = bound + (page :: rest).length := by
      rw [List.length_cons]
      omega
    rw [← bounds]
    exact ih first (whole.addPage limit page) (fun p member => fits p (List.mem_cons_of_mem page member)) (by omega)

theorem TidyAfter.addPages {opened : Option Opened} (tidy : vs.TidyAfter opened) (limit : UInt64)
    (pages : List (Page.Kind × Bytes)) : TidyAfter opened (vs.addPages limit pages) := by
  induction pages generalizing vs with
  | nil => exact tidy
  | cons page rest ih => exact ih (tidy.addPage limit page)

theorem Steady.tail_le_addPages (steady : vs.Steady bound) (whole : vs.Whole) (limit : UInt64)
    {pages : List (Page.Kind × Bytes)} (fits : ∀ page ∈ pages, Page.Fits page) (small : bound + pages.length < 2 ^ 64) :
    tail vs ≤ tail (vs.addPages limit pages) ∧ (pages ≠ [] → tail vs < tail (vs.addPages limit pages)) := by
  induction pages generalizing vs bound with
  | nil => exact ⟨Position.le_refl _, fun none => absurd rfl none⟩
  | cons page rest ih =>
    rw [List.length_cons] at small
    have steady' := steady.addPage whole limit (fits page List.mem_cons_self) (by omega)
    have first := (steady.tail_lt_addPage limit page (by omega)).1
    have later :=
      (ih steady' (whole.addPage limit page) (fun p member => fits p (List.mem_cons_of_mem page member)) (by omega)).1
    have less := Position.lt_of_lt_of_le first later
    exact ⟨Position.le_of_lt less, fun _ => less⟩

/-! ## Cuts -/

theorem Steady.cut (steady : vs.Steady bound) (count : Nat) (torn : Bytes) (short : torn.length < Page.size) :
    Steady bound (cut count torn vs) := by
  cases vs with
  | nil => exact steady
  | cons v older =>
    obtain ⟨⟨tops, below⟩, collection, pages, small⟩ := steady
    refine ⟨⟨⟨tops.term_pos, tops.collection_pos, tops.next, ?_, short, tops.clean⟩, below⟩, collection, ?_, small⟩
    · exact fun page member => tops.fits page (List.mem_of_mem_take member)
    · intro u member
      rcases List.mem_cons.mp member with same | under
      · subst same
        have := pages v List.mem_cons_self
        simp only [Volume.cut, List.length_take]
        omega
      · exact pages u (List.mem_cons_of_mem _ under)

theorem Standing.cut (standing : vs.Standing bound) (count : Nat) (torn : Bytes) (short : torn.length < Page.size) :
    Standing bound (cut count torn vs) := by
  obtain ⟨steady, founded, tidy⟩ := standing_iff.mp standing
  refine standing_iff.mpr ⟨steady.cut count torn short, by rwa [Founded, bottom?_cut], ?_⟩
  cases vs with
  | nil => exact tidy
  | cons v older => exact tidy

theorem extends_cut (count : Nat) (torn : Bytes) (vs : Shelf) : Extends vs (cut count torn vs) := by
  cases vs with
  | nil => exact Extends.refl _
  | cons v older =>
    intro u member
    rcases List.mem_cons.mp member with same | under
    · subst same
      exact ⟨_, List.mem_cons_self, rfl, rfl⟩
    · exact ⟨u, List.mem_cons_of_mem _ under, rfl, rfl⟩

/-- A cut of the newest volume leaves the first pages. -/
theorem sheets_cut (count : Nat) (torn : Bytes) (vs : Shelf) :
    ∃ lost, sheets vs = sheets (cut count torn vs) ++ lost ∧
      ∀ s ∈ lost, ∃ v ∈ vs.head?, s.1.term = v.term ∧ s.1.collection = v.collection ∧
        ∃ n, s.1.seq = UInt64.ofNat n ∧ min count v.pages.length < n ∧ n ≤ v.pages.length := by
  cases vs with
  | nil => exact ⟨[], by simp [Shelf.cut], by simp⟩
  | cons v older =>
    refine ⟨Volume.sheetsFrom v.term v.collection (v.pages.take count).length (v.pages.drop count), ?_, ?_⟩
    · have parts := Volume.sheetsFrom_append v.term v.collection 0 (v.pages.take count) (v.pages.drop count)
      rw [List.take_append_drop, Nat.zero_add] at parts
      rw [Shelf.cut, sheets_cons, sheets_cons, List.append_assoc]
      exact congrArg (sheets older ++ ·) parts
    · intro s member
      obtain ⟨sameTerm, same, n, seq, low, high⟩ := Volume.mem_sheetsFrom member
      refine ⟨v, rfl, sameTerm, same, n, seq, by simpa [List.length_take] using low, ?_⟩
      have lengths : (v.pages.take count).length + (v.pages.drop count).length = v.pages.length := by
        rw [← List.length_append, List.take_append_drop]
      omega

/-! ## Positions given out -/

theorem Marks.extend {vs' : Shelf} {spans : List Span} {p : Position} (marks : Marks vs spans p)
    (ext : Extends vs vs') : Marks vs' spans p := by
  refine ⟨?_, marks.2⟩
  rcases marks.1 with start | ⟨v, member, term, collection⟩
  · exact .inl start
  · obtain ⟨v', member', term', collection'⟩ := ext v member
    exact .inr ⟨v', member', term'.trans term, collection'.trans collection⟩

theorem Marks.sublist {spans spans' : List Span} {p : Position} (marks : Marks vs spans p)
    (fewer : ∀ span ∈ spans', span ∈ spans) : Marks vs spans' p :=
  ⟨marks.1, fun span member => marks.2 span (fewer span member)⟩

/-- A mark lies at or before the newest volume. -/
theorem Marks.collection_le {spans : List Span} {p : Position} (marks : Marks vs spans p) (rising : vs.Rising) :
    p.collection ≤ (tail vs).collection := by
  rcases marks.1 with rfl | ⟨v, member, -, collection⟩
  · exact UInt64.zero_le
  · rw [← collection]
    exact (rising.le_tail member).2

theorem Marks.snoc {spans : List Span} {p : Position} (marks : Marks vs spans p) (span : Span)
    (later : p.collection ≤ span.first.collection) : Marks vs (spans ++ [span]) p := by
  refine ⟨marks.1, fun s member before => ?_⟩
  rcases List.mem_append.mp member with old | new
  · exact marks.2 s old before
  · rw [List.mem_singleton.mp new]
    exact later

/-- The end of the shelf is a mark. -/
theorem marks_tail (steady : vs.Steady bound) {spans : List Span} {opened : Option Opened}
    (reads : Word.read none (sheets vs) = some (spans, opened)) : Marks vs spans (tail vs) := by
  refine ⟨?_, fun span member before => ?_⟩
  · cases vs with
    | nil => exact .inl rfl
    | cons v older => exact .inr ⟨v, List.mem_cons_self, rfl, rfl⟩
  · obtain ⟨within, -⟩ := Word.positions_of_read reads
    obtain ⟨s, stands, same⟩ := List.mem_map.mp (within span member).1
    have le := steady.rising.sheet_le_tail steady.few stands
    rw [same] at le
    exact absurd before (Position.not_lt.mpr le)

end Shelf
end Shiplog
