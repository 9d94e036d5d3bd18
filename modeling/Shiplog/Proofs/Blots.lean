import Shiplog.Proofs.Histories

/-!
A complete page of a log's file, overwritten with a block that is no page (`Blot`). The
pages before it are read as they were, and there the reading ends (`Blot.readContent_front`).
So a scan over files of which this is one gives the records that end before the page, and
the corruption (`Blot.Spoils.assemble`); and a log whose newest file has the page is not
taken up (`Blot.Spoils.perform_mount_newest`).
-/
namespace Shiplog

/-! ## Where files lie, whatever they hold -/

namespace FileTree

variable (t : FileTree) (id : FileId) (change : Bytes → Bytes)

@[simp] theorem step_alter (place : Path) (name : String) :
    (t.alter id change).step place name = t.step place name := by
  rw [step, step, find?_alter]
  rcases t.find? place with _ | _ | _ <;> rfl

@[simp] theorem resolve_alter (path : Path) : (t.alter id change).resolve path = t.resolve path := by
  have walk : (t.alter id change).step = t.step := by
    funext place name
    exact step_alter t id change place name
  rw [resolve, resolve, walk]

theorem children_alter (place : Path) : (t.alter id change).children place =
    (t.children place).map fun child => (child.1, child.2.alter id change) := by
  simp only [children, alter, List.filterMap_map, List.map_filterMap]
  congr 1
  funext entry
  obtain ⟨path, node⟩ := entry
  cases node <;> cases last : path.getLast? <;>
    simp only [Function.comp_apply, last, Option.map_none, apply_ite (Option.map _), Option.map_some, Inode.alter]

end FileTree

namespace Segment

/-- The segments of a log are known by the names of its files. -/
@[simp] theorem list_alter (t : FileTree) (id : FileId) (change : Bytes → Bytes) (dir : Path) :
    list (t.alter id change) dir = list t dir := by
  have children : (t.alter id change).list dir =
      (t.list dir).map (List.map fun child => (child.1, child.2.alter id change)) := by
    simp only [FileTree.list, FileTree.resolve_alter, bind, Except.bind]
    rcases t.resolve dir with _ | place
    · rfl
    · simp only [FileTree.find?_alter, FileTree.children_alter]
      rcases t.find? place with _ | _ | _ <;> rfl
  rw [list, list, children]
  rcases t.list dir with _ | found
  · rfl
  · simp only [Except.map, bind, Except.bind, List.filterMap_map]
    congr 3
    funext child
    obtain ⟨name, node⟩ := child
    cases node <;> rfl

end Segment

/-! ## A page overwritten -/

/-- A page of a volume's file that is overwritten with a block that is no page. -/
structure Blot where
  volume : Volume
  /-- The pages before the overwritten one. -/
  number : Nat
  block : Bytes
  damage : Page.Damage
  inside : number < volume.pages.length
  whole : block.length = Page.size
  refused : Page.decode block = .error damage

namespace Blot

variable {x : Blot}

/-- The position after the overwritten page. -/
def position (x : Blot) : Position := ⟨x.volume.term, x.volume.collection, UInt64.ofNat (x.number + 1)⟩

def error (x : Blot) : Error := .corruption x.damage.text

/-- The bytes before the overwritten page. -/
def front (x : Blot) : Bytes := (x.volume.pages.take x.number).flatMap Page.image

/-- The bytes after the overwritten page. -/
def back (x : Blot) : Bytes := (x.volume.pages.drop (x.number + 1)).flatMap Page.image ++ x.volume.torn

/-- The bytes of the file once the page is overwritten. -/
def content (x : Blot) : Bytes := x.front ++ (x.block ++ x.back)

theorem fits_front (fits : ∀ page ∈ x.volume.pages, Page.Fits page) :
    ∀ page ∈ x.volume.pages.take x.number, Page.Fits page := fun page member => fits page (List.mem_of_mem_take member)

theorem length_front (fits : ∀ page ∈ x.volume.pages, Page.Fits page) : x.front.length = x.number * Page.size := by
  rw [front, Segment.length_images _ (fits_front fits), List.length_take, Nat.min_eq_left (Nat.le_of_lt x.inside)]

theorem pages_split (x : Blot) :
    ∃ page, x.volume.pages = x.volume.pages.take x.number ++ page :: x.volume.pages.drop (x.number + 1) :=
  ⟨x.volume.pages.get ⟨x.number, x.inside⟩, by
    rw [List.get_eq_getElem, ← List.drop_eq_getElem_cons x.inside, List.take_append_drop]⟩

/-- The file holds a page between the same bytes before it is overwritten. -/
theorem content_split (fits : ∀ page ∈ x.volume.pages, Page.Fits page) :
    ∃ page, Page.Fits page ∧ x.volume.content = x.front ++ (Page.image page ++ x.back) := by
  obtain ⟨page, split⟩ := x.pages_split
  refine ⟨page, fits page (split ▸ by simp), ?_⟩
  rw [Volume.content, front, back]
  conv => lhs; rw [split]
  simp

theorem length_content (fits : ∀ page ∈ x.volume.pages, Page.Fits page) :
    x.content.length = x.volume.content.length := by
  obtain ⟨page, fit, split⟩ := content_split fits
  simp only [content, split, List.length_append, x.whole, Page.length_image fit]

/-- What an overwriting of the page makes of the file. -/
theorem content_overwritten (fits : ∀ page ∈ x.volume.pages, Page.Fits page) :
    FileTree.resize (x.number * Page.size) x.volume.content ++ x.block ++
      x.volume.content.drop (x.number * Page.size + x.block.length) = x.content := by
  obtain ⟨page, fit, split⟩ := content_split fits
  have ahead := length_front fits
  have kept : FileTree.resize (x.number * Page.size) x.volume.content = x.front := by
    rw [FileTree.resize, split, ← ahead, List.take_left, List.length_append, Nat.sub_eq_zero_of_le (Nat.le_add_right _ _)]
    simp [Bytes.zeros]
  have behind : x.volume.content.drop (x.number * Page.size + x.block.length) = x.back := by
    rw [split, ← List.append_assoc, ← ahead, x.whole, ← Page.length_image fit, ← List.length_append, List.drop_left]
  rw [kept, behind, content, List.append_assoc]

/-- Behind the overwritten page the file is as it was. -/
theorem drop_content (fits : ∀ page ∈ x.volume.pages, Page.Fits page) {offset : Nat}
    (behind : (x.number + 1) * Page.size ≤ offset) : x.content.drop offset = x.volume.content.drop offset := by
  obtain ⟨page, fit, split⟩ := content_split fits
  have ahead := length_front fits
  have same : ∀ piece : Bytes, piece.length = Page.size →
      (x.front ++ (piece ++ x.back)).drop offset = x.back.drop (offset - (x.number + 1) * Page.size) := by
    intro piece whole
    have length : (x.front ++ piece).length = (x.number + 1) * Page.size := by
      rw [List.length_append, ahead, whole, Nat.succ_mul]
    rw [← List.append_assoc, List.drop_append, length, List.drop_eq_nil_of_le (by omega), List.nil_append]
  rw [content, split, same x.block x.whole, same _ (Page.length_image fit)]

/-- What is left of the file by a cut behind the overwritten page. -/
theorem take_content (fits : ∀ page ∈ x.volume.pages, Page.Fits page) {length : Nat}
    (behind : (x.number + 1) * Page.size ≤ length) : ∃ rest, x.content.take length = x.front ++ (x.block ++ rest) := by
  have ahead : (x.front ++ x.block).length ≤ length := by
    rw [List.length_append, length_front fits, x.whole, ← Nat.succ_mul]
    exact behind
  refine ⟨x.back.take (length - (x.front ++ x.block).length), ?_⟩
  rw [content, ← List.append_assoc, List.take_append, List.take_of_length_le ahead, List.append_assoc]

/-- The reading of pages ends with the block. -/
theorem readContent_front (fits : ∀ page ∈ x.volume.pages, Page.Fits page) (rest : Bytes) :
    Segment.readContent (x.front ++ (x.block ++ rest)) =
      (x.volume.pages.take x.number).map .ok ++ [.error (.damaged x.damage)] := by
  rw [Segment.readContent, front, Segment.readPieces_append _ (fits_front fits),
    Bytes.chunks_cons x.block rest x.whole (by decide), Segment.readPieces, if_neg (by rw [x.whole]; omega), x.refused]

/-- The overwritten page among the others of its volume. -/
theorem sheets_split (x : Blot) : ∃ page later, x.volume.sheets =
    Volume.sheetsFrom x.volume.term x.volume.collection 0 (x.volume.pages.take x.number) ++ (x.position, page) :: later := by
  obtain ⟨page, split⟩ := x.pages_split
  have count : (x.volume.pages.take x.number).length = x.number :=
    List.length_take_of_le (Nat.le_of_lt x.inside)
  refine ⟨page, Volume.sheetsFrom x.volume.term x.volume.collection (x.number + 1) (x.volume.pages.drop (x.number + 1)), ?_⟩
  rw [Volume.sheets]
  conv => lhs; rw [split]
  rw [Volume.sheetsFrom_append, count, Nat.zero_add, Volume.sheetsFrom]
  rfl

/-- The file of the volume in a tree is the one that a change of a file overwrites. -/
structure Spoils (x : Blot) (t : FileTree) (place : Path) (id : FileId) (change : Bytes → Bytes) : Prop where
  file : t.find? (place ++ [x.volume.name]) = some (.file id x.volume.content)
  content : change x.volume.content = x.content

end Blot

/-! ## Scans -/

namespace Scan

theorem number_append (term collection : UInt64) (count : Nat) (reads more : List Segment.PageRead) :
    number term collection count (reads ++ more) =
      number term collection count reads ++ number term collection (count + reads.length) more := by
  induction reads generalizing count with
  | nil => rfl
  | cons read rest ih =>
    simp only [List.cons_append, number, ih, List.length_cons]
    rw [Nat.add_assoc, Nat.add_comm 1]

/-- A record stands at the position of one of the pages. -/
theorem mem_assemble {a : Assembly} {items : List Item} {record : Position × Bytes}
    (member : record ∈ (assemble a items).records) : ∃ item ∈ items, item.1 = record.1 := by
  fun_induction assemble a items with
  | case1 => cases member
  | case2 => cases member
  | case3 => cases member
  | case4 a position rest kind payload next _ ih =>
    obtain ⟨item, inside, same⟩ := ih member
    exact ⟨item, List.mem_cons_of_mem _ inside, same⟩
  | case5 a position rest kind payload record' next _ scan ih =>
    rcases List.mem_cons.mp member with here | later
    · exact ⟨_, List.mem_cons_self, by rw [here]⟩
    · obtain ⟨item, inside, same⟩ := ih later
      exact ⟨item, List.mem_cons_of_mem _ inside, same⟩

/-- Of pages that were all taken, an error behind some of them leaves the records that end before
    it, whatever comes after the error. -/
theorem assemble_stopped {a : Assembly} {before after rest : List Item} {records : List (Position × Bytes)}
    {position : Position} {e : Error} (taken : assemble a (before ++ after) = ⟨records, none⟩)
    (early : ∀ item ∈ before, item.1 < position) (late : ∀ item ∈ after, ¬ item.1 < position) :
    assemble a (before ++ (position, .error e) :: rest) =
      ⟨records.filter fun record => decide (record.1 < position), some e⟩ := by
  induction before generalizing a records with
  | nil =>
    have nothing : records.filter (fun record => decide (record.1 < position)) = [] := by
      rw [List.filter_eq_nil_iff]
      intro record member
      have found : record ∈ (assemble a after).records := by
        rw [List.nil_append] at taken
        rwa [taken]
      obtain ⟨item, inside, same⟩ := mem_assemble found
      simpa [same] using late item inside
    rw [nothing]
    rfl
  | cons item before ih =>
    have later := fun i inside => early i (List.mem_cons_of_mem item inside)
    obtain ⟨q, read⟩ := item
    cases read with
    | error e' => simp [assemble] at taken
    | ok page =>
      obtain ⟨kind, payload⟩ := page
      simp only [List.cons_append, assemble] at taken ⊢
      rcases pushed : a.push kind payload with ⟨breach | answer, next⟩
      · simp [pushed] at taken
      · rw [pushed] at taken
        cases answer with
        | none => exact ih taken later
        | some record =>
          simp only at taken ⊢
          cases rests : assemble next (before ++ after) with
          | mk found stopped =>
            rw [rests] at taken
            obtain ⟨rfl, rfl⟩ : (q, record) :: found = records ∧ stopped = none := by simpa using taken
            rw [ih rests later, List.filter_cons_of_pos (by simpa using early _ List.mem_cons_self)]

end Scan

namespace Blot

variable {x : Blot} {t : FileTree} {dir place : Path} {blocked : List String} {vs : Shelf} {id : FileId}
  {change : Bytes → Bytes} {u : Volume}

/-- Other volumes keep their files. -/
theorem Spoils.find?_other (spoils : x.Spoils t place id change) (sound : t.Sound) (rising : vs.Rising)
    (member : x.volume ∈ vs) (other : u ∈ vs) (apart : u ≠ x.volume) :
    (t.alter id change).find? (place ++ [u.name]) = t.find? (place ++ [u.name]) := by
  rw [sound.find?_alter_file spoils.file, if_neg]
  intro same
  exact apart (rising.name_inj other member (by simpa using same))

theorem Spoils.find?_volume (spoils : x.Spoils t place id change) :
    (t.alter id change).find? (place ++ [x.volume.name]) = some (.file id x.content) := by
  rw [FileTree.find?_alter, spoils.file, ← spoils.content]
  simp [Inode.alter]

theorem Spoils.read (spoils : x.Spoils t place id change) (hosts : t.Hosts dir place Segment.nameWidth) :
    (t.alter id change).read (x.volume.segment dir).path = .ok x.content :=
  (hosts.kept (FileTree.keepsDirectories_alter t id change)).read_child x.volume.plain_name.1 x.volume.plain_name.2
    spoils.find?_volume

theorem Spoils.read_other (spoils : x.Spoils t place id change) (stocked : Stocked t dir place blocked vs)
    (rising : vs.Rising) (member : x.volume ∈ vs) (other : u ∈ vs) (apart : u ≠ x.volume) :
    (t.alter id change).read (u.segment dir).path = t.read (u.segment dir).path := by
  obtain ⟨id', file⟩ := stocked.present u other
  have same := (spoils.find?_other stocked.sound rising member other apart).trans file
  have hosts := stocked.hosts.kept (FileTree.keepsDirectories_alter t id change)
  exact (hosts.read_child u.plain_name.1 u.plain_name.2 same).trans
    (stocked.hosts.read_child u.plain_name.1 u.plain_name.2 file).symm

/-- The pages of the file up to the overwritten one, and the damage in its place. -/
theorem Spoils.items (spoils : x.Spoils t place id change) (hosts : t.Hosts dir place Segment.nameWidth)
    (fits : ∀ page ∈ x.volume.pages, Page.Fits page) : Scan.items (t.alter id change) (x.volume.segment dir) =
      (Volume.sheetsFrom x.volume.term x.volume.collection 0 (x.volume.pages.take x.number)).map Sheet.item ++
        [(x.position, .error x.error)] := by
  have count : (x.volume.pages.take x.number).length = x.number :=
    List.length_take_of_le (Nat.le_of_lt x.inside)
  have pages : Segment.readContent x.content = _ := readContent_front fits x.back
  rw [Scan.items, Segment.readPages, spoils.read hosts]
  simp only [pages, Scan.number_append, List.length_map, count, Nat.zero_add]
  rw [Scan.number_ok]
  rfl

theorem Spoils.items_other (spoils : x.Spoils t place id change) (stocked : Stocked t dir place blocked vs)
    (rising : vs.Rising) (member : x.volume ∈ vs) (other : u ∈ vs) (apart : u ≠ x.volume) :
    Scan.items (t.alter id change) (u.segment dir) = Scan.items t (u.segment dir) := by
  rw [Scan.items, Scan.items, Segment.readPages, Segment.readPages,
    spoils.read_other stocked rising member other apart]

theorem Spoils.window_other (spoils : x.Spoils t place id change) (stocked : Stocked t dir place blocked vs)
    (rising : vs.Rising) (member : x.volume ∈ vs) {us : List Volume} (inside : ∀ u ∈ us, u ∈ vs)
    (absent : x.volume ∉ us) : Scan.window (t.alter id change) (us.map (Volume.segment dir)) =
      Scan.window t (us.map (Volume.segment dir)) := by
  rw [Scan.window, Scan.window, List.flatMap_map, List.flatMap_map]
  refine List.flatMap_congr fun u here => ?_
  refine spoils.items_other stocked rising member (inside u here) ?_
  rintro rfl
  exact absent here

/-- A scan over files of which one has the page gives the records that end before it, and the
    damage. -/
theorem Spoils.assemble {newer older : Shelf} {bound : Nat} {records : List (Position × Bytes)}
    (spoils : x.Spoils t place id change) (stocked : Stocked t dir place blocked (newer ++ older))
    (steady : Shelf.Steady bound (newer ++ older)) (whole : Shelf.Whole (newer ++ older)) (member : x.volume ∈ newer)
    (taken : Scan.assemble .empty (Scan.window t (newer.reverse.map (Volume.segment dir))) = ⟨records, none⟩) :
    Scan.assemble .empty (Scan.window (t.alter id change) (newer.reverse.map (Volume.segment dir))) =
      ⟨records.filter fun record => decide (record.1 < x.position), some x.error⟩ := by
  have rising := steady.rising
  have inside : ∀ u ∈ newer.reverse, u ∈ newer ++ older := fun u here => List.mem_append_left _ (List.mem_reverse.mp here)
  have sorted := rising.front.sheets_sorted fun u here => steady.few u (List.mem_append_left _ here)
  obtain ⟨page, later, sheets⟩ := x.sheets_split
  obtain ⟨first, last, split, absent⟩ := List.eq_append_cons_of_mem (List.mem_reverse.mpr member)
  rw [Scan.window_eq stocked rising whole inside] at taken
  rw [Shelf.sheets] at sorted
  rw [split] at taken sorted inside ⊢
  have ahead : Scan.window (t.alter id change) (first.map (Volume.segment dir)) =
      (first.flatMap Volume.sheets).map Sheet.item := by
    have below : ∀ u ∈ first, u ∈ newer ++ older := fun u here => inside u (List.mem_append_left _ here)
    rw [spoils.window_other stocked rising (List.mem_append_left _ member) below absent,
      Scan.window_eq stocked rising whole below]
  rw [Scan.window] at ahead
  rw [Scan.window, List.map_append, List.map_cons, List.flatMap_append, List.flatMap_cons, ahead,
    spoils.items stocked.hosts (rising.fits (List.mem_append_left _ member)), List.append_assoc, List.singleton_append,
    ← List.append_assoc, ← List.map_append]
  rw [List.flatMap_append, List.flatMap_cons, sheets, List.append_assoc, List.cons_append, ← List.append_assoc] at taken sorted
  rw [List.pairwise_append, List.pairwise_cons] at sorted
  obtain ⟨-, ⟨above, -⟩, below⟩ := sorted
  rw [List.map_append] at taken
  refine Scan.assemble_stopped taken (fun item here => ?_) fun item here => ?_
  · obtain ⟨s, stands, rfl⟩ := List.mem_map.mp here
    exact below s stands _ List.mem_cons_self
  · obtain ⟨s, stands, rfl⟩ := List.mem_map.mp here
    rcases List.mem_cons.mp stands with rfl | after
    · exact Position.lt_irrefl _
    · exact Position.not_lt.mpr (Position.le_of_lt (above s after))

/-! ## Taking up -/

theorem kinds_stopped (pages : List (Page.Kind × Bytes)) (stop : Segment.Stop) :
    Repair.kinds (pages.map .ok ++ [.error stop]) = .error stop.toError := by
  induction pages with
  | nil => rfl
  | cons page rest ih =>
    rw [List.map_cons, List.cons_append, Repair.kinds, ih]
    rfl

theorem Spoils.length (spoils : x.Spoils t place id change) (hosts : t.Hosts dir place Segment.nameWidth)
    (fits : ∀ page ∈ x.volume.pages, Page.Fits page) :
    (t.alter id change).length (x.volume.segment dir).path = .ok x.volume.content.length := by
  rw [← length_content fits]
  exact (hosts.kept (FileTree.keepsDirectories_alter t id change)).length_child x.volume.plain_name.1
    x.volume.plain_name.2 spoils.find?_volume

/-- A repair of the file finds the damage. -/
theorem Spoils.inspect (spoils : x.Spoils t place id change) (hosts : t.Hosts dir place Segment.nameWidth)
    (fits : ∀ page ∈ x.volume.pages, Page.Fits page) (short : x.volume.torn.length < Page.size) :
    Repair.inspect (t.alter id change) (x.volume.segment dir).path = .error x.error := by
  obtain ⟨full, -⟩ := Repair.length_content fits short
  have some_pages : x.volume.pages.length ≠ 0 := Nat.ne_of_gt (Nat.zero_lt_of_lt x.inside)
  obtain ⟨rest, front⟩ := take_content fits (Nat.mul_le_mul_right Page.size x.inside)
  simp only [Repair.inspect, spoils.length hosts fits, spoils.read hosts, full, some_pages, front, readContent_front fits,
    kinds_stopped, bind, Except.bind, Except.mapError, ↓reduceIte]
  rfl

/-- Where the file is asked for the kind of its last page, the answer is as it was, or the damage. -/
theorem Spoils.lastKind (spoils : x.Spoils t place id change) (stocked : Stocked t dir place blocked vs)
    (rising : vs.Rising) (member : x.volume ∈ vs) :
    Repair.lastKind (t.alter id change) (x.volume.segment dir).path = .ok x.volume.lastKind ∨
      Repair.lastKind (t.alter id change) (x.volume.segment dir).path = .error x.error := by
  have fits := rising.fits member
  obtain ⟨full, -⟩ := Repair.length_content fits (rising.torn_short member)
  have some_pages : x.volume.pages.length ≠ 0 := Nat.ne_of_gt (Nat.zero_lt_of_lt x.inside)
  by_cases final : x.number + 1 = x.volume.pages.length
  · have piece : (x.content.drop ((x.volume.pages.length - 1) * Page.size)).take Page.size = x.block := by
      rw [← final, Nat.add_sub_cancel, ← length_front fits, Blot.content, List.drop_left, ← x.whole, List.take_left]
    refine .inr ?_
    simp only [Repair.lastKind, spoils.length stocked.hosts fits, spoils.read stocked.hosts, full, some_pages, piece, x.refused,
      bind, Except.bind, Except.mapError, ↓reduceIte]
    rfl
  · have behind : (x.number + 1) * Page.size ≤ (x.volume.pages.length - 1) * Page.size :=
      Nat.mul_le_mul_right _ (by have := x.inside; omega)
    have undamaged : Repair.lastKind t (x.volume.segment dir).path = .ok x.volume.lastKind :=
      Repair.lastKind_eq stocked rising member
    obtain ⟨id', file⟩ := stocked.present x.volume member
    have length : t.length (x.volume.segment dir).path = .ok x.volume.content.length :=
      stocked.hosts.length_child x.volume.plain_name.1 x.volume.plain_name.2 file
    have read : t.read (x.volume.segment dir).path = .ok x.volume.content :=
      stocked.hosts.read_child x.volume.plain_name.1 x.volume.plain_name.2 file
    refine .inl ?_
    rw [← undamaged]
    simp only [Repair.lastKind, length, read, spoils.length stocked.hosts fits, spoils.read stocked.hosts, full, some_pages,
      drop_content fits behind, bind, Except.bind, Except.mapError, ↓reduceIte]

/-- A log whose newest file has the page is not taken up, and nothing changes. -/
theorem Spoils.perform_mount_newest {m : Mounted Log} {older : Shelf} (spoils : x.Spoils m.disk place id change)
    (stocked : Stocked m.disk m.item.dir place blocked (x.volume :: older)) (rising : Shelf.Rising (x.volume :: older)) :
    Log.mount.perform ⟨m.disk.alter id change, m.item⟩ = (.error x.error, ⟨m.disk.alter id change, m.item⟩) := by
  have hosts := stocked.hosts.kept (FileTree.keepsDirectories_alter m.disk id change)
  have listed : Segment.list (m.disk.alter id change) m.item.dir = .ok ((x.volume :: older).reverse.map _) :=
    (Segment.list_alter ..).trans (stocked.list rising)
  have found := spoils.inspect stocked.hosts (rising.fits List.mem_cons_self) (rising.torn_short List.mem_cons_self)
  rw [Log.perform_mount_newest (m := ⟨m.disk.alter id change, m.item⟩) hosts listed
    (show _ = x.volume.segment m.item.dir :: older.map (Volume.segment m.item.dir) by
      rw [← List.map_reverse, List.reverse_reverse, List.map_cons]), Action.perform_bind, Log.takeUp, Action.perform_bind,
    Log.perform_onDisk, Repair.repair, Action.perform_bind, Action.perform_reading, found]

end Blot
end Shiplog
