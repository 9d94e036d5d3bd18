import Shiplog.Log
import Shiplog.Proofs.Actions
import Shiplog.Proofs.Names
import Shiplog.Proofs.Shelf

/-!
The shelf in the directory of a log. A directory is stocked with a shelf when its files
are those of the volumes, whatever directories stand among them (`Stocked`), and it holds
the shelf when there are no such directories (`Shelved`). A tail attends a shelf when it
counts on from its end, with the newest file open or none (`Attends`); it follows the shelf
when it stands at the very end with the newest file open (`Follows`). What the tail does to
the tree is what the shelf's own steps say: a page, a record, a new term. Where a directory
stands in the place of the next file, the step fails and leaves the shelf as it is.
-/
namespace Shiplog

namespace Segment

variable {term term' collection collection' : UInt64}

/-- A name tells the term and the collection. -/
theorem name_inj (same : name term collection = name term' collection') :
    term = term' ∧ collection = collection' := by
  have lists := congrArg String.toList same
  simp only [name, String.toList_ofList] at lists
  obtain ⟨first, second⟩ := List.append_inj lists (by simp)
  have spell : ∀ {n m : UInt64}, Hex.digits 16 n.toNat = Hex.digits 16 m.toNat → n = m := by
    intro n m digits
    have left : Hex.toNat? (Hex.digits 16 n.toNat) = some n.toNat :=
      Hex.toNat?_digits (Nat.lt_of_lt_of_le n.toNat_lt (by decide))
    rw [digits, Hex.toNat?_digits (Nat.lt_of_lt_of_le m.toNat_lt (by decide))] at left
    exact UInt64.toNat_inj.mp (Option.some.inj left).symm
  exact ⟨spell first, spell second⟩

theorem notAfter_iff {a b : Segment} : a.notAfter b = true ↔
    a.term < b.term ∨ a.term = b.term ∧ a.collection ≤ b.collection := by
  simp [notAfter]

theorem notAfter_trans (a b c : Segment) (first : a.notAfter b = true) (second : b.notAfter c = true) :
    a.notAfter c = true := by
  rw [notAfter_iff, UInt64.lt_iff_toNat_lt, ← UInt64.toNat_inj, UInt64.le_iff_toNat_le] at *
  omega

theorem notAfter_total (a b : Segment) : (a.notAfter b || b.notAfter a) = true := by
  rw [Bool.or_eq_true, notAfter_iff, notAfter_iff]
  simp only [UInt64.lt_iff_toNat_lt, ← UInt64.toNat_inj, UInt64.le_iff_toNat_le]
  omega

/-- A file in the directory at a place has a name. -/
def IsFile (t : FileTree) (place : Path) (text : String) : Prop :=
  ∃ id content, t.find? (place ++ [text]) = some (.file id content)

/-- What is listed in a directory: each file once whose name is read as a segment's. -/
theorem exists_list {t : FileTree} {dir place : Path} {width : Nat} (sound : t.Sound) (hosts : t.Hosts dir place width) :
    ∃ segments, list t dir = .ok segments ∧ segments.Nodup ∧ segments.Pairwise (fun a b => a.notAfter b = true) ∧
      ∀ s, s ∈ segments ↔ ∃ text, IsFile t place text ∧ parseName? text = some (s.term, s.collection) ∧
        s.path = dir.child text := by
  have children : ∀ text node, (text, node) ∈ t.children place ↔ t.find? (place ++ [text]) = some node :=
    fun text node => sound.mem_children_iff text
  simp only [list, hosts.list, bind, Except.bind]
  refine ⟨_, rfl, ?_, List.pairwise_mergeSort notAfter_trans notAfter_total _, ?_⟩
  · rw [(List.mergeSort_perm _ _).nodup_iff]
    refine List.Pairwise.filterMap _ ?_ (List.pairwise_map.mp (sound.nodup_children place))
    rintro ⟨text, node⟩ ⟨text', node'⟩ apart s first s' second same
    subst same
    cases node with
    | directory => simp at first
    | file id content =>
      cases node' with
      | directory => simp at second
      | file id' content' =>
        obtain ⟨p, -, rfl⟩ := Option.map_eq_some_iff.mp first
        obtain ⟨p', -, same⟩ := Option.map_eq_some_iff.mp second
        have child := congrArg Segment.path same
        simp only [Path.child_eq, List.append_cancel_left_eq, List.cons.injEq, and_true] at child
        exact apart child.symm
  · intro s
    rw [List.mem_mergeSort, List.mem_filterMap]
    constructor
    · rintro ⟨⟨text, node⟩, member, given⟩
      cases node with
      | directory => simp at given
      | file id content =>
        obtain ⟨key, read, rfl⟩ := Option.map_eq_some_iff.mp given
        exact ⟨text, ⟨id, content, (children _ _).mp member⟩, read, rfl⟩
    · rintro ⟨text, ⟨id, content, lies⟩, read, path⟩
      refine ⟨(text, .file id content), (children _ _).mpr lies, ?_⟩
      simp only [read, Option.map_some, Option.some.injEq]
      rw [← path]

end Segment

namespace Volume

def name (v : Volume) : String := Segment.name v.term v.collection

def content (v : Volume) : Bytes := v.pages.flatMap Page.image ++ v.torn

/-- A volume as a segment of the log in a directory. -/
def segment (dir : Path) (v : Volume) : Segment := ⟨v.term, v.collection, Segment.pathIn dir v.term v.collection⟩

theorem content_addPage (page : Page.Kind × Bytes) {v : Volume} (whole : v.torn = []) :
    (v.addPage page).content = v.content ++ Page.image page := by
  simp [content, addPage, whole]

theorem tail_addPage (page : Page.Kind × Bytes) (v : Volume) :
    (v.addPage page).tail = { v.tail with seq := v.tail.seq + 1 } := by
  simp [tail, addPage, UInt64.ofNat_add]

theorem plain_name (v : Volume) : Path.Plain v.name ∧ Path.nameSize v.name ≤ Segment.nameWidth :=
  ⟨(Segment.plain_name _ _).1, Nat.le_of_eq (Segment.plain_name _ _).2⟩

end Volume

/-- The directory of a log at a place holds the volumes of a shelf and nothing else. -/
structure Shelved (t : FileTree) (dir place : Path) (vs : Shelf) : Prop where
  sound : t.Sound
  hosts : t.Hosts dir place Segment.nameWidth
  present : ∀ v ∈ vs, ∃ id, t.find? (place ++ [v.name]) = some (.file id v.content)
  nothing : ∀ name node, t.find? (place ++ [name]) = some node → ∃ v ∈ vs, v.name = name

/-- The files in the directory of a log at a place are those of the volumes of a shelf.
    Directories may stand among them, under some names only. -/
structure Stocked (t : FileTree) (dir place : Path) (blocked : List String) (vs : Shelf) : Prop where
  sound : t.Sound
  hosts : t.Hosts dir place Segment.nameWidth
  present : ∀ v ∈ vs, ∃ id, t.find? (place ++ [v.name]) = some (.file id v.content)
  others : ∀ name node, t.find? (place ++ [name]) = some node →
    (∃ v ∈ vs, v.name = name) ∨ node = .directory ∧ name ∈ blocked

theorem shelved_iff {t : FileTree} {dir place : Path} {vs : Shelf} :
    Shelved t dir place vs ↔ Stocked t dir place [] vs := by
  constructor
  · exact fun shelved => ⟨shelved.sound, shelved.hosts, shelved.present, fun name node lies =>
      .inl (shelved.nothing name node lies)⟩
  · refine fun stocked => ⟨stocked.sound, stocked.hosts, stocked.present, fun name node lies => ?_⟩
    rcases stocked.others name node lies with volume | ⟨-, impossible⟩
    · exact volume
    · cases impossible

theorem Shelved.stocked {t : FileTree} {dir place : Path} {vs : Shelf} (shelved : Shelved t dir place vs) :
    Stocked t dir place [] vs := shelved_iff.mp shelved

namespace Shelf

variable {dir : Path} {vs : Shelf}

theorem Rising.name_inj (rising : vs.Rising) {u w : Volume} (uMember : u ∈ vs) (wMember : w ∈ vs)
    (same : u.name = w.name) : u = w :=
  List.inj_on_of_nodup_map rising.nodup uMember wMember (Segment.name_inj same).2

/-- A volume is known by its segment. -/
theorem Rising.segment_inj (rising : vs.Rising) {u w : Volume} (uMember : u ∈ vs) (wMember : w ∈ vs)
    (same : u.segment dir = w.segment dir) : u = w :=
  rising.name_inj uMember wMember
    (congrArg₂ Segment.name (congrArg Segment.term same) (congrArg Segment.collection same))

theorem Rising.segments_sorted (rising : vs.Rising) :
    (vs.reverse.map (Volume.segment dir)).Pairwise (fun a b => a.notAfter b = true) := by
  rw [List.map_reverse, List.pairwise_reverse]
  induction vs with
  | nil => simp
  | cons v older ih =>
    rw [List.map_cons, List.pairwise_cons]
    refine ⟨?_, ih rising.2⟩
    intro s member
    obtain ⟨u, below, rfl⟩ := List.mem_map.mp member
    obtain ⟨term, collection⟩ := rising.below below
    rw [Segment.notAfter_iff]
    simp only [Volume.segment, UInt64.lt_iff_toNat_lt, ← UInt64.toNat_inj, UInt64.le_iff_toNat_le] at term collection ⊢
    omega

/-- The name of a volume's file is one that a segment can have. -/
theorem Rising.parseName? (rising : vs.Rising) {u : Volume} (member : u ∈ vs) :
    Segment.parseName? u.name = some (u.term, u.collection) := by
  obtain ⟨_, tops⟩ := rising.tops member
  have term := tops.term_pos
  have collection := tops.collection_pos
  refine Segment.parseName?_name _ _ ?_ ?_
  · rintro zero
    rw [zero] at term
    exact absurd term (by decide)
  · rintro zero
    rw [zero] at collection
    exact absurd collection (by decide)

end Shelf

namespace Stocked

variable {t t' : FileTree} {dir place : Path} {blocked : List String} {vs older : Shelf} {v : Volume} {id : FileId}

/-- The segments in the directory are the volumes, the oldest first. -/
theorem list (stocked : Stocked t dir place blocked vs) (rising : vs.Rising) :
    Segment.list t dir = .ok (vs.reverse.map (Volume.segment dir)) := by
  obtain ⟨segments, listed, once, ascending, members⟩ := Segment.exists_list stocked.sound stocked.hosts
  rw [listed, Except.ok.injEq]
  have volumes : ∀ s, s ∈ segments ↔ s ∈ vs.reverse.map (Volume.segment dir) := by
    intro s
    rw [members, List.mem_map]
    constructor
    · rintro ⟨text, ⟨id, content, lies⟩, read, path⟩
      rcases stocked.others text _ lies with ⟨u, stands, rfl⟩ | ⟨impossible, -⟩
      · rw [rising.parseName? stands, Option.some.injEq, Prod.mk.injEq] at read
        have same : u.segment dir = ⟨s.term, s.collection, s.path⟩ := by
          rw [path, ← read.1, ← read.2]
          rfl
        exact ⟨u, List.mem_reverse.mpr stands, same⟩
      · cases impossible
    · rintro ⟨u, stands, rfl⟩
      rw [List.mem_reverse] at stands
      obtain ⟨id, file⟩ := stocked.present u stands
      exact ⟨u.name, ⟨id, _, file⟩, rising.parseName? stands, rfl⟩
  have distinct : (vs.reverse.map (Volume.segment dir)).Nodup := by
    rw [List.map_reverse, (List.reverse_perm _).nodup_iff]
    exact List.pairwise_map.mpr ((List.pairwise_map.mp rising.nodup).imp fun apart same =>
      apart (congrArg Segment.collection same))
  -- Both sides are sorted lists without repetitions that have the same members.
  have perm : segments.Perm (vs.reverse.map (Volume.segment dir)) :=
    (List.perm_ext_iff_of_nodup once distinct).mpr volumes
  refine perm.eq_of_pairwise ?_ ascending rising.segments_sorted
  intro a b aMember bMember ab ba
  obtain ⟨u, -, rfl⟩ := List.mem_map.mp (perm.mem_iff.mp aMember)
  obtain ⟨w, -, rfl⟩ := List.mem_map.mp bMember
  have terms : u.term = w.term ∧ u.collection = w.collection := by
    rw [Segment.notAfter_iff] at ab ba
    simp only [Volume.segment, UInt64.lt_iff_toNat_lt, ← UInt64.toNat_inj, UInt64.le_iff_toNat_le] at ab ba ⊢
    omega
  simp only [Volume.segment, terms.1, terms.2]

/-- The file of the newest volume changes to what another volume of its name holds. -/
theorem alter (stocked : Stocked t dir place blocked (v :: older)) (rising : Shelf.Rising (v :: older))
    (file : t.find? (place ++ [v.name]) = some (.file id v.content)) (v' : Volume) (name : v'.name = v.name)
    (change : Bytes → Bytes) (content : change v.content = v'.content) :
    Stocked (t.alter id change) dir place blocked (v' :: older) ∧
      (t.alter id change).find? (place ++ [v'.name]) = some (.file id v'.content) := by
  have newest : (t.alter id change).find? (place ++ [v'.name]) = some (.file id v'.content) := by
    rw [FileTree.find?_alter, name, file]
    simp [Inode.alter, content]
  have hosts := stocked.hosts.kept (FileTree.keepsDirectories_alter t id change)
  refine ⟨⟨stocked.sound.alter id change, hosts, ?_, ?_⟩, newest⟩
  · intro u member
    rcases List.mem_cons.mp member with rfl | below
    · exact ⟨id, newest⟩
    · obtain ⟨id', other⟩ := stocked.present u (List.mem_cons_of_mem _ below)
      refine ⟨id', ?_⟩
      have ne : id' ≠ id := by
        rintro rfl
        have names := List.append_cancel_left (stocked.sound.owned other file)
        have same := rising.name_inj (List.mem_cons_of_mem _ below) List.mem_cons_self (List.head_eq_of_cons_eq names)
        subst same
        exact (List.nodup_cons.mp rising.nodup).1 (List.mem_map.mpr ⟨u, below, rfl⟩)
      rw [FileTree.find?_alter, other]
      simp [Inode.alter, ne]
  · intro name' node lies
    rw [FileTree.find?_alter, Option.map_eq_some_iff] at lies
    obtain ⟨node', lies, altered⟩ := lies
    rcases stocked.others name' node' lies with ⟨u, member, same⟩ | ⟨rfl, inside⟩
    · left
      rcases List.mem_cons.mp member with rfl | below
      · exact ⟨v', List.mem_cons_self, name.trans same⟩
      · exact ⟨u, List.mem_cons_of_mem _ below, same⟩
    · exact .inr ⟨altered.symm, inside⟩

/-- No file has the name of the next volume. -/
theorem next_free (stocked : Stocked t dir place blocked vs) (rising : vs.Rising)
    (room : vs.tail.collection.toNat + 1 < 2 ^ 64) (term : UInt64) :
    t.find? (place ++ [Segment.name term (vs.tail.collection + 1)]) = none ∨
      t.find? (place ++ [Segment.name term (vs.tail.collection + 1)]) = some .directory ∧
        Segment.name term (vs.tail.collection + 1) ∈ blocked := by
  cases lies : t.find? (place ++ [Segment.name term (vs.tail.collection + 1)]) with
  | none => exact .inl rfl
  | some node =>
    rcases stocked.others _ node lies with ⟨u, member, same⟩ | ⟨rfl, inside⟩
    · have collection := (Segment.name_inj same).2
      have low := (rising.le_tail member).2
      have one : (1 : UInt64).toNat = 1 := rfl
      rw [collection, UInt64.le_iff_toNat_le, UInt64.toNat_add, one, Nat.mod_eq_of_lt (by omega)] at low
      omega
    · exact .inr ⟨rfl, inside⟩

/-- The empty file of the next volume turns the shelf over. -/
theorem create (stocked : Stocked t dir place blocked vs) {term : UInt64}
    (free : t.find? (place ++ [Segment.name term (vs.tail.collection + 1)]) = none) :
    Stocked (t.create (place ++ [Segment.name term (vs.tail.collection + 1)])).2 dir place blocked (vs.turnOver term) ∧
      (t.create (place ++ [Segment.name term (vs.tail.collection + 1)])).2.find?
        (place ++ [Segment.name term (vs.tail.collection + 1)]) = some (.file t.nextId []) := by
  have find := fun other => FileTree.find?_create free other
  have here : (t.create (place ++ [Segment.name term (vs.tail.collection + 1)])).2.find?
      (place ++ [Segment.name term (vs.tail.collection + 1)]) = some (.file t.nextId []) := by
    rw [find, if_pos rfl]
  refine ⟨⟨stocked.sound.create free ?_, stocked.hosts.kept (FileTree.keepsDirectories_create free), ?_, ?_⟩, here⟩
  · rw [List.dropLast_concat]
    exact stocked.hosts.directory
  · intro u member
    rcases List.mem_cons.mp member with rfl | below
    · exact ⟨t.nextId, here⟩
    · obtain ⟨id, file⟩ := stocked.present u below
      refine ⟨id, ?_⟩
      rw [find, if_neg, file]
      intro same
      rw [same] at file
      simp [file] at free
  · intro name node lies
    rw [find] at lies
    split at lies
    · rename_i same
      have names := List.append_cancel_left same
      exact .inl ⟨_, List.mem_cons_self, (List.head_eq_of_cons_eq names).symm⟩
    · rcases stocked.others name node lies with ⟨u, member, same⟩ | other
      · exact .inl ⟨u, List.mem_cons_of_mem _ member, same⟩
      · exact .inr other

end Stocked

namespace Shelved

variable {t t' : FileTree} {dir place : Path} {vs : Shelf}

/-- What happens elsewhere in the tree leaves the shelf as it is. -/
theorem kept (shelved : Shelved t dir place vs) (sound : t'.Sound) (keeps : FileTree.KeepsDirectories t t')
    (same : ∀ name, t'.find? (place ++ [name]) = t.find? (place ++ [name])) : Shelved t' dir place vs where
  sound := sound
  hosts := shelved.hosts.kept keeps
  present v member := by
    rw [same]
    exact shelved.present v member
  nothing name node lies := shelved.nothing name node (by rwa [same] at lies)

/-- An empty directory holds the empty shelf. -/
theorem nil (sound : t.Sound) (hosts : t.Hosts dir place Segment.nameWidth) (empty : t.children place = []) :
    Shelved t dir place [] := by
  refine ⟨sound, hosts, by simp, fun name node lies => ?_⟩
  rw [← sound.mem_children_iff, empty] at lies
  simp at lies

end Shelved

namespace Tail

/-- The shelf with room for a page, as the tail makes it: without an open file, or when the
    open one is full, in a new volume of the tail's term. -/
def room (tail : Tail) (vs : Shelf) : Shelf :=
  if tail.handle = none ∨ tail.isFull = true then vs.turnOver tail.position.term else vs

variable {m : Mounted Tail} {place : Path} {blocked : List String} {vs : Shelf} {bound : Nat}

/-- A tail that counts on from the end of the shelf in its directory, perhaps in a higher
    term. A file that it has open is the newest, in its own term. -/
structure Attends (m : Mounted Tail) (place : Path) (blocked : List String) (vs : Shelf) : Prop where
  stocked : Stocked m.disk m.item.dir place blocked vs
  collection : m.item.position.collection = vs.tail.collection
  seq : m.item.position.seq = vs.tail.seq
  term : vs.tail.term ≤ m.item.position.term
  held : ∀ id, m.item.handle = some id → ∃ v ∈ vs.head?, v.term = m.item.position.term ∧
    m.disk.find? (place ++ [v.name]) = some (.file id v.content)

/-- A tail stands at the end of the shelf in its directory, the newest file open. -/
structure Follows (m : Mounted Tail) (place : Path) (vs : Shelf) : Prop where
  shelved : Shelved m.disk m.item.dir place vs
  position : m.item.position = vs.tail
  closed : vs = [] → m.item.handle = none
  held : ∀ v ∈ vs.head?, ∃ id, m.item.handle = some id ∧ m.disk.find? (place ++ [v.name]) = some (.file id v.content)

/-- A tail follows a shelf when nothing stands in its way, it is in the shelf's own term and
    lacks no open file. -/
theorem follows_iff : Follows m place vs ↔ Attends m place [] vs ∧ m.item.position.term = vs.tail.term ∧
    (m.item.handle = none → vs = []) := by
  constructor
  · rintro ⟨shelved, position, closed, held⟩
    refine ⟨⟨shelved.stocked, by rw [position], by rw [position], by rw [position]; exact UInt64.le_refl _,
      fun id open? => ?_⟩, by rw [position], fun none => ?_⟩
    · cases vs with
      | nil => simp [closed rfl] at open?
      | cons v older =>
        obtain ⟨id', open', file⟩ := held v rfl
        rw [open', Option.some.injEq] at open?
        subst open?
        exact ⟨v, rfl, by rw [position]; rfl, file⟩
    · cases vs with
      | nil => rfl
      | cons v older =>
        obtain ⟨id', open', -⟩ := held v rfl
        simp [none] at open'
  · rintro ⟨attends, term, closed⟩
    refine ⟨shelved_iff.mpr attends.stocked, ?_, fun empty => ?_, fun v newest => ?_⟩
    · cases at_ : m.item.position with
      | mk t c s =>
        have collection := attends.collection
        have seq := attends.seq
        rw [at_] at term collection seq
        cases tail : vs.tail with
        | mk t' c' s' =>
          rw [tail] at term collection seq
          simp only at term collection seq
          rw [term, collection, seq]
    · cases open? : m.item.handle with
      | none => rfl
      | some id =>
        obtain ⟨v, newest, -⟩ := attends.held id open?
        simp [empty] at newest
    · cases open? : m.item.handle with
      | none => simp [closed open?] at newest
      | some id =>
        obtain ⟨v', newest', -, file⟩ := attends.held id open?
        obtain rfl := Option.mem_unique newest newest'
        exact ⟨id, rfl, file⟩

/-- What a tail never changes: its settings, and the tree outside its directory. -/
structure Within (place : Path) (m m' : Mounted Tail) : Prop where
  dir : m'.item.dir = m.item.dir
  limit : m'.item.limit = m.item.limit
  changes : FileTree.ChangesOnly place m.disk m'.disk

theorem Within.refl (place : Path) (m : Mounted Tail) : Within place m m := ⟨rfl, rfl, .refl _ _⟩

theorem Within.trans {m' m'' : Mounted Tail} (first : Within place m m') (second : Within place m' m'') :
    Within place m m'' :=
  ⟨second.dir.trans first.dir, second.limit.trans first.limit, first.changes.trans second.changes⟩

/-! ## Steps that a directory may stop -/

/-- What a step of a tail that needs room comes to: it is done on some shelf, in the same term
    and with a file open; or a directory stands where the next file would be, and all that
    changes is that no file is open. -/
inductive Outcome (m : Mounted Tail) (place : Path) (blocked : List String) (vs after : Shelf) :
    Except Error Unit × Mounted Tail → Prop where
  | done {m' : Mounted Tail} (attends : Attends m' place blocked after)
      (term : m'.item.position.term = m.item.position.term) (held : m'.item.handle ≠ none) (within : Within place m m') :
      Outcome m place blocked vs after (.ok (), m')
  | stopped (inside : Segment.name m.item.position.term (vs.tail.collection + 1) ∈ blocked) :
      Outcome m place blocked vs after (.error (.io .isADirectory), ⟨m.disk, { m.item with handle := none }⟩)

/-- The next segment is opened, whatever comes of it; the one before is closed. -/
theorem perform_openNext_eq (m : Mounted Tail) : openNext.perform m =
    match m.disk.openFile (Segment.pathIn m.item.dir m.item.position.term (m.item.position.collection + 1)) with
    | .ok (id, disk) => (.ok (), ⟨disk, { m.item with
        position := { m.item.position with collection := m.item.position.collection + 1, seq := 0 }
        handle := some id }⟩)
    | .error fault => (.error (.io fault), ⟨m.disk, { m.item with handle := none }⟩) := by
  simp only [openNext, Action.perform_bind, Mounted.perform_update, Mounted.perform_current, Mounted.produce,
    Action.perform_ofStep]
  rcases m.disk.openFile _ with _ | ⟨_, _⟩ <;> rfl

/-- The next volume is begun; whether a file is open before does not matter. -/
theorem perform_openNext (stocked : Stocked m.disk m.item.dir place blocked vs)
    (collection : m.item.position.collection = vs.tail.collection) (steady : vs.Steady bound) (small : bound + 1 < 2 ^ 64) :
    Outcome m place blocked vs (vs.turnOver m.item.position.term) (openNext.perform m) := by
  have room : vs.tail.collection.toNat + 1 < 2 ^ 64 := by
    have := steady.collection
    omega
  have plain := Segment.plain_name m.item.position.term (vs.tail.collection + 1)
  rw [perform_openNext_eq, collection, Segment.pathIn]
  rcases stocked.next_free steady.rising room m.item.position.term with free | ⟨lies, inside⟩
  · obtain ⟨stocked', file⟩ := stocked.create free
    rw [stocked.hosts.openFile_absent plain.1 (Nat.le_of_eq plain.2) free]
    refine Outcome.done ⟨stocked', rfl, rfl, UInt64.le_refl _, fun id held => ?_⟩ rfl (by simp)
      ⟨rfl, rfl, FileTree.changesOnly_create free⟩
    obtain rfl : m.disk.nextId = id := by simpa [FileTree.create] using held
    exact ⟨_, rfl, rfl, file⟩
  · rw [stocked.hosts.openFile_directory plain.1 (Nat.le_of_eq plain.2) lies]
    exact Outcome.stopped inside

/-- The next segment is created when none is open or the open one is full. -/
theorem perform_makeRoom_eq (m : Mounted Tail) : Tail.makeRoom.perform m =
    if m.item.handle = none ∨ m.item.isFull = true then openNext.perform m else (.ok (), m) := by
  simp only [Tail.makeRoom, Action.perform_bind, Mounted.perform_current]
  split
  · rfl
  · rw [Action.perform_pure]

theorem Attends.makeRoom (attends : Attends m place blocked vs) (steady : vs.Steady bound) (small : bound + 1 < 2 ^ 64) :
    Outcome m place blocked vs (m.item.room vs) (makeRoom.perform m) := by
  rw [perform_makeRoom_eq, room]
  by_cases turn : m.item.handle = none ∨ m.item.isFull = true
  · rw [if_pos turn, if_pos turn]
    exact perform_openNext attends.stocked attends.collection steady small
  · rw [if_neg turn, if_neg turn]
    exact .done attends rfl (fun none => turn (.inl none)) (.refl place m)

/-- The shelf with room is as steady and whole as before, and not empty. -/
theorem Attends.room (attends : Attends m place blocked vs) (steady : vs.Steady bound) (whole : vs.Whole)
    (small : bound + 1 < 2 ^ 64) :
    Shelf.Steady (bound + 1) (m.item.room vs) ∧ Shelf.Whole (m.item.room vs) ∧ m.item.room vs ≠ [] := by
  unfold Tail.room
  split
  · exact ⟨steady.turnOver whole attends.term small, whole.turnOver _, by simp [Shelf.turnOver]⟩
  · rename_i stays
    refine ⟨steady.mono (Nat.le_succ _) small, whole, fun empty => stays (.inl ?_)⟩
    cases held : m.item.handle with
    | none => rfl
    | some id =>
      obtain ⟨v, newest, -⟩ := attends.held id held
      simp [empty] at newest

/-- A page goes to the segment that is open once there is room. -/
theorem perform_appendPage_of {page : Page.Kind × Bytes} (fits : Page.Fits page) {m' : Mounted Tail} {id : FileId}
    (made : Tail.makeRoom.perform m = (.ok (), m')) (held : m'.item.handle = some id) :
    (appendPage page.1 page.2).perform m = (.ok (), ⟨m'.disk.append id (Page.image page),
      { m'.item with position := { m'.item.position with seq := m'.item.position.seq + 1 } }⟩) := by
  simp [appendPage, Page.encode_eq_image fits, Action.perform_bind, made, held, Mounted.change]

theorem perform_appendPage_stopped {page : Page.Kind × Bytes} (fits : Page.Fits page) {m' : Mounted Tail} {e : Error}
    (stopped : Tail.makeRoom.perform m = (.error e, m')) : (appendPage page.1 page.2).perform m = (.error e, m') := by
  simp [appendPage, Page.encode_eq_image fits, Action.perform_bind, stopped]

theorem Attends.appendPage (attends : Attends m place blocked vs) (steady : vs.Steady bound) (whole : vs.Whole)
    {page : Page.Kind × Bytes} (fits : Page.Fits page) (small : bound + 1 < 2 ^ 64) :
    Outcome m place blocked vs (Shelf.put page (m.item.room vs)) ((appendPage page.1 page.2).perform m) := by
  obtain ⟨steady', whole', ne⟩ := attends.room steady whole small
  have made := attends.makeRoom steady small
  cases roomy : Tail.makeRoom.perform m with
  | mk answer m' =>
    rw [roomy] at made
    cases made with
    | stopped inside =>
      rw [perform_appendPage_stopped fits roomy]
      exact .stopped inside
    | done attends' term held within =>
      obtain ⟨id, open?⟩ := Option.ne_none_iff_exists'.mp held
      obtain ⟨v, newest, ownTerm, file⟩ := attends'.held id open?
      cases shelf : m.item.room vs with
      | nil => exact absurd shelf ne
      | cons w older =>
        rw [shelf] at newest attends' steady' whole'
        simp only [List.head?_cons, Option.mem_def, Option.some.injEq] at newest
        subst newest
        obtain ⟨stocked, file'⟩ := attends'.stocked.alter steady'.rising file (w.addPage page) rfl
          (· ++ Page.image page) (Volume.content_addPage page (whole' w List.mem_cons_self)).symm
        have next : (w.addPage page).tail = { w.tail with seq := w.tail.seq + 1 } := Volume.tail_addPage page w
        have counted : m'.item.position.seq = w.tail.seq := attends'.seq
        rw [perform_appendPage_of fits roomy open?]
        refine .done ⟨stocked, attends'.collection, ?_, attends'.term, fun id' open' => ?_⟩ term held
          ⟨within.dir, within.limit, within.changes.trans (attends'.stocked.sound.changesOnly_alter file _)⟩
        · change m'.item.position.seq + 1 = (w.addPage page).tail.seq
          rw [next, counted]
        · obtain rfl : id = id' := by simpa [open?] using open'
          exact ⟨_, rfl, ownTerm, file'⟩

/-- A higher term: its first file is created, or a directory stands there. The term counts
    either way. -/
theorem Attends.startTerm (attends : Attends m place blocked vs) (steady : vs.Steady bound) (small : bound + 1 < 2 ^ 64)
    {term : UInt64} (higher : m.item.position.term < term) :
    Outcome ⟨m.disk, { m.item with position := { m.item.position with term } }⟩ place blocked vs (vs.turnOver term)
      ((Tail.startTerm term).perform m) := by
  have same : (Tail.startTerm term).perform m =
      openNext.perform ⟨m.disk, { m.item with position := { m.item.position with term } }⟩ := by
    simp only [Tail.startTerm, Action.perform_bind, Mounted.perform_current, UInt64.not_le.mpr higher, ↓reduceIte,
      Mounted.perform_update]
  rw [same]
  exact perform_openNext (m := ⟨m.disk, { m.item with position := { m.item.position with term } }⟩)
    attends.stocked attends.collection steady small

/-- A term that is not higher is refused. -/
theorem startTerm_low {term : UInt64} (low : term ≤ m.item.position.term) :
    ∃ e, (Tail.startTerm term).perform m = (.error e, m) := by
  simp only [Tail.startTerm, Action.perform_bind, Mounted.perform_current, low, ↓reduceIte, Action.perform_throw]
  exact ⟨_, rfl⟩

/-! ## Steps that nothing stops -/

/-- Where no directory stands in the way a step is done. -/
theorem Outcome.follows {after : Shelf} {result : Except Error Unit × Mounted Tail}
    (outcome : Outcome m place [] vs after result) (term : m.item.position.term = after.tail.term) :
    ∃ m', result = (.ok (), m') ∧ Follows m' place after ∧ Within place m m' := by
  cases outcome with
  | done attends same held within =>
    exact ⟨_, rfl, follows_iff.mpr ⟨attends, same.trans term, fun none => absurd none held⟩, within⟩
  | stopped inside => cases inside

theorem Follows.attends (follows : Follows m place vs) : Attends m place [] vs := (follows_iff.mp follows).1

/-- A tail that stands at the end of the shelf, with a file open if there is one, makes room as
    on the shelf. -/
theorem room_eq (position : m.item.position = vs.tail) (closed : m.item.handle = none ↔ vs = []) :
    m.item.room vs = vs.makeRoom m.item.limit := by
  have full : m.item.isFull = vs.isFull m.item.limit := by rw [isFull, Shelf.isFull, position]
  simp only [Tail.room, Shelf.makeRoom, closed, full, position]

theorem Follows.appendPage (follows : Follows m place vs) (steady : vs.Steady bound) (whole : vs.Whole)
    {page : Page.Kind × Bytes} (fits : Page.Fits page) (small : bound + 1 < 2 ^ 64) :
    ∃ m', (appendPage page.1 page.2).perform m = (.ok (), m') ∧ Follows m' place (vs.addPage m.item.limit page) ∧
      Within place m m' := by
  have outcome := follows.attends.appendPage steady whole fits small
  rw [room_eq follows.position ⟨(follows_iff.mp follows).2.2, follows.closed⟩] at outcome
  refine outcome.follows ?_
  rw [follows.position]
  exact (Shelf.term_addPage m.item.limit page vs).symm

theorem Follows.appendPages (follows : Follows m place vs) (steady : vs.Steady bound) (whole : vs.Whole)
    {pages : List (Page.Kind × Bytes)} (fits : ∀ page ∈ pages, Page.Fits page) (small : bound + pages.length < 2 ^ 64) :
    ∃ m', (pages.forM fun page => Tail.appendPage page.1 page.2).perform m = (.ok (), m') ∧
      Follows m' place (vs.addPages m.item.limit pages) ∧ Within place m m' := by
  induction pages generalizing m vs bound with
  | nil => exact ⟨m, rfl, follows, .refl place m⟩
  | cons page rest ih =>
    rw [List.length_cons] at small
    have first := fits page List.mem_cons_self
    obtain ⟨m', done, follows', within⟩ := follows.appendPage steady whole first (by omega)
    obtain ⟨m'', rest', follows'', within'⟩ := ih follows' (steady.addPage whole m.item.limit first (by omega))
      (whole.addPage m.item.limit page) (fun p member => fits p (List.mem_cons_of_mem _ member)) (by omega)
    refine ⟨m'', ?_, ?_, within.trans within'⟩
    · rw [Action.perform_forM_cons, done]
      exact rest'
    · rw [within.limit] at follows''
      exact follows''

/-- The pages of a record more; the answer is the position after the last of them. -/
theorem Follows.append (follows : Follows m place vs) (steady : vs.Steady bound) (whole : vs.Whole) (record : Bytes)
    (small : bound + (Record.split record).length < 2 ^ 64) :
    ∃ m', (append record).perform m = (.ok (vs.addPages m.item.limit (Record.split record)).tail, m') ∧
      Follows m' place (vs.addPages m.item.limit (Record.split record)) ∧ Within place m m' := by
  obtain ⟨m', done, follows', within⟩ := follows.appendPages steady whole (Record.fits_split record) small
  refine ⟨m', ?_, follows', within⟩
  simp only [Tail.append, tell, Action.perform_bind, done, Mounted.perform_current, Action.perform_pure, follows'.position]

/-- A higher term begins with a volume of its own. -/
theorem Follows.startTerm (follows : Follows m place vs) (steady : vs.Steady bound) (small : bound + 1 < 2 ^ 64)
    {term : UInt64} (higher : vs.tail.term < term) :
    ∃ m', (startTerm term).perform m = (.ok (), m') ∧ Follows m' place (vs.turnOver term) ∧ Within place m m' := by
  rw [← follows.position] at higher
  obtain ⟨m', done, follows', within⟩ := (follows.attends.startTerm steady small higher).follows rfl
  exact ⟨m', done, follows', ⟨within.dir, within.limit, within.changes⟩⟩

end Tail
end Shiplog
