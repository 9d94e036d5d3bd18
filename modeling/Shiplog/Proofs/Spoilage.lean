import Shiplog.Proofs.Blots

/-!
Taking up a log with an overwritten page in an older file. What is done to the other files
can be done before the page is overwritten or after (`Blot.Passes`); only where the newest
file has no page is the one before it asked for its last, which may be the overwritten one.
So a new log finds the damage, or takes up the segments as it would without
(`Blot.Spoils.mount_cases`).
-/
namespace Shiplog

namespace FileTree

variable {t t' : FileTree} {place : Path} {id id' : FileId} {change change' : Bytes → Bytes}

/-- Changes of two files can be made in either order. -/
theorem alter_comm (apart : id ≠ id') (t : FileTree) :
    (t.alter id change).alter id' change' = (t.alter id' change').alter id change := by
  simp only [alter, List.map_map]
  congr 2
  funext entry
  obtain ⟨path, node⟩ := entry
  cases node with
  | directory => rfl
  | file id'' content =>
    by_cases first : id'' = id
    · subst first
      simp [apart]
    · simp [first]

theorem create_alter (apart : id ≠ t.nextId) (place : Path) :
    (t.alter id change).create place = (t.nextId, (t.create place).2.alter id change) := by
  simp [create, add, alter, Ne.symm apart]

theorem openFile_alter (apart : id ≠ t.nextId) (change : Bytes → Bytes) (path : Path) : (t.alter id change).openFile path =
    (t.openFile path).map fun opened => (opened.1, opened.2.alter id change) := by
  simp only [openFile, resolve_alter, find?_alter, bind, Except.bind]
  rcases t.resolve path with fault | place
  · rfl
  · rcases lies : t.find? place with _ | _ | ⟨id', content⟩
    · simp only [lies, Option.map_none, create_alter apart]
      rfl
    · simp only [lies, Option.map_some]
      rfl
    · simp only [lies, Option.map_some]
      rfl

theorem ChangesOnly.alter (changes : ChangesOnly place t t') (id : FileId) (change : Bytes → Bytes) :
    ChangesOnly place (t.alter id change) (t'.alter id change) := by
  refine ⟨fun other lies => ?_, fun p apart => by rw [find?_alter, find?_alter, changes.same p apart]⟩
  rw [find?_alter, Option.map_eq_some_iff] at lies
  obtain ⟨node, before, after⟩ := lies
  cases node with
  | directory => rw [find?_alter, changes.keeps other before, Option.map_some, after]
  | file => cases after

end FileTree

namespace Shelf

variable {older : Shelf} {u v : Volume} {limit : UInt64}

theorem Rising.apart (rising : Rising (u :: older)) (member : v ∈ older) : v ≠ u := by
  rintro rfl
  exact UInt64.lt_irrefl _ (rising.below member).2

theorem mem_addPage (page : Page.Kind × Bytes) (member : v ∈ older) : v ∈ addPage limit page (u :: older) := by
  rw [addPage, makeRoom]
  split
  · exact List.mem_cons_of_mem _ (List.mem_cons_of_mem _ member)
  · exact List.mem_cons_of_mem _ member

/-- Mending leaves all volumes but the newest as they are. -/
theorem mem_mend (member : v ∈ older) : v ∈ mend limit (u :: older) := by
  rw [mend]
  split
  · exact mem_addPage _ member
  · exact List.mem_cons_of_mem _ member

end Shelf

namespace Blot

variable {x : Blot} {place : Path} {id : FileId} {change : Bytes → Bytes} {α β γ : Type} {older : Shelf} {w : Volume}
  {bound : Nat}

/-! ## Actions that pass by the file -/

/-- An action passes by the file of a blot: it keeps the file, and does the same where the page is
    overwritten. -/
structure Passes (x : Blot) (place : Path) (id : FileId) (change : Bytes → Bytes) (act : Action (Mounted α) β)
    (m : Mounted α) : Prop where
  spoils : x.Spoils (act.perform m).2.disk place id change
  same : act.perform ⟨m.disk.alter id change, m.item⟩ =
    ((act.perform m).1, ⟨(act.perform m).2.disk.alter id change, (act.perform m).2.item⟩)

theorem Passes.bind {act : Action (Mounted α) β} {next : β → Action (Mounted α) γ} {m : Mounted α}
    (first : x.Passes place id change act m)
    (later : ∀ b m', act.perform m = (.ok b, m') → x.Spoils m'.disk place id change → x.Passes place id change (next b) m') :
    x.Passes place id change (act >>= next) m := by
  obtain ⟨spoils, same⟩ := first
  rcases done : act.perform m with ⟨e | b, m'⟩
  · rw [done] at spoils same
    have failed : (act >>= next).perform m = (.error e, m') := Action.perform_bind_error done
    exact ⟨by rw [failed]; exact spoils, by rw [failed, Action.perform_bind_error same]⟩
  · rw [done] at spoils same
    have second := later b m' done spoils
    have goes : (act >>= next).perform m = (next b).perform m' := Action.perform_bind_ok done
    exact ⟨by rw [goes]; exact second.spoils, by rw [goes, Action.perform_bind_ok same]; exact second.same⟩

theorem Passes.onTail {act : Action (Mounted Tail) β} {m : Mounted Log}
    (passes : x.Passes place id change act (Log.tailOf m)) : x.Passes place id change (Log.onTail act) m := by
  refine ⟨by rw [Log.perform_onTail]; exact passes.spoils, ?_⟩
  have same : act.perform (Log.tailOf ⟨m.disk.alter id change, m.item⟩) = _ := passes.same
  rw [Log.perform_onTail, Log.perform_onTail, same]

/-- Opening a file keeps the others. -/
theorem Spoils.openFile {t t' : FileTree} {path : Path} {id' : FileId} (spoils : x.Spoils t place id change)
    (opened : t.openFile path = .ok (id', t')) : x.Spoils t' place id change := by
  simp only [FileTree.openFile, bind, Except.bind] at opened
  cases resolved : t.resolve path with
  | error fault => simp [resolved] at opened
  | ok there =>
    simp only [resolved] at opened
    cases lies : t.find? there with
    | none =>
      simp only [lies, Except.ok.injEq] at opened
      have elsewhere : place ++ [x.volume.name] ≠ there := by
        rintro rfl
        simp [spoils.file] at lies
      have find := FileTree.find?_create lies (place ++ [x.volume.name])
      rw [opened, if_neg elsewhere, spoils.file] at find
      exact ⟨find, spoils.content⟩
    | some node =>
      cases node with
      | directory => simp [lies] at opened
      | file id content =>
        simp only [lies, Except.ok.injEq, Prod.mk.injEq] at opened
        rwa [← opened.2]

section
variable {m : Mounted Tail} (spoils : x.Spoils m.disk place id change)
include spoils

theorem Spoils.passes_resume (sound : m.disk.Sound) (term collection pages : UInt64) :
    x.Passes place id change (Tail.resume term collection pages) m := by
  have opens := FileTree.openFile_alter (Nat.ne_of_lt (sound.fresh spoils.file)) change
    (Segment.pathIn m.item.dir term collection)
  constructor <;> rw [Tail.perform_resume_eq]
  · rcases opened : m.disk.openFile _ with _ | ⟨_, _⟩
    · exact spoils
    · exact spoils.openFile opened
  · rw [Tail.perform_resume_eq, opens]
    rcases m.disk.openFile _ with _ | ⟨_, _⟩ <;> rfl

theorem Spoils.passes_openNext (sound : m.disk.Sound) : x.Passes place id change Tail.openNext m := by
  have opens := FileTree.openFile_alter (Nat.ne_of_lt (sound.fresh spoils.file)) change
    (Segment.pathIn m.item.dir m.item.position.term (m.item.position.collection + 1))
  constructor <;> rw [Tail.perform_openNext_eq]
  · rcases opened : m.disk.openFile _ with _ | ⟨_, _⟩
    · exact spoils
    · exact spoils.openFile opened
  · rw [Tail.perform_openNext_eq, opens]
    rcases m.disk.openFile _ with _ | ⟨_, _⟩ <;> rfl

theorem Spoils.passes_makeRoom (sound : m.disk.Sound) : x.Passes place id change Tail.makeRoom m := by
  obtain ⟨kept, same⟩ := spoils.passes_openNext sound
  by_cases turn : m.item.handle = none ∨ m.item.isFull = true
  · constructor <;> rw [Tail.perform_makeRoom_eq, if_pos turn]
    · exact kept
    · rw [Tail.perform_makeRoom_eq, if_pos turn]
      exact same
  · constructor <;> rw [Tail.perform_makeRoom_eq, if_neg turn]
    · exact spoils
    · rw [Tail.perform_makeRoom_eq, if_neg turn]

/-- A page at the end of the shelf goes to the newest file, not to the one of the blot. -/
theorem Spoils.passes_appendPage {blocked : List String} (attends : Tail.Attends m place blocked (w :: older))
    (steady : Shelf.Steady bound (w :: older)) (whole : Shelf.Whole (w :: older)) (member : x.volume ∈ older)
    {page : Page.Kind × Bytes} (fits : Page.Fits page) (small : bound + 1 < 2 ^ 64) :
    x.Passes place id change (Tail.appendPage page.1 page.2) m := by
  obtain ⟨kept, same⟩ := spoils.passes_makeRoom attends.stocked.sound
  have made := attends.makeRoom steady small
  have steady' := (attends.room steady whole small).1
  rcases roomy : Tail.makeRoom.perform m with ⟨e | _, m'⟩
  · rw [roomy] at same kept
    exact ⟨by rw [Tail.perform_appendPage_stopped fits roomy]; exact kept, by
      rw [Tail.perform_appendPage_stopped fits roomy, Tail.perform_appendPage_stopped fits same]⟩
  · rw [roomy] at made same kept
    cases made with
    | done attends' _ held _ =>
      obtain ⟨u, rest, room, below⟩ : ∃ u rest, m.item.room (w :: older) = u :: rest ∧ x.volume ∈ rest := by
        rw [Tail.room]
        split
        · exact ⟨_, _, rfl, List.mem_cons_of_mem _ member⟩
        · exact ⟨_, _, rfl, member⟩
      rw [room] at attends' steady'
      obtain ⟨id', open?⟩ := Option.ne_none_iff_exists'.mp held
      obtain ⟨v, newest, -, file⟩ := attends'.held id' open?
      obtain rfl : u = v := by simpa using newest
      have elsewhere : place ++ [x.volume.name] ≠ place ++ [u.name] := fun names =>
        steady'.rising.apart below (steady'.rising.name_inj (List.mem_cons_of_mem _ below) List.mem_cons_self
          (by simpa using names))
      have apart : id ≠ id' := by
        rintro rfl
        exact elsewhere (attends'.stocked.sound.owned kept.file file)
      have appended := Tail.perform_appendPage_of fits roomy open?
      refine ⟨?_, ?_⟩
      · rw [appended]
        refine ⟨?_, kept.content⟩
        rw [FileTree.append, attends'.stocked.sound.find?_alter_file file, if_neg elsewhere]
        exact kept.file
      · rw [appended, Tail.perform_appendPage_of fits same open?, FileTree.append, FileTree.append,
          FileTree.alter_comm apart]

end

/-! ## Taking up a log with the page in an older file -/

section
variable {t : FileTree} {dir : Path} {blocked : List String} {vs : Shelf} {u : Volume}
  (spoils : x.Spoils t place id change) (stocked : Stocked t dir place blocked vs) (rising : vs.Rising)
  (member : x.volume ∈ vs)
include spoils stocked rising member

theorem Spoils.length_other (other : u ∈ vs) (apart : u ≠ x.volume) :
    (t.alter id change).length (u.segment dir).path = t.length (u.segment dir).path := by
  obtain ⟨id', file⟩ := stocked.present u other
  have same := (spoils.find?_other stocked.sound rising member other apart).trans file
  have hosts := stocked.hosts.kept (FileTree.keepsDirectories_alter t id change)
  exact (hosts.length_child u.plain_name.1 u.plain_name.2 same).trans
    (stocked.hosts.length_child u.plain_name.1 u.plain_name.2 file).symm

theorem Spoils.inspect_other (other : u ∈ vs) (apart : u ≠ x.volume) :
    Repair.inspect (t.alter id change) (u.segment dir).path = .ok ⟨u.pages.length, u.lastKind, u.torn.length⟩ := by
  have undamaged : Repair.inspect t (u.segment dir).path = _ := Repair.inspect_eq stocked rising other
  rw [← undamaged]
  simp only [Repair.inspect, spoils.length_other stocked rising member other apart,
    spoils.read_other stocked rising member other apart]

theorem Spoils.lastKind_other (other : u ∈ vs) (apart : u ≠ x.volume) :
    Repair.lastKind (t.alter id change) (u.segment dir).path = .ok u.lastKind := by
  have undamaged : Repair.lastKind t (u.segment dir).path = _ := Repair.lastKind_eq stocked rising other
  rw [← undamaged]
  simp only [Repair.lastKind, spoils.length_other stocked rising member other apart,
    spoils.read_other stocked rising member other apart]

/-- A cut of another file can be made before the page is overwritten or after. -/
theorem Spoils.setLength_other (other : u ∈ vs) (apart : u ≠ x.volume) (length : Nat) :
    (t.alter id change).setLength (u.segment dir).path length =
      (t.setLength (u.segment dir).path length).map fun t' => t'.alter id change := by
  obtain ⟨id', file⟩ := stocked.present u other
  have elsewhere : place ++ [x.volume.name] ≠ place ++ [u.name] := fun names =>
    apart (rising.name_inj other member (by simpa using names.symm))
  have different : id ≠ id' := by
    rintro rfl
    exact elsewhere (stocked.sound.owned spoils.file file)
  have same := (spoils.find?_other stocked.sound rising member other apart).trans file
  have hosts := stocked.hosts.kept (FileTree.keepsDirectories_alter t id change)
  have cut := hosts.setLength_child u.plain_name.1 u.plain_name.2 same length
  have undamaged : t.setLength (u.segment dir).path length = _ :=
    stocked.hosts.setLength_child u.plain_name.1 u.plain_name.2 file length
  rw [FileTree.alter_comm different] at cut
  rw [undamaged]
  exact cut

end

/-- Whether a record is open is told as it was, or the damage shows. -/
theorem Spoils.asked {t : FileTree} {dir : Path} {blocked : List String} (spoils : x.Spoils t place id change)
    (stocked : Stocked t dir place blocked (w.trim :: older)) (rising : Shelf.Rising (w.trim :: older))
    (member : x.volume ∈ older) :
    Repair.asked w.lastKind ((older.head?.map (Volume.segment dir)).map Segment.path) (t.alter id change) =
        .ok (Shelf.endsOpen (w :: older)) ∨
      Repair.asked w.lastKind ((older.head?.map (Volume.segment dir)).map Segment.path) (t.alter id change) =
        .error x.error := by
  cases last : w.lastKind with
  | some kind =>
    rw [Shelf.endsOpen_of_some last]
    exact .inl rfl
  | none =>
    rw [Shelf.endsOpen_of_none last]
    cases older with
    | nil => exact .inl rfl
    | cons u rest =>
      have inside := List.mem_cons_of_mem w.trim member
      have told : Repair.lastKind (t.alter id change) (u.segment dir).path = .ok u.lastKind ∨
          Repair.lastKind (t.alter id change) (u.segment dir).path = .error x.error := by
        by_cases here : u = x.volume
        · rw [here]
          exact spoils.lastKind stocked rising inside
        · exact .inl (spoils.lastKind_other stocked rising inside (List.mem_cons_of_mem _ List.mem_cons_self) here)
      rcases told with told | told
      · exact .inl (by simp [Repair.asked, told, Except.map])
      · exact .inr (by simp [Repair.asked, told, Except.map])

section
variable {m : Mounted Log} {blocked : List String} (spoils : x.Spoils m.disk place id change)
  (stocked : Stocked m.disk m.item.dir place blocked (w :: older))
include spoils stocked

/-- The repair passes by the file, or is stopped by the damage after the cut. -/
theorem Spoils.repair_cases (rising : Shelf.Rising (w :: older)) (member : x.volume ∈ older) :
    ∃ t', Stocked t' m.item.dir place blocked (w.trim :: older) ∧ FileTree.ChangesOnly place m.disk t' ∧
      x.Spoils t' place id change ∧
      (Repair.repair (w.segment m.item.dir).path ((older.head?.map (Volume.segment m.item.dir)).map Segment.path)).perform
        m.disk = (.ok ⟨w.pages.length, w.torn.length, Shelf.endsOpen (w :: older) || Shelf.isTorn (w :: older)⟩, t') ∧
      ((Repair.repair (w.segment m.item.dir).path ((older.head?.map (Volume.segment m.item.dir)).map Segment.path)).perform
          (m.disk.alter id change) =
            (.ok ⟨w.pages.length, w.torn.length, Shelf.endsOpen (w :: older) || Shelf.isTorn (w :: older)⟩,
              t'.alter id change) ∨
        (Repair.repair (w.segment m.item.dir).path ((older.head?.map (Volume.segment m.item.dir)).map Segment.path)).perform
          (m.disk.alter id change) = (.error x.error, t'.alter id change)) := by
  have inside := List.mem_cons_of_mem w member
  have apart := rising.apart member
  obtain ⟨id', file⟩ := stocked.present w List.mem_cons_self
  obtain ⟨t', cut, stocked', others, -⟩ := Repair.cut_newest stocked rising
  have elsewhere : place ++ [x.volume.name] ≠ place ++ [w.name] := fun names =>
    apart (rising.name_inj inside List.mem_cons_self (by simpa using names))
  have spoils' : x.Spoils t' place id change := ⟨(others _ elsewhere).trans spoils.file, spoils.content⟩
  have found : Repair.inspect m.disk (w.segment m.item.dir).path = .ok ⟨w.pages.length, w.lastKind, w.torn.length⟩ :=
    Repair.inspect_eq stocked rising List.mem_cons_self
  have found' := spoils.inspect_other stocked rising inside List.mem_cons_self apart.symm
  have cut' : (if 0 < w.torn.length then
      (m.disk.alter id change).setLength (w.segment m.item.dir).path (w.pages.length * Page.size)
      else .ok (m.disk.alter id change)) = .ok (t'.alter id change) := by
    by_cases torn : 0 < w.torn.length
    · rw [if_pos torn] at cut ⊢
      rw [spoils.setLength_other stocked rising inside List.mem_cons_self apart.symm, cut]
      rfl
    · rw [if_neg torn] at cut ⊢
      rw [Except.ok.inj cut]
  refine ⟨t', stocked', FileTree.changesOnly_of_find? w.name (by simp [file]) others, spoils', ?_, ?_⟩
  · rw [Repair.perform_repair_of found cut, Repair.asked_eq stocked' rising.trim]
    rfl
  · rw [Repair.perform_repair_of found' cut']
    rcases spoils'.asked stocked' rising.trim member with told | told
    · exact .inl (by rw [told]; rfl)
    · exact .inr (by rw [told]; rfl)

/-- Taking up the newest file passes by the one of the blot, or is stopped by the damage. -/
theorem Spoils.takeUp_cases (steady : Shelf.Steady bound (w :: older)) (small : bound + 1 < 2 ^ 64)
    (member : x.volume ∈ older) :
    x.Passes place id change
        (Log.takeUp (w.segment m.item.dir) (older.head?.map (Volume.segment m.item.dir))) m ∨
      ∃ t', t'.Sound ∧ FileTree.ChangesOnly place m.disk t' ∧
        (Log.takeUp (w.segment m.item.dir) (older.head?.map (Volume.segment m.item.dir))).perform
          ⟨m.disk.alter id change, m.item⟩ = (.error x.error, ⟨t'.alter id change, m.item⟩) := by
  obtain ⟨t', stocked', changes, spoils', repaired, outcome⟩ := spoils.repair_cases stocked steady.rising member
  rcases outcome with passed | stopped
  · refine .inl (Passes.bind ⟨?_, ?_⟩ fun report m' done _ => ?_)
    · rw [Log.perform_onDisk, repaired]
      exact spoils'
    · rw [Log.perform_onDisk, Log.perform_onDisk, repaired, passed]
    rw [Log.perform_onDisk, repaired] at done
    cases done
    obtain ⟨tail, resumed, attends, -⟩ := Tail.perform_resume (m := ⟨t', m.item.tail⟩) (v := w.trim) stocked'
    refine Passes.bind (Passes.onTail (Spoils.passes_resume spoils' stocked'.sound _ _ _)) fun _ m' done spoils'' => ?_
    have same : (Log.onTail (Tail.resume (w.segment m.item.dir).term (w.segment m.item.dir).collection
        (UInt64.ofNat w.pages.length))).perform ⟨t', m.item⟩ = (.ok (), ⟨t', { m.item with tail }⟩) :=
      Log.perform_onTail_of (m := ⟨t', m.item⟩) resumed
    obtain rfl : m' = ⟨t', { m.item with tail }⟩ := congrArg Prod.snd (done.symm.trans same)
    split
    · obtain ⟨trimmed, clean⟩ := steady.trim
      have fits : Page.Fits (.brokenEnd, []) := Nat.zero_le _
      exact (Spoils.passes_appendPage (m := ⟨t', tail⟩) spoils'' attends trimmed clean member fits small).onTail
    · exact ⟨spoils'', rfl⟩
  · refine .inr ⟨t', stocked'.sound, changes, ?_⟩
    rw [Log.takeUp, Action.perform_bind, Log.perform_onDisk, stopped]

end

/-- A new log over the files finds the damage, or passes by the overwritten page as the file of one
    of its older volumes. -/
theorem Spoils.mount_cases {m : Mounted Log} {vs : Shelf} (spoils : x.Spoils m.disk place id change)
    (shelved : Shelved m.disk m.item.dir place vs) (steady : vs.Steady bound) (small : bound + 1 < 2 ^ 64)
    (member : x.volume ∈ vs) :
    (x.Passes place id change Log.mount m ∧ x.volume ∈ vs.mend m.item.tail.limit) ∨
      ∃ t', t'.Sound ∧ FileTree.ChangesOnly place m.disk t' ∧
        Log.mount.perform ⟨m.disk.alter id change, m.item⟩ = (.error x.error, ⟨t'.alter id change, m.item⟩) := by
  have stocked := shelved.stocked
  cases vs with
  | nil => cases member
  | cons w older =>
    rcases List.mem_cons.mp member with newest | below
    · subst newest
      exact .inr ⟨m.disk, stocked.sound, .refl _ _, spoils.perform_mount_newest stocked steady.rising⟩
    · have hosts := stocked.hosts.kept (FileTree.keepsDirectories_alter m.disk id change)
      have listed := stocked.list steady.rising
      have listed' : Segment.list (m.disk.alter id change) m.item.dir = _ := (Segment.list_alter ..).trans listed
      have reversed : ((w :: older).reverse.map (Volume.segment m.item.dir)).reverse =
          w.segment m.item.dir :: older.map (Volume.segment m.item.dir) := by
        rw [← List.map_reverse, List.reverse_reverse, List.map_cons]
      have start := Log.perform_mount_newest stocked.hosts listed reversed
      have start' := Log.perform_mount_newest (m := ⟨m.disk.alter id change, m.item⟩) hosts listed' reversed
      rw [List.head?_map] at start start'
      rcases spoils.takeUp_cases stocked steady small below with passes | ⟨t', sound, changes, stopped⟩
      · have all := Passes.bind passes fun _ m' _ spoils' => (⟨spoils', rfl⟩ : x.Passes place id change (do
          Mounted.update fun log : Log => { log with mounted := true }
          return (← Mounted.current).position) m')
        refine .inl ⟨⟨?_, ?_⟩, Shelf.mem_mend below⟩
        · rw [start]
          exact all.spoils
        · rw [start, start']
          exact all.same
      · refine .inr ⟨t', sound, changes, ?_⟩
        rw [start', Action.perform_bind, stopped]

end Blot
end Shiplog
