import Shiplog.Proofs.Refusals

/-!
A store on disk through a run. Values are put, read and removed, the entries listed and the
store taken up again; puts break off and leave a temporary file, and files that are named
by no key are strewn about the directory. Whatever happens, the directory holds one map
(`Filed`), and every answer is that of the map, which is that of a store in memory
(`run_as_memory`).
-/
namespace Shiplog

namespace Hex

/-- Only lower-case digits spell bytes. -/
theorem isLower_of_pairs? {cs : List Char} {bs : Bytes} (spelt : pairs? cs = some bs) {c : Char} (member : c ∈ cs) :
    isLower c = true := by
  induction cs using pairs?.induct generalizing bs with
  | case1 => cases member
  | case2 => simp [pairs?] at spelt
  | case3 d e rest lower ih =>
    rw [pairs?, if_pos lower] at spelt
    obtain ⟨n, -, spelt⟩ := Option.bind_eq_some_iff.mp spelt
    obtain ⟨later, found, -⟩ := Option.map_eq_some_iff.mp spelt
    rw [Bool.and_eq_true] at lower
    rcases List.mem_cons.mp member with rfl | member
    · exact lower.1
    · rcases List.mem_cons.mp member with rfl | member
      · exact lower.2
      · exact ih found member
  | case4 d e rest upper => simp [pairs?, upper] at spelt

end Hex

namespace FileTree

/-- A directory with room for some names has room for shorter ones. -/
theorem Hosts.narrow {t : FileTree} {dir place : Path} {width width' : Nat} (hosts : t.Hosts dir place width)
    (le : width' ≤ width) : t.Hosts dir place width' := by
  have roomy := hosts.roomy
  exact ⟨hosts.resolved, hosts.directory, by omega⟩

end FileTree

theorem MemoryStore.table_delete {m : MemoryStore} (sorted : m.table.Sorted) (key : Bytes) :
    (m.delete key).table = m.table.erase key := by
  cases found : m.table.get? key with
  | some old => simp [MemoryStore.delete, MemoryStore.get, found]
  | none => simp [MemoryStore.delete, MemoryStore.get, found, OrderedMap.erase_absent sorted found]

namespace DiskStore

variable {t t' : FileTree} {dir place : Path} {kv : OrderedMap Bytes Bytes} {key : Bytes} {name : String}

/-! ## Names of no key -/

/-- The name of no key. -/
def Stray (name : String) : Prop := keyOfName? name = none

theorem stray_of_dot (dot : '.' ∈ name.toList) : Stray name := by
  unfold Stray keyOfName?
  split
  · rfl
  · cases spelt : Hex.toBytes? name with
    | none => rfl
    | some key => exact absurd (Hex.isLower_of_pairs? spelt dot) (by decide)

theorem stray_temporary (key : Bytes) : Stray (Hex.ofBytes key ++ temporaryEnding) := by
  refine stray_of_dot ?_
  rw [String.toList_append]
  exact List.mem_append_right _ (by decide)

/-- What is removed when a store is taken up has the name of no key. -/
theorem stray_of_endsWith (ends : name.endsWith temporaryEnding = true) : Stray name := by
  rw [← String.endsWith_toSlice, String.Slice.endsWith_string_iff, String.copy_toSlice] at ends
  exact stray_of_dot (ends.subset (by decide))

theorem Stray.ne (stray : Stray name) (names : Names key) : Hex.ofBytes key ≠ name := by
  rintro rfl
  rw [Stray, keyOfName?_ofBytes names] at stray
  cases stray

/-- A file of no key that comes, changes or goes leaves the map as it is. -/
theorem Holds.stray (holds : Holds t dir place kv) (stray : Stray name) (sound : t'.Sound)
    (keeps : FileTree.KeepsDirectories t t') {node : Option Inode} (leaf : node ≠ some .directory)
    (find : ∀ other, t'.find? (place ++ [other]) = if other = name then node else t.find? (place ++ [other])) :
    Holds t' dir place kv where
  sound := sound
  hosts := holds.hosts.kept keeps
  sorted := holds.sorted
  named := holds.named
  present key value found := by
    rw [find, if_neg (stray.ne (holds.named key value found))]
    exact holds.present key value found
  absent key names free := by
    rw [find, if_neg (stray.ne names)]
    exact holds.absent key names free
  temporary key names := by
    rw [find]
    split
    · exact leaf
    · exact holds.temporary key names
  others other id content key lies parsed := by
    rw [find] at lies
    split at lies
    · rename_i same
      rw [same, stray] at parsed
      cases parsed
    · exact holds.others other id content key lies parsed

/-! ## Directories of files -/

/-- The directory of a store holds a map, and nothing but files lies in it. -/
structure Filed (t : FileTree) (dir place : Path) (kv : OrderedMap Bytes Bytes) : Prop where
  holds : Holds t dir place kv
  hosts : t.Hosts dir place Path.maxNameSize
  files : ∀ name node, t.find? (place ++ [name]) = some node → Path.Plain name ∧ node ≠ .directory

/-- What is left of the map's directory by a change of one name, or of a few. -/
private theorem Filed.becomes {kv' : OrderedMap Bytes Bytes} (filed : Filed t dir place kv) (holds : Holds t' dir place kv')
    (keeps : FileTree.KeepsDirectories t t') (from_ : ∀ name node, t'.find? (place ++ [name]) = some node →
      t.find? (place ++ [name]) = some node ∨ Path.Plain name ∧ node ≠ .directory) : Filed t' dir place kv' := by
  refine ⟨holds, filed.hosts.kept keeps, fun name node lies => ?_⟩
  rcases from_ name node lies with old | new
  · exact filed.files name node old
  · exact new

theorem Filed.put (filed : Filed t dir place kv) (names : Names key) (value : Bytes) :
    ∃ t', (put dir key value).perform t = (.ok (), t') ∧ Filed t' dir place (kv.insert key value) := by
  obtain ⟨t', done, holds, changes, id, find⟩ := filed.holds.perform_put names value
  refine ⟨t', done, filed.becomes holds changes.keeps fun name node lies => ?_⟩
  rw [find] at lies
  split at lies
  · rename_i same
    obtain rfl : name = Hex.ofBytes key := by simpa using same
    cases lies
    exact .inr ⟨(plain_name names).1, by simp⟩
  · split at lies
    · cases lies
    · exact .inl lies

theorem Filed.delete (filed : Filed t dir place kv) (names : Names key) :
    ∃ t', (delete dir key).perform t = (.ok (), t') ∧ Filed t' dir place (kv.erase key) := by
  obtain ⟨t', done, holds, changes, fewer⟩ := filed.holds.perform_delete names
  exact ⟨t', done, filed.becomes holds changes.keeps fun name node lies => .inl (fewer _ node lies)⟩

/-- A file of no key is written. -/
theorem Filed.strew (filed : Filed t dir place kv) (plain : Path.Plain name) (stray : Stray name) (content : Bytes) :
    ∃ t', t.write (dir.child name) content = .ok t' ∧ Filed t' dir place kv := by
  have leaf : t.find? (place ++ [name]) ≠ some .directory := fun lies => (filed.files name _ lies).2 rfl
  obtain ⟨t', id, wrote, sound, changes, find⟩ :=
    filed.hosts.write_child plain plain.short filed.holds.sound leaf content
  have here : ∀ other, t'.find? (place ++ [other]) =
      if other = name then some (.file id content) else t.find? (place ++ [other]) :=
    fun other => by simpa using find (place ++ [other])
  refine ⟨t', wrote, filed.becomes (filed.holds.stray stray sound changes.keeps (by simp) here) changes.keeps
    fun other node lies => ?_⟩
  rw [here] at lies
  split at lies
  · rename_i same
    cases lies
    exact .inr ⟨same ▸ plain, by simp⟩
  · exact .inl lies

/-- A file of no key is removed; the others stay. -/
theorem Filed.removeFile (filed : Filed t dir place kv) (stray : Stray name) {node : Inode}
    (lies : t.find? (place ++ [name]) = some node) :
    ∃ t', t.removeFile (dir.child name) = .ok t' ∧ Filed t' dir place kv ∧
      ∀ other, other ≠ name → t'.find? (place ++ [other]) = t.find? (place ++ [other]) := by
  obtain ⟨plain, leaf⟩ := filed.files name node lies
  cases node with
  | directory => exact absurd rfl leaf
  | file id content =>
    obtain ⟨t', removed, sound, changes, find⟩ := filed.hosts.removeFile_child plain plain.short filed.holds.sound lies
    have here : ∀ other, t'.find? (place ++ [other]) = if other = name then none else t.find? (place ++ [other]) :=
      fun other => by simpa using find (place ++ [other])
    refine ⟨t', removed, filed.becomes (filed.holds.stray stray sound changes.keeps (by simp) here) changes.keeps
      fun other node lies => ?_, fun other apart => by rw [here, if_neg apart]⟩
    rw [here] at lies
    split at lies
    · cases lies
    · exact .inl lies

/-! ## Taking up a store -/

/-- The temporary files among some files of the directory are removed. -/
theorem Filed.sweep (filed : Filed t dir place kv) (children : List (String × Inode)) (once : (children.map Prod.fst).Nodup)
    (lie : ∀ child ∈ children, t.find? (place ++ [child.1]) = some child.2) :
    ∃ t', (children.forM fun (name, _) => do
      if name.endsWith temporaryEnding then Edit.change (·.removeFile (dir.child name)) : Action FileTree Unit).perform t =
        (.ok (), t') ∧ Filed t' dir place kv := by
  induction children generalizing t with
  | nil => exact ⟨t, rfl, filed⟩
  | cons child rest ih =>
    rw [List.map_cons, List.nodup_cons] at once
    have later : ∀ other ∈ rest, t.find? (place ++ [other.1]) = some other.2 :=
      fun other member => lie other (List.mem_cons_of_mem child member)
    rw [Action.perform_forM_cons]
    by_cases ends : child.1.endsWith temporaryEnding = true
    · obtain ⟨t₁, removed, filed₁, same⟩ := filed.removeFile (stray_of_endsWith ends) (lie child List.mem_cons_self)
      have here : ∀ other ∈ rest, t₁.find? (place ++ [other.1]) = some other.2 := by
        intro other member
        rw [same other.1 fun again => once.1 (again ▸ List.mem_map_of_mem member)]
        exact later other member
      obtain ⟨t₂, done, filed₂⟩ := ih filed₁ once.2 here
      refine ⟨t₂, ?_, filed₂⟩
      simp only [ends, ↓reduceIte, Edit.perform_change (f := (·.removeFile (dir.child child.1))) removed]
      exact done
    · obtain ⟨t₂, done, filed₂⟩ := ih filed once.2 later
      refine ⟨t₂, ?_, filed₂⟩
      simp only [ends, Bool.false_eq_true, ↓reduceIte, Action.perform_pure]
      exact done

theorem Filed.prepare (filed : Filed t dir place kv) :
    ∃ t', (prepare dir).perform t = (.ok (), t') ∧ Filed t' dir place kv := by
  have sound := filed.holds.sound
  obtain ⟨t', done, filed'⟩ := filed.sweep (t.children place) (sound.nodup_children place)
    fun child member => (sound.mem_children_iff child.1).mp member
  refine ⟨t', ?_, filed'⟩
  have listed : (Action.reading fun disk : FileTree => (disk.list dir).mapError Error.io).perform t =
      (.ok (t.children place), t) := by
    rw [Action.perform_reading, filed.hosts.list]
    rfl
  rw [DiskStore.prepare, Action.perform_bind, filed.hosts.makeDirectories]
  simp only
  rw [Action.perform_bind, listed]
  exact done

/-! ## What is done to a store -/

/-- What is done to a store, and what happens to its directory. -/
inductive Op where
  | put (key value : Bytes)
  | get (key : Bytes)
  | delete (key : Bytes)
  | entries
  /-- The store is taken up again. -/
  | reopen
  /-- A put dies before its temporary file takes the place of the old one, and leaves it with
      some content. -/
  | breakOff (key left : Bytes)
  /-- A file comes to lie in the directory, or changes. -/
  | strew (name : String) (content : Bytes)

/-- What is answered. -/
inductive Answer where
  | done (outcome : Except Error Unit)
  | value (outcome : Except Error (Option Bytes))
  | listing (outcome : Except Error (List (Bytes × Bytes)))
  | nothing

namespace Op

/-- Writes a file as far as that can be done. -/
def leave (path : Path) (content : Bytes) (t : FileTree) : FileTree :=
  match t.write path content with
  | .ok t' => t'
  | .error _ => t

/-- A store in a directory. -/
def onDisk (dir : Path) (t : FileTree) : Op → Answer × FileTree
  | put key value =>
    let (outcome, t') := (DiskStore.put dir key value).perform t
    (.done outcome, t')
  | get key => (.value (DiskStore.get t dir key), t)
  | delete key =>
    let (outcome, t') := (DiskStore.delete dir key).perform t
    (.done outcome, t')
  | entries => (.listing (DiskStore.entries t dir), t)
  | reopen =>
    let (outcome, t') := (prepare dir).perform t
    (.done outcome, t')
  | breakOff key left =>
    match keyPath dir key with
    | .ok path => (.nothing, leave (temporaryPath path) left t)
    | .error _ => (.nothing, t)
  | strew name content => (.nothing, leave (dir.child name) content t)

/-- A store in memory, which has no directory. -/
def inMemory (m : MemoryStore) : Op → Answer × MemoryStore
  | put key value => (.done (.ok ()), m.put key value)
  | get key => (.value (.ok (m.get key)), m)
  | delete key => (.done (.ok ()), m.delete key)
  | entries => (.listing (.ok m.entries), m)
  | reopen => (.done (.ok ()), m)
  | breakOff _ _ | strew _ _ => (.nothing, m)

variable {σ : Type}

/-- All answers of a run. -/
def answers (step : σ → Op → Answer × σ) (s : σ) : List Op → List Answer
  | [] => []
  | op :: rest => (step s op).1 :: answers step (step s op).2 rest

/-- What a run leaves. -/
def run (step : σ → Op → Answer × σ) (s : σ) (ops : List Op) : σ := ops.foldl (fun s op => (step s op).2) s

/-- The key has 1 to 120 bytes. -/
def Named : Op → Prop
  | put key _ | get key | delete key | breakOff key _ => Names key
  | _ => True

/-- What comes to lie in the directory is a file that is named by no key. -/
def Foreign : Op → Prop
  | strew name _ => Path.Plain name ∧ Stray name
  | _ => True

/-- What is said of a key of another length. -/
def refused : Op → Answer
  | put key _ | delete key => .done (.error (refusal key))
  | get key => .value (.error (refusal key))
  | _ => .nothing

/-- What an operation makes of a map. -/
def effect (kv : OrderedMap Bytes Bytes) : Op → OrderedMap Bytes Bytes
  | put key value => kv.insert key value
  | delete key => kv.erase key
  | _ => kv

/-- What a map answers. -/
def answer (kv : OrderedMap Bytes Bytes) : Op → Answer
  | put _ _ | delete _ | reopen => .done (.ok ())
  | get key => .value (.ok (kv.get? key))
  | entries => .listing (.ok kv.entries)
  | breakOff _ _ | strew _ _ => .nothing

/-- The value of a key after an operation. -/
def valueAfter (key : Bytes) (value : Option Bytes) : Op → Option Bytes
  | put k new => if k = key then some new else value
  | delete k => if k = key then none else value
  | _ => value

/-- The last value that was put under a key, unless the key was deleted since. -/
def lastValue (key : Bytes) (ops : List Op) : Option Bytes := ops.foldl (valueAfter key) none

variable {op : Op}

theorem run_append (step : σ → Op → Answer × σ) (s : σ) (earlier later : List Op) :
    run step s (earlier ++ later) = run step (run step s earlier) later := List.foldl_append ..

theorem get?_effect (kv : OrderedMap Bytes Bytes) (op : Op) (key : Bytes) :
    (op.effect kv).get? key = valueAfter key (kv.get? key) op := by
  cases op with
  | put k value => simp [effect, valueAfter, OrderedMap.get?_insert, eq_comm]
  | delete k => simp [effect, valueAfter, OrderedMap.get?_erase, eq_comm]
  | _ => rfl

/-! ## One operation -/

/-- On disk an operation on a named key is that of the map. -/
theorem perform_onDisk (filed : Filed t dir place kv) (named : op.Named) (foreign : op.Foreign) :
    ∃ t', op.onDisk dir t = (op.answer kv, t') ∧ Filed t' dir place (op.effect kv) := by
  cases op with
  | put key value =>
    obtain ⟨t', done, filed'⟩ := filed.put named value
    exact ⟨t', by rw [onDisk, done]; rfl, filed'⟩
  | get key => exact ⟨t, by rw [onDisk, filed.holds.get named]; rfl, filed⟩
  | delete key =>
    obtain ⟨t', done, filed'⟩ := filed.delete named
    exact ⟨t', by rw [onDisk, done]; rfl, filed'⟩
  | entries => exact ⟨t, by rw [onDisk, filed.holds.entries]; rfl, filed⟩
  | reopen =>
    obtain ⟨t', done, filed'⟩ := filed.prepare
    exact ⟨t', by rw [onDisk, done]; rfl, filed'⟩
  | breakOff key left =>
    obtain ⟨t', wrote, filed'⟩ := filed.strew (plain_temporary named).1 (stray_temporary key) left
    refine ⟨t', ?_, filed'⟩
    simp only [onDisk, keyPath_eq dir named, temporaryPath_eq, leave, wrote]
    rfl
  | strew name content =>
    obtain ⟨t', wrote, filed'⟩ := filed.strew foreign.1 foreign.2 content
    refine ⟨t', ?_, filed'⟩
    simp only [onDisk, leave, wrote]
    rfl

/-- An operation on a key of another length is refused, and changes nothing. -/
theorem perform_refused (dir : Path) (t : FileTree) (unnamed : ¬ op.Named) : op.onDisk dir t = (op.refused, t) := by
  cases op with
  | put key value =>
    have path := keyPath_refused dir (show ¬ Names key from unnamed)
    simp only [onDisk, DiskStore.put, Action.perform_bind, Action.perform_ofExcept, path]
    rfl
  | get key =>
    have path := keyPath_refused dir (show ¬ Names key from unnamed)
    simp only [onDisk, DiskStore.get, path]
    rfl
  | delete key =>
    have path := keyPath_refused dir (show ¬ Names key from unnamed)
    simp only [onDisk, DiskStore.delete, Action.perform_bind, Action.perform_ofExcept, path]
    rfl
  | breakOff key left =>
    have path := keyPath_refused dir (show ¬ Names key from unnamed)
    simp only [onDisk, path]
    rfl
  | _ => exact absurd trivial unnamed

/-- In memory every operation is that of the map. -/
theorem perform_inMemory {m : MemoryStore} (sorted : m.table.Sorted) (op : Op) :
    (op.inMemory m).1 = op.answer m.table ∧ (op.inMemory m).2.table = op.effect m.table := by
  cases op with
  | delete key => exact ⟨rfl, MemoryStore.table_delete sorted key⟩
  | _ => exact ⟨rfl, rfl⟩

/-! ## Runs -/

/-- After any run the directory holds the last values. -/
theorem run_filed (filed : Filed t dir place kv) (ops : List Op) (foreign : ∀ op ∈ ops, op.Foreign) :
    ∃ kv', Filed (run (onDisk dir) t ops) dir place kv' ∧
      ∀ key, Names key → kv'.get? key = ops.foldl (valueAfter key) (kv.get? key) := by
  induction ops generalizing t kv with
  | nil => exact ⟨kv, filed, fun _ _ => rfl⟩
  | cons op rest ih =>
    rw [List.forall_mem_cons] at foreign
    by_cases named : op.Named
    · obtain ⟨t', done, filed'⟩ := perform_onDisk filed named foreign.1
      obtain ⟨kv', ends, recalls⟩ := ih filed' foreign.2
      refine ⟨kv', ?_, fun key names => ?_⟩
      · rw [run, List.foldl_cons, done]
        exact ends
      · rw [recalls key names, get?_effect]
        rfl
    · obtain ⟨kv', ends, recalls⟩ := ih filed foreign.2
      refine ⟨kv', ?_, fun key names => ?_⟩
      · rw [run, List.foldl_cons, perform_refused dir t named]
        exact ends
      · -- What is refused is of another key.
        have other : valueAfter key (kv.get? key) op = kv.get? key := by
          cases op with
          | put k value =>
            rw [valueAfter, if_neg]
            rintro rfl
            exact named names
          | delete k =>
            rw [valueAfter, if_neg]
            rintro rfl
            exact named names
          | _ => rfl
        rw [recalls key names, List.foldl_cons, other]

/-- On named keys a store on disk and one in memory that hold the same map answer the same. -/
theorem answers_eq (filed : Filed t dir place kv) {m : MemoryStore} (same : m.table = kv) (ops : List Op)
    (named : ∀ op ∈ ops, op.Named) (foreign : ∀ op ∈ ops, op.Foreign) :
    answers (onDisk dir) t ops = answers inMemory m ops := by
  induction ops generalizing t kv m with
  | nil => rfl
  | cons op rest ih =>
    rw [List.forall_mem_cons] at named foreign
    obtain ⟨t', done, filed'⟩ := perform_onDisk filed named.1 foreign.1
    obtain ⟨first, table⟩ := perform_inMemory (same ▸ filed.holds.sorted : m.table.Sorted) op
    rw [same] at first table
    rw [answers, answers, done, first]
    exact congrArg _ (ih filed' table named.2 foreign.2)

/-- A directory with nothing in it but files that are named by no key holds the empty map. -/
theorem filed_empty (sound : t.Sound) (hosts : t.Hosts dir place Path.maxNameSize)
    (files : ∀ name node, t.find? (place ++ [name]) = some node → Path.Plain name ∧ Stray name ∧ node ≠ .directory) :
    Filed t dir place .empty := by
  refine ⟨?_, hosts, fun name node lies => ⟨(files name node lies).1, (files name node lies).2.2⟩⟩
  constructor
  case sound => exact sound
  case hosts => exact hosts.narrow (by decide)
  case sorted => exact .empty
  case named => simp
  case present => simp
  case absent =>
    intro key names _
    cases lies : t.find? (place ++ [Hex.ofBytes key]) with
    | none => rfl
    | some node => exact absurd rfl ((files _ node lies).2.1.ne names)
  case temporary => exact fun key _ lies => (files _ _ lies).2.2 rfl
  case others =>
    intro name id content key lies parsed
    have stray := (files name _ lies).2.1
    rw [Stray, parsed] at stray
    cases stray

/-- A store on disk answers as one in memory does, through any run on keys of 1 to 120 bytes,
    with puts that break off and files of other names in the directory. At every moment of any
    run, a key has the value last put and not deleted, and the entries are all of these in
    strictly ascending order of the keys; and a key of another length is refused with the
    directory as it was. -/
theorem run_as_memory (sound : t.Sound) (hosts : t.Hosts dir place Path.maxNameSize)
    (files : ∀ name node, t.find? (place ++ [name]) = some node → Path.Plain name ∧ Stray name ∧ node ≠ .directory)
    (ops : List Op) (foreign : ∀ op ∈ ops, op.Foreign) :
    ((∀ op ∈ ops, op.Named) → answers (onDisk dir) t ops = answers inMemory .empty ops) ∧
      ∀ earlier later, ops = earlier ++ later →
        (∀ key, Names key → DiskStore.get (run (onDisk dir) t earlier) dir key = .ok (lastValue key earlier)) ∧
        (∃ all, DiskStore.entries (run (onDisk dir) t earlier) dir = .ok all ∧ all.Pairwise (·.1 < ·.1) ∧
          ∀ key value, (key, value) ∈ all ↔ Names key ∧ lastValue key earlier = some value) ∧
        ∀ op : Op, ¬ op.Named → op.onDisk dir (run (onDisk dir) t earlier) = (op.refused, run (onDisk dir) t earlier) := by
  have begins := filed_empty sound hosts files
  refine ⟨fun named => answers_eq begins rfl ops named foreign, ?_⟩
  rintro earlier later rfl
  obtain ⟨kv, filed, recalls⟩ := run_filed begins earlier fun op member => foreign op (List.mem_append_left _ member)
  have holds := filed.holds
  refine ⟨fun key names => ?_, ⟨kv.entries, holds.entries, holds.sorted, fun key value => ?_⟩,
    fun op unnamed => perform_refused dir _ unnamed⟩
  · rw [holds.get names, recalls key names]
    rfl
  · rw [← holds.sorted.get?_eq_some]
    constructor
    · intro found
      have names := holds.named key value found
      exact ⟨names, (recalls key names).symm.trans found⟩
    · rintro ⟨names, found⟩
      exact (recalls key names).trans found

/-- A put that breaks off over an earlier value, beside a file of another name. -/
theorem run_as_memory_after_break : FileTree.empty.Sound ∧ FileTree.empty.Hosts [""] [] Path.maxNameSize ∧
    answers (onDisk [""]) .empty
        [.strew "a.b" [1], .put [97] [1], .breakOff [97] [9], .reopen, .get [97], .put [97, 0] [2], .entries] =
      answers inMemory .empty
        [.strew "a.b" [1], .put [97] [1], .breakOff [97] [9], .reopen, .get [97], .put [97, 0] [2], .entries] := by
  have hosts : FileTree.empty.Hosts [""] [] Path.maxNameSize := ⟨rfl, rfl, by decide⟩
  have nothing : ∀ name node, FileTree.empty.find? ([] ++ [name]) = some node →
      Path.Plain name ∧ Stray name ∧ node ≠ .directory := by
    intro name node lies
    simp [FileTree.find?, FileTree.empty] at lies
  have plain : Path.Plain "a.b" := ⟨by simp, by decide, by simp⟩
  have stray : Stray "a.b" := stray_of_dot (by decide)
  refine ⟨.empty, hosts, (run_as_memory .empty hosts nothing _ ?_).1 ?_⟩
  · simp [Foreign, plain, stray]
  · simp [Named, Names, maxKeyLength]

end Op
end DiskStore
end Shiplog
