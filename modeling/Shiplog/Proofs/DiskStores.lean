import Shiplog.Proofs.Actions
import Shiplog.Proofs.Layouts
import Shiplog.Proofs.Maps
import Shiplog.Proofs.Names
import Shiplog.Proofs.Trees
import Shiplog.Store.Disk

/-!
The store on disk as a map. A directory holds a map when every key's file holds its
value (`Holds`); reading, writing and removing a key are the lookups, insertion and
erasure of the map, and the file names, sorted, give the entries in the order of the
keys.
-/
namespace Shiplog

namespace Hex

theorem digitChar_lt {d e : Nat} (less : d < e) (small : e < 16) : Nat.digitChar d < Nat.digitChar e := by
  have all : ∀ d e : Fin 16, d < e → Nat.digitChar d.val < Nat.digitChar e.val := by decide
  exact all ⟨d, by omega⟩ ⟨e, small⟩ less

theorem ofByte_eq (b : UInt8) : ofByte b = [Nat.digitChar (b.toNat / 16 % 16), Nat.digitChar (b.toNat % 16)] := rfl

/-- The texts of bytes stand in the order of the bytes. -/
theorem flatMap_ofByte_lt {a b : Bytes} (less : a < b) : a.flatMap ofByte < b.flatMap ofByte := by
  induction a generalizing b with
  | nil =>
    cases b with
    | nil => exact absurd less (List.lt_irrefl _)
    | cons y b => simp [ofByte_eq]
  | cons x a ih =>
    cases b with
    | nil => exact absurd less (List.not_lt_nil _)
    | cons y b =>
      rw [List.flatMap_cons, List.flatMap_cons, ofByte_eq, ofByte_eq]
      have xSmall := x.toNat_lt
      have ySmall := y.toNat_lt
      rcases List.cons_lt_cons_iff.mp less with first | ⟨rfl, rest⟩
      · rw [UInt8.lt_iff_toNat_lt] at first
        by_cases high : x.toNat / 16 = y.toNat / 16
        · rw [high]
          refine List.cons_lt_cons_iff.mpr (.inr ⟨rfl, List.cons_lt_cons_iff.mpr (.inl ?_)⟩)
          exact digitChar_lt (by omega) (by omega)
        · exact List.cons_lt_cons_iff.mpr (.inl (digitChar_lt (by omega) (by omega)))
      · exact List.cons_lt_cons_iff.mpr (.inr ⟨rfl, List.cons_lt_cons_iff.mpr (.inr ⟨rfl, ih rest⟩)⟩)

theorem ofBytes_lt {a b : Bytes} (less : a < b) : ofBytes a < ofBytes b := by
  rw [String.lt_iff, ofBytes, ofBytes, String.toList_ofList, String.toList_ofList]
  exact flatMap_ofByte_lt less

theorem ofBytes_inj {a b : Bytes} (same : ofBytes a = ofBytes b) : a = b := by
  have back := toBytes?_ofBytes a
  rw [same, toBytes?_ofBytes] at back
  exact (Option.some.inj back).symm

end Hex

namespace DiskStore

/-- A key that a file can be named by. -/
def Names (key : Bytes) : Prop := key ≠ [] ∧ key.length ≤ maxKeyLength

/-- The bytes that the name of a file takes, a temporary one's included. -/
def nameWidth : Nat := 244

theorem plain_name {key : Bytes} (names : Names key) :
    Path.Plain (Hex.ofBytes key) ∧ Path.nameSize (Hex.ofBytes key) ≤ nameWidth := by
  have length := Hex.length_flatMap_ofByte key
  have short : key.length ≤ 120 := names.2
  have ne : key.flatMap Hex.ofByte ≠ [] := by
    intro empty
    rw [empty, List.length_nil] at length
    exact names.1 (List.length_eq_zero_iff.mp (by omega))
  obtain ⟨plain, size⟩ := Hex.plain_of_lower (fun c => Hex.mem_flatMap_ofByte) ne (by
    rw [length]
    simp only [Path.maxNameSize]
    omega)
  refine ⟨plain, ?_⟩
  change Path.nameSize (String.ofList (key.flatMap Hex.ofByte)) ≤ nameWidth
  rw [size, length]
  simp only [nameWidth]
  omega

theorem plain_temporary {key : Bytes} (names : Names key) :
    Path.Plain (Hex.ofBytes key ++ temporaryEnding) ∧
      Path.nameSize (Hex.ofBytes key ++ temporaryEnding) ≤ nameWidth := by
  obtain ⟨plain, -⟩ := plain_name names
  have digits := @Hex.plain_of_lower (key.flatMap Hex.ofByte) fun c => Hex.mem_flatMap_ofByte
  have short : key.length ≤ 120 := names.2
  have length := Hex.length_flatMap_ofByte key
  have ending : temporaryEnding.toList = ['.', 't', 'm', 'p'] := rfl
  have chars : (Hex.ofBytes key ++ temporaryEnding).toList = key.flatMap Hex.ofByte ++ ['.', 't', 'm', 'p'] := by
    rw [String.toList_append, ending, Hex.ofBytes, String.toList_ofList]
  have size : Path.nameSize (Hex.ofBytes key ++ temporaryEnding) = 2 * key.length + 4 := by
    rw [Path.nameSize, String.utf8ByteSize_append, Hex.ofBytes, String.utf8ByteSize_ofList,
      Hex.utf8Len_eq fun c member => (Hex.mem_flatMap_ofByte member).2, length]
    rfl
  have longer : ∀ cs : List Char, cs.length < 4 → Hex.ofBytes key ++ temporaryEnding ≠ String.ofList cs := by
    intro cs few same
    have lengths := congrArg (fun text => text.toList.length) same
    simp only [chars, String.toList_ofList, List.length_append, List.length_cons, List.length_nil] at lengths
    omega
  refine ⟨⟨⟨longer [] (by decide), longer ['.'] (by decide), longer ['.', '.'] (by decide)⟩, ?_, ?_⟩, ?_⟩
  · rw [size]
    simp only [Path.maxNameSize]
    omega
  · intro c member
    rw [chars, List.mem_append] at member
    rcases member with digit | dot
    · exact plain.clean c (by rwa [Hex.ofBytes, String.toList_ofList])
    · have letters : c = '.' ∨ c = 't' ∨ c = 'm' ∨ c = 'p' := by simpa using dot
      rcases letters with rfl | rfl | rfl | rfl <;> decide
  · rw [size]
    simp only [nameWidth]
    omega

/-! ## The directory as a map -/

/-- The directory of a store at a place holds a map: a file for every key with its value.
    Temporary files may be left, and what else lies there has the name of no key. -/
structure Holds (t : FileTree) (dir place : Path) (m : OrderedMap Bytes Bytes) : Prop where
  sound : t.Sound
  hosts : t.Hosts dir place nameWidth
  sorted : m.Sorted
  named : ∀ key value, m.get? key = some value → Names key
  present : ∀ key value, m.get? key = some value →
    ∃ id, t.find? (place ++ [Hex.ofBytes key]) = some (.file id (encodeValue value))
  absent : ∀ key, Names key → m.get? key = none → t.find? (place ++ [Hex.ofBytes key]) = none
  temporary : ∀ key, Names key → t.find? (place ++ [Hex.ofBytes key ++ temporaryEnding]) ≠ some .directory
  others : ∀ name id content key, t.find? (place ++ [name]) = some (.file id content) → keyOfName? name = some key →
    Names key ∧ name = Hex.ofBytes key

variable {t t' : FileTree} {dir place : Path} {m : OrderedMap Bytes Bytes} {key value : Bytes}

/-- What happens elsewhere in the tree leaves the map as it is. -/
theorem Holds.kept (holds : Holds t dir place m) (sound : t'.Sound) (keeps : FileTree.KeepsDirectories t t')
    (same : ∀ name, t'.find? (place ++ [name]) = t.find? (place ++ [name])) : Holds t' dir place m where
  sound := sound
  hosts := holds.hosts.kept keeps
  sorted := holds.sorted
  named := holds.named
  present key value found := by
    rw [same]
    exact holds.present key value found
  absent key names free := by
    rw [same]
    exact holds.absent key names free
  temporary key names := by
    rw [same]
    exact holds.temporary key names
  others name id content key lies := holds.others name id content key (by rwa [same] at lies)

theorem keyPath_eq (dir : Path) (names : Names key) : keyPath dir key = .ok (dir.child (Hex.ofBytes key)) := by
  have inside : ¬ (key = [] ∨ maxKeyLength < key.length) := by
    rintro (empty | long)
    · exact names.1 empty
    · exact Nat.not_lt.mpr names.2 long
  rw [keyPath, if_neg inside]

theorem temporaryPath_eq (dir : Path) (name : String) :
    temporaryPath (dir.child name) = dir.child (name ++ temporaryEnding) := by
  rw [temporaryPath, Path.child_eq, Path.child_eq, List.dropLast_concat]
  simp

/-- A value is read from what was written for it. -/
theorem decodeValue_encodeValue (path : Path) (value : Bytes) : decodeValue path (encodeValue value) = .ok value := by
  have four : (Bytes.ofNatLE 4 (Checksum.crc32 value).toNat).length = 4 := by simp
  have sum : Bytes.toNatLE (Bytes.ofNatLE 4 (Checksum.crc32 value).toNat) = (Checksum.crc32 value).toNat := by
    have small : (Checksum.crc32 value).toNat < 256 ^ 4 := UInt32.toNat_lt _
    rw [Bytes.toNatLE_ofNatLE, Nat.mod_eq_of_lt small]
  have long : ¬ (encodeValue value).length < 4 := by
    rw [encodeValue, List.length_append, four]
    omega
  have front : (encodeValue value).take 4 = Bytes.ofNatLE 4 (Checksum.crc32 value).toNat := List.take_left' four
  have back : (encodeValue value).drop 4 = value := List.drop_left' four
  rw [decodeValue, if_neg long, front, back, sum, if_neg (by simp)]

theorem Holds.readValue (holds : Holds t dir place m) (names : Names key) :
    readValue t (dir.child (Hex.ofBytes key)) = .ok (m.get? key) := by
  obtain ⟨plain, fits⟩ := plain_name names
  cases found : m.get? key with
  | none =>
    have free := holds.hosts.read_absent plain fits (holds.absent key names found)
    rw [DiskStore.readValue, free]
  | some value =>
    obtain ⟨id, file⟩ := holds.present key value found
    have content := holds.hosts.read_child plain fits file
    rw [DiskStore.readValue, content]
    simp only [decodeValue_encodeValue]
    rfl

theorem Holds.get (holds : Holds t dir place m) (names : Names key) : get t dir key = .ok (m.get? key) := by
  rw [DiskStore.get, keyPath_eq dir names]
  exact holds.readValue names

/-! ## Entries -/

theorem keyOfName?_ofBytes (names : Names key) : keyOfName? (Hex.ofBytes key) = some key := by
  have named := (plain_name names).1.named.1
  rw [keyOfName?, if_neg named, Hex.toBytes?_ofBytes]

theorem mem_keyNames {children : List (String × Inode)} {name : String} {key : Bytes} :
    (name, key) ∈ keyNames children ↔
      ∃ id content, (name, .file id content) ∈ children ∧ keyOfName? name = some key := by
  rw [DiskStore.keyNames, List.mem_mergeSort, List.mem_filterMap]
  constructor
  · rintro ⟨⟨name', node⟩, member, given⟩
    cases node with
    | directory => simp at given
    | file id content =>
      obtain ⟨key', parsed, same⟩ := Option.map_eq_some_iff.mp given
      cases same
      exact ⟨id, content, member, parsed⟩
  · rintro ⟨id, content, member, parsed⟩
    exact ⟨(name, .file id content), member, by simp [parsed]⟩

theorem nodup_keyNames {children : List (String × Inode)} (nodup : (children.map Prod.fst).Nodup) :
    (keyNames children).Nodup := by
  rw [DiskStore.keyNames, List.Perm.nodup_iff (List.mergeSort_perm _ _)]
  refine List.Pairwise.filterMap _ ?_ (List.pairwise_map.mp nodup)
  rintro ⟨name, node⟩ ⟨name', node'⟩ apart p first p' second same
  subst same
  cases node with
  | directory => simp at first
  | file id content =>
    cases node' with
    | directory => simp at second
    | file id' content' =>
      obtain ⟨_, -, rfl⟩ := Option.map_eq_some_iff.mp first
      obtain ⟨_, -, same⟩ := Option.map_eq_some_iff.mp second
      exact apart (congrArg Prod.fst same).symm

theorem sorted_keyNames (children : List (String × Inode)) :
    (keyNames children).Pairwise fun a b => ¬ b.1 < a.1 := by
  have ascending : (keyNames children).Pairwise fun a b => decide (¬ b.1 < a.1) = true := by
    refine List.pairwise_mergeSort ?_ ?_ _
    · intro a b c ab bc
      simp only [decide_eq_true_eq] at *
      intro ca
      rcases Strict.compares a.1 b.1 with less | same | greater
      · exact bc (Strict.trans ca less)
      · exact bc (same ▸ ca)
      · exact ab greater
    · intro a b
      simp only [Bool.or_eq_true, decide_eq_true_eq]
      by_cases less : b.1 < a.1
      · exact .inr fun greater => Strict.irrefl _ (Strict.trans less greater)
      · exact .inl less
  exact ascending.imp of_decide_eq_true

/-- The key files are those of the keys. -/
theorem Holds.mem_keyNames_iff (holds : Holds t dir place m) (pair : String × Bytes) :
    pair ∈ keyNames (t.children place) ↔ pair ∈ m.entries.map fun entry => (Hex.ofBytes entry.1, entry.1) := by
  obtain ⟨name, key⟩ := pair
  rw [mem_keyNames, List.mem_map]
  constructor
  · rintro ⟨id, content, member, parsed⟩
    have lies := (holds.sound.mem_children_iff name).mp member
    obtain ⟨named, rfl⟩ := holds.others name id content key lies parsed
    cases value : m.get? key with
    | none =>
      rw [holds.absent key named value] at lies
      cases lies
    | some value => exact ⟨(key, _), holds.sorted.get?_eq_some.mp value, rfl⟩
  · rintro ⟨⟨key', value⟩, member, same⟩
    cases same
    have value := holds.sorted.get?_eq_some.mpr member
    obtain ⟨id, file⟩ := holds.present _ _ value
    exact ⟨id, _, (holds.sound.mem_children_iff _).mpr file, keyOfName?_ofBytes (holds.named _ _ value)⟩

/-- The names of the key files, sorted, are those of the keys in order. -/
theorem Holds.keyNames (holds : Holds t dir place m) :
    keyNames (t.children place) = m.entries.map fun entry => (Hex.ofBytes entry.1, entry.1) := by
  have once := nodup_keyNames (holds.sound.nodup_children place)
  have distinct : (m.entries.map fun entry => (Hex.ofBytes entry.1, entry.1)).Nodup := by
    refine List.pairwise_map.mpr (List.Pairwise.imp ?_ holds.sorted)
    intro a b less same
    have keys : a.1 = b.1 := congrArg Prod.snd same
    rw [keys] at less
    exact Strict.irrefl _ less
  have perm := (List.perm_ext_iff_of_nodup once distinct).mpr holds.mem_keyNames_iff
  -- Both sides are in the order of the names, and a name tells its key.
  refine perm.eq_of_pairwise ?_ (sorted_keyNames _) ?_
  · intro a b aMember bMember ab ba
    obtain ⟨⟨key, value⟩, -, rfl⟩ := List.mem_map.mp (perm.mem_iff.mp aMember)
    obtain ⟨⟨key', value'⟩, -, rfl⟩ := List.mem_map.mp bMember
    rcases Strict.compares (Hex.ofBytes key) (Hex.ofBytes key') with less | same | greater
    · exact absurd less ba
    · rw [Hex.ofBytes_inj same]
    · exact absurd greater ab
  · refine List.pairwise_map.mpr (List.Pairwise.imp ?_ holds.sorted)
    intro a b less greater
    exact Strict.irrefl _ (Strict.trans greater (Hex.ofBytes_lt less))

theorem Holds.valuesOf (holds : Holds t dir place m) {entries : List (Bytes × Bytes)}
    (inside : ∀ entry ∈ entries, entry ∈ m.entries) :
    valuesOf t dir (entries.map fun entry => (Hex.ofBytes entry.1, entry.1)) = .ok entries := by
  induction entries with
  | nil => rfl
  | cons entry rest ih =>
    obtain ⟨key, value⟩ := entry
    have found := holds.sorted.get?_eq_some.mpr (inside _ List.mem_cons_self)
    have read := holds.readValue (holds.named key value found)
    have later := ih fun entry member => inside entry (List.mem_cons_of_mem _ member)
    simp only [List.map_cons, DiskStore.valuesOf, read, found, bind, Except.bind, later, pure, Except.pure]

/-- The entries in the directory are those of the map. -/
theorem Holds.entries (holds : Holds t dir place m) : entries t dir = .ok m.entries := by
  simp only [DiskStore.entries, holds.hosts.list, Except.mapError, bind, Except.bind, holds.keyNames]
  exact holds.valuesOf fun _ => id

/-! ## Changes -/

/-- A key's file that holds a value makes the map with the value; its temporary file may
    be anything but a directory. -/
theorem Holds.insert (holds : Holds t dir place m) (names : Names key) (sound : t'.Sound)
    (keeps : FileTree.KeepsDirectories t t') (id : FileId)
    (find : ∀ other, t'.find? (place ++ [other]) =
      if other = Hex.ofBytes key then some (.file id (encodeValue value))
      else if other = Hex.ofBytes key ++ temporaryEnding then none else t.find? (place ++ [other])) :
    Holds t' dir place (m.insert key value) := by
  have apart : ∀ {other : Bytes}, Names other → ∀ k, Hex.ofBytes other ≠ Hex.ofBytes k ++ temporaryEnding := by
    intro other _ k same
    have dot : '.' ∈ (Hex.ofBytes other).toList := by
      rw [same, String.toList_append]
      exact List.mem_append_right _ (by decide)
    rw [Hex.ofBytes, String.toList_ofList] at dot
    exact absurd (Hex.mem_flatMap_ofByte dot).1 (by decide)
  constructor
  case sound => exact sound
  case hosts => exact holds.hosts.kept keeps
  case sorted => exact holds.sorted.insert key value
  case named =>
    intro k v found
    rw [OrderedMap.get?_insert] at found
    split at found
    · rename_i same
      rwa [same]
    · exact holds.named k v found
  case present =>
    intro k v found
    rw [OrderedMap.get?_insert] at found
    rw [find]
    split at found
    · rename_i same
      rw [same, if_pos rfl, ← Option.some.inj found]
      exact ⟨id, rfl⟩
    · rename_i other
      have named := holds.named k v found
      rw [if_neg fun same => other (Hex.ofBytes_inj same), if_neg (apart named key)]
      exact holds.present k v found
  case absent =>
    intro k named free
    rw [OrderedMap.get?_insert] at free
    split at free
    · cases free
    · rename_i other
      rw [find, if_neg fun same => other (Hex.ofBytes_inj same), if_neg (apart named key)]
      exact holds.absent k named free
  case temporary =>
    intro k named
    rw [find]
    split
    · simp
    · split
      · simp
      · exact holds.temporary k named
  case others =>
    intro name id' content k lies parsed
    rw [find] at lies
    split at lies
    · rename_i same
      rw [same, keyOfName?_ofBytes names, Option.some.injEq] at parsed
      subst parsed
      exact ⟨names, same⟩
    · split at lies
      · cases lies
      · exact holds.others name id' content k lies parsed

/-- A key without a file makes the map without the key. -/
theorem Holds.erase (holds : Holds t dir place m) (sound : t'.Sound)
    (keeps : FileTree.KeepsDirectories t t')
    (find : ∀ other, t'.find? (place ++ [other]) =
      if other = Hex.ofBytes key then none else t.find? (place ++ [other])) :
    Holds t' dir place (m.erase key) := by
  constructor
  case sound => exact sound
  case hosts => exact holds.hosts.kept keeps
  case sorted => exact holds.sorted.erase key
  case named =>
    intro k v found
    rw [OrderedMap.get?_erase] at found
    split at found
    · cases found
    · exact holds.named k v found
  case present =>
    intro k v found
    rw [OrderedMap.get?_erase] at found
    split at found
    · cases found
    · rename_i other
      rw [find, if_neg fun same => other (Hex.ofBytes_inj same)]
      exact holds.present k v found
  case absent =>
    intro k named free
    rw [OrderedMap.get?_erase] at free
    rw [find]
    split at free
    · rename_i same
      rw [if_pos (by rw [same])]
    · rename_i other
      rw [if_neg fun same => other (Hex.ofBytes_inj same)]
      exact holds.absent k named free
  case temporary =>
    intro k named
    rw [find]
    split
    · simp
    · exact holds.temporary k named
  case others =>
    intro name id content k lies parsed
    rw [find] at lies
    split at lies
    · cases lies
    · exact holds.others name id content k lies parsed

/-- A value written: its file is a new one, its temporary file is gone, and nothing else
    has changed. -/
theorem Holds.perform_put (holds : Holds t dir place m) (names : Names key) (value : Bytes) :
    ∃ t', (put dir key value).perform t = (.ok (), t') ∧ Holds t' dir place (m.insert key value) ∧
      FileTree.ChangesOnly place t t' ∧
      ∃ id, ∀ other, t'.find? other =
        if other = place ++ [Hex.ofBytes key] then some (.file id (encodeValue value))
        else if other = place ++ [Hex.ofBytes key ++ temporaryEnding] then none else t.find? other := by
  obtain ⟨plain, fits⟩ := plain_name names
  obtain ⟨plain', fits'⟩ := plain_temporary names
  have longer : Hex.ofBytes key ++ temporaryEnding ≠ Hex.ofBytes key := by
    intro same
    have lengths := congrArg (fun text => text.toList.length) same
    have four : temporaryEnding.toList.length = 4 := rfl
    simp only [String.toList_append, List.length_append, four] at lengths
    omega
  obtain ⟨written, id, wrote, sound, changes, find⟩ :=
    holds.hosts.write_child plain' fits' holds.sound (holds.temporary key names) (encodeValue value)
  have leaf : written.find? (place ++ [Hex.ofBytes key]) ≠ some .directory := by
    rw [find, if_neg (by simpa using longer.symm)]
    cases found : m.get? key with
    | none => simp [holds.absent key names found]
    | some old =>
      obtain ⟨_, file⟩ := holds.present key old found
      simp [file]
  obtain ⟨t', renamed, sound', changes', find'⟩ := (holds.hosts.kept changes.keeps).rename_child sound plain' fits' plain
    fits (by rw [find, if_pos rfl]) leaf longer
  have found : ∀ other, t'.find? other =
      if other = place ++ [Hex.ofBytes key] then some (.file id (encodeValue value))
      else if other = place ++ [Hex.ofBytes key ++ temporaryEnding] then none else t.find? other := by
    intro other
    rw [find', find]
    split
    · rfl
    · split
      · rfl
      · rfl
  refine ⟨t', ?_, holds.insert names sound' (changes.trans changes').keeps id ?_, changes.trans changes', id, found⟩
  · simp only [put, Action.perform_bind, Action.perform_ofExcept, keyPath_eq dir names, temporaryPath_eq]
    rw [Edit.perform_change wrote]
    exact Edit.perform_change renamed
  · intro other
    simpa using found (place ++ [other])

/-- A key removed: its file is gone, and nothing else has changed. -/
theorem Holds.perform_delete (holds : Holds t dir place m) (names : Names key) :
    ∃ t', (delete dir key).perform t = (.ok (), t') ∧ Holds t' dir place (m.erase key) ∧
      FileTree.ChangesOnly place t t' ∧ ∀ other node, t'.find? other = some node → t.find? other = some node := by
  obtain ⟨plain, fits⟩ := plain_name names
  cases value : m.get? key with
  | none =>
    have free := holds.hosts.removeFile_absent plain fits (holds.absent key names value)
    refine ⟨t, ?_, by rwa [OrderedMap.erase_absent holds.sorted value], .refl place t, fun _ _ => id⟩
    simp only [delete, Action.perform_bind, Action.perform_ofExcept, keyPath_eq dir names]
    exact Edit.perform_change (by rw [free])
  | some old =>
    obtain ⟨id, file⟩ := holds.present key old value
    obtain ⟨t', removed, sound, changes, find⟩ := holds.hosts.removeFile_child plain fits holds.sound file
    refine ⟨t', ?_, ?_, changes, fun other node lies => ?_⟩
    · simp only [delete, Action.perform_bind, Action.perform_ofExcept, keyPath_eq dir names]
      exact Edit.perform_change (by rw [removed])
    · exact holds.erase sound changes.keeps fun other => by simpa using find (place ++ [other])
    · rw [find] at lies
      split at lies
      · cases lies
      · exact lies

end DiskStore
end Shiplog
