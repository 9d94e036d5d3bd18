import Shiplog.Proofs.Trees

/-!
The entries of a directory by the paths that lead to them. A directory hosts names
of some width when its path leads to it and leaves room for them (`Hosts`); then
reading, opening, cutting and creating a file by its path come down to what lies at
the place of its name. A directory stays a host as long as directories are kept.
-/
namespace Shiplog

namespace Path

/-- A name that an entry of a directory can have. -/
structure Plain (name : String) : Prop where
  named : name ≠ "" ∧ name ≠ "." ∧ name ≠ ".."
  short : nameSize name ≤ maxNameSize
  clean : ∀ c ∈ name.toList, c.toNat ≠ 0

/-- A path without the slash that it may end in. -/
def stem (dir : Path) : Path :=
  if dir.getLast? = some "" then dir.dropLast else dir

theorem child_eq (dir : Path) (name : String) : dir.child name = dir.stem ++ [name] := by
  unfold child stem
  split <;> rfl

theorem span_append (front rest : Path) : span (front ++ rest) = front.span + rest.span := by
  induction front with
  | nil => rw [List.nil_append, span, Nat.zero_add]
  | cons name front ih =>
    rw [List.cons_append, span, span, ih]
    omega

theorem span_child (dir : Path) (name : String) : (dir.child name).span = dir.stem.span + nameSize name + 1 := by
  rw [child_eq, span_append, span, span]
  omega

/-- A path that ends in a name is trimmed. -/
theorem trimmed_child (dir : Path) {name : String} (ne : name ≠ "") : (dir.child name).trimmed = dir.child name := by
  have test : (name == "") = false := beq_eq_false_iff_ne.mpr ne
  rw [child_eq, trimmed, List.reverse_append, List.reverse_singleton, List.singleton_append, List.dropWhile_cons, test]
  simp

/-- A path is its trimmed form and then empty names. -/
theorem trimmed_append (path : Path) : ∃ slashes, path = path.trimmed ++ List.replicate slashes "" := by
  have parts := List.takeWhile_append_dropWhile (p := (· == "")) (l := path.reverse)
  refine ⟨(path.reverse.takeWhile (· == "")).length, ?_⟩
  have blank : path.reverse.takeWhile (· == "") =
      List.replicate (path.reverse.takeWhile (· == "")).length "" := by
    rw [List.eq_replicate_iff]
    have all := List.all_takeWhile (p := (· == "")) (l := path.reverse)
    exact ⟨rfl, fun name member => by simpa using List.all_eq_true.mp all name member⟩
  have whole := congrArg List.reverse parts
  rw [List.reverse_append, List.reverse_reverse] at whole
  rw [trimmed]
  conv => lhs; rw [← whole, blank, List.reverse_replicate]

end Path

namespace FileTree

variable {t t' : FileTree} {dir place : Path} {width : Nat} {name : String} {id : FileId} {content : Bytes}

def KeepsDirectories (t t' : FileTree) : Prop :=
  ∀ place, t.find? place = some .directory → t'.find? place = some .directory

theorem step_eq_ok (t : FileTree) {place next : Path} (taken : t.step place name = .ok next) :
    t.find? place = some .directory := by
  unfold step at taken
  split at taken
  · simp at taken
  · simp at taken
  · assumption

theorem step_plain (directory : t.find? place = some .directory) (plain : Path.Plain name) :
    t.step place name = .ok (place ++ [name]) := by
  have short : ¬ Path.maxNameSize < Path.nameSize name := Nat.not_lt.mpr plain.short
  simp [step, directory, plain.named.1, plain.named.2.1, plain.named.2.2, short]

theorem KeepsDirectories.walk (keeps : KeepsDirectories t t') (path : Path) {first last : Path}
    (walked : path.foldlM t.step first = .ok last) : path.foldlM t'.step first = .ok last := by
  induction path generalizing first with
  | nil => exact walked
  | cons name rest ih =>
    rw [List.foldlM_cons] at walked ⊢
    cases taken : t.step first name with
    | error fault => simp [taken, bind, Except.bind] at walked
    | ok next =>
      simp only [taken, bind, Except.bind] at walked
      have here := keeps _ (step_eq_ok t taken)
      have same : t'.step first name = .ok next := by
        rw [← taken]
        simp only [step, here, step_eq_ok t taken]
      simp only [same, bind, Except.bind]
      exact ih walked

/-- A resolved path, taken apart. -/
theorem resolve_eq_ok {path : Path} : t.resolve path = .ok place ↔
    path.isMalformed = false ∧ path.isOverlong = false ∧ path.foldlM t.step [] = .ok place := by
  unfold resolve
  cases path.isMalformed <;> cases path.isOverlong <;> simp

theorem KeepsDirectories.resolve (keeps : KeepsDirectories t t') {path : Path}
    (resolved : t.resolve path = .ok place) : t'.resolve path = .ok place := by
  rw [resolve_eq_ok] at resolved ⊢
  exact ⟨resolved.1, resolved.2.1, keeps.walk path resolved.2.2⟩

/-- A directory at a place whose path leaves room for names of up to `width` bytes. -/
structure Hosts (t : FileTree) (dir place : Path) (width : Nat) : Prop where
  resolved : t.resolve dir = .ok place
  directory : t.find? place = some .directory
  roomy : (dir.child "").span + width ≤ Path.maxSize + 1

theorem Hosts.kept (hosts : t.Hosts dir place width) (keeps : KeepsDirectories t t') :
    t'.Hosts dir place width :=
  ⟨keeps.resolve hosts.resolved, keeps _ hosts.directory, hosts.roomy⟩

theorem Hosts.walk_stem (hosts : t.Hosts dir place width) : dir.stem.foldlM t.step [] = .ok place := by
  have walked := (resolve_eq_ok.mp hosts.resolved).2.2
  unfold Path.stem
  split
  · rename_i slash
    have whole := List.dropLast_append_getLast? _ slash
    rw [← whole, List.foldlM_append] at walked
    cases first : dir.dropLast.foldlM t.step [] with
    | error fault => simp [first, bind, Except.bind] at walked
    | ok before =>
      simp only [first, bind, Except.bind, List.foldlM_cons, List.foldlM_nil, pure, Except.pure] at walked
      cases taken : t.step before "" with
      | error fault => simp [taken] at walked
      | ok next =>
        have directory := step_eq_ok t taken
        simp only [taken, Except.ok.injEq] at walked
        simp [step, directory] at taken
        rw [taken, walked]
  · exact walked

theorem Hosts.resolve_child (hosts : t.Hosts dir place width) (plain : Path.Plain name)
    (fits : Path.nameSize name ≤ width) : t.resolve (dir.child name) = .ok (place ++ [name]) := by
  obtain ⟨clean, -, -⟩ := resolve_eq_ok.mp hosts.resolved
  rw [resolve_eq_ok]
  refine ⟨?_, ?_, ?_⟩
  · rw [Path.child_eq]
    have stemClean : dir.stem.isMalformed = false := by
      unfold Path.stem
      split
      · unfold Path.isMalformed at clean ⊢
        rw [List.any_eq_false] at clean ⊢
        exact fun name member => clean name (List.dropLast_subset _ member)
      · exact clean
    have nameClean : (name.toList.any fun c => c.toNat = 0) = false := by
      rw [List.any_eq_false]
      exact fun c member => by simpa using plain.clean c member
    simp only [Path.isMalformed] at stemClean ⊢
    rw [List.any_append, stemClean, List.any_cons, nameClean]
    rfl
  · have roomy := hosts.roomy
    rw [Path.span_child] at roomy
    rw [Path.isOverlong, Path.span_child]
    have empty : Path.nameSize "" = 0 := rfl
    simp only [decide_eq_false_iff_not]
    omega
  · rw [Path.child_eq, List.foldlM_append, hosts.walk_stem]
    simp [bind, Except.bind, step_plain hosts.directory plain, pure, Except.pure]

theorem Hosts.list (hosts : t.Hosts dir place width) : t.list dir = .ok (t.children place) := by
  simp [FileTree.list, hosts.resolved, hosts.directory, bind, Except.bind]

theorem Hosts.resolve_trimmed (hosts : t.Hosts dir place width) : t.resolve dir.trimmed = .ok place := by
  obtain ⟨slashes, whole⟩ := dir.trimmed_append
  obtain ⟨clean, short, walked⟩ := resolve_eq_ok.mp hosts.resolved
  rw [resolve_eq_ok]
  refine ⟨?_, ?_, ?_⟩
  · unfold Path.isMalformed at clean ⊢
    rw [List.any_eq_false] at clean ⊢
    exact fun name member => clean name (by rw [whole]; exact List.mem_append_left _ member)
  · rw [Path.isOverlong, decide_eq_false_iff_not] at short ⊢
    rw [whole, Path.span_append] at short
    omega
  · rw [whole, List.foldlM_append] at walked
    have stays : ∀ (slashes : Nat) (first : Path),
        (List.replicate slashes "").foldlM t.step first = .ok place → first = place := by
      intro slashes
      induction slashes with
      | zero => exact fun first walked => by simpa [pure, Except.pure] using walked
      | succ slashes ih =>
        intro first walked
        rw [List.replicate_succ, List.foldlM_cons] at walked
        cases taken : t.step first "" with
        | error fault => simp [taken, bind, Except.bind] at walked
        | ok next =>
          have directory := step_eq_ok t taken
          simp only [taken, bind, Except.bind] at walked
          simp [step, directory] at taken
          rw [taken]
          exact ih next walked
    cases first : dir.trimmed.foldlM t.step [] with
    | error fault => simp [first, bind, Except.bind] at walked
    | ok before =>
      simp only [first, bind, Except.bind] at walked
      rw [stays slashes before walked]

/-- Making a directory that is there changes nothing. -/
theorem Hosts.makeDirectories (hosts : t.Hosts dir place width) :
    (Edit.makeDirectories dir).perform t = (.ok (), t) := by
  have there : (Edit.makeDirectory dir.trimmed).perform t = (.ok (), t) := by
    apply Edit.perform_change
    simp [hosts.resolve_trimmed, hosts.directory, bind, Except.bind]
  simp [Edit.makeDirectories, Path.upward, Edit.makeFrom, Action.perform_bind, there]

/-! ## Files by their names -/

section
variable (hosts : t.Hosts dir place width) (plain : Path.Plain name) (fits : Path.nameSize name ≤ width)
include hosts plain fits

theorem Hosts.locate_child : t.locate (dir.child name) = .ok (t.find? (place ++ [name])) := by
  simp [locate, hosts.resolve_child plain fits, bind, Except.bind, pure, Except.pure]

theorem Hosts.read_child (file : t.find? (place ++ [name]) = some (.file id content)) :
    t.read (dir.child name) = .ok content := by
  simp [read, hosts.locate_child plain fits, file, bind, Except.bind]

theorem Hosts.read_absent (free : t.find? (place ++ [name]) = none) :
    t.read (dir.child name) = .error .notFound := by
  simp [read, hosts.locate_child plain fits, free, bind, Except.bind]

theorem Hosts.length_child (file : t.find? (place ++ [name]) = some (.file id content)) :
    t.length (dir.child name) = .ok content.length := by
  simp [length, hosts.resolve_child plain fits, file, bind, Except.bind]

theorem Hosts.openFile_child (file : t.find? (place ++ [name]) = some (.file id content)) :
    t.openFile (dir.child name) = .ok (id, t) := by
  simp [openFile, hosts.resolve_child plain fits, file, bind, Except.bind]

theorem Hosts.openFile_absent (free : t.find? (place ++ [name]) = none) :
    t.openFile (dir.child name) = .ok (t.create (place ++ [name])) := by
  simp [openFile, hosts.resolve_child plain fits, free, bind, Except.bind]

theorem Hosts.openFile_directory (lies : t.find? (place ++ [name]) = some .directory) :
    t.openFile (dir.child name) = .error .isADirectory := by
  simp [openFile, hosts.resolve_child plain fits, lies, bind, Except.bind]

theorem Hosts.setLength_child (file : t.find? (place ++ [name]) = some (.file id content)) (length : Nat) :
    t.setLength (dir.child name) length = .ok (t.alter id (resize length)) := by
  simp [setLength, openExisting, hosts.locate_child plain fits, file, bind, Except.bind]

end

/-! ## Directories are kept -/

theorem keepsDirectories_refl (t : FileTree) : KeepsDirectories t t := fun _ => id

theorem KeepsDirectories.trans {t'' : FileTree} (first : KeepsDirectories t t') (second : KeepsDirectories t' t'') :
    KeepsDirectories t t'' := fun place lies => second place (first place lies)

theorem keepsDirectories_alter (t : FileTree) (id : FileId) (change : Bytes → Bytes) :
    KeepsDirectories t (t.alter id change) := by
  intro place lies
  rw [find?_alter, lies]
  rfl

theorem keepsDirectories_add (free : t.find? place = none) (node : Inode) : KeepsDirectories t (t.add place node) := by
  intro other lies
  rw [find?_add free, if_neg, lies]
  rintro rfl
  simp [free] at lies

theorem keepsDirectories_create (free : t.find? place = none) : KeepsDirectories t (t.create place).2 :=
  keepsDirectories_add free _

/-- Directories that were there when an entry was not are kept when the entry goes. -/
theorem keepsDirectories_prune {t₀ : FileTree} (sound : t₀.Sound) {gone : Path} (free : t₀.find? gone = none)
    (keeps : KeepsDirectories t₀ t) : KeepsDirectories t₀ (t.prune gone) := by
  have leaf : t₀.find? gone ≠ some .directory := by simp [free]
  intro other lies
  rw [find?_prune t (ne_root leaf), if_neg, keeps other lies]
  intro below
  obtain ⟨rest, rfl⟩ := List.isPrefixOf_iff_prefix.mp below
  rw [sound.ends leaf rest lies, List.append_nil] at lies
  exact leaf lies

/-! ## Changes in one directory -/

/-- From one tree to another, at most entries of one directory change, and no directory
    is lost. -/
structure ChangesOnly (place : Path) (t t' : FileTree) : Prop where
  keeps : KeepsDirectories t t'
  same : ∀ p : Path, p.dropLast ≠ place → t'.find? p = t.find? p

theorem ChangesOnly.refl (place : Path) (t : FileTree) : ChangesOnly place t t :=
  ⟨keepsDirectories_refl t, fun _ _ => rfl⟩

theorem ChangesOnly.trans {t'' : FileTree} (first : ChangesOnly place t t') (second : ChangesOnly place t' t'') :
    ChangesOnly place t t'' :=
  ⟨first.keeps.trans second.keeps, fun p apart => (second.same p apart).trans (first.same p apart)⟩

/-- Other files keep their content. -/
theorem Sound.find?_alter_file (sound : t.Sound) (file : t.find? place = some (.file id content))
    (change : Bytes → Bytes) (other : Path) :
    (t.alter id change).find? other = if other = place then some (.file id (change content)) else t.find? other := by
  rw [find?_alter]
  by_cases here : other = place
  · rw [if_pos here, here, file]
    simp [Inode.alter]
  · rw [if_neg here]
    cases lies : t.find? other with
    | none => rfl
    | some node =>
      cases node with
      | directory => rfl
      | file id' content' =>
        have ne : id' ≠ id := by
          rintro rfl
          exact here (sound.owned lies file)
        simp [Inode.alter, ne]

/-- A change of one entry that is no directory. -/
theorem changesOnly_of_find? (name : String) (leaf : t.find? (place ++ [name]) ≠ some .directory)
    (find : ∀ other, other ≠ place ++ [name] → t'.find? other = t.find? other) : ChangesOnly place t t' := by
  refine ⟨fun other lies => ?_, fun p apart => find p ?_⟩
  · have ne : other ≠ place ++ [name] := by
      rintro rfl
      exact leaf lies
    rw [find other ne, lies]
  · rintro rfl
    exact apart List.dropLast_concat

theorem Sound.changesOnly_alter (sound : t.Sound) (file : t.find? (place ++ [name]) = some (.file id content))
    (change : Bytes → Bytes) : ChangesOnly place t (t.alter id change) :=
  changesOnly_of_find? name (by simp [file]) fun other apart => by rw [sound.find?_alter_file file, if_neg apart]

theorem changesOnly_create (free : t.find? (place ++ [name]) = none) :
    ChangesOnly place t (t.create (place ++ [name])).2 :=
  changesOnly_of_find? name (by simp [free]) fun other apart => by rw [find?_create free, if_neg apart]

/-! ## Files written and removed -/

section
variable (hosts : t.Hosts dir place width) (plain : Path.Plain name) (fits : Path.nameSize name ≤ width)
include hosts plain fits

/-- A file written whole, over what lay at its name or as a new one. -/
theorem Hosts.write_child (sound : t.Sound) (leaf : t.find? (place ++ [name]) ≠ some .directory) (bytes : Bytes) :
    ∃ t' id, t.write (dir.child name) bytes = .ok t' ∧ t'.Sound ∧ ChangesOnly place t t' ∧
      ∀ other, t'.find? other = if other = place ++ [name] then some (.file id bytes) else t.find? other := by
  have wrote : ∀ {opened : FileTree} {id : FileId} {old : Bytes}, opened.Sound →
      opened.find? (place ++ [name]) = some (.file id old) →
      (∀ other, other ≠ place ++ [name] → opened.find? other = t.find? other) →
      t.openFile (dir.child name) = .ok (id, opened) →
      ∃ t' id, t.write (dir.child name) bytes = .ok t' ∧ t'.Sound ∧ ChangesOnly place t t' ∧
        ∀ other, t'.find? other = if other = place ++ [name] then some (.file id bytes) else t.find? other := by
    intro opened id old sound' file same given
    have find : ∀ other, (opened.alter id fun _ => bytes).find? other =
        if other = place ++ [name] then some (.file id bytes) else t.find? other := by
      intro other
      rw [sound'.find?_alter_file file]
      split
      · rfl
      · rename_i apart
        exact same other apart
    refine ⟨opened.alter id fun _ => bytes, id, ?_, sound'.alter _ _, changesOnly_of_find? name leaf ?_, find⟩
    · simp [write, given, bind, Except.bind]
    · exact fun other apart => by rw [find, if_neg apart]
  cases lies : t.find? (place ++ [name]) with
  | none =>
    have find := fun other => find?_create lies other
    refine wrote (sound.create lies ?_) (by rw [find, if_pos rfl]) (fun other apart => by rw [find, if_neg apart])
      (hosts.openFile_absent plain fits lies)
    rw [List.dropLast_concat]
    exact hosts.directory
  | some node =>
    cases node with
    | directory => exact absurd lies leaf
    | file id old => exact wrote sound lies (fun _ _ => rfl) (hosts.openFile_child plain fits lies)

theorem Hosts.removeFile_child (sound : t.Sound) (file : t.find? (place ++ [name]) = some (.file id content)) :
    ∃ t', t.removeFile (dir.child name) = .ok t' ∧ t'.Sound ∧ ChangesOnly place t t' ∧
      ∀ other, t'.find? other = if other = place ++ [name] then none else t.find? other := by
  have leaf : t.find? (place ++ [name]) ≠ some .directory := by simp [file]
  have find := sound.find?_pruneLeaf leaf
  refine ⟨t.prune (place ++ [name]), ?_, sound.prune (ne_root leaf), changesOnly_of_find? name leaf ?_, find⟩
  · simp [removeFile, hosts.resolve_child plain fits, file, bind, Except.bind]
  · exact fun other apart => by rw [find, if_neg apart]

theorem Hosts.removeFile_absent (free : t.find? (place ++ [name]) = none) :
    t.removeFile (dir.child name) = .error .notFound := by
  simp [removeFile, hosts.resolve_child plain fits, free, bind, Except.bind]

end

/-- A file of a directory moved to another name in it, over what lay there. -/
theorem Hosts.rename_child {name' : String} (hosts : t.Hosts dir place width) (sound : t.Sound) (plain : Path.Plain name)
    (fits : Path.nameSize name ≤ width) (plain' : Path.Plain name') (fits' : Path.nameSize name' ≤ width)
    (file : t.find? (place ++ [name]) = some (.file id content)) (leaf : t.find? (place ++ [name']) ≠ some .directory)
    (apart : name ≠ name') :
    ∃ t', t.rename (dir.child name) (dir.child name') = .ok t' ∧ t'.Sound ∧ ChangesOnly place t t' ∧
      ∀ other, t'.find? other = if other = place ++ [name'] then some (.file id content)
        else if other = place ++ [name] then none else t.find? other := by
  obtain ⟨t', renamed, sound', find⟩ := sound.rename (hosts.resolve_child plain fits) file
    (hosts.resolve_child plain' fits') leaf (by simpa using apart) (by rw [List.dropLast_concat, List.dropLast_concat])
  refine ⟨t', renamed, sound', ⟨fun other lies => ?_, fun p elsewhere => ?_⟩, find⟩
  · rw [find, if_neg, if_neg, lies]
    · rintro rfl
      simp [file] at lies
    · rintro rfl
      exact leaf lies
  · rw [find, if_neg, if_neg]
    · rintro rfl
      exact elsewhere List.dropLast_concat
    · rintro rfl
      exact elsewhere List.dropLast_concat

end FileTree
end Shiplog
