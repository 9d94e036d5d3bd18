import Shiplog.Proofs.Actions

/-!
File trees by what lies at each place. Every operation is described by the effect
that it has on `find?`, and a sound tree (`Sound`) stays sound: its places are all
different and hang on directories, and no two files share an identity. A directory
that hosts names of some width (`Hosts`) leads by its path to the place of each of
its entries, and goes on doing so as long as directories are kept.
-/
namespace Shiplog
namespace FileTree

variable {t t' : FileTree} {place other : Path} {node : Inode}

/-! ## Sound trees -/

/-- What every operation keeps: places are different and hang on directories, and
    each file has an identity of its own. -/
structure Sound (t : FileTree) : Prop where
  unique : (t.entries.map Prod.fst).Nodup
  rooted : [] ∉ t.entries.map Prod.fst
  hung : ∀ {place node}, place ≠ [] → t.find? place = some node → t.find? place.dropLast = some .directory
  fresh : ∀ {place id content}, t.find? place = some (.file id content) → id < t.nextId
  owned : ∀ {place other id c d}, t.find? place = some (.file id c) → t.find? other = some (.file id d) →
    place = other

@[simp] theorem find?_root (t : FileTree) : t.find? [] = some .directory := rfl

theorem find?_of_ne (ne : place ≠ []) : t.find? place = t.entries.lookup place := by
  simp [find?, ne]

private theorem lookup_eq_some_iff_mem {α : Type} {entries : List (Path × α)}
    (unique : (entries.map Prod.fst).Nodup) {key : Path} {a : α} :
    entries.lookup key = some a ↔ (key, a) ∈ entries := by
  induction entries with
  | nil => simp
  | cons entry rest ih =>
    obtain ⟨k, b⟩ := entry
    simp only [List.map_cons, List.nodup_cons] at unique
    rw [List.lookup_cons]
    by_cases same : key = k
    · subst same
      have absent : (key, a) ∉ rest := fun found => unique.1 (List.mem_map.mpr ⟨_, found, rfl⟩)
      simp [absent, eq_comm]
    · have test : (key == k) = false := beq_eq_false_iff_ne.mpr same
      simp only [test, ih unique.2, List.mem_cons, Prod.mk.injEq, same, false_and, false_or]

theorem Sound.find?_eq_some (sound : t.Sound) (ne : place ≠ []) :
    t.find? place = some node ↔ (place, node) ∈ t.entries := by
  rw [find?_of_ne ne, lookup_eq_some_iff_mem sound.unique]

theorem Sound.find?_eq_none (sound : t.Sound) (ne : place ≠ []) :
    t.find? place = none ↔ place ∉ t.entries.map Prod.fst := by
  constructor
  · intro free found
    obtain ⟨⟨p, node⟩, member, rfl⟩ := List.mem_map.mp found
    have present := (sound.find?_eq_some ne).mpr member
    simp [free] at present
  · intro free
    cases lies : t.find? place with
    | none => rfl
    | some node => exact absurd (List.mem_map.mpr ⟨_, (sound.find?_eq_some ne).mp lies, rfl⟩) free

theorem Sound.empty : empty.Sound := by
  have only : ∀ {place : Path} {node : Inode}, FileTree.empty.find? place = some node → place = [] := by
    intro place node lies
    by_cases root : place = []
    · exact root
    · simp [find?_of_ne root, FileTree.empty] at lies
  constructor
  case unique => simp [FileTree.empty]
  case rooted => simp [FileTree.empty]
  case hung =>
    intro place node ne lies
    exact absurd (only lies) ne
  case fresh =>
    intro place id content lies
    rw [only lies] at lies
    simp at lies
  case owned =>
    intro place other id c d lies _
    rw [only lies] at lies
    simp at lies

theorem mem_children (name : String) : (name, node) ∈ t.children place ↔ (place ++ [name], node) ∈ t.entries := by
  simp only [children, List.mem_filterMap]
  constructor
  · rintro ⟨⟨path, node'⟩, member, found⟩
    cases last : path.getLast? with
    | none => simp [last] at found
    | some name' =>
      simp only [last] at found
      by_cases same : path.dropLast = place
      · simp only [same, ↓reduceIte, Option.some.injEq, Prod.mk.injEq] at found
        obtain ⟨rfl, rfl⟩ := found
        have whole : path = place ++ [name'] := by
          rw [← same]
          exact (List.dropLast_append_getLast? _ last).symm
        rwa [← whole]
      · simp [same] at found
  · intro member
    exact ⟨_, member, by simp⟩

theorem Sound.mem_children_iff (sound : t.Sound) (name : String) :
    (name, node) ∈ t.children place ↔ t.find? (place ++ [name]) = some node := by
  rw [mem_children, sound.find?_eq_some (by simp)]

/-- No two entries of a directory have one name. -/
theorem Sound.nodup_children (sound : t.Sound) (place : Path) : ((t.children place).map Prod.fst).Nodup := by
  have unique := sound.unique
  simp only [children]
  generalize t.entries = entries at unique
  induction entries with
  | nil => simp
  | cons entry rest ih =>
    obtain ⟨path, node⟩ := entry
    simp only [List.map_cons, List.nodup_cons] at unique
    have later := ih unique.2
    cases last : path.getLast? with
    | none => simpa [List.filterMap_cons, last] using later
    | some name =>
      by_cases same : path.dropLast = place
      · simp only [List.filterMap_cons, last, same, ↓reduceIte, List.map_cons, List.nodup_cons]
        refine ⟨?_, later⟩
        intro again
        obtain ⟨⟨name', node'⟩, member, rfl⟩ := List.mem_map.mp again
        have below : (place ++ [name'], node') ∈ rest := (mem_children (t := ⟨rest, 0⟩) name').mp member
        have whole : path = place ++ [name'] := by
          rw [← same]
          exact (List.dropLast_append_getLast? _ last).symm
        exact unique.1 (List.mem_map.mpr ⟨_, below, whole.symm⟩)
      · simpa [List.filterMap_cons, last, same] using later

end FileTree

/-- What lies at a place once the content of one file has changed. -/
def Inode.alter (id : FileId) (change : Bytes → Bytes) : Inode → Inode
  | .directory => .directory
  | .file id' content => .file id' (if id' = id then change content else content)

namespace FileTree

variable {t t' : FileTree} {place other : Path} {node : Inode}

/-! ## What changes do to places -/

@[simp] theorem find?_alter (t : FileTree) (id : FileId) (change : Bytes → Bytes) (place : Path) :
    (t.alter id change).find? place = (t.find? place).map (Inode.alter id change) := by
  by_cases root : place = []
  · simp [root, Inode.alter]
  · simp only [find?_of_ne root, alter]
    induction t.entries with
    | nil => rfl
    | cons entry rest ih =>
      obtain ⟨path, node⟩ := entry
      by_cases same : place = path
      · subst same
        cases node <;> simp [Inode.alter]
      · have test : (place == path) = false := beq_eq_false_iff_ne.mpr same
        cases node <;> simpa only [List.map_cons, List.lookup_cons, test] using ih

theorem find?_add (free : t.find? place = none) (node : Inode) (other : Path) :
    (t.add place node).find? other = if other = place then some node else t.find? other := by
  have ne : place ≠ [] := by rintro rfl; simp at free
  by_cases root : other = []
  · simp [root, Ne.symm ne]
  · rw [find?_of_ne root, find?_of_ne root, add, List.lookup_cons]
    by_cases same : other = place
    · simp [same]
    · have test : (other == place) = false := beq_eq_false_iff_ne.mpr same
      simp [test, same]

theorem find?_create (free : t.find? place = none) (other : Path) :
    (t.create place).2.find? other = if other = place then some (.file t.nextId []) else t.find? other :=
  find?_add free _ other

theorem find?_prune (t : FileTree) (ne : place ≠ []) (other : Path) :
    (t.prune place).find? other = if place.isPrefixOf other then none else t.find? other := by
  by_cases root : other = []
  · subst root
    cases place with
    | nil => exact absurd rfl ne
    | cons name rest => simp [List.isPrefixOf]
  · simp only [find?_of_ne root, prune]
    induction t.entries with
    | nil => simp
    | cons entry rest ih =>
      obtain ⟨path, node⟩ := entry
      rw [List.filter_cons, List.lookup_cons]
      by_cases same : other = path
      · subst same
        by_cases below : place.isPrefixOf other
        · simpa [below] using ih
        · simp [below]
      · have test : (other == path) = false := beq_eq_false_iff_ne.mpr same
        by_cases above : place.isPrefixOf path
        · simp [above, test, ih]
        · simp [above, test, ih, List.lookup_cons]

/-- What lies in a directory beside a pruned entry stays. -/
theorem find?_prune_beside (t : FileTree) (place : Path) (name other : String) :
    (t.prune (place ++ [name])).find? (place ++ [other]) = if name = other then none else t.find? (place ++ [other]) := by
  rw [find?_prune t (by simp)]
  have below : (place ++ [name]).isPrefixOf (place ++ [other]) = true ↔ name = other := by
    rw [List.isPrefixOf_iff_prefix, List.prefix_append_right_inj]
    simp
  by_cases same : name = other
  · rw [if_pos (below.mpr same), if_pos same]
  · rw [if_neg fun under => same (below.mp under), if_neg same]

/-! ## Soundness is kept -/

theorem Sound.alter (sound : t.Sound) (id : FileId) (change : Bytes → Bytes) : (t.alter id change).Sound := by
  have places : (t.alter id change).entries.map Prod.fst = t.entries.map Prod.fst := by
    simp only [FileTree.alter, List.map_map]
    refine List.map_congr_left fun entry _ => ?_
    obtain ⟨path, node⟩ := entry
    cases node <;> rfl
  have file : ∀ {place id' content}, (t.alter id change).find? place = some (.file id' content) →
      ∃ old, t.find? place = some (.file id' old) := by
    intro place id' content lies
    rw [find?_alter, Option.map_eq_some_iff] at lies
    obtain ⟨node, before, after⟩ := lies
    cases node with
    | directory => simp [Inode.alter] at after
    | file id'' old =>
      simp only [Inode.alter, Inode.file.injEq] at after
      exact ⟨old, by rw [before, after.1]⟩
  constructor
  case unique => exact places ▸ sound.unique
  case rooted => exact places ▸ sound.rooted
  case hung =>
    intro place node ne lies
    rw [find?_alter, Option.map_eq_some_iff] at lies
    obtain ⟨node', before, -⟩ := lies
    rw [find?_alter, sound.hung ne before]
    rfl
  case fresh =>
    intro place id' content lies
    obtain ⟨old, before⟩ := file lies
    exact sound.fresh before
  case owned =>
    intro place other id' c d here there
    obtain ⟨old, before⟩ := file here
    obtain ⟨old', before'⟩ := file there
    exact sound.owned before before'

/-- A new entry below a directory keeps a tree sound, a file if nothing else has its
    identity. -/
theorem Sound.insert (sound : t.Sound) (free : t.find? place = none)
    (below : t.find? place.dropLast = some .directory) (nextId : FileId) (later : t.nextId ≤ nextId)
    (new : ∀ id content, node = .file id content → id < nextId ∧ ∀ other d, t.find? other ≠ some (.file id d)) :
    Sound { t.add place node with nextId } := by
  have ne : place ≠ [] := by rintro rfl; simp at free
  have find : ∀ other, ({ t.add place node with nextId } : FileTree).find? other =
      if other = place then some node else t.find? other := fun other => find?_add free node other
  constructor
  case unique => simpa [add] using ⟨by simpa using (sound.find?_eq_none ne).mp free, sound.unique⟩
  case rooted => simpa [add, Ne.symm ne] using sound.rooted
  case hung =>
    intro other node' ne' lies
    rw [find] at lies ⊢
    have up : t.find? other.dropLast = some .directory := by
      by_cases same : other = place
      · exact same ▸ below
      · rw [if_neg same] at lies
        exact sound.hung ne' lies
    have apart : other.dropLast ≠ place := by
      intro same
      rw [same] at up
      simp [up] at free
    rw [if_neg apart, up]
  case fresh =>
    intro other id content lies
    rw [find] at lies
    by_cases same : other = place
    · rw [if_pos same, Option.some.injEq] at lies
      exact (new id content lies).1
    · rw [if_neg same] at lies
      exact Nat.lt_of_lt_of_le (sound.fresh lies) later
  case owned =>
    intro other other' id c d here there
    rw [find] at here there
    by_cases same : other = place <;> by_cases same' : other' = place
    · rw [same, same']
    · rw [if_pos same, Option.some.injEq] at here
      rw [if_neg same'] at there
      exact absurd there ((new id c here).2 other' d)
    · rw [if_pos same', Option.some.injEq] at there
      rw [if_neg same] at here
      exact absurd here ((new id d there).2 other c)
    · rw [if_neg same] at here
      rw [if_neg same'] at there
      exact sound.owned here there

theorem Sound.create (sound : t.Sound) (free : t.find? place = none)
    (below : t.find? place.dropLast = some .directory) : (t.create place).2.Sound :=
  sound.insert free below (t.nextId + 1) (Nat.le_succ _) (by
    rintro id content same
    cases same
    exact ⟨Nat.lt_succ_self _, fun other d lies => Nat.lt_irrefl _ (sound.fresh lies)⟩)

theorem Sound.makeDirectory (sound : t.Sound) (free : t.find? place = none)
    (below : t.find? place.dropLast = some .directory) : (t.add place .directory).Sound :=
  sound.insert free below t.nextId (Nat.le_refl _) (by rintro id content same; cases same)

/-- Nothing lies below what is no directory. -/
theorem Sound.ends (sound : t.Sound) (leaf : t.find? place ≠ some .directory) (rest : Path)
    (lies : t.find? (place ++ rest) = some node) : rest = [] := by
  induction rest using List.reverseRecOn generalizing node with
  | nil => rfl
  | append_singleton rest name ih =>
    have up := sound.hung (by simp) lies
    rw [← List.append_assoc, List.dropLast_concat] at up
    have between := ih up
    subst between
    rw [List.append_nil] at up
    exact absurd up leaf

theorem ne_root (leaf : t.find? place ≠ some .directory) : place ≠ [] := by
  rintro rfl
  exact leaf rfl

theorem Sound.find?_pruneLeaf (sound : t.Sound) (leaf : t.find? place ≠ some .directory) (other : Path) :
    (t.prune place).find? other = if other = place then none else t.find? other := by
  rw [find?_prune t (ne_root leaf)]
  by_cases same : other = place
  · simp [same]
  · rw [if_neg same]
    split
    · rename_i below
      obtain ⟨rest, rfl⟩ := List.isPrefixOf_iff_prefix.mp below
      cases lies : t.find? (place ++ rest) with
      | none => rfl
      | some node =>
        have nothing := sound.ends leaf rest lies
        simp [nothing] at same
    · rfl

theorem Sound.prune (sound : t.Sound) (ne : place ≠ []) : (t.prune place).Sound := by
  have old : ∀ {other node}, (t.prune place).find? other = some node →
      ¬ place.isPrefixOf other = true ∧ t.find? other = some node := by
    intro other node lies
    rw [find?_prune t ne] at lies
    split at lies
    · simp at lies
    · rename_i apart
      exact ⟨apart, lies⟩
  have sub : ((t.prune place).entries.map Prod.fst).Sublist (t.entries.map Prod.fst) :=
    List.filter_sublist.map _
  constructor
  case unique => exact sub.nodup sound.unique
  case rooted =>
    intro root
    exact sound.rooted (sub.subset root)
  case hung =>
    intro other node' root lies
    obtain ⟨apart, before⟩ := old lies
    rw [find?_prune t ne, if_neg, sound.hung root before]
    intro below
    exact apart (List.isPrefixOf_iff_prefix.mpr
      ((List.isPrefixOf_iff_prefix.mp below).trans (List.dropLast_prefix other)))
  case fresh =>
    intro other id content lies
    exact sound.fresh (old lies).2
  case owned =>
    intro other other' id c d here there
    exact sound.owned (old here).2 (old there).2

/-! ## A file moved within its directory -/

/-- What a move makes of the entries when only the source itself lies at or below it. -/
private theorem moved_entries {entries : List (Path × Inode)} (unique : (entries.map Prod.fst).Nodup)
    {source : Path} (goal : Path) (member : (source, node) ∈ entries)
    (alone : ∀ p n, (p, n) ∈ entries → source.isPrefixOf p → p = source) :
    (entries.filterMap fun (place, node) =>
      if source.isPrefixOf place then some (goal ++ place.drop source.length, node) else none) = [(goal, node)] := by
  induction entries with
  | nil => simp at member
  | cons entry rest ih =>
    obtain ⟨path, node'⟩ := entry
    simp only [List.map_cons, List.nodup_cons] at unique
    have later := fun p n found => alone p n (List.mem_cons_of_mem _ found)
    by_cases same : path = source
    · subst same
      have first : node' = node := by
        rcases List.mem_cons.mp member with equal | found
        · cases equal; rfl
        · exact absurd (List.mem_map.mpr ⟨_, found, rfl⟩) unique.1
      subst first
      have others : (rest.filterMap fun (place, node) =>
          if path.isPrefixOf place then some (goal ++ place.drop path.length, node) else none) = [] := by
        rw [List.filterMap_eq_nil_iff]
        rintro ⟨p, n⟩ found
        have apart : ¬ path.isPrefixOf p := by
          intro below
          exact unique.1 (List.mem_map.mpr ⟨_, found, later p n found below⟩)
        simp [apart]
      rw [List.filterMap_cons_some (b := (goal, node')) (by simp), others]
    · have apart : ¬ source.isPrefixOf path := fun below => same (alone path node' List.mem_cons_self below)
      have found : (source, node) ∈ rest := by
        rcases List.mem_cons.mp member with equal | found
        · cases equal; exact absurd rfl same
        · exact found
      rw [List.filterMap_cons_none (by simp [apart])]
      exact ih unique.2 found later

private theorem length_eq_of_beside {source goal : Path} (sourceNe : source ≠ []) (goalNe : goal ≠ [])
    (beside : source.dropLast = goal.dropLast) : source.length = goal.length := by
  have lengths := congrArg List.length beside
  have some := List.length_pos_iff.mpr goalNe
  have some' := List.length_pos_iff.mpr sourceNe
  simp only [List.length_dropLast] at lengths
  omega

private theorem dropLast_ne {path : Path} (ne : path ≠ []) : path.dropLast ≠ path := by
  intro same
  have lengths := congrArg List.length same
  have some := List.length_pos_iff.mpr ne
  simp only [List.length_dropLast] at lengths
  omega

private theorem replaceFault?_file {goal : Path} (id : FileId) (content : Bytes)
    (leaf : t.find? goal ≠ some .directory) : t.replaceFault? (.file id content) goal = none := by
  unfold replaceFault?
  cases lies : t.find? goal with
  | none => rfl
  | some node =>
    cases node with
    | directory => exact absurd lies leaf
    | file _ _ => rfl

/-- A file moved to another name in its directory, where a file or nothing lies. -/
theorem Sound.rename (sound : t.Sound) {path target source goal : Path} {id : FileId} {content : Bytes}
    (from? : t.resolve path = .ok source) (file : t.find? source = some (.file id content))
    (to? : t.resolve target = .ok goal) (leaf : t.find? goal ≠ some .directory)
    (apart : source ≠ goal) (beside : source.dropLast = goal.dropLast) :
    ∃ t', t.rename path target = .ok t' ∧ t'.Sound ∧ ∀ other, t'.find? other =
      if other = goal then some (.file id content) else if other = source then none else t.find? other := by
  have sourceLeaf : t.find? source ≠ some .directory := by simp [file]
  have goalNe := ne_root leaf
  have sourceNe := ne_root sourceLeaf
  have even := length_eq_of_beside sourceNe goalNe beside
  have notBelow : ¬ source.isPrefixOf goal := by
    intro below
    exact apart (List.IsPrefix.eq_of_length (List.isPrefixOf_iff_prefix.mp below) even)
  have notAbove : ¬ goal.isPrefixOf source := by
    intro below
    exact apart (List.IsPrefix.eq_of_length (List.isPrefixOf_iff_prefix.mp below) even.symm).symm
  have fits := replaceFault?_file id content leaf
  have alone : ∀ p n, (p, n) ∈ t.entries → source.isPrefixOf p → p = source := by
    intro p n member below
    obtain ⟨rest, rfl⟩ := List.isPrefixOf_iff_prefix.mp below
    have lies := (sound.find?_eq_some (by simp [sourceNe])).mpr member
    rw [sound.ends sourceLeaf rest lies, List.append_nil]
  have moved := moved_entries sound.unique goal ((sound.find?_eq_some sourceNe).mp file) alone
  have pruned := sound.prune sourceNe
  have findPruned := sound.find?_pruneLeaf sourceLeaf
  have goalLeaf : (t.prune source).find? goal ≠ some .directory := by
    rw [findPruned, if_neg (Ne.symm apart)]
    exact leaf
  have bare := pruned.prune goalNe
  have findBare := pruned.find?_pruneLeaf goalLeaf
  have free : ((t.prune source).prune goal).find? goal = none := by rw [findBare, if_pos rfl]
  have up : ((t.prune source).prune goal).find? goal.dropLast = some .directory := by
    have parent := sound.hung sourceNe file
    rw [findBare, if_neg (dropLast_ne goalNe), ← beside, findPruned, if_neg (dropLast_ne sourceNe), parent]
  refine ⟨{ ((t.prune source).prune goal).add goal (.file id content) with nextId := t.nextId }, ?_, ?_, ?_⟩
  · unfold FileTree.rename
    simp only [from?, to?, file, bind, Except.bind, apart, notBelow, notAbove, fits, ↓reduceIte, Bool.false_eq_true]
    rw [moved]
    rfl
  · refine bare.insert free up t.nextId (Nat.le_refl _) ?_
    rintro id' content' same
    cases same
    refine ⟨sound.fresh file, fun other d lies => ?_⟩
    rw [findBare, findPruned] at lies
    split at lies
    · simp at lies
    · split at lies
      · simp at lies
      · rename_i other_ne_source
        exact other_ne_source (sound.owned lies file)
  · intro other
    change (((t.prune source).prune goal).add goal (.file id content)).find? other = _
    rw [find?_add free, findBare, findPruned]
    by_cases same : other = goal
    · simp [same]
    · simp [same]

end FileTree
end Shiplog
