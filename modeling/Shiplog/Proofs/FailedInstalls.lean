import Shiplog.Proofs.Refusals

/-!
Snapshots that cannot be installed. The entries of a snapshot are put into the store one
after the other, and each key is looked at only when its turn comes. So an installation
fails just when some key is a bookkeeping key or one that the store refuses, and what stands
before the first of them is in the store by then and stays there, while both markers and
the log are as they were (`install_outcome`). Nothing is left of it only if the entries before
were the client's already.
-/
namespace Shiplog.Engine

variable {b : Backend} {m m' : Mounted Engine} {kv : OrderedMap Bytes Bytes} {key value : Bytes}
  {entries : List (Bytes × Bytes)}

/-! ## Entries put one after the other -/

/-- A map with some entries put into it, each over the ones before. -/
def written (kv : OrderedMap Bytes Bytes) (entries : List (Bytes × Bytes)) : OrderedMap Bytes Bytes :=
  entries.foldl (fun kv entry => kv.insert entry.1 entry.2) kv

/-- The last entry put under a key counts. -/
theorem get?_written (kv : OrderedMap Bytes Bytes) (entries : List (Bytes × Bytes)) (key : Bytes) :
    (written kv entries).get? key = (entries.reverse.lookup key).or (kv.get? key) := by
  induction entries generalizing kv with
  | nil => rfl
  | cons entry rest ih =>
    obtain ⟨k, value⟩ := entry
    rw [written, List.foldl_cons, ← written, ih, OrderedMap.get?_insert, List.reverse_cons, List.lookup_append,
      Option.or_assoc]
    by_cases same : key = k
    · simp [same]
    · have other : (key == k) = false := beq_eq_false_iff_ne.mpr same
      simp [same, List.lookup_cons, other]

theorem sorted_written (sorted : kv.Sorted) (entries : List (Bytes × Bytes)) : (written kv entries).Sorted := by
  induction entries generalizing kv with
  | nil => exact sorted
  | cons entry rest ih => exact ih (sorted.insert entry.1 entry.2)

/-- Entries of a client go to the client's part. -/
theorem userPart_written (sorted : kv.Sorted) (client : ∀ entry ∈ entries, isReserved entry.1 = false) :
    userPart (written kv entries) = written (userPart kv) entries := by
  induction entries generalizing kv with
  | nil => rfl
  | cons entry rest ih =>
    rw [List.forall_mem_cons] at client
    have first := userPart_effect sorted (show isReserved (Entry.put entry.1 entry.2).key = false from client.1)
    have later := ih (sorted.insert entry.1 entry.2) client.2
    rw [written, List.foldl_cons, ← written, later]
    exact congrArg (written · rest) first

/-- No entry is put under a key that none of them has. -/
theorem lookup_eq_none (absent : ∀ entry ∈ entries, entry.1 ≠ key) : entries.reverse.lookup key = none := by
  rw [List.lookup_eq_none_iff]
  intro entry member
  exact bne_iff_ne.mpr fun same => absent entry (List.mem_reverse.mp member) same.symm

/-! ## Keys that a snapshot may bring -/

/-- A client's key that the store takes. -/
def Brings (b : Backend) (key : Bytes) : Prop := isReserved key = false ∧ b.Accepts key

/-- What is said of any other. -/
def rejection (key : Bytes) : Error := if isReserved key then .reservedKey else DiskStore.refusal key

/-- The first entry that may not be brought, if there is one, parts the list. -/
theorem brings_cases (b : Backend) (entries : List (Bytes × Bytes)) : (∀ entry ∈ entries, Brings b entry.1) ∨
    ∃ before refused after, entries = before ++ refused :: after ∧ (∀ entry ∈ before, Brings b entry.1) ∧
      ¬ Brings b refused.1 := by
  induction entries with
  | nil => exact .inl (by simp)
  | cons entry rest ih =>
    by_cases brings : Brings b entry.1
    · rcases ih with all | ⟨before, refused, after, rfl, earlier, not⟩
      · exact .inl (List.forall_mem_cons.mpr ⟨brings, all⟩)
      · exact .inr ⟨entry :: before, refused, after, rfl, List.forall_mem_cons.mpr ⟨brings, earlier⟩, not⟩
    · exact .inr ⟨[], entry, rest, rfl, by simp, brings⟩

/-! ## The steps of an installation -/

/-- What an action on the store gives, the engine gives, its log untouched. -/
theorem perform_onStore_of {α : Type} {act : Action (Mounted Store) α} {answer : Except Error α} {s : Mounted Store}
    (done : act.perform ⟨m.disk, m.item.store⟩ = (answer, s)) :
    (onStore act).perform m = (answer, ⟨s.disk, { m.item with store := s.item }⟩) := by
  rw [perform_onStore, show act.perform (storeOf m) = (answer, s) from done]

theorem perform_onStore_put (holds : b.Holds m.disk m.item.store kv) (accepts : b.Accepts key) (value : Bytes) :
    ∃ m', (onStore (Store.put key value)).perform m = (.ok (), m') ∧
      b.Holds m'.disk m'.item.store (kv.insert key value) ∧ m'.item.log = m.item.log := by
  obtain ⟨s, done, holds', -⟩ := holds.perform_put accepts value
  exact ⟨_, perform_onStore_of done, holds', rfl⟩

/-- Entries are put as long as each may be brought. -/
theorem perform_putEntries (holds : b.Holds m.disk m.item.store kv) (brings : ∀ entry ∈ entries, Brings b entry.1) :
    ∃ m', (putEntries entries).perform m = (.ok (), m') ∧ b.Holds m'.disk m'.item.store (written kv entries) ∧
      m'.item.log = m.item.log := by
  induction entries generalizing m kv with
  | nil => exact ⟨m, rfl, holds, rfl⟩
  | cons entry rest ih =>
    obtain ⟨⟨client, accepts⟩, later⟩ := List.forall_mem_cons.mp brings
    obtain ⟨m₁, put, holds₁, log₁⟩ := perform_onStore_put holds accepts entry.2
    obtain ⟨m₂, done, holds₂, log₂⟩ := ih holds₁ later
    refine ⟨m₂, ?_, holds₂, log₂.trans log₁⟩
    rw [putEntries, Action.perform_forM_cons, Action.perform_bind, Action.perform_ofExcept, checkKey, client]
    simp only [Bool.false_eq_true, ↓reduceIte, put]
    exact done

/-- An entry that may not be brought stops the rest, and changes nothing itself. -/
theorem perform_putEntries_refused (holds : b.Holds m.disk m.item.store kv) {refused : Bytes × Bytes}
    (not : ¬ Brings b refused.1) (after : List (Bytes × Bytes)) :
    (putEntries (refused :: after)).perform m = (.error (rejection refused.1), m) := by
  rw [putEntries, Action.perform_forM_cons, Action.perform_bind, Action.perform_ofExcept, checkKey, rejection]
  cases reserved : isReserved refused.1 with
  | true => rfl
  | false =>
    have declined := holds.perform_refused
      (show ¬ b.Accepts (Entry.put refused.1 refused.2).key from fun accepts => not ⟨reserved, accepts⟩)
    simp only [Bool.false_eq_true, ↓reduceIte]
    rw [perform_onStore_of (show (Store.put refused.1 refused.2).perform ⟨m.disk, m.item.store⟩ = _ from declined)]
    rfl

theorem perform_putEntries_append (before after : List (Bytes × Bytes)) (done : (putEntries before).perform m = (.ok (), m')) :
    (putEntries (before ++ after)).perform m = (putEntries after).perform m' := by
  induction before generalizing m with
  | nil =>
    obtain rfl : m = m' := congrArg Prod.snd done
    rfl
  | cons entry rest ih =>
    rw [putEntries, Action.perform_forM_cons] at done
    rw [List.cons_append, putEntries, Action.perform_forM_cons]
    split at done
    · exact ih done
    · cases done

/-- Keys that the store takes are deleted. -/
theorem perform_deletes (holds : b.Holds m.disk m.item.store kv) {keys : List Bytes} (accepts : ∀ key ∈ keys, b.Accepts key) :
    ∃ m' kv', (keys.forM fun key => onStore (Store.delete key)).perform m = (.ok (), m') ∧
      b.Holds m'.disk m'.item.store kv' := by
  induction keys generalizing m kv with
  | nil => exact ⟨m, kv, rfl, holds⟩
  | cons key rest ih =>
    rw [List.forall_mem_cons] at accepts
    obtain ⟨s, deleted, holds₁, -⟩ := holds.perform_delete accepts.1
    obtain ⟨m₂, kv₂, done, holds₂⟩ := ih (m := ⟨s.disk, { m.item with store := s.item }⟩) holds₁ accepts.2
    refine ⟨m₂, kv₂, ?_, holds₂⟩
    rw [Action.perform_forM_cons, perform_onStore_of deleted]
    exact done

/-! ## Readings of a store -/

theorem get_eq (holds : b.Holds m.disk m.item.store kv) (accepts : b.Accepts key) :
    Engine.get m.disk m.item key = .ok (kv.get? key) := holds.get accepts

theorem clients_eq (holds : b.Holds m.disk m.item.store kv) : clients m.disk m.item = .ok (userPart kv).entries := by
  rw [clients, Engine.entries, holds.entries]
  rfl

/-- A marker stays if its key does. -/
theorem marker_kept {kv' : OrderedMap Bytes Bytes} (holds : b.Holds m.disk m.item.store kv)
    (holds' : b.Holds m'.disk m'.item.store kv') (accepts : b.Accepts key) (same : kv'.get? key = kv.get? key) :
    marker key m'.disk m'.item = marker key m.disk m.item := by
  rw [marker, marker, holds.get accepts, holds'.get accepts, same]

/-! ## Installations that fail -/

/-- What is left of an installation that was stopped behind some entries of its snapshot: these
    are in the store, and that is all. It shows unless the client had them already. -/
structure Leaves (m m' : Mounted Engine) (before : List (Bytes × Bytes)) : Prop where
  log : m'.item.log = m.item.log
  version : version m'.disk m'.item = version m.disk m.item
  replicated : replicated m'.disk m'.item = replicated m.disk m.item
  clients : ∃ user : OrderedMap Bytes Bytes, user.Sorted ∧ clients m.disk m.item = .ok user.entries ∧
    clients m'.disk m'.item = .ok (written user before).entries
  traceless_iff : Engine.clients m'.disk m'.item = Engine.clients m.disk m.item ↔
    ∀ key value, before.reverse.lookup key = some value → Engine.get m.disk m.item key = .ok (some value)

theorem leaves_of_written (holds : b.Holds m.disk m.item.store kv) {before : List (Bytes × Bytes)}
    (brings : ∀ entry ∈ before, Brings b entry.1) (holds' : b.Holds m'.disk m'.item.store (written kv before))
    (log : m'.item.log = m.item.log) : Leaves m m' before := by
  have client : ∀ entry ∈ before, isReserved entry.1 = false := fun entry member => (brings entry member).1
  have kept : ∀ key, isReserved key = true → (written kv before).get? key = kv.get? key := by
    intro key reserved
    have absent : ∀ entry ∈ before, entry.1 ≠ key := by
      rintro entry member rfl
      simp [client entry member] at reserved
    rw [get?_written, lookup_eq_none absent, Option.none_or]
  have sorted := sorted_userPart holds.sorted
  have after : Engine.clients m'.disk m'.item = .ok (written (userPart kv) before).entries := by
    rw [clients_eq holds', userPart_written holds.sorted client]
  -- A key that is put has the same value for the client as in the store.
  have reads : ∀ key value, before.reverse.lookup key = some value →
      Engine.get m.disk m.item key = .ok ((userPart kv).get? key) := by
    intro key value found
    obtain ⟨_, _, parts, -⟩ := List.lookup_eq_some_iff.mp found
    have member : (key, value) ∈ before := by
      rw [← List.mem_reverse, parts]
      simp
    obtain ⟨user, accepts⟩ := brings (key, value) member
    rw [get_eq holds accepts, get?_userPart holds.sorted, user]
    rfl
  refine ⟨log, ?_, ?_, ⟨userPart kv, sorted, clients_eq holds, after⟩, ?_⟩
  · rw [Engine.version, Engine.version,
      marker_kept holds holds' b.accepts_versionKey (kept _ isReserved_versionKey)]
  · rw [Engine.replicated, Engine.replicated,
      marker_kept holds holds' b.accepts_replicatedKey (kept _ isReserved_replicatedKey)]
  · rw [after, clients_eq holds, Except.ok.injEq]
    constructor
    · intro same key value found
      have maps : written (userPart kv) before = userPart kv := congrArg OrderedMap.mk same
      have value_eq := get?_written (userPart kv) before key
      rw [maps, found, Option.some_or] at value_eq
      rw [reads key value found, value_eq]
    · intro there
      refine congrArg OrderedMap.entries ((sorted_written sorted before).ext sorted fun key => ?_)
      rw [get?_written]
      cases found : before.reverse.lookup key with
      | none => rw [Option.none_or]
      | some value =>
        have here := there key value found
        rw [reads key value found, Except.ok.injEq] at here
        rw [Option.some_or, here]

/-- An installation whose entries may all be brought is done. -/
theorem install_done (holds : b.Holds m.disk m.item.store kv) {snapshot : Snapshot}
    (brings : ∀ entry ∈ snapshot.entries, Brings b entry.1) : ∃ m', (install snapshot).perform m = (.ok (), m') := by
  obtain ⟨m₁, put, holds₁, -⟩ := perform_putEntries holds brings
  have taken : ∀ key ∈ staleKeys snapshot kv.entries, b.Accepts key := by
    intro key member
    have present := List.mem_of_mem_filter (List.mem_of_mem_filter member)
    obtain ⟨⟨k, value⟩, there, rfl⟩ := List.mem_map.mp present
    exact holds.accepts (holds.sorted.get?_eq_some.mpr there)
  obtain ⟨m₂, kv₂, deleted, holds₂⟩ := perform_deletes holds₁ taken
  obtain ⟨m₃, fenced, holds₃, -⟩ :=
    perform_onStore_put holds₂ b.accepts_replicatedKey (Position.layout.write snapshot.position)
  obtain ⟨m₄, marked, -⟩ := perform_onStore_put holds₃ b.accepts_versionKey (Position.layout.write m₃.item.tail)
  refine ⟨m₄, ?_⟩
  have read : Engine.entries m.disk m.item = .ok kv.entries := holds.entries
  simp only [install, Action.perform_bind, Mounted.perform_reading, read, put, deleted, setMarker, fenced,
    Mounted.perform_current, marked]

/-- Behind the entries that may be brought, the first that may not ends the installation. -/
theorem perform_install_stopped (holds : b.Holds m.disk m.item.store kv) {kv' : OrderedMap Bytes Bytes} {snapshot : Snapshot}
    {before after : List (Bytes × Bytes)} {refused : Bytes × Bytes} (parts : snapshot.entries = before ++ refused :: after)
    (put : (putEntries before).perform m = (.ok (), m')) (holds' : b.Holds m'.disk m'.item.store kv')
    (not : ¬ Brings b refused.1) : (install snapshot).perform m = (.error (rejection refused.1), m') := by
  have read : Engine.entries m.disk m.item = .ok kv.entries := holds.entries
  have stopped : (putEntries snapshot.entries).perform m = (.error (rejection refused.1), m') := by
    rw [parts, perform_putEntries_append before _ put, perform_putEntries_refused holds' not]
  simp only [install, Action.perform_bind, Mounted.perform_reading, read, stopped]

theorem install_stopped (holds : b.Holds m.disk m.item.store kv) {snapshot : Snapshot} {before after : List (Bytes × Bytes)}
    {refused : Bytes × Bytes} (parts : snapshot.entries = before ++ refused :: after)
    (brings : ∀ entry ∈ before, Brings b entry.1) (not : ¬ Brings b refused.1) :
    ∃ m', (install snapshot).perform m = (.error (rejection refused.1), m') ∧ Leaves m m' before := by
  obtain ⟨m', put, holds', log⟩ := perform_putEntries holds brings
  exact ⟨m', perform_install_stopped holds parts put holds' not, leaves_of_written holds brings holds' log⟩

/-- An installation fails just when the snapshot has an entry that may not be brought. The markers
    and the log are then as they were, and of the snapshot there are the entries before the
    first such entry; the client's entries are as they were only if it had these already. -/
theorem install_outcome (holds : b.Holds m.disk m.item.store kv) (snapshot : Snapshot) :
    ((∃ e m', (install snapshot).perform m = (.error e, m')) ↔ ∃ entry ∈ snapshot.entries, ¬ Brings b entry.1) ∧
      ∀ e m', (install snapshot).perform m = (.error e, m') → ∃ before refused after,
        snapshot.entries = before ++ refused :: after ∧ (∀ entry ∈ before, Brings b entry.1) ∧ ¬ Brings b refused.1 ∧
          e = rejection refused.1 ∧ Leaves m m' before := by
  rcases brings_cases b snapshot.entries with all | ⟨before, refused, after, parts, brings, not⟩
  · obtain ⟨m₁, done⟩ := install_done holds all
    have succeeds : ∀ e m', (install snapshot).perform m ≠ (.error e, m') := by
      intro e m' failed
      rw [done] at failed
      cases failed
    refine ⟨iff_of_false (fun ⟨e, m', failed⟩ => succeeds e m' failed) fun ⟨entry, member, not⟩ => not (all entry member),
      fun e m' failed => absurd failed (succeeds e m')⟩
  · obtain ⟨m₁, stopped, leaves⟩ := install_stopped holds parts brings not
    have member : refused ∈ snapshot.entries := by
      rw [parts]
      simp
    refine ⟨iff_of_true ⟨_, m₁, stopped⟩ ⟨refused, member, not⟩, fun e m' failed => ?_⟩
    rw [stopped] at failed
    cases failed
    exact ⟨before, refused, after, parts, brings, not, rfl, leaves⟩

/-- A snapshot with a client's entry, and one under a bookkeeping key. -/
def mixedSnapshot : Snapshot := ⟨⟨1, 1, 1⟩, 1, 0, [([107], [110, 101, 119]), (bookkeeping ++ [120], [118])]⟩

/-- A new engine over a store in memory fails to install it. -/
theorem install_outcome_mixed : Backend.memory.Holds FileTree.empty (.memory .empty) .empty ∧
    ∃ e m', (install mixedSnapshot).perform ⟨FileTree.empty, ⟨.fresh [""] 8192, .memory .empty⟩⟩ = (.error e, m') ∧
      ∃ before refused after, mixedSnapshot.entries = before ++ refused :: after ∧
        (∀ entry ∈ before, Brings .memory entry.1) ∧ ¬ Brings .memory refused.1 ∧ e = rejection refused.1 ∧
        Leaves ⟨FileTree.empty, ⟨.fresh [""] 8192, .memory .empty⟩⟩ m' before := by
  have holds : Backend.memory.Holds FileTree.empty (.memory .empty) .empty := ⟨⟨0, rfl⟩, .empty⟩
  obtain ⟨fails_iff, left⟩ :=
    install_outcome (m := ⟨FileTree.empty, ⟨.fresh [""] 8192, .memory .empty⟩⟩) holds mixedSnapshot
  have reserved : ¬ Brings .memory (bookkeeping ++ [120]) := fun brings => absurd brings.1 (by decide)
  obtain ⟨e, m', failed⟩ := fails_iff.mpr ⟨_, List.mem_cons_of_mem _ List.mem_cons_self, reserved⟩
  exact ⟨holds, e, m', failed, left e m' failed⟩

/-- An engine that has put a value fails to install the snapshot, and the value is another. -/
theorem install_mixed_leaves_entry : ∃ p m₀ q m m',
    recover.perform ⟨.empty, ⟨.fresh [""] 8192, .memory ⟨.empty, 0⟩⟩⟩ = (.ok p, m₀) ∧
      (Engine.put [107] [111, 108, 100]).perform m₀ = (.ok q, m) ∧
      (install mixedSnapshot).perform m = (.error .reservedKey, m') ∧
      clients m.disk m.item = .ok [([107], [111, 108, 100])] ∧ clients m'.disk m'.item = .ok [([107], [110, 101, 119])] := by
  obtain ⟨m₀, p, opened, stands₀, -⟩ := exists_recovered
  have fits : (Entry.put [107] [111, 108, 100]).Fits .memory := ⟨⟨by decide, by decide⟩, by decide, trivial⟩
  obtain ⟨m, put, stands, -⟩ := stands₀.change fits (by decide)
  obtain ⟨kv, holds, -⟩ := stands.bears
  have client : ∀ entry ∈ [(([107] : Bytes), ([110, 101, 119] : Bytes))], Brings .memory entry.1 := by
    intro entry member
    rw [List.mem_singleton.mp member]
    exact ⟨by decide, trivial⟩
  have reserved : ¬ Brings .memory (bookkeeping ++ [120]) := fun brings => absurd brings.1 (by decide)
  obtain ⟨m', stopped, leaves⟩ := install_stopped holds (show mixedSnapshot.entries = _ from rfl) client reserved
  obtain ⟨user, -, before, after⟩ := leaves.clients
  obtain rfl : user = ⟨[([107], [111, 108, 100])]⟩ := by
    rw [stands.clients, Except.ok.injEq] at before
    exact congrArg OrderedMap.mk before.symm
  exact ⟨p, m₀, _, m, m', opened, put, stopped, before, after⟩

end Shiplog.Engine
