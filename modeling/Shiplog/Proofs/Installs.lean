import Shiplog.Proofs.Recoveries

/-!
What a standby takes over. Installing a snapshot leaves the client exactly the entries of
the snapshot, whatever the store held before (`Stands.install`); the records sent along
take effect after it (`Stands.installPayload`), and a record that is shipped later takes
effect unless the fence covers it (`Stands.applyPayload`).
-/
namespace Shiplog
namespace Engine

/-! ## Searching a snapshot -/

/-- Entries at rising indices have rising keys. -/
def Ascending (entries : Array (Bytes × Bytes)) : Prop :=
  ∀ i j (first : i < entries.size) (second : j < entries.size), i < j → entries[i].1 < entries[j].1

theorem ascending_of_sorted {m : OrderedMap Bytes Bytes} (sorted : m.Sorted) : Ascending m.entries.toArray := by
  intro i j first second less
  have pairs := List.pairwise_iff_getElem.mp sorted
  simpa using pairs i j (by simpa using first) (by simpa using second) less

/-- Halving keeps the half that holds the key. -/
theorem bisect_eq {entries : Array (Bytes × Bytes)} (ascending : Ascending entries) {i : Nat} (within : i < entries.size)
    (low count : Nat) (from_low : low ≤ i) (below : i < low + count) (room : low + count ≤ entries.size) :
    bisect entries entries[i].1 low count = i := by
  induction low, count using bisect.induct entries entries[i].1 with
  | case1 low count small =>
    rw [bisect, dif_pos small]
    omega
  | case2 low count large middle half ih =>
    have inside : middle < entries.size := by omega
    have value : entries.getD middle ([], []) = entries[middle] := by
      rw [Array.getD_eq_getD_getElem?, Array.getElem?_eq_getElem inside]
      rfl
    rw [bisect, dif_neg large]
    have choice : half = if entries[i].1 < entries[middle].1 then low else middle := by
      simp only [half, value, dite_eq_ite]
    by_cases before : entries[i].1 < entries[middle].1
    · -- The key comes before the middle.
      have under : i < middle := by
        refine Nat.lt_of_not_le fun le => ?_
        rcases Nat.lt_or_eq_of_le le with less | same
        · exact Strict.irrefl _ (Strict.trans before (ascending middle i inside within less))
        · subst same
          exact Strict.irrefl _ before
      rw [if_pos before] at choice
      exact ih (by omega) (by omega) (by omega)
    · have above : middle ≤ i := by
        refine Nat.le_of_not_lt fun less => ?_
        exact before (ascending i middle within inside less)
      rw [if_neg before] at choice
      exact ih (by omega) (by omega) (by omega)

/-- The search finds exactly the keys of a map. -/
theorem holdsKey_eq {m : OrderedMap Bytes Bytes} (sorted : m.Sorted) (key : Bytes) :
    holdsKey m.entries.toArray key = (m.get? key).isSome := by
  cases found : m.get? key with
  | some value =>
    obtain ⟨i, within, here⟩ := List.mem_iff_getElem.mp (sorted.get?_eq_some.mp found)
    have inside : i < m.entries.toArray.size := by simpa using within
    have entry : m.entries.toArray[i] = (key, value) := by simpa using here
    have index :=
      bisect_eq (ascending_of_sorted sorted) inside 0 m.entries.toArray.size (Nat.zero_le i) (by omega) (by omega)
    rw [entry] at index
    rw [holdsKey, index, Array.getElem?_eq_getElem inside, entry]
    simp
  | none =>
    rw [holdsKey]
    split
    · rename_i entry there
      have member : entry ∈ m.entries := by
        simpa using Array.mem_of_getElem? there
      rw [Option.isSome_none, decide_eq_false_iff_not]
      rintro rfl
      rw [sorted.get?_eq_some.mpr member] at found
      cases found
    · rfl

theorem staleKeys_eq {snapshot : Snapshot} {kept user : OrderedMap Bytes Bytes} {present : List (Bytes × Bytes)}
    (entries : snapshot.entries = kept.entries) (sorted : kept.Sorted)
    (clients : present.filter (fun entry => !isReserved entry.1) = user.entries) :
    staleKeys snapshot present = user.keys.filter fun key => (kept.get? key).isNone := by
  have same : ∀ key, (!holdsKey kept.entries.toArray key) = (kept.get? key).isNone := by
    intro key
    rw [holdsKey_eq sorted]
    cases kept.get? key <;> rfl
  simp only [staleKeys, entries, same, OrderedMap.keys, ← clients]
  rw [List.filter_map]
  rfl

/-! ## Installing -/

variable {berth : Berth} {m : Mounted Engine} {bound : Nat} {logged : List LoggedEntry} {given : List Position}
  {c : Content}

/-- Entries applied one after the other, each by an action of its own. -/
theorem Stands.applyEach {α : Type} (stands : Stands berth m bound logged given c) (act : α → Action (Mounted Engine) Unit)
    (entry : α → Entry) (items : List α)
    (same : ∀ a ∈ items, ∀ m, (act a).perform m = (Engine.apply (entry a)).perform m)
    (takes : ∀ a ∈ items, isReserved (entry a).key = false ∧ berth.backend.Accepts (entry a).key) :
    ∃ m', (items.forM act).perform m = (.ok (), m') ∧
      Stands berth m' bound logged given { c with user := (items.map entry).foldl Entry.effect c.user } ∧
      m'.item.log = m.item.log := by
  induction items generalizing m c with
  | nil => exact ⟨m, rfl, stands, rfl⟩
  | cons a rest ih =>
    obtain ⟨client, accepted⟩ := takes a List.mem_cons_self
    obtain ⟨m₁, first, stands₁, log₁⟩ := stands.apply client accepted
    obtain ⟨m₂, done, stands₂, log₂⟩ := ih stands₁ (fun b member => same b (List.mem_cons_of_mem a member))
      fun b member => takes b (List.mem_cons_of_mem a member)
    refine ⟨m₂, ?_, stands₂, log₂.trans log₁⟩
    rw [Action.perform_forM_cons, same a List.mem_cons_self, first]
    exact done

def puts (kv : OrderedMap Bytes Bytes) : List Entry := kv.entries.map fun entry => .put entry.1 entry.2

theorem get?_puts {kept : OrderedMap Bytes Bytes} (sorted : kept.Sorted) (kv : OrderedMap Bytes Bytes) (key : Bytes) :
    ((puts kept).foldl Entry.effect kv).get? key = (kept.get? key).or (kv.get? key) := by
  obtain ⟨entries⟩ := kept
  induction entries generalizing kv with
  | nil => rfl
  | cons entry rest ih =>
    obtain ⟨k, value⟩ := entry
    obtain ⟨first, later⟩ := List.pairwise_cons.mp sorted
    have rest_eq := ih ((Entry.put k value).effect kv) later
    rw [puts, List.map_cons, List.foldl_cons]
    refine rest_eq.trans ?_
    rw [OrderedMap.get?_cons, Entry.get?_effect]
    by_cases same : key = k
    · have once : (⟨rest⟩ : OrderedMap Bytes Bytes).get? k = none := by
        rw [Option.eq_none_iff_forall_ne_some]
        intro v found
        have sorted' : OrderedMap.Sorted ⟨rest⟩ := later
        exact Strict.irrefl k (first _ (sorted'.get?_eq_some.mp found))
      simp [same, once, Entry.put]
    · simp [same, Entry.put]

theorem get?_deletes (keys : List Bytes) (kv : OrderedMap Bytes Bytes) (key : Bytes) :
    ((keys.map Entry.delete).foldl Entry.effect kv).get? key = if key ∈ keys then none else kv.get? key := by
  induction keys generalizing kv with
  | nil => simp
  | cons k rest ih =>
    rw [List.map_cons, List.foldl_cons, ih, Entry.get?_effect]
    by_cases same : key = k
    · simp [same, Entry.delete]
    · simp [same, Entry.delete]

theorem sorted_foldl_effect {kv : OrderedMap Bytes Bytes} (sorted : kv.Sorted) (entries : List Entry) :
    (entries.foldl Entry.effect kv).Sorted := by
  induction entries generalizing kv with
  | nil => exact sorted
  | cons entry rest ih => exact ih (Entry.sorted_effect sorted entry)

/-- The values of a map put, and the other keys deleted, leave that map. -/
theorem replaced_eq {kept user : OrderedMap Bytes Bytes} (kept_sorted : kept.Sorted) (user_sorted : user.Sorted) :
    ((user.keys.filter fun key => (kept.get? key).isNone).map Entry.delete).foldl Entry.effect
      ((puts kept).foldl Entry.effect user) = kept := by
  refine (sorted_foldl_effect (sorted_foldl_effect user_sorted _) _).ext kept_sorted fun key => ?_
  rw [get?_deletes, get?_puts kept_sorted]
  cases found : kept.get? key with
  | some value => simp [found]
  | none =>
    cases old : user.get? key with
    | none => simp
    | some value =>
      have member : key ∈ user.keys := List.mem_map.mpr ⟨(key, value), user_sorted.get?_eq_some.mp old, rfl⟩
      simp [found, member]

/-- Entries that the backend takes are put one after the other. -/
theorem Stands.putEntries (stands : Stands berth m bound logged given c) {entries : List (Bytes × Bytes)}
    (takes : ∀ entry ∈ entries, isReserved entry.1 = false ∧ berth.backend.Accepts entry.1) :
    ∃ m', (putEntries entries).perform m = (.ok (), m') ∧
      Stands berth m' bound logged given { c with user := (puts ⟨entries⟩).foldl Entry.effect c.user } ∧
      m'.item.log = m.item.log :=
  stands.applyEach
    (fun entry : Bytes × Bytes => do
      Action.ofExcept (checkKey entry.1)
      onStore (Store.put entry.1 entry.2))
    (fun entry => .put entry.1 entry.2) entries
    (fun entry member m => by
      rw [Action.perform_bind, Action.perform_ofExcept, checkKey, (takes entry member).1]
      rfl)
    takes

/-- Only keys of the client's entries that are present are stale. -/
theorem present_of_stale {snapshot : Snapshot} {present : List (Bytes × Bytes)} {key : Bytes}
    (stale : key ∈ staleKeys snapshot present) :
    ∃ value, (key, value) ∈ present.filter fun entry => !isReserved entry.1 := by
  have client := List.mem_of_mem_filter stale
  obtain ⟨⟨k, value⟩, there, rfl⟩ := List.mem_map.mp (List.mem_of_mem_filter client)
  exact ⟨value, List.mem_filter.mpr ⟨there, (List.mem_filter.mp client).2⟩⟩

/-- Installing a snapshot puts its entries over the client's and deletes the keys that are found
    stale. It logs nothing, marks the end of the log and sets the fence to the position of
    the snapshot. -/
theorem Stands.replaceBy (stands : Stands berth m bound logged given c) {snapshot : Snapshot}
    (takes : ∀ entry ∈ snapshot.entries, isReserved entry.1 = false ∧ berth.backend.Accepts entry.1) :
    ∃ present m', present.filter (fun entry => !isReserved entry.1) = c.user.entries ∧
      (Engine.install snapshot).perform m = (.ok (), m') ∧
      Stands berth m' bound logged given
        ⟨((staleKeys snapshot present).map Entry.delete).foldl Entry.effect
            ((puts ⟨snapshot.entries⟩).foldl Entry.effect c.user),
          some m.item.tail, some snapshot.position⟩ ∧
      m'.item.log = m.item.log := by
  obtain ⟨present, read, clients⟩ := stands.bears.entries
  obtain ⟨m₁, put, stands₁, log₁⟩ := stands.putEntries takes
  obtain ⟨m₂, deleted, stands₂, log₂⟩ := stands₁.applyEach (fun key => onStore (Store.delete key)) Entry.delete
    (staleKeys snapshot present) (fun _ _ _ => rfl) fun key member => by
      obtain ⟨value, there⟩ := present_of_stale member
      rw [clients] at there
      exact stands.bears.takes key value (stands.bears.sorted.get?_eq_some.mpr there)
  obtain ⟨m₃, fenced, stands₃, log₃⟩ := stands₂.setReplicated snapshot.position
  obtain ⟨m₄, marked, stands₄, log₄⟩ := stands₃.setVersion m₃.item.tail
  have log : m₃.item.log = m.item.log := log₃.trans (log₂.trans log₁)
  have tail : m₃.item.tail = m.item.tail := congrArg Log.position log
  rw [tail] at stands₄ marked
  refine ⟨present, m₄, clients, ?_, stands₄, log₄.trans log⟩
  have present_read : Engine.entries m.disk m.item = .ok present := read
  simp only [Engine.install, Action.perform_bind, Mounted.perform_reading, present_read, put, deleted, fenced,
    Mounted.perform_current, tail, marked]

/-- Installing a snapshot leaves the client its entries and no others, logs nothing, and sets
    the fence to the position of the snapshot. -/
theorem Stands.install (stands : Stands berth m bound logged given c) {snapshot : Snapshot} {kept : OrderedMap Bytes Bytes}
    (entries : snapshot.entries = kept.entries) (sorted : kept.Sorted) (takes : berth.backend.Takes kept) :
    ∃ m', (install snapshot).perform m = (.ok (), m') ∧
      Stands berth m' bound logged given ⟨kept, some m.item.tail, some snapshot.position⟩ ∧ m'.item.log = m.item.log := by
  have brings : ∀ entry ∈ snapshot.entries, isReserved entry.1 = false ∧ berth.backend.Accepts entry.1 := by
    intro entry member
    rw [entries] at member
    exact takes entry.1 entry.2 (sorted.get?_eq_some.mpr member)
  obtain ⟨present, m', clients, done, stands', log⟩ := stands.replaceBy brings
  have user : ((staleKeys snapshot present).map Entry.delete).foldl Entry.effect
      ((puts ⟨snapshot.entries⟩).foldl Entry.effect c.user) = kept := by
    rw [staleKeys_eq entries sorted clients, entries]
    exact replaced_eq sorted stands.bears.sorted
  rw [user] at stands'
  exact ⟨m', done, stands', log⟩

/-- A backend takes the keys that entries of its own leave. -/
theorem takes_effects {b : Backend} {kv : OrderedMap Bytes Bytes} (takes : b.Takes kv) {records : List LoggedEntry}
    (fits : ∀ r ∈ records, r.entry.Fits b) : b.Takes (effects records kv) := by
  induction records generalizing kv with
  | nil => exact takes
  | cons record rest ih =>
    refine ih (fun key value found => ?_) fun r member => fits r (List.mem_cons_of_mem record member)
    have here := fits record List.mem_cons_self
    rw [Entry.get?_effect] at found
    split at found
    · rename_i same
      rw [same]
      exact ⟨here.client, here.accepted⟩
    · exact takes key value found

/-! ## What a primary sends -/

/-- Records in ascending order after the fence are all new. -/
theorem newOf_eq_self {fence : Position} {records : List LoggedEntry} (after : ∀ r ∈ records, fence < r.position)
    (ascending : (records.map LoggedEntry.position).Pairwise (· < ·)) : newOf (some fence) records = records := by
  induction records generalizing fence with
  | nil => rfl
  | cons record rest ih =>
    rw [List.map_cons, List.pairwise_cons] at ascending
    have fresh : isOld (some fence) record = false := by
      simpa [isOld] using Position.not_le.mpr (after record List.mem_cons_self)
    have later : newOf (some record.position) rest = rest :=
      ih (fun r member => ascending.1 r.position (List.mem_map_of_mem member)) ascending.2
    rw [newOf, fresh, later]
    rfl

/-- A snapshot installed, and the records after it applied. -/
theorem Stands.installPayload (stands : Stands berth m bound logged given c) {payload : Bytes} {sync : SyncPayload}
    {kept : OrderedMap Bytes Bytes} (parsed : SyncPayload.layout.parse payload = .ok sync)
    (entries : sync.snapshot.entries = kept.entries) (sorted : kept.Sorted) (takes : berth.backend.Takes kept)
    (fits : ∀ record ∈ sync.logs, record.entry.Fits berth.backend)
    (after : ∀ record ∈ sync.logs, sync.snapshot.position < record.position)
    (ascending : (sync.logs.map LoggedEntry.position).Pairwise (· < ·)) (small : bound + pages sync.logs < 2 ^ 64) :
    ∃ m' logged' given' version, (installPayload payload).perform m = (.ok (), m') ∧
      Stands berth m' (bound + pages sync.logs) logged' given' ⟨effects sync.logs kept, version,
        (sync.logs.map LoggedEntry.position).getLast?.or (some sync.snapshot.position)⟩ := by
  obtain ⟨m₁, installed, stands₁, -⟩ := stands.install entries sorted takes
  obtain ⟨m₂, logged', version, replayed, stands₂, -⟩ := stands₁.replayFrom sync.logs fits small
  have all : newOf (some sync.snapshot.position) sync.logs = sync.logs := newOf_eq_self after ascending
  have done := stands₁.perform_replay sync.logs
  simp only [all] at replayed stands₂
  rw [replayed] at done
  refine ⟨m₂, _, _, version, ?_, stands₂⟩
  simp only [Engine.installPayload, Action.perform_bind, Action.perform_ofExcept, parsed, installed, done,
    Action.perform_pure]

/-- A record shipped: it takes effect and becomes the fence, unless the fence covers it. -/
theorem Stands.applyPayload (stands : Stands berth m bound logged given c) {payload : Bytes} {record : LoggedEntry}
    (parsed : LoggedEntry.layout.parse payload = .ok record) (fits : record.entry.Fits berth.backend)
    (small : bound + record.entry.pages < 2 ^ 64) :
    ∃ m' logged' given' version, (applyPayload payload).perform m = (.ok (), m') ∧
      Stands berth m' (bound + record.entry.pages) logged' given'
        ⟨if isOld c.replicated record then c.user else record.entry.effect c.user, version,
          if isOld c.replicated record then c.replicated else some record.position⟩ := by
  have one : pages [record] = record.entry.pages := by simp [pages]
  obtain ⟨m₁, logged', version, replayed, stands₁, -⟩ := stands.replayFrom [record]
    (fun r member => List.mem_singleton.mp member ▸ fits) (by rw [one]; exact small)
  have done := stands.perform_replay [record]
  rw [replayed] at done
  rw [one] at stands₁
  refine ⟨m₁, logged ++ logged', given ++ logged'.map LoggedEntry.position, version, ?_, ?_⟩
  · simp only [Engine.applyPayload, Action.perform_bind, Action.perform_ofExcept, parsed, done, Action.perform_pure]
  · by_cases old : isOld c.replicated record = true
    · rw [if_pos old, if_pos old]
      have passed : newOf c.replicated [record] = [] := by rw [newOf, if_pos old, newOf]
      rw [passed] at stands₁
      exact stands₁
    · rw [if_neg old, if_neg old]
      have kept : newOf c.replicated [record] = [record] := by rw [newOf, if_neg old, newOf]
      rw [kept] at stands₁
      exact stands₁

end Engine
end Shiplog
