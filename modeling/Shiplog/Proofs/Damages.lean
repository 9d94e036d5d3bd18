import Shiplog.Proofs.Calls
import Shiplog.Proofs.Spoilage

/-!
What becomes of a log with a damaged page. A replay whose segments hold the page makes the
calls that it would make without the damage for the records that end before the page, and
fails (`Log.Halts`). A new log over the directory finds the damage at once, or does the same
in its replays; an engine that fails so keeps its version marker (`History.run_damaged`).
-/
namespace Shiplog

/-! ## Replays -/

namespace Log

/-- Over a tree where a page of a segment is damaged, a replay for which the segment is read makes
    the calls that it makes over the undamaged tree for the records of which the last page comes
    before the damaged one. Then it fails, where the other gives the end of the log. -/
def Halts (m : Mounted Log) (damaged : FileTree) (segment : Segment) (number : Nat) (e : Error) : Prop :=
  ∀ segments p kept, Segment.list m.disk m.item.dir = .ok segments → p < m.item.position →
    Scan.segmentsAfter segments p = .ok kept → segment ∈ kept →
    ∃ records, ∀ {σ : Type} (apply : Position → Bytes → Action σ Unit) (s : σ),
      (replay m p apply).perform s = (calls records (.ok m.item.position) apply).perform s ∧
      (replay ⟨damaged, m.item⟩ p apply).perform s = (calls (records.filter fun record =>
        decide (record.1 < ⟨segment.term, segment.collection, UInt64.ofNat (number + 1)⟩)) (.error e) apply).perform s

end Log

/-- Of two pages that differ in no more than the checksum they state, one is refused. -/
theorem Page.exists_refused : ∃ block : Bytes, block.length = size ∧ decode block = .error .checksum := by
  obtain ⟨crc, four, other⟩ : ∃ crc : Bytes, crc.length = 4 ∧
      Bytes.toNatBE crc ≠ (checksum (layout .whole (Bytes.zeros 4) [])).toNat := by
    refine ⟨Bytes.ofNatBE 4 ((checksum (layout .whole (Bytes.zeros 4) [])).toNat + 1), Bytes.length_ofNatBE .., ?_⟩
    have := (checksum (layout .whole (Bytes.zeros 4) [])).toNat_lt
    rw [Bytes.toNatBE_ofNatBE]
    omega
  have whole : (layout .whole crc []).length = size := length_layout four (Nat.zero_le capacity)
  have field : ((layout .whole crc []).drop 3).take 4 = crc := by
    simp [layout, four]
  refine ⟨layout .whole crc [], whole, ?_⟩
  rw [decode, if_neg (not_not.mpr whole), if_pos (by rwa [field, checksum_layout four])]

namespace Blot

variable {x : Blot} {place : Path} {id : FileId} {change : Bytes → Bytes}

section
variable {m : Mounted Log} {vs : Shelf} {bound : Nat} {before opened : Option Opened} {gone kept : List Span}
  {given : List Position} (spoils : x.Spoils m.disk place id change)
  (remains : Remains m.disk m.item.dir place vs bound before gone kept opened given) (whole : vs.Whole)
  (member : x.volume ∈ vs)
include spoils remains whole member

/-- What the segments to read give, without the damage and with it. -/
theorem Spoils.window {p : Position} {segments : List Segment}
    (chosen : Scan.segmentsAfter (vs.reverse.map (Volume.segment m.item.dir)) p = .ok segments) :
    ∃ records, Scan.assemble .empty (Scan.window m.disk segments) = ⟨records, none⟩ ∧
      (∀ record ∈ records, record ∈ kept.map Span.record) ∧
      Scan.assemble .empty (Scan.window (m.disk.alter id change) segments) =
        if x.volume.segment m.item.dir ∈ segments then
          ⟨records.filter fun record => decide (record.1 < x.position), some x.error⟩
        else ⟨records, none⟩ := by
  obtain ⟨newer, older, rfl, rfl⟩ := Shelf.exists_window chosen
  have stocked := remains.shelved.stocked
  obtain ⟨passed, later, rfl, -, assembled⟩ := Shelf.assemble_window stocked remains.steady.rising whole remains.reads
  refine ⟨later.map Span.record, assembled, fun record inside => ?_, ?_⟩
  · rw [List.map_append]
    exact List.mem_append_right _ inside
  · by_cases inside : x.volume ∈ newer
    · rw [if_pos (List.mem_map_of_mem (List.mem_reverse.mpr inside))]
      exact spoils.assemble stocked remains.steady whole inside assembled
    · have absent : x.volume.segment m.item.dir ∉ newer.reverse.map (Volume.segment m.item.dir) := by
        intro found
        obtain ⟨u, there, same⟩ := List.mem_map.mp found
        have there' := List.mem_reverse.mp there
        rw [remains.steady.rising.segment_inj (List.mem_append_left _ there') member same] at there'
        exact inside there'
      rw [if_neg absent, spoils.window_other stocked remains.steady.rising member
        (fun u here => List.mem_append_left _ (List.mem_reverse.mp here))
        (fun here => inside (List.mem_reverse.mp here)), assembled]

theorem Spoils.halts :
    Log.Halts m (m.disk.alter id change) (x.volume.segment m.item.dir) x.number x.error := by
  intro segments p chosen listed below window inside
  have listed' := remains.shelved.stocked.list remains.steady.rising
  obtain rfl := Except.ok.inj (listed'.symm.trans listed)
  obtain ⟨records, assembled, -, damaged⟩ := spoils.window remains whole member window
  have apart : p ≠ m.item.position := fun same => Position.lt_irrefl _ (same ▸ below)
  have within : ¬ m.item.position < p := Position.not_lt.mpr (Position.le_of_lt below)
  have scan : Log.scan m.disk m.item p = ⟨records, none⟩ := by
    rw [Log.scan, Scan.read_eq listed apart within, window]
    exact assembled
  have scan' : Log.scan (m.disk.alter id change) m.item p =
      ⟨records.filter fun record => decide (record.1 < x.position), some x.error⟩ := by
    rw [Log.scan, Scan.read_eq ((Segment.list_alter ..).trans listed) apart within, window]
    rw [if_pos inside] at damaged
    exact damaged
  exact ⟨records, fun apply s => ⟨Log.perform_replay_of scan apply s,
    Log.perform_replay_of (m := ⟨m.disk.alter id change, m.item⟩) scan' apply s⟩⟩

/-- What a scan gives, with the damage, was written. -/
theorem Spoils.mem_scan (p : Position) :
    ∀ record ∈ (Log.scan (m.disk.alter id change) m.item p).records, record ∈ kept.map Span.record := by
  intro record found
  have listed := remains.shelved.stocked.list remains.steady.rising
  rw [Log.scan] at found
  by_cases apart : p = m.item.position
  · rw [Scan.read, if_pos apart] at found
    cases found
  by_cases within : m.item.position < p
  · rw [Scan.read, if_neg apart, if_pos within] at found
    cases found
  rw [Scan.read_eq ((Segment.list_alter ..).trans listed) apart within] at found
  cases chosen : Scan.segmentsAfter (vs.reverse.map (Volume.segment m.item.dir)) p with
  | error e =>
    rw [chosen] at found
    cases found
  | ok segments =>
    obtain ⟨records, -, written, damaged⟩ := spoils.window remains whole member chosen
    rw [chosen] at found
    simp only [damaged] at found
    split at found
    · exact written record (List.mem_filter.mp found).1
    · exact written record found

end

/-- An overwriting of the file of one of the volumes, unless the file would grow too long. -/
theorem perform_overwrite {t : FileTree} {dir : Path} {v : Volume} (hosts : t.Hosts dir place Segment.nameWidth)
    (file : t.find? (place ++ [v.name]) = some (.file id v.content)) (offset : Nat) {block : Bytes} (ne : block ≠ []) :
    (Edit.overwrite (v.segment dir).path offset block).perform t =
      if Edit.maxLength < offset + block.length then (.error (.io .invalidInput), t)
      else (.ok (), t.alter id fun content =>
        FileTree.resize offset content ++ block ++ content.drop (offset + block.length)) := by
  have located : t.locate (v.segment dir).path = .ok (some (.file id v.content)) := by
    rw [← file]
    exact hosts.locate_child v.plain_name.1 v.plain_name.2
  have opened : t.openExisting (v.segment dir).path = .ok id := by
    rw [FileTree.openExisting, located]
    rfl
  simp only [Edit.overwrite, Edit.change, Action.perform_ofStep, opened, ne, ↓reduceIte, bind, Except.bind]
  split_ifs <;> rfl

/-- An overwriting that is done is the spoiling of the file of one of the volumes. -/
theorem exists_spoils {t t' : FileTree} {dir : Path} {blocked : List String} {vs : Shelf}
    (stocked : Stocked t dir place blocked vs) (rising : vs.Rising) {segment : Segment} {content block : Bytes}
    {number : Nat} {damage : Page.Damage} (member : segment ∈ vs.reverse.map (Volume.segment dir))
    (read : t.read segment.path = .ok content) (complete : (number + 1) * Page.size ≤ content.length)
    (whole : block.length = Page.size) (refused : Page.decode block = .error damage)
    (done : (Edit.overwrite segment.path (number * Page.size) block).perform t = (.ok (), t')) :
    ∃ (x : Blot) (id : FileId) (change : Bytes → Bytes), x.volume ∈ vs ∧ x.volume.segment dir = segment ∧
      x.number = number ∧ x.damage = damage ∧ x.Spoils t place id change ∧ t' = t.alter id change := by
  obtain ⟨v, there, rfl⟩ := List.mem_map.mp member
  have inside := List.mem_reverse.mp there
  have fits := rising.fits inside
  obtain ⟨id, file⟩ := stocked.present v inside
  have stored : t.read (v.segment dir).path = .ok v.content :=
    stocked.hosts.read_child v.plain_name.1 v.plain_name.2 file
  obtain rfl := Except.ok.inj (stored.symm.trans read)
  have within : number < v.pages.length := by
    rw [← (Repair.length_content fits (rising.torn_short inside)).1, Nat.lt_iff_add_one_le,
      Nat.le_div_iff_mul_le (by decide)]
    exact complete
  have ne : block ≠ [] := by
    rintro rfl
    cases whole
  rw [perform_overwrite stocked.hosts file _ ne] at done
  split_ifs at done
  · cases done
  · exact ⟨⟨v, number, block, damage, within, whole, refused⟩, id, _, inside, rfl, rfl, rfl,
      ⟨file, content_overwritten (x := ⟨v, number, block, damage, within, whole, refused⟩) fits⟩,
      (congrArg Prod.snd done).symm⟩

end Blot

/-! ## Recoveries -/

namespace Engine

variable {b : Backend} {m m' : Mounted Engine} {kv : OrderedMap Bytes Bytes} {e : Error}

/-- Records that spell a client's entries, as far as they spell any, are applied without a change
    of the bookkeeping keys. -/
theorem guards_deliver {version : Position} {scan : Scan}
    (client : ∀ record ∈ scan.records, ∀ entry, Entry.layout.parse record.2 = .ok entry → isReserved entry.key = false) :
    Action.Obeys (Guards b) (scan.deliver (applyAfter version)) := by
  refine Action.Obeys.bind (.forM_mem fun record member => ?_) fun _ => ?_
  · obtain ⟨position, bytes⟩ := record
    change Action.Obeys (Guards b) (applyAfter version position bytes)
    unfold applyAfter
    split
    · exact .ofExcept (.ok ())
    · intro m
      rw [Action.perform_bind, Action.perform_ofExcept]
      rcases parsed : Entry.layout.parse bytes with _ | entry
      · exact Std.Refl.refl m
      · exact guards_apply (client _ member entry parsed) m
  · cases scan.stopped with
    | none => exact .ofExcept (.ok ())
    | some e => exact .ofExcept (.error e)

/-- A recovery that fails has not marked the version. What the store holds is seen after the log
    was taken up. -/
theorem version_of_failed {m₁ : Mounted Engine} {answer : Except Error Position}
    (mounted : (onLog Log.mount).perform m = (answer, m₁)) (holds : b.Holds m₁.disk m₁.item.store kv)
    (client : ∀ tail, answer = .ok tail → ∀ p, ∀ record ∈ (m₁.item.log.scan m₁.disk p).records,
      ∀ entry, Entry.layout.parse record.2 = .ok entry → isReserved entry.key = false)
    (failed : recover.perform m = (.error e, m')) :
    ∃ kv', b.Holds m'.disk m'.item.store kv' ∧ kv'.get? versionKey = kv.get? versionKey := by
  rw [recover, Action.perform_bind, mounted] at failed
  cases answer with
  | error e' =>
    simp only [Prod.mk.injEq] at failed
    rw [← failed.2]
    exact ⟨kv, holds, rfl⟩
  | ok tail =>
    simp only [Action.perform_bind, Mounted.perform_reading] at failed
    cases marked : version m₁.disk m₁.item with
    | error e' =>
      simp only [marked, Prod.mk.injEq] at failed
      rw [← failed.2]
      exact ⟨kv, holds, rfl⟩
    | ok p =>
      simp only [marked] at failed
      generalize (if tail < p then tail else p) = start at failed
      have delivers : Action.Obeys (Guards b) ((m₁.item.log.scan m₁.disk start).deliver (applyAfter start)) :=
        guards_deliver (client tail rfl start)
      obtain ⟨kv', holds', same, -⟩ := delivers m₁ kv holds
      rcases delivered : ((m₁.item.log.scan m₁.disk start).deliver (applyAfter start)).perform m₁ with ⟨e' | _, m₂⟩
      · simp only [delivered, Prod.mk.injEq] at failed holds'
        rw [← failed.2]
        exact ⟨kv', holds', same versionKey isReserved_versionKey⟩
      · -- The marker can always be written, so the recovery would not have failed.
        rw [delivered] at holds'
        obtain ⟨s, put, -⟩ := holds'.perform_put b.accepts_versionKey (Position.layout.write tail)
        have marks : (setMarker versionKey tail).perform m₂ = (.ok (), ⟨s.disk, { m₂.item with store := s.item }⟩) :=
          perform_onStore_of put
        simp [delivered, marks] at failed

theorem marker_congr {t t' : FileTree} {e e' : Engine} {key : Bytes}
    (same : Store.get t' e'.store key = Store.get t e.store key) : marker key t' e' = marker key t e := by
  rw [marker, marker, same]

end Engine

namespace Blot

open Engine (versionKey isReserved)

variable {x : Blot} {place : Path} {id : FileId} {change : Bytes → Bytes} {m : Mounted Log} {vs : Shelf} {bound : Nat}
  {before opened : Option Opened} {gone kept : List Span} {given : List Position}

/-- A new log that is taken up over the damaged files takes up what it would without the damage,
    and its replays fail at the page. -/
theorem Spoils.reopened (spoils : x.Spoils m.disk place id change)
    (remains : Remains m.disk m.item.dir place vs bound before gone kept opened given) (small : bound + 1 < 2 ^ 64)
    (member : x.volume ∈ vs) {q : Position} {m' : Mounted Log}
    (mounted : Log.mount.perform ⟨m.disk.alter id change, m.item⟩ = (.ok q, m')) :
    ∃ m₁, Log.mount.perform m = (.ok q, m₁) ∧ m'.item = m₁.item ∧
      Log.Halts m₁ m'.disk (x.volume.segment m.item.dir) x.number x.error := by
  rcases spoils.mount_cases remains.shelved remains.steady small member with ⟨passes, member'⟩ | ⟨t', -, -, stopped⟩
  · obtain ⟨m₁, before', done, remains', -, whole, within⟩ := remains.mount small
    obtain ⟨spoils', same⟩ := passes
    rw [done] at spoils' same
    obtain ⟨rfl, rfl⟩ : m₁.item.position = q ∧ ⟨m₁.disk.alter id change, m₁.item⟩ = m' := by
      simpa using same.symm.trans mounted
    have dir : m₁.item.dir = m.item.dir := within.dir
    refine ⟨m₁, done, rfl, ?_⟩
    rw [← dir]
    exact Spoils.halts spoils' remains' whole member'
  · rw [stopped] at mounted
    cases mounted

/-- An engine that fails to recover over the damaged files keeps its version marker, if what was
    logged is a client's. -/
theorem Spoils.keeps_version (spoils : x.Spoils m.disk place id change)
    (remains : Remains m.disk m.item.dir place vs bound before gone kept opened given) (small : bound + 1 < 2 ^ 64)
    (member : x.volume ∈ vs) {b : Backend} {store : Store} {kv : OrderedMap Bytes Bytes} (apart : b.Apart place)
    (holds : b.Holds (m.disk.alter id change) store kv)
    (client : ∀ span ∈ kept, ∀ entry, Entry.layout.parse span.bytes = .ok entry → isReserved entry.key = false)
    {e : Error} {m' : Mounted Engine}
    (failed : Engine.recover.perform ⟨m.disk.alter id change, ⟨m.item, store⟩⟩ = (.error e, m')) :
    Engine.marker versionKey m'.disk m'.item =
      Engine.marker versionKey (m.disk.alter id change) ⟨m.item, store⟩ := by
  have kept_version : ∃ kv', b.Holds m'.disk m'.item.store kv' ∧ kv'.get? versionKey = kv.get? versionKey := by
    rcases spoils.mount_cases remains.shelved remains.steady small member with ⟨passes, member'⟩ | ⟨t', sound, changes, stopped⟩
    · obtain ⟨m₁, before', done, remains', -, whole, within⟩ := remains.mount small
      obtain ⟨spoils', same⟩ := passes
      rw [done] at spoils' same
      have mounted : (Engine.onLog Log.mount).perform ⟨m.disk.alter id change, ⟨m.item, store⟩⟩ =
          (.ok m₁.item.position, ⟨m₁.disk.alter id change, ⟨m₁.item, store⟩⟩) :=
        Engine.perform_onLog_of (m := ⟨m.disk.alter id change, ⟨m.item, store⟩⟩) same
      have holds' : b.Holds (m₁.disk.alter id change) store kv :=
        holds.kept apart (remains'.shelved.sound.alter id change) (FileTree.ChangesOnly.alter within.changes id change)
      refine Engine.version_of_failed mounted holds' ?_ failed
      intro tail _ p record found entry parsed
      obtain ⟨span, there, rfl⟩ := List.mem_map.mp (Spoils.mem_scan spoils' remains' whole member' p record found)
      exact client span there entry parsed
    · have mounted : (Engine.onLog Log.mount).perform ⟨m.disk.alter id change, ⟨m.item, store⟩⟩ =
          (.error x.error, ⟨t'.alter id change, ⟨m.item, store⟩⟩) :=
        Engine.perform_onLog_of (m := ⟨m.disk.alter id change, ⟨m.item, store⟩⟩) stopped
      have holds' : b.Holds (t'.alter id change) store kv :=
        holds.kept apart (sound.alter id change) (changes.alter id change)
      refine Engine.version_of_failed mounted holds' ?_ failed
      intro tail impossible
      cases impossible
  obtain ⟨kv', holds', same⟩ := kept_version
  refine Engine.marker_congr ?_
  rw [holds'.get b.accepts_versionKey, holds.get b.accepts_versionKey, same]

end Blot

/-! ## Histories -/

namespace History

/-- What a history comes to once a page of a segment is damaged. -/
structure Damaged (h : History) (dir place : Path) (damaged : FileTree) (segments : List Segment) (segment : Segment)
    (number : Nat) (damage : Page.Damage) : Prop where
  /-- Replays of a log that is up stop at the page. -/
  halts : h.log.item.mounted = true → Log.Halts h.log damaged segment number (.corruption damage.text)
  /-- So do those of a new log, if it is taken up over the damaged files as it would be over the
      undamaged. -/
  reopened : ∀ limit q m, Log.mount.perform ⟨damaged, .fresh dir limit⟩ = (.ok q, m) →
    ∃ m', Log.mount.perform ⟨h.log.disk, .fresh dir limit⟩ = (.ok q, m') ∧ m.item = m'.item ∧
      Log.Halts m' m.disk segment number (.corruption damage.text)
  /-- If the page is in the newest segment, no new log is taken up, no engine recovers, and nothing
      changes. -/
  newest : segments.getLast? = some segment → ∀ limit,
    Log.mount.perform ⟨damaged, .fresh dir limit⟩ = (.error (.corruption damage.text), ⟨damaged, .fresh dir limit⟩) ∧
    ∀ store, Engine.recover.perform ⟨damaged, ⟨.fresh dir limit, store⟩⟩ =
      (.error (.corruption damage.text), ⟨damaged, ⟨.fresh dir limit, store⟩⟩)
  /-- An engine that fails to recover keeps its version marker: its store lies elsewhere, and the
      records that spell entries spell a client's. -/
  marker : ∀ (b : Backend) store kv limit e m, b.Apart place → b.Holds damaged store kv →
    (∀ span ∈ h.spans, ∀ entry, Entry.layout.parse span.bytes = .ok entry → Engine.isReserved entry.key = false) →
    Engine.recover.perform ⟨damaged, ⟨.fresh dir limit, store⟩⟩ = (.error e, m) →
    Engine.marker Engine.versionKey m.disk m.item =
      Engine.marker Engine.versionKey damaged ⟨.fresh dir limit, store⟩

variable {h : History} {dir place : Path} {bound : Nat}

/-- A page that is overwritten with a block that is no page. -/
theorem Sound.damaged (sound : Sound h dir place bound) (small : bound + 1 < 2 ^ 64) {damaged : FileTree}
    {segments : List Segment} {segment : Segment} {content block : Bytes} {number : Nat} {damage : Page.Damage}
    (listed : Segment.list h.log.disk dir = .ok segments) (member : segment ∈ segments)
    (read : h.log.disk.read segment.path = .ok content) (complete : (number + 1) * Page.size ≤ content.length)
    (whole : block.length = Page.size) (refused : Page.decode block = .error damage)
    (overwritten : (Edit.overwrite segment.path (number * Page.size) block).perform h.log.disk = (.ok (), damaged)) :
    Damaged h dir place damaged segments segment number damage := by
  obtain rfl := sound.sameDir
  have halts : h.log.item.mounted = true → Log.Halts h.log damaged segment number (.corruption damage.text) := by
    intro up
    obtain ⟨vs, before, gone, kept, parts, remains, follows, clean⟩ := sound.up up
    have stocked := remains.shelved.stocked
    obtain rfl := Except.ok.inj (listed.symm.trans (stocked.list remains.steady.rising))
    obtain ⟨x, id, change, inside, rfl, rfl, rfl, spoils, rfl⟩ :=
      Blot.exists_spoils stocked remains.steady.rising member read complete whole refused overwritten
    exact spoils.halts remains clean inside
  obtain ⟨vs, before, gone, kept, opened, parts, remains⟩ := sound.archive
  have stocked := remains.shelved.stocked
  obtain rfl := Except.ok.inj (listed.symm.trans (stocked.list remains.steady.rising))
  obtain ⟨x, id, change, inside, rfl, rfl, rfl, spoils, rfl⟩ :=
    Blot.exists_spoils stocked remains.steady.rising member read complete whole refused overwritten
  refine ⟨halts, fun limit q m mounted => ?_, fun last limit => ?_, fun b store kv limit e m apart holds client failed => ?_⟩
  · exact spoils.reopened (m := ⟨h.log.disk, .fresh h.log.item.dir limit⟩) remains small inside mounted
  · obtain ⟨older, rfl⟩ : ∃ older, vs = x.volume :: older := by
      cases vs with
      | nil => cases inside
      | cons w older =>
        have newest : w.segment h.log.item.dir = x.volume.segment h.log.item.dir := by simpa using last
        exact ⟨older, by rw [remains.steady.rising.segment_inj List.mem_cons_self inside newest]⟩
    have stopped := spoils.perform_mount_newest (m := ⟨h.log.disk, .fresh h.log.item.dir limit⟩) stocked remains.steady.rising
    refine ⟨stopped, fun store => ?_⟩
    have mounted : (Engine.onLog Log.mount).perform
        ⟨h.log.disk.alter id change, ⟨.fresh h.log.item.dir limit, store⟩⟩ =
        (.error x.error, ⟨h.log.disk.alter id change, ⟨.fresh h.log.item.dir limit, store⟩⟩) :=
      Engine.perform_onLog_of (m := ⟨h.log.disk.alter id change, ⟨.fresh h.log.item.dir limit, store⟩⟩) stopped
    rw [Engine.recover, Action.perform_bind, mounted]
    rfl
  · refine spoils.keeps_version (m := ⟨h.log.disk, .fresh h.log.item.dir limit⟩) remains small inside apart holds ?_ failed
    exact fun span there => client span (parts ▸ List.mem_append_right _ there)

/-- Through any run of writes, terms, restarts, crashes and deletions of the oldest files from an
    empty directory, as long as the pages and files can be counted: once a complete page of a
    segment is overwritten with a block that is no page, replays stop at the page, a log whose
    newest segment it is in is not taken up, and an engine that does not recover keeps its version
    marker. -/
theorem run_damaged {t : FileTree} (sound : t.Sound) (hosts : t.Hosts dir place Segment.nameWidth)
    (empty : t.children place = []) (limit : UInt64) (events : List Event) (small : cost events + 1 < 2 ^ 64)
    {damaged : FileTree} {segments : List Segment} {segment : Segment} {content block : Bytes} {number : Nat}
    {damage : Page.Damage} (listed : Segment.list ((begin t dir limit).run events).log.disk dir = .ok segments)
    (member : segment ∈ segments) (read : ((begin t dir limit).run events).log.disk.read segment.path = .ok content)
    (complete : (number + 1) * Page.size ≤ content.length) (whole : block.length = Page.size)
    (refused : Page.decode block = .error damage)
    (overwritten : (Edit.overwrite segment.path (number * Page.size) block).perform
      ((begin t dir limit).run events).log.disk = (.ok (), damaged)) :
    Damaged ((begin t dir limit).run events) dir place damaged segments segment number damage := by
  have ends := (sound_begin sound hosts empty limit).run events (by omega)
  exact ends.damaged (by omega) listed member read complete whole refused overwritten

/-- The newest file of a log that has just written a record has a complete page, which can be
    overwritten, and the log replays the file from a position below its end. -/
theorem exists_complete_page {m : Mounted Log} {spans : List Span} {given : List Position} {span : Span}
    (chronicle : Chronicle m place bound spans given) (member : span ∈ spans) (last : span.last = m.item.position) :
    ∃ segments segment content p kept, Segment.list m.disk m.item.dir = .ok segments ∧ segments.getLast? = some segment ∧
      m.disk.read segment.path = .ok content ∧ Page.size ≤ content.length ∧
      (∀ block : Bytes, block.length = Page.size → ∃ damaged,
        (Edit.overwrite segment.path 0 block).perform m.disk = (.ok (), damaged)) ∧
      p < m.item.position ∧ Scan.segmentsAfter segments p = .ok kept ∧ segment ∈ kept := by
  obtain ⟨vs, before, gone, kept, rfl, remains, follows, whole⟩ := chronicle
  have stocked := remains.shelved.stocked
  have position : m.item.position = vs.tail := follows.tail.position
  rw [position] at last ⊢
  have found : span ∈ kept := by
    rcases List.mem_append.mp member with lost | found
    · exact absurd (last ▸ (remains.lost span lost).2.lt_tail remains.steady.rising) (Position.lt_irrefl _)
    · exact found
  obtain ⟨s, stands, same⟩ := List.mem_map.mp ((Word.positions_of_read remains.reads).1 span found).1
  obtain ⟨u, inside, term, collection, n, seq, positive, within⟩ := Shelf.mem_sheets stands
  obtain ⟨v, older, rfl⟩ : ∃ v older, vs = v :: older := List.exists_cons_of_ne_nil (List.ne_nil_of_mem inside)
  -- The record's last page is the last of the log, so its volume is the newest.
  have tail : s.1 = v.tail := same.trans last
  obtain rfl : u = v := by
    refine remains.steady.rising.name_inj inside List.mem_cons_self (congrArg₂ Segment.name ?_ ?_)
    · rw [← term, tail, Volume.tail]
    · rw [← collection, tail, Volume.tail]
  have few := remains.steady.few u inside
  obtain ⟨id, file⟩ := stocked.present u inside
  obtain ⟨full, -⟩ := Repair.length_content (remains.steady.rising.fits inside) (remains.steady.rising.torn_short inside)
  have rising : Shelf.Rising ([] ++ u :: older) := remains.steady.rising
  obtain ⟨later, here, above⟩ := rising.standing (p := ⟨u.term, u.collection, 0⟩) rfl rfl
  refine ⟨_, u.segment m.item.dir, u.content, ⟨u.term, u.collection, 0⟩, _, stocked.list remains.steady.rising,
    by simp, stocked.hosts.read_child u.plain_name.1 u.plain_name.2 file, ?_, ?_, ?_,
    Shelf.segmentsAfter_ok later here above, List.mem_map_of_mem (by simp)⟩
  · have pages : 1 ≤ u.content.length / Page.size := by omega
    have := (Nat.le_div_iff_mul_le (by decide)).mp pages
    omega
  · intro block size
    have ne : block ≠ [] := by
      rintro rfl
      cases size
    rw [Blot.perform_overwrite stocked.hosts file 0 ne, size]
    exact ⟨_, if_neg (by decide)⟩
  · rw [← last, ← same]
    refine .inr ⟨term.symm, .inr ⟨collection.symm, ?_⟩⟩
    rw [seq, UInt64.lt_iff_toNat_lt, UInt64.toNat_ofNat', Nat.mod_eq_of_lt (by omega)]
    exact positive

/-- One record, which spells no entry, and the first page of its file overwritten. -/
theorem run_damaged_after_write : FileTree.empty.Sound ∧ FileTree.empty.Hosts [""] [] Segment.nameWidth ∧
    FileTree.empty.children [] = [] ∧ cost [.restart, .write [7]] + 1 < 2 ^ 64 ∧
    ((begin FileTree.empty [""] 4096).run [.restart, .write [7]]).log.item.mounted = true ∧
    (∀ span ∈ ((begin FileTree.empty [""] 4096).run [.restart, .write [7]]).spans, ∀ entry,
      Entry.layout.parse span.bytes = .ok entry → Engine.isReserved entry.key = false) ∧
    ∃ segments segment content block damage damaged p kept e m,
      Segment.list ((begin FileTree.empty [""] 4096).run [.restart, .write [7]]).log.disk [""] = .ok segments ∧
      segments.getLast? = some segment ∧
      ((begin FileTree.empty [""] 4096).run [.restart, .write [7]]).log.disk.read segment.path = .ok content ∧
      (0 + 1) * Page.size ≤ content.length ∧ block.length = Page.size ∧ Page.decode block = .error damage ∧
      (Edit.overwrite segment.path (0 * Page.size) block).perform
        ((begin FileTree.empty [""] 4096).run [.restart, .write [7]]).log.disk = (.ok (), damaged) ∧
      p < ((begin FileTree.empty [""] 4096).run [.restart, .write [7]]).log.item.position ∧
      Scan.segmentsAfter segments p = .ok kept ∧ segment ∈ kept ∧
      Backend.memory.Apart [] ∧ Backend.memory.Holds damaged (.memory .empty) .empty ∧
      Engine.recover.perform ⟨damaged, ⟨.fresh [""] 4096, .memory .empty⟩⟩ = (.error e, m) ∧
      Damaged ((begin FileTree.empty [""] 4096).run [.restart, .write [7]]) [""] [] damaged segments segment 0 damage := by
  have hosts : FileTree.empty.Hosts [""] [] Segment.nameWidth := ⟨rfl, rfl, by decide⟩
  have started := (sound_begin .empty hosts rfl 4096).run [.restart] (by decide)
  obtain ⟨up, -⟩ := (sound_begin .empty hosts rfl 4096).restart (by decide)
  have up' : ((begin FileTree.empty [""] 4096).run [.restart]).log.item.mounted = true := up
  have none_yet : ((begin FileTree.empty [""] 4096).run [.restart]).spans = [] := by
    change ((begin FileTree.empty [""] 4096).die.perform Log.mount).spans = []
    rw [History.perform]
    split <;> rfl
  obtain ⟨m, done, chronicle, within⟩ := (started.up up').write [7] (by decide)
  obtain ⟨rfl, spans⟩ : ((begin FileTree.empty [""] 4096).run [.restart, .write [7]]).log = m ∧
      ((begin FileTree.empty [""] 4096).run [.restart, .write [7]]).spans =
        [⟨Log.beginning [7] ((begin FileTree.empty [""] 4096).run [.restart]).log, m.item.position, [7]⟩] := by
    change (((begin FileTree.empty [""] 4096).run [.restart]).step (.write [7])).log = m ∧
      (((begin FileTree.empty [""] 4096).run [.restart]).step (.write [7])).spans = _
    rw [History.step, if_pos up', History.write, done, none_yet]
    exact ⟨rfl, rfl⟩
  have client : ∀ span ∈ ((begin FileTree.empty [""] 4096).run [.restart, .write [7]]).spans, ∀ entry,
      Entry.layout.parse span.bytes = .ok entry → Engine.isReserved entry.key = false := by
    intro span member entry parsed
    rw [spans, List.mem_singleton] at member
    subst member
    cases parsed
  have ends := (sound_begin .empty hosts rfl 4096).run [.restart, .write [7]] (by decide)
  obtain ⟨segments, segment, content, p, kept, listed, last, read, complete, overwrites, below, window, inside⟩ :=
    exists_complete_page chronicle (List.mem_append_right _ List.mem_cons_self) rfl
  obtain ⟨block, whole, refused⟩ := Page.exists_refused
  obtain ⟨damaged, overwritten⟩ := overwrites block whole
  obtain ⟨_, _, _, _, _, _, follows, _⟩ := chronicle
  rw [ends.sameDir] at listed
  rw [← Nat.zero_mul Page.size] at overwritten
  have full : (0 + 1) * Page.size ≤ content.length := by rwa [Nat.zero_add, Nat.one_mul]
  have damages : Damaged ((begin FileTree.empty [""] 4096).run [.restart, .write [7]]) [""] [] damaged segments segment 0
      .checksum :=
    run_damaged .empty hosts rfl 4096 [.restart, .write [7]] (by decide) listed (List.mem_of_getLast? last) read full whole
      refused overwritten
  exact ⟨.empty, hosts, rfl, by decide, follows.mounted, client, segments, segment, content, block, _, damaged, p, kept, _, _,
    listed, last, read, full, whole, refused, overwritten, below, window, inside, trivial, ⟨⟨0, rfl⟩, List.Pairwise.nil⟩,
    (damages.newest last 4096).2 (.memory .empty), damages⟩

end History
end Shiplog
