import Shiplog.Proofs.Repairs

/-!
The end of a segment file. The last complete page, read alone, tells the kind that reading every
page comes to (`Repair.endKind_of_kinds`), and a repair leaves just the complete pages, so that
what was found at the end is found there again, with nothing to cut (`Repair.repair_settles`).
-/
namespace Shiplog

namespace FileTree

variable {t t' t'' : FileTree} {path place : Path} {id : FileId} {content content' : Bytes}

/-- What is read lies in a file. -/
theorem read_eq_ok : t.read path = .ok content ↔
    ∃ place id, t.resolve path = .ok place ∧ t.find? place = some (.file id content) := by
  rw [read, locate]
  cases resolved : t.resolve path with
  | error fault => simp [bind, Except.bind]
  | ok place =>
    simp only [bind, Except.bind, pure, Except.pure, Except.ok.injEq]
    rcases lies : t.find? place with _ | _ | ⟨id, old⟩
    · simp [lies]
    · simp [lies]
    · simp [lies]

theorem length_of_read (file : t.read path = .ok content) : t.length path = .ok content.length := by
  obtain ⟨place, id, resolved, lies⟩ := read_eq_ok.mp file
  simp [length, resolved, lies, bind, Except.bind]

theorem resize_of_le {length : Nat} (inside : length ≤ content.length) :
    resize length content = content.take length := by
  rw [resize, Nat.sub_eq_zero_of_le inside]
  simp [Bytes.zeros]

/-- One tree is the other but for what a file at a place holds. -/
def Refilled (t t' : FileTree) (place : Path) (id : FileId) (content : Bytes) : Prop :=
  ∀ other, t'.find? other = if other = place then some (.file id content) else t.find? other

theorem Refilled.here (refilled : t.Refilled t' place id content) : t'.find? place = some (.file id content) := by
  rw [refilled, if_pos rfl]

theorem refilled_refl (file : t.find? place = some (.file id content)) : t.Refilled t place id content := by
  intro other
  by_cases here : other = place
  · rw [if_pos here, here, file]
  · rw [if_neg here]

theorem Refilled.trans (first : t.Refilled t' place id content) (second : t'.Refilled t'' place id content') :
    t.Refilled t'' place id content' := by
  intro other
  rw [second]
  by_cases here : other = place
  · rw [if_pos here, if_pos here]
  · rw [if_neg here, if_neg here, first, if_neg here]

theorem Refilled.keeps (refilled : t.Refilled t' place id content') (file : t.find? place = some (.file id content)) :
    KeepsDirectories t t' := by
  intro other directory
  have apart : other ≠ place := by
    rintro rfl
    rw [file] at directory
    cases directory
  rw [refilled, if_neg apart, directory]

/-- Every file is read as before, or it is the one that holds something else. -/
theorem Refilled.read_cases (refilled : t.Refilled t' place id content') (file : t.find? place = some (.file id content))
    {old : Bytes} (read : t.read path = .ok old) : t'.read path = .ok old ∨ old = content ∧ t'.read path = .ok content' := by
  obtain ⟨place', id', resolved, lies⟩ := read_eq_ok.mp read
  have resolved' := (refilled.keeps file).resolve resolved
  by_cases same : place' = place
  · subst same
    rw [file, Option.some.injEq, Inode.file.injEq] at lies
    exact .inr ⟨lies.2.symm, read_eq_ok.mpr ⟨place', id, resolved', refilled.here⟩⟩
  · exact .inl (read_eq_ok.mpr ⟨place', id', resolved', by rw [refilled, if_neg same, lies]⟩)

/-- A cut leaves the front of a file, and every other file as it was. -/
theorem Sound.setLength_of_find? (sound : t.Sound) (resolved : t.resolve path = .ok place)
    (file : t.find? place = some (.file id content)) {length : Nat} (inside : length ≤ content.length) :
    ∃ t', t.setLength path length = .ok t' ∧ t'.Sound ∧ t.Refilled t' place id (content.take length) := by
  refine ⟨t.alter id (resize length), ?_, sound.alter id _, fun other => ?_⟩
  · simp [setLength, openExisting, locate, resolved, file, bind, Except.bind, pure, Except.pure]
  · rw [sound.find?_alter_file file, resize_of_le inside]

end FileTree

namespace Repair

variable {t t' : FileTree} {path place : Path} {previous : Option Path} {id : FileId} {content : Bytes} {finding : Finding}
  {found : List Page.Kind} {last before : Option Page.Kind}

/-! ## The last page alone -/

/-- The complete pages of a content. -/
def complete (content : Bytes) : Bytes := content.take (content.length / Page.size * Page.size)

/-- The kind of the last complete page of a content, the pages before it unread. -/
def endKind (content : Bytes) : Except Error (Option Page.Kind) :=
  if content.length / Page.size = 0 then .ok none
  else match Page.decode ((content.drop ((content.length / Page.size - 1) * Page.size)).take Page.size) with
    | .error damage => .error (.corruption damage.text)
    | .ok (kind, _) => .ok (some kind)

theorem length_complete (content : Bytes) : (complete content).length = content.length / Page.size * Page.size := by
  rw [complete, List.length_take]
  exact Nat.min_eq_left (Nat.div_mul_le_self _ _)

theorem complete_complete (content : Bytes) : complete (complete content) = complete content := by
  have pos : 0 < Page.size := by decide
  have whole : (complete content).length / Page.size * Page.size = (complete content).length := by
    rw [length_complete, Nat.mul_div_cancel _ pos]
  rw [complete, whole, List.take_length]

/-- The bytes behind the complete pages tell nothing. -/
theorem endKind_complete (content : Bytes) : endKind (complete content) = endKind content := by
  have pos : 0 < Page.size := by decide
  rw [endKind, endKind, length_complete, Nat.mul_div_cancel _ pos]
  by_cases none : content.length / Page.size = 0
  · rw [if_pos none, if_pos none]
  · have piece : ((complete content).drop ((content.length / Page.size - 1) * Page.size)).take Page.size =
        (content.drop ((content.length / Page.size - 1) * Page.size)).take Page.size := by
      have room : content.length / Page.size * Page.size - (content.length / Page.size - 1) * Page.size = Page.size := by
        rw [← Nat.sub_mul, Nat.sub_sub_self (Nat.one_le_iff_ne_zero.mpr none), Nat.one_mul]
      rw [complete, List.drop_take, room, List.take_take, Nat.min_self]
    rw [if_neg none, if_neg none, piece]

theorem inspect_of_read (file : t.read path = .ok content) :
    inspect t path = (kinds (Segment.readContent (complete content))).map fun found =>
      ⟨found.length, found.getLast?, content.length % Page.size⟩ := by
  by_cases none : content.length / Page.size = 0
  · simp [inspect, FileTree.length_of_read file, none, complete, Segment.readContent, Segment.readPieces, kinds, bind,
      Except.bind, Except.mapError, Except.map, pure, Except.pure]
  · simp only [inspect, FileTree.length_of_read file, file, none, complete, bind, Except.bind, Except.mapError, pure,
      Except.pure, if_false]
    cases kinds (Segment.readContent (content.take (content.length / Page.size * Page.size))) <;> rfl

theorem lastKind_of_read (file : t.read path = .ok content) : lastKind t path = endKind content := by
  by_cases none : content.length / Page.size = 0
  · simp [lastKind, endKind, FileTree.length_of_read file, none, bind, Except.bind, Except.mapError, pure, Except.pure]
  · simp only [lastKind, endKind, FileTree.length_of_read file, file, none, bind, Except.bind, Except.mapError, pure,
      Except.pure, if_false]
    rcases Page.decode _ with damage | ⟨kind, payload⟩ <;> rfl

/-- Where every page of some can be read, there is a kind for each, and the last page has the
    last. -/
theorem kinds_pieces {count number : Nat} (long : count * Page.size ≤ content.length)
    (read : kinds (Segment.readPieces number (Bytes.chunks Page.size (content.take (count * Page.size)))) = .ok found) :
    found.length = count ∧ ∀ before, count = before + 1 → ∃ kind payload,
      Page.decode ((content.drop (before * Page.size)).take Page.size) = .ok (kind, payload) ∧
      found.getLast? = some kind := by
  induction count generalizing content number found with
  | zero =>
    simp only [Nat.zero_mul, List.take_zero, Bytes.chunks_nil, Segment.readPieces, kinds, Except.ok.injEq] at read
    subst read
    exact ⟨rfl, fun before some => absurd some (Nat.succ_ne_zero before).symm⟩
  | succ count ih =>
    rw [Nat.succ_mul] at long
    have first : (content.take Page.size).length = Page.size := List.length_take_of_le (by omega)
    have pieces : Bytes.chunks Page.size (content.take ((count + 1) * Page.size)) =
        content.take Page.size :: Bytes.chunks Page.size ((content.drop Page.size).take (count * Page.size)) := by
      rw [Nat.succ_mul, Nat.add_comm, List.take_add, Bytes.chunks_cons _ _ first (by decide)]
    rw [pieces, Segment.readPieces, if_neg (by omega)] at read
    rcases decoded : Page.decode (content.take Page.size) with damage | ⟨kind, payload⟩
    · simp [decoded, kinds] at read
    · simp only [decoded, kinds] at read
      rcases later : kinds (Segment.readPieces (number + 1)
        (Bytes.chunks Page.size ((content.drop Page.size).take (count * Page.size)))) with e | rest
      · simp [later, Except.map] at read
      simp only [later, Except.map, Except.ok.injEq] at read
      subst read
      have behind : count * Page.size ≤ (content.drop Page.size).length := by
        rw [List.length_drop]
        omega
      obtain ⟨length, ends⟩ := ih behind later
      refine ⟨by rw [List.length_cons, length], ?_⟩
      rintro before same
      obtain rfl : count = before := Nat.succ.inj same
      cases count with
      | zero =>
        have alone : rest = [] := List.length_eq_zero_iff.mp length
        exact ⟨kind, payload, by rw [Nat.zero_mul, List.drop_zero, decoded], by rw [alone]; rfl⟩
      | succ count =>
        obtain ⟨kind', payload', decoded', lastOne⟩ := ends count rfl
        refine ⟨kind', payload', ?_, ?_⟩
        · rw [List.drop_drop] at decoded'
          rw [Nat.succ_mul, Nat.add_comm, decoded']
        · rw [List.getLast?_cons, lastOne]
          rfl

/-- The last page alone tells what reading every page comes to. -/
theorem endKind_of_kinds (read : kinds (Segment.readContent (complete content)) = .ok found) :
    found.length = content.length / Page.size ∧ endKind content = .ok found.getLast? := by
  obtain ⟨length, ends⟩ := kinds_pieces (Nat.div_mul_le_self _ _) read
  refine ⟨length, ?_⟩
  rw [endKind]
  by_cases none : content.length / Page.size = 0
  · rw [none, List.length_eq_zero_iff] at length
    rw [if_pos none, length]
    rfl
  · obtain ⟨kind, payload, decoded, lastOne⟩ := ends _ (Nat.succ_pred_eq_of_ne_zero none).symm
    rw [Nat.pred_eq_sub_one] at decoded
    rw [if_neg none, decoded, lastOne]

/-- What is found at the end of a file, from its content. -/
theorem inspect_eq_ok (file : t.read path = .ok content) (ended : inspect t path = .ok finding) :
    endKind content = .ok finding.lastKind ∧ finding.pages = content.length / Page.size ∧
      finding.tornBytes = content.length % Page.size := by
  rw [inspect_of_read file] at ended
  rcases read : kinds (Segment.readContent (complete content)) with e | found
  · simp [read, Except.map] at ended
  · simp only [read, Except.map, Except.ok.injEq] at ended
    subst ended
    obtain ⟨length, lastOne⟩ := endKind_of_kinds read
    exact ⟨lastOne, length, rfl⟩

/-- The same is found in the complete pages, and nothing behind them. -/
theorem inspect_complete (file : t.read path = .ok content) (ended : inspect t path = .ok finding)
    (left : t'.read path = .ok (complete content)) : inspect t' path = .ok { finding with tornBytes := 0 } := by
  have whole : (complete content).length % Page.size = 0 := by
    rw [length_complete, Nat.mul_mod_left]
  rw [inspect_of_read file] at ended
  rw [inspect_of_read left, complete_complete, whole]
  rcases read : kinds (Segment.readContent (complete content)) with e | found
  · simp [read, Except.map] at ended
  · simp only [read, Except.map, Except.ok.injEq] at ended
    subst ended
    rfl

/-! ## Repairs -/

/-- A last page that leaves a split record open. -/
def LeavesOpen (last : Option Page.Kind) : Prop := last = some .start ∨ last = some .middle

/-- The kind of the last page in the segment before, if there is one that can be read. -/
def EndsIn (t : FileTree) : Option Path → Option Page.Kind → Prop
  | none, before => before = none
  | some earlier, before => (∃ old, t.read earlier = .ok old) ∧ lastKind t earlier = .ok before

/-- What a repair reports of a segment with some pages, having cut some bytes off, where the last
    page is of a kind. -/
structure Report.Tells (report : Report) (pages cut : Nat) (last : Option Page.Kind) : Prop where
  pages : report.pages = pages
  cutBytes : report.cutBytes = cut
  needsBrokenEnd : report.needsBrokenEnd = true ↔ 0 < cut ∨ LeavesOpen last

/-- What becomes of a segment file whose end was found. -/
structure Settles (t : FileTree) (path : Path) (content : Bytes) (finding : Finding) : Prop where
  /-- The last page alone tells the same kind. -/
  lastKind : lastKind t path = .ok finding.lastKind
  /-- Every byte is in a complete page or behind the last. -/
  length : finding.pages * Page.size + finding.tornBytes = content.length
  torn : finding.tornBytes < Page.size
  /-- A repair leaves the complete pages, and the next one leaves it at that. The segment before
      counts, and must be readable, where there is no complete page. -/
  repaired : ∀ previous before, (finding.lastKind = none → EndsIn t previous before) → ∃ t' report again,
    (repair path previous).perform t = (.ok report, t') ∧
    t'.read path = .ok (content.take (finding.pages * Page.size)) ∧
    report.Tells finding.pages finding.tornBytes (finding.lastKind.or before) ∧
    (repair path previous).perform t' = (.ok again, t') ∧
    again.Tells finding.pages 0 (finding.lastKind.or before)

theorem dangles_iff : dangles last = true ↔ LeavesOpen last := by
  rcases last with _ | kind
  · simp [dangles, LeavesOpen]
  · cases kind <;> simp [dangles, LeavesOpen, Page.Kind.isDangling]

/-- Whether a record is open is asked of the last page, or of the last page before. -/
theorem asked_of_endsIn (ends : last = none → EndsIn t previous before) :
    asked last previous t = .ok (dangles (last.or before)) := by
  rcases last with _ | kind
  · rcases previous with _ | earlier
    · rw [show before = none from ends rfl]
      rfl
    · rw [asked, (ends rfl).2]
      rfl
  · rfl

/-- A cut down to the complete pages leaves every file with the last page that it had. -/
theorem EndsIn.cut (ends : EndsIn t previous before) (file : t.find? place = some (.file id content))
    (cut : t.Refilled t' place id (complete content)) : EndsIn t' previous before := by
  rcases previous with _ | earlier
  · exact ends
  · obtain ⟨⟨old, read⟩, told⟩ := ends
    rw [lastKind_of_read read] at told
    rcases cut.read_cases file read with same | ⟨rfl, shorter⟩
    · exact ⟨⟨old, same⟩, (lastKind_of_read same).trans told⟩
    · exact ⟨⟨_, shorter⟩, by rw [lastKind_of_read shorter, endKind_complete, told]⟩

/-- The torn bytes can be cut off. -/
theorem exists_cut (sound : t.Sound) (resolved : t.resolve path = .ok place)
    (file : t.find? place = some (.file id content)) (ended : inspect t path = .ok finding) :
    ∃ t', (if 0 < finding.tornBytes then t.setLength path (finding.pages * Page.size) else .ok t) = .ok t' ∧
      t'.Sound ∧ t.Refilled t' place id (complete content) := by
  obtain ⟨-, pages, torn⟩ := inspect_eq_ok (FileTree.read_eq_ok.mpr ⟨place, id, resolved, file⟩) ended
  by_cases some_torn : 0 < finding.tornBytes
  · rw [if_pos some_torn, pages]
    exact sound.setLength_of_find? resolved file (Nat.div_mul_le_self _ _)
  · have whole : complete content = content := by
      rw [torn, Nat.pos_iff_ne_zero, not_not] at some_torn
      rw [complete, Nat.div_mul_cancel (Nat.dvd_of_mod_eq_zero some_torn), List.take_length]
    rw [if_neg some_torn, whole]
    exact ⟨t, rfl, sound, FileTree.refilled_refl file⟩

theorem perform_repair_tells {cut : FileTree} (found : inspect t path = .ok finding)
    (cuts : (if 0 < finding.tornBytes then t.setLength path (finding.pages * Page.size) else .ok t) = .ok cut)
    (ends : finding.lastKind = none → EndsIn cut previous before) :
    ∃ report, (repair path previous).perform t = (.ok report, cut) ∧
      report.Tells finding.pages finding.tornBytes (finding.lastKind.or before) := by
  rw [perform_repair_of found cuts, asked_of_endsIn ends]
  refine ⟨_, rfl, rfl, rfl, ?_⟩
  rw [Bool.or_eq_true, dangles_iff, decide_eq_true_iff]
  exact or_comm

/-- Where nothing is found, nothing is repaired. -/
theorem perform_repair_failed {e : Error} (failed : inspect t path = .error e) (previous : Option Path) :
    (repair path previous).perform t = (.error e, t) := by
  rw [repair, Action.perform_bind, Action.perform_reading, failed]

/-- A segment file is found to end somewhere, and then a repair leaves it so, or it is found
    damaged, and then the repair fails for it and leaves everything as it is. -/
theorem repair_settles (sound : t.Sound) (file : t.read path = .ok content) :
    (∀ finding, inspect t path = .ok finding → Settles t path content finding) ∧
    ∀ e, inspect t path = .error e → ∀ previous, (repair path previous).perform t = (.error e, t) := by
  constructor
  · intro finding ended
    obtain ⟨kind, pages, torn⟩ := inspect_eq_ok file ended
    refine ⟨(lastKind_of_read file).trans kind, ?_, ?_, fun previous before ends => ?_⟩
    · rw [pages, torn, Nat.div_add_mod']
    · rw [torn]
      exact Nat.mod_lt _ (by decide)
    · obtain ⟨place, id, resolved, lies⟩ := FileTree.read_eq_ok.mp file
      obtain ⟨t', cuts, -, refilled⟩ := exists_cut sound resolved lies ended
      have left : t'.read path = .ok (complete content) :=
        FileTree.read_eq_ok.mpr ⟨place, id, (refilled.keeps lies).resolve resolved, refilled.here⟩
      have after := fun blank => (ends blank).cut lies refilled
      obtain ⟨report, repaired, tells⟩ := perform_repair_tells ended cuts after
      obtain ⟨again, repeats, tellsAgain⟩ := perform_repair_tells (inspect_complete file ended left)
        (if_neg (Nat.lt_irrefl 0)) after
      refine ⟨t', report, again, repaired, ?_, tells, repeats, tellsAgain⟩
      rw [pages]
      exact left
  · intro e failed previous
    exact perform_repair_failed failed previous

/-- A file with a page that starts a record, and one byte of the next page. -/
def tornStart : FileTree :=
  (FileTree.empty.create ["a"]).2.alter 0 fun _ => Page.image (.start, [1]) ++ [7]

theorem repair_settles_torn_start : tornStart.Sound ∧
    tornStart.read ["a"] = .ok (Page.image (.start, [1]) ++ [7]) ∧
    inspect tornStart ["a"] = .ok ⟨1, some .start, 1⟩ ∧
    Settles tornStart ["a"] (Page.image (.start, [1]) ++ [7]) ⟨1, some .start, 1⟩ := by
  have free : FileTree.empty.find? ["a"] = none := rfl
  have sound : tornStart.Sound := (FileTree.Sound.empty.create free rfl).alter 0 _
  have file : tornStart.read ["a"] = .ok (Page.image (.start, [1]) ++ [7]) := by
    refine FileTree.read_eq_ok.mpr ⟨["a"], 0, rfl, ?_⟩
    rw [tornStart, FileTree.find?_alter, FileTree.find?_create free, if_pos rfl]
    rfl
  have fits : ∀ page ∈ [((.start, [1]) : Page.Kind × Bytes)], Page.Fits page := by
    simp [Page.Fits, Page.capacity, Page.size, Page.headerSize]
  have length : (Page.image (.start, [1]) ++ [7]).length = 1 * Page.size + 1 := by
    rw [List.length_append, Page.length_image (fits _ List.mem_cons_self)]
    rfl
  have pages : complete (Page.image (.start, [1]) ++ [7]) = [(.start, [1])].flatMap Page.image ++ [] := by
    have one : (1 * Page.size + 1) / Page.size * Page.size = Page.size := rfl
    rw [complete, length, one, ← Page.length_image (fits _ List.mem_cons_self), List.take_left]
    simp
  have ended : inspect tornStart ["a"] = .ok ⟨1, some .start, 1⟩ := by
    rw [inspect_of_read file, pages, Segment.readContent_images _ fits [] (by decide), length]
    rfl
  exact ⟨sound, file, ended, (repair_settles sound file).1 _ ended⟩

end Repair
end Shiplog
