import Shiplog.Proofs.Shelving

/-!
Reading records back from the shelf in a log's directory. The segments to read for a
position are the newest ones, from the last that stands no later than the position on
(`segmentsAfter_ok`); what they give is every record but those that began before them
(`assemble_window`). So a scan from a position that the log has given out gives every
record that ends after the position, in order, each with the position after its last page
(`scan_after`); from the very beginning it gives them all (`scan_start`).
-/
namespace Shiplog

namespace Scan

variable {t : FileTree} {dir place : Path} {blocked : List String} {vs : Shelf} {v : Volume}

theorem number_ok (term collection : UInt64) (count : Nat) (pages : List (Page.Kind × Bytes)) :
    number term collection count (pages.map .ok) =
      (Volume.sheetsFrom term collection count pages).map Sheet.item := by
  induction pages generalizing count with
  | nil => rfl
  | cons page rest ih => simp [number, Volume.sheetsFrom, ih, Sheet.item, Except.mapError]

/-- The pages of a whole volume's file are its sheets. -/
theorem items_eq (stocked : Stocked t dir place blocked vs) (rising : vs.Rising) (member : v ∈ vs) (whole : v.torn = []) :
    items t (v.segment dir) = v.sheets.map Sheet.item := by
  obtain ⟨id, file⟩ := stocked.present v member
  have content : t.read (v.segment dir).path = .ok v.content :=
    stocked.hosts.read_child v.plain_name.1 v.plain_name.2 file
  have pages : Segment.readContent v.content = v.pages.map .ok := by
    rw [Volume.content, whole, Segment.readContent_images v.pages (rising.fits member) [] (by decide)]
    simp [Segment.tornReads]
  rw [items, Segment.readPages, content]
  simp only [pages]
  exact number_ok v.term v.collection 0 v.pages

theorem window_eq (stocked : Stocked t dir place blocked vs) (rising : vs.Rising) (whole : vs.Whole) {us : List Volume}
    (inside : ∀ u ∈ us, u ∈ vs) :
    window t (us.map (Volume.segment dir)) = (us.flatMap Volume.sheets).map Sheet.item := by
  induction us with
  | nil => rfl
  | cons u rest ih =>
    have member := inside u List.mem_cons_self
    have later := ih fun w below => inside w (List.mem_cons_of_mem _ below)
    rw [window] at later
    rw [window, List.map_cons, List.flatMap_cons, later, items_eq stocked rising member (whole u member),
      List.flatMap_cons, List.map_append]

theorem fromLast?_eq_none {α : Type} (holds : α → Bool) {as : List α} (nowhere : ∀ a ∈ as, holds a = false) :
    fromLast? holds as = none := by
  induction as with
  | nil => rfl
  | cons b rest ih =>
    rw [fromLast?, ih fun c member => nowhere c (List.mem_cons_of_mem _ member)]
    simp [nowhere b List.mem_cons_self]

theorem fromLast?_append {α : Type} (holds : α → Bool) (before after : List α) (a : α) (here : holds a = true)
    (later : ∀ b ∈ after, holds b = false) : fromLast? holds (before ++ a :: after) = some (a :: after) := by
  induction before with
  | nil => rw [List.nil_append, fromLast?, fromLast?_eq_none holds later, if_pos here]
  | cons b rest ih => rw [List.cons_append, fromLast?, ih]

theorem fromLast?_suffix {α : Type} {holds : α → Bool} {as kept : List α} (found : fromLast? holds as = some kept) :
    kept <:+ as := by
  induction as generalizing kept with
  | nil => cases found
  | cons a rest ih =>
    rw [fromLast?] at found
    cases later : fromLast? holds rest with
    | some tail =>
      rw [later] at found
      cases found
      exact (ih later).trans (List.suffix_cons a rest)
    | none =>
      simp only [later, Option.ite_none_right_eq_some, Option.some.injEq] at found
      rw [← found.2]

/-- The segments to read are the newest. -/
theorem segmentsAfter_suffix {segments kept : List Segment} {p : Position} (chosen : segmentsAfter segments p = .ok kept) :
    kept <:+ segments := by
  cases segments with
  | nil =>
    cases chosen
    exact List.suffix_rfl
  | cons oldest rest =>
    simp only [segmentsAfter] at chosen
    by_cases first : p.collection = Position.start.collection
    · rw [if_pos first] at chosen
      split at chosen
      · cases chosen
        exact List.suffix_rfl
      · cases chosen
    · rw [if_neg first] at chosen
      split at chosen
      · rename_i found
        cases chosen
        exact fromLast?_suffix found
      · cases chosen

/-- The records of a scan are handed over one by one. -/
theorem perform_deliver_cons {σ : Type} (record : Position × Bytes) (rest : List (Position × Bytes))
    (stopped : Option Error) (apply : Position → Bytes → Action σ Unit) (s : σ) :
    (deliver ⟨record :: rest, stopped⟩ apply).perform s =
      match (apply record.1 record.2).perform s with
      | (.ok (), s') => (deliver ⟨rest, stopped⟩ apply).perform s'
      | (.error e, s') => (.error e, s') := by
  rw [deliver, Action.perform_bind, Action.perform_forM_cons]
  rcases (apply record.1 record.2).perform s with ⟨_ | _, s'⟩
  · rfl
  · exact (Action.perform_bind _ _ _).symm

/-- A scan from inside the log reads the segments for the position. -/
theorem read_eq {tail after : Position} {segments : List Segment} (listed : Segment.list t dir = .ok segments)
    (apart : after ≠ tail) (within : ¬ tail < after) : read t dir tail after =
      match segmentsAfter segments after with
      | .error e => failed e
      | .ok kept => assemble .empty (window t kept) := by
  cases chosen : segmentsAfter segments after with
  | error e => simp only [read, if_neg apart, if_neg within, listed, chosen]
  | ok kept => simp only [read, if_neg apart, if_neg within, listed, chosen]

end Scan

namespace Volume

/-- Whether a volume stands no later than the segment of a position. -/
def startsBy (p : Position) (v : Volume) : Bool := Position.segmentLE ⟨v.term, v.collection, 0⟩ p

theorem startsBy_eq_false {p : Position} {v : Volume} : v.startsBy p = false ↔
    p.term < v.term ∨ p.term = v.term ∧ p.collection < v.collection := by
  simp only [startsBy, Position.segmentLE, Bool.or_eq_false_iff, decide_eq_false_iff_not, Bool.and_eq_false_iff,
    UInt64.lt_iff_toNat_lt, ← UInt64.toNat_inj, UInt64.le_iff_toNat_le]
  omega

end Volume

namespace Shelf

variable {t : FileTree} {dir place : Path} {blocked : List String} {vs older newer : Shelf} {v : Volume} {bound : Nat}
  {p : Position} {spans : List Span} {before opened : Option Opened}

/-! ## The segments to read -/

/-- Either every volume stands later than a position, or the newest that does not is found. -/
theorem startsBy_cases (p : Position) (vs : Shelf) : (∀ u ∈ vs, u.startsBy p = false) ∨
    ∃ newer v older, vs = newer ++ v :: older ∧ v.startsBy p = true ∧ ∀ u ∈ newer, u.startsBy p = false := by
  induction vs with
  | nil => exact .inl (by simp)
  | cons w rest ih =>
    cases here : w.startsBy p with
    | true => exact .inr ⟨[], w, rest, rfl, here, by simp⟩
    | false =>
      rcases ih with nowhere | ⟨newer, v, older, rfl, found, later⟩
      · exact .inl (by simpa [here] using nowhere)
      · exact .inr ⟨w :: newer, v, older, rfl, found, by simpa [here] using later⟩

/-- The segments to read for a position are the newest volume that stands no later, and the
    newer ones. -/
theorem segmentsAfter_ok (inside : p.collection ≠ Position.start.collection) (here : v.startsBy p = true)
    (later : ∀ u ∈ newer, u.startsBy p = false) :
    Scan.segmentsAfter ((newer ++ v :: older).reverse.map (Volume.segment dir)) p =
      .ok ((newer ++ [v]).reverse.map (Volume.segment dir)) := by
  have kept : Scan.fromLast? (fun s : Segment => Position.segmentLE ⟨s.term, s.collection, 0⟩ p)
      ((newer ++ v :: older).reverse.map (Volume.segment dir)) = some ((newer ++ [v]).reverse.map (Volume.segment dir)) := by
    rw [List.reverse_append, List.reverse_cons, List.append_assoc, List.singleton_append, List.map_append, List.map_cons,
      List.reverse_append, List.reverse_singleton, List.singleton_append, List.map_cons]
    refine Scan.fromLast?_append _ _ _ _ here fun s member => ?_
    obtain ⟨u, above, rfl⟩ := List.mem_map.mp member
    exact later u (List.mem_reverse.mp above)
  cases segments : (newer ++ v :: older).reverse.map (Volume.segment dir) with
  | nil => simp at segments
  | cons oldest rest =>
    rw [segments] at kept
    simp only [Scan.segmentsAfter, inside, ↓reduceIte, kept]

/-- The volume that a position lies in is the newest that stands no later. -/
theorem Rising.standing (rising : Rising (newer ++ v :: older)) (term : v.term = p.term)
    (collection : v.collection = p.collection) :
    p.collection ≠ Position.start.collection ∧ v.startsBy p = true ∧ ∀ u ∈ newer, u.startsBy p = false := by
  obtain ⟨_, tops⟩ := rising.tops (List.mem_append_right newer List.mem_cons_self)
  refine ⟨fun zero => ?_, by simp [Volume.startsBy, Position.segmentLE, term, collection], fun u above => ?_⟩
  · have positive := tops.collection_pos
    rw [collection, zero] at positive
    exact absurd positive (by decide)
  · obtain ⟨terms, collections⟩ := rising.above above
    rw [term] at terms
    rw [collection] at collections
    rw [Volume.startsBy_eq_false]
    rcases UInt64.lt_or_eq_of_le terms with lower | same
    · exact .inl lower
    · exact .inr ⟨same, collections⟩

/-- There are none where every volume stands later than the position. -/
theorem segmentsAfter_error (inside : p.collection ≠ Position.start.collection) (later : ∀ u ∈ vs, u.startsBy p = false) :
    Scan.segmentsAfter (vs.reverse.map (Volume.segment dir)) p =
      match vs.getLast? with
      | none => .ok []
      | some oldest => .error (.insufficientHistory p ⟨oldest.term, oldest.collection, 0⟩) := by
  rcases List.eq_nil_or_concat vs with rfl | ⟨newer, bottom, rfl⟩
  · rfl
  · rw [List.concat_eq_append] at later ⊢
    have nowhere : Scan.fromLast? (fun s : Segment => Position.segmentLE ⟨s.term, s.collection, 0⟩ p)
        ((newer ++ [bottom]).reverse.map (Volume.segment dir)) = none := by
      refine Scan.fromLast?_eq_none _ fun s member => ?_
      obtain ⟨u, stands, rfl⟩ := List.mem_map.mp member
      exact later u (List.mem_reverse.mp stands)
    rw [List.reverse_append, List.reverse_singleton, List.singleton_append, List.map_cons] at nowhere ⊢
    simp only [Scan.segmentsAfter, inside, ↓reduceIte, nowhere, List.getLast?_append, List.getLast?_singleton]
    rfl

/-- The segments to read are those of the newest volumes. -/
theorem exists_window {kept : List Segment}
    (chosen : Scan.segmentsAfter (vs.reverse.map (Volume.segment dir)) p = .ok kept) :
    ∃ newer older, vs = newer ++ older ∧ kept = newer.reverse.map (Volume.segment dir) := by
  obtain ⟨passed, parts⟩ := Scan.segmentsAfter_suffix chosen
  obtain ⟨older, newer, split, -, rfl⟩ := List.map_eq_append_iff.mp parts.symm
  refine ⟨newer.reverse, older.reverse, ?_, by rw [List.reverse_reverse]⟩
  rw [← List.reverse_append, ← split, List.reverse_reverse]

/-- For a position before the first segment, all segments are read, if they go back to the
    first collection. -/
theorem segmentsAfter_zero (first : p.collection = Position.start.collection) :
    Scan.segmentsAfter (vs.reverse.map (Volume.segment dir)) p =
      match vs.getLast? with
      | none => .ok []
      | some oldest =>
        if oldest.collection = 1 then .ok (vs.reverse.map (Volume.segment dir))
        else .error (.insufficientHistory p ⟨oldest.term, oldest.collection, 0⟩) := by
  rcases List.eq_nil_or_concat vs with rfl | ⟨newer, bottom, rfl⟩
  · rfl
  · rw [List.concat_eq_append, List.reverse_append, List.reverse_singleton, List.singleton_append, List.map_cons]
    simp only [Scan.segmentsAfter, first, ↓reduceIte, List.getLast?_append, List.getLast?_singleton, Option.some_or]
    rfl

/-! ## What they give -/

/-- Read from some volume on, a shelf gives its records but those that began before. -/
theorem assemble_window (stocked : Stocked t dir place blocked (newer ++ older)) (rising : Rising (newer ++ older))
    (whole : Whole (newer ++ older)) (reads : Word.read before (sheets (newer ++ older)) = some (spans, opened)) :
    ∃ passed kept, spans = passed ++ kept ∧
      (∀ span ∈ passed, span.first ∈ (sheets older).map Prod.fst ∨ ∃ o ∈ before, span.first = o.first) ∧
      Scan.assemble .empty (Scan.window t (newer.reverse.map (Volume.segment dir))) = ⟨kept.map Span.record, none⟩ := by
  rw [sheets_append] at reads
  obtain ⟨first, between, after, early, late, rfl⟩ := Word.read_append_eq_some.mp reads
  obtain ⟨passed, kept, rfl, old, -, assembled⟩ := Word.assemble_skips late
  obtain ⟨earlyEnds, earlyOpen⟩ := Word.positions_of_read early
  refine ⟨first ++ passed, kept, by simp, fun span member => ?_, ?_⟩
  · rcases List.mem_append.mp member with done | open_
    · exact (earlyEnds span done).2
    · obtain ⟨o, here, began⟩ := old span open_
      rw [began]
      exact earlyOpen o here
  · rw [Scan.window_eq stocked rising whole fun u member => List.mem_append_left _ (List.mem_reverse.mp member)]
    exact assembled

/-- Read from its first volume on, a shelf gives all its records. -/
theorem assemble_founded (stocked : Stocked t dir place blocked vs) (rising : Rising vs) (whole : Whole vs)
    (reads : Word.read none (sheets vs) = some (spans, opened)) :
    Scan.assemble .empty (Scan.window t (vs.reverse.map (Volume.segment dir))) = ⟨spans.map Span.record, none⟩ := by
  rw [Scan.window_eq stocked rising whole fun u member => List.mem_reverse.mp member]
  exact Word.assemble_all reads

private theorem start_lt_of {p : Position} (term : 1 ≤ p.term) (collection : 1 ≤ p.collection.toNat) : .start < p := by
  rcases UInt64.lt_or_eq_of_le term with above | same
  · exact .inl above
  · exact .inr ⟨same, .inl (UInt64.lt_iff_toNat_lt.mpr collection)⟩

/-- The end of a shelf lies nowhere before the start. -/
theorem Rising.start_le (rising : vs.Rising) : .start ≤ tail vs := by
  cases vs with
  | nil => exact Position.le_refl _
  | cons v older => exact Position.le_of_lt (start_lt_of rising.1.term_pos rising.1.collection_pos)

/-- Positions of pages lie after the start of the log. -/
theorem Rising.start_lt (rising : vs.Rising) {s : Sheet} (member : s ∈ sheets vs) : .start < s.1 := by
  obtain ⟨v, stands, term, collection, -⟩ := mem_sheets member
  obtain ⟨_, tops⟩ := rising.tops stands
  exact start_lt_of (by rw [term]; exact tops.term_pos) (by rw [collection]; exact tops.collection_pos)

/-- A scan from the start reads every page, if no volume is missing at the bottom. -/
theorem read_start (stocked : Stocked t dir place blocked vs) (rising : vs.Rising) (whole : vs.Whole) (founded : vs.Founded)
    {tail : Position} (from_ : .start ≤ tail) (upTo : ∀ s ∈ sheets vs, s.1 ≤ tail) :
    Scan.read t dir tail .start = Scan.assemble .empty ((sheets vs).map Sheet.item) := by
  by_cases atEnd : .start = tail
  · have none_read : sheets vs = [] := by
      refine List.eq_nil_iff_forall_not_mem.mpr fun s member => ?_
      exact Position.not_lt.mpr (upTo s member) (atEnd ▸ rising.start_lt member)
    rw [Scan.read, if_pos atEnd, none_read]
    rfl
  · rw [Scan.read_eq (stocked.list rising) atEnd (Position.not_lt.mpr from_), segmentsAfter_zero rfl]
    have all := Scan.window_eq stocked rising whole fun u member => List.mem_reverse.mp member
    rw [← sheets] at all
    cases bottom : vs.getLast? with
    | none =>
      obtain rfl : vs = [] := List.getLast?_eq_none_iff.mp bottom
      rfl
    | some oldest =>
      have one : oldest.collection = 1 := UInt64.toNat_inj.mp (founded _ (Option.mem_map_of_mem _ bottom))
      simp only [one, ↓reduceIte, all]

/-- A scan from the start gives every record. -/
theorem scan_start (shelved : Shelved t dir place vs) (standing : vs.Standing bound) (whole : vs.Whole)
    (reads : Word.read none (sheets vs) = some (spans, opened)) :
    Scan.read t dir (tail vs) .start = ⟨spans.map Span.record, none⟩ := by
  have rising := standing.steady.rising
  rw [read_start shelved.stocked rising whole standing.ordered.founded rising.start_le fun s member =>
    rising.sheet_le_tail standing.steady.few member]
  exact Word.assemble_all reads

/-- A scan after a position that the log has given out gives the records that end after
    it; only records that end at or before it are left out. -/
theorem scan_after (shelved : Shelved t dir place vs) (standing : vs.Standing bound) (whole : vs.Whole)
    (reads : Word.read none (sheets vs) = some (spans, opened)) (marks : Marks vs spans p) (within : p ≤ tail vs) :
    ∃ skipped kept, spans = skipped ++ kept ∧ (∀ span ∈ skipped, span.last ≤ p) ∧
      Scan.read t dir (tail vs) p = ⟨kept.map Span.record, none⟩ := by
  have rising := standing.steady.rising
  have stocked := shelved.stocked
  have listed := stocked.list rising
  by_cases atEnd : p = tail vs
  · refine ⟨spans, [], by simp, fun span member => ?_, by rw [Scan.read, if_pos atEnd]; rfl⟩
    obtain ⟨s, stands, same⟩ := List.mem_map.mp ((Word.positions_of_read reads).1 span member).1
    rw [atEnd, ← same]
    exact rising.sheet_le_tail standing.steady.few stands
  rcases marks.1 with rfl | ⟨v, member, term, collection⟩
  · exact ⟨[], spans, rfl, by simp, scan_start shelved standing whole reads⟩
  · obtain ⟨newer, older, rfl⟩ := List.append_of_mem member
    obtain ⟨inside, here, later⟩ := rising.standing term collection
    have split : newer ++ v :: older = (newer ++ [v]) ++ older := by simp
    rw [Scan.read_eq listed atEnd (Position.not_lt.mpr within), segmentsAfter_ok inside here later]
    rw [split] at stocked rising whole reads
    obtain ⟨passed, kept, rfl, old, assembled⟩ := assemble_window stocked rising whole reads
    refine ⟨passed, kept, rfl, fun span inside => ?_, assembled⟩
    -- A record that began before the window ends at the position or earlier, by the mark.
    rw [← Position.not_lt]
    intro further
    have began := marks.2 span (List.mem_append_left _ inside) further
    rcases old span inside with inOlder | ⟨o, impossible, -⟩
    · obtain ⟨s, stands, same⟩ := List.mem_map.mp inOlder
      obtain ⟨u, below, -, low, -⟩ := mem_sheets stands
      have less := (standing.steady.rising.drop.below below).2
      rw [← low, same, collection] at less
      exact UInt64.not_le.mpr less began
    · cases impossible

theorem marks_start (spans : List Span) : Marks vs spans .start :=
  ⟨.inl rfl, fun _ _ _ => UInt64.zero_le⟩

end Shelf
end Shiplog
