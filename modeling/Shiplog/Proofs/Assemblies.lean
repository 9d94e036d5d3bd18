import Mathlib.Computability.Language
import Mathlib.Data.Set.List
import Shiplog.Record

/-!
The words of pages that an assembly takes. They are those of a regular language
(`Assembly.form`): orphans of a record that began earlier, then records, whole, split or
broken off, and at the end perhaps a split record that is still open. What such a word holds
is a chain (`Chain`), and the chain says what is given for each page (`Chain.yields`). An
assembly that has refused nothing has taken a chain (`Chain.exists_of_pushAll`), so it refuses
the first page that no word of the language has there (`Assembly.pushAll_empty`).
-/
namespace Shiplog

open scoped Computability

/-- The language of the words that a function gives. -/
def wordsOf {α ι : Type} (f : ι → List α) : Language α :=
  Set.range f

/-- The words of a single page of a kind. -/
def Page.Kind.one (kind : Page.Kind) : Language (Page.Kind × Bytes) :=
  wordsOf fun data => [(kind, data)]

namespace Assembly

/-! ## The language -/

/-- A page without the start of its record. -/
def orphan : Language (Page.Kind × Bytes) :=
  Page.Kind.middle.one + Page.Kind.last.one + Page.Kind.brokenEnd.one

/-- A split record of which the last page is still to come. -/
def opening : Language (Page.Kind × Bytes) :=
  Page.Kind.start.one * Page.Kind.middle.one∗

/-- The pages of a record, or of what a broken end closes. -/
def quire : Language (Page.Kind × Bytes) :=
  Page.Kind.whole.one + opening * Page.Kind.last.one + opening * Page.Kind.brokenEnd.one + Page.Kind.brokenEnd.one

/-- The words that an assembly takes. -/
def form : Language (Page.Kind × Bytes) :=
  orphan∗ * quire∗ * (1 + opening)

end Assembly

/-! ## What a word holds -/

/-- The first pages of a split record. -/
def headPages (first : Bytes) (middles : List Bytes) : List (Page.Kind × Bytes) :=
  (.start, first) :: middles.map (.middle, ·)

/-- Pages that belong together, with what they hold: a record, or what a broken end closes. -/
inductive Quire where
  | whole (data : Bytes)
  | split (first : Bytes) (middles : List Bytes) (last : Bytes)
  /-- A split record that a broken end closes. -/
  | broken (first : Bytes) (middles : List Bytes) (mark : Bytes)
  /-- A broken end that closes nothing. -/
  | stray (mark : Bytes)

namespace Quire

def pages : Quire → List (Page.Kind × Bytes)
  | whole data => [(.whole, data)]
  | split first middles last => headPages first middles ++ [(.last, last)]
  | broken first middles mark => headPages first middles ++ [(.brokenEnd, mark)]
  | stray mark => [(.brokenEnd, mark)]

/-- The record that a quire carries, if it carries one. -/
def record? : Quire → Option Bytes
  | whole data => some data
  | split first middles last => some (first ++ middles.flatten ++ last)
  | broken .. | stray _ => none

/-- What is given for the pages of a quire: nothing before the last page, and for that one the
    record. -/
def answers (g : Quire) : List (Option Bytes) :=
  g.pages.dropLast.map (fun _ => none) ++ [g.record?]

/-- Whether a record starts in a quire. -/
def starts : Quire → Bool
  | whole _ | split .. | broken .. => true
  | stray _ => false

end Quire

/-- A word of pages taken apart: orphans, quires, and a split record that is still open. -/
structure Chain where
  orphans : List (Page.Kind × Bytes)
  loose : ∀ page ∈ orphans, page.1 ≠ .whole ∧ page.1 ≠ .start
  quires : List Quire
  /-- The payloads of the open record's first page and of its middle pages. -/
  opened : Option (Bytes × List Bytes)

namespace Chain

/-- The pages of the open record. -/
def rest (c : Chain) : List (Page.Kind × Bytes) :=
  c.opened.elim [] fun o => headPages o.1 o.2

def pages (c : Chain) : List (Page.Kind × Bytes) :=
  c.orphans ++ (c.quires.flatMap Quire.pages ++ c.rest)

/-- What is given for each page: nothing for orphans and for the open record. -/
def answers (c : Chain) : List (Option Bytes) :=
  c.orphans.map (fun _ => none) ++ (c.quires.flatMap Quire.answers ++ c.rest.map fun _ => none)

/-- What an assembly holds after the pages of a chain. -/
def state (c : Chain) : Assembly :=
  ⟨c.opened.map fun o => o.1 ++ o.2.flatten, c.opened.isSome || c.quires.any Quire.starts⟩

end Chain

/-! ## The language by its chains -/

namespace Assembly

variable {α ι : Type} {word : List (Page.Kind × Bytes)}

theorem mem_kstar_wordsOf {f : ι → List α} {word : List α} :
    word ∈ (wordsOf f)∗ ↔ ∃ is : List ι, is.flatMap f = word := by
  rw [Language.mem_kstar]
  constructor
  · rintro ⟨words, rfl, each⟩
    have listed : words ∈ Set.range (List.map f) := by
      rw [Set.range_list_map]
      exact each
    obtain ⟨is, rfl⟩ := listed
    exact ⟨is, List.flatMap_def⟩
  · rintro ⟨is, rfl⟩
    refine ⟨is.map f, List.flatMap_def, fun part member => ?_⟩
    obtain ⟨i, -, rfl⟩ := List.mem_map.mp member
    exact ⟨i, rfl⟩

theorem mem_orphan : word ∈ orphan ↔ ∃ page : Page.Kind × Bytes, (page.1 ≠ .whole ∧ page.1 ≠ .start) ∧ [page] = word := by
  constructor
  · rintro ((⟨data, rfl⟩ | ⟨data, rfl⟩) | ⟨data, rfl⟩)
    · exact ⟨(.middle, data), by simp, rfl⟩
    · exact ⟨(.last, data), by simp, rfl⟩
    · exact ⟨(.brokenEnd, data), by simp, rfl⟩
  · rintro ⟨⟨kind, data⟩, loose, rfl⟩
    cases kind with
    | whole => exact absurd rfl loose.1
    | start => exact absurd rfl loose.2
    | middle => exact .inl (.inl ⟨data, rfl⟩)
    | last => exact .inl (.inr ⟨data, rfl⟩)
    | brokenEnd => exact .inr ⟨data, rfl⟩

theorem mem_kstar_orphan : word ∈ orphan∗ ↔ ∀ page ∈ word, page.1 ≠ .whole ∧ page.1 ≠ .start := by
  rw [Language.mem_kstar]
  constructor
  · rintro ⟨words, rfl, each⟩ page member
    obtain ⟨part, inside, here⟩ := List.mem_flatten.mp member
    obtain ⟨page', loose, rfl⟩ := mem_orphan.mp (each part inside)
    rwa [List.mem_singleton.mp here]
  · intro loose
    refine ⟨word.map fun page => [page], (List.flatMap_singleton' word).symm, fun part inside => ?_⟩
    obtain ⟨page, member, rfl⟩ := List.mem_map.mp inside
    exact mem_orphan.mpr ⟨page, loose page member, rfl⟩

theorem mem_opening : word ∈ opening ↔ ∃ first middles, headPages first middles = word := by
  rw [opening, Language.mem_mul]
  constructor
  · rintro ⟨_, ⟨first, rfl⟩, _, rest, rfl⟩
    obtain ⟨middles, rfl⟩ := mem_kstar_wordsOf.mp rest
    exact ⟨first, middles, by rw [headPages, List.map_eq_flatMap]; rfl⟩
  · rintro ⟨first, middles, rfl⟩
    exact ⟨_, ⟨first, rfl⟩, _, mem_kstar_wordsOf.mpr ⟨middles, rfl⟩, by rw [headPages, List.map_eq_flatMap]; rfl⟩

theorem quire_eq : quire = wordsOf Quire.pages := by
  refine Language.ext fun word => ?_
  simp only [quire, Language.mem_add, Language.mem_mul, mem_opening]
  constructor
  · rintro (((⟨data, rfl⟩ | ⟨_, ⟨first, middles, rfl⟩, _, ⟨data, rfl⟩, rfl⟩) |
      ⟨_, ⟨first, middles, rfl⟩, _, ⟨data, rfl⟩, rfl⟩) | ⟨data, rfl⟩)
    · exact ⟨.whole data, rfl⟩
    · exact ⟨.split first middles data, rfl⟩
    · exact ⟨.broken first middles data, rfl⟩
    · exact ⟨.stray data, rfl⟩
  · rintro ⟨data | ⟨first, middles, data⟩ | ⟨first, middles, data⟩ | data, rfl⟩
    · exact .inl (.inl (.inl ⟨data, rfl⟩))
    · exact .inl (.inl (.inr ⟨_, ⟨first, middles, rfl⟩, _, ⟨data, rfl⟩, rfl⟩))
    · exact .inl (.inr ⟨_, ⟨first, middles, rfl⟩, _, ⟨data, rfl⟩, rfl⟩)
    · exact .inr ⟨data, rfl⟩

/-- The words of the language are the pages of chains. -/
theorem mem_form : word ∈ form ↔ ∃ c : Chain, c.pages = word := by
  rw [form, quire_eq, Language.mem_mul]
  constructor
  · rintro ⟨_, ⟨orphans, loose, _, members, rfl⟩, last, ending, rfl⟩
    obtain ⟨quires, rfl⟩ := mem_kstar_wordsOf.mp members
    rcases ending with rfl | started
    · exact ⟨⟨orphans, mem_kstar_orphan.mp loose, quires, none⟩, by simp [Chain.pages, Chain.rest]⟩
    · obtain ⟨first, middles, rfl⟩ := mem_opening.mp started
      exact ⟨⟨orphans, mem_kstar_orphan.mp loose, quires, some (first, middles)⟩, by simp [Chain.pages, Chain.rest]⟩
  · rintro ⟨⟨orphans, loose, quires, opened⟩, rfl⟩
    refine ⟨_, Language.append_mem_mul (mem_kstar_orphan.mpr loose) (mem_kstar_wordsOf.mpr ⟨quires, rfl⟩), _, ?_,
      List.append_assoc ..⟩
    cases opened with
    | none => exact .inl rfl
    | some o => exact .inr (mem_opening.mpr ⟨o.1, o.2, rfl⟩)

/-! ## What is given for a word -/

/-- What an assembly holds after some pages. -/
def after (a : Assembly) (pages : List (Page.Kind × Bytes)) : Assembly :=
  pages.foldl (fun a page => (a.push page.1 page.2).2) a

/-- An assembly takes a word, gives an answer for each page, and then holds what another one does. -/
structure Yields (a : Assembly) (pages : List (Page.Kind × Bytes)) (answers : List (Option Bytes)) (b : Assembly) :
    Prop where
  given : a.pushAll pages = answers.map .ok
  after : a.after pages = b

variable {a b c : Assembly} {xs ys : List (Page.Kind × Bytes)} {before later : List (Option Bytes)}

theorem pushAll_append (a : Assembly) (xs ys : List (Page.Kind × Bytes)) :
    a.pushAll (xs ++ ys) = a.pushAll xs ++ (a.after xs).pushAll ys := by
  induction xs generalizing a with
  | nil => rfl
  | cons page xs ih => exact congrArg _ (ih _)

theorem pushAll_take (a : Assembly) (xs : List (Page.Kind × Bytes)) (k : Nat) :
    a.pushAll (xs.take k) = (a.pushAll xs).take k := by
  induction xs generalizing a k with
  | nil => simp [pushAll]
  | cons page xs ih =>
    cases k with
    | zero => rfl
    | succ k => exact congrArg _ (ih _ k)

theorem Yields.nil (a : Assembly) : Yields a [] [] a := ⟨rfl, rfl⟩

theorem Yields.append (first : Yields a xs before b) (second : Yields b ys later c) :
    Yields a (xs ++ ys) (before ++ later) c := by
  refine ⟨?_, ?_⟩
  · rw [pushAll_append, first.after, first.given, second.given, List.map_append]
  · have held : b.after ys = c := second.after
    rw [← held, ← first.after, Assembly.after, List.foldl_append]
    rfl

theorem Yields.of_push {kind : Page.Kind} {payload : Bytes} {answer : Option Bytes}
    (pushed : a.push kind payload = (.ok answer, b)) : Yields a [(kind, payload)] [answer] b := by
  refine ⟨?_, ?_⟩
  · simp [pushAll, pushed]
  · simp [Assembly.after, pushed]

theorem yields_orphans (loose : ∀ page ∈ xs, page.1 ≠ .whole ∧ page.1 ≠ .start) :
    Yields empty xs (xs.map fun _ => none) empty := by
  induction xs with
  | nil => exact .nil _
  | cons page xs ih =>
    rw [List.forall_mem_cons] at loose
    obtain ⟨kind, payload⟩ := page
    have pushed : empty.push kind payload = (.ok none, empty) := by
      cases kind with
      | whole => exact absurd rfl loose.1.1
      | start => exact absurd rfl loose.1.2
      | middle | last | brokenEnd => rfl
    exact (Yields.of_push pushed).append (ih loose.2)

theorem yields_middles (opened : Bytes) (middles : List Bytes) :
    Yields ⟨some opened, true⟩ (middles.map (.middle, ·)) (middles.map fun _ => none) ⟨some (opened ++ middles.flatten), true⟩ := by
  induction middles generalizing opened with
  | nil => simpa using Yields.nil _
  | cons data middles ih =>
    rw [List.flatten_cons, ← List.append_assoc]
    exact (Yields.of_push rfl).append (ih _)

theorem yields_headPages (synced : Bool) (first : Bytes) (middles : List Bytes) :
    Yields ⟨none, synced⟩ (headPages first middles) ((headPages first middles).map fun _ => none)
      ⟨some (first ++ middles.flatten), true⟩ := by
  have started : Yields ⟨none, synced⟩ [(.start, first)] [none] ⟨some first, true⟩ := .of_push rfl
  rw [headPages, List.map_cons, List.map_map]
  exact started.append (yields_middles first middles)

theorem yields_quire (synced : Bool) (g : Quire) :
    Yields ⟨none, synced⟩ g.pages g.answers ⟨none, synced || g.starts⟩ := by
  cases g with
  | whole data =>
    rw [Quire.starts, Bool.or_true]
    exact .of_push rfl
  | split first middles last =>
    rw [Quire.answers, Quire.pages, List.dropLast_concat, Quire.starts, Bool.or_true]
    exact (yields_headPages synced first middles).append (.of_push rfl)
  | broken first middles mark =>
    rw [Quire.answers, Quire.pages, List.dropLast_concat, Quire.starts, Bool.or_true]
    exact (yields_headPages synced first middles).append (.of_push rfl)
  | stray mark =>
    rw [Quire.starts, Bool.or_false]
    exact .of_push rfl

theorem yields_quires (synced : Bool) (quires : List Quire) : Yields ⟨none, synced⟩ (quires.flatMap Quire.pages)
    (quires.flatMap Quire.answers) ⟨none, synced || quires.any Quire.starts⟩ := by
  induction quires generalizing synced with
  | nil => simpa using Yields.nil _
  | cons g quires ih =>
    rw [List.any_cons, ← Bool.or_assoc]
    exact (yields_quire synced g).append (ih _)

end Assembly

namespace Chain

open Assembly

/-- What an assembly gives for the pages of a chain and holds after them. -/
theorem yields (c : Chain) : Yields empty c.pages c.answers c.state := by
  refine (yields_orphans c.loose).append ((yields_quires false c.quires).append ?_)
  rw [rest, state]
  cases c.opened with
  | none => simpa using Yields.nil _
  | some o => exact yields_headPages _ o.1 o.2

theorem records_quires (quires : List Quire) :
    (quires.flatMap Quire.answers).filterMap id = quires.filterMap Quire.record? := by
  induction quires with
  | nil => rfl
  | cons g quires ih =>
    rw [List.flatMap_cons, List.filterMap_append, ih, List.filterMap_cons, Quire.answers]
    cases g.record? <;> simp

/-- The records given for a chain are those of its quires, in their order. -/
theorem records (c : Chain) : c.answers.filterMap id = c.quires.filterMap Quire.record? := by
  simpa [answers] using records_quires c.quires

/-! ## The chain of what was taken -/

/-- No broken end stands before the first start but as an orphan. -/
def Settled (c : Chain) : Prop :=
  c.quires ≠ [] → c.quires.any Quire.starts

/-- A page that is not refused goes on with the chain. -/
theorem exists_append {c : Chain} (settled : c.Settled) {page : Page.Kind × Bytes} {answer : Option Bytes}
    (taken : (c.state.push page.1 page.2).1 = .ok answer) : ∃ d : Chain, d.Settled ∧ d.pages = c.pages ++ [page] := by
  obtain ⟨orphans, loose, quires, opened⟩ := c
  obtain ⟨kind, data⟩ := page
  cases opened with
  | some o =>
    cases kind with
    | whole | start => cases taken
    | middle => exact ⟨⟨orphans, loose, quires, some (o.1, o.2 ++ [data])⟩, settled, by simp [pages, rest, headPages]⟩
    | last => exact ⟨⟨orphans, loose, quires ++ [.split o.1 o.2 data], none⟩, by simp [Settled, Quire.starts],
        by simp [pages, rest, Quire.pages]⟩
    | brokenEnd => exact ⟨⟨orphans, loose, quires ++ [.broken o.1 o.2 data], none⟩, by simp [Settled, Quire.starts],
        by simp [pages, rest, Quire.pages]⟩
  | none =>
    have orphaned (apart : kind ≠ .whole ∧ kind ≠ .start) (first : quires = []) :
        ∃ d : Chain, d.Settled ∧ d.pages = pages ⟨orphans, loose, quires, none⟩ ++ [(kind, data)] := by
      subst first
      refine ⟨⟨orphans ++ [(kind, data)], fun page member => ?_, [], none⟩, by simp [Settled], by simp [pages, rest]⟩
      rcases List.mem_append.mp member with member | last
      · exact loose page member
      · rwa [List.mem_singleton.mp last]
    -- A continuation without its start is taken only before the first quire.
    have early (synced : quires.any Quire.starts = false) : quires = [] := by
      by_contra some_quires
      rw [settled some_quires] at synced
      cases synced
    cases kind with
    | whole => exact ⟨⟨orphans, loose, quires ++ [.whole data], none⟩, by simp [Settled, Quire.starts],
        by simp [pages, rest, Quire.pages]⟩
    | start => exact ⟨⟨orphans, loose, quires, some (data, [])⟩, settled, by simp [pages, rest, headPages]⟩
    | middle | last =>
      refine orphaned (by simp) (early (Bool.eq_false_iff.mpr fun synced => ?_))
      change (if quires.any Quire.starts then Except.error _ else Except.ok none) = Except.ok answer at taken
      rw [if_pos synced] at taken
      cases taken
    | brokenEnd =>
      by_cases first : quires = []
      · exact orphaned (by simp) first
      · refine ⟨⟨orphans, loose, quires ++ [.stray data], none⟩, fun _ => ?_, by simp [pages, rest, Quire.pages]⟩
        rw [List.any_append, settled first, Bool.true_or]

/-- Pages that were all taken are the pages of a chain. -/
theorem exists_of_pushAll {word : List (Page.Kind × Bytes)}
    (taken : ∀ result ∈ empty.pushAll word, ∃ answer, result = .ok answer) : ∃ c : Chain, c.Settled ∧ c.pages = word := by
  induction word using List.reverseRecOn with
  | nil => exact ⟨⟨[], by simp, [], none⟩, by simp [Settled], rfl⟩
  | append_singleton word page ih =>
    rw [pushAll_append, List.forall_mem_append] at taken
    obtain ⟨c, settled, rfl⟩ := ih taken.1
    rw [c.yields.after] at taken
    obtain ⟨answer, last⟩ := taken.2 _ (List.mem_singleton.mpr rfl)
    exact exists_append settled last

end Chain

namespace Assembly

variable {word : List (Page.Kind × Bytes)}

/-- No page of a word is refused if and only if the word is of the language. -/
theorem pushAll_ok_iff : (∀ result ∈ empty.pushAll word, ∃ answer, result = .ok answer) ↔ word ∈ form := by
  rw [mem_form]
  constructor
  · intro taken
    obtain ⟨c, -, same⟩ := Chain.exists_of_pushAll taken
    exact ⟨c, same⟩
  · rintro ⟨c, rfl⟩ result member
    rw [c.yields.given] at member
    obtain ⟨answer, -, rfl⟩ := List.mem_map.mp member
    exact ⟨answer, rfl⟩

/-- The first page that is refused is the first after which no word of the language goes on. -/
theorem exists_first_refused (outside : word ∉ form) : ∃ (k : Nat) (breach : Breach),
    (empty.pushAll word)[k]? = some (.error breach) ∧ (∀ j < k, ∃ answer, (empty.pushAll word)[j]? = some (.ok answer)) ∧
      (∀ more, word.take (k + 1) ++ more ∉ form) ∧ ∀ j ≤ k, ∃ more, word.take j ++ more ∈ form := by
  have some_refused : ∃ (k : Nat) (breach : Breach), (empty.pushAll word)[k]? = some (.error breach) := by
    by_contra none_refused
    refine outside (pushAll_ok_iff.mp fun result member => ?_)
    obtain ⟨k, here⟩ := List.mem_iff_getElem?.mp member
    cases result with
    | ok answer => exact ⟨answer, rfl⟩
    | error breach => exact absurd ⟨k, breach, here⟩ none_refused
  obtain ⟨k, ⟨breach, refused⟩, least⟩ := wellFounded_lt.has_min _ some_refused
  have inside := (List.getElem?_eq_some_iff.mp refused).1
  have taken : ∀ j < k, ∃ answer, (empty.pushAll word)[j]? = some (.ok answer) := fun j earlier => by
    have within := Nat.lt_trans earlier inside
    cases result : (empty.pushAll word)[j] with
    | ok answer => exact ⟨answer, by rw [List.getElem?_eq_getElem within, result]⟩
    | error breach => exact absurd earlier (least j ⟨breach, by rw [List.getElem?_eq_getElem within, result]⟩)
  refine ⟨k, breach, refused, taken, fun more extended => ?_, fun j upTo => ⟨(word.take k).drop j, ?_⟩⟩
  · have again : Except.error breach ∈ empty.pushAll (word.take (k + 1) ++ more) := by
      rw [pushAll_append, pushAll_take]
      refine List.mem_append_left _ (List.mem_iff_getElem?.mpr ⟨k, ?_⟩)
      rw [List.getElem?_take_of_lt (Nat.lt_succ_self k), refused]
    obtain ⟨answer, given⟩ := pushAll_ok_iff.mpr extended _ again
    cases given
  · have part : (word.take k).take j = word.take j := by rw [List.take_take, Nat.min_eq_left upTo]
    rw [← part, List.take_append_drop, ← pushAll_ok_iff, pushAll_take]
    intro result member
    obtain ⟨i, here⟩ := List.mem_iff_getElem?.mp member
    rw [List.getElem?_take] at here
    split at here
    · rename_i earlier
      obtain ⟨answer, given⟩ := taken i earlier
      rw [given] at here
      exact ⟨answer, (Option.some.inj here).symm⟩
    · cases here

/-- A new assembly takes exactly the words of the language: of such a word it gives, with the last
    page of each record, the record, and nothing else. Of any other word it refuses the first page
    after which no word of the language goes on. -/
theorem pushAll_empty (word : List (Page.Kind × Bytes)) :
    ((∀ result ∈ empty.pushAll word, ∃ answer, result = .ok answer) ↔ word ∈ form) ∧
    (word ∈ form → ∃ c : Chain, c.pages = word) ∧
    (∀ c : Chain, c.pages = word → empty.pushAll word = c.answers.map .ok ∧
      c.answers.filterMap id = c.quires.filterMap Quire.record?) ∧
    (word ∉ form → ∃ (k : Nat) (breach : Breach), (empty.pushAll word)[k]? = some (.error breach) ∧
      (∀ j < k, ∃ answer, (empty.pushAll word)[j]? = some (.ok answer)) ∧
      (∀ more, word.take (k + 1) ++ more ∉ form) ∧ ∀ j ≤ k, ∃ more, word.take j ++ more ∈ form) := by
  refine ⟨pushAll_ok_iff, mem_form.mp, fun c same => ⟨?_, c.records⟩, exists_first_refused⟩
  rw [← same]
  exact c.yields.given

end Assembly
end Shiplog
