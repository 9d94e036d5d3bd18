import Mathlib.Data.List.Basic
import Shiplog.Packed

/-!
Readers that take a value off the front of some bytes. A reader is exact for a spelling of values
when it takes just the values that the bytes spell, and refuses all other bytes: those that end
inside a spelling, and those with a byte that is none where a flag should be (`Layout.Refusal`). Readers
one after another are exact for spellings joined (`Layout.Exact.andThen`), so exactness is shown
of a word and a flag and then follows the shape of a value.
-/
namespace Shiplog

/-- Where it is known of every argument what a function gives or how it fails, it gives nothing
    else and fails in no other way. -/
theorem outcome_iff {α β ε : Type} {f : α → Except ε β} (Good : α → β → Prop) (Bad : α → ε → Prop)
    (good : ∀ a b, Good a b → f a = .ok b) (bad : ∀ a e, Bad a e → f a = .error e)
    (all : ∀ a, (∃ b, Good a b) ∨ ∃ e, Bad a e) (a : α) :
    (∀ b, f a = .ok b ↔ Good a b) ∧ ∀ e, f a = .error e ↔ Bad a e := by
  rcases all a with ⟨b, gives⟩ | ⟨e, fails⟩
  · refine ⟨fun b' => ⟨fun given => ?_, good a b'⟩, fun e => ⟨fun failed => ?_, bad a e⟩⟩
    · obtain rfl := Except.ok.inj ((good a b gives).symm.trans given)
      exact gives
    · cases (good a b gives).symm.trans failed
  · refine ⟨fun b => ⟨fun given => ?_, good a b⟩, fun e' => ⟨fun failed => ?_, bad a e'⟩⟩
    · cases (bad a e fails).symm.trans given
    · obtain rfl := Except.error.inj ((bad a e fails).symm.trans failed)
      exact fails

namespace Layout

variable {α β : Type}

/-- Takes a value off the front of some bytes. -/
abbrev Reader (α : Type) := Bytes → Except Packed.Flaw (α × Bytes)

/-- One reader and then, by the value that it takes, another. -/
def andThen (first : Reader α) (next : α → Reader β) : Reader β := fun bs => do
  let (a, rest) ← first bs
  next a rest

/-- The reader that takes nothing. -/
def taken (a : α) : Reader α := fun bs => .ok (a, bs)

/-- What is read from some bytes, where it is known which bytes spell which value: the value that
    is spelled in front, and the bytes behind. -/
inductive Front (Spelled : Bytes → α → Prop) : Bytes → α × Bytes → Prop
  | spelled {w : Bytes} {a : α} (spelled : Spelled w a) (rest : Bytes) : Front Spelled (w ++ rest) (a, rest)

/-- Why no value is read from some bytes, where it is known which bytes spell which value and
    what stands in front of a flag: they end inside a spelling, or they have some other byte where
    a flag should be. -/
inductive Refusal (Spelled : Bytes → α → Prop) (Flagged : Bytes → Prop) : Bytes → Packed.Flaw → Prop
  | short {bs more : Bytes} {a : α} (spelled : Spelled (bs ++ more) a) (breaks : more ≠ []) :
      Refusal Spelled Flagged bs .endOfInput
  | flag {front : Bytes} {b : UInt8} (flagged : Flagged front) (zero : b ≠ 0) (one : b ≠ 1) (rest : Bytes) :
      Refusal Spelled Flagged (front ++ b :: rest) (.badFlag b)

/-- A reader takes the value that the bytes in front spell, and refuses all other bytes with the
    flaw that is in them. -/
structure Exact (read : Reader α) (Spelled : Bytes → α → Prop) (Flagged : Bytes → Prop) : Prop where
  reads : ∀ {bs taken}, Front Spelled bs taken → read bs = .ok taken
  refuses : ∀ {bs flaw}, Refusal Spelled Flagged bs flaw → read bs = .error flaw
  covers : ∀ bs, (∃ taken, Front Spelled bs taken) ∨ ∃ flaw, Refusal Spelled Flagged bs flaw
  /-- What is broken off can be completed. -/
  inhabited : ∃ w a, Spelled w a

section
variable {read : Reader α} {next : α → Reader β} {a : α} {bs rest : Bytes} {flaw : Packed.Flaw}
  {Spelled Spelled' Spelled₁ : Bytes → α → Prop} {Flagged Flagged' Flagged₁ : Bytes → Prop}
  {Spelled₂ : α → Bytes → β → Prop} {Flagged₂ : α → Bytes → Prop}

theorem andThen_ok (took : read bs = .ok (a, rest)) : andThen read next bs = next a rest := by
  rw [andThen, took]
  rfl

theorem andThen_error (refused : read bs = .error flaw) : andThen read next bs = .error flaw := by
  rw [andThen, refused]
  rfl

theorem Exact.congr (exact : Exact read Spelled Flagged) (spelled : ∀ w a, Spelled w a ↔ Spelled' w a)
    (flagged : ∀ front, Flagged front ↔ Flagged' front) : Exact read Spelled' Flagged' := by
  have same : Spelled = Spelled' := funext fun w => funext fun a => propext (spelled w a)
  have same' : Flagged = Flagged' := funext fun front => propext (flagged front)
  rwa [same, same'] at exact

theorem exact_taken (a : α) : Exact (taken a) (fun w b => w = [] ∧ b = a) fun _ => False where
  reads := by
    rintro _ _ ⟨⟨rfl, rfl⟩, rest⟩
    rfl
  refuses := by
    intro bs flaw refusal
    cases refusal with
    | short spelled breaks => exact absurd (List.append_eq_nil_iff.mp spelled.1).2 breaks
    | flag flagged => exact flagged.elim
  covers bs := by
    refine .inl ⟨(a, bs), ?_⟩
    show Front _ ([] ++ bs) (a, bs)
    exact .spelled ⟨rfl, rfl⟩ bs
  inhabited := ⟨[], a, rfl, rfl⟩

/-- The spelling of a value in two parts, the second by the value that the first spells. -/
def Joined (Spelled₁ : Bytes → α → Prop) (Spelled₂ : α → Bytes → β → Prop) (w : Bytes) (b : β) : Prop :=
  ∃ v a v', Spelled₁ v a ∧ Spelled₂ a v' b ∧ w = v ++ v'

/-- What stands in front of a flag in the first part or in the second. -/
def Within (Spelled₁ : Bytes → α → Prop) (Flagged₁ : Bytes → Prop) (Flagged₂ : α → Bytes → Prop) (front : Bytes) : Prop :=
  Flagged₁ front ∨ ∃ v a front', Spelled₁ v a ∧ Flagged₂ a front' ∧ front = v ++ front'

/-- Bytes that end inside a joined spelling end inside its first part, or behind it inside the
    second. -/
theorem Joined.cut {more : Bytes} {b : β} (joined : Joined Spelled₁ Spelled₂ (bs ++ more) b) :
    (∃ a part, Spelled₁ (bs ++ part) a ∧ part ≠ []) ∨
      ∃ v a part, Spelled₁ v a ∧ Spelled₂ a (part ++ more) b ∧ bs = v ++ part := by
  obtain ⟨v, a, v', spelled, spelled', same⟩ := joined
  rcases List.append_eq_append_iff.mp same with ⟨part, rfl, rfl⟩ | ⟨part, rfl, rfl⟩
  · by_cases whole : part = []
    · subst whole
      rw [List.append_nil] at spelled
      exact .inr ⟨bs, a, [], spelled, spelled', (List.append_nil bs).symm⟩
    · exact .inl ⟨a, part, spelled, whole⟩
  · exact .inr ⟨v, a, part, spelled, spelled', rfl⟩

/-- Exact readers one after another are exact. -/
theorem Exact.andThen (first : Exact read Spelled₁ Flagged₁)
    (later : ∀ {v a}, Spelled₁ v a → Exact (next a) (Spelled₂ a) (Flagged₂ a)) :
    Exact (andThen read next) (Joined Spelled₁ Spelled₂) (Within Spelled₁ Flagged₁ Flagged₂) where
  reads := by
    rintro _ _ ⟨⟨v, a, v', spelled, spelled', rfl⟩, rest⟩
    rw [List.append_assoc, andThen_ok (first.reads (.spelled spelled _)), (later spelled).reads (.spelled spelled' rest)]
  refuses := by
    intro bs flaw refusal
    cases refusal with
    | short joined breaks =>
      rcases joined.cut with ⟨a, part, spelled, some_part⟩ | ⟨v, a, part, spelled, spelled', rfl⟩
      · exact andThen_error (first.refuses (.short spelled some_part))
      · rw [andThen_ok (first.reads (.spelled spelled part))]
        exact (later spelled).refuses (.short spelled' breaks)
    | flag flagged zero one rest =>
      rcases flagged with here | ⟨v, a, front', spelled, behind, rfl⟩
      · exact andThen_error (first.refuses (.flag here zero one rest))
      · rw [List.append_assoc, andThen_ok (first.reads (.spelled spelled _))]
        exact (later spelled).refuses (.flag behind zero one rest)
  covers := by
    intro bs
    rcases first.covers bs with ⟨_, @⟨v, a, spelled, behind⟩⟩ | ⟨flaw, refusal⟩
    · rcases (later spelled).covers behind with ⟨_, @⟨v', b, spelled', rest⟩⟩ | ⟨flaw, refusal⟩
      · rw [← List.append_assoc]
        exact .inl ⟨_, .spelled ⟨v, a, v', spelled, spelled', rfl⟩ rest⟩
      · refine .inr ⟨flaw, ?_⟩
        cases refusal with
        | short spelled' breaks =>
          exact .short ⟨v, a, _, spelled, spelled', List.append_assoc v behind _⟩ breaks
        | @flag front _ flagged zero one rest =>
          rw [← List.append_assoc]
          exact .flag (.inr ⟨v, a, front, spelled, flagged, rfl⟩) zero one rest
    · refine .inr ⟨flaw, ?_⟩
      cases refusal with
      | @short _ more a spelled breaks =>
        obtain ⟨v', b, spelled'⟩ := (later spelled).inhabited
        have joined : Joined Spelled₁ Spelled₂ (bs ++ (more ++ v')) b :=
          ⟨bs ++ more, a, v', spelled, spelled', (List.append_assoc bs more v').symm⟩
        exact .short joined (by simp [breaks])
      | flag flagged zero one rest => exact .flag (.inl flagged) zero one rest
  inhabited := by
    obtain ⟨v, a, spelled⟩ := first.inhabited
    obtain ⟨v', b, spelled'⟩ := (later spelled).inhabited
    exact ⟨v ++ v', b, v, a, v', spelled, spelled', rfl⟩

theorem Exact.map (exact : Exact read Spelled Flagged) (f : α → β) :
    Exact (Layout.andThen read fun a => taken (f a)) (fun w b => ∃ a, Spelled w a ∧ b = f a) Flagged := by
  refine (exact.andThen fun _ => exact_taken _).congr (fun w b => ?_) fun front => ?_
  · constructor
    · rintro ⟨v, a, v', spelled, ⟨rfl, rfl⟩, rfl⟩
      exact ⟨a, by rwa [List.append_nil], rfl⟩
    · rintro ⟨a, spelled, rfl⟩
      exact ⟨w, a, [], spelled, ⟨rfl, rfl⟩, (List.append_nil w).symm⟩
  · simp [Within]

/-- An exact reader takes a value just from bytes that begin with its spelling, and refuses bytes
    just for the flaw that is in them. -/
theorem Exact.read_iff (exact : Exact read Spelled Flagged) (bs : Bytes) :
    (∀ taken, read bs = .ok taken ↔ Front Spelled bs taken) ∧ ∀ flaw, read bs = .error flaw ↔ Refusal Spelled Flagged bs flaw :=
  outcome_iff (Front Spelled) (Refusal Spelled Flagged) (fun _ _ => exact.reads) (fun _ _ => exact.refuses) exact.covers bs

end
end Layout
end Shiplog
