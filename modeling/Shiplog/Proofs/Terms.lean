import Shiplog.Proofs.Lives

/-!
The terms of a log. Whatever an engine does, and whether it goes well, the term of its log
never falls, and every position that the log gives out is of the term at that time (`Works`).
A promotion that goes well raises the term (`promote_raises`), so the positions given out
afterwards come after all those before (`Works.before_promotion`).
-/
namespace Shiplog

/-! ## The tail of a log -/

namespace Tail

/-- The term is the same. -/
def SameTerm (m m' : Mounted Tail) : Prop := m'.item.position.term = m.item.position.term

instance : IsPreorder (Mounted Tail) SameTerm where
  refl _ := rfl
  trans _ _ _ first second := second.trans first

theorem sameTerm_update {f : Tail → Tail} (same : ∀ tail, (f tail).position.term = tail.position.term) :
    Action.Obeys SameTerm (Mounted.update f) := fun m => same m.item

theorem sameTerm_produce {γ : Type} (f : FileTree → Except Fault (γ × FileTree)) :
    Action.Obeys SameTerm (Mounted.produce f) := by
  intro m
  rw [Mounted.produce, Action.perform_ofStep]
  cases f m.disk <;> rfl

theorem sameTerm_change (f : FileTree → Except Fault FileTree) : Action.Obeys SameTerm (Mounted.change f) := by
  intro m
  rw [Mounted.change, Action.perform_ofStep]
  cases f m.disk <;> rfl

theorem sameTerm_openNext : Action.Obeys SameTerm openNext := by
  unfold openNext
  refine Action.Obeys.bind (sameTerm_update ?_) fun _ => Action.Obeys.bind (.reading _) fun tail => ?_
  · exact fun _ => rfl
  · exact (sameTerm_produce _).bind fun id => sameTerm_update fun _ => rfl

theorem sameTerm_appendPage (kind : Page.Kind) (payload : Bytes) : Action.Obeys SameTerm (appendPage kind payload) := by
  unfold appendPage
  cases Page.encode kind payload with
  | error oversized => exact .ofExcept (.error _)
  | ok page =>
    have room : Action.Obeys SameTerm makeRoom := by
      refine (Action.Obeys.reading _).bind fun tail => ?_
      by_cases full : tail.handle = none ∨ tail.isFull = true
      · rw [if_pos full]
        exact sameTerm_openNext
      · rw [if_neg full]
        exact .ofExcept (.ok ())
    refine room.bind fun _ => (Action.Obeys.reading _).bind fun tail => ?_
    cases tail.handle with
    | none => exact .ofExcept (.error _)
    | some id => exact (sameTerm_change _).bind fun _ => sameTerm_update fun _ => rfl

theorem sameTerm_append (record : Bytes) : Action.Obeys SameTerm (append record) := by
  unfold append
  refine Action.Obeys.bind (Action.Obeys.forM ?_ _) fun _ => ?_
  · rintro ⟨kind, piece⟩
    exact sameTerm_appendPage kind piece
  · exact fun _ => rfl

/-- The position after a record is of the present term. -/
theorem append_term {record : Bytes} {m m' : Mounted Tail} {p : Position}
    (done : (append record).perform m = (.ok p, m')) : p.term = m'.item.position.term := by
  obtain ⟨⟨⟩, m₁, -, tells⟩ := Action.perform_bind_eq_ok.mp done
  cases tells
  rfl

/-- A new term is entered, even if no segment can be created for it; or it is no higher, and
    nothing happens. -/
theorem startTerm_term (term : UInt64) (m : Mounted Tail) :
    m.item.position.term < term ∧ ((startTerm term).perform m).2.item.position.term = term ∨
      (∃ e, (startTerm term).perform m = (.error e, m)) := by
  by_cases low : term ≤ m.item.position.term
  · exact .inr (startTerm_low low)
  · refine .inl ⟨UInt64.not_le.mp low, ?_⟩
    simp only [startTerm, Action.perform_bind, Mounted.perform_current, low, ↓reduceIte]
    exact sameTerm_openNext _

end Tail

/-! ## The log of an engine -/

namespace Engine

/-- The term of an engine's log. -/
def term (m : Mounted Engine) : UInt64 := m.item.tail.term

/-- The position that an answer gives out, if it is one. -/
def returned : Except Error Position → List Position
  | .ok p => [p]
  | .error _ => []

/-- What an engine does to its log, with the positions that the log gives out. -/
inductive Works (m : Mounted Engine) : List Position → Mounted Engine → Prop where
  | refl : Works m [] m
  /-- The store is changed or read, or the log is read. -/
  | aside {given : List Position} {m₁ m₂ : Mounted Engine} (works : Works m given m₁)
      (same : m₂.item.log = m₁.item.log) : Works m given m₂
  | write {given : List Position} {m₁ m₂ : Mounted Engine} (record : Bytes) {answer : Except Error Position}
      (works : Works m given m₁) (done : (onLog (Log.write record)).perform m₁ = (answer, m₂)) :
      Works m (given ++ returned answer) m₂
  | startTerm {given : List Position} {m₁ m₂ : Mounted Engine} (term : UInt64) {answer : Except Error Position}
      (works : Works m given m₁) (done : (startTerm term).perform m₁ = (answer, m₂)) :
      Works m (given ++ returned answer) m₂

variable {m m' m₁ m₂ : Mounted Engine} {given given' : List Position} {α : Type}

theorem Works.trans (first : Works m given m₁) (second : Works m₁ given' m₂) : Works m (given ++ given') m₂ := by
  induction second with
  | refl =>
    rw [List.append_nil]
    exact first
  | aside works same ih => exact ih.aside same
  | write record works done ih =>
    rw [← List.append_assoc]
    exact ih.write record done
  | startTerm term works done ih =>
    rw [← List.append_assoc]
    exact ih.startTerm term done

/-! ## Terms -/

/-- A record that is logged leaves the term, and its position is of that term. -/
theorem write_term {record : Bytes} {answer : Except Error Position}
    (done : (onLog (Log.write record)).perform m = (answer, m')) :
    term m' = term m ∧ ∀ p ∈ returned answer, p.term = term m := by
  rw [perform_onLog] at done
  by_cases up : (logOf m).item.mounted = true
  · have ready : (Log.write record).perform (logOf m) = (Log.onTail (Tail.append record)).perform (logOf m) := by
      simp only [Log.write, Action.perform_bind, Mounted.perform_current, up, ↓reduceIte]
    rw [ready, Log.perform_onTail] at done
    have same := Tail.sameTerm_append record (Log.tailOf (logOf m))
    rcases appended : (Tail.append record).perform (Log.tailOf (logOf m)) with ⟨answer', m₁⟩
    rw [appended] at done same
    cases done
    refine ⟨same, ?_⟩
    cases answer' with
    | error e => simp [returned]
    | ok p =>
      intro q member
      rw [List.mem_singleton.mp member]
      exact (Tail.append_term appended).trans same
  · have refused : (Log.write record).perform (logOf m) = (.error (.logWrite "WAL is not initialized"), logOf m) := by
      simp only [Log.write, Action.perform_bind, Mounted.perform_current, up, Bool.false_eq_true, ↓reduceIte,
        Action.perform_throw]
    rw [refused] at done
    cases done
    exact ⟨rfl, by simp [returned]⟩

/-- A term that is entered is higher, and the position is of that term. -/
theorem startTerm_term {t : UInt64} {answer : Except Error Position} (done : (startTerm t).perform m = (answer, m')) :
    term m ≤ term m' ∧ ∀ p ∈ returned answer, term m < term m' ∧ p.term = term m' := by
  have moved := Tail.startTerm_term t (Log.tailOf (logOf m))
  rcases begun : (Tail.startTerm t).perform (Log.tailOf (logOf m)) with ⟨answer', m₁⟩
  rw [begun] at moved
  rw [startTerm, perform_onLog, Log.startTerm, Action.perform_bind, Log.perform_onTail_of begun] at done
  rcases moved with ⟨higher, same⟩ | ⟨e, refused⟩
  · have above : term m < m₁.item.position.term := same ▸ higher
    cases answer' with
    | error e =>
      cases done
      exact ⟨UInt64.le_of_lt above, by simp [returned]⟩
    | ok =>
      cases done
      refine ⟨UInt64.le_of_lt above, fun p member => ?_⟩
      rw [List.mem_singleton.mp member]
      exact ⟨above, rfl⟩
  · cases refused
    cases done
    exact ⟨UInt64.le_refl _, by simp [returned]⟩

/-- The term never falls, and the positions given out are of the terms in between. -/
theorem Works.terms (works : Works m given m') :
    term m ≤ term m' ∧ ∀ p ∈ given, term m ≤ p.term ∧ p.term ≤ term m' := by
  induction works with
  | refl => exact ⟨UInt64.le_refl _, by simp⟩
  | @aside given m₁ m₂ works same ih =>
    have kept : term m₂ = term m₁ := congrArg (fun log : Log => log.position.term) same
    rw [kept]
    exact ih
  | @write given m₁ m₂ record answer works done ih =>
    obtain ⟨same, position⟩ := write_term done
    rw [same]
    refine ⟨ih.1, fun p member => ?_⟩
    rcases List.mem_append.mp member with old | new
    · exact ih.2 p old
    · rw [position p new]
      exact ⟨ih.1, UInt64.le_refl _⟩
  | @startTerm given m₁ m₂ t answer works done ih =>
    obtain ⟨rises, position⟩ := startTerm_term done
    refine ⟨UInt64.le_trans ih.1 rises, fun p member => ?_⟩
    rcases List.mem_append.mp member with old | new
    · obtain ⟨low, high⟩ := ih.2 p old
      exact ⟨low, UInt64.le_trans high rises⟩
    · rw [(position p new).2]
      exact ⟨UInt64.le_trans ih.1 rises, UInt64.le_refl _⟩

/-- A promotion that succeeds raises the term. -/
theorem promote_raises (done : promote.perform m = (.ok (), m')) : term m < term m' := by
  rw [promote] at done
  obtain ⟨e, m₁, now, done⟩ := Action.perform_bind_eq_ok.mp done
  cases now
  obtain ⟨p, m₂, begun, done⟩ := Action.perform_bind_eq_ok.mp done
  cases done
  exact ((startTerm_term begun).2 p (List.mem_singleton_self p)).1

/-! ## The programs of an engine -/

/-- Whatever the action does, it is of this kind. -/
def Working (act : Action (Mounted Engine) α) : Prop := Action.Obeys (fun m m' => ∃ given, Works m given m') act

instance : IsPreorder (Mounted Engine) fun m m' => ∃ given, Works m given m' where
  refl _ := ⟨[], .refl⟩
  trans _ _ _ := fun ⟨_, first⟩ ⟨_, second⟩ => ⟨_, first.trans second⟩

theorem working_onStore (act : Action (Mounted Store) α) : Working (onStore act) :=
  fun _ => ⟨[], .aside .refl rfl⟩

theorem working_write (record : Bytes) : Working (onLog (Log.write record)) :=
  fun _ => ⟨_, .write record .refl rfl⟩

theorem working_startTerm (t : UInt64) : Working (startTerm t) :=
  fun _ => ⟨_, .startTerm t .refl rfl⟩

theorem working_logAndApply (entry : Entry) : Working (logAndApply entry) := by
  unfold logAndApply
  refine (working_write _).bind fun p => (working_onStore _).bind fun _ => ?_
  exact (working_onStore _).bind fun _ => .ofExcept (.ok p)

theorem working_change (entry : Entry) : Working (change entry) :=
  (Action.Obeys.ofExcept _).bind fun _ => working_logAndApply entry

theorem working_replayFrom (fence : Option Position) (records : List LoggedEntry) : Working (replayFrom fence records) := by
  induction records generalizing fence with
  | nil => exact .ofExcept (.ok 0)
  | cons record rest ih =>
    rw [replayFrom]
    split
    · exact ih fence
    · refine Action.Obeys.bind (.ofExcept _) fun _ => (working_logAndApply _).bind fun _ => ?_
      exact (working_onStore _).bind fun _ => (ih _).bind fun n => .ofExcept (.ok (n + 1))

theorem working_replay (records : List LoggedEntry) : Working (replay records) :=
  (Action.Obeys.reading _).bind fun _ => working_replayFrom _ _

theorem working_install (snapshot : Snapshot) : Working (install snapshot) := by
  unfold install putEntries
  refine Action.Obeys.bind (.reading _) fun present => Action.Obeys.bind (.forM ?_ _) fun _ => ?_
  · rintro ⟨key, value⟩
    exact Action.Obeys.bind (.ofExcept _) fun _ => working_onStore _
  · refine Action.Obeys.bind (.forM (fun key => working_onStore _) _) fun _ => ?_
    exact (working_onStore _).bind fun _ => Action.Obeys.bind (.reading _) fun _ => working_onStore _

theorem working_installPayload (payload : Bytes) : Working (installPayload payload) := by
  unfold installPayload
  refine Action.Obeys.bind (.ofExcept _) fun sync => (working_install _).bind fun _ => ?_
  exact (working_replay _).bind fun _ => .ofExcept (.ok ())

theorem working_applyPayload (payload : Bytes) : Working (applyPayload payload) := by
  unfold applyPayload
  exact Action.Obeys.bind (.ofExcept _) fun record => (working_replay _).bind fun _ => .ofExcept (.ok ())

theorem working_promote : Working promote :=
  Action.Obeys.bind (.reading _) fun _ => (working_startTerm _).bind fun _ => .ofExcept (.ok ())

/-! ## Before and after a promotion -/

theorem lt_of_term {p q : Position} (less : p.term < q.term) : p < q := .inl less

theorem log_of_onStore {act : Action (Mounted Store) α} {answer : Except Error α}
    (done : (onStore act).perform m = (answer, m')) : m'.item.log = m.item.log := by
  rw [perform_onStore] at done
  cases done
  rfl

/-- A change that is made works on the log, which gives out its position. -/
theorem change_works {entry : Entry} {p : Position} (done : (change entry).perform m = (.ok p, m')) :
    ∃ given, Works m given m' ∧ p ∈ given := by
  obtain ⟨m₁, m₂, logged, applied, marked⟩ := change_eq_ok done
  have works : Works m [p] m₁ := .write _ .refl logged
  exact ⟨[p], (works.aside (log_of_onStore applied)).aside (log_of_onStore marked), List.mem_singleton_self p⟩

/-- What is written after a promotion comes after all that the log gave out before. -/
theorem Works.before_promotion (before : Works m given m₁) (promoted : promote.perform m₁ = (.ok (), m₂))
    {m₃ m₄ : Mounted Engine} (after : Works m₂ given' m₃) {entry : Entry} {p : Position}
    (written : (change entry).perform m₃ = (.ok p, m₄)) {earlier : List Position}
    (old : ∀ q ∈ earlier, q.term ≤ term m) : ∀ q ∈ earlier ++ given, q < p := by
  obtain ⟨last, works, member⟩ := change_works written
  have late : term m₂ ≤ p.term := UInt64.le_trans after.terms.1 (works.terms.2 p member).1
  have raised := UInt64.lt_of_lt_of_le (promote_raises promoted) late
  intro q inside
  refine lt_of_term (UInt64.lt_of_le_of_lt ?_ raised)
  rcases List.mem_append.mp inside with former | present
  · exact UInt64.le_trans (old q former) before.terms.1
  · exact (before.terms.2 q present).2

/-- What the log of an engine has given out in all its lives is of no later term. -/
theorem Stands.term_le {berth : Berth} {bound : Nat} {logged : List LoggedEntry} {c : Content}
    (stands : Stands berth m bound logged given c) : ∀ q ∈ given, q.term ≤ term m := by
  intro q member
  obtain ⟨vs, spans, keeps, follows, -⟩ := stands.journal
  have position : m.item.tail = vs.tail := follows.tail.position
  rw [term, position]
  rcases (keeps.marks q member).1 with rfl | ⟨v, inside, same, -⟩
  · exact keeps.standing.steady.rising.term_pos
  · rw [← same]
    exact (keeps.standing.steady.rising.le_tail inside).1

end Engine
end Shiplog
