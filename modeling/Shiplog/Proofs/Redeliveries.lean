import Shiplog.Proofs.Lives

/-!
Records delivered more than once. Of the records that a primary sends, an engine applies
those past its fence and past every record in front of them (`newOf_eq_maxima`), and the
fence moves to the greatest of all (`highest`); so a list may come in parts, and a second
time (`Stands.replays`). A delivery may also be broken off, when the record is in the log, and a
new engine takes the place of the old. Then the record may take effect once more when it
comes again, over a state that has its effect already (`Fed.receive`); whatever comes again, and
however late, the records have the effect of each delivered once (`Stands.schedules`).
-/
namespace Shiplog
namespace Engine

variable {berth : Berth} {m m' : Mounted Engine} {bound : Nat} {logged : List LoggedEntry} {given : List Position}
  {c : Content} {fence : Option Position} {record r : LoggedEntry} {records earlier : List LoggedEntry}

/-! ## What is new -/

/-- The records that lie past the fence and past every record in front of them; some records
    stand in front of the first. -/
def maxima (fence : Option Position) : (earlier records : List LoggedEntry) → List LoggedEntry
  | _, [] => []
  | earlier, record :: rest =>
    if (∀ f ∈ fence, f < record.position) ∧ ∀ r ∈ earlier, r.position < record.position then
      record :: maxima fence (earlier ++ [record]) rest
    else maxima fence (earlier ++ [record]) rest

/-- The greatest of the fence and the positions of some records. -/
def Greatest (fence : Option Position) (records : List LoggedEntry) : Option Position → Prop
  | none => fence = none ∧ records = []
  | some p => (fence = some p ∨ ∃ r ∈ records, r.position = p) ∧ (∀ f ∈ fence, f ≤ p) ∧
      ∀ r ∈ records, r.position ≤ p

/-- The fence after some records. -/
def highest (fence : Option Position) (records : List LoggedEntry) : Option Position :=
  records.foldl (fun fence record => if isOld fence record then fence else some record.position) fence

@[simp] theorem highest_nil (fence : Option Position) : highest fence [] = fence := rfl

@[simp] theorem highest_cons (fence : Option Position) (record : LoggedEntry) (rest : List LoggedEntry) :
    highest fence (record :: rest) = highest (if isOld fence record then fence else some record.position) rest := rfl

theorem highest_append (fence : Option Position) (first second : List LoggedEntry) :
    highest fence (first ++ second) = highest (highest fence first) second := List.foldl_append

theorem isOld_iff : isOld fence record = true ↔ ∃ f, fence = some f ∧ record.position ≤ f := by
  cases fence <;> simp [isOld]

theorem isNew_iff : ¬ isOld fence record = true ↔ ∀ f ∈ fence, f < record.position := by
  cases fence <;> simp [isOld, Position.not_le]

/-- A record is past the greatest of the fence and some positions just when it is past all of
    them. -/
theorem Greatest.isNew {top : Option Position} (greatest : Greatest fence records top) :
    ¬ isOld top record = true ↔
      (∀ f ∈ fence, f < record.position) ∧ ∀ r ∈ records, r.position < record.position := by
  rw [isNew_iff]
  cases top with
  | none =>
    obtain ⟨rfl, rfl⟩ := greatest
    simp
  | some p =>
    obtain ⟨attained, above, all⟩ := greatest
    constructor
    · intro past
      have less : p < record.position := past p rfl
      exact ⟨fun f member => Position.lt_of_le_of_lt (above f member) less,
        fun r member => Position.lt_of_le_of_lt (all r member) less⟩
    · rintro ⟨past, beyond⟩ p' same
      cases same
      rcases attained with same | ⟨r, member, rfl⟩
      · exact past p same
      · exact beyond r member

theorem greatest_highest (fence : Option Position) (records : List LoggedEntry) :
    Greatest fence records (highest fence records) := by
  induction records using List.reverseRecOn with
  | nil => cases fence <;> simp [Greatest, Position.le_refl]
  | append_singleton records record ih =>
    rw [highest_append, highest_cons, highest_nil]
    by_cases old : isOld (highest fence records) record = true
    · obtain ⟨p, top, le⟩ := isOld_iff.mp old
      rw [if_pos old]
      rw [top] at ih ⊢
      obtain ⟨attained, above, all⟩ := ih
      refine ⟨?_, above, ?_⟩
      · rcases attained with same | ⟨r, member, same⟩
        · exact .inl same
        · exact .inr ⟨r, List.mem_append_left _ member, same⟩
      · intro r member
        rcases List.mem_append.mp member with before | last
        · exact all r before
        · rw [List.mem_singleton.mp last]
          exact le
    · obtain ⟨past, beyond⟩ := ih.isNew.mp old
      rw [if_neg old]
      refine ⟨.inr ⟨record, by simp, rfl⟩, fun f member => Position.le_of_lt (past f member), ?_⟩
      intro r member
      rcases List.mem_append.mp member with before | last
      · exact Position.le_of_lt (beyond r before)
      · rw [List.mem_singleton.mp last]
        exact Position.le_refl _

/-- What is applied of some records are those past the fence and past every record in front
    of them. -/
theorem newOf_eq_maxima (fence : Option Position) (earlier records : List LoggedEntry) :
    newOf (highest fence earlier) records = maxima fence earlier records := by
  induction records generalizing earlier with
  | nil => rfl
  | cons record rest ih =>
    have next := ih (earlier ++ [record])
    rw [highest_append, highest_cons, highest_nil] at next
    by_cases old : isOld (highest fence earlier) record = true
    · have within : ¬ ((∀ f ∈ fence, f < record.position) ∧ ∀ r ∈ earlier, r.position < record.position) := by
        rw [← (greatest_highest fence earlier).isNew]
        simpa using old
      rw [newOf, if_pos old, maxima, if_neg within, ← next, if_pos old]
    · rw [newOf, if_neg old, maxima, if_pos ((greatest_highest fence earlier).isNew.mp old), ← next, if_neg old]

theorem newOf_append (fence : Option Position) (first second : List LoggedEntry) :
    newOf fence (first ++ second) = newOf fence first ++ newOf (highest fence first) second := by
  induction first generalizing fence with
  | nil => rfl
  | cons record rest ih =>
    by_cases old : isOld fence record = true
    · simp [newOf, old, ih]
    · simp [newOf, old, ih]

/-- The last of what is applied is the fence from then on. -/
theorem getLast?_newOf (fence : Option Position) (records : List LoggedEntry) :
    ((newOf fence records).map LoggedEntry.position).getLast?.or fence = highest fence records := by
  induction records generalizing fence with
  | nil => rfl
  | cons record rest ih =>
    by_cases old : isOld fence record = true
    · rw [newOf, if_pos old, highest_cons, if_pos old, ih]
    · rw [newOf, if_neg old, highest_cons, if_neg old, ← ih, List.map_cons, List.getLast?_cons]
      cases ((newOf (some record.position) rest).map LoggedEntry.position).getLast? <;> rfl

/-- A record that has come is old. -/
theorem isOld_of_mem (member : record ∈ records) : isOld (highest fence records) record = true := by
  have greatest := greatest_highest fence records
  cases top : highest fence records with
  | none =>
    rw [top] at greatest
    rw [greatest.2] at member
    cases member
  | some p =>
    rw [top] at greatest
    exact isOld_iff.mpr ⟨p, rfl, greatest.2.2 record member⟩

theorem newOf_singleton (fence : Option Position) (record : LoggedEntry) :
    newOf fence [record] = if isOld fence record then [] else [record] := by
  by_cases old : isOld fence record = true <;> simp [newOf, old]

/-- Whether a record is new, and the fence after it, do not depend on a record in front of it
    that lies lower. -/
theorem isOld_past (less : r.position < record.position) :
    isOld (highest fence [r]) record = isOld fence record ∧
      highest (highest fence [r]) [record] = highest fence [record] := by
  by_cases old : isOld fence r = true
  · simp [old]
  · have new : ¬ isOld fence record = true :=
      isNew_iff.mpr fun f member => Position.lt_trans (isNew_iff.mp old f member) less
    have new' : ¬ isOld (some r.position) record = true := isNew_iff.mpr (by simpa using less)
    simp [old, new, new']

/-! ## Lists in parts, and again -/

/-- Records in two parts, the fence carried over. -/
theorem perform_replayFrom_append {fence : Option Position} {first second : List LoggedEntry} {n k : Nat}
    {m₁ m₂ : Mounted Engine} (before : (replayFrom fence first).perform m = (.ok n, m₁))
    (after : (replayFrom (highest fence first) second).perform m₁ = (.ok k, m₂)) :
    (replayFrom fence (first ++ second)).perform m = (.ok (n + k), m₂) := by
  induction first generalizing fence m n with
  | nil =>
    rw [replayFrom, Action.perform_pure] at before
    cases before
    rw [List.nil_append, Nat.zero_add]
    exact after
  | cons record rest ih =>
    rw [List.cons_append, Engine.replayFrom]
    rw [Engine.replayFrom] at before
    by_cases old : isOld fence record = true
    · have test : fence.any (fun f => decide (record.position ≤ f)) = true := old
      rw [if_pos test] at before ⊢
      rw [highest_cons, if_pos old] at after
      exact ih before after
    · have test : ¬ fence.any (fun f => decide (record.position ≤ f)) = true := old
      rw [if_neg test] at before ⊢
      rw [highest_cons, if_neg old] at after
      obtain ⟨⟨⟩, n₁, checked, before⟩ := Action.perform_bind_eq_ok.mp before
      obtain ⟨p, n₂, logs, before⟩ := Action.perform_bind_eq_ok.mp before
      obtain ⟨⟨⟩, n₃, marks, before⟩ := Action.perform_bind_eq_ok.mp before
      obtain ⟨k', n₄, goes, before⟩ := Action.perform_bind_eq_ok.mp before
      rw [Action.perform_pure] at before
      cases before
      simp only [Action.perform_bind, checked, logs, marks, ih goes after, Action.perform_pure]
      congr 2
      omega

/-- What is new of the records takes effect, and the greatest position is the fence. -/
theorem Stands.replay (stands : Stands berth m bound logged given c) (records : List LoggedEntry)
    (fits : ∀ record ∈ records, record.entry.Fits berth.backend) (small : bound + pages records < 2 ^ 64) :
    ∃ m' copies version, (Engine.replay records).perform m = (.ok (newOf c.replicated records).length, m') ∧
      Stands berth m' (bound + pages records) (logged ++ copies) (given ++ copies.map LoggedEntry.position)
        ⟨effects (newOf c.replicated records) c.user, version, highest c.replicated records⟩ ∧
      copies.map LoggedEntry.entry = (newOf c.replicated records).map LoggedEntry.entry ∧
      (copies = [] ∧ m' = m ∧ version = c.version ∨
        version = some m'.item.tail ∧ m'.item.tail ∈ copies.map LoggedEntry.position) := by
  obtain ⟨m', copies, version, done, stands', same, -, moved⟩ := stands.replayFrom records fits small
  rw [getLast?_newOf] at stands'
  exact ⟨m', copies, version, by rw [stands.perform_replay, done], stands', same, moved⟩

/-- Records that are old change nothing. -/
theorem Stands.replay_old (stands : Stands berth m bound logged given c)
    (old : ∀ r ∈ records, isOld c.replicated r = true) : (Engine.replay records).perform m = (.ok 0, m) := by
  rw [stands.perform_replay]
  induction records with
  | nil => rfl
  | cons record rest ih =>
    have test : c.replicated.any (fun f => decide (record.position ≤ f)) = true := old record List.mem_cons_self
    rw [Engine.replayFrom, if_pos test]
    exact ih fun r member => old r (List.mem_cons_of_mem record member)

/-! ## Deliveries broken off -/

/-- A record that reaches the engine. -/
inductive Receipt where
  | whole (record : LoggedEntry)
  /-- The engine dies at some stage of applying the record, and a new one recovers over the
      same files and the same store. -/
  | broken (record : LoggedEntry) (stage : Stage record.entry) (limit : UInt64)

namespace Receipt

def brings : Receipt → LoggedEntry
  | whole record | broken record _ _ => record

def IsBroken : Receipt → Prop
  | whole _ => False
  | broken _ _ _ => True

/-- The pages that a receipt may write, and a file. -/
def cost (x : Receipt) : Nat := x.brings.entry.pages + 1

end Receipt

/-- What a record that reaches the engine does to it. A record at or below the fence is passed
    over, so there is nothing to break off. -/
def receive : Receipt → Action (Mounted Engine) Unit
  | .whole record => do let _ ← replay [record]
  | .broken record stage limit => do
    unless isOld (← Mounted.reading replicated) record do stage.breakOff
    Action.ofStep fun m => (.ok (), reopen limit m)
    let _ ← recover

/-- An account of the records that have come. -/
structure Account where
  /-- Each record once, in the order in which they came first. -/
  seen : List LoggedEntry
  /-- The last record, if it was broken off when it came first and has not come whole since. -/
  doubt : Option LoggedEntry

namespace Account

def next (a : Account) : Receipt → Account
  | .whole record =>
    if record ∈ a.seen then if a.doubt = some record then ⟨a.seen, none⟩ else a else ⟨a.seen ++ [record], none⟩
  | .broken record _ _ => if record ∈ a.seen then a else ⟨a.seen ++ [record], some record⟩

/-- A record has come before, or lies past all that have. One that is broken off is in the log
    by then, and it is the only one in doubt. -/
def Admits (a : Account) : Receipt → Prop
  | .whole record => record ∈ a.seen ∨ ∀ r ∈ a.seen, r.position < record.position
  | .broken record stage _ => stage.isLogged = true ∧
      (record ∈ a.seen ∨ a.doubt = none ∧ ∀ r ∈ a.seen, r.position < record.position)

/-- Records come for the first time in ascending order, and again at any time. -/
def Orderly : Account → List Receipt → Prop
  | _, [] => True
  | a, x :: rest => a.Admits x ∧ (a.next x).Orderly rest

def after (a : Account) (receipts : List Receipt) : Account := receipts.foldl next a

/-- What an engine holds after the records of an account: the effect of each once, and a fence
    at the greatest position, or in front of the record in doubt. -/
structure Shows (a : Account) (start : Content) (user : OrderedMap Bytes Bytes) (fence : Option Position) : Prop where
  ascending : a.seen.Pairwise fun r r' => r.position < r'.position
  user : user = effects (newOf start.replicated a.seen) start.user
  fence : fence = highest start.replicated a.seen ∨ ∃ init last, a.seen = init ++ [last] ∧ a.doubt = some last ∧
    fence = highest start.replicated init

variable {a : Account} {start : Content} {user : OrderedMap Bytes Bytes}

theorem shows_empty (start : Content) : Shows ⟨[], none⟩ start start.user start.replicated :=
  ⟨.nil, rfl, .inl rfl⟩

/-- A record past all others is new just when it would be after all of them. -/
theorem Shows.past (shows_ : a.Shows start user fence) (beyond : ∀ r ∈ a.seen, r.position < record.position) :
    isOld (highest start.replicated a.seen) record = isOld fence record ∧
      highest start.replicated (a.seen ++ [record]) = highest fence [record] := by
  rw [highest_append]
  rcases shows_.fence with rfl | ⟨init, last, seen, -, rfl⟩
  · exact ⟨rfl, rfl⟩
  · have less : last.position < record.position := beyond last (by simp [seen])
    rw [seen, highest_append]
    exact isOld_past less

theorem Shows.pairwise_snoc (shows_ : a.Shows start user fence) (beyond : ∀ r ∈ a.seen, r.position < record.position) :
    (a.seen ++ [record]).Pairwise fun r r' => r.position < r'.position := by
  rw [List.pairwise_append]
  refine ⟨shows_.ascending, List.pairwise_singleton _ _, ?_⟩
  intro r member r' last
  rw [List.mem_singleton.mp last]
  exact beyond r member

/-- A record that has come and is new all the same is the one in doubt. -/
theorem Shows.in_doubt (shows_ : a.Shows start user fence) (sorted : start.user.Sorted) (member : record ∈ a.seen)
    (new : ¬ isOld fence record = true) :
    a.doubt = some record ∧ highest fence [record] = highest start.replicated a.seen ∧
      record.entry.effect user = user := by
  rcases shows_.fence with rfl | ⟨init, last, seen, doubt, rfl⟩
  · exact absurd (isOld_of_mem member) new
  · rw [seen] at member
    rcases List.mem_append.mp member with before | same
    · exact absurd (isOld_of_mem before) new
    · obtain rfl := List.mem_singleton.mp same
      refine ⟨doubt, by rw [seen, highest_append], ?_⟩
      have whole : user = effects [record] (effects (newOf start.replicated init) start.user) := by
        rw [shows_.user, seen, newOf_append, effects_append, newOf_singleton, if_neg new]
      rw [whole]
      exact effects_twice (sorted_effects sorted _) [record]

/-- If the record in doubt is old, none is in doubt. -/
theorem Shows.covered (shows_ : a.Shows start user fence) (old : isOld fence record = true)
    (doubt : a.doubt = some record) : fence = highest start.replicated a.seen := by
  rcases shows_.fence with same | ⟨init, last, seen, doubt', rfl⟩
  · exact same
  · rw [doubt, Option.some.injEq] at doubt'
    subst doubt'
    rw [seen, highest_append, highest_cons, if_pos old, highest_nil]

theorem Shows.whole (shows_ : a.Shows start user fence) (sorted : start.user.Sorted) (admits : a.Admits (.whole record)) :
    (a.next (.whole record)).Shows start (effects (newOf fence [record]) user) (highest fence [record]) := by
  by_cases member : record ∈ a.seen
  · by_cases old : isOld fence record = true
    · rw [newOf_singleton, if_pos old, highest_cons, if_pos old, highest_nil]
      by_cases doubt : a.doubt = some record
      · have fence := shows_.covered old doubt
        simp only [next, if_pos member, if_pos doubt]
        exact ⟨shows_.ascending, shows_.user, .inl fence⟩
      · simp only [next, if_pos member, if_neg doubt]
        exact shows_
    · obtain ⟨doubt, fence, twice⟩ := shows_.in_doubt sorted member old
      simp only [next, if_pos member, if_pos doubt]
      refine ⟨shows_.ascending, ?_, .inl fence⟩
      rw [newOf_singleton, if_neg old]
      exact twice.trans shows_.user
  · have beyond := admits.resolve_left member
    obtain ⟨same, fence⟩ := shows_.past beyond
    simp only [next, if_neg member]
    refine ⟨shows_.pairwise_snoc beyond, ?_, .inl fence.symm⟩
    rw [newOf_append, effects_append, ← shows_.user, newOf_singleton, newOf_singleton, same]

theorem Shows.broken {stage : Stage record.entry} {limit : UInt64} (shows_ : a.Shows start user fence)
    (sorted : start.user.Sorted) (admits : a.Admits (.broken record stage limit)) :
    (a.next (.broken record stage limit)).Shows start (effects (newOf fence [record]) user) fence := by
  by_cases member : record ∈ a.seen
  · simp only [next, if_pos member]
    refine ⟨shows_.ascending, ?_, shows_.fence⟩
    by_cases old : isOld fence record = true
    · rw [newOf_singleton, if_pos old]
      exact shows_.user
    · rw [newOf_singleton, if_neg old]
      exact (shows_.in_doubt sorted member old).2.2.trans shows_.user
  · obtain ⟨certain, beyond⟩ := admits.2.resolve_left member
    have top : fence = highest start.replicated a.seen := by
      rcases shows_.fence with same | ⟨init, last, -, doubt, -⟩
      · exact same
      · rw [certain] at doubt
        cases doubt
    simp only [next, if_neg member]
    refine ⟨shows_.pairwise_snoc beyond, ?_, .inr ⟨a.seen, record, rfl, rfl, top⟩⟩
    rw [newOf_append, effects_append, ← shows_.user, top]

end Account

/-- The version lies within the log, and no record comes after it. -/
def Settled (m : Mounted Engine) (logged : List LoggedEntry) (given : List Position) (version : Option Position) : Prop :=
  ∃ p, version = some p ∧ p ∈ given ∧ p ≤ m.item.tail ∧ ∀ r ∈ logged, r.position ≤ p

/-- An engine that has come up, and whose changes have all gone through, is settled. -/
theorem Lasts.settles (lasts : Lasts berth m bound logged given c) (up : m.item.log.mounted = true) :
    Settled m logged given c.version := by
  obtain ⟨p, version, within, covers⟩ := lasts.settled up
  exact ⟨p, version, lasts.known p version, within, covers⟩

theorem Stands.settled (stands : Stands berth m bound logged given c) (version : c.version = some m.item.tail)
    (known : m.item.tail ∈ given) : Settled m logged given c.version :=
  ⟨_, version, known, Position.le_refl _, fun r member => (stands.sorted.2 r member).2⟩

/-- A new engine in the place of one whose store takes the records after its version. -/
theorem Stands.reopen (stands : Stands berth m bound logged given c) {v : Position} (version : c.version = some v)
    (known : v ∈ given) (fits : ∀ r ∈ logged, v < r.position → r.entry.Fits berth.backend) (small : bound + 1 < 2 ^ 64)
    (limit : UInt64) :
    ∃ m' tail, recover.perform (reopen limit m) = (.ok tail, m') ∧
      Stands berth m' (bound + 1) logged (given ++ [tail]) ⟨effects (later v logged) c.user, some tail, c.replicated⟩ ∧
      Settled m' logged (given ++ [tail]) (some tail) := by
  have rests := stands.rests.reopen limit
  obtain ⟨log, mount, -⟩ := rests.perform_mount small
  have after : ∀ r ∈ logged, c.version.getD .start < r.position → r.entry.Fits berth.backend := by
    rw [version]
    exact fits
  obtain ⟨m', done, stands', tail, -⟩ := rests.recover_later small after mount fun p same => .inl (by
    rw [version] at same
    cases same
    exact known)
  rw [version] at stands'
  refine ⟨m', _, done, stands', ?_⟩
  have last := stands'.settled (by rw [tail]) (by simp [tail])
  exact last

/-- An engine that dies at a stage of a change with its entry in the log comes back with the
    entry's effect. -/
theorem Stands.breakOff (stands : Stands berth m bound logged given c) (settled : Settled m logged given c.version)
    {entry : Entry} (fits : entry.Fits berth.backend) (small : bound + entry.pages + 1 < 2 ^ 64) {stage : Stage entry}
    (whole : stage.isLogged = true) (limit : UInt64) :
    ∃ m₁ m' tail logged' given', stage.breakOff.perform m = (.ok (), m₁) ∧
      recover.perform (Engine.reopen limit m₁) = (.ok tail, m') ∧
      Stands berth m' (bound + entry.pages + 1) logged' given' ⟨entry.effect c.user, some tail, c.replicated⟩ ∧
      Settled m' logged' given' (some tail) := by
  obtain ⟨p, version, known, inside, covers⟩ := settled
  have one_later (q : Position) (less : p < q) : later p (logged ++ [⟨q, entry⟩]) = [⟨q, entry⟩] := by
    rw [later_append_of_le covers, later_eq_self]
    simpa using less
  have fits_later (q : Position) : ∀ r ∈ logged ++ [⟨q, entry⟩], p < r.position → r.entry.Fits berth.backend := by
    intro r member late
    rcases List.mem_append.mp member with old | new
    · exact absurd late (Position.not_lt.mpr (covers r old))
    · rw [List.mem_singleton.mp new]
      exact fits
  cases stage with
  | writing pages part => cases whole
  | logged =>
    obtain ⟨m₁, done, stands₁, less, -⟩ := stands.log entry (by omega)
    obtain ⟨m', tail, recovers, stands', settled'⟩ :=
      stands₁.reopen version (List.mem_append_left _ known) (fits_later _) small limit
    rw [one_later _ (Position.lt_of_le_of_lt inside less)] at stands'
    refine ⟨m₁, m', tail, _, _, ?_, recovers, stands', settled'⟩
    rw [Stage.breakOff, Action.perform_bind, done]
    rfl
  | applied =>
    obtain ⟨m₁, done, stands₁, less, -⟩ := stands.log entry (by omega)
    obtain ⟨m₂, applied, stands₂, -⟩ := stands₁.apply fits.client fits.accepted
    obtain ⟨m', tail, recovers, stands', settled'⟩ :=
      stands₂.reopen version (List.mem_append_left _ known) (fits_later _) small limit
    rw [one_later _ (Position.lt_of_le_of_lt inside less)] at stands'
    have twice := effects_twice stands.bears.sorted [⟨m₁.item.tail, entry⟩]
    rw [show entry.effect c.user = effects [⟨m₁.item.tail, entry⟩] c.user from rfl, twice] at stands'
    refine ⟨m₂, m', tail, _, _, ?_, recovers, stands', settled'⟩
    rw [Stage.breakOff, Action.perform_bind, done]
    exact applied
  | marked =>
    obtain ⟨m₁, done, stands₁, less⟩ := stands.change fits (by omega)
    have all := fun r member => (stands₁.sorted.2 r member).2
    obtain ⟨m', tail, recovers, stands', settled'⟩ := stands₁.reopen rfl (by simp)
      (fun r member late => absurd late (Position.not_lt.mpr (all r member))) small limit
    rw [later_eq_nil all] at stands'
    refine ⟨m₁, m', tail, _, _, ?_, recovers, stands', settled'⟩
    rw [Stage.breakOff, Action.perform_bind, done]
    rfl

/-- An engine that the records of an account have reached. -/
structure Fed (berth : Berth) (start : Content) (m : Mounted Engine) (bound : Nat) (logged : List LoggedEntry)
    (given : List Position) (c : Content) (a : Account) : Prop where
  stands : Stands berth m bound logged given c
  shows_ : a.Shows start c.user c.replicated

variable {start : Content} {a : Account}

/-- A record that reaches the engine is accounted for; an engine that is settled stays so. -/
theorem Fed.receive (fed : Fed berth start m bound logged given c a) (sorted : start.user.Sorted) {x : Receipt}
    (fits : x.brings.entry.Fits berth.backend) (small : bound + x.cost < 2 ^ 64) (admits : a.Admits x)
    (calm : x.IsBroken → Settled m logged given c.version) :
    ∃ m' logged' given' c', (Engine.receive x).perform m = (.ok (), m') ∧
      Fed berth start m' (bound + x.cost) logged' given' c' (a.next x) ∧
      (Settled m logged given c.version → Settled m' logged' given' c'.version) := by
  obtain ⟨stands, shows_⟩ := fed
  cases x with
  | whole record =>
    have one : pages [record] = record.entry.pages := by simp [pages]
    have cost : (Receipt.whole record).cost = record.entry.pages + 1 := rfl
    obtain ⟨m', copies, version, done, stands', -, moved⟩ := stands.replay [record]
      (fun r member => List.mem_singleton.mp member ▸ fits) (by omega)
    refine ⟨m', _, _, _, ?_, ⟨stands'.mono (by omega) small, shows_.whole sorted admits⟩, ?_⟩
    · rw [Engine.receive, Action.perform_bind, done]
      rfl
    · rintro ⟨p, marked, known, inside, covers⟩
      rcases moved with ⟨rfl, rfl, rfl⟩ | ⟨rfl, last⟩
      · exact ⟨p, marked, by simpa using known, inside, by simpa using covers⟩
      · exact stands'.settled rfl (List.mem_append_right _ last)
  | broken record stage limit =>
    have settled := calm trivial
    have fits : record.entry.Fits berth.backend := fits
    have cost : (Receipt.broken record stage limit).cost = record.entry.pages + 1 := rfl
    have after : (a.next (.broken record stage limit)).Shows start _ _ := shows_.broken sorted admits
    have read := stands.replicated
    by_cases old : isOld c.replicated record = true
    · -- The record is passed over, and the new engine has nothing to apply.
      obtain ⟨p, version, known, inside, covers⟩ := settled
      obtain ⟨m', tail, recovers, stands', settled'⟩ := stands.reopen version known
        (fun r member late => absurd late (Position.not_lt.mpr (covers r member))) (by omega) limit
      rw [later_eq_nil covers] at stands'
      rw [newOf_singleton, if_pos old] at after
      refine ⟨m', _, _, _, ?_, ⟨stands'.mono (by omega) small, after⟩, fun _ => settled'⟩
      simp [Engine.receive, Action.perform_bind, read, old, recovers, Except.map]
    · obtain ⟨m₁, m', tail, logged', given', broken, recovers, stands', settled'⟩ :=
        stands.breakOff settled fits (by omega) admits.1 limit
      rw [newOf_singleton, if_neg old] at after
      refine ⟨m', _, _, _, ?_, ⟨stands', after⟩, fun _ => settled'⟩
      simp [Engine.receive, Action.perform_bind, read, old, broken, recovers, Except.map]

def costs (receipts : List Receipt) : Nat := (receipts.map Receipt.cost).sum

theorem Fed.run (fed : Fed berth start m bound logged given c a) (sorted : start.user.Sorted) (receipts : List Receipt)
    (fits : ∀ x ∈ receipts, x.brings.entry.Fits berth.backend) (small : bound + costs receipts < 2 ^ 64)
    (orderly : a.Orderly receipts) (calm : (∃ x ∈ receipts, x.IsBroken) → Settled m logged given c.version) :
    ∃ m' logged' given' c', (receipts.forM Engine.receive).perform m = (.ok (), m') ∧
      Fed berth start m' (bound + costs receipts) logged' given' c' (a.after receipts) := by
  induction receipts generalizing m bound logged given c a with
  | nil => exact ⟨m, logged, given, c, rfl, fed⟩
  | cons x rest ih =>
    have sum : costs (x :: rest) = x.cost + costs rest := rfl
    obtain ⟨m₁, logged₁, given₁, c₁, done, fed₁, stays⟩ := fed.receive sorted (fits x List.mem_cons_self) (by omega)
      orderly.1 fun broken => calm ⟨x, List.mem_cons_self, broken⟩
    obtain ⟨m', logged', given', c', goes, fed'⟩ := ih fed₁ (fun y member => fits y (List.mem_cons_of_mem x member))
      (by omega) orderly.2 fun ⟨y, member, broken⟩ => stays (calm ⟨y, List.mem_cons_of_mem x member, broken⟩)
    refine ⟨m', logged', given', c', ?_, ?_⟩
    · rw [Action.perform_forM_cons, done]
      exact goes
    · rw [sum, ← Nat.add_assoc]
      exact fed'

/-! ## Each record once -/

namespace Account

theorem seen_next (a : Account) (x : Receipt) :
    (a.next x).seen = if x.brings ∈ a.seen then a.seen else a.seen ++ [x.brings] := by
  cases x with
  | whole record =>
    by_cases member : record ∈ a.seen
    · by_cases doubt : a.doubt = some record <;> simp [next, Receipt.brings, member, doubt]
    · simp [next, Receipt.brings, member]
  | broken record stage limit =>
    by_cases member : record ∈ a.seen <;> simp [next, Receipt.brings, member]

theorem mem_after (receipts : List Receipt) :
    r ∈ (a.after receipts).seen ↔ r ∈ a.seen ∨ ∃ x ∈ receipts, x.brings = r := by
  induction receipts generalizing a with
  | nil => simp [after]
  | cons x rest ih =>
    have step : r ∈ (a.next x).seen ↔ r ∈ a.seen ∨ x.brings = r := by
      rw [seen_next]
      by_cases member : x.brings ∈ a.seen
      · rw [if_pos member]
        constructor
        · exact .inl
        · rintro (old | rfl)
          · exact old
          · exact member
      · simp [if_neg member, eq_comm]
    change r ∈ ((a.next x).after rest).seen ↔ _
    rw [ih, step, or_assoc]
    simp

/-- Each record once takes no more pages than the records as they come. -/
theorem pages_after_le (receipts : List Receipt) : pages (a.after receipts).seen ≤ pages a.seen + costs receipts := by
  induction receipts generalizing a with
  | nil => simp [after, costs]
  | cons x rest ih =>
    have sum : costs (x :: rest) = x.brings.entry.pages + 1 + costs rest := rfl
    have step : pages (a.next x).seen ≤ pages a.seen + x.brings.entry.pages := by
      rw [seen_next]
      by_cases member : x.brings ∈ a.seen
      · simp [member]
      · simp [member, pages]
    have later := @ih (a.next x)
    change pages ((a.next x).after rest).seen ≤ _
    omega

end Account

/-! ## What a primary sends -/

/-- What comes of the records that a primary sends to an engine. -/
structure Replays (berth : Berth) (m : Mounted Engine) (bound : Nat) (logged : List LoggedEntry)
    (given : List Position) (c : Content) : Prop where
  /-- Of any records, those past the fence and past every record in front of them are logged and
      take effect in order, and the fence moves to the greatest position. Once more, they
      change nothing. -/
  applies : ∀ records, (∀ record ∈ records, record.entry.Fits berth.backend) → bound + pages records < 2 ^ 64 →
    ∃ m' copies top, (replay records).perform m = (.ok (maxima c.replicated [] records).length, m') ∧
      logsAfter .start m'.disk m'.item = .ok (logged ++ copies) ∧
      copies.map LoggedEntry.entry = (maxima c.replicated [] records).map LoggedEntry.entry ∧
      clients m'.disk m'.item = .ok (effects (maxima c.replicated [] records) c.user).entries ∧
      replicated m'.disk m'.item = .ok top ∧ Greatest c.replicated records top ∧
      (replay records).perform m' = (.ok 0, m')
  /-- Records may come in two parts. -/
  parts : ∀ first second, (∀ record ∈ first ++ second, record.entry.Fits berth.backend) →
    bound + pages (first ++ second) < 2 ^ 64 →
    ∃ n k m₁ m₂, (replay first).perform m = (.ok n, m₁) ∧ (replay second).perform m₁ = (.ok k, m₂) ∧
      (replay (first ++ second)).perform m = (.ok (n + k), m₂)
  /-- Records that come for the first time in ascending order, and again at any time, have the
      effect of each once, even if the engine dies while it applies one of them. -/
  schedules : ∀ receipts : List Receipt, (∀ x ∈ receipts, x.brings.entry.Fits berth.backend) →
    bound + costs receipts < 2 ^ 64 → Account.Orderly ⟨[], none⟩ receipts →
    ((∃ x ∈ receipts, x.IsBroken) → Settled m logged given c.version) →
    ∃ once n m' m'' entries, (∀ record, record ∈ once ↔ ∃ x ∈ receipts, x.brings = record) ∧
      once.Pairwise (fun r r' => r.position < r'.position) ∧
      (receipts.forM receive).perform m = (.ok (), m') ∧ (replay once).perform m = (.ok n, m'') ∧
      clients m'.disk m'.item = .ok entries ∧ clients m''.disk m''.item = .ok entries
  /-- An engine that is up and whose changes all went through may die so. -/
  settled : Lasts berth m bound logged given c → m.item.log.mounted = true → Settled m logged given c.version

theorem Stands.parts (stands : Stands berth m bound logged given c) (first second : List LoggedEntry)
    (fits : ∀ record ∈ first ++ second, record.entry.Fits berth.backend)
    (small : bound + pages (first ++ second) < 2 ^ 64) :
    ∃ n k m₁ m₂, (Engine.replay first).perform m = (.ok n, m₁) ∧ (Engine.replay second).perform m₁ = (.ok k, m₂) ∧
      (Engine.replay (first ++ second)).perform m = (.ok (n + k), m₂) := by
  have sum : pages (first ++ second) = pages first + pages second := by simp [pages]
  obtain ⟨m₁, copies, version, before, stands₁, -⟩ := stands.replay first
    (fun r member => fits r (List.mem_append_left _ member)) (by omega)
  obtain ⟨m₂, copies', version', after, -⟩ := stands₁.replay second
    (fun r member => fits r (List.mem_append_right _ member)) (by omega)
  refine ⟨_, _, m₁, m₂, before, after, ?_⟩
  rw [stands.perform_replay] at before ⊢
  rw [stands₁.perform_replay] at after
  exact perform_replayFrom_append before after

theorem Stands.schedules (stands : Stands berth m bound logged given c) (receipts : List Receipt)
    (fits : ∀ x ∈ receipts, x.brings.entry.Fits berth.backend) (small : bound + costs receipts < 2 ^ 64)
    (orderly : Account.Orderly ⟨[], none⟩ receipts)
    (calm : (∃ x ∈ receipts, x.IsBroken) → Settled m logged given c.version) :
    ∃ once n m' m'' entries, (∀ record, record ∈ once ↔ ∃ x ∈ receipts, x.brings = record) ∧
      once.Pairwise (fun r r' => r.position < r'.position) ∧
      (receipts.forM Engine.receive).perform m = (.ok (), m') ∧ (Engine.replay once).perform m = (.ok n, m'') ∧
      Engine.clients m'.disk m'.item = .ok entries ∧ Engine.clients m''.disk m''.item = .ok entries := by
  have begun : Fed berth c m bound logged given c ⟨[], none⟩ := ⟨stands, Account.shows_empty c⟩
  obtain ⟨m', logged', given', c', done, fed⟩ := begun.run stands.bears.sorted receipts fits small orderly calm
  have brought : ∀ record, record ∈ (Account.after ⟨[], none⟩ receipts).seen ↔ ∃ x ∈ receipts, x.brings = record := by
    intro record
    simp [Account.mem_after]
  have once_fits : ∀ record ∈ (Account.after ⟨[], none⟩ receipts).seen, record.entry.Fits berth.backend := by
    intro record member
    obtain ⟨x, inside, rfl⟩ := (brought record).mp member
    exact fits x inside
  have few : pages (Account.after ⟨[], none⟩ receipts).seen ≤ pages [] + costs receipts :=
    Account.pages_after_le receipts
  have none_yet : pages [] = 0 := rfl
  obtain ⟨m'', copies, version, replayed, stands', -⟩ :=
    stands.replay (Account.after ⟨[], none⟩ receipts).seen once_fits (by omega)
  refine ⟨_, _, m', m'', c'.user.entries, brought, fed.shows_.ascending, done, replayed, fed.stands.clients, ?_⟩
  rw [stands'.clients, fed.shows_.user]

/-- Whatever a primary sends to an engine that is up is applied once. -/
theorem Stands.replays (stands : Stands berth m bound logged given c) (counted : ∀ r ∈ logged, r.entry.Counted) :
    Replays berth m bound logged given c where
  applies := by
    intro records fits small
    obtain ⟨m', copies, version, done, stands', same, -⟩ := stands.replay records fits small
    have all_counted : ∀ r ∈ logged ++ copies, r.entry.Counted := by
      intro r member
      rcases List.mem_append.mp member with old | new
      · exact counted r old
      · have entry : r.entry ∈ (newOf c.replicated records).map LoggedEntry.entry := by
          rw [← same]
          exact List.mem_map_of_mem new
        obtain ⟨record, fresh, equal⟩ := List.mem_map.mp entry
        rw [← equal]
        exact (fits record (mem_newOf fresh)).counted
    have logs := stands'.logsAfter all_counted (.inl rfl) stands'.journal.start_le
    rw [later_eq_self fun r member => (stands'.sorted.2 r member).1] at logs
    rw [← newOf_eq_maxima c.replicated [] records, highest_nil]
    exact ⟨m', copies, _, done, logs, same, stands'.clients, stands'.replicated, greatest_highest _ _,
      stands'.replay_old fun r member => isOld_of_mem member⟩
  parts := stands.parts
  schedules := stands.schedules
  settled := Lasts.settles

/-- An engine that has been started over an empty directory. -/
theorem Stands.replays_at_start : ∃ m p, Stands ⟨[""], [], .memory, trivial⟩ m 1 [] [p] ⟨.empty, some p, none⟩ ∧
    (∀ r ∈ ([] : List LoggedEntry), r.entry.Counted) ∧ Settled m [] [p] (some p) ∧
    Replays ⟨[""], [], .memory, trivial⟩ m 1 [] [p] ⟨.empty, some p, none⟩ := by
  obtain ⟨m, p, stands, tail⟩ := exists_stands
  have settled := stands.settled (by rw [tail]) (by simp [tail])
  exact ⟨m, p, stands, by simp, settled, stands.replays (by simp)⟩

end Engine
end Shiplog
