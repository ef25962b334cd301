import TypeRecovery.Proofs.Contributions
/-!
Conflicts are recorded when declarations disagree, and only then. Of all that was declared of a
class just one declaration is kept, so not every two of them ever meet. But agreeing is an
equivalence: where two disagree, at least one of them disagrees with the one that was kept when it
came, and the conflict is recorded then, on a class that is one with theirs.
-/
namespace TypeRecovery

namespace Conflict

def between {Value : Type} (Agree : Value → Value → Prop) [DecidableRel Agree]
    (conflict : Value → Value → Conflict) : Option Value → Option Value → List Conflict
  | some a, some b => if Agree a b then [] else [conflict a b]
  | _, _ => []

theorem mem_between {Value : Type} {Agree : Value → Value → Prop} [DecidableRel Agree]
    {make : Value → Value → Conflict} {a b : Option Value} {conflict : Conflict} :
    conflict ∈ between Agree make a b ↔
      ∃ x y, a = some x ∧ b = some y ∧ ¬ Agree x y ∧ conflict = make x y := by
  unfold between
  split
  · split <;> simp [*]
  · rename_i apart
    simp only [List.not_mem_nil, false_iff]
    rintro ⟨x, y, rfl, rfl, _⟩
    exact apart x y rfl rfl

theorem ofWidths_eq (a b : Option UInt8) :
    ofWidths a b = between Eq (fun x y => width (max x y) (min x y)) a b := by
  cases a <;> cases b <;> rfl

theorem ofKinds_eq (a b : Option Kind) :
    ofKinds a b = between Kind.Compatible (fun x y => kind (max x y) (min x y)) a b := by
  cases a <;> cases b <;> rfl

theorem ofArities_eq (a b : Option Nat) :
    ofArities a b = between Eq (fun x y => arity (max x y) (min x y)) a b := by
  cases a <;> cases b <;> rfl

end Conflict

theorem Constraint.mem_conflicts {a b : Constraint} {conflict : Conflict} :
    conflict ∈ a.conflicts b ↔
      (∃ x y, a.declaredWidth = some x ∧ b.declaredWidth = some y ∧ x ≠ y ∧
        conflict = .width (max x y) (min x y)) ∨
      (∃ x y, a.declaredKind = some x ∧ b.declaredKind = some y ∧ ¬ x.Compatible y ∧
        conflict = .kind (max x y) (min x y)) ∨
      ∃ x y, a.arity = some x ∧ b.arity = some y ∧ x ≠ y ∧
        conflict = .arity (max x y) (min x y) := by
  rw [conflicts, Conflict.ofWidths_eq, Conflict.ofKinds_eq, Conflict.ofArities_eq,
    List.mem_append, List.mem_append, Conflict.mem_between, Conflict.mem_between,
    Conflict.mem_between, or_assoc]
  rfl

theorem Kind.compatible_equivalence : Equivalence Kind.Compatible where
  refl _ := Or.inl rfl
  symm {a b} compatible := by
    cases a <;> cases b <;> simp_all [Compatible]
  trans {a b c} first second := by
    cases a <;> cases b <;> cases c <;> simp_all [Compatible]

/-- A sort of declarations, of which a class keeps one. -/
structure Topic (Value : Type) where
  read : Constraint → Option Value
  le : Value → Value → Prop
  choose : Value → Value → Value
  Agree : Value → Value → Prop
  /-- The conflict in which the first of two declarations was kept. -/
  conflict : Value → Value → Conflict
  takes : Takes le choose
  agree : Equivalence Agree
  convex : ∀ {a b c}, le a b → le b c → Agree a c → Agree b c
  bare : read {} = none
  joins : ∀ a b, read (a.join b) = (read a).merge choose (read b)
  disputed : ∀ {a b kept}, (∃ dropped, conflict kept dropped ∈ a.conflicts b) ↔
    ∃ x y, read a = some x ∧ read b = some y ∧ ¬ Agree x y ∧ kept = choose x y

namespace Topic

def width : Topic UInt8 where
  read := Constraint.declaredWidth
  le a b := a ≤ b
  choose := max
  Agree := Eq
  conflict := .width
  takes := takes_max_width
  agree := eq_equivalence
  convex first second same := UInt8.le_antisymm second (same ▸ first)
  bare := rfl
  joins _ _ := rfl
  disputed := by simp [Constraint.mem_conflicts]

def kind : Topic Kind where
  read := Constraint.declaredKind
  le a b := a.strength ≤ b.strength
  choose := max
  Agree := Kind.Compatible
  conflict := .kind
  takes := takes_max_kind
  agree := Kind.compatible_equivalence
  convex {a b c} first second agree := by
    cases a <;> cases b <;> cases c <;> simp_all [Kind.strength, Kind.Compatible]
  bare := rfl
  joins _ _ := rfl
  disputed := by simp [Constraint.mem_conflicts]

def arity : Topic Nat where
  read := Constraint.arity
  le a b := a ≤ b
  choose := max
  Agree := Eq
  conflict := .arity
  takes := takes_max_arity
  agree := eq_equivalence
  convex first second same := Nat.le_antisymm second (same ▸ first)
  bare := rfl
  joins := Constraint.arity_join
  disputed := by simp [Constraint.mem_conflicts]

variable {Value : Type} (topic : Topic Value)

def declaredValues (account : Account) : Set Value := Account.values topic.read account.parts

def kept (account : Account) : Set Value :=
  {kept | ∃ dropped, topic.conflict kept dropped ∈ account.disputes}

theorem declaredValues_join (a b : Account) :
    topic.declaredValues (a.join b) = topic.declaredValues a ∪ topic.declaredValues b :=
  Account.values_union ..

theorem mem_kept_join {a b : Account} {value : Value} : value ∈ topic.kept (a.join b) ↔
    (value ∈ topic.kept a ∨ value ∈ topic.kept b) ∨
      ∃ x y, topic.read a.total = some x ∧ topic.read b.total = some y ∧ ¬ topic.Agree x y ∧
        value = topic.choose x y := by
  rw [← topic.disputed]
  constructor
  · rintro ⟨dropped, (left | right) | met⟩
    · exact Or.inl (Or.inl ⟨dropped, left⟩)
    · exact Or.inl (Or.inr ⟨dropped, right⟩)
    · exact Or.inr ⟨dropped, met⟩
  · rintro ((⟨dropped, left⟩ | ⟨dropped, right⟩) | ⟨dropped, met⟩)
    · exact ⟨dropped, Or.inl (Or.inl left)⟩
    · exact ⟨dropped, Or.inl (Or.inr right)⟩
    · exact ⟨dropped, Or.inr met⟩

theorem agree_choose {x y : Value} (agree : topic.Agree x y) :
    topic.Agree x (topic.choose x y) ∧ topic.Agree y (topic.choose x y) := by
  rcases topic.takes.either x y with ⟨chosen, _⟩ | ⟨chosen, _⟩
  · rw [chosen]
    exact ⟨topic.agree.refl x, topic.agree.symm agree⟩
  · rw [chosen]
    exact ⟨agree, topic.agree.refl y⟩

theorem agree_join {a b : Constraint}
    (agree : ∀ x y, topic.read a = some x → topic.read b = some y → topic.Agree x y) {value : Value}
    (one : topic.read a = some value ∨ topic.read b = some value) :
    ∃ total, topic.read (a.join b) = some total ∧ topic.Agree value total := by
  rw [topic.joins]
  cases left : topic.read a with
  | none =>
    rw [left] at one
    rw [Option.merge_none_left]
    exact ⟨value, one.resolve_left nofun, topic.agree.refl value⟩
  | some x =>
    cases right : topic.read b with
    | none =>
      rw [left, right] at one
      rw [Option.merge_none_right]
      exact ⟨value, one.resolve_right nofun, topic.agree.refl value⟩
    | some y =>
      rw [left, right] at one
      refine ⟨topic.choose x y, rfl, ?_⟩
      have both := topic.agree_choose (agree x y left right)
      rcases one with same | same
      · cases same
        exact both.1
      · cases same
        exact both.2

end Topic

namespace Account

variable {Value : Type} {topic : Topic Value} {a b : Account}

/-- The declarations of one sort that a class has, and the conflicts among them. -/
structure Tally (topic : Topic Value) (account : Account) : Prop where
  utmost : Utmost topic.le (topic.declaredValues account) (topic.read account.total)
  kept : topic.kept account ⊆ topic.declaredValues account
  disputed : (topic.kept account).Nonempty ↔
    ∃ x ∈ topic.declaredValues account, ∃ y ∈ topic.declaredValues account, ¬ topic.Agree x y
  /-- Some conflict was settled in favour of what is kept in the end. -/
  settled : (topic.kept account).Nonempty → ∃ value ∈ topic.kept account, ∃ total,
    topic.read account.total = some total ∧ topic.Agree value total

namespace Tally

theorem read_of_mem (tally : Tally topic a) {value : Value}
    (declared : value ∈ topic.declaredValues a) :
    ∃ total ∈ topic.declaredValues a, topic.read a.total = some total := by
  have utmost := tally.utmost
  cases found : topic.read a.total with
  | none =>
    rw [found] at utmost
    rw [show topic.declaredValues a = ∅ from utmost] at declared
    exact declared.elim
  | some total =>
    rw [found] at utmost
    exact ⟨total, utmost.1, rfl⟩

theorem mem_of_read (tally : Tally topic a) {value : Value}
    (found : topic.read a.total = some value) : value ∈ topic.declaredValues a := by
  have utmost := tally.utmost
  rw [found] at utmost
  exact utmost.1

theorem le_of_kept (tally : Tally topic a) {value final : Value} (kept : value ∈ topic.kept a)
    (found : topic.read a.total = some final) : topic.le value final := by
  have utmost := tally.utmost
  rw [found] at utmost
  exact utmost.2 value (tally.kept kept)

/-- What was kept in a conflict is at most what is kept in the end, and agrees with that when no
other conflict kept more. -/
theorem retains (tally : Tally topic a) {kept dropped : Value}
    (held : topic.conflict kept dropped ∈ a.disputes) :
    ∃ final, topic.read a.total = some final ∧ topic.le kept final ∧
      ((∀ more less, topic.conflict more less ∈ a.disputes → topic.le more kept) →
        topic.Agree kept final) := by
  obtain ⟨value, ⟨less, valueHeld⟩, final, found, agree⟩ := tally.settled ⟨kept, dropped, held⟩
  have below := tally.le_of_kept ⟨dropped, held⟩ found
  exact ⟨final, found, below, fun utmost => topic.convex (utmost value less valueHeld) below agree⟩

theorem read_eq_iff (tally : Tally topic a) (exact : ∀ x y, topic.Agree x y → x = y)
    {kept dropped : Value} (held : topic.conflict kept dropped ∈ a.disputes) :
    topic.read a.total = some kept ↔
      ∀ more less, topic.conflict more less ∈ a.disputes → topic.le more kept := by
  -- By `retains` the last declaration agrees with the one kept, so here it is the same.
  constructor
  · intro last more less other
    exact tally.le_of_kept ⟨less, other⟩ last
  · intro utmost
    obtain ⟨final, found, _, reached⟩ := tally.retains held
    rw [found, exact kept final (reached utmost)]

theorem noticed (left : Tally topic a) (right : Tally topic b) {x y : Value}
    (leftDeclared : x ∈ topic.declaredValues a) (rightDeclared : y ∈ topic.declaredValues b)
    (apart : ¬ topic.Agree x y) :
    (topic.kept (a.join b)).Nonempty := by
  -- Agreeing is an equivalence. So if the declarations that were kept agree when the classes meet,
  -- then on one side a declaration had met a kept one that it disagrees with.
  obtain ⟨known, knownDeclared, knownRead⟩ := left.read_of_mem leftDeclared
  obtain ⟨other, otherDeclared, otherRead⟩ := right.read_of_mem rightDeclared
  by_cases met : topic.Agree known other
  · by_cases before : topic.Agree x known
    · have after : ¬ topic.Agree other y := fun agree =>
        apart (topic.agree.trans before (topic.agree.trans met agree))
      obtain ⟨value, kept⟩ := right.disputed.2 ⟨other, otherDeclared, y, rightDeclared, after⟩
      exact ⟨value, topic.mem_kept_join.2 (Or.inl (Or.inr kept))⟩
    · obtain ⟨value, kept⟩ := left.disputed.2 ⟨x, leftDeclared, known, knownDeclared, before⟩
      exact ⟨value, topic.mem_kept_join.2 (Or.inl (Or.inl kept))⟩
  · exact ⟨_, topic.mem_kept_join.2 (Or.inr ⟨known, other, knownRead, otherRead, met, rfl⟩)⟩

theorem kept_join (left : Tally topic a) (right : Tally topic b) :
    topic.kept (a.join b) ⊆ topic.declaredValues (a.join b) := by
  intro value kept
  rw [topic.declaredValues_join]
  rcases topic.mem_kept_join.1 kept with (held | held) | ⟨x, y, first, second, _, rfl⟩
  · exact Or.inl (left.kept held)
  · exact Or.inr (right.kept held)
  · rcases topic.takes.either x y with ⟨chosen, _⟩ | ⟨chosen, _⟩
    · rw [chosen]
      exact Or.inl (left.mem_of_read first)
    · rw [chosen]
      exact Or.inr (right.mem_of_read second)

theorem disputed_join (left : Tally topic a) (right : Tally topic b) :
    (topic.kept (a.join b)).Nonempty ↔
      ∃ x ∈ topic.declaredValues (a.join b), ∃ y ∈ topic.declaredValues (a.join b),
        ¬ topic.Agree x y := by
  rw [topic.declaredValues_join]
  constructor
  · rintro ⟨value, kept⟩
    rcases topic.mem_kept_join.1 kept with (held | held) | ⟨x, y, first, second, apart, _⟩
    · obtain ⟨x, xDeclared, y, yDeclared, apart⟩ := left.disputed.1 ⟨value, held⟩
      exact ⟨x, Or.inl xDeclared, y, Or.inl yDeclared, apart⟩
    · obtain ⟨x, xDeclared, y, yDeclared, apart⟩ := right.disputed.1 ⟨value, held⟩
      exact ⟨x, Or.inr xDeclared, y, Or.inr yDeclared, apart⟩
    · exact ⟨x, Or.inl (left.mem_of_read first), y, Or.inr (right.mem_of_read second), apart⟩
  · rintro ⟨x, xDeclared | xDeclared, y, yDeclared | yDeclared, apart⟩
    · obtain ⟨value, kept⟩ := left.disputed.2 ⟨x, xDeclared, y, yDeclared, apart⟩
      exact ⟨value, topic.mem_kept_join.2 (Or.inl (Or.inl kept))⟩
    · exact left.noticed right xDeclared yDeclared apart
    · exact left.noticed right yDeclared xDeclared fun agree => apart (topic.agree.symm agree)
    · obtain ⟨value, kept⟩ := right.disputed.2 ⟨x, xDeclared, y, yDeclared, apart⟩
      exact ⟨value, topic.mem_kept_join.2 (Or.inl (Or.inr kept))⟩

theorem settled_join (left : Tally topic a) (right : Tally topic b)
    (nonempty : (topic.kept (a.join b)).Nonempty) :
    ∃ value ∈ topic.kept (a.join b), ∃ total, topic.read (a.join b).total = some total ∧
      topic.Agree value total := by
  by_cases agree : ∀ x y, topic.read a.total = some x → topic.read b.total = some y →
      topic.Agree x y
  · have onward {value known : Value} (kept : value ∈ topic.kept (a.join b))
        (one : topic.read a.total = some known ∨ topic.read b.total = some known)
        (same : topic.Agree value known) : ∃ value ∈ topic.kept (a.join b), ∃ total,
          topic.read (a.join b).total = some total ∧ topic.Agree value total := by
      obtain ⟨total, found, close⟩ := topic.agree_join agree one
      exact ⟨value, kept, total, found, topic.agree.trans same close⟩
    obtain ⟨value, kept⟩ := nonempty
    rcases topic.mem_kept_join.1 kept with (held | held) | ⟨x, y, first, second, apart, _⟩
    · obtain ⟨value, kept, known, found, same⟩ := left.settled ⟨value, held⟩
      exact onward (topic.mem_kept_join.2 (Or.inl (Or.inl kept))) (Or.inl found) same
    · obtain ⟨value, kept, known, found, same⟩ := right.settled ⟨value, held⟩
      exact onward (topic.mem_kept_join.2 (Or.inl (Or.inr kept))) (Or.inr found) same
    · exact absurd (agree x y first second) apart
  · simp only [not_forall] at agree
    obtain ⟨x, y, first, second, apart⟩ := agree
    refine ⟨topic.choose x y, topic.mem_kept_join.2 (Or.inr ⟨x, y, first, second, apart, rfl⟩),
      topic.choose x y, ?_, topic.agree.refl _⟩
    show topic.read (a.total.join b.total) = _
    rw [topic.joins, first, second]
    rfl

end Tally

theorem tally_of_undisputed
    (utmost : Utmost topic.le (topic.declaredValues a) (topic.read a.total)) (none : a.disputes = ∅)
    (agree : ∀ x ∈ topic.declaredValues a, ∀ y ∈ topic.declaredValues a, topic.Agree x y) :
    Tally topic a := by
  have unrecorded : topic.kept a = ∅ := by
    unfold Topic.kept
    rw [none]
    exact Set.eq_empty_of_forall_notMem fun _ ⟨_, absent⟩ => absent
  have nothing : ¬ (topic.kept a).Nonempty := unrecorded ▸ Set.not_nonempty_empty
  refine ⟨utmost, unrecorded ▸ Set.empty_subset _, iff_of_false nothing ?_,
    fun some => absurd some nothing⟩
  rintro ⟨x, xDeclared, y, yDeclared, apart⟩
  exact apart (agree x xDeclared y yDeclared)

theorem law_tally (topic : Topic Value) : Law (Tally topic) := by
  have law := law_utmost topic.read topic.takes topic.bare topic.joins
  refine ⟨tally_of_undisputed law.blank rfl ?_,
    fun part => tally_of_undisputed (law.single part) rfl ?_, fun left right =>
      ⟨law.join left.utmost right.utmost, left.kept_join right, left.disputed_join right,
        left.settled_join right⟩⟩
  · rintro _ ⟨_, absent, _⟩
    exact absent.elim
  · -- One part declares one value.
    rintro x ⟨_, rfl, first⟩ y ⟨_, rfl, second⟩
    rw [Option.some.inj (first.symm.trans second)]
    exact topic.agree.refl y

/-- Conflicts tell of all declarations that disagree, and of nothing else. -/
structure Reports (account : Account) : Prop where
  width : (∃ kept dropped, .width kept dropped ∈ account.disputes) ↔
    ∃ a ∈ account.parts, ∃ b ∈ account.parts, ∃ x y,
      a.declaredWidth = some x ∧ b.declaredWidth = some y ∧ x ≠ y
  kind : (∃ kept dropped, .kind kept dropped ∈ account.disputes) ↔
    ∃ a ∈ account.parts, ∃ b ∈ account.parts, ∃ x y,
      a.declaredKind = some x ∧ b.declaredKind = some y ∧ ¬ x.Compatible y
  arity : (∃ kept dropped, .arity kept dropped ∈ account.disputes) ↔
    ∃ a ∈ account.parts, ∃ b ∈ account.parts, ∃ x y,
      a.arity = some x ∧ b.arity = some y ∧ x ≠ y

theorem Tally.exists_dispute_iff (tally : Tally topic a) :
    (∃ kept dropped, topic.conflict kept dropped ∈ a.disputes) ↔
      ∃ first ∈ a.parts, ∃ second ∈ a.parts, ∃ x y,
        topic.read first = some x ∧ topic.read second = some y ∧ ¬ topic.Agree x y := by
  refine tally.disputed.trans ⟨?_, ?_⟩
  · rintro ⟨x, ⟨first, firstIn, xRead⟩, y, ⟨second, secondIn, yRead⟩, apart⟩
    exact ⟨first, firstIn, second, secondIn, x, y, xRead, yRead, apart⟩
  · rintro ⟨first, firstIn, second, secondIn, x, y, xRead, yRead, apart⟩
    exact ⟨x, ⟨first, firstIn, xRead⟩, y, ⟨second, secondIn, yRead⟩, apart⟩

end Account

namespace Store

/-- After any calls from the start, a conflict is recorded on some class that is one with `cls`
exactly when two parts contributed to such classes disagree. -/
theorem callAll_reports {count : Nat} {calls : List (Call Edit)}
    (admits : (withLocations count).Admits Edit.apply calls) (cls : ClassId) :
    (((withLocations count).callAll Edit.apply calls).account
      ((withLocations count).parts calls) cls).Reports where
  width := (account_callAll (Account.law_tally .width) admits cls).exists_dispute_iff
  kind := (account_callAll (Account.law_tally .kind) admits cls).exists_dispute_iff
  arity := (account_callAll (Account.law_tally .arity) admits cls).exists_dispute_iff

def declarations : List (Call Edit) :=
  [.fresh { declaredKind := some .primitive, declaredWidth := some 4 },
    .refine ⟨0⟩ { declaredKind := some .pointer, declaredWidth := some 8 },
    .refine ⟨1⟩ { declaredKind := some .function, signature := some ⟨some [⟨0⟩], ⟨1⟩⟩ },
    .union ⟨0⟩ ⟨2⟩, .union ⟨2⟩ ⟨1⟩]

theorem callAll_reports_declarations : (withLocations 2).Admits Edit.apply declarations ∧
    (((withLocations 2).callAll Edit.apply declarations).account
      ((withLocations 2).parts declarations) ⟨1⟩).Reports := by
  have admits : (withLocations 2).Admits Edit.apply declarations := by decide
  exact ⟨admits, callAll_reports admits ⟨1⟩⟩

end Store
end TypeRecovery
