import TypeRecovery.Proofs.DeclaredParts
import TypeRecovery.Proofs.ObservedParts
import TypeRecovery.Proofs.StoreCorrespondence
/-!
What conflicts keep. A conflict is between two declarations of its class, and the greater of them
was kept. So where a class has no more than two, all its conflicts are the same one, and there is
one exactly when the two disagree, in whatever order they came.

Of all conflicts about a class one at least has kept what the class is declared as in the end, and
none has kept more. One that kept less was overtaken later, and what it tells of the outcome is not
what came out.
-/
namespace TypeRecovery

def AtMostTwo {Value : Type} (values : Set Value) : Prop :=
  ∀ x ∈ values, ∀ y ∈ values, ∀ z ∈ values, x = y ∨ x = z ∨ y = z

namespace Topic

/-- Declarations of the sort are told apart by their order, and a conflict tells which two met. -/
structure Strict {Value : Type} (topic : Topic Value) : Prop where
  read_eq : ∀ {a b : Constraint}, a.SameDeclared b → topic.read b = topic.read a
  antisymm : ∀ {x y}, topic.le x y → topic.le y x → x = y
  pairs : ∀ {a b kept dropped}, topic.conflict kept dropped ∈ a.conflicts b → ∃ x y,
    topic.read a = some x ∧ topic.read b = some y ∧ ¬ topic.Agree x y ∧
      (kept = x ∧ dropped = y ∧ topic.le y x ∨ kept = y ∧ dropped = x ∧ topic.le x y)

theorem strict_width : width.Strict where
  read_eq same := same.width
  antisymm := UInt8.le_antisymm
  pairs {a b kept dropped} member := by
    obtain ⟨x, left, y, right, apart, rfl, rfl⟩ : ∃ x, a.declaredWidth = some x ∧
        ∃ y, b.declaredWidth = some y ∧ x ≠ y ∧ kept = max x y ∧ dropped = min x y := by
      simpa [width, Constraint.mem_conflicts] using member
    refine ⟨x, y, left, right, apart, ?_⟩
    by_cases below : x ≤ y
    · exact Or.inr ⟨if_pos below, if_pos below, below⟩
    · exact Or.inl ⟨if_neg below, if_neg below, (UInt8.le_total y x).resolve_right below⟩

theorem strict_kind : kind.Strict where
  read_eq same := same.kind
  antisymm below above := Kind.eq_of_strength (Nat.le_antisymm below above)
  pairs {a b kept dropped} member := by
    obtain ⟨x, left, y, right, apart, rfl, rfl⟩ : ∃ x, a.declaredKind = some x ∧
        ∃ y, b.declaredKind = some y ∧ ¬ x.Compatible y ∧ kept = max x y ∧ dropped = min x y := by
      simpa [kind, Constraint.mem_conflicts] using member
    refine ⟨x, y, left, right, apart, ?_⟩
    by_cases below : x.strength ≤ y.strength
    · exact Or.inr ⟨if_pos below, if_pos below, below⟩
    · exact Or.inl ⟨if_neg below, if_neg below, Nat.le_of_not_le below⟩

theorem strict_arity : arity.Strict where
  read_eq same := same.arity
  antisymm := Nat.le_antisymm
  pairs {a b kept dropped} member := by
    obtain ⟨x, left, y, right, apart, rfl, rfl⟩ : ∃ x, a.arity = some x ∧
        ∃ y, b.arity = some y ∧ x ≠ y ∧ kept = max x y ∧ dropped = min x y := by
      simpa [arity, Constraint.mem_conflicts] using member
    refine ⟨x, y, left, right, apart, ?_⟩
    rcases Nat.le_total x y with below | above
    · exact Or.inr ⟨Nat.max_eq_right below, Nat.min_eq_left below, below⟩
    · exact Or.inl ⟨Nat.max_eq_left above, Nat.min_eq_right above, above⟩

end Topic

namespace Account

variable {Value : Type} {topic : Topic Value} {a b : Account}

theorem Tally.of_read_eq {parts : Set Constraint} {disputes : Set Conflict} {a b : Constraint}
    (tally : Tally topic ⟨parts, a, disputes⟩) (same : topic.read b = topic.read a) :
    Tally topic ⟨parts, b, disputes⟩ where
  utmost := by
    have utmost := tally.utmost
    rw [← same] at utmost
    exact utmost
  kept := tally.kept
  disputed := tally.disputed
  settled nonempty := by
    have settled := tally.settled nonempty
    simp only [← same] at settled
    exact settled

/-- Each conflict is between two declarations of the class, of which the greater was kept. -/
structure Paired (topic : Topic Value) (account : Account) : Prop where
  tally : Tally topic account
  pair : ∀ kept dropped, topic.conflict kept dropped ∈ account.disputes →
    kept ∈ topic.declaredValues account ∧ dropped ∈ topic.declaredValues account ∧
      ¬ topic.Agree kept dropped ∧
      topic.le dropped kept

theorem Paired.join (strict : topic.Strict) (left : Paired topic a) (right : Paired topic b) :
    Paired topic (a.join b) where
  tally := (law_tally topic).join left.tally right.tally
  pair kept dropped held := by
    rw [topic.declaredValues_join]
    -- A conflict was there on one side, or came of what the two sides declare.
    rcases held with (held | held) | met
    · obtain ⟨keptDeclared, droppedDeclared, apart⟩ := left.pair kept dropped held
      exact ⟨Or.inl keptDeclared, Or.inl droppedDeclared, apart⟩
    · obtain ⟨keptDeclared, droppedDeclared, apart⟩ := right.pair kept dropped held
      exact ⟨Or.inr keptDeclared, Or.inr droppedDeclared, apart⟩
    · obtain ⟨x, y, first, second, apart, ⟨rfl, rfl, below⟩ | ⟨rfl, rfl, below⟩⟩ :=
        strict.pairs met
      · exact ⟨Or.inl (left.tally.mem_of_read first), Or.inr (right.tally.mem_of_read second),
          apart, below⟩
      · exact ⟨Or.inr (right.tally.mem_of_read second), Or.inl (left.tally.mem_of_read first),
          fun agree => apart (topic.agree.symm agree), below⟩

theorem declaredLaw_paired (strict : topic.Strict) : DeclaredLaw (Paired topic) where
  blank := ⟨(law_tally topic).blank, fun _ _ held => absurd held (Set.notMem_empty _)⟩
  single part := ⟨(law_tally topic).single part, fun _ _ held => absurd held (Set.notMem_empty _)⟩
  join := .join strict
  of_sameDeclared paired same := ⟨paired.tally.of_read_eq (strict.read_eq same), paired.pair⟩

namespace Paired

theorem exists_dispute_iff (left : Paired topic a) (right : Paired topic b)
    (same : topic.declaredValues a = topic.declaredValues b) :
    (∃ kept dropped, topic.conflict kept dropped ∈ a.disputes) ↔
      ∃ kept dropped, topic.conflict kept dropped ∈ b.disputes := by
  have disputed := left.tally.disputed
  rw [same] at disputed
  exact disputed.trans right.tally.disputed.symm

theorem eq_of_disputes (strict : topic.Strict) (left : Paired topic a) (right : Paired topic b)
    (same : topic.declaredValues a = topic.declaredValues b)
    (few : AtMostTwo (topic.declaredValues a))
    {kept dropped kept' dropped' : Value} (held : topic.conflict kept dropped ∈ a.disputes)
    (held' : topic.conflict kept' dropped' ∈ b.disputes) : kept = kept' ∧ dropped = dropped' := by
  obtain ⟨keptDeclared, droppedDeclared, apart, below⟩ := left.pair kept dropped held
  obtain ⟨keptDeclared', droppedDeclared', apart', below'⟩ := right.pair kept' dropped' held'
  rw [← same] at keptDeclared' droppedDeclared'
  have different : kept ≠ dropped := fun equal => apart (equal ▸ topic.agree.refl kept)
  have different' : kept' ≠ dropped' := fun equal => apart' (equal ▸ topic.agree.refl kept')
  -- Each conflict has both of the declarations that there are, and the order tells which was kept.
  have one := (few _ keptDeclared _ droppedDeclared _ keptDeclared').resolve_left different
  have other := (few _ keptDeclared _ droppedDeclared _ droppedDeclared').resolve_left different
  rcases one with rfl | rfl
  · exact ⟨rfl, other.resolve_left different'⟩
  · cases other.resolve_right different'
    exact absurd (strict.antisymm below' below) different

end Paired

def Regular (account : Account) : Prop :=
  ∀ ⦃Value : Type⦄ ⦃topic : Topic Value⦄, topic.Strict → Paired topic account

def SameDeclaredValues (a b : Account) : Prop :=
  ∀ ⦃Value : Type⦄ ⦃topic : Topic Value⦄, topic.Strict →
    topic.declaredValues a = topic.declaredValues b

/-- No three declarations of one sort are different. -/
structure Few (account : Account) : Prop where
  width : AtMostTwo (Topic.width.declaredValues account)
  kind : AtMostTwo (Topic.kind.declaredValues account)
  arity : AtMostTwo (Topic.arity.declaredValues account)

theorem Regular.exists_of_code (left : a.Regular) (right : b.Regular)
    (same : a.SameDeclaredValues b)
    {conflict : Conflict} (held : conflict ∈ a.disputes) :
    ∃ other ∈ b.disputes, other.code = conflict.code := by
  cases conflict with
  | width kept dropped =>
    obtain ⟨_, _, held'⟩ := ((left Topic.strict_width).exists_dispute_iff
      (right Topic.strict_width) (same Topic.strict_width)).1 ⟨kept, dropped, held⟩
    exact ⟨_, held', rfl⟩
  | kind kept dropped =>
    obtain ⟨_, _, held'⟩ := ((left Topic.strict_kind).exists_dispute_iff
      (right Topic.strict_kind) (same Topic.strict_kind)).1 ⟨kept, dropped, held⟩
    exact ⟨_, held', rfl⟩
  | arity kept dropped =>
    obtain ⟨_, _, held'⟩ := ((left Topic.strict_arity).exists_dispute_iff
      (right Topic.strict_arity) (same Topic.strict_arity)).1 ⟨kept, dropped, held⟩
    exact ⟨_, held', rfl⟩

/-- Of few declarations there is no more than one conflict of a sort, and it is the same one
wherever the declarations are the same. -/
theorem Regular.eq_of_code (left : a.Regular) (right : b.Regular) (same : a.SameDeclaredValues b)
    (few : a.Few) {conflict other : Conflict} (held : conflict ∈ a.disputes)
    (held' : other ∈ b.disputes) (code : conflict.code = other.code) : conflict = other := by
  cases conflict with
  | width kept dropped =>
    cases other with
    | width kept' dropped' =>
      obtain ⟨rfl, rfl⟩ := (left Topic.strict_width).eq_of_disputes Topic.strict_width
        (right Topic.strict_width) (same Topic.strict_width) few.width held held'
      rfl
    | kind => cases code
    | arity => cases code
  | kind kept dropped =>
    cases other with
    | width => cases code
    | kind kept' dropped' =>
      obtain ⟨rfl, rfl⟩ := (left Topic.strict_kind).eq_of_disputes Topic.strict_kind
        (right Topic.strict_kind) (same Topic.strict_kind) few.kind held held'
      rfl
    | arity => cases code
  | arity kept dropped =>
    cases other with
    | width => cases code
    | kind => cases code
    | arity kept' dropped' =>
      obtain ⟨rfl, rfl⟩ := (left Topic.strict_arity).eq_of_disputes Topic.strict_arity
        (right Topic.strict_arity) (same Topic.strict_arity) few.arity held held'
      rfl

theorem SameDeclaredValues.symm (same : a.SameDeclaredValues b) : b.SameDeclaredValues a :=
  fun _ _ strict => (same strict).symm

theorem Regular.disputes_eq (left : a.Regular) (right : b.Regular) (same : a.SameDeclaredValues b)
    (few : a.Few) : a.disputes = b.disputes := by
  ext conflict
  constructor
  · intro held
    obtain ⟨other, held', code⟩ := left.exists_of_code right same held
    rwa [left.eq_of_code right same few held held' code.symm]
  · intro held'
    obtain ⟨other, held, code⟩ := right.exists_of_code left same.symm held'
    rwa [← left.eq_of_code right same few held held' code]

end Account

namespace Store

/-- A conflict about a class has kept what the class is declared as, unless another conflict about
it has kept more. -/
structure Retains (store : Store) : Prop where
  width : ∀ cls kept dropped, .width kept dropped ∈ store.about store.disputes cls →
    ((store.constraint cls).declaredWidth = some kept ↔
      ∀ more less, .width more less ∈ store.about store.disputes cls → more ≤ kept)
  /-- A primitive may have been kept before the class was declared a pointer as well. -/
  kind : ∀ cls kept dropped, .kind kept dropped ∈ store.about store.disputes cls →
    ∃ final, (store.constraint cls).declaredKind = some final ∧ kept.strength ≤ final.strength ∧
      ((∀ more less, .kind more less ∈ store.about store.disputes cls →
        more.strength ≤ kept.strength) → kept.Compatible final)
  arity : ∀ cls kept dropped, .arity kept dropped ∈ store.about store.disputes cls →
    ((store.constraint cls).arity = some kept ↔
      ∀ more less, .arity more less ∈ store.about store.disputes cls → more ≤ kept)

end Store

theorem Analysis.retains {observations : List Observation} {locationCount : Nat} {config : Config}
    {seeded : Seeding} {final : Propagation}
    (analysis : Analysis observations locationCount config seeded final) :
    final.store.Retains := by
  obtain ⟨record, lawful, _⟩ := analysis.exists_record
  have widths := lawful (Account.declaredLaw_paired Topic.strict_width)
  have kinds := lawful (Account.declaredLaw_paired Topic.strict_kind)
  have arities := lawful (Account.declaredLaw_paired Topic.strict_arity)
  exact {
    width := fun cls _ _ held => (widths.good cls).tally.read_eq_iff (fun _ _ same => same) held
    kind := fun cls _ _ held => (kinds.good cls).tally.retains held
    arity := fun cls _ _ held => (arities.good cls).tally.read_eq_iff (fun _ _ same => same) held }

/-- When an analysis succeeds, what a conflict about a class has kept is what the class is declared
as in the end, unless another conflict about it has kept more. -/
theorem analyze_retains {observations : List Observation} {locationCount : Nat} {config : Config}
    {schedule : Schedule} {typing : Typing}
    (ok : analyze observations locationCount config schedule = .ok typing) :
    typing = .ofStore config (analyzedStore observations locationCount config schedule) ∧
      (analyzedStore observations locationCount config schedule).Retains := by
  obtain ⟨seeded, final, analysis, last, same⟩ := analyze_ok_store ok
  rw [← last]
  exact ⟨same, analysis.retains⟩

def widening : List Observation :=
  [⟨⟨0⟩, ⟨0⟩, .read 1, some (.int 1 none)⟩, ⟨⟨4⟩, ⟨0⟩, .read 2, some (.int 2 none)⟩,
    ⟨⟨8⟩, ⟨0⟩, .read 4, some (.int 4 none)⟩]

theorem analyze_retains_widening : ∃ typing, analyze widening 1 {} = .ok typing ∧
    typing = .ofStore {} (analyzedStore widening 1 {}) ∧ (analyzedStore widening 1 {}).Retains := by
  have ok : ∃ typing, analyze widening 1 {} = .ok typing := ⟨_, rfl⟩
  obtain ⟨typing, ok⟩ := ok
  exact ⟨typing, ok, analyze_retains ok⟩

/-- The first conflict keeps two bytes, and says so, but four are what the class has. -/
theorem analyze_not_retained : ∃ typing, analyze widening 1 {} = .ok typing ∧
    let store := analyzedStore widening 1 {}
    .width 2 1 ∈ store.about store.disputes ⟨0⟩ ∧
      (store.constraint ⟨0⟩).declaredWidth = some 4 ∧
      (Conflict.width 2 1).diagnostic ⟨1⟩ ∈ typing.diagnostics ∧
      typing.typeOf? ⟨0⟩ = some (.primitive ⟨4, none⟩) :=
  ⟨_, rfl, ⟨⟨0⟩, by decide, rfl⟩, by decide, by decide, by decide⟩

end TypeRecovery
