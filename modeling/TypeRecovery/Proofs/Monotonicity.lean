import TypeRecovery.Proofs.Respect
import TypeRecovery.Proofs.StoreCorrespondence
/-!
Analyses of more observations. What an analysis ends with can be found again wherever its
observations hold, and so in what an analysis of more observations ends with: classes that are one
stay one, and what is known of a class stays known. A type is unknown only where nothing is known.
-/
namespace TypeRecovery

namespace Constraint

theorem eq_empty_of_isEmpty {constraint : Constraint} (empty : constraint.isEmpty = true) :
    ∃ extent, constraint = { extent } := by
  obtain ⟨evidence, _, _, _, _, _, _, _, extent⟩ := constraint
  simp only [isEmpty, hasOwnEvidence, Evidence.isEmpty, Bool.and_eq_true, Bool.not_eq_true',
    Bool.or_eq_false_iff, Bool.not_eq_false', bne_eq_false_iff_eq, Option.isSome_eq_false_iff,
    Option.isNone_iff_eq_none, List.isEmpty_iff, decide_eq_true_eq] at empty
  obtain ⟨⟨⟨⟨⟨⟨⟨rfl, rfl⟩, rfl⟩, rfl⟩, rfl⟩, rfl⟩, rfl⟩, rfl⟩ := empty
  exact ⟨extent, rfl⟩

theorem isEmpty_iff {constraint : Constraint} : constraint.isEmpty = true ↔
    (∀ trait, ¬ constraint.Has trait) ∧ ∀ role cls, ¬ constraint.Refers role cls := by
  constructor
  · intro empty
    obtain ⟨extent, rfl⟩ := eq_empty_of_isEmpty empty
    exact ⟨fun trait has => not_has_empty trait (by cases trait <;> exact has), not_refers_empty⟩
  · rintro ⟨bare, alone⟩
    have slots : constraint.slots = [] := List.eq_nil_iff_forall_not_mem.2 fun slot known =>
      alone (.slot slot.offset slot.size) slot.cls known
    have same : ({ constraint with extent := 0 } : Constraint) = {} :=
      eq_of_has_of_refers (fun trait => iff_of_false (bare trait) (not_has_empty trait))
        (fun role cls => iff_of_false (alone role cls) (not_refers_empty role cls))
        (slots ▸ List.Pairwise.nil) List.Pairwise.nil
    show ({ constraint with extent := 0 } : Constraint).isEmpty = true
    rw [same]
    rfl

end Constraint

namespace Reading

variable {reading : Reading} {constraint : Constraint}

theorem pointer_ne_unknown {target : ClassId} : reading.pointer constraint target ≠ .unknown := by
  unfold pointer
  split <;> exact nofun

theorem aggregate_ne_unknown : reading.aggregate constraint ≠ .unknown := by
  rcases aggregate_cases reading constraint with ⟨_, _, _, _, single⟩ | grouped
  · rw [single]
    exact nofun
  · rw [grouped]
    rcases CType.ofGroups_cases constraint.extent
      (FieldGroup.sweep (constraint.slots.map reading.group)) with ⟨_, _, _, _, union⟩ | struct
    · rw [union]
      exact nofun
    · rw [struct]
      exact nofun

theorem isEmpty_of_scalar (unknown : reading.scalar constraint = .unknown) :
    constraint.isEmpty = true := by
  simp only [scalar] at unknown
  split at unknown
  · cases unknown
  · split at unknown
    · assumption
    · cases unknown

/-- A type is unknown where nothing is known, and nowhere else. -/
theorem type_eq_unknown_iff : reading.type constraint = .unknown ↔ constraint.isEmpty = true := by
  constructor
  · intro unknown
    rcases type_cases reading constraint with void | ⟨_, _, function⟩ | ⟨_, _, pointer⟩ |
      ⟨_, aggregate⟩ | ⟨_, _, scalar⟩
    · cases void.symm.trans unknown
    · cases function.symm.trans unknown
    · exact absurd (pointer.symm.trans unknown) pointer_ne_unknown
    · exact absurd (aggregate.symm.trans unknown) aggregate_ne_unknown
    · exact isEmpty_of_scalar (scalar.symm.trans unknown)
  · intro empty
    obtain ⟨extent, rfl⟩ := Constraint.eq_empty_of_isEmpty empty
    have uncalled : ({ extent } : Constraint).calledAs? = none := by
      unfold Constraint.calledAs?
      split <;> rfl
    have scalar : reading.scalar { extent } = .unknown := by
      simp only [Reading.scalar, empty]
      rfl
    simp [type, uncalled, scalar, Constraint.hasSlots]

end Reading

theorem Store.isEmpty_of_holds {store : Store} {image : ClassId → ClassId} {constraint : Constraint}
    {here : ClassId} (holds : constraint.Holds image store.model here)
    (empty : (store.constraint here).isEmpty = true) : constraint.isEmpty = true := by
  obtain ⟨bare, alone⟩ := Constraint.isEmpty_iff.1 empty
  refine Constraint.isEmpty_iff.2 ⟨fun trait has => bare trait (holds.has trait has), ?_⟩
  intro role cls refers
  obtain ⟨target, known, _⟩ := holds.refers role cls refers
  exact alone role target known

namespace Analysis

variable {observations others : List Observation} {locationCount : Nat} {config : Config}
  {seeded seeded' : Seeding} {final final' : Propagation}

theorem declared_of_classOf? (analysis : Analysis observations locationCount config seeded final)
    {loc : LocId} {cls : ClassId}
    (found : (Typing.ofStore config final.store).classOf? loc = some cls) :
    loc.index < locationCount := by
  rw [← analysis.finalLocationCount]
  apply Nat.lt_of_not_le
  intro undeclared
  simp [Typing.classOf?, Typing.ofStore, undeclared] at found

/-- Every class has an image among the classes that more observations come to, where all that was
known of it is known. -/
theorem exists_image (analysis : Analysis observations locationCount config seeded final)
    (richer : Analysis others locationCount config seeded' final')
    (kept : ∀ observation ∈ observations, observation ∈ others) : ∃ image : ClassId → ClassId,
    (∀ loc : LocId, loc.index < locationCount →
      image loc.initialClass = final'.store.classOf loc) ∧
    final.store.Holds image final'.store.model :=
  analysis.exists_labels richer.unique fun observation member =>
    richer.observed observation (kept observation member)

theorem classOf_eq (analysis : Analysis observations locationCount config seeded final)
    (richer : Analysis others locationCount config seeded' final')
    (kept : ∀ observation ∈ observations, observation ∈ others) {a b : LocId}
    (aDeclared : a.index < locationCount) (bDeclared : b.index < locationCount)
    (same : final.store.classOf a = final.store.classOf b) :
    final'.store.classOf a = final'.store.classOf b := by
  obtain ⟨image, placed, holds⟩ := analysis.exists_image richer kept
  rw [← placed a aDeclared, ← placed b bDeclared, ← holds.root a.initialClass,
    ← holds.root b.initialClass]
  exact congrArg image same

theorem isEmpty_of_richer (analysis : Analysis observations locationCount config seeded final)
    (richer : Analysis others locationCount config seeded' final')
    (kept : ∀ observation ∈ observations, observation ∈ others) {loc : LocId}
    (declared : loc.index < locationCount)
    (empty : (final'.store.constraint (final'.store.classOf loc)).isEmpty = true) :
    (final.store.constraint (final.store.classOf loc)).isEmpty = true := by
  obtain ⟨image, placed, holds⟩ := analysis.exists_image richer kept
  have held := holds.constraint (final.store.classOf loc)
  rw [show image (final.store.classOf loc) = final'.store.classOf loc from
    (holds.root loc.initialClass).trans (placed loc declared)] at held
  exact Store.isEmpty_of_holds held empty

end Analysis

/-- Locations of one class are of one class after more observations, and a type that was known is
known. -/
theorem analyze_accumulates {observations others : List Observation} {locationCount : Nat}
    {config : Config} {schedule again : Schedule} {typing richer : Typing}
    (first : analyze observations locationCount config schedule = .ok typing)
    (second : analyze others locationCount config again = .ok richer)
    (kept : ∀ observation ∈ observations, observation ∈ others) :
    (∀ a b cls, typing.classOf? a = some cls → typing.classOf? b = some cls →
      ∃ shared, richer.classOf? a = some shared ∧ richer.classOf? b = some shared) ∧
    ∀ loc type, typing.typeOf? loc = some type → type ≠ .unknown →
      ∃ refined, richer.typeOf? loc = some refined ∧ refined ≠ .unknown := by
  obtain ⟨seeded, final, analysis, rfl⟩ := analyze_ok first
  obtain ⟨seeded', final', again, rfl⟩ := analyze_ok second
  constructor
  · intro a b cls aFound bFound
    have aDeclared := analysis.declared_of_classOf? aFound
    have bDeclared := analysis.declared_of_classOf? bFound
    rw [analysis.classOf? aDeclared, ← bFound, analysis.classOf? bDeclared,
      Option.some.injEq] at aFound
    have same := Typing.number_injective analysis.finalInside.refers
      (analysis.place_inside aDeclared) (analysis.place_inside bDeclared) aFound
    have joined := analysis.classOf_eq again kept aDeclared bDeclared
      (by simpa only [Store.classOf, Store.root_root] using same)
    exact ⟨_, again.classOf? aDeclared, joined ▸ again.classOf? bDeclared⟩
  · intro loc type found known
    obtain ⟨cls, placed, _⟩ := Option.bind_eq_some_iff.1 found
    have declared := analysis.declared_of_classOf? placed
    rw [analysis.typeOf? declared, Option.some.injEq] at found
    refine ⟨_, again.typeOf? declared, fun unknown => known ?_⟩
    rw [← found]
    rw [Reading.type_eq_unknown_iff] at unknown ⊢
    exact analysis.isEmpty_of_richer again kept declared unknown

def plainCopy : Observation := ⟨⟨4⟩, ⟨0⟩, .assignedFrom ⟨1⟩, none⟩

def loadedCopy : List Observation :=
  [⟨⟨0⟩, ⟨2⟩, .dereference ⟨0⟩ 4 8, none⟩, plainCopy,
    ⟨⟨8⟩, ⟨1⟩, .read 8, some (.pointer (.named "T" .void))⟩]

theorem analyze_accumulates_loadedCopy : ∃ typing richer,
    analyze [plainCopy] 3 {} = .ok typing ∧ analyze loadedCopy 3 {} = .ok richer ∧
      (∃ shared, richer.classOf? ⟨0⟩ = some shared ∧ richer.classOf? ⟨1⟩ = some shared) ∧
      ∃ refined, richer.typeOf? ⟨1⟩ = some refined ∧ refined ≠ .unknown := by
  obtain ⟨typing, first, left, right, known⟩ : ∃ typing, analyze [plainCopy] 3 {} = .ok typing ∧
      typing.classOf? ⟨0⟩ = some ⟨1⟩ ∧ typing.classOf? ⟨1⟩ = some ⟨1⟩ ∧
      typing.typeOf? ⟨1⟩ = some (.primitive ⟨8, none⟩) := ⟨_, rfl, rfl, rfl, rfl⟩
  obtain ⟨richer, second⟩ : ∃ richer, analyze loadedCopy 3 {} = .ok richer := ⟨_, rfl⟩
  have kept : ∀ observation ∈ [plainCopy], observation ∈ loadedCopy := by simp [loadedCopy]
  have both := analyze_accumulates first second kept
  exact ⟨typing, richer, first, second, both.1 ⟨0⟩ ⟨1⟩ ⟨1⟩ left right,
    both.2 ⟨1⟩ _ known nofun⟩

end TypeRecovery
