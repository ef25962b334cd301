import Mathlib.Logic.Relation
import TypeRecovery.Proofs.AnalysisOutcome
import TypeRecovery.Proofs.CollectedEvents
import TypeRecovery.Proofs.FieldGroups
import TypeRecovery.Proofs.TypingClasses
/-!
Containment. A class holds another one by value when its type is that class's type or has it for a
field or an alternative. What holds others is memory that a pointer leads to, and what is held is
the value of a location or of a declared part. No class is both, so that nothing holds itself,
unless a typedef's name brings the two together. That takes a name that stands for void behind one
pointer and for a value elsewhere.
-/
namespace TypeRecovery

/-- What the name of a typedef stands for where it is used. -/
inductive Usage where
  | value
  /-- The void that a pointer leads to. -/
  | target
deriving DecidableEq

namespace Hint

def behind (inner : Hint) : Option Usage :=
  match inner.underlying with
  | .void => some .target
  | .function .. => none
  | _ => some .value

mutual
/-- The names in a hint and what they stand for, the names of functions behind pointers aside. Those
of the hint as a whole stand for `usage`. -/
def usages (usage : Option Usage) : Hint → List (Usage × String)
  | void | int .. => []
  | pointer inner => usages inner.behind inner
  | function _ params ret => usagesOfAll params ++ usages (some .value) ret
  | named name definition =>
    (usage.map fun usage => (usage, name)).toList ++ usages usage definition

def usagesOfAll : List Hint → List (Usage × String)
  | [] => []
  | hint :: rest => usages (some .value) hint ++ usagesOfAll rest
end

/-- Every name stands for one thing in all of the hints, each the hint of a location. -/
def Unmixed (hints : List Hint) : Prop :=
  ∀ use ∈ hints.flatMap (usages (some .value)), ∀ other ∈ hints.flatMap (usages (some .value)),
    use.2 = other.2 → use.1 = other.1

instance (hints : List Hint) : Decidable (Unmixed hints) := inferInstanceAs (Decidable (∀ _ ∈ _, _))

theorem Unmixed.mono {hints fewer : List Hint} (unmixed : Unmixed hints)
    (listed : ∀ hint ∈ fewer, hint ∈ hints) : Unmixed fewer := by
  have used {use : Usage × String} (member : use ∈ fewer.flatMap (usages (some .value))) :
      use ∈ hints.flatMap (usages (some .value)) := by
    obtain ⟨hint, known, member⟩ := List.mem_flatMap.1 member
    exact List.mem_flatMap.2 ⟨hint, listed hint known, member⟩
  exact fun use member other member' => unmixed use (used member) other (used member')

theorem behind_of_sized {pointerSize size : UInt8} {inner : Hint}
    (sized : inner.size pointerSize = some size) : inner.behind = some .value := by
  unfold behind
  induction inner using underlying.induct with
  | case1 name definition ih => exact ih sized
  | case2 inner unnamed =>
    cases inner with
    | named name definition => exact absurd rfl (unnamed name definition)
    | void => cases sized
    | function name params ret => cases sized
    | _ => rfl

theorem behind_of_unsized {pointerSize : UInt8} {inner : Hint}
    (unsized : inner.size pointerSize = none) : inner.behind = some .target ∨
      inner.behind = none ∧ ∃ name params ret, inner.underlying = .function name params ret := by
  unfold behind
  induction inner using underlying.induct with
  | case1 name definition ih => exact ih unsized
  | case2 inner unnamed =>
    cases inner with
    | named name definition => exact absurd rfl (unnamed name definition)
    | void => exact Or.inl rfl
    | function name params ret => exact Or.inr ⟨rfl, name, params, ret, rfl⟩
    | _ => cases unsized

end Hint

namespace Scene

variable {Label : Type}

/-- A scene whose labels tell besides whether a pointer leads there. `plain` labels never count as
such, for they may be anything without holding anything. The names of void are `pointed`. -/
def targeted (scene : Scene Label) (plain : Label → Prop) (pointed : String → Prop) :
    Scene (Label × Prop) where
  has here trait := scene.has here.1 trait
  refers here role target := scene.refers here.1 role target.1 ∧ match role with
    | .pointee => target.2 ↔ ¬ plain target.1
    | .slot .. => (here.2 ∨ plain here.1) ∧ ¬ target.2
    | .param _ | .result => ¬ target.2
  place loc := (scene.place loc, False)
  named name := (scene.named name, pointed name ∧ ¬ plain (scene.named name))

variable {scene : Scene Label} {plain : Label → Prop} {pointed : String → Prop}
  {pointerSize : UInt8}

theorem targeted_unique (unique : scene.Unique) : (scene.targeted plain pointed).Unique := by
  rintro here role ⟨target, led⟩ ⟨other, led'⟩ ⟨refers, first⟩ ⟨refers', second⟩
  have same : target = other := unique refers refers'
  subst same
  refine congrArg (target, ·) (propext ?_)
  cases role with
  | pointee => exact first.trans second.symm
  | slot offset size => exact iff_of_false first.2 second.2
  | result => exact iff_of_false first second
  | param place => exact iff_of_false first second

def Sits (plain : Label → Prop) (usage : Option Usage) (here : Label × Prop) : Prop :=
  match usage with
  | some .target => here.2 ↔ ¬ plain here.1
  | some .value => ¬ here.2
  | none => ¬ here.2 ∧ plain here.1

theorem targeted_named {usage : Option Usage} {name : String} {here : Label × Prop}
    (sits : Sits plain usage here) (same : here.1 = scene.named name)
    (stands : ∀ known, usage = some known → (known = .target ↔ pointed name)) :
    here = (scene.targeted plain pointed).named name := by
  obtain ⟨label, led⟩ := here
  have same : label = scene.named name := same
  subst same
  refine congrArg (scene.named name, ·) (propext ?_)
  match usage with
  | some .target =>
    rw [show led ↔ ¬ plain (scene.named name) from sits]
    exact (and_iff_right ((stands .target rfl).1 rfl)).symm
  | some .value =>
    have unpointed : ¬ pointed name := fun both => by cases (stands .value rfl).2 both
    exact iff_of_false sits fun both => unpointed both.1
  | none => exact iff_of_false sits.1 fun both => both.2 sits.2

def FunctionsPlain (scene : Scene Label) (pointerSize : UInt8) (plain : Label → Prop) : Prop :=
  ∀ {name params ret here}, scene.Declared pointerSize [] (.function name params ret) here →
    plain here

mutual
theorem declared_targeted (functions : FunctionsPlain scene pointerSize plain) (hint : Hint)
    {usage : Option Usage} {here : Label × Prop}
    (stand : ∀ use ∈ hint.usages usage, use.1 = .target ↔ pointed use.2)
    (sits : Sits plain usage here) (declared : scene.Declared pointerSize [] hint here.1) :
    (scene.targeted plain pointed).Declared pointerSize [] hint here := by
  match hint with
  | .void =>
    simp only [Declared] at declared ⊢
    exact declared
  | .int size signedness =>
    simp only [Declared] at declared ⊢
    exact declared
  | .pointer inner =>
    simp only [Declared] at declared ⊢
    obtain ⟨shows', target, refers, declared⟩ := declared
    refine ⟨shows', (target, ¬ plain target), ⟨refers, Iff.rfl⟩, ?_⟩
    cases size : inner.size pointerSize with
    | some bytes =>
      simp only [size] at declared ⊢
      obtain ⟨value, slot, declared⟩ := declared
      have stand : ∀ use ∈ inner.usages (some .value), use.1 = .target ↔ pointed use.2 := by
        rw [← Hint.behind_of_sized size]
        exact stand
      exact ⟨(value, False), ⟨slot, (Classical.em (plain target)).symm, id⟩,
        declared_targeted functions inner stand id declared⟩
    | none =>
      simp only [size] at declared ⊢
      apply declared_targeted functions inner stand _ declared
      rcases Hint.behind_of_unsized size with void | ⟨function, name, params, ret, same⟩
      · rw [void]
        exact Iff.rfl
      · have opaque' : plain target := functions (same ▸ declared_underlying declared)
        rw [function]
        exact ⟨not_not_intro opaque', opaque'⟩
  | .function name params ret =>
    have paramsStand := fun use member => stand use (List.mem_append_left _ member)
    have retStands := fun use member => stand use (List.mem_append_right _ member)
    simp only [Declared] at declared ⊢
    obtain ⟨shows', arity, ⟨targets, all, takes⟩, result, returns, declared⟩ := declared
    refine ⟨shows', arity, ⟨_, declaredAll_targeted functions params paramsStand all, ?_⟩,
      (result, False),
      ⟨returns, id⟩, declared_targeted functions ret retStands id declared⟩
    intro place target found
    rw [List.getElem?_map, Option.map_eq_some_iff] at found
    obtain ⟨known, found, rfl⟩ := found
    exact ⟨takes place known found, id⟩
  | .named name definition =>
    rw [declared_named] at declared ⊢
    have definitionStands := fun use member => stand use (List.mem_append_right _ member)
    refine ⟨targeted_named sits declared.1 fun known same => ?_, declared.2.1,
      declared_targeted functions definition definitionStands sits declared.2.2⟩
    subst same
    exact stand (known, name) List.mem_cons_self

theorem declaredAll_targeted (functions : FunctionsPlain scene pointerSize plain)
    (hints : List Hint) {targets : List Label}
    (stand : ∀ use ∈ Hint.usagesOfAll hints, use.1 = .target ↔ pointed use.2)
    (declared : scene.DeclaredAll pointerSize [] hints targets) :
    (scene.targeted plain pointed).DeclaredAll pointerSize [] hints (targets.map (·, False)) := by
  match hints with
  | [] =>
    simp only [DeclaredAll] at declared ⊢
    rw [declared, List.map_nil]
  | hint :: rest =>
    have firstStands := fun use member => stand use (List.mem_append_left _ member)
    have restStand := fun use member => stand use (List.mem_append_right _ member)
    simp only [DeclaredAll] at declared ⊢
    obtain ⟨target, others, rfl, declared, all⟩ := declared
    exact ⟨_, _, rfl, declared_targeted functions hint firstStands id declared,
      declaredAll_targeted functions rest restStand all⟩
end

theorem used_targeted {here : Label} {use : Use} (used : scene.Used here use) :
    (scene.targeted plain pointed).Used (here, False) use := by
  cases use with
  | read size => exact used
  | write size => exact used
  | assignedFrom source => exact ⟨used.1, Prod.ext used.2 rfl⟩
  | dereference base offset size =>
    simp only [Used] at used ⊢
    obtain ⟨dereferenced, accessed, target, points, slot⟩ := used
    exact ⟨dereferenced, accessed, (target, ¬ plain target), ⟨points, Iff.rfl⟩,
      slot, (Classical.em (plain target)).symm, id⟩
  | callWithArgs args =>
    simp only [Used] at used ⊢
    obtain ⟨called, ⟨result, returns⟩, arity, takes⟩ := used
    exact ⟨called, ⟨(result, False), returns, id⟩, arity,
      fun place arg found => ⟨takes place arg found, id⟩⟩
  | callReturns callee => exact ⟨used.1, used.2.1, used.2.2, id⟩
  | comparedWith other signedness => exact ⟨used.1, Prod.ext used.2 rfl⟩
  | arithmeticWith other operator => exact used

theorem observed_targeted (functions : FunctionsPlain scene pointerSize plain)
    {observation : Observation} (stand : ∀ hint, observation.hint = some hint →
      ∀ use ∈ hint.usages (some .value), use.1 = .target ↔ pointed use.2)
    (observed : scene.Observed pointerSize [] observation) :
    (scene.targeted plain pointed).Observed pointerSize [] observation :=
  ⟨used_targeted observed.1, fun hint hinted =>
    declared_targeted functions hint (stand hint hinted) id (observed.2 hint hinted)⟩

end Scene

namespace Analysis

variable {observations : List Observation} {locationCount : Nat} {config : Config}
  {seeded : Seeding} {final : Propagation}
  (analysis : Analysis observations locationCount config seeded final)

/-- Nothing is held by a class of the store. -/
def Plain (config : Config) (store : Store) (cls : ClassId) : Prop :=
  ∀ id, ¬ ((Typing.readingOf config store).type (store.constraint cls)).Holds id

theorem functionsPlain :
    final.store.scene.FunctionsPlain config.pointerSize (Plain config final.store) := by
  intro name params ret here declared id holds
  simp only [Scene.Declared] at declared
  obtain ⟨shows', _, _, _, ⟨_, ⟨signature, known, _⟩, _⟩, _⟩ := declared
  obtain ⟨kind, declaredKind, strength⟩ := shows' (.kind .function) ⟨.function, rfl, Nat.le_refl _⟩
  have function : kind = .function := by
    cases kind <;> first | rfl | exact absurd strength (by decide)
  rw [Reading.type_function (function ▸ declaredKind) known] at holds
  rcases holds with (same | ⟨_, same, _⟩) | ⟨_, _, same, _⟩ <;> cases same

include analysis

theorem plain_of_slot (unmixed : Hint.Unmixed (observations.filterMap Observation.hint))
    {cls : ClassId} {slot : Slot} (member : slot ∈ (final.store.constraint cls).slots) :
    Plain config final.store slot.cls := by
  let plain := Plain config final.store
  let pointed (name : String) : Prop :=
    (.target, name) ∈ (observations.filterMap Observation.hint).flatMap (Hint.usages (some .value))
  have observed : ∀ observation ∈ observations,
      (final.store.scene.targeted plain pointed).Observed config.pointerSize [] observation := by
    intro observation seen
    apply Scene.observed_targeted functionsPlain _ (analysis.observed observation seen)
    intro hint hinted use used
    have listed : use ∈ (observations.filterMap Observation.hint).flatMap
        (Hint.usages (some .value)) :=
      List.mem_flatMap.2 ⟨hint, List.mem_filterMap.2 ⟨observation, seen, hinted⟩, used⟩
    constructor
    · rintro target
      show (Usage.target, use.2) ∈ _
      rwa [← target]
    · exact fun target => unmixed use listed _ target rfl
  obtain ⟨label, placed, holds⟩ :=
    analysis.exists_labels (Scene.targeted_unique analysis.unique) observed
  -- Without what they tell of pointers, the labels are the roots.
  have root {cls : ClassId} (inside : cls.index < final.store.size) :
      (label cls).1 = final.store.root cls := by
    have rooted : final.store.Holds (fun cls => (label cls).1) final.store.model := by
      refine ⟨fun cls => congrArg Prod.fst (holds.root cls), fun cls => ?_⟩
      exact ⟨(holds.constraint cls).has,
        fun role target refers => ((holds.constraint cls).refers role target refers).1⟩
    exact analysis.label_eq_root rooted
      (fun loc declared => congrArg Prod.fst (placed loc declared)) inside
  have slotted {cls : ClassId} {slot : Slot} (member : slot ∈ (final.store.constraint cls).slots) :
      ((label cls).2 ∨ plain (label cls).1) ∧ ¬ (label slot.cls).2 :=
    ((holds.constraint cls).refers (.slot slot.offset slot.size) slot.cls member).2
  have slotInside : slot.cls.index < final.store.size :=
    analysis.finalInside.refers (show (final.store.constraint cls).Refers (.slot _ _) _ from member)
  intro id held
  obtain ⟨inner, within, _⟩ := Reading.of_holds held
  have opaque' := (slotted within).1.resolve_left (slotted member).2
  rw [root slotInside] at opaque'
  apply opaque' id
  rwa [final.store.constraint_root]

end Analysis

/-- The type of one class has a value of another one within it. -/
def Typing.HoldsByValue (typing : Typing) (outer inner : ClassId) : Prop :=
  ∃ type, typing.typeOfClass? outer = some type ∧ type.Holds inner

theorem Analysis.not_holdsByValue {observations : List Observation} {locationCount : Nat}
    {config : Config} {seeded : Seeding} {final : Propagation}
    (analysis : Analysis observations locationCount config seeded final)
    (unmixed : Hint.Unmixed (observations.filterMap Observation.hint)) {outer held inner : ClassId}
    (first : (Typing.ofStore config final.store).HoldsByValue outer held) :
    ¬ (Typing.ofStore config final.store).HoldsByValue held inner := by
  -- The held class is that of a slot, and the class of a slot is plain.
  rintro ⟨type, found, second⟩
  obtain ⟨_, outerFound, first⟩ := first
  obtain ⟨cls, inside, rfl⟩ := Typing.exists_of_typeOfClass? analysis.finalInside.refers outerFound
  obtain ⟨slot, member, rfl⟩ := Reading.of_holds first
  have slotInside : slot.cls.index < final.store.size :=
    analysis.finalInside.refers (show (final.store.constraint cls).Refers (.slot _ _) _ from member)
  rw [Typing.typeOfClass?_number analysis.finalInside.refers slotInside, Option.some.injEq] at found
  subst found
  exact analysis.plain_of_slot unmixed member inner second

/-- No class holds itself by value, not by way of others either, where names are not mixed. -/
theorem inferTypes_acyclic {table : LocationTable} {events : List Event} {config : Config}
    {schedule : Schedule} {typing : Typing} (unmixed : Hint.Unmixed (events.filterMap Event.hint))
    (ok : inferTypes table events config schedule = .ok typing) (cls : ClassId) :
    ¬ Relation.TransGen typing.HoldsByValue cls cls := by
  obtain ⟨observations, seeded, final, collected, analysis, rfl⟩ := inferTypes_ok ok
  have unmixed : Hint.Unmixed (observations.filterMap Observation.hint) := by
    apply unmixed.mono
    intro hint member
    obtain ⟨observation, seen, hinted⟩ := List.mem_filterMap.1 member
    obtain ⟨event, listed, transcribed⟩ := (collect_ok collected).2 observation seen
    rw [Event.hint_of_transcribe transcribed] at hinted
    exact List.mem_filterMap.2 ⟨event, listed, hinted⟩
  intro cycle
  obtain ⟨_, first, _⟩ := Relation.TransGen.head'_iff.1 cycle
  obtain ⟨_, _, last⟩ := Relation.TransGen.tail'_iff.1 cycle
  exact analysis.not_holdsByValue unmixed last first

def mixedTable : LocationTable :=
  .ofList [.temporary 0, .temporary 1, .temporary 2, .temporary 3]

def mixedEvents : List Event := [
  ⟨⟨0⟩, ⟨0⟩, .read, [], none, some 8, none, none, some (.pointer (.named "T" .void))⟩,
  ⟨⟨4⟩, ⟨1⟩, .read, [], none, some 8, none, none, some (.pointer (.named "U" .void))⟩,
  ⟨⟨8⟩, ⟨2⟩, .read, [], none, some 4, none, none, some (.named "T" .void)⟩,
  ⟨⟨12⟩, ⟨3⟩, .read, [], none, some 4, none, none, some (.named "U" .void)⟩,
  ⟨⟨16⟩, ⟨3⟩, .deref, [⟨0⟩], some 0, some 4, none, none, some (.int 4 none)⟩,
  ⟨⟨20⟩, ⟨2⟩, .deref, [⟨1⟩], some 0, some 4, none, none, some (.int 4 none)⟩]

/-- Where names are mixed, two structs can be the first field of each other. -/
theorem inferTypes_circle : ∃ typing cls, inferTypes mixedTable mixedEvents {} = .ok typing ∧
    Relation.TransGen typing.HoldsByValue cls cls := by
  refine ⟨_, ⟨2⟩, rfl, .tail (.single (b := ⟨3⟩) ?_) ?_⟩
  · exact ⟨.struct 4 [⟨0, 4, .sameAs ⟨3⟩⟩], rfl,
      Or.inr ⟨_, _, rfl, _, List.mem_cons_self, Or.inl rfl⟩⟩
  · exact ⟨.struct 4 [⟨0, 4, .sameAs ⟨2⟩⟩], rfl,
      Or.inr ⟨_, _, rfl, _, List.mem_cons_self, Or.inl rfl⟩⟩

def listEvents : List Event := [
  ⟨⟨0⟩, ⟨0⟩, .deref, [⟨0⟩], some 0, some 8, none, none, none⟩,
  ⟨⟨4⟩, ⟨1⟩, .deref, [⟨0⟩], some 8, some 4, none, none, some (.named "item" (.int 4 none))⟩,
  ⟨⟨8⟩, ⟨2⟩, .read, [], none, some 8, none, none, some (.pointer (.named "handle" .void))⟩]

theorem inferTypes_acyclic_list : Hint.Unmixed (listEvents.filterMap Event.hint) ∧
    ∃ typing, inferTypes mixedTable listEvents {} = .ok typing ∧
      ∀ cls, ¬ Relation.TransGen typing.HoldsByValue cls cls := by
  have unmixed : Hint.Unmixed (listEvents.filterMap Event.hint) := by decide
  have ok : ∃ typing, inferTypes mixedTable listEvents {} = .ok typing := ⟨_, rfl⟩
  obtain ⟨typing, ok⟩ := ok
  exact ⟨unmixed, typing, ok, inferTypes_acyclic unmixed ok⟩

end TypeRecovery
