import TypeRecovery.Proofs.FieldGroups
import TypeRecovery.Proofs.Scene
import TypeRecovery.Proofs.StoreCorrespondence
import TypeRecovery.Proofs.TypingClasses
/-!
Declared types are recovered. A class that was declared with a hint, and of which no more was seen
than a reading, has the type that the hint tells, through aliases and the memory behind pointers.
What was declared is found in the store when the analysis ends. That there is no more comes from the
scene made of the parts of the hint, in which the store can be found again.
-/
namespace TypeRecovery

mutual
def Typing.Matches (typing : Typing) : Hint → ClassId → Prop
  | .void, id => typing.typeOfClass? id = some .void
  | .int size signedness, id => typing.typeOfClass? id = some (.primitive ⟨size, signedness⟩)
  | .pointer inner, id => ∃ target, typing.typeOfClass? id = some (.pointer target) ∧
      match inner.size typing.pointerSize with
      | some _ => ∃ value, typing.typeOfClass? target = some (.sameAs value) ∧
          Matches typing inner value
      | none => Matches typing inner target
  | .function _ params ret, id => ∃ targets result,
      typing.typeOfClass? id = some (.function targets result) ∧
        MatchesAll typing params targets ∧ Matches typing ret result
  | .named _ definition, id => Matches typing definition id

def Typing.MatchesAll (typing : Typing) : List Hint → List ClassId → Prop
  | [], targets => targets = []
  | hint :: rest, targets => ∃ target others, targets = target :: others ∧
      Matches typing hint target ∧ MatchesAll typing rest others
end

theorem Typing.pointerSize_ofStore (config : Config) (store : Store) :
    (ofStore config store).pointerSize = config.pointerSize := rfl

namespace Constraint

/-- The constraint has what was declared, incidental traits aside, and no more. -/
def IsDeclared (constraint declared : Constraint) : Prop :=
  ∀ trait : Trait, ¬ trait.Incidental → (constraint.Has trait ↔ declared.Has trait)

namespace IsDeclared

variable {constraint declared : Constraint} (same : constraint.IsDeclared declared)
include same

theorem kind : constraint.declaredKind = declared.declaredKind :=
  declaredKind_eq_of_has fun kind => same (.kind kind) id

theorem width : constraint.declaredWidth = declared.declaredWidth :=
  declaredWidth_eq_of_has fun size => same (.width size) id

theorem arity : constraint.arity = declared.arity :=
  arity_eq_of_has fun count => same (.arity count) id

theorem flag {flag : Flag} (seen : flag ≠ .read) :
    flag ∈ constraint.evidence ↔ flag ∈ declared.evidence := same (.evidence flag) seen

theorem uncalled (noFunction : declared.declaredKind ≠ some .function)
    (noCall : .called ∉ declared.evidence) : constraint.calledAs? = none := by
  refine if_neg (not_or.2 ⟨?_, ?_⟩)
  · rwa [same.kind]
  · rwa [same.flag (by decide)]

theorem signedness : constraint.evidence.signedness = declared.evidence.signedness := by
  unfold Evidence.signedness Evidence.exactlyOne
  simp only [same.flag (show Flag.declaredSigned ≠ .read by decide),
    same.flag (show Flag.declaredUnsigned ≠ .read by decide),
    same.flag (show Flag.signed ≠ .read by decide),
    same.flag (show Flag.unsigned ≠ .read by decide)]

theorem conflicting : constraint.evidence.hasConflictingDeclarations =
    declared.evidence.hasConflictingDeclarations := by
  unfold Evidence.hasConflictingDeclarations
  rw [decide_eq_decide.2 (same.flag (show Flag.declaredSigned ≠ .read by decide)),
    decide_eq_decide.2 (same.flag (show Flag.declaredUnsigned ≠ .read by decide))]

theorem integerUse : constraint.evidence.hasIntegerUse = declared.evidence.hasIntegerUse := by
  unfold Evidence.hasIntegerUse
  rw [decide_eq_decide.2 (same.flag (show Flag.arithmetic ≠ .read by decide)),
    decide_eq_decide.2 (same.flag (show Flag.declaredInt ≠ .read by decide))]

end IsDeclared

theorem eq_slots_of_not_has {constraint : Constraint} (ordered : Slot.Ordered constraint.slots)
    (nothing : ∀ trait, ¬ constraint.Has trait)
    (slotsOnly : ∀ role cls, constraint.Refers role cls → ∃ offset size, role = .slot offset size) :
    ({ constraint with extent := 0 } : Constraint) = { slots := constraint.slots } := by
  apply eq_of_has_of_refers (b := { slots := constraint.slots }) _ _ ordered ordered
  · intro trait
    have none : ¬ ({ slots := constraint.slots } : Constraint).Has trait := by
      cases trait with
      | evidence flag => exact not_has_empty (.evidence flag)
      | access size => exact not_has_empty (.access size)
      | _ => simp [Has, arity]
    exact iff_of_false (nothing trait) none
  · intro role cls
    constructor
    · intro refers
      obtain ⟨offset, size, rfl⟩ := slotsOnly role cls refers
      exact refers
    · intro refers
      cases role with
      | slot offset size => exact refers
      | _ => simp [Refers] at refers

end Constraint

theorem Evidence.of_declared (signedness : Option Signedness) :
    let evidence := Evidence.ofFlags (.declaredInt :: (signedness.map Flag.declared).toList)
    evidence.signedness = signedness ∧ evidence.hasConflictingDeclarations = false ∧
      .called ∉ evidence := by
  rcases signedness with _ | _ | _ <;> decide

namespace Reading

variable {reading : Reading} {constraint : Constraint}

theorem type_int {pointerSize size : UInt8} {signedness : Option Signedness}
    (same : constraint.IsDeclared ((Hint.int size signedness).declaration pointerSize))
    (noReference : ∀ role cls, ¬ constraint.Refers role cls) :
    reading.type constraint = .primitive ⟨size, signedness⟩ := by
  have kind : constraint.declaredKind = some .primitive := same.kind
  have pointee : constraint.pointee = none :=
    Option.eq_none_iff_forall_not_mem.2 fun cls known => noReference .pointee cls known
  have slots : constraint.slots = [] :=
    List.eq_nil_iff_forall_not_mem.2 fun slot member => noReference (.slot _ _) slot.cls member
  obtain ⟨agreed, noConflict, noCall⟩ := Evidence.of_declared signedness
  have width : constraint.width = some size := by
    have declaredWidth : constraint.declaredWidth = some size := same.width
    simp only [Constraint.width, declaredWidth]
  have uncalled : constraint.calledAs? = none := same.uncalled (by simp [Hint.declaration]) noCall
  have signed : constraint.evidence.signedness = signedness := same.signedness.trans agreed
  have conflict : constraint.evidence.hasConflictingDeclarations = false :=
    same.conflicting.trans noConflict
  simp [type, kind, uncalled, pointee, Constraint.hasSlots, slots, scalar, conflict,
    Constraint.isEmpty, Constraint.hasOwnEvidence, primitive, width, signed]

theorem type_pointer {pointerSize : UInt8} {inner : Hint} {target : ClassId}
    (same : constraint.IsDeclared ((Hint.pointer inner).declaration pointerSize))
    (pointee : constraint.pointee = some target) :
    reading.type constraint = .pointer (reading.number target) := by
  have kind : constraint.declaredKind = some .pointer := same.kind
  have noCall : Flag.called ∉ (∅ : Evidence) := by decide
  have noInteger : (∅ : Evidence).hasIntegerUse = false := by decide
  have uncalled : constraint.calledAs? = none := same.uncalled (by simp [Hint.declaration]) noCall
  have noInteger : constraint.evidence.hasIntegerUse = false := same.integerUse.trans noInteger
  simp [type, kind, uncalled, pointee, pointer, noInteger]

theorem type_memory {size : UInt8} {value : ClassId}
    (bare : ({ constraint with extent := 0 } : Constraint) = { slots := constraint.slots })
    (only : constraint.slots = [⟨0, size, value⟩]) :
    reading.type constraint = .sameAs (reading.number value) := by
  have own : constraint.hasOwnEvidence = false := by
    show ({ constraint with extent := 0 } : Constraint).hasOwnEvidence = false
    rw [bare]
    rfl
  have kind : constraint.declaredKind = none := congrArg Constraint.declaredKind bare
  have pointee : constraint.pointee = none := congrArg Constraint.pointee bare
  have signature : constraint.signature = none := congrArg Constraint.signature bare
  simp [type, kind, Constraint.calledAs?, signature, pointee, Constraint.hasSlots, aggregate, only,
    own]

end Reading

namespace Analysis

variable {observations : List Observation} {locationCount : Nat} {config : Config}
  {seeded : Seeding} {final : Propagation}

/-- A class that the hint was declared of, and of which no more is known, has the hint's type. -/
def Recovers (config : Config) (final : Propagation) (label : ClassId → Part)
    (hint : Hint) : Prop :=
  ∀ cls : ClassId, cls.index < final.store.size →
    final.store.scene.Declared config.pointerSize [] hint (final.store.root cls) →
    label cls = Part.ofHint hint →
    (Typing.ofStore config final.store).Matches hint
      ((Typing.readingOf config final.store).number cls)

def RecoversAll (config : Config) (final : Propagation) (label : ClassId → Part)
    (hints : List Hint) : Prop :=
  ∀ classes : List ClassId, (∀ cls ∈ classes, cls.index < final.store.size) →
    final.store.scene.DeclaredAll config.pointerSize [] hints (classes.map final.store.root) →
    classes.map label = hints.map Part.ofHint →
    (Typing.ofStore config final.store).MatchesAll hints
      (classes.map (Typing.readingOf config final.store).number)

variable {label : ClassId → Part}

theorem recovers_named (name : String) {definition : Hint}
    (recovers : Recovers config final label definition) :
    Recovers config final label (.named name definition) := by
  intro cls inside declared part
  rw [Scene.declared_named] at declared
  simp only [Typing.Matches]
  exact recovers cls inside declared.2.2 part

theorem recoversAll_nil : RecoversAll config final label [] := by
  intro classes inside declared parts
  simp only [List.map_nil, List.map_eq_nil_iff] at parts
  simp [parts, Typing.MatchesAll]

theorem recoversAll_cons {hint : Hint} {rest : List Hint}
    (recovers : Recovers config final label hint)
    (recoversRest : RecoversAll config final label rest) :
    RecoversAll config final label (hint :: rest) := by
  intro classes inside declared parts
  cases classes with
  | nil => simp at parts
  | cons cls others =>
    simp only [List.map_cons, List.cons.injEq] at parts
    simp only [List.map_cons, Scene.DeclaredAll, List.cons.injEq] at declared
    obtain ⟨_, _, ⟨rfl, rfl⟩, declared, all⟩ := declared
    rw [List.forall_mem_cons] at inside
    simp only [List.map_cons, Typing.MatchesAll]
    exact ⟨_, _, rfl, recovers cls inside.1 declared parts.1,
      recoversRest others inside.2 all parts.2⟩

variable {place : Part} {named : String → Part}
  (analysis : Analysis observations locationCount config seeded final)
  (holds : final.store.Holds label (Part.scene config.pointerSize place named).toModel)
include holds

theorem isDeclared {hint : Hint} {cls : ClassId}
    (declared : final.store.scene.Declared config.pointerSize [] hint (final.store.root cls))
    (part : label cls = Part.ofHint hint) :
    (final.store.constraint cls).IsDeclared (hint.declaration config.pointerSize) := by
  intro trait seen
  constructor
  · intro has
    have bounded := (holds.constraint cls).has trait has
    rw [part] at bounded
    rw [← hint.declaration_underlying]
    exact bounded.resolve_right seen
  · intro has
    have given := Scene.shows_declaration declared trait has
    rwa [← final.store.constraint_root]

include analysis

theorem recovers_void : Recovers config final label .void := by
  intro cls inside declared part
  simp only [Typing.Matches]
  rw [Typing.typeOfClass?_number analysis.finalInside.refers inside]
  exact congrArg some (if_pos (isDeclared holds declared part).kind)

theorem recovers_int (size : UInt8) (signedness : Option Signedness) :
    Recovers config final label (.int size signedness) := by
  intro cls inside declared part
  simp only [Typing.Matches]
  rw [Typing.typeOfClass?_number analysis.finalInside.refers inside,
    Reading.type_int (isDeclared holds declared part)]
  intro role target refers
  have bounded := (holds.constraint cls).refers role target refers
  rw [part] at bounded
  cases bounded

theorem type_of_memory {hint : Hint} {size : UInt8} {cls value : ClassId}
    (sized : hint.size config.pointerSize = some size) (part : label cls = .memory hint.underlying)
    (slot : (final.store.constraint cls).Refers (.slot 0 size) value) :
    (Typing.readingOf config final.store).type (final.store.constraint cls) =
      .sameAs ((Typing.readingOf config final.store).number value) := by
  have slots {role : Role} {target : ClassId}
      (refers : (final.store.constraint cls).Refers role target) : role = .slot 0 size := by
    have bounded := (holds.constraint cls).refers role target refers
    rw [part] at bounded
    obtain ⟨_, sized', role, _⟩ := Part.refers_memory bounded
    rw [Hint.size_underlying, sized, Option.some.injEq] at sized'
    rw [role, sized']
  apply Reading.type_memory
  · apply Constraint.eq_slots_of_not_has (analysis.ordered cls)
    · intro trait has
      have bounded := (holds.constraint cls).has trait has
      rw [part] at bounded
      exact bounded
    · exact fun role target refers => ⟨0, size, slots refers⟩
  · apply Slot.eq_singleton (analysis.ordered cls) slot
    intro other held
    have role := slots (show (final.store.constraint cls).Refers (.slot _ _) other.cls from held)
    exact ⟨(Role.slot.inj role).1, (Role.slot.inj role).2⟩

theorem recovers_pointer {inner : Hint} (recovers : Recovers config final label inner) :
    Recovers config final label (.pointer inner) := by
  intro cls inside declared part
  have same := isDeclared holds declared part
  simp only [Scene.Declared] at declared
  obtain ⟨_, _, ⟨target, pointee, rfl⟩, declared⟩ := declared
  rw [final.store.constraint_root] at pointee
  have targetInside := analysis.finalInside.refers pointee
  have targetPart := (holds.constraint cls).refers .pointee target pointee
  rw [part] at targetPart
  have targetPart := Part.refers_pointer targetPart
  simp only [Typing.Matches, Typing.pointerSize_ofStore]
  refine ⟨(Typing.readingOf config final.store).number target, ?_, ?_⟩
  · rw [Typing.typeOfClass?_number analysis.finalInside.refers inside,
      Reading.type_pointer same pointee]
  cases size : inner.size config.pointerSize with
  | none =>
    simp only [size] at declared targetPart ⊢
    exact recovers target targetInside declared targetPart
  | some bytes =>
    simp only [size] at declared targetPart ⊢
    obtain ⟨_, ⟨value, slot, rfl⟩, declared⟩ := declared
    rw [final.store.constraint_root] at slot
    have valuePart := (holds.constraint target).refers _ value slot
    rw [targetPart] at valuePart
    obtain ⟨_, _, _, valuePart⟩ := Part.refers_memory valuePart
    refine ⟨_, ?_, recovers value (analysis.finalInside.refers slot) declared valuePart⟩
    rw [Typing.typeOfClass?_number analysis.finalInside.refers targetInside,
      analysis.type_of_memory holds size targetPart slot]

theorem recovers_function (name : Option String) {params : List Hint} {ret : Hint}
    (recoversParams : RecoversAll config final label params)
    (recoversRet : Recovers config final label ret) :
    Recovers config final label (.function name params ret) := by
  intro cls inside declared part
  have same := isDeclared holds declared part
  simp only [Scene.Declared] at declared
  obtain ⟨_, _, ⟨targets, all, takes⟩, _, ⟨result, returns, rfl⟩, declared⟩ := declared
  rw [final.store.constraint_root] at returns
  have ⟨signature, known, returned⟩ := returns
  have arity : signature.arity = some params.length := by
    simpa [Constraint.arity, known, Hint.declaration, Signature.arity] using same.arity
  obtain ⟨classes, listed, length⟩ := Option.map_eq_some_iff.1 arity
  have param {place : Nat} {target : ClassId} (found : classes[place]? = some target) :
      (final.store.constraint cls).Refers (.param place) target :=
    ⟨signature, known, by rw [Signature.Refers, listed]; exact found⟩
  have roots : classes.map final.store.root = targets := by
    apply List.ext_getElem
    · rw [List.length_map, length, Scene.length_of_declaredAll all]
    · intro place short _
      obtain ⟨target, refers, root⟩ := takes place _ (List.getElem?_eq_getElem ‹_›)
      rw [final.store.constraint_root] at refers
      rw [List.length_map] at short
      have same := Constraint.refers_unique (Slot.separate_of_ordered (analysis.ordered cls))
        (param (List.getElem?_eq_getElem short)) refers
      rw [List.getElem_map, same, root]
  have labels : classes.map label = params.map Part.ofHint := by
    apply List.ext_getElem
    · rw [List.length_map, List.length_map, length]
    · intro place short _
      rw [List.length_map] at short
      have given := (holds.constraint cls).refers _ _ (param (List.getElem?_eq_getElem short))
      rw [part] at given
      have hinted := Part.refers_param given
      rw [List.getElem?_eq_getElem (length ▸ short), Option.map_some, Option.some.injEq] at hinted
      rw [List.getElem_map, List.getElem_map, hinted]
  have resultPart := (holds.constraint cls).refers .result result returns
  rw [part] at resultPart
  simp only [Typing.Matches]
  refine ⟨classes.map (Typing.readingOf config final.store).number,
    (Typing.readingOf config final.store).number result, ?_, ?_, ?_⟩
  · have returned : signature.ret = result := returned
    rw [Typing.typeOfClass?_number analysis.finalInside.refers inside,
      Reading.type_function same.kind known, listed, returned]
    rfl
  · refine recoversParams classes (fun target member => ?_) (roots ▸ all) labels
    obtain ⟨place, found⟩ := List.mem_iff_getElem?.1 member
    exact analysis.finalInside.refers (param found)
  · exact recoversRet result (analysis.finalInside.refers returns) declared
      (Part.refers_result resultPart)

end Analysis

section recovers

variable {observations : List Observation} {locationCount : Nat} {config : Config}
  {seeded : Seeding} {final : Propagation} {label : ClassId → Part} {place : Part}
  {named : String → Part}

mutual
theorem Analysis.recovers (analysis : Analysis observations locationCount config seeded final)
    (holds : final.store.Holds label (Part.scene config.pointerSize place named).toModel)
    (hint : Hint) : Recovers config final label hint := by
  match hint with
  | .void => exact analysis.recovers_void holds
  | .int size signedness => exact analysis.recovers_int holds size signedness
  | .pointer inner => exact analysis.recovers_pointer holds (analysis.recovers holds inner)
  | .function name params ret =>
    exact analysis.recovers_function holds name (analysis.recoversAll holds params)
      (analysis.recovers holds ret)
  | .named name definition => exact recovers_named name (analysis.recovers holds definition)

theorem Analysis.recoversAll (analysis : Analysis observations locationCount config seeded final)
    (holds : final.store.Holds label (Part.scene config.pointerSize place named).toModel)
    (hints : List Hint) : RecoversAll config final label hints := by
  match hints with
  | [] => exact recoversAll_nil
  | hint :: rest =>
    exact recoversAll_cons (analysis.recovers holds hint) (analysis.recoversAll holds rest)
end

end recovers

/-- The type of a location is the one it was declared with, when it was only read. -/
theorem analyze_recovers {hint : Hint} {point : ProgramPoint} {loc : LocId} {size : UInt8}
    {locationCount : Nat} {config : Config} {schedule : Schedule} {typing : Typing}
    (consistent : hint.Consistent)
    (ok : analyze [⟨point, loc, .read size, some hint⟩] locationCount config schedule =
      .ok typing) :
    ∃ id, typing.classOf? loc = some id ∧ typing.Matches hint id := by
  obtain ⟨seeded, final, analysis, rfl⟩ := analyze_ok ok
  let scene := Part.scene config.pointerSize (.ofHint hint) hint.meaning
  have observed : ∀ observation ∈ [(⟨point, loc, .read size, some hint⟩ : Observation)],
      scene.Observed config.pointerSize [] observation := by
    rw [List.forall_mem_singleton]
    refine ⟨Part.used_read _ size, fun _ same => ?_⟩
    cases same
    exact Part.declared hint (Hint.meaning_of_use consistent)
  obtain ⟨label, placed, holds⟩ := analysis.exists_labels Part.scene_unique observed
  have declared : loc.index < locationCount :=
    analysis.observes.declared _ List.mem_cons_self loc List.mem_cons_self
  rw [← analysis.finalLocationCount] at declared placed
  have lower := (analysis.observed _ List.mem_cons_self).2 hint rfl
  exact ⟨_, Typing.classOf?_ofStore declared, analysis.recovers holds hint loc.initialClass
    (Store.place_inside declared) lower (placed loc declared)⟩

def callbackHint : Hint :=
  let string := Hint.named "string" (.pointer (.named "char" (.int 1 (some .signed))))
  .pointer (.named "callback" (.function none [string, .pointer string] (.named "status" .void)))

theorem analyze_recovers_callback : callbackHint.Consistent ∧ ∃ typing id,
    analyze [⟨⟨0⟩, ⟨0⟩, .read 4, some callbackHint⟩] 1 .x86 = .ok typing ∧
      typing.classOf? ⟨0⟩ = some id ∧ typing.Matches callbackHint id := by
  have consistent : callbackHint.Consistent := by decide
  have ok : ∃ typing, analyze [⟨⟨0⟩, ⟨0⟩, .read 4, some callbackHint⟩] 1 .x86 = .ok typing :=
    ⟨_, rfl⟩
  obtain ⟨typing, ok⟩ := ok
  obtain ⟨id, placed, recovered⟩ := analyze_recovers consistent ok
  exact ⟨consistent, typing, id, ok, placed, recovered⟩

end TypeRecovery
