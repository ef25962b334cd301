import TypeRecovery.Proofs.FieldGroups
import TypeRecovery.Proofs.RenamedNumbering
/-!
Confluence. An analysis ends with the same classes in whatever order its observations come, and
however often each is repeated. The stores that two runs end with are different, for the classes
that seeding makes and the roots that survive depend on the order. But what was observed in one run
holds in the scene that the other run ends with, so each store can be found in the other one.
-/
namespace TypeRecovery

namespace Constraint

variable (find : ClassId → ClassId) (constraint : Constraint)

theorem calledAs?_relink :
    (constraint.relink find).calledAs? = constraint.calledAs?.map (Signature.relink find) := by
  unfold calledAs?
  show (if constraint.declaredKind = some .function ∨ .called ∈ constraint.evidence then
    constraint.signature.map (Signature.relink find) else none) = _
  split <;> rfl

theorem hasOwnEvidence_relink :
    (constraint.relink find).hasOwnEvidence = constraint.hasOwnEvidence := by
  simp only [hasOwnEvidence, relink, Option.isSome_map]

theorem isEmpty_relink : (constraint.relink find).isEmpty = constraint.isEmpty := by
  simp only [isEmpty, hasOwnEvidence_relink]
  simp only [relink, List.isEmpty_map]

end Constraint

namespace Reading

variable {first second : Reading} {find : ClassId → ClassId} {constraint : Constraint}

structure Agrees (first second : Reading) (find : ClassId → ClassId) (constraint : Constraint) :
    Prop where
  pointerSize : second.pointerSize = first.pointerSize
  number : ∀ target ∈ constraint.references, second.number (find target) = first.number target
  span : ∀ target ∈ constraint.references, second.span (find target) = first.span target

variable (agrees : Agrees first second find constraint)
include agrees

theorem primitive_relink :
    second.primitive (constraint.relink find) = first.primitive constraint := by
  unfold primitive
  rw [agrees.pointerSize]
  rfl

theorem pointer_relink {target : ClassId} (pointee : constraint.pointee = some target) :
    second.pointer (constraint.relink find) (find target) = first.pointer constraint target := by
  have number := agrees.number target (Constraint.mem_references_iff.2 ⟨.pointee, pointee⟩)
  unfold pointer
  rw [primitive_relink agrees, number]
  rfl

theorem groups_relink :
    (constraint.relink find).slots.map second.group = constraint.slots.map first.group := by
  show (constraint.slots.map _).map second.group = _
  rw [List.map_map]
  apply List.map_congr_left
  intro slot member
  have referred := Propagation.mem_references member
  simp only [Function.comp, group, agrees.number _ referred, agrees.span _ referred]

theorem aggregate_relink :
    second.aggregate (constraint.relink find) = first.aggregate constraint := by
  unfold aggregate
  rw [groups_relink agrees, Constraint.hasOwnEvidence_relink]
  cases slots : constraint.slots with
  | nil => simp only [Constraint.relink, slots, List.map_nil]
  | cons slot rest =>
    have referred := Propagation.mem_references
      (slots ▸ List.mem_cons_self : slot ∈ constraint.slots)
    have number := agrees.number _ referred
    cases rest with
    | nil => simp only [Constraint.relink, slots, List.map_cons, List.map_nil, number]
    | cons next later => simp only [Constraint.relink, slots, List.map_cons]

theorem scalar_relink : second.scalar (constraint.relink find) = first.scalar constraint := by
  unfold scalar
  rw [Constraint.isEmpty_relink, primitive_relink agrees, agrees.pointerSize]
  rfl

theorem function_relink {signature : Signature} (called : constraint.calledAs? = some signature) :
    ((signature.relink find).params.getD []).map second.number =
        (signature.params.getD []).map first.number ∧
      second.number (signature.relink find).ret = first.number signature.ret := by
  have known := Constraint.signature_of_calledAs? called
  have number {role : Role} {target : ClassId} (refers : constraint.Refers role target) :=
    agrees.number target (Constraint.mem_references_iff.2 ⟨role, refers⟩)
  constructor
  · have params : (signature.relink find).params.getD [] = (signature.params.getD []).map find := by
      cases found : signature.params <;> simp [Signature.relink, found]
    rw [params, List.map_map]
    apply List.map_congr_left
    intro target member
    obtain ⟨place, found⟩ := List.mem_iff_getElem?.1 member
    have refers : constraint.Refers (.param place) target := ⟨signature, known, found⟩
    exact number refers
  · have refers : constraint.Refers .result signature.ret := ⟨signature, known, rfl⟩
    exact number refers

theorem type_relink : second.type (constraint.relink find) = first.type constraint := by
  unfold type
  rw [Constraint.calledAs?_relink]
  by_cases isVoid : constraint.declaredKind = some .void
  · rw [if_pos isVoid]
    exact if_pos isVoid
  · rw [if_neg isVoid]
    refine (if_neg isVoid).trans ?_
    cases called : constraint.calledAs? with
    | some signature =>
      obtain ⟨params, ret⟩ := function_relink agrees called
      simp only [Option.map_some, params, ret]
    | none =>
      rw [Option.map_none]
      cases pointee : constraint.pointee with
      | some target =>
        simp only [Constraint.relink, pointee, Option.map_some]
        exact pointer_relink agrees pointee
      | none =>
        have slots : (constraint.relink find).hasSlots = constraint.hasSlots := by
          simp only [Constraint.hasSlots, Constraint.relink, List.isEmpty_map]
        rw [slots, aggregate_relink agrees, scalar_relink agrees]
        simp only [Constraint.relink, pointee, Option.map_none]

end Reading

namespace Store.Resembles

variable {left right : Store} {there : ClassId → ClassId} (same : left.Resembles right there)
  (config : Config)
include same

theorem members {cls : ClassId} (inside : cls.index < left.size) :
    right.members (there cls) = left.members cls := by
  unfold Store.members
  rw [same.count]
  apply List.filter_congr
  intro loc member
  obtain ⟨place, declared, rfl⟩ := List.mem_map.1 member
  have declared := List.mem_range.1 declared
  rw [decide_eq_decide, same.fixed cls inside, ← same.placed ⟨place⟩ declared]
  constructor
  · exact same.injective (place_inside declared) inside
  · intro equal
    rw [← same.there_root, ← same.there_root cls, ← equal]
    rfl

theorem reading_number {cls : ClassId} (inside : cls.index < left.size) :
    (Typing.readingOf config right).number (there cls) =
      (Typing.readingOf config left).number cls := by
  show (Numbering.ofStore right).number (right.root (there cls)) = _
  rw [same.fixed cls inside]
  exact same.number inside

theorem locationClasses :
    (Typing.ofStore config right).locationClasses =
      (Typing.ofStore config left).locationClasses := by
  show ((List.range right.locationCount).map fun place =>
    (Typing.readingOf config right).number (LocId.initialClass ⟨place⟩)).toArray = _
  rw [same.count]
  apply congrArg List.toArray
  apply List.map_congr_left
  intro place member
  have declared : (⟨place⟩ : LocId).index < left.locationCount := List.mem_range.1 member
  have number := same.reading_number config (place_inside declared)
  rw [same.placed ⟨place⟩ declared] at number
  exact (Typing.number_root _).symm.trans number

end Store.Resembles

namespace Store.Mirrors

variable {left right : Store} {there : ClassId → ClassId} (same : left.Mirrors right there)
  (config : Config)
include same

theorem constraint_relink {cls : ClassId} (inside : cls.index < left.size) :
    (right.constraint (there cls)).relink right.root = (left.constraint cls).relink there := by
  have extent : (right.constraint (there cls)).extent = (left.constraint cls).extent :=
    same.extent inside
  have restored := congrArg (fun shape : Constraint => { shape with extent :=
    (left.constraint cls).extent }) (same.shape inside)
  simp only [Store.shape, Constraint.relink, ← extent] at restored ⊢
  exact restored

theorem reading_span {cls : ClassId} (inside : cls.index < left.size) :
    (Typing.readingOf config right).span (there cls) = (Typing.readingOf config left).span cls := by
  have width : right.width (there cls) = left.width cls := same.width inside
  have extent : right.extent (there cls) = left.extent cls := same.extent inside
  show max (right.width (there cls)) (right.extent (there cls)).toNat = _
  rw [width, extent]
  rfl

theorem type {cls : ClassId} (inside : cls.index < left.size) :
    (Typing.readingOf config right).type (right.constraint (there cls)) =
      (Typing.readingOf config left).type (left.constraint cls) := by
  -- References to roots are read like references to the classes under them.
  have own : Reading.Agrees (Typing.readingOf config right) (Typing.readingOf config right)
      right.root (right.constraint (there cls)) := by
    constructor
    · rfl
    · intro target _
      exact Typing.number_root target
    · intro target _
      show (right.constraint (right.root target)).span = _
      rw [right.constraint_root]
      rfl
  have renamed : Reading.Agrees (Typing.readingOf config left) (Typing.readingOf config right)
      there (left.constraint cls) := by
    constructor
    · rfl
    · intro target member
      obtain ⟨role, refers⟩ := Constraint.mem_references_iff.1 member
      exact same.reading_number config (same.inside refers)
    · intro target member
      obtain ⟨role, refers⟩ := Constraint.mem_references_iff.1 member
      exact same.reading_span config (same.inside refers)
  rw [← Reading.type_relink own, same.constraint_relink inside]
  exact Reading.type_relink renamed

theorem name {cls : ClassId} (inside : cls.index < left.size) :
    (right.constraint (there cls)).declaredName = (left.constraint cls).declaredName := by
  have relinked := congrArg Constraint.declaredName (same.constraint_relink inside)
  exact relinked

theorem classOfRoot (types : Array CType) {root : ClassId} (inside : root.index < left.size) :
    Typing.classOfRoot (Typing.readingOf config right) right types (there root) =
      Typing.classOfRoot (Typing.readingOf config left) left types root := by
  simp only [Typing.classOfRoot, same.reading_number config inside, same.members inside,
    same.type config inside, same.name inside]
  rfl

theorem classes : (Typing.ofStore config right).classes = (Typing.ofStore config left).classes := by
  have inside {root : ClassId} (member : root ∈ (Numbering.ofStore left).order) :
      root.index < left.size :=
    (mem_roots.1 ((Numbering.mem_order same.inside).1 member)).1
  have types : (Numbering.ofStore right).order.map (fun root =>
        (Typing.readingOf config right).type (right.constraint root)) =
      (Numbering.ofStore left).order.map fun root =>
        (Typing.readingOf config left).type (left.constraint root) := by
    rw [same.order, List.map_map]
    apply List.map_congr_left
    intro root member
    exact same.type config (inside member)
  show ((Numbering.ofStore right).order.map (Typing.classOfRoot (Typing.readingOf config right)
    right ((Numbering.ofStore right).order.map fun root =>
      (Typing.readingOf config right).type (right.constraint root)).toArray)).toArray = _
  rw [types, same.order, List.map_map]
  apply congrArg List.toArray
  apply List.map_congr_left
  intro root member
  exact same.classOfRoot config _ (inside member)

end Store.Mirrors

theorem Store.Renames.locationClasses {left right : Store} {there back : ClassId → ClassId}
    (same : left.Renames right there back) (config : Config) :
    (Typing.ofStore config right).locationClasses = (Typing.ofStore config left).locationClasses :=
  same.resembles.locationClasses config

theorem Store.Matches.classes {left right : Store} {there back : ClassId → ClassId}
    (same : left.Matches right there back) (config : Config) :
    (Typing.ofStore config right).classes = (Typing.ofStore config left).classes :=
  same.mirrors.classes config

namespace Seeding.Replays

variable {pointerSize : UInt8} {observations others : List Observation} {count : Nat}
  {left right : Store}

section regular

variable (replays : Replays pointerSize observations (start (.withLocations count)) (start left))
include replays

theorem refersInside : left.RefersInside :=
  fun {cls _ _} refers => ((replays.follows []).wellFormed.formed cls).refers refers

theorem storeReached : left.Reached := by
  have declared : left.locationCount = count := (replays.follows []).locationCount
  rw [Store.Reached, declared]
  exact fun good places refers => replays.reached_store places refers

theorem regular (closed : left.Closed left.extent) : left.Regular where
  inside := replays.refersInside
  ordered cls := ((replays.follows []).wellFormed.formed cls).ordered
  reached := replays.storeReached
  closed := closed

end regular

/-- What was observed on the way to one store holds in the scene of the other, and so each of the
two has labels in the other one. -/
theorem exists_renames_holds
    (first : Replays pointerSize observations (start (.withLocations count)) (start left))
    (second : Replays pointerSize others (start (.withLocations count)) (start right))
    (leftClosed : left.Closed left.extent) (rightClosed : right.Closed right.extent)
    (same : ∀ observation, observation ∈ observations ↔ observation ∈ others) :
    ∃ there back, left.Renames right there back ∧ (start left).Holds there right.scene := by
  have leftFollows := first.follows []
  have rightFollows := second.follows []
  obtain ⟨there, onward⟩ := first.exists_holds rightFollows.wellFormed.unique
    fun observation member => rightFollows.observed_scene observation ((same observation).1 member)
  obtain ⟨back, backward⟩ := second.exists_holds leftFollows.wellFormed.unique
    fun observation member => leftFollows.observed_scene observation ((same observation).2 member)
  have leftCount : left.locationCount = count := leftFollows.locationCount
  have rightCount : right.locationCount = count := rightFollows.locationCount
  have leftRegular := first.regular leftClosed
  have rightRegular := second.regular rightClosed
  have placed (loc : LocId) (declared : loc.index < count) :
      there loc.initialClass = right.classOf loc := first.placed_of_holds onward declared
  have placedBack (loc : LocId) (declared : loc.index < count) :
      back loc.initialClass = left.classOf loc := second.placed_of_holds backward declared
  refine ⟨there, back, ?_, onward⟩
  constructor
  · rw [leftCount, rightCount]
  · exact leftRegular
  · exact rightRegular
  · rw [← leftCount] at placed placedBack
    exact Store.carries leftRegular onward.store backward.store placed placedBack
  · rw [← rightCount] at placed placedBack
    exact Store.carries rightRegular backward.store onward.store placedBack placed

theorem exists_renames
    (first : Replays pointerSize observations (start (.withLocations count)) (start left))
    (second : Replays pointerSize others (start (.withLocations count)) (start right))
    (leftClosed : left.Closed left.extent) (rightClosed : right.Closed right.extent)
    (same : ∀ observation, observation ∈ observations ↔ observation ∈ others) :
    ∃ there back, left.Renames right there back := by
  obtain ⟨there, back, renames, _⟩ :=
    first.exists_renames_holds second leftClosed rightClosed same
  exact ⟨there, back, renames⟩

end Seeding.Replays

namespace Analysis

variable {observations : List Observation} {locationCount : Nat} {config : Config}
  {seeded : Seeding} {final : Propagation}

/-- The stores that two runs end with are the same but for the names of classes, and each class has
in the scene of the other store the label that it is found under there. -/
theorem exists_matches_holds {others : List Observation} {seeded' : Seeding} {final' : Propagation}
    (first : Analysis observations locationCount config seeded final)
    (second : Analysis others locationCount config seeded' final')
    (same : ∀ observation, observation ∈ observations ↔ observation ∈ others) :
    ∃ there back, final.store.Matches final'.store there back ∧
      (Seeding.start final.store).Holds there final'.store.scene := by
  obtain ⟨there, back, renames, holds⟩ :=
    first.replays.exists_renames_holds second.replays first.closed second.closed same
  exact ⟨there, back, renames.matches first.least (renames.symm.bounded_of_least second.least),
    holds⟩

theorem exists_matches {others : List Observation} {seeded' : Seeding} {final' : Propagation}
    (first : Analysis observations locationCount config seeded final)
    (second : Analysis others locationCount config seeded' final')
    (same : ∀ observation, observation ∈ observations ↔ observation ∈ others) :
    ∃ there back, final.store.Matches final'.store there back := by
  obtain ⟨there, back, renames, _⟩ := first.exists_matches_holds second same
  exact ⟨there, back, renames⟩

end Analysis

/-- Runs on the same observations, however ordered and repeated, end with the same classes. -/
theorem analyze_confluent {observations others : List Observation} {locationCount : Nat}
    {config : Config} {schedule again : Schedule} {typing other : Typing}
    (first : analyze observations locationCount config schedule = .ok typing)
    (second : analyze others locationCount config again = .ok other)
    (same : ∀ observation, observation ∈ observations ↔ observation ∈ others) :
    typing.classes = other.classes ∧ typing.locationClasses = other.locationClasses := by
  obtain ⟨seeded, final, analysis, rfl⟩ := analyze_ok first
  obtain ⟨seeded', final', again, rfl⟩ := analyze_ok second
  obtain ⟨there, back, same⟩ := analysis.exists_matches again same
  constructor
  · exact (same.classes config).symm
  · exact (same.locationClasses config).symm

def pointerUse : Observation :=
  ⟨⟨0⟩, ⟨0⟩, .read 8, some (.named "T" (.pointer (.int 4 (some .signed))))⟩

def functionUse : Observation :=
  ⟨⟨4⟩, ⟨1⟩, .callWithArgs [⟨2⟩], some (.named "T" (.function none [.int 8 none] .void))⟩

theorem analyze_confluent_redefined : ∃ typing other,
    analyze [pointerUse, functionUse] 3 {} = .ok typing ∧
      analyze [functionUse, pointerUse, functionUse] 3 {} = .ok other ∧
      typing.classes = other.classes ∧ typing.locationClasses = other.locationClasses := by
  have first : ∃ typing, analyze [pointerUse, functionUse] 3 {} = .ok typing := ⟨_, rfl⟩
  have second : ∃ other, analyze [functionUse, pointerUse, functionUse] 3 {} = .ok other := ⟨_, rfl⟩
  obtain ⟨typing, first⟩ := first
  obtain ⟨other, second⟩ := second
  have same (observation : Observation) : observation ∈ [pointerUse, functionUse] ↔
      observation ∈ [functionUse, pointerUse, functionUse] := by
    simp only [List.mem_cons, List.not_mem_nil, or_false]
    constructor
    · rintro (rfl | rfl)
      · exact Or.inr (Or.inl rfl)
      · exact Or.inl rfl
    · rintro (rfl | rfl | rfl)
      · exact Or.inr rfl
      · exact Or.inl rfl
      · exact Or.inr rfl
  exact ⟨typing, other, first, second, analyze_confluent first second same⟩

end TypeRecovery
