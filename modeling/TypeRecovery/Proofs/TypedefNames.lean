import TypeRecovery.Proofs.AnalysisOutcome
import TypeRecovery.Proofs.Contributions
import TypeRecovery.Proofs.Respect
import TypeRecovery.Proofs.TypingClasses
/-!
Typedef names in a typing. Each name that occurs in the hints stands for one class, at whatever
depth it occurs and whatever it is defined by: the class of the locations that are hinted by it, of
the targets of pointers to it, and of the parameters and results that are declared by it. A class
has the first in the alphabet of the names that stand for it, unless its type is a union.
-/
namespace TypeRecovery

namespace Hint

/-- The hint is a typedef of this name, or one that is defined by such a typedef. -/
inductive GoesBy (name : String) : Hint → Prop where
  | name {definition : Hint} : GoesBy name (.named name definition)
  | definition {other : String} {definition : Hint} : GoesBy name definition →
      GoesBy name (.named other definition)

theorem declaredName_declaration (pointerSize : UInt8) (hint : Hint) :
    (hint.declaration pointerSize).declaredName = none := by
  induction hint using underlying.induct with
  | case1 name definition ih => exact ih
  | case2 hint unnamed => cases hint <;> first | rfl | exact absurd rfl (unnamed _ _)

end Hint

/-- Somewhere in the hints a typedef of this name is declared of the class with the number `id`. -/
def Store.GivesName (store : Store) (config : Config) (observations : List Observation)
    (name : String) (id : ClassId) : Prop :=
  ∃ definition cls, store.Hinted config.pointerSize observations (.named name definition) cls ∧
    (Typing.readingOf config store).number cls = id

/-- Names stand for classes of the typing, which was read off the store. -/
structure Typing.NamedBy (typing : Typing) (config : Config) (observations : List Observation)
    (store : Store) (named : String → ClassId) : Prop where
  /-- Every part of a hint is declared of the class that stands in its place. -/
  declared : ∀ observation ∈ observations, ∀ hint, observation.hint = some hint →
    store.scene.Declared config.pointerSize [] hint (store.classOf observation.location)
  /-- Each use of a typedef, at whatever depth of a hint, is declared of a class. -/
  used : ∀ observation ∈ observations, ∀ hint, observation.hint = some hint →
    ∀ use ∈ hint.typedefs, ∃ cls,
      store.Hinted config.pointerSize [observation] (.named use.1 use.2) cls
  /-- All uses of a name are declared of the class that it stands for. -/
  given : ∀ name id, store.GivesName config observations name id →
    id = named name ∧ ∃ typed ∈ typing.classes, typed.id = id
  location : ∀ observation ∈ observations, ∀ hint, observation.hint = some hint →
    ∀ name, hint.GoesBy name → typing.classOf? observation.location = some (named name)
  param : ∀ observation ∈ observations, ∀ hint, observation.hint = some hint →
    ∀ function params ret, hint.underlying = .function function params ret →
    ∀ targets result, typing.typeOf? observation.location = some (.function targets result) →
    ∀ (place : Nat) param, params[place]? = some param → ∀ name, param.GoesBy name →
      targets[place]? = some (named name)
  result : ∀ observation ∈ observations, ∀ hint, observation.hint = some hint →
    ∀ function params ret, hint.underlying = .function function params ret →
    ∀ targets result, typing.typeOf? observation.location = some (.function targets result) →
    ∀ name, ret.GoesBy name → result = named name
  least : ∀ typed ∈ typing.classes, (∀ alternatives, typed.type ≠ .union alternatives) →
    Utmost (fun a b => b ≤ a) {name | store.GivesName config observations name typed.id} typed.name
  union : ∀ typed ∈ typing.classes, ∀ alternatives, typed.type = .union alternatives →
    typed.name = none

theorem Use.unnamed_of_contribution {here loc : LocId} {use : Use} {constraint : Constraint}
    (listed : (loc, constraint) ∈ use.contributions here) : constraint.declaredName = none := by
  have bare : ∀ entry ∈ use.contributions here, entry.2.declaredName = none := by
    cases use with
    | arithmeticWith other operator =>
      cases additive : operator.isAdditive <;> simp [contributions, additive]
    | _ => simp [contributions]
  exact bare _ listed

namespace Scene

variable {Label : Type} {scene : Scene Label} {pointerSize : UInt8}

theorem eq_named_of_declared {hint : Hint} {name : String} (goes : hint.GoesBy name) {here : Label}
    (declared : scene.Declared pointerSize [] hint here) : here = scene.named name := by
  induction goes with
  | name => exact (declared_named.1 declared).1
  | definition _ ih => exact ih (declared_named.1 declared).2.2

end Scene

namespace Store

variable {pointerSize : UInt8} {observations : List Observation} {store : Store}

theorem Hinted.mono {others : List Observation} {hint : Hint} {cls : ClassId}
    (hinted : store.Hinted pointerSize observations hint cls)
    (kept : ∀ observation ∈ observations, observation ∈ others) :
    store.Hinted pointerSize others hint cls := by
  induction hinted with
  | observed member known => exact .observed (kept _ member) known
  | definition _ ih => exact .definition ih
  | target _ unsized refers ih => exact .target ih unsized refers
  | value _ sized refers slot ih => exact .value ih sized refers slot
  | param _ found refers ih => exact .param ih found refers
  | result _ refers ih => exact .result ih refers

mutual
theorem exists_hinted (hint : Hint) {cls : ClassId}
    (hinted : store.Hinted pointerSize observations hint cls)
    (declared : store.scene.Declared pointerSize [] hint cls) :
    ∀ use ∈ hint.typedefs,
      ∃ cls, store.Hinted pointerSize observations (.named use.1 use.2) cls := by
  match hint with
  | .void | .int _ _ => exact List.forall_mem_nil _
  | .pointer inner =>
    simp only [Scene.Declared] at declared
    obtain ⟨_, target, points, declared⟩ := declared
    cases size : inner.size pointerSize with
    | some bytes =>
      simp only [size] at declared
      obtain ⟨value, slot, declared⟩ := declared
      exact exists_hinted inner (.value hinted size points slot) declared
    | none =>
      simp only [size] at declared
      exact exists_hinted inner (.target hinted size points) declared
  | .function name params ret =>
    simp only [Scene.Declared] at declared
    obtain ⟨_, _, ⟨targets, all, takes⟩, result, returns, declared⟩ := declared
    refine List.forall_mem_append.2 ⟨existsAll_hinted params targets ?_ all,
      exists_hinted ret (.result hinted returns) declared⟩
    intro place param target found placed
    exact .param hinted found (takes place target placed)
  | .named name definition =>
    refine List.forall_mem_cons.2 ⟨⟨cls, hinted⟩, ?_⟩
    exact exists_hinted definition (.definition hinted) (Scene.declared_named.1 declared).2.2

theorem existsAll_hinted (hints : List Hint) (targets : List ClassId)
    (hinted : ∀ (place : Nat) hint target, hints[place]? = some hint →
      targets[place]? = some target → store.Hinted pointerSize observations hint target)
    (declared : store.scene.DeclaredAll pointerSize [] hints targets) :
    ∀ use ∈ Hint.typedefsOfAll hints,
      ∃ cls, store.Hinted pointerSize observations (.named use.1 use.2) cls := by
  match hints with
  | [] => exact List.forall_mem_nil _
  | hint :: rest =>
    simp only [Scene.DeclaredAll] at declared
    obtain ⟨target, others, rfl, declared, all⟩ := declared
    exact List.forall_mem_append.2 ⟨exists_hinted hint (hinted 0 hint target rfl rfl) declared,
      existsAll_hinted rest others (fun place => hinted (place + 1)) all⟩
end

theorem root_named (name : String) :
    store.root (store.scene.named name) = store.scene.named name := by
  simp only [scene]
  split
  · rename_i entry found
    obtain ⟨typedef, _, rfl⟩ := Option.map_eq_some_iff.1 found
    exact store.root_root typedef.cls
  · exact root_of_outside (Nat.le_refl _)

def NamedAs (pointerSize : UInt8) (observations : List Observation) (store : Store) (name : String)
    (cls : ClassId) : Prop :=
  ∃ definition, store.Hinted pointerSize observations (.named name definition) cls

theorem contributed_named_iff {name : String} {cls : ClassId} :
    (∃ constraint, store.Contributed pointerSize observations cls constraint ∧
      constraint.Has (.named name)) ↔
        ∃ other, store.NamedAs pointerSize observations other cls ∧ other ≤ name := by
  constructor
  · rintro ⟨constraint, contributed, declared, known, least⟩
    cases contributed with
    | use _ listed =>
      rw [Use.unnamed_of_contribution listed] at known
      cases known
    | hint _ =>
      rw [Hint.declaredName_declaration] at known
      cases known
    | name hinted =>
      cases known
      exact ⟨declared, ⟨_, hinted⟩, least⟩
  · rintro ⟨other, ⟨definition, hinted⟩, least⟩
    exact ⟨_, .name hinted, other, rfl, least⟩

end Store

namespace Analysis

variable {observations : List Observation} {locationCount : Nat} {config : Config}
  {seeded : Seeding} {final : Propagation}
  (analysis : Analysis observations locationCount config seeded final)
include analysis

theorem utmost_declaredName {root : ClassId} (isRoot : root ∈ final.store.roots) :
    Utmost (fun a b => b ≤ a)
      {name | final.store.NamedAs config.pointerSize observations name root}
      (final.store.constraint root).declaredName := by
  have has (name : String) : (final.store.constraint root).Has (.named name) ↔ _ :=
    (analysis.has_iff isRoot).trans Store.contributed_named_iff
  cases known : (final.store.constraint root).declaredName with
  | none =>
    refine Set.eq_empty_of_forall_notMem fun name member => ?_
    obtain ⟨declared, found, _⟩ := (has name).2 ⟨name, member, String.le_refl name⟩
    rw [known] at found
    cases found
  | some first =>
    have bound : ∀ name ∈ {name | final.store.NamedAs config.pointerSize observations name root},
        first ≤ name := by
      intro name member
      obtain ⟨declared, found, least⟩ := (has name).2 ⟨name, member, String.le_refl name⟩
      rw [known] at found
      cases found
      exact least
    obtain ⟨name, member, least⟩ := (has first).1 ⟨first, known, String.le_refl first⟩
    have same := String.le_antisymm least (bound name member)
    exact ⟨same ▸ member, bound⟩

theorem hinted_inside {hint : Hint} {cls : ClassId}
    (hinted : final.store.Hinted config.pointerSize observations hint cls) :
    cls.index < final.store.size := by
  have target {here target : ClassId} {role : Role}
      (refers : final.store.model.refers here role target) : target.index < final.store.size := by
    obtain ⟨cls, refers, rfl⟩ := refers
    exact Store.root_inside (analysis.finalInside.refers refers)
  -- A part is found by a reference of the store, which leads to a class of its own.
  induction hinted with
  | observed member _ =>
    exact analysis.place_inside (analysis.observes.declared _ member _ List.mem_cons_self)
  | definition _ ih => exact ih
  | target _ _ refers => exact target refers
  | value _ _ _ slot => exact target slot
  | param _ _ refers => exact target refers
  | result _ refers => exact target refers

/-- A name is declared of no class but its own. -/
theorem eq_named_of_hinted {name : String} {definition : Hint} {cls : ClassId}
    (hinted : final.store.Hinted config.pointerSize observations (.named name definition) cls) :
    cls = final.store.scene.named name :=
  Scene.eq_named_of_declared .name (hinted.declared analysis.unique analysis.observed)

/-- The number that a name is given tells which class it is declared of. -/
theorem givesName_iff {root : ClassId} (isRoot : root ∈ final.store.roots) {name : String} :
    final.store.GivesName config observations name
        ((Typing.readingOf config final.store).number root) ↔
      final.store.NamedAs config.pointerSize observations name root := by
  constructor
  · rintro ⟨definition, cls, hinted, same⟩
    -- Numbers tell classes of the store apart, and the class of a name is a root.
    have one := Typing.number_injective analysis.finalInside.refers (analysis.hinted_inside hinted)
      (Store.mem_roots.1 isRoot).1 same
    rw [analysis.eq_named_of_hinted hinted, Store.root_named, (Store.mem_roots.1 isRoot).2] at one
    refine ⟨definition, ?_⟩
    rwa [← one, ← analysis.eq_named_of_hinted hinted]
  · rintro ⟨definition, hinted⟩
    exact ⟨definition, root, hinted, rfl⟩

end Analysis

namespace Typing

variable {reading : Reading} {store : Store} {types : Array CType} {root : ClassId}

theorem exists_typed (inside : store.RefersInside) {config : Config} {cls : ClassId}
    (clsInside : cls.index < store.size) :
    ∃ typed ∈ (ofStore config store).classes, typed.id = (readingOf config store).number cls := by
  refine ⟨_, (mem_ofStore inside).2 ⟨_, Store.root_mem_roots clsInside, rfl⟩, ?_⟩
  exact number_root cls

theorem name_classOfRoot
    (single : ∀ alternatives, (classOfRoot reading store types root).type ≠ .union alternatives) :
    (classOfRoot reading store types root).name = (store.constraint root).declaredName := by
  have single : ∀ alternatives, reading.type (store.constraint root) ≠ .union alternatives := single
  simp only [classOfRoot]

theorem name_classOfRoot_of_union {alternatives : List CType}
    (type : (classOfRoot reading store types root).type = .union alternatives) :
    (classOfRoot reading store types root).name = none := by
  have type : reading.type (store.constraint root) = .union alternatives := type
  simp only [classOfRoot, type]

end Typing

/-- Names stand for one class each, wherever they occur. -/
theorem analyze_named {observations : List Observation} {locationCount : Nat} {config : Config}
    {schedule : Schedule} {typing : Typing}
    (ok : analyze observations locationCount config schedule = .ok typing) :
    let store := analyzedStore observations locationCount config schedule
    typing = .ofStore config store ∧ ∃ named, typing.NamedBy config observations store named := by
  obtain ⟨seeded, final, analysis, same, rfl⟩ := analyze_ok_store ok
  intro store
  have same : store = final.store := same.symm
  rw [same]
  have inside : final.store.RefersInside := analysis.finalInside.refers
  have declared {observation : Observation} {hint : Hint} (member : observation ∈ observations)
      (known : observation.hint = some hint) :
      observation.location.index < locationCount ∧ final.store.scene.Declared config.pointerSize []
        hint (final.store.classOf observation.location) :=
    ⟨analysis.observes.declared _ member _ List.mem_cons_self,
      (analysis.observed observation member).2 hint known⟩
  refine ⟨rfl, fun name => (Typing.readingOf config final.store).number
    (final.store.scene.named name), ?declared, ?used, ?given, ?location, ?param, ?result, ?least,
    ?union⟩
  case declared => exact fun observation member hint known => (declared member known).2
  case used =>
    intro observation member hint known
    exact Store.exists_hinted hint (.observed List.mem_cons_self known) (declared member known).2
  case given =>
    rintro name id ⟨definition, cls, hinted, rfl⟩
    rw [← analysis.eq_named_of_hinted hinted]
    exact ⟨rfl, Typing.exists_typed inside (analysis.hinted_inside hinted)⟩
  case location =>
    intro observation member hint known name goes
    obtain ⟨located, hinted⟩ := declared member known
    rw [← Scene.eq_named_of_declared goes hinted]
    exact analysis.classOf? located
  case param =>
    intro observation member hint known function params ret same targets result typed place param
      found name goes
    obtain ⟨located, hinted⟩ := declared member known
    obtain ⟨target, takes, hinted⟩ :=
      Scene.exists_param_of_declared (same ▸ Scene.declared_underlying hinted) found
    rw [← Scene.eq_named_of_declared goes hinted]
    exact analysis.param_of_typeOf? located typed takes
  case result =>
    intro observation member hint known function params ret same targets result typed name goes
    obtain ⟨located, hinted⟩ := declared member known
    obtain ⟨target, returns, hinted⟩ :=
      Scene.exists_result_of_declared (same ▸ Scene.declared_underlying hinted)
    rw [← Scene.eq_named_of_declared goes hinted]
    exact analysis.result_of_typeOf? located typed returns
  case least =>
    intro typed member single
    obtain ⟨root, isRoot, rfl⟩ := (Typing.mem_ofStore inside).1 member
    have gives (name : String) : final.store.GivesName config observations name
        ((Typing.readingOf config final.store).number root) ↔ _ := analysis.givesName_iff isRoot
    rw [Typing.name_classOfRoot single]
    have utmost := analysis.utmost_declaredName isRoot
    simp only [← gives] at utmost
    exact utmost
  case union =>
    intro typed member alternatives type
    obtain ⟨root, isRoot, rfl⟩ := (Typing.mem_ofStore inside).1 member
    exact Typing.name_classOfRoot_of_union type

def counterUses : List Observation :=
  let counter : Hint := .named "count" (.int 4 none)
  [⟨⟨0⟩, ⟨0⟩, .read 4, some counter⟩,
    ⟨⟨4⟩, ⟨1⟩, .read 8, some (.function none [counter] (.named "total" counter))⟩,
    ⟨⟨8⟩, ⟨2⟩, .read 8, some (.pointer (.named "cell" (.int 2 none)))⟩]

theorem analyze_named_counters : ∃ typing named targets result cell,
    analyze counterUses 3 {} = .ok typing ∧
      typing.NamedBy {} counterUses (analyzedStore counterUses 3 {}) named ∧
      typing.typeOf? ⟨1⟩ = some (.function targets result) ∧
      typing.classOf? ⟨0⟩ = some result ∧ targets[0]? = some result ∧
      cell ∈ typing.classes ∧ cell.name = some "cell" ∧ named "cell" = cell.id := by
  obtain ⟨typing, targets, result, cell, ok, function, listed, plain, name⟩ :
      ∃ typing targets result cell, analyze counterUses 3 {} = .ok typing ∧
        typing.typeOf? ⟨1⟩ = some (.function targets result) ∧ cell ∈ typing.classes ∧
        cell.type = .primitive ⟨2, none⟩ ∧ cell.name = some "cell" :=
    ⟨_, _, _, _, rfl, rfl, @Array.mem_of_getElem? _ _ 4 _ rfl, rfl, rfl⟩
  obtain ⟨_, named, names⟩ := analyze_named ok
  have returned : result = named "count" :=
    names.result _ (List.mem_cons_of_mem _ List.mem_cons_self)
    _ rfl _ _ _ rfl _ _ function _ (.definition .name)
  refine ⟨typing, named, targets, result, cell, ok, names, function, ?_, ?_, listed, name, ?_⟩
  · rw [returned]
    exact names.location _ List.mem_cons_self _ rfl _ .name
  · rw [returned]
    exact names.param _ (List.mem_cons_of_mem _ List.mem_cons_self) _ rfl _ _ _ rfl _ _ function _ _
      rfl _ .name
  · have least := names.least cell listed (by rw [plain]; exact fun _ => nofun)
    rw [name] at least
    exact (names.given _ _ least.1).1.symm

end TypeRecovery
