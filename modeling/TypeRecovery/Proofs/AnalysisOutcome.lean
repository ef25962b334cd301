import TypeRecovery.Inference
import TypeRecovery.Proofs.Scene
import TypeRecovery.Proofs.SessionSemantics
/-!
The store that an analysis ends with, as a scene whose labels are the roots. All that was observed
holds there, every root is reached from a location, and in any other scene where all of it holds the
store can be found again. One such scene has the traits that were contributed by the observations
and no others, so these are just the traits of the classes.
-/
namespace TypeRecovery

/-- What an analysis that succeeds goes through. -/
structure Analysis (observations : List Observation) (locationCount : Nat) (config : Config)
    (seeded : Seeding) (final : Propagation) : Prop where
  seeding : (Seeding.start (.withLocations locationCount)).observeAll config.pointerSize
    observations = (seeded, none)
  steps : ∃ schedule count,
    Propagation.Steps schedule count (.start seeded.store seeded.merges) final
  done : final.next? = none

def analyzedStore (observations : List Observation) (locationCount : Nat) (config : Config)
    (schedule : Schedule := .listed) : Store :=
  (((Session.start config locationCount).seed observations).1.propagate schedule).1.store

theorem analyze_ok_store {observations : List Observation} {locationCount : Nat} {config : Config}
    {schedule : Schedule} {typing : Typing}
    (ok : analyze observations locationCount config schedule = .ok typing) :
    ∃ seeded final, Analysis observations locationCount config seeded final ∧
      final.store = analyzedStore observations locationCount config schedule ∧
      typing = .ofStore config final.store := by
  cases seeding : (Seeding.start (.withLocations locationCount)).observeAll config.pointerSize
    observations with
  | mk seeded failure =>
  cases failure with
  | some failure => simp [analyze, Session.seed, Session.start, seeding] at ok
  | none =>
    simp only [analyzedStore, analyze, Session.seed, Session.start, seeding, List.nil_append,
      Session.propagate] at ok ⊢
    cases ran : (seeded.store.propagate schedule (config.stepCap seeded.store.size)
      seeded.merges) with
    | mk store outcome =>
    rw [ran] at ok
    cases outcome with
    | error failure => cases ok
    | ok work =>
      obtain ⟨count, _, final, steps, done, last, _⟩ := Propagation.run_ok (congrArg Prod.snd ran)
      have same : store = final.store := (congrArg Prod.fst ran).symm.trans last
      exact ⟨seeded, final, ⟨seeding, ⟨schedule, count, steps⟩, done⟩, same.symm,
        by simpa [Session.typing, same, eq_comm] using ok⟩

theorem analyze_ok {observations : List Observation} {locationCount : Nat} {config : Config}
    {schedule : Schedule} {typing : Typing}
    (ok : analyze observations locationCount config schedule = .ok typing) :
    ∃ seeded final, Analysis observations locationCount config seeded final ∧
      typing = .ofStore config final.store := by
  obtain ⟨seeded, final, analysis, _, same⟩ := analyze_ok_store ok
  exact ⟨seeded, final, analysis, same⟩

theorem inferTypes_ok {table : LocationTable} {events : List Event} {config : Config}
    {schedule : Schedule} {typing : Typing}
    (ok : inferTypes table events config schedule = .ok typing) :
    ∃ observations seeded final, collect table events = .ok observations ∧
      Analysis observations table.size config seeded final ∧
      typing = .ofStore config final.store := by
  unfold inferTypes at ok
  cases collected : collect table events with
  | error rejection => simp [collected] at ok
  | ok observations =>
    simp only [collected] at ok
    cases analyzed : analyze observations table.size config schedule with
    | error failure =>
      rw [analyzed] at ok
      cases ok
    | ok found =>
      rw [analyzed] at ok
      cases ok
      obtain ⟨seeded, final, analysis, rfl⟩ := analyze_ok analyzed
      exact ⟨observations, seeded, final, rfl, analysis, rfl⟩

namespace Analysis

variable {observations : List Observation} {locationCount : Nat} {config : Config}
  {seeded : Seeding} {final : Propagation}
  (analysis : Analysis observations locationCount config seeded final)
include analysis

theorem observes : Seeding.Observes config.pointerSize observations
    (Seeding.start (.withLocations locationCount)) seeded :=
  Seeding.observeAll_observes (Seeding.wellFormed_start _) analysis.seeding

theorem wellFormed : seeded.WellFormed := analysis.observes.onward.wellFormed

theorem inside : (Propagation.start seeded.store seeded.merges).Inside := analysis.wellFormed.inside

theorem finalInside : final.Inside :=
  analysis.steps.elim fun _ run => run.elim fun _ steps => steps.inside analysis.inside

theorem replays : Seeding.Replays config.pointerSize observations
    (Seeding.start (.withLocations locationCount)) (Seeding.start final.store) := by
  obtain ⟨_, _, steps⟩ := analysis.steps
  have first := Seeding.replays_observeAll (Seeding.wellFormed_start _) analysis.seeding
  exact first.onward (Seeding.replays_steps analysis.wellFormed steps analysis.done)

theorem finalLocationCount : final.store.locationCount = locationCount :=
  (analysis.replays.follows []).locationCount

theorem finalWellFormed : (Seeding.start final.store).WellFormed :=
  (analysis.replays.follows []).wellFormed

theorem ordered : final.store.Each fun constraint => Slot.Ordered constraint.slots :=
  fun cls => (analysis.finalWellFormed.formed cls).ordered

theorem unique : final.store.model.Unique := analysis.finalWellFormed.unique

theorem closed : final.store.Closed final.store.extent := by
  obtain ⟨_, _, steps⟩ := analysis.steps
  exact Propagation.closed_of_done
    (steps.tracksExtents analysis.inside (Propagation.tracksExtents_start _ _)) analysis.done

theorem least : final.store.Least := by
  obtain ⟨_, _, steps⟩ := analysis.steps
  have zeroExtents (cls : ClassId) : seeded.store.extent cls = 0 := by
    refine (analysis.observes.onward.extent cls).trans ?_
    show ((Store.withLocations locationCount).constraint cls).extent = 0
    rw [Store.constraint_withLocations]
  exact (steps.minimalExtents analysis.inside (Propagation.minimalExtents_start zeroExtents)).least

theorem observed : ∀ observation ∈ observations,
    final.store.scene.Observed config.pointerSize [] observation :=
  (analysis.replays.follows []).observed_scene

/-- Wherever all was observed, the store can be found again. -/
theorem exists_labels {Label : Type} {scene : Scene Label} (unique : scene.Unique)
    (observed : ∀ observation ∈ observations, scene.Observed config.pointerSize [] observation) :
    ∃ label : ClassId → Label, (∀ loc : LocId, loc.index < locationCount →
      label loc.initialClass = scene.place loc) ∧ final.store.Holds label scene.toModel :=
  analysis.replays.exists_store_labels unique observed

theorem label_eq_root {label : ClassId → ClassId}
    (holds : final.store.Holds label final.store.model)
    (placed : ∀ loc : LocId, loc.index < locationCount →
      label loc.initialClass = final.store.classOf loc)
    {cls : ClassId} (inside : cls.index < final.store.size) : label cls = final.store.root cls := by
  let good (cls : ClassId) : Prop := label cls = cls
  have all : good (final.store.root cls) := by
    apply analysis.replays.reached_store _ _ cls inside
    · intro loc declared
      exact (holds.root loc.initialClass).trans (placed loc declared)
    · intro cls role target _ held refers
      have given := (holds.constraint cls).refers role target refers
      rw [show label cls = cls from held] at given
      refine (holds.root target).trans ?_
      exact analysis.unique given ⟨target, refers, rfl⟩
  rw [← holds.root]
  exact all

end Analysis

/-- What a use of `loc` contributes to each location alone. The classes in the signature tell its
length only. -/
def Use.contributions (loc : LocId) : Use → List (LocId × Constraint)
  | read size => [(loc, { evidence := {.read}, maxAccess := size })]
  | write size => [(loc, { evidence := {.written}, maxAccess := size })]
  | assignedFrom _ => [(loc, { evidence := {.assigned} })]
  | dereference base _ size =>
    [(base, { evidence := {.dereferenced} }), (loc, { maxAccess := size })]
  | callWithArgs args => [(loc, { evidence := {.called} }),
      (loc, { signature := some ⟨some (args.map fun _ => .absent), .absent⟩ })]
  | callReturns callee =>
    [(callee, { evidence := {.called} }), (loc, { evidence := {.callResult} })]
  | comparedWith _ signedness =>
    [(loc, { evidence := .ofFlags (.compared :: (signedness.map Flag.observed).toList) })]
  | arithmeticWith other operator =>
    let reckoned : Constraint :=
      { evidence := .ofFlags (.arithmetic :: (operator.signedness.map Flag.observed).toList) }
    (loc, reckoned) :: if operator.isAdditive then [] else [(other, reckoned)]

namespace Store

/-- A hint, or a part of one, was declared for the class. -/
inductive Hinted (pointerSize : UInt8) (observations : List Observation) (store : Store) :
    Hint → ClassId → Prop where
  | observed {observation : Observation} {hint : Hint} : observation ∈ observations →
      observation.hint = some hint →
      Hinted pointerSize observations store hint (store.classOf observation.location)
  | definition {name : String} {definition : Hint} {cls : ClassId} :
      Hinted pointerSize observations store (.named name definition) cls →
      Hinted pointerSize observations store definition cls
  /-- What has no size is the target of the pointer itself. -/
  | target {inner : Hint} {cls target : ClassId} :
      Hinted pointerSize observations store (.pointer inner) cls → inner.size pointerSize = none →
      store.model.refers cls .pointee target →
      Hinted pointerSize observations store inner target
  /-- A value that is pointed at is at the base of the target. -/
  | value {inner : Hint} {size : UInt8} {cls target value : ClassId} :
      Hinted pointerSize observations store (.pointer inner) cls →
      inner.size pointerSize = some size → store.model.refers cls .pointee target →
      store.model.refers target (.slot 0 size) value →
      Hinted pointerSize observations store inner value
  | param {name : Option String} {params : List Hint} {ret param : Hint} {place : Nat}
      {cls target : ClassId} :
      Hinted pointerSize observations store (.function name params ret) cls →
      params[place]? = some param → store.model.refers cls (.param place) target →
      Hinted pointerSize observations store param target
  | result {name : Option String} {params : List Hint} {ret : Hint} {cls target : ClassId} :
      Hinted pointerSize observations store (.function name params ret) cls →
      store.model.refers cls .result target →
      Hinted pointerSize observations store ret target

/-- An observation contributes this to the class. -/
inductive Contributed (pointerSize : UInt8) (observations : List Observation) (store : Store) :
    ClassId → Constraint → Prop where
  | use {observation : Observation} {loc : LocId} {constraint : Constraint} :
      observation ∈ observations →
      (loc, constraint) ∈ observation.use.contributions observation.location →
      Contributed pointerSize observations store (store.classOf loc) constraint
  | hint {hint : Hint} {cls : ClassId} : Hinted pointerSize observations store hint cls →
      Contributed pointerSize observations store cls (hint.declaration pointerSize)
  | name {name : String} {definition : Hint} {cls : ClassId} :
      Hinted pointerSize observations store (.named name definition) cls →
      Contributed pointerSize observations store cls { declaredName := some name }

end Store

namespace Scene

variable {Label : Type}

/-- The scene with the traits that are contributed and no others. -/
def withOnly (scene : Scene Label) (contributed : Label → Constraint → Prop) : Scene Label :=
  { scene with
    has := fun here trait => ∃ constraint, contributed here constraint ∧ constraint.Has trait }

theorem shows_withOnly {scene : Scene Label} {contributed : Label → Constraint → Prop}
    {here : Label} {constraint : Constraint} (given : contributed here constraint) :
    (scene.withOnly contributed).Shows here constraint :=
  fun _ has => ⟨constraint, given, has⟩

theorem shows_of_used {scene : Scene Label} {here : LocId} {use : Use}
    (used : scene.Used (scene.place here) use) {loc : LocId} {constraint : Constraint}
    (listed : (loc, constraint) ∈ use.contributions here) :
    scene.Shows (scene.place loc) constraint := by
  cases use with
  | callWithArgs args =>
    simp only [Use.contributions, List.mem_cons, List.not_mem_nil, or_false, Prod.mk.injEq]
      at listed
    obtain ⟨called, _, arity, _⟩ := used
    rcases listed with ⟨rfl, rfl⟩ | ⟨rfl, rfl⟩
    · exact called
    · intro trait has
      cases trait with
      | arity count =>
        obtain ⟨known, found, least⟩ := has
        have length : args.length = known := by
          simpa [Constraint.arity, Signature.arity] using found
        exact arity count (length ▸ least)
      | evidence flag => exact absurd has (Constraint.not_has_empty (.evidence flag))
      | access size => exact absurd has (Constraint.not_has_empty (.access size))
      | _ => simp [Constraint.Has] at has
  | dereference base offset size =>
    simp only [Use.contributions, List.mem_cons, List.not_mem_nil, or_false, Prod.mk.injEq]
      at listed
    rcases listed with ⟨rfl, rfl⟩ | ⟨rfl, rfl⟩
    · exact used.1
    · exact used.2.1
  | callReturns callee =>
    simp only [Use.contributions, List.mem_cons, List.not_mem_nil, or_false, Prod.mk.injEq]
      at listed
    rcases listed with ⟨rfl, rfl⟩ | ⟨rfl, rfl⟩
    · exact used.1
    · exact used.2.1
  | arithmeticWith other operator =>
    rcases List.mem_cons.1 listed with same | binding
    · cases same
      exact used.1
    · split at binding
      · cases binding
      · rename_i both
        cases List.mem_singleton.1 binding
        exact used.2 (Bool.eq_false_iff.2 both)
  | read size => cases List.mem_singleton.1 listed; exact used
  | write size => cases List.mem_singleton.1 listed; exact used
  | assignedFrom source => cases List.mem_singleton.1 listed; exact used.1
  | comparedWith other signedness => cases List.mem_singleton.1 listed; exact used.1

theorem exists_of_declaredAll {scene : Scene Label} {pointerSize : UInt8} {lost : List String}
    {hints : List Hint} {targets : List Label}
    (declared : scene.DeclaredAll pointerSize lost hints targets) {place : Nat} {hint : Hint}
    (found : hints[place]? = some hint) :
    ∃ target, targets[place]? = some target ∧ scene.Declared pointerSize lost hint target := by
  induction hints generalizing targets place with
  | nil => cases found
  | cons first rest ih =>
    simp only [DeclaredAll] at declared
    obtain ⟨target, others, rfl, head, all⟩ := declared
    cases place with
    | zero =>
      cases found
      exact ⟨target, rfl, head⟩
    | succ place => exact ih all found

section function

variable {Label : Type} {scene : Scene Label} {pointerSize : UInt8} {name : Option String}
  {params : List Hint} {ret : Hint} {here : Label}

theorem exists_param_of_declared
    (declared : scene.Declared pointerSize [] (.function name params ret) here) {place : Nat}
    {param : Hint} (found : params[place]? = some param) :
    ∃ target, scene.refers here (.param place) target ∧
      scene.Declared pointerSize [] param target := by
  simp only [Declared] at declared
  obtain ⟨_, _, ⟨targets, all, takes⟩, _⟩ := declared
  obtain ⟨target, placed, declared⟩ := exists_of_declaredAll all found
  exact ⟨target, takes place target placed, declared⟩

theorem exists_result_of_declared
    (declared : scene.Declared pointerSize [] (.function name params ret) here) :
    ∃ result, scene.refers here .result result ∧ scene.Declared pointerSize [] ret result := by
  simp only [Declared] at declared
  exact declared.2.2.2

end function

end Scene

namespace Store

variable {pointerSize : UInt8} {observations : List Observation} {store : Store}

theorem Hinted.declared (unique : store.model.Unique) (observed : ∀ observation ∈ observations,
    store.scene.Observed pointerSize [] observation) {hint : Hint} {cls : ClassId}
    (hinted : store.Hinted pointerSize observations hint cls) :
    store.scene.Declared pointerSize [] hint cls := by
  induction hinted with
  | observed member hinted => exact (observed _ member).2 _ hinted
  | definition _ ih =>
    rw [Scene.declared_named] at ih
    exact ih.2.2
  | target _ unsized refers ih =>
    simp only [Scene.Declared, unsized] at ih
    obtain ⟨_, target, points, declared⟩ := ih
    exact unique points refers ▸ declared
  | value _ sized refers slot ih =>
    simp only [Scene.Declared, sized] at ih
    obtain ⟨_, target, points, value, held, declared⟩ := ih
    have same := unique points refers
    subst same
    exact unique held slot ▸ declared
  | param _ found refers ih =>
    obtain ⟨target, takes, declared⟩ := Scene.exists_param_of_declared ih found
    exact unique takes refers ▸ declared
  | result _ refers ih =>
    obtain ⟨result, returns, declared⟩ := Scene.exists_result_of_declared ih
    exact unique returns refers ▸ declared

mutual
theorem declared_withOnly (hint : Hint) {cls : ClassId}
    (hinted : store.Hinted pointerSize observations hint cls)
    (declared : store.scene.Declared pointerSize [] hint cls) :
    (store.scene.withOnly (store.Contributed pointerSize observations)).Declared pointerSize [] hint
      cls := by
  have contributed : (store.scene.withOnly (store.Contributed pointerSize observations)).Shows cls
      (hint.declaration pointerSize) := Scene.shows_withOnly (.hint hinted)
  match hint with
  | .void =>
    simp only [Scene.Declared]
    exact contributed
  | .int size signedness =>
    simp only [Scene.Declared]
    exact contributed
  | .pointer inner =>
    simp only [Scene.Declared] at declared ⊢
    obtain ⟨_, target, points, declared⟩ := declared
    refine ⟨contributed, target, points, ?_⟩
    cases size : inner.size pointerSize with
    | some bytes =>
      simp only [size] at declared ⊢
      obtain ⟨value, slot, declared⟩ := declared
      exact ⟨value, slot, declared_withOnly inner (.value hinted size points slot) declared⟩
    | none =>
      simp only [size] at declared ⊢
      exact declared_withOnly inner (.target hinted size points) declared
  | .function name params ret =>
    simp only [Scene.Declared] at declared ⊢
    obtain ⟨_, _, ⟨targets, all, takes⟩, result, returns, declared⟩ := declared
    refine ⟨fun trait has => contributed trait ?_, fun count least => contributed (.arity count) ?_,
      ⟨targets, declaredAll_withOnly params targets ?_ all, takes⟩, result, returns,
      declared_withOnly ret (.result hinted returns) declared⟩
    · cases trait with
      | arity count => simp [Constraint.Has, Constraint.arity] at has
      | _ => exact has
    · exact ⟨params.length, by simp [Constraint.arity, Hint.declaration, Signature.arity], least⟩
    · intro place param target found placed
      exact .param hinted found (takes place target placed)
  | .named name definition =>
    rw [Scene.declared_named] at declared ⊢
    exact ⟨declared.1, Scene.shows_withOnly (.name hinted),
      declared_withOnly definition (.definition hinted) declared.2.2⟩

theorem declaredAll_withOnly (hints : List Hint) (targets : List ClassId)
    (hinted : ∀ (place : Nat) hint target, hints[place]? = some hint →
      targets[place]? = some target → store.Hinted pointerSize observations hint target)
    (declared : store.scene.DeclaredAll pointerSize [] hints targets) :
    (store.scene.withOnly (store.Contributed pointerSize observations)).DeclaredAll pointerSize []
      hints
      targets := by
  match hints with
  | [] =>
    simp only [Scene.DeclaredAll] at declared ⊢
    exact declared
  | hint :: rest =>
    simp only [Scene.DeclaredAll] at declared ⊢
    obtain ⟨target, others, rfl, declared, all⟩ := declared
    exact ⟨target, others, rfl, declared_withOnly hint (hinted 0 hint target rfl rfl) declared,
      declaredAll_withOnly rest others (fun place => hinted (place + 1)) all⟩
end

theorem used_withOnly {observation : Observation} (member : observation ∈ observations)
    (used : store.scene.Used (store.classOf observation.location) observation.use) :
    (store.scene.withOnly (store.Contributed pointerSize observations)).Used
      (store.classOf observation.location) observation.use := by
  have contributed {loc : LocId} {constraint : Constraint}
      (listed : (loc, constraint) ∈ observation.use.contributions observation.location) :
      (store.scene.withOnly (store.Contributed pointerSize observations)).Shows (store.classOf loc)
        constraint := Scene.shows_withOnly (.use member listed)
  generalize observation.use = use at used contributed
  cases use with
  | read size => exact contributed List.mem_cons_self
  | write size => exact contributed List.mem_cons_self
  | assignedFrom source => exact ⟨contributed List.mem_cons_self, used.2⟩
  | dereference base offset size =>
    exact ⟨contributed List.mem_cons_self,
      contributed (List.mem_cons_of_mem _ List.mem_cons_self), used.2.2⟩
  | callWithArgs args =>
    refine ⟨contributed List.mem_cons_self, used.2.1, fun count least => ?_, used.2.2.2⟩
    apply contributed (List.mem_cons_of_mem _ List.mem_cons_self) (.arity count)
    exact ⟨args.length, by simp [Constraint.arity, Signature.arity], least⟩
  | callReturns callee =>
    exact ⟨contributed List.mem_cons_self,
      contributed (List.mem_cons_of_mem _ List.mem_cons_self), used.2.2⟩
  | comparedWith other signedness => exact ⟨contributed List.mem_cons_self, used.2⟩
  | arithmeticWith other operator =>
    refine ⟨contributed List.mem_cons_self, fun binding => contributed (List.mem_cons_of_mem _ ?_)⟩
    rw [binding]
    exact List.mem_cons_self

theorem observed_withOnly {observation : Observation} (member : observation ∈ observations)
    (observed : store.scene.Observed pointerSize [] observation) :
    (store.scene.withOnly (store.Contributed pointerSize observations)).Observed pointerSize []
      observation :=
  ⟨used_withOnly member observed.1, fun hint hinted =>
    declared_withOnly hint (.observed member hinted) (observed.2 hint hinted)⟩

theorem Contributed.shows (unique : store.model.Unique) (observed : ∀ observation ∈ observations,
    store.scene.Observed pointerSize [] observation) {cls : ClassId} {constraint : Constraint}
    (contributed : store.Contributed pointerSize observations cls constraint) :
    store.model.Shows cls constraint := by
  cases contributed with
  | use member listed => exact Scene.shows_of_used (observed _ member).1 listed
  | hint hinted => exact Scene.shows_declaration (hinted.declared unique observed)
  | name hinted =>
    have declared := hinted.declared unique observed
    rw [Scene.declared_named] at declared
    exact declared.2.1

end Store

namespace Analysis

variable {observations : List Observation} {locationCount : Nat} {config : Config}
  {seeded : Seeding} {final : Propagation}
  (analysis : Analysis observations locationCount config seeded final)
include analysis

/-- A class has the traits that observations contribute to it, and no others. -/
theorem has_iff {root : ClassId} (isRoot : root ∈ final.store.roots) {trait : Trait} :
    (final.store.constraint root).Has trait ↔ ∃ constraint,
      final.store.Contributed config.pointerSize observations root constraint ∧
        constraint.Has trait := by
  constructor
  · obtain ⟨inside, fixed⟩ := Store.mem_roots.1 isRoot
    have observed (observation : Observation) (member : observation ∈ observations) :=
      Store.observed_withOnly member (analysis.observed observation member)
    obtain ⟨label, placed, holds⟩ := analysis.exists_labels analysis.unique observed
    have model : final.store.Holds label final.store.model := by
      refine ⟨holds.root, fun cls => ⟨fun trait has => ?_, (holds.constraint cls).refers⟩⟩
      obtain ⟨constraint, contributed, has⟩ := (holds.constraint cls).has trait has
      exact contributed.shows analysis.unique analysis.observed trait has
    have same := (analysis.label_eq_root model placed inside).trans fixed
    intro has
    have contributed := (holds.constraint root).has trait has
    rwa [same] at contributed
  · rintro ⟨constraint, contributed, has⟩
    exact contributed.shows analysis.unique analysis.observed trait has

end Analysis

end TypeRecovery
