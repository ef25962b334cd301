import TypeRecovery.Inference
import TypeRecovery.Proofs.Extents
import TypeRecovery.Proofs.LeastCongruence
import TypeRecovery.Proofs.Reachability
/-!
Labellings along the calls of a session. A session has its store and the equalities that wait, which
together are a seeding. A labelling that holds after a call held before, and observations that were
seeded hold there. Where no call failed, labels can be found for the new classes in any scene in
which the observations hold.
-/
namespace TypeRecovery

namespace Propagation

variable {schedule : Schedule} {state after final : Propagation}

theorem declarations_leads (leads : Step.Leads schedule state after) (inside : state.Inside) :
    after.store.locationCount = state.store.locationCount ∧
      after.store.typedefs = state.store.typedefs := by
  cases leads with
  | same a b pending same store =>
    rw [store]
    exact ⟨rfl, rfl⟩
  | united a b more merge pending found =>
    have unites := inside.unites pending found
    exact ⟨unites.locationCount, unites.typedefs⟩
  | refined cls more pending worklist rest store =>
    rw [store]
    exact ⟨rfl, rfl⟩

theorem Steps.declarations {count : Nat} (steps : Steps schedule count state final)
    (inside : state.Inside) : final.store.locationCount = state.store.locationCount ∧
      final.store.typedefs = state.store.typedefs := by
  induction steps with
  | none => exact ⟨rfl, rfl⟩
  | next found _ ih =>
    have leads := @leads schedule _ _ _ found
    have first := declarations_leads leads inside
    have later := ih (inside_leads leads inside)
    exact ⟨later.1.trans first.1, later.2.trans first.2⟩

theorem holds_of_done {Label : Type} {label : ClassId → Label} {model : Model Label}
    (done : state.next? = none) (holds : state.store.Holds label model) :
    state.Holds label model := by
  refine ⟨holds, ?_⟩
  rw [(done_iff.1 done).1]
  exact List.forall_mem_nil _

theorem run_steps (schedule : Schedule) (cap budget : Nat) (state : Propagation) :
    ∃ count final, Steps schedule count state final ∧
      (run schedule cap budget state).1 = final.store := by
  induction budget generalizing state with
  | zero =>
    refine ⟨0, state, .none state, ?_⟩
    unfold run
    split
    · rfl
    · rename_i step rest found
      unfold next? at found
      split at found <;> cases found <;> rfl
  | succ budget ih =>
    cases found : state.next? with
    | none => exact ⟨0, state, .none state, by simp only [run, found]⟩
    | some entry =>
      obtain ⟨step, rest⟩ := entry
      obtain ⟨count, final, steps, same⟩ := ih (rest.perform schedule step)
      refine ⟨count + 1, final, .next found steps, ?_⟩
      simp only [run, found]
      exact same

end Propagation

namespace Store

theorem typedef?_of_typedefs {store after : Store} (same : after.typedefs = store.typedefs)
    {name : String} {entry : ClassId × Hint} (found : after.typedef? name = some entry) :
    ∃ cls, entry.1 = after.root cls ∧ store.typedef? name = some (store.root cls, entry.2) := by
  unfold typedef? at found ⊢
  rw [same] at found
  obtain ⟨typedef, known, rfl⟩ := Option.map_eq_some_iff.1 found
  exact ⟨typedef.cls, rfl, by rw [known, Option.map_some]⟩

theorem inside_of_root {store : Store} {cls : ClassId}
    (inside : (store.root cls).index < store.size) : cls.index < store.size := by
  apply Nat.lt_of_not_le
  intro outside
  rw [root_of_outside outside] at inside
  exact absurd inside (Nat.not_lt_of_le outside)

/-- A store as a scene. A name that no hint used stands outside. -/
def scene (store : Store) : Scene ClassId where
  toModel := store.model
  place := store.classOf
  named name := match store.typedef? name with
    | some entry => entry.1
    | none => ⟨store.size⟩

end Store

theorem Constraint.ordered_relink (find : ClassId → ClassId) {constraint : Constraint}
    (ordered : Slot.Ordered constraint.slots) : Slot.Ordered (constraint.relink find).slots :=
  List.pairwise_map.2 (ordered.imp fun before => before)

namespace Seeding

variable {Label : Type} {label : ClassId → Label} {scene : Scene Label} {pointerSize : UInt8}
  {lost : List String} {observations : List Observation} {seeding after : Seeding} {count : Nat}

theorem wellFormed_start (count : Nat) : (start (.withLocations count)).WellFormed := by
  refine ⟨fun cls => ?_, List.forall_mem_nil _, fun found => ?_⟩
  · show ((Store.withLocations count).constraint cls).Formed _
    rw [Store.constraint_withLocations]
    exact (Constraint.fits_empty _).toFormed
  · cases found

theorem holds_start : (start (.withLocations count)).Holds label scene ↔
    ∀ loc : LocId, loc.index < count → label loc.initialClass = scene.place loc := by
  refine ⟨Holds.place, fun place => ⟨⟨fun cls => ?_, fun cls => ?_⟩, List.forall_mem_nil _, place,
    fun found => by cases found⟩⟩
  · exact congrArg label (Forest.root_singletons count cls)
  · show ((Store.withLocations count).constraint cls).Holds _ _ _
    rw [Store.constraint_withLocations]
    exact Constraint.holds_empty

theorem sound_start (scene : Scene Label) (pointerSize : UInt8) (lost : List String)
    (count : Nat) : Sound scene pointerSize lost (start (.withLocations count)) := by
  intro name entry found
  cases found

theorem WellFormed.inside (wellFormed : seeding.WellFormed) :
    (Propagation.start seeding.store seeding.merges).Inside :=
  Propagation.inside_start (fun {cls _ _} refers => (wellFormed.formed cls).refers refers)
    wellFormed.merges

theorem WellFormed.unique (wellFormed : seeding.WellFormed) : seeding.store.model.Unique :=
  Store.model_unique fun cls => Slot.separate_of_ordered (wellFormed.formed cls).ordered

/-- A call led from one state of what is known to another, and the observations are known there. The
definitions of some typedefs may have been lost. -/
structure Follows (pointerSize : UInt8) (lost : List String) (observations : List Observation)
    (seeding after : Seeding) : Prop where
  size : seeding.store.size ≤ after.store.size
  locationCount : after.store.locationCount = seeding.store.locationCount
  wellFormed : after.WellFormed
  declared : ∀ observation ∈ observations, ∀ loc ∈ observation.locations,
    loc.index < seeding.store.locationCount
  holds_of : ∀ {Label : Type} {label : ClassId → Label} {scene : Scene Label},
    after.Holds label scene → seeding.Holds label scene
  observed : ∀ {Label : Type} {label : ClassId → Label} {scene : Scene Label},
    after.Holds label scene → Sound scene pointerSize lost seeding →
    Sound scene pointerSize lost after ∧
      ∀ observation ∈ observations, scene.Observed pointerSize lost observation

theorem Follows.trans {first second : List Observation} {middle : Seeding}
    (left : Follows pointerSize lost first seeding middle)
    (right : Follows pointerSize lost second middle after) :
    Follows pointerSize lost (first ++ second) seeding after where
  size := Nat.le_trans left.size right.size
  locationCount := right.locationCount.trans left.locationCount
  wellFormed := right.wellFormed
  declared := List.forall_mem_append.2
    ⟨left.declared, by rw [← left.locationCount]; exact right.declared⟩
  holds_of holds := left.holds_of (right.holds_of holds)
  observed holds sound := by
    obtain ⟨middleSound, firstObserved⟩ := left.observed (right.holds_of holds) sound
    obtain ⟨afterSound, secondObserved⟩ := right.observed holds middleSound
    exact ⟨afterSound, List.forall_mem_append.2 ⟨firstObserved, secondObserved⟩⟩

theorem Follows.onward {middle : Seeding}
    (left : Follows pointerSize lost observations seeding middle)
    (right : Follows pointerSize lost [] middle after) :
    Follows pointerSize lost observations seeding after :=
  List.append_nil observations ▸ left.trans right

/-- No more is known after a call than before it and than the observations tell. -/
structure Replays (pointerSize : UInt8) (observations : List Observation)
    (seeding after : Seeding) : Prop where
  follows : ∀ lost, Follows pointerSize lost observations seeding after
  exists_labels : ∀ {Label : Type} {label : ClassId → Label} {scene : Scene Label}, scene.Unique →
    seeding.Holds label scene →
    (∀ observation ∈ observations, scene.Observed pointerSize [] observation) →
    ∃ other, Continues seeding.store.size label other ∧ after.Holds other scene
  reached : ∀ {reached : ClassId → Prop} {named : String → Prop}, Reached reached seeding →
    after.Holds reached (Scene.reaching named) → Reached reached after
  bounded : ∀ {Label : Type} {label : ClassId → Label} {scene : Scene Label}
    {bound : Label → UInt64}, scene.toModel.Roomy bound → after.Holds label scene →
    seeding.store.Bounded label bound → after.store.Bounded label bound

theorem Replays.trans {first second : List Observation} {middle : Seeding}
    (left : Replays pointerSize first seeding middle)
    (right : Replays pointerSize second middle after) :
    Replays pointerSize (first ++ second) seeding after where
  follows lost := (left.follows lost).trans (right.follows lost)
  exists_labels unique holds observed := by
    obtain ⟨firstObserved, secondObserved⟩ := List.forall_mem_append.1 observed
    obtain ⟨other, continues, middleHolds⟩ := left.exists_labels unique holds firstObserved
    obtain ⟨last, later, afterHolds⟩ := right.exists_labels unique middleHolds secondObserved
    exact ⟨last, continues.trans later (left.follows []).size, afterHolds⟩
  reached all holds := right.reached (left.reached all ((right.follows []).holds_of holds)) holds
  bounded roomy holds bounded :=
    right.bounded roomy holds (left.bounded roomy ((right.follows []).holds_of holds) bounded)

theorem Replays.onward {middle : Seeding}
    (left : Replays pointerSize observations seeding middle)
    (right : Replays pointerSize [] middle after) :
    Replays pointerSize observations seeding after :=
  List.append_nil observations ▸ left.trans right

theorem Follows.refl (wellFormed : seeding.WellFormed) :
    Follows pointerSize lost [] seeding seeding :=
  ⟨Nat.le_refl _, rfl, wellFormed, List.forall_mem_nil _, id,
    fun _ sound => ⟨sound, List.forall_mem_nil _⟩⟩

theorem Replays.refl (wellFormed : seeding.WellFormed) :
    Replays pointerSize [] seeding seeding where
  follows _ := .refl wellFormed
  exists_labels _ holds _ := ⟨_, Continues.refl _ _, holds⟩
  reached all _ := all
  bounded _ _ bounded := bounded

section closing

variable {schedule : Schedule} {final : Propagation}

theorem size_steps (wellFormed : seeding.WellFormed)
    (steps : Propagation.Steps schedule count (.start seeding.store seeding.merges) final) :
    final.store.size = seeding.store.size := steps.size wellFormed.inside

theorem declarations_steps (wellFormed : seeding.WellFormed)
    (steps : Propagation.Steps schedule count (.start seeding.store seeding.merges) final) :
    final.store.locationCount = seeding.store.locationCount ∧
    final.store.typedefs = seeding.store.typedefs := steps.declarations wellFormed.inside

theorem wellFormed_steps (wellFormed : seeding.WellFormed)
    (steps : Propagation.Steps schedule count (.start seeding.store seeding.merges) final) :
    (start final.store).WellFormed := by
  have finalInside := steps.inside wellFormed.inside
  have ordered : final.store.Each fun constraint => Slot.Ordered constraint.slots :=
    steps.each (fun {_ b} left _ => Slot.addAll_ordered b.slots left)
      (fun find _ known => Constraint.ordered_relink find known) wellFormed.inside
      fun cls => (wellFormed.formed cls).ordered
  refine ⟨fun cls => ⟨finalInside.refers, ordered cls⟩, List.forall_mem_nil _, fun found => ?_⟩
  obtain ⟨cls, same, known⟩ :=
    Store.typedef?_of_typedefs (declarations_steps wellFormed steps).2 found
  rw [same]
  apply Store.root_inside
  show cls.index < final.store.size
  rw [size_steps wellFormed steps]
  exact Store.inside_of_root (wellFormed.typedefs known)

theorem holds_steps (wellFormed : seeding.WellFormed)
    (steps : Propagation.Steps schedule count (.start seeding.store seeding.merges) final)
    (unique : scene.Unique) (holds : seeding.Holds label scene) :
    (start final.store).Holds label scene := by
  have kept := declarations_steps wellFormed steps
  have after := (steps.holds unique wellFormed.inside ⟨holds.store, holds.merges⟩).1
  refine ⟨after, List.forall_mem_nil _, fun loc declared => holds.place loc ?_, fun found => ?_⟩
  · exact kept.1 ▸ declared
  · obtain ⟨cls, same, known⟩ := Store.typedef?_of_typedefs kept.2 found
    rw [same, after.root]
    exact (holds.store.root cls).symm.trans (holds.named known)

theorem holds_of_steps (wellFormed : seeding.WellFormed)
    (steps : Propagation.Steps schedule count (.start seeding.store seeding.merges) final)
    (done : final.next? = none) (holds : (start final.store).Holds label scene) :
    seeding.Holds label scene := by
  have kept := declarations_steps wellFormed steps
  have before := steps.holds_of wellFormed.inside (Propagation.holds_of_done done holds.store)
  refine ⟨before.1, before.2, fun loc declared => holds.place loc ?_, fun found => ?_⟩
  · exact kept.1.symm ▸ declared
  · obtain ⟨cls, same, known⟩ := Store.typedef?_of_typedefs kept.2.symm found
    have root : label (seeding.store.root cls) = label cls := before.1.root cls
    rw [same, root]
    exact (holds.store.root cls).symm.trans (holds.named known)

theorem replays_steps (wellFormed : seeding.WellFormed)
    (steps : Propagation.Steps schedule count (.start seeding.store seeding.merges) final)
    (done : final.next? = none) :
    Replays pointerSize [] seeding (start final.store) where
  follows lost := by
    have kept := declarations_steps wellFormed steps
    constructor
    · exact Nat.le_of_eq (size_steps wellFormed steps).symm
    · exact kept.1
    · exact wellFormed_steps wellFormed steps
    · exact List.forall_mem_nil _
    · exact holds_of_steps wellFormed steps done
    · refine fun _ sound => ⟨fun name entry found => ?_, List.forall_mem_nil _⟩
      obtain ⟨cls, _, known⟩ := Store.typedef?_of_typedefs kept.2 found
      have defined := sound name _ known
      exact defined
  exists_labels unique holds _ :=
    ⟨_, Continues.refl _ _, holds_steps wellFormed steps unique holds⟩
  reached all _ cls inside := by
    apply all cls
    rwa [← size_steps wellFormed steps]
  bounded roomy holds bounded :=
    steps.bounded roomy wellFormed.inside (Propagation.holds_of_done done holds.store) bounded

end closing

section queued

variable {store : Store} {waiting merges : List ClassPair}

theorem holds_queued : (⟨store, waiting ++ merges⟩ : Seeding).Holds label scene ↔
    Agree label waiting ∧ (⟨store, merges⟩ : Seeding).Holds label scene := by
  constructor
  · rintro ⟨holds, agree, place, named⟩
    obtain ⟨first, second⟩ := agree_append.1 agree
    exact ⟨first, holds, second, place, named⟩
  · rintro ⟨first, holds, second, place, named⟩
    exact ⟨holds, agree_append.2 ⟨first, second⟩, place, named⟩

theorem holds_waiting : (⟨store, waiting⟩ : Seeding).Holds label scene ↔
    Agree label waiting ∧ (start store).Holds label scene := by
  rw [← holds_queued, start, List.append_nil]

theorem wellFormed_queued (wellFormed : (⟨store, merges⟩ : Seeding).WellFormed)
    (inside : ∀ pair ∈ waiting, pair.1.index < store.size ∧ pair.2.index < store.size) :
    (⟨store, waiting ++ merges⟩ : Seeding).WellFormed :=
  ⟨wellFormed.formed, List.forall_mem_append.2 ⟨inside, wellFormed.merges⟩, wellFormed.typedefs⟩

theorem WellFormed.start (wellFormed : (⟨store, waiting⟩ : Seeding).WellFormed) :
    (start store).WellFormed :=
  ⟨wellFormed.formed, List.forall_mem_nil _, wellFormed.typedefs⟩

theorem inside_waiting (wellFormed : (⟨store, waiting⟩ : Seeding).WellFormed)
    (size : store.size ≤ after.store.size) : ∀ pair ∈ waiting,
      pair.1.index < after.store.size ∧ pair.2.index < after.store.size :=
  fun pair member => (wellFormed.merges pair member).imp (Nat.lt_of_lt_of_le · size)
    (Nat.lt_of_lt_of_le · size)

theorem replays_observeAll (wellFormed : (⟨store, waiting⟩ : Seeding).WellFormed)
    (ok : (Seeding.start store).observeAll pointerSize observations = (after, none)) :
    Replays pointerSize observations ⟨store, waiting⟩ ⟨after.store, waiting ++ after.merges⟩ where
  follows lost := by
    have observes := observeAll_observes wellFormed.start ok
    have onward := observes.onward
    constructor
    · exact onward.size
    · exact onward.locationCount
    · exact wellFormed_queued onward.wellFormed (inside_waiting wellFormed onward.size)
    · exact observes.declared
    · intro _ label scene holds
      obtain ⟨agree, holds⟩ := holds_queued.1 holds
      exact holds_waiting.2 ⟨agree, onward.holds_of holds⟩
    · intro _ label scene holds sound
      exact observes.observed (holds_queued.1 holds).2 sound
  exists_labels {_ label scene} unique holds observed := by
    have observes := observeAll_observes wellFormed.start ok
    obtain ⟨agree, holds⟩ := holds_waiting.1 holds
    obtain ⟨other, continues, afterHolds⟩ := observes.exists_labels unique holds observed
    refine ⟨other, continues, holds_queued.2 ⟨fun pair member => ?_, afterHolds⟩⟩
    obtain ⟨first, second⟩ := wellFormed.merges pair member
    rw [continues _ first, continues _ second]
    exact agree pair member
  reached all holds := by
    have covered := reached_observeAll wellFormed.start all ok (holds_queued.1 holds).2
    exact covered
  bounded roomy holds bounded cls := by
    have onward := (observeAll_observes wellFormed.start ok).onward
    have same : after.store.extent cls = store.extent cls := onward.extent cls
    rw [same]
    exact bounded cls

theorem follows_observeAll (wellFormed : (⟨store, waiting⟩ : Seeding).WellFormed)
    (observations : List Observation)
    (bound : ∀ name, store.typedef? name = none →
      ((Seeding.start store).observeAll pointerSize observations).1.store.typedef? name ≠ none →
      name ∈ lost) :
    Follows pointerSize lost [] ⟨store, waiting⟩
      ⟨((Seeding.start store).observeAll pointerSize observations).1.store, waiting⟩ := by
  -- What was seeded before the failure extends the store, and the equalities that waited wait on.
  have onward := @observeAll_extends _ pointerSize observations wellFormed.start
  constructor
  · exact onward.size
  · exact onward.locationCount
  · exact ⟨onward.wellFormed.formed, inside_waiting wellFormed onward.size,
      onward.wellFormed.typedefs⟩
  · exact List.forall_mem_nil _
  · intro _ label scene holds
    obtain ⟨holds, agree, place, named⟩ := holds
    refine ⟨onward.store_of holds, agree, fun loc declared => place loc ?_,
      fun found => named (onward.typedef found)⟩
    exact onward.locationCount.symm ▸ declared
  · intro _ label scene _ sound
    refine ⟨fun name entry found kept => ?_, List.forall_mem_nil _⟩
    cases known : store.typedef? name with
    | none =>
      refine absurd (bound name known ?_) kept
      rw [found]
      exact Option.some_ne_none entry
    | some old =>
      have same := onward.typedef known
      rw [found] at same
      cases same
      exact sound name entry known kept

end queued

section ending

variable {store : Store}

theorem holds_scene (store : Store) : (start store).Holds store.root store.scene := by
  refine ⟨store.holds_model, List.forall_mem_nil _, fun loc _ => rfl, fun {name entry} found => ?_⟩
  have known : store.typedef? name = some entry := found
  obtain ⟨cls, root, _⟩ := Store.typedef?_of_typedefs rfl known
  simp only [Store.scene, known]
  rw [root, store.root_root]

theorem Follows.observed_scene
    (follows : Follows pointerSize lost observations (start (.withLocations count)) (start store)) :
    ∀ observation ∈ observations, store.scene.Observed pointerSize lost observation :=
  (follows.observed (holds_scene store) (sound_start _ _ _ _)).2

namespace Replays

variable (replays : Replays pointerSize observations (start (.withLocations count)) (start store))
include replays

/-- Wherever all was observed, the store can be found again. -/
theorem exists_holds (unique : scene.Unique)
    (observed : ∀ observation ∈ observations, scene.Observed pointerSize [] observation) :
    ∃ label : ClassId → Label, (start store).Holds label scene := by
  have begun : (start (.withLocations count)).Holds (fun cls => scene.place ⟨cls.index⟩) scene :=
    holds_start.2 fun loc _ => rfl
  obtain ⟨label, _, holds⟩ := replays.exists_labels unique begun observed
  exact ⟨label, holds⟩

theorem placed_of_holds {label : ClassId → Label} (holds : (start store).Holds label scene)
    {loc : LocId} (declared : loc.index < count) : label loc.initialClass = scene.place loc :=
  holds.place loc ((replays.follows []).locationCount.symm ▸ declared)

theorem exists_store_labels (unique : scene.Unique)
    (observed : ∀ observation ∈ observations, scene.Observed pointerSize [] observation) :
    ∃ label : ClassId → Label, (∀ loc : LocId, loc.index < count →
      label loc.initialClass = scene.place loc) ∧ store.Holds label scene.toModel := by
  obtain ⟨label, holds⟩ := replays.exists_holds unique observed
  exact ⟨label, fun _ declared => replays.placed_of_holds holds declared, holds.store⟩

theorem reached_store {good : ClassId → Prop}
    (places : ∀ loc : LocId, loc.index < count → good (store.classOf loc))
    (refers : ∀ {cls role target}, store.root cls = cls → good cls →
      (store.constraint cls).Refers role target → good (store.root target))
    (cls : ClassId) (inside : cls.index < store.size) : good (store.root cls) := by
  -- The property is a labelling by propositions. A typedef has that of the class that it is bound
  -- to.
  let named (name : String) : Prop := match store.typedef? name with
    | some entry => good (store.root entry.1)
    | none => True
  have holds : (start store).Holds (fun cls => good (store.root cls)) (Scene.reaching named) := by
    refine ⟨⟨fun cls => ?_, fun cls => ⟨fun _ _ => trivial, fun role target held holds => ?_⟩⟩,
      List.forall_mem_nil _, fun loc declared => ?_, fun {name entry} found => ?_⟩
    · show good (store.root (store.root cls)) = good (store.root cls)
      rw [store.root_root]
    · have held : (store.constraint cls).Refers role target := held
      rw [← store.constraint_root cls] at held
      exact refers (store.root_root cls) holds held
    · rw [(replays.follows []).locationCount] at declared
      exact eq_true (places loc declared)
    · have known : store.typedef? name = some entry := found
      simp only [Scene.reaching, named, known]
  refine replays.reached (fun cls inside => ?_) holds cls inside
  have declared : cls.index < count := by
    simpa [start, Store.withLocations, Store.size, Forest.size, Forest.singletons] using inside
  exact places ⟨cls.index⟩ declared

end Replays
end ending

end Seeding

namespace Session

variable {session : Session} {observations : List Observation}

def seeding (session : Session) : Seeding := ⟨session.store, session.pending⟩

theorem seed_ok (ok : (session.seed observations).2 = none) :
    ∃ after, (Seeding.start session.store).observeAll session.config.pointerSize observations =
        (after, none) ∧
      (session.seed observations).1 =
        { session with store := after.store, pending := session.pending ++ after.merges } := by
  unfold seed at ok ⊢
  cases seeded : (Seeding.start session.store).observeAll session.config.pointerSize
    observations with
  | mk after failure =>
  cases failure with
  | some failure => simp [seeded] at ok
  | none => exact ⟨after, rfl, by simp only⟩

theorem seed_error {failure : AnalysisFailure}
    (error : (session.seed observations).2 = some failure) :
    (session.seed observations).1 = { session with store :=
      ((Seeding.start session.store).observeAll session.config.pointerSize
        observations).1.store } := by
  unfold seed at error ⊢
  cases seeded : (Seeding.start session.store).observeAll session.config.pointerSize
    observations with
  | mk after failed =>
  cases failed with
  | none => simp [seeded] at error
  | some failed => rfl

theorem config_seed (session : Session) (observations : List Observation) :
    (session.seed observations).1.config = session.config := by
  simp only [seed]
  split <;> rfl

theorem propagate_steps (session : Session) (schedule : Schedule) : ∃ count final,
    Propagation.Steps schedule count (.start session.store session.pending) final ∧
      (session.propagate schedule).1 = { session with store := final.store, pending := [] } := by
  obtain ⟨count, final, steps, last⟩ := Propagation.run_steps schedule
    (session.config.stepCap session.store.size) (session.config.stepCap session.store.size)
    (.start session.store session.pending)
  exact ⟨count, final, steps, by rw [propagate, Store.propagate, last]⟩

theorem propagate_ok {schedule : Schedule} {work : Work}
    (ok : (session.propagate schedule).2 = .ok work) :
    ∃ count final, Propagation.Steps schedule count (.start session.store session.pending) final ∧
      final.next? = none ∧
      (session.propagate schedule).1 = { session with store := final.store, pending := [] } := by
  obtain ⟨count, _, final, steps, done, last, _⟩ := Propagation.run_ok ok
  refine ⟨count, final, steps, done, ?_⟩
  simp only [propagate, Store.propagate, last]

theorem replays_seed (wellFormed : session.seeding.WellFormed)
    (ok : (session.seed observations).2 = none) :
    Seeding.Replays session.config.pointerSize observations session.seeding
      (session.seed observations).1.seeding := by
  obtain ⟨after, seeded, same⟩ := seed_ok ok
  rw [same]
  exact Seeding.replays_observeAll wellFormed seeded

theorem replays_propagate {pointerSize : UInt8} {schedule : Schedule} {work : Work}
    (wellFormed : session.seeding.WellFormed) (ok : (session.propagate schedule).2 = .ok work) :
    Seeding.Replays pointerSize [] session.seeding (session.propagate schedule).1.seeding := by
  obtain ⟨count, final, steps, done, same⟩ := propagate_ok ok
  rw [same]
  exact Seeding.replays_steps wellFormed steps done

end Session
end TypeRecovery
