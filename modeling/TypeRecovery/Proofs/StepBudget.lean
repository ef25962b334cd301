import TypeRecovery.Proofs.AnalysisOutcome
import TypeRecovery.Proofs.CollectedEvents
import TypeRecovery.Proofs.StepBounds
/-!
The steps that propagation needs. Unless fields contain each other in a circle there is a certain
number of them, the same on every schedule, and a run ends early just when its cap is less. A cap by
the number of classes alone does not cover all such runs: every equality that was found takes a
step, whether or not it is new, and as many can be found for a few classes as there are events.
-/
namespace TypeRecovery

namespace Propagation

variable {schedule again : Schedule} {state other first second : Propagation}

theorem Steps.append_of_le {count more : Nat} (steps : Steps schedule count state first)
    (longer : Steps schedule more state second) (le : count ≤ more) :
    Steps schedule (more - count) first second := by
  induction steps generalizing more with
  | none => exact longer
  | next found _ ih =>
    cases longer with
    | none => exact absurd le (Nat.not_succ_le_zero _)
    | next found' longer =>
      rw [found] at found'
      cases found'
      rw [Nat.add_sub_add_right]
      exact ih longer (Nat.le_of_succ_le_succ le)

theorem Steps.eq_zero_of_done {count : Nat} (steps : Steps schedule count state first)
    (done : state.next? = .none) : count = 0 := by
  cases steps with
  | none => rfl
  | next found _ =>
    rw [done] at found
    cases found

theorem Steps.count_unique {count more : Nat} (steps : Steps schedule count state first)
    (done : first.next? = .none) (other : Steps schedule more state second)
    (doneOther : second.next? = .none) : count = more := by
  rcases Nat.le_total count more with le | le
  · have rest := (steps.append_of_le other le).eq_zero_of_done done
    omega
  · have rest := (other.append_of_le steps le).eq_zero_of_done doneOther
    omega

theorem alike_leads (leads : Step.Leads schedule state first) (inside : state.Inside)
    (pending : state.pending = []) :
    first.pending = [] ∧ Store.Alike state.store first.store := by
  cases leads with
  | same a b busy =>
    rw [pending] at busy
    cases busy
  | united a b _ _ busy =>
    rw [pending] at busy
    cases busy
  | refined cls more _ worklist rest store =>
    exact ⟨rest, Store.Refreshes.alike ⟨inside.first worklist, store⟩⟩

theorem Steps.alike {count : Nat} (steps : Steps schedule count state first)
    (inside : state.Inside) (pending : state.pending = []) :
    Store.Alike state.store first.store := by
  induction steps with
  | none state => exact .refl state.store
  | next found _ ih =>
    obtain ⟨rest, alike⟩ := alike_leads (leads found) inside pending
    exact alike.trans (ih (inside_leads (leads found) inside) rest)

theorem merged_of_same (leads : Step.Leads schedule state first)
    (otherLeads : Step.Leads again other second) (store : other.store = state.store)
    (pending : other.pending = state.pending) (busy : state.pending ≠ []) :
    second.store = first.store ∧ second.pending = first.pending := by
  -- What a step makes of the store and the pairs does not look at the worklist while pairs wait.
  cases leads with
  | same a b waiting united kept =>
    cases otherLeads with
    | same a' b' waiting' _ kept' =>
      rw [pending, waiting] at waiting'
      exact ⟨by rw [kept', kept, store], (List.cons.inj waiting').2.symm⟩
    | united a' b' more' merge' waiting' found' =>
      rw [pending, waiting] at waiting'
      cases waiting'
      rw [store, Store.union_none.2 united] at found'
      cases found'
    | refined cls more rest =>
      rw [pending] at rest
      exact absurd rest busy
  | united a b more merge waiting found rest =>
    cases otherLeads with
    | same a' b' waiting' united' =>
      rw [pending, waiting] at waiting'
      cases waiting'
      rw [store] at united'
      rw [Store.union_none.2 united'] at found
      cases found
    | united a' b' more' merge' waiting' found' rest' =>
      rw [pending, waiting] at waiting'
      cases waiting'
      rw [store, found, Option.some.injEq, Prod.mk.injEq] at found'
      obtain ⟨rfl, same⟩ := found'
      exact ⟨same.symm, rest'.trans rest.symm⟩
    | refined cls more' rest' =>
      rw [pending] at rest'
      exact absurd rest' busy
  | refined cls more rest => exact absurd rest busy

/-- Runs that merge the same pairs come to the same classes with the same slots, whichever classes
they send back. -/
theorem Steps.alike_of_same {count more : Nat} (steps : Steps schedule count state first)
    (others : Steps again more other second) (inside : state.Inside) (otherInside : other.Inside)
    (store : other.store = state.store) (pending : other.pending = state.pending)
    (done : first.pending = []) (otherDone : second.pending = []) :
    Store.Alike first.store second.store := by
  induction steps generalizing other more with
  | none =>
    rw [← store]
    exact others.alike otherInside (pending.trans done)
  | next found later ih =>
    rename_i middle _ _ _
    by_cases rest : middle.pending = []
    · have alike := (Steps.next found later).alike inside rest
      have otherAlike := others.alike otherInside (pending.trans rest)
      rw [store] at otherAlike
      exact alike.symm.trans otherAlike
    · cases others with
      | none => exact absurd (pending.symm.trans otherDone) rest
      | next found' later' =>
        obtain ⟨store, pending⟩ := merged_of_same (leads found) (leads found') store pending rest
        exact ih later' (inside_leads (leads found) inside)
          (inside_leads (leads found') otherInside) store pending done

theorem exists_done (inside : state.Inside) (tracks : state.TracksExtents)
    (distinct : state.worklist.Nodup) {depth : Nat}
    (shallow : ∀ count merged, Steps schedule count state merged → merged.pending = [] →
      ∀ cls : ClassId, cls.index < merged.store.size → merged.store.Shallow depth cls) :
    ∃ count final, Steps schedule count state final ∧ final.next? = none ∧
      state.pending.length ≤ count ∧ count ≤ state.pending.length + state.store.referenceCount +
        (depth + 1) * state.store.size := by
  obtain ⟨merges, merged, steps, rest, least, most⟩ := @exists_merged schedule _ inside
  have mergedInside := steps.inside inside
  have mergedDistinct := steps.nodup distinct
  obtain ⟨refinements, final, bounded, later, done⟩ :=
    @exists_done_of_shallow schedule _ mergedInside (steps.tracksExtents inside tracks)
      mergedDistinct rest
      depth (shallow merges merged steps rest)
  rw [steps.size inside] at bounded
  refine ⟨merges + refinements, final, steps.trans later, done, ?_, ?_⟩
  · exact Nat.le_trans least (Nat.le_add_right merges refinements)
  · exact Nat.add_le_add most bounded

end Propagation

namespace Seeding

def ofObservations (pointerSize : UInt8) (locationCount : Nat) (observations : List Observation) :
    Seeding :=
  ((start (.withLocations locationCount)).observeAll pointerSize observations).1

/-- Propagation comes through this state once all pairs are merged. -/
def Merged (seeded : Seeding) (state : Propagation) : Prop :=
  (∃ schedule count, Propagation.Steps schedule count (.start seeded.store seeded.merges) state) ∧
    state.pending = []

def Acyclic (seeded : Seeding) : Prop := ∀ state, seeded.Merged state → state.store.Acyclic

def NestedWithin (seeded : Seeding) (depth : Nat) : Prop :=
  ∀ state, seeded.Merged state → ∀ cls : ClassId, cls.index < state.store.size →
    state.store.Shallow depth cls

variable {pointerSize : UInt8} {locationCount : Nat} {observations : List Observation}

theorem observeAll_ofObservations (declared : ∀ observation ∈ observations,
    ∀ loc ∈ observation.locations, loc.index < locationCount) :
    (start (.withLocations locationCount)).observeAll pointerSize observations =
      (ofObservations pointerSize locationCount observations, none) := by
  obtain ⟨after, seeded⟩ := @observeAll_declared pointerSize observations _
    (wellFormed_start locationCount) declared
  rw [ofObservations, seeded]

theorem wellFormed_ofObservations (declared : ∀ observation ∈ observations,
    ∀ loc ∈ observation.locations, loc.index < locationCount) :
    (ofObservations pointerSize locationCount observations).WellFormed :=
  (observeAll_observes (wellFormed_start locationCount)
    (observeAll_ofObservations declared)).onward.wellFormed

namespace WellFormed

variable {seeded : Seeding} (wellFormed : seeded.WellFormed)
include wellFormed

theorem nestedWithin (acyclic : seeded.Acyclic) : seeded.NestedWithin seeded.store.size := by
  intro state merged cls clsInside
  obtain ⟨_, _, steps⟩ := merged.1
  have size : state.store.size = seeded.store.size := steps.size wellFormed.inside
  rw [← size]
  exact Store.shallow_of_acyclic (steps.inside wellFormed.inside).refers (acyclic state merged)
    clsInside

/-- It makes no difference at which state, and of which run, one looks at fields, as long as all
pairs are merged. -/
theorem alike_merged {state other : Propagation} (merged : seeded.Merged state)
    (mergedOther : seeded.Merged other) : Store.Alike state.store other.store := by
  obtain ⟨⟨_, _, steps⟩, rest⟩ := merged
  obtain ⟨⟨_, _, stepsOther⟩, restOther⟩ := mergedOther
  exact steps.alike_of_same stepsOther wellFormed.inside wellFormed.inside rfl rfl rest restOther

theorem acyclic_iff {state : Propagation} (merged : seeded.Merged state) :
    seeded.Acyclic ↔ state.store.Acyclic := by
  constructor
  · exact fun acyclic => acyclic state merged
  · intro acyclic other mergedOther cls circle
    rw [(wellFormed.alike_merged merged mergedOther).contains] at circle
    exact acyclic cls circle

theorem nestedWithin_iff {state : Propagation} (merged : seeded.Merged state) {depth : Nat} :
    seeded.NestedWithin depth ↔
      ∀ cls : ClassId, cls.index < state.store.size → state.store.Shallow depth cls := by
  constructor
  · exact fun nested => nested state merged
  · intro shallow other mergedOther cls clsInside
    obtain ⟨_, _, steps⟩ := merged.1
    obtain ⟨_, _, stepsOther⟩ := mergedOther.1
    rw [(wellFormed.alike_merged merged mergedOther).shallow]
    apply shallow
    rwa [steps.size wellFormed.inside, ← stepsOther.size wellFormed.inside]

theorem exists_steps {depth : Nat} (nested : seeded.NestedWithin depth) (schedule : Schedule) :
    ∃ needed final, Propagation.Steps schedule needed (.start seeded.store seeded.merges) final ∧
      final.next? = none ∧ seeded.merges.length ≤ needed ∧ needed ≤ seeded.merges.length +
        seeded.store.referenceCount + (depth + 1) * seeded.store.size := by
  apply Propagation.exists_done wellFormed.inside _ seeded.store.nodup_roots
  · intro count merged steps rest
    exact nested merged ⟨⟨schedule, count, steps⟩, rest⟩
  · exact Propagation.tracksExtents_start _ _

end WellFormed
end Seeding

/-- An analysis runs out of steps just when its cap is less than the steps that there are. -/
theorem analyze_nonTerminating_iff {observations : List Observation} {locationCount needed : Nat}
    {config : Config} {schedule : Schedule} {seeded : Seeding} {final : Propagation}
    (seeding : (Seeding.start (.withLocations locationCount)).observeAll config.pointerSize
      observations = (seeded, none))
    (steps : Propagation.Steps schedule needed (.start seeded.store seeded.merges) final)
    (done : final.next? = none) :
    (∃ cap cls, analyze observations locationCount config schedule =
      .error (.nonTerminating cap cls)) ↔ config.stepCap seeded.store.size < needed := by
  simp only [analyze, Session.seed, Session.start, seeding, List.nil_append, Session.propagate,
    Store.propagate]
  by_cases within : needed ≤ config.stepCap seeded.store.size
  · rw [Propagation.run_of_steps steps done within]
    constructor
    · rintro ⟨_, _, failed⟩
      cases failed
    · intro beyond
      exact absurd within (Nat.not_le_of_lt beyond)
  · have beyond := Nat.lt_of_not_le within
    obtain ⟨cls, failed⟩ := @Propagation.run_error_of_steps _ (config.stepCap seeded.store.size)
      _ _ _ _ steps beyond
    rw [failed]
    exact ⟨fun _ => beyond, fun _ => ⟨_, cls, rfl⟩⟩

theorem inferTypes_of_collect {table : LocationTable} {events : List Event}
    {observations : List Observation} (accepted : collect table events = .ok observations)
    (config : Config) (schedule : Schedule) (failure : AnalysisFailure) :
    inferTypes table events config schedule = .error (.analysis failure) ↔
      analyze observations table.size config schedule = .error failure := by
  have inferred : inferTypes table events config schedule =
      (analyze observations table.size config schedule).mapError .analysis := by
    unfold inferTypes
    rw [accepted]
  rw [inferred]
  cases analyze observations table.size config schedule with
  | error other =>
    show Except.error (Failure.analysis other) = _ ↔ _
    rw [Except.error.injEq, Failure.analysis.injEq, Except.error.injEq]
  | ok typing =>
    constructor <;> intro failed <;> cases failed

/-- Unless fields contain each other in a circle, inference takes a certain number of steps, and it
runs out of them just when the cap is less. Every pair that was seeded takes one of them, every
reference may take another one, and then each class may take as many as fields are nested deep. -/
theorem inferTypes_nonTerminating_iff {table : LocationTable} {events : List Event}
    {observations : List Observation} {pointerSize : UInt8}
    (accepted : collect table events = .ok observations)
    (acyclic : (Seeding.ofObservations pointerSize table.size observations).Acyclic) :
    let seeded := Seeding.ofObservations pointerSize table.size observations
    seeded.NestedWithin seeded.store.size ∧
    ∀ schedule, ∃ needed final,
      Propagation.Steps schedule needed (.start seeded.store seeded.merges) final ∧
      final.next? = none ∧ seeded.merges.length ≤ needed ∧
      (∀ depth, seeded.NestedWithin depth → needed ≤ seeded.merges.length +
        seeded.store.referenceCount + (depth + 1) * seeded.store.size) ∧
      ∀ config : Config, config.pointerSize = pointerSize →
        ((∃ cap cls, inferTypes table events config schedule =
            .error (.analysis (.nonTerminating cap cls))) ↔
          config.stepCap seeded.store.size < needed) := by
  intro seeded
  have declared := declared_of_collect accepted
  have wellFormed : seeded.WellFormed := Seeding.wellFormed_ofObservations declared
  have nested := wellFormed.nestedWithin acyclic
  refine ⟨nested, fun schedule => ?_⟩
  obtain ⟨needed, final, steps, done, least, _⟩ := wellFormed.exists_steps nested schedule
  refine ⟨needed, final, steps, done, least, ?_, ?_⟩
  · intro depth within
    obtain ⟨count, last, others, ended, _, bounded⟩ := wellFormed.exists_steps within schedule
    rwa [steps.count_unique done others ended]
  · rintro config rfl
    simp only [inferTypes_of_collect accepted]
    exact analyze_nonTerminating_iff (Seeding.observeAll_ofObservations declared) steps done

def pointerTable : LocationTable := .ofList [.temporary 0, .temporary 1, .temporary 2]

def loadEvents : List Event := [
  ⟨⟨0⟩, ⟨1⟩, .deref, [⟨0⟩], some 8, some 4, none, none, none⟩,
  ⟨⟨4⟩, ⟨2⟩, .deref, [⟨0⟩], some 8, some 4, none, none, none⟩]

theorem inferTypes_nonTerminating_iff_loads : ∃ observations,
    collect pointerTable loadEvents = .ok observations ∧
      (Seeding.ofObservations 8 pointerTable.size observations).Acyclic ∧
      ∀ schedule, ∃ needed, ∀ config : Config, config.pointerSize = 8 →
        ((∃ cap cls, inferTypes pointerTable loadEvents config schedule =
            .error (.analysis (.nonTerminating cap cls))) ↔
          config.stepCap (Seeding.ofObservations 8 pointerTable.size observations).store.size <
            needed) := by
  obtain ⟨observations, accepted, same⟩ : ∃ observations,
      collect pointerTable loadEvents = .ok observations ∧ observations = [
        ⟨⟨0⟩, ⟨1⟩, .dereference ⟨0⟩ 8 4, none⟩, ⟨⟨4⟩, ⟨2⟩, .dereference ⟨0⟩ 8 4, none⟩] :=
    ⟨_, rfl, rfl⟩
  have wellFormed := @Seeding.wellFormed_ofObservations 8 _ _ (declared_of_collect accepted)
  have acyclic : (Seeding.ofObservations 8 pointerTable.size observations).Acyclic := by
    subst same
    apply (wellFormed.acyclic_iff ⟨⟨.listed, 1, .next rfl (.none _)⟩, rfl⟩).2
    exact Store.acyclic_of_rank ClassId.index (by decide)
  refine ⟨observations, accepted, acyclic, fun schedule => ?_⟩
  obtain ⟨needed, _, _, _, _, _, exact⟩ :=
    (inferTypes_nonTerminating_iff accepted acyclic).2 schedule
  exact ⟨needed, exact⟩

def Store.Flat (store : Store) : Prop := store.Each fun constraint => constraint.slots = []

theorem Store.Flat.acyclic {store : Store} (flat : store.Flat) : store.Acyclic := by
  apply acyclic_of_rank ClassId.index
  intro place _ slot member
  have none : (store.shape ⟨place⟩).slots = [] := congrArg (List.map _) (flat ⟨place⟩)
  rw [none] at member
  cases member

namespace Seeding

theorem Merged.flat {seeded : Seeding} (wellFormed : seeded.WellFormed) (flat : seeded.store.Flat)
    {state : Propagation} (merged : seeded.Merged state) : state.store.Flat := by
  obtain ⟨⟨_, _, steps⟩, _⟩ := merged
  apply steps.each _ _ wellFormed.inside flat
  · intro a b left right
    show (Slot.addAll a.slots b.slots).1 = []
    rw [left, right]
    rfl
  · intro constraint find _ none
    exact congrArg (List.map _) none

variable {seeding : Seeding}

theorem flat_mark {cls : ClassId} (inside : cls.index < seeding.store.size)
    (flat : seeding.store.Flat) (evidence : Evidence) : (seeding.mark cls evidence).store.Flat := by
  intro other
  have updated := Store.constraint_update inside (fun constraint => constraint.addEvidence evidence)
    other
  rw [show (seeding.mark cls evidence).store.constraint other = _ from updated]
  split
  · exact flat cls
  · exact flat other

variable {point : ProgramPoint} {loc source : LocId} {pointerSize : UInt8}

theorem observe_assignment (locInside : loc.index < seeding.store.locationCount)
    (sourceInside : source.index < seeding.store.locationCount) (flat : seeding.store.Flat) :
    ∃ after, seeding.observe pointerSize ⟨point, loc, .assignedFrom source, none⟩ = .ok after ∧
      after.merges.length = seeding.merges.length + 1 ∧ after.store.size = seeding.store.size ∧
      after.store.locationCount = seeding.store.locationCount ∧ after.store.Flat := by
  have absent : ([loc, source].find? fun loc =>
      seeding.store.locationCount ≤ loc.index) = none := by
    apply List.find?_eq_none.2
    simp only [List.mem_cons, List.not_mem_nil, or_false, decide_eq_true_eq, Nat.not_le]
    rintro _ (rfl | rfl)
    · exact locInside
    · exact sourceInside
  let once := seeding.mark (seeding.store.classOf loc) {.assigned}
  have flatOnce : once.store.Flat := flat_mark (classOf_inside locInside) flat _
  have sourceOnce : (seeding.store.classOf source).index < once.store.size :=
    classOf_inside sourceInside
  refine ⟨(once.mark (seeding.store.classOf source) {.assigned}).equate
    [(seeding.store.classOf loc, seeding.store.classOf source)], ?_, ?_, rfl, rfl, ?_⟩
  · unfold observe
    simp only [Observation.locations, Use.operands, absent]
    rfl
  · exact List.length_append
  · exact flat_mark sourceOnce flatOnce _

theorem observeAll_assignments (locInside : loc.index < seeding.store.locationCount)
    (sourceInside : source.index < seeding.store.locationCount) (flat : seeding.store.Flat)
    (count : Nat) : ∃ after, seeding.observeAll pointerSize
        (List.replicate count ⟨point, loc, .assignedFrom source, none⟩) = (after, none) ∧
      after.merges.length = seeding.merges.length + count ∧
      after.store.size = seeding.store.size ∧ after.store.Flat := by
  induction count generalizing seeding with
  | zero => exact ⟨seeding, rfl, rfl, rfl, flat⟩
  | succ count ih =>
    obtain ⟨middle, observed, merges, size, locations, flatMiddle⟩ :=
      @observe_assignment _ point _ _ pointerSize locInside sourceInside flat
    rw [← locations] at locInside sourceInside
    obtain ⟨after, seeded, more, sizeAfter, flatAfter⟩ := ih locInside sourceInside flatMiddle
    refine ⟨after, ?_, ?_, sizeAfter.trans size, flatAfter⟩
    · rw [List.replicate_succ, observeAll, observed]
      exact seeded
    · rw [more, merges]
      omega

end Seeding

def copyEvent : Event := ⟨⟨0⟩, ⟨1⟩, .assign, [⟨2⟩], none, none, none, none, none⟩

/-- A copy that is seen often enough uses up the steps, though it joins no more than two classes. -/
theorem copies_exceed {count : Nat} (beyond : Config.leastCap < count) (schedule : Schedule) :
    ∃ observations,
      collect pointerTable (List.replicate count copyEvent) = .ok observations ∧
      (Seeding.ofObservations 8 pointerTable.size observations).Acyclic ∧
      ∃ cap cls, inferTypes pointerTable (List.replicate count copyEvent) {} schedule =
        .error (.analysis (.nonTerminating cap cls)) := by
  have transcribed : copyEvent.transcribe pointerTable =
      .ok ⟨⟨0⟩, ⟨1⟩, .assignedFrom ⟨2⟩, none⟩ := rfl
  have accepted := collect_replicate transcribed count
  have declared := declared_of_collect accepted
  have wellFormed := @Seeding.wellFormed_ofObservations 8 _ _ declared
  have flatStart : (Store.withLocations pointerTable.size).Flat := by
    intro cls
    rw [Store.constraint_withLocations]
  obtain ⟨after, seeding, merges, size, flat⟩ := @Seeding.observeAll_assignments
    (.start (.withLocations pointerTable.size)) ⟨0⟩ ⟨1⟩ ⟨2⟩ 8 (by decide) (by decide)
    flatStart count
  have same := @Seeding.observeAll_ofObservations 8 _ _ declared
  rw [seeding] at same
  cases same
  have acyclic : Seeding.Acyclic _ := fun state merged => (merged.flat wellFormed flat).acyclic
  obtain ⟨needed, final, steps, done, least, _⟩ :=
    wellFormed.exists_steps (wellFormed.nestedWithin acyclic) schedule
  refine ⟨_, accepted, acyclic, ?_⟩
  simp only [inferTypes_of_collect accepted]
  apply (analyze_nonTerminating_iff seeding steps done).2
  rw [size]
  have cap : Config.stepCap {} (Seeding.start (.withLocations pointerTable.size)).store.size =
      Config.leastCap := by decide
  rw [cap]
  rw [merges] at least
  exact Nat.lt_of_lt_of_le beyond (by simpa [Seeding.start] using least)

theorem copies_exceed_default : ∃ observations,
    collect pointerTable (List.replicate 1048577 copyEvent) = .ok observations ∧
      (Seeding.ofObservations 8 pointerTable.size observations).Acyclic ∧
      ∃ cap cls, inferTypes pointerTable (List.replicate 1048577 copyEvent) {} =
        .error (.analysis (.nonTerminating cap cls)) :=
  copies_exceed (by decide) .listed

end TypeRecovery
