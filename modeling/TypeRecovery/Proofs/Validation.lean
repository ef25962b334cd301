import TypeRecovery.Proofs.Checked.Propagation
import TypeRecovery.Proofs.Checked.Seeding
import TypeRecovery.Proofs.Checked.Typing
import TypeRecovery.Proofs.ObservedParts
import TypeRecovery.Proofs.StepBudget
/-!
Validated traces. All locations that an observation names are looked at before anything changes, and
after that nothing can fail. So a list of observations is rejected just when it names a location
that was not declared, at the first observation that does, and with all that was seeded before it
left as it is. Transcription accepts no such event, and an analysis of a trace that was accepted can
only run out of steps.

Nor is any class looked up on the way that is not there. Inference with lookups that can fail gives
what inference gives without the checks, for every table, trace and configuration.
-/
namespace TypeRecovery

namespace Observation

def Declared (count : Nat) (observation : Observation) : Prop :=
  ∀ loc ∈ observation.locations, loc.index < count

instance (count : Nat) (observation : Observation) : Decidable (observation.Declared count) :=
  inferInstanceAs (Decidable (∀ loc ∈ observation.locations, loc.index < count))

/-- The first location of the observation that was not declared, in the order of naming. -/
def FirstUndeclared (count : Nat) (observation : Observation) (undeclared : LocId) : Prop :=
  ∃ declared others, observation.locations = declared ++ undeclared :: others ∧
    (∀ loc ∈ declared, loc.index < count) ∧ count ≤ undeclared.index

end Observation

namespace Seeding

variable {seeding after : Seeding} {pointerSize : UInt8} {observation : Observation}
  {failure : AnalysisFailure} {observations : List Observation}

theorem observe_rejects (rejected : seeding.observe pointerSize observation = .error failure) :
    ∃ undeclared, observation.FirstUndeclared seeding.store.locationCount undeclared ∧
      failure = .unknownLocation observation.point undeclared := by
  unfold observe at rejected
  split at rejected
  · rename_i undeclared found
    cases rejected
    obtain ⟨outside, declared, others, locations, before⟩ := List.find?_eq_some_iff_append.1 found
    refine ⟨undeclared, ⟨declared, others, locations, fun loc member => ?_, by simpa using outside⟩,
      rfl⟩
    simpa using before loc member
  · split at rejected <;> cases rejected

theorem observeAll_of_declared
    (declared : ∀ observation ∈ observations, observation.Declared seeding.store.locationCount) :
    (seeding.observeAll pointerSize observations).2 = none := by
  induction observations generalizing seeding with
  | nil => rfl
  | cons first rest ih =>
    obtain ⟨firstDeclared, restDeclared⟩ := List.forall_mem_cons.1 declared
    obtain ⟨seeded, found⟩ := @observe_of_declared seeding pointerSize first firstDeclared
    rw [observeAll, found]
    apply ih
    rw [(observe_keeps found).1.locationCount]
    exact restDeclared

theorem declared_of_observeAll (accepted : (seeding.observeAll pointerSize observations).2 = none) :
    ∀ observation ∈ observations, observation.Declared seeding.store.locationCount := by
  induction observations generalizing seeding with
  | nil => exact List.forall_mem_nil _
  | cons first rest ih =>
    rw [observeAll] at accepted
    cases found : seeding.observe pointerSize first with
    | error failure =>
      rw [found] at accepted
      cases accepted
    | ok seeded =>
      rw [found] at accepted
      have later := ih accepted
      rw [(observe_keeps found).1.locationCount] at later
      exact List.forall_mem_cons.2 ⟨(observe_ok found).1, later⟩

theorem observeAll_rejected
    (rejected : (seeding.observeAll pointerSize observations).2 = some failure) :
    ∃ accepted observation rest, observations = accepted ++ observation :: rest ∧
      (∀ earlier ∈ accepted, earlier.Declared seeding.store.locationCount) ∧
      seeding.observeAll pointerSize observations =
        ((seeding.observeAll pointerSize accepted).1, some failure) ∧
      ∃ undeclared, observation.FirstUndeclared seeding.store.locationCount undeclared ∧
        failure = .unknownLocation observation.point undeclared := by
  induction observations generalizing seeding with
  | nil => cases rejected
  | cons first rest ih =>
    rw [observeAll] at rejected ⊢
    cases found : seeding.observe pointerSize first with
    | error other =>
      rw [found] at rejected
      cases rejected
      exact ⟨[], first, rest, rfl, List.forall_mem_nil _, rfl, observe_rejects found⟩
    | ok seeded =>
      rw [found] at rejected
      obtain ⟨accepted, observation, later, split, declared, run, cause⟩ := ih rejected
      rw [(observe_keeps found).1.locationCount] at declared cause
      refine ⟨first :: accepted, observation, later, by rw [split]; rfl,
        List.forall_mem_cons.2 ⟨(observe_ok found).1, declared⟩, ?_, cause⟩
      simp only [run, observeAll, found]

/-- Observations are accepted just when they name declared locations only. Otherwise the outcome is
that of the observations before the first that does not, and the failure tells its point and the
first location that it should not have named. As long as what the store mentions is in it, no lookup
of a class fails. -/
theorem observeAll_rejects (seeding : Seeding) (pointerSize : UInt8)
    (observations : List Observation) :
    let count := seeding.store.locationCount
    let run := seeding.observeAll pointerSize observations
    (run.2 = none ↔ ∀ observation ∈ observations, observation.Declared count) ∧
      (∀ failure, run.2 = some failure → ∃ accepted observation rest,
        observations = accepted ++ observation :: rest ∧
          (∀ earlier ∈ accepted, earlier.Declared count) ∧
          seeding.observeAll pointerSize accepted = (run.1, none) ∧
          ∃ undeclared, observation.FirstUndeclared count undeclared ∧
            failure = .unknownLocation observation.point undeclared) ∧
      (seeding.Valid → seeding.observeAll? pointerSize observations = some run) := by
  intro count run
  refine ⟨⟨declared_of_observeAll, observeAll_of_declared⟩, fun failure rejected => ?_,
    observeAll?_eq observations⟩
  obtain ⟨accepted, observation, rest, split, declared, same, cause⟩ := observeAll_rejected rejected
  have none : (seeding.observeAll pointerSize accepted).2 = none := observeAll_of_declared declared
  exact ⟨accepted, observation, rest, split, declared,
    Prod.ext (congrArg Prod.fst same).symm none, cause⟩

example : ((start (.withLocations 2)).observeAll 8
    [⟨⟨0⟩, ⟨0⟩, .read 4, none⟩, ⟨⟨4⟩, ⟨1⟩, .callWithArgs [⟨0⟩, ⟨5⟩, ⟨2⟩], none⟩]).2 =
      some (.unknownLocation ⟨4⟩ ⟨5⟩) := by decide

end Seeding

namespace Session

def seed? (session : Session) (observations : List Observation) :
    Option (Session × Option AnalysisFailure) := do
  let seeded ←
    (Seeding.start session.store).observeAll? session.config.pointerSize observations
  match seeded.2 with
  | none =>
    return ({ session with
      store := seeded.1.store
      pending := session.pending ++ seeded.1.merges }, none)
  | some failure => return ({ session with store := seeded.1.store }, some failure)

def propagate? (session : Session) (schedule : Schedule := .listed) :
    Option (Session × Except AnalysisFailure Work) := do
  let cap := session.config.stepCap session.store.size
  let closed ← session.store.propagate? schedule cap session.pending
  return ({ session with store := closed.1, pending := [] }, closed.2)

def typing? (session : Session) : Option Typing :=
  Typing.ofStore? session.config session.store

variable {session : Session}

theorem seed?_eq (wellFormed : (Seeding.start session.store).WellFormed)
    (observations : List Observation) :
    session.seed? observations = some (session.seed observations) := by
  simp only [seed?, seed, Seeding.observeAll?_eq observations wellFormed.valid, Option.bind_eq_bind,
    Option.bind_some]
  split <;> simp [*]

theorem propagate?_eq (inside : (Propagation.start session.store session.pending).Inside)
    (schedule : Schedule) : session.propagate? schedule = some (session.propagate schedule) := by
  simp [propagate?, propagate, Store.propagate?_eq inside]

end Session

def analyze? (observations : List Observation) (locationCount : Nat) (config : Config)
    (schedule : Schedule := .listed) : Option (Except AnalysisFailure Typing) := do
  let seeded ← (Session.start config locationCount).seed? observations
  match seeded.2 with
  | some failure => return .error failure
  | none =>
    let closed ← seeded.1.propagate? schedule
    match closed.2 with
    | .error failure => return .error failure
    | .ok _ => return .ok (← closed.1.typing?)

def inferTypes? (table : LocationTable) (events : List Event) (config : Config)
    (schedule : Schedule := .listed) : Option (Except Failure Typing) := do
  match collect table events with
  | .error rejection => return .error (.malformed rejection)
  | .ok observations =>
    return (← analyze? observations table.size config schedule).mapError .analysis

theorem Analysis.conflicts_inside {observations : List Observation} {locationCount : Nat}
    {config : Config} {seeded : Seeding} {final : Propagation}
    (analysis : Analysis observations locationCount config seeded final) :
    ∀ conflict ∈ final.store.conflicts, conflict.cls.index < final.store.size := by
  -- Any lawful account will do: its record covers the conflicts.
  intro conflict member
  obtain ⟨record, lawful, _⟩ := analysis.exists_record
  have covers := (@lawful (fun _ => True) ⟨⟨trivial, fun _ => trivial, fun _ _ => trivial⟩,
    fun _ _ => trivial⟩).disputes
  exact covers _ (List.mem_map_of_mem (Array.mem_toList_iff.2 member))

/-- No lookup of a class fails in an analysis, of declared locations or not. -/
theorem analyze?_eq (observations : List Observation) (locationCount : Nat) (config : Config)
    (schedule : Schedule) : analyze? observations locationCount config schedule =
      some (analyze observations locationCount config schedule) := by
  have started : (Seeding.start (Session.start config locationCount).store).WellFormed :=
    Seeding.wellFormed_start locationCount
  have seed := Session.seed?_eq started observations
  rcases seeding : (Seeding.start (.withLocations locationCount)).observeAll config.pointerSize
    observations with ⟨seeded, _ | failure⟩
  · have session : (Session.start config locationCount).seed observations =
        (⟨config, seeded.store, seeded.merges⟩, none) := by
      simp [Session.seed, Session.start, seeding]
    have inside := (Seeding.observeAll_observes started seeding).onward.wellFormed.inside
    have propagate := @Session.propagate?_eq ⟨config, seeded.store, seeded.merges⟩ inside schedule
    simp only [analyze?, analyze, seed, session, propagate, Option.bind_eq_bind, Option.bind_some]
    rcases closing : Session.propagate ⟨config, seeded.store, seeded.merges⟩ schedule with
      ⟨closed, failure | work⟩
    · rfl
    · have ok : analyze observations locationCount config schedule = .ok closed.typing := by
        simp only [analyze, session, closing]
      obtain ⟨_, final, analysis, same, _⟩ := analyze_ok_store ok
      have last : final.store = closed.store := by
        simpa only [analyzedStore, session, closing] using same
      have refers : closed.store.RefersInside := last ▸ analysis.finalInside.refers
      have typing : closed.typing? = some closed.typing :=
        Typing.ofStore?_eq closed.config refers (last ▸ analysis.conflicts_inside)
      simp only [typing, Option.bind_some]
      rfl
  · have session : (Session.start config locationCount).seed observations =
        (⟨config, seeded.store, []⟩, some failure) := by
      simp [Session.seed, Session.start, seeding]
    simp only [analyze?, analyze, seed, session, Option.bind_eq_bind, Option.bind_some]
    rfl

theorem analyze_error {observations : List Observation} {locationCount : Nat} {config : Config}
    {schedule : Schedule} {failure : AnalysisFailure}
    (declared : ∀ observation ∈ observations, ∀ loc ∈ observation.locations,
      loc.index < locationCount)
    (failed : analyze observations locationCount config schedule = .error failure) :
    ∃ cls : ClassId,
      cls.index <
        (Seeding.ofObservations config.pointerSize locationCount observations).store.size ∧
      failure = .nonTerminating (config.stepCap
        (Seeding.ofObservations config.pointerSize locationCount observations).store.size) cls := by
  have inside := (@Seeding.wellFormed_ofObservations config.pointerSize _ _ declared).inside
  simp only [analyze, Session.seed, Session.start, Seeding.observeAll_ofObservations declared,
    List.nil_append, Session.propagate, Store.propagate] at failed
  split at failed
  · rename_i other ran
    cases failed
    exact Propagation.run_error inside ran
  · cases failed

theorem inferTypes_malformed_iff {table : LocationTable} {events : List Event} {config : Config}
    {schedule : Schedule} {rejection : Rejection} :
    inferTypes table events config schedule = .error (.malformed rejection) ↔
      collect table events = .error rejection := by
  unfold inferTypes
  cases collect table events with
  | error other => simp
  | ok observations =>
    simp only [reduceCtorEq, iff_false]
    cases analyze observations table.size config schedule <;> simp [Except.mapError]

theorem inferTypes?_eq (table : LocationTable) (events : List Event) (config : Config)
    (schedule : Schedule) : inferTypes? table events config schedule =
      some (inferTypes table events config schedule) := by
  unfold inferTypes? inferTypes
  cases collect table events with
  | error rejection => rfl
  | ok observations => simp [analyze?_eq]

/-- Inference rejects the traces that transcription rejects, with the same rejection, and of a trace
that was accepted it fails for want of steps alone: after as many as the cap allows, at a class that
was seeded. It never meets an undeclared location, and no class that it looks up is out of range. -/
theorem inferTypes_validated (table : LocationTable) (events : List Event) (config : Config)
    (schedule : Schedule) :
    (∀ rejection, inferTypes table events config schedule = .error (.malformed rejection) ↔
      collect table events = .error rejection) ∧
    (∀ failure, inferTypes table events config schedule = .error (.analysis failure) →
      ∃ observations, collect table events = .ok observations ∧
        let seeded := Seeding.ofObservations config.pointerSize table.size observations
        ∃ cls : ClassId, cls.index < seeded.store.size ∧
          failure = .nonTerminating (config.stepCap seeded.store.size) cls) ∧
    (∀ point location, inferTypes table events config schedule ≠
      .error (.analysis (.unknownLocation point location))) ∧
    inferTypes? table events config schedule =
      some (inferTypes table events config schedule) := by
  have ends (failure : AnalysisFailure)
      (failed : inferTypes table events config schedule = .error (.analysis failure)) :
      ∃ observations, collect table events = .ok observations ∧
        let seeded := Seeding.ofObservations config.pointerSize table.size observations
        ∃ cls : ClassId, cls.index < seeded.store.size ∧
          failure = .nonTerminating (config.stepCap seeded.store.size) cls := by
    cases collected : collect table events with
    | error rejection => simp [inferTypes, collected] at failed
    | ok observations =>
      have failed := (inferTypes_of_collect collected config schedule failure).1 failed
      exact ⟨observations, rfl, analyze_error (declared_of_collect collected) failed⟩
  refine ⟨fun _ => inferTypes_malformed_iff, ends, fun point location failed => ?_,
    inferTypes?_eq table events config schedule⟩
  obtain ⟨_, _, _, _, other⟩ := ends _ failed
  cases other

end TypeRecovery
