import TypeRecovery.Proofs.Confluence
/-!
Observations in batches. A session that propagates after every batch ends with the same partition as
one that is given all observations at once. It may end with greater extents, for a field may have
been measured wider than it turned out to be when more was seen. If no field turned out so, it ends
with the same classes.
-/
namespace TypeRecovery

namespace Session

def runBatches (session : Session) (batches : List (List Observation))
    (schedules : Nat → Schedule := fun _ => .listed) : Except AnalysisFailure Session :=
  match batches with
  | [] => .ok session
  | batch :: rest =>
    let seeded := session.seed batch
    match seeded.2 with
    | some failure => .error failure
    | none =>
      let closed := seeded.1.propagate (schedules 0)
      match closed.2 with
      | .error failure => .error failure
      | .ok _ => closed.1.runBatches rest fun round => schedules (round + 1)

variable {session after : Session} {batch : List Observation} {batches : List (List Observation)}
  {schedules : Nat → Schedule}

theorem runBatches_cons (ok : session.runBatches (batch :: batches) schedules = .ok after) :
    (session.seed batch).2 = none ∧
      ∃ work, ((session.seed batch).1.propagate (schedules 0)).2 = .ok work ∧
        ((session.seed batch).1.propagate (schedules 0)).1.runBatches batches
          (fun round => schedules (round + 1)) = .ok after := by
  simp only [runBatches] at ok
  cases seeded : (session.seed batch).2 with
  | some failure => simp [seeded] at ok
  | none =>
    simp only [seeded] at ok
    cases closed : ((session.seed batch).1.propagate (schedules 0)).2 with
    | error failure => simp [closed] at ok
    | ok work =>
      simp only [closed] at ok
      exact ⟨rfl, work, rfl, ok⟩

/-- Nothing waits, and no slot goes beyond the extent of its class. -/
structure Settled (session : Session) : Prop where
  pending : session.pending = []
  closed : session.store.Closed session.store.extent

theorem Settled.seeding (settled : session.Settled) :
    session.seeding = Seeding.start session.store := by
  rw [Session.seeding, settled.pending, Seeding.start]

theorem settled_start (config : Config) (count : Nat) : (start config count).Settled := by
  refine ⟨rfl, fun owner _ slot member => ?_⟩
  have none : ((Store.withLocations count).shape owner).slots = [] := by
    rw [Store.shape, Store.constraint_withLocations]
    rfl
  have member : slot ∈ ((Store.withLocations count).shape owner).slots := member
  rw [none] at member
  cases member

theorem settled_propagate {schedule : Schedule} {work : Work}
    (wellFormed : session.seeding.WellFormed) (ok : (session.propagate schedule).2 = .ok work) :
    (session.propagate schedule).1.Settled := by
  obtain ⟨count, final, steps, done, same⟩ := propagate_ok ok
  rw [same]
  refine ⟨rfl, Propagation.closed_of_done (steps.tracksExtents wellFormed.inside ?_) done⟩
  exact Propagation.tracksExtents_start _ _

theorem replays_runBatches (wellFormed : session.seeding.WellFormed) (settled : session.Settled)
    (ok : session.runBatches batches schedules = .ok after) :
    Seeding.Replays session.config.pointerSize batches.flatten session.seeding after.seeding ∧
      after.Settled ∧ after.config = session.config := by
  induction batches generalizing session schedules with
  | nil =>
    cases ok
    exact ⟨.refl wellFormed, settled, rfl⟩
  | cons batch rest ih =>
    obtain ⟨seeded, work, closed, later⟩ := runBatches_cons ok
    have first := replays_seed wellFormed seeded
    have middle := (first.follows []).wellFormed
    have second := @replays_propagate _ session.config.pointerSize _ _ middle closed
    obtain ⟨others, settled, config⟩ :=
      ih (second.follows []).wellFormed (settled_propagate middle closed) later
    have same : ((session.seed batch).1.propagate (schedules 0)).1.config = session.config :=
      config_seed session batch
    rw [same] at others config
    exact ⟨(first.onward second).trans others, settled, config⟩

theorem analysis_of_runBatches {config : Config} {count : Nat} {observations : List Observation}
    (ok : (start config count).runBatches [observations] schedules = .ok after) :
    ∃ seeded final, Analysis observations count config seeded final ∧
      after.config = config ∧ after.store = final.store := by
  obtain ⟨seeded, work, closed, last⟩ := runBatches_cons ok
  obtain ⟨first, observed, same⟩ := seed_ok seeded
  rw [same] at closed last
  obtain ⟨steps, final, taken, done, ended⟩ := propagate_ok closed
  rw [ended] at last
  cases last
  exact ⟨first, final, ⟨observed, ⟨_, steps, taken⟩, done⟩, rfl, rfl⟩

end Session

namespace Store

/-- No field is declared narrower than it was accessed, and none is the aggregate that it is in. -/
def Steady (store : Store) : Prop :=
  ∀ owner, store.root owner = owner → ∀ slot ∈ (store.shape owner).slots, ¬ slot.offset < 0 →
    slot.cls ≠ owner ∧ (store.constraint slot.cls).maxAccess.toNat ≤ store.width slot.cls

theorem steady_of_inside {store : Store} (steady : ∀ place < store.size,
    ∀ slot ∈ (store.shape ⟨place⟩).slots, slot.cls ≠ ⟨place⟩ ∧
      (store.constraint slot.cls).maxAccess.toNat ≤ store.width slot.cls) : store.Steady := by
  intro owner _ slot member _
  apply steady owner.index _ slot member
  apply Nat.lt_of_not_le
  intro outside
  rw [slots_of_outside outside] at member
  cases member

theorem ofNatClamp_mono {a b : Nat} (le : a ≤ b) : UInt64.ofNatClamp a ≤ UInt64.ofNatClamp b := by
  rw [UInt64.le_iff_toNat_le, toNat_ofNatClamp, toNat_ofNatClamp]
  omega

theorem roomy_of_steady {store : Store} (closed : store.Closed store.extent)
    (steady : store.Steady) : store.model.Roomy store.extent := by
  rintro here offset size inner ⟨known, refers, rfl⟩ forward bytes measured
  have member : ⟨offset, size, store.root known⟩ ∈ (store.shape (store.root here)).slots := by
    rw [shape_root]
    exact List.mem_map_of_mem refers
  obtain ⟨apart, narrow⟩ := steady _ (store.root_root here) _ member forward
  have ends := closed _ (store.root_root here) _ member
  have extent : store.extent (store.root here) = store.extent here := by
    rw [Store.extent, Store.extent, store.constraint_root]
  rw [slotReach, if_neg forward, if_neg apart, extent] at ends
  have wide : bytes ≤ max size.toNat (max (store.width (store.root known))
      (store.extent (store.root known)).toNat) := by
    rcases measured with given | ⟨width, has, given⟩ | given
    · omega
    · have bounded : width.toNat ≤ store.width (store.root known) := by
        rcases has with ⟨declared, found, least⟩ | ⟨_, least⟩
        · rw [Store.width, Constraint.width, found]
          exact UInt8.le_iff_toNat_le.1 least
        · exact Nat.le_trans (UInt8.le_iff_toNat_le.1 least) narrow
      omega
    · omega
  exact UInt64.le_trans (ofNatClamp_mono (Nat.add_le_add_left wide _)) ends

theorem bounded_of_replays {pointerSize : UInt8} {observations : List Observation} {count : Nat}
    {left right : Store} {back : ClassId → ClassId}
    (replays : Seeding.Replays pointerSize observations (Seeding.start (.withLocations count))
      (Seeding.start right)) (roomy : left.model.Roomy left.extent)
    (holds : right.Holds back left.model) : right.Bounded back left.extent := by
  -- Locations and typedefs are placed where their classes are.
  let scene : Scene ClassId := {
    toModel := left.model
    place := fun loc => back loc.initialClass
    named := fun name => ((right.typedef? name).map fun entry => back entry.1).getD .absent }
  have known : (Seeding.start right).Holds back scene := by
    refine ⟨holds, List.forall_mem_nil _, fun loc _ => rfl, fun {name entry} found => ?_⟩
    have bound : right.typedef? name = some entry := found
    simp only [scene, bound, Option.map_some, Option.getD_some]
  apply replays.bounded roomy known
  intro cls
  have zeroExtents : (withLocations count).extent cls = 0 := by
    rw [Store.extent, constraint_withLocations]
  show (withLocations count).extent cls ≤ _
  rw [zeroExtents]
  exact UInt64.zero_le

end Store

/-- The classes that batches of observations end with are those that all observations end with when
they are given at once, as far as no field was measured wider on the way. -/
theorem runBatches_flatten {config : Config} {count : Nat} {batches : List (List Observation)}
    {schedules again : Nat → Schedule} {batched once : Session}
    (first : (Session.start config count).runBatches batches schedules = .ok batched)
    (second : (Session.start config count).runBatches [batches.flatten] again = .ok once) :
    batched.typing.locationClasses = once.typing.locationClasses ∧
      (once.store.Steady → batched.typing.classes = once.typing.classes) := by
  obtain ⟨seeded, final, analysis, onceConfig, onceStore⟩ := Session.analysis_of_runBatches second
  obtain ⟨replays, settled, batchedConfig⟩ :=
    @Session.replays_runBatches (.start config count) _ _ _
    (Seeding.wellFormed_start count) (Session.settled_start config count) first
  rw [settled.seeding] at replays
  obtain ⟨there, back, same⟩ :=
    analysis.replays.exists_renames replays analysis.closed settled.closed fun _ => Iff.rfl
  have batchedTyping : batched.typing = .ofStore config batched.store := by
    rw [Session.typing, batchedConfig]
    rfl
  rw [batchedTyping, Session.typing, onceConfig, onceStore]
  constructor
  · exact same.locationClasses config
  · intro steady
    have roomy := Store.roomy_of_steady analysis.closed steady
    have bounded := Store.bounded_of_replays replays roomy same.backward.holds
    exact (same.matches analysis.least bounded).classes config

def fieldLoad : Observation := ⟨⟨0⟩, ⟨1⟩, .dereference ⟨0⟩ 4 4, none⟩

def narrowRead : Observation := ⟨⟨8⟩, ⟨1⟩, .read 4, some (.int 4 none)⟩

theorem runBatches_flatten_field : ∃ batched once,
    (Session.start {} 2).runBatches [[fieldLoad], [narrowRead]] = .ok batched ∧
      (Session.start {} 2).runBatches [[fieldLoad, narrowRead]] = .ok once ∧
      once.store.Steady ∧ batched.typing.classes = once.typing.classes := by
  have first : ∃ batched,
      (Session.start {} 2).runBatches [[fieldLoad], [narrowRead]] = .ok batched := ⟨_, rfl⟩
  have second : ∃ once, (Session.start {} 2).runBatches [[fieldLoad, narrowRead]] = .ok once ∧
      once.store.Steady := by
    refine ⟨_, rfl, Store.steady_of_inside ?_⟩
    decide
  obtain ⟨batched, first⟩ := first
  obtain ⟨once, second, steady⟩ := second
  exact ⟨batched, once, first, second, steady, (runBatches_flatten first second).2 steady⟩

def wideRead : Observation := ⟨⟨4⟩, ⟨1⟩, .read 8, none⟩

/-- The aggregate keeps the extent that it had before the value was declared. -/
theorem runBatches_widened : ∃ batched once,
    (Session.start {} 2).runBatches [[fieldLoad, wideRead], [narrowRead]] = .ok batched ∧
      (Session.start {} 2).runBatches [[fieldLoad, wideRead, narrowRead]] = .ok once ∧
      batched.typing.classes ≠ once.typing.classes := by
  have first : ∃ batched,
      (Session.start {} 2).runBatches [[fieldLoad, wideRead], [narrowRead]] = .ok batched ∧
        (batched.typing.class? ⟨2⟩).map TypedClass.size = some (some 12) := ⟨_, rfl, rfl⟩
  have second : ∃ once,
      (Session.start {} 2).runBatches [[fieldLoad, wideRead, narrowRead]] = .ok once ∧
        (once.typing.class? ⟨2⟩).map TypedClass.size = some (some 8) := ⟨_, rfl, rfl⟩
  obtain ⟨batched, first, wide⟩ := first
  obtain ⟨once, second, narrow⟩ := second
  refine ⟨batched, once, first, second, fun same => ?_⟩
  rw [Typing.class?, same] at wide
  rw [Typing.class?, wide] at narrow
  cases narrow

end TypeRecovery
