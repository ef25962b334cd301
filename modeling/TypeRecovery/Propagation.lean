import TypeRecovery.Basic
import TypeRecovery.Diagnostic
import TypeRecovery.Store
/-!
Propagation closes a store under equalities. Pairs of classes wait to be merged, and classes wait
to be refined because the classes they refer to or the extents of their fields may be out of date.
Pairs go first. A class refers to what it mentioned when it was last refined, so a class that grew
sends its referrers back to be refined, and so does every merge.

Merging only makes the partition coarser and extents only grow, so the work comes to an end unless
fields contain each other in a circle. A cap on the number of steps ends that case too.
-/
namespace TypeRecovery

/-- The order in which the referrers of a class are sent back. It may differ from step to step. -/
structure Schedule where
  arrange : Nat → List ClassId → List ClassId
  arrange_perm : ∀ step classes, (arrange step classes).Perm classes

def Schedule.listed : Schedule := ⟨fun _ classes => classes, fun _ _ => .refl _⟩

structure Work where
  /-- Pairs that joined two classes. -/
  merges : Nat
  /-- Refinements that changed a class. -/
  refinements : Nat
  /-- Steps of either sort. -/
  steps : Nat
deriving DecidableEq

def Work.isFixedPoint (work : Work) : Bool := work.merges = 0 && work.refinements = 0

inductive Step where
  | merge (a b : ClassId)
  | refine (cls : ClassId)
deriving DecidableEq

def Step.cls : Step → ClassId
  | merge a _ => a
  | refine cls => cls

structure Propagation where
  store : Store
  pending : List ClassPair
  /-- Classes to refine, each at most once. -/
  worklist : List ClassId
  /-- For each class, the classes that mention it, in the order in which they were found to. -/
  referrers : Array (List ClassId)
  work : Work

namespace Propagation

/-- Every root is to be refined, after the given pairs are merged. -/
def start (store : Store) (merges : List ClassPair) : Propagation where
  store
  pending := merges
  worklist := store.roots
  referrers := Array.replicate store.size []
  work := ⟨0, 0, 0⟩

def next? (state : Propagation) : Option (Step × Propagation) :=
  match state.pending, state.worklist with
  | (a, b) :: rest, _ => some (.merge a b, { state with pending := rest })
  | [], cls :: rest => some (.refine cls, { state with worklist := rest })
  | [], [] => none

def enqueue (state : Propagation) (cls : ClassId) : Propagation :=
  { state with worklist := Distinct.add state.worklist cls }

def referrersOf (state : Propagation) (cls : ClassId) : List ClassId :=
  state.referrers[cls.index]?.getD []

def enqueueReferrers (schedule : Schedule) (state : Propagation) (cls : ClassId) : Propagation :=
  (schedule.arrange state.work.steps (state.referrersOf cls)).foldl enqueue state

def addReferrer (referrer : ClassId) (state : Propagation) (cls : ClassId) : Propagation :=
  { state with referrers := state.referrers.modify cls.index fun known =>
    Distinct.add known referrer }

/-- Hands the referrers of an absorbed class on to the class that absorbed it. -/
def moveReferrers (state : Propagation) (absorbed root : ClassId) : Propagation :=
  let inherited := state.referrersOf absorbed
  { state with
    referrers := (state.referrers.setIfInBounds absorbed.index []).modify root.index
      fun known => Distinct.addAll known inherited }

/-- Merges two classes. The class that stays is to be refined, and so are all that mention it. -/
def merge (schedule : Schedule) (state : Propagation) (a b : ClassId) : Propagation :=
  match state.store.union a b with
  | none => state
  | some (merge, store) =>
    let merged := { state with
      store
      pending := state.pending ++ merge.implied
      work := { state.work with merges := state.work.merges + 1 } }
    ((merged.moveReferrers merge.absorbed merge.root).enqueue merge.root).enqueueReferrers schedule
      merge.root

/-- Brings the references and the extent of a class up to date. -/
def refine (schedule : Schedule) (state : Propagation) (cls : ClassId) : Propagation :=
  let root := state.store.root cls
  let old := state.store.constraint root
  let linked := old.relink state.store.root
  let extent := state.store.extentOf root linked.slots
  let grew := linked.extent < extent
  let changed := old.isStale state.store.root || grew
  let refined := linked.references.foldl (addReferrer root) { state with
    store := state.store.update root fun _ => { linked with extent := max linked.extent extent }
    work := { state.work with
      refinements := state.work.refinements + if changed then 1 else 0 } }
  if grew then refined.enqueueReferrers schedule root else refined

def perform (schedule : Schedule) (state : Propagation) (step : Step) : Propagation :=
  let counted := { state with work := { state.work with steps := state.work.steps + 1 } }
  match step with
  | .merge a b => counted.merge schedule a b
  | .refine cls => counted.refine schedule cls

/-- Performs steps until none is left. A step past the last of the budget is a failure, which names
the class the step was about; the store keeps what was done. -/
def run (schedule : Schedule) (cap : Nat) :
    Nat → Propagation → Store × Except AnalysisFailure Work
  | 0, state =>
    match state.next? with
    | none => (state.store, .ok state.work)
    | some (step, rest) =>
      (rest.store, .error (.nonTerminating cap (rest.store.root step.cls)))
  | budget + 1, state =>
    match state.next? with
    | none => (state.store, .ok state.work)
    | some (step, rest) => run schedule cap budget (rest.perform schedule step)

end Propagation

/-- Merges the given pairs and all that they imply, within `cap` steps. -/
def Store.propagate (schedule : Schedule) (cap : Nat) (merges : List ClassPair) (store : Store) :
    Store × Except AnalysisFailure Work :=
  Propagation.run schedule cap cap (Propagation.start store merges)

end TypeRecovery
