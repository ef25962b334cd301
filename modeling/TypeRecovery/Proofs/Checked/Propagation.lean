import TypeRecovery.Proofs.Checked.Store
import TypeRecovery.Proofs.StoreCorrespondence
import TypeRecovery.Proofs.TypingClasses
/-!
Propagation with lookups that can fail. A step is about classes of the pairs and the list that wait,
and it looks up what their constraints refer to. All of these are in the store at the start of a
run, and a step leaves none that is not. Therefore every step that is performed gives the same as
without the checks, and a step that is not performed names a class of the store.
-/
namespace TypeRecovery

theorem anyM_eq_some {Item : Type} {test : Item → Option Bool} {holds : Item → Bool}
    {items : List Item} (each : ∀ item ∈ items, test item = some (holds item)) :
    items.anyM test = some (items.any holds) := by
  induction items with
  | nil => rfl
  | cons first rest ih =>
    rw [List.forall_mem_cons] at each
    cases held : holds first <;> simp [List.anyM, each.1, ih each.2, held]

def Constraint.isStale? (find : ClassId → Option ClassId) (constraint : Constraint) : Option Bool :=
  constraint.references.anyM fun cls => do return (← find cls) != cls

theorem Constraint.isStale?_eq {find : ClassId → Option ClassId} {root : ClassId → ClassId}
    {constraint : Constraint}
    (found : ∀ target ∈ constraint.references, find target = some (root target)) :
    constraint.isStale? find = some (constraint.isStale root) := by
  apply anyM_eq_some
  intro target member
  simp [found target member]

def Step.classes : Step → List ClassId
  | merge a b => [a, b]
  | refine cls => [cls]

theorem Step.cls_mem (step : Step) : step.cls ∈ step.classes := by
  cases step <;> exact List.mem_cons_self

namespace Propagation

variable {schedule : Schedule} {state rest : Propagation} {cls : ClassId}

def referrersOf? (state : Propagation) (cls : ClassId) : Option (List ClassId) :=
  state.referrers[cls.index]?

def enqueueReferrers? (schedule : Schedule) (state : Propagation) (cls : ClassId) :
    Option Propagation := do
  return (schedule.arrange state.work.steps (← state.referrersOf? cls)).foldl enqueue state

def addReferrer? (referrer : ClassId) (state : Propagation) (cls : ClassId) :
    Option Propagation := do
  let _ ← state.referrersOf? cls
  return state.addReferrer referrer cls

def moveReferrers? (state : Propagation) (absorbed root : ClassId) : Option Propagation := do
  let _ ← state.referrersOf? absorbed
  let _ ← state.referrersOf? root
  return state.moveReferrers absorbed root

def merge? (schedule : Schedule) (state : Propagation) (a b : ClassId) : Option Propagation := do
  match ← state.store.union? a b with
  | none => return state
  | some (merge, store) =>
    let merged := { state with
      store
      pending := state.pending ++ merge.implied
      work := { state.work with merges := state.work.merges + 1 } }
    ((← merged.moveReferrers? merge.absorbed merge.root).enqueue merge.root).enqueueReferrers?
      schedule merge.root

def refine? (schedule : Schedule) (state : Propagation) (cls : ClassId) : Option Propagation := do
  let root ← state.store.root? cls
  let old ← state.store.constraint? root
  let linked ← old.relink? state.store.root?
  let extent ← state.store.extentOf? root linked.slots
  let grew := linked.extent < extent
  let changed := (← old.isStale? state.store.root?) || grew
  let store ← state.store.update? root fun _ => { linked with extent := max linked.extent extent }
  let refined ← linked.references.foldlM (addReferrer? root) { state with
    store
    work := { state.work with
      refinements := state.work.refinements + if changed then 1 else 0 } }
  if grew then refined.enqueueReferrers? schedule root else return refined

def perform? (schedule : Schedule) (state : Propagation) (step : Step) : Option Propagation :=
  let counted := { state with work := { state.work with steps := state.work.steps + 1 } }
  match step with
  | .merge a b => counted.merge? schedule a b
  | .refine cls => counted.refine? schedule cls

def run? (schedule : Schedule) (cap : Nat) :
    Nat → Propagation → Option (Store × Except AnalysisFailure Work)
  | 0, state =>
    match state.next? with
    | none => return (state.store, .ok state.work)
    | some (step, rest) => do
      return (rest.store, .error (.nonTerminating cap (← rest.store.root? step.cls)))
  | budget + 1, state =>
    match state.next? with
    | none => return (state.store, .ok state.work)
    | some (step, rest) => do run? schedule cap budget (← rest.perform? schedule step)

theorem enqueueReferrers?_eq (inside : cls.index < state.referrers.size) :
    state.enqueueReferrers? schedule cls = some (state.enqueueReferrers schedule cls) := by
  simp [enqueueReferrers?, enqueueReferrers, referrersOf?, referrersOf, inside]

theorem addReferrer?_eq (inside : cls.index < state.referrers.size) (referrer : ClassId) :
    state.addReferrer? referrer cls = some (state.addReferrer referrer cls) := by
  simp [addReferrer?, referrersOf?, inside]

theorem size_addReferrers (referrer : ClassId) (classes : List ClassId) (state : Propagation) :
    (classes.foldl (addReferrer referrer) state).referrers.size = state.referrers.size := by
  obtain ⟨referrers, folded, size, _⟩ := addReferrers referrer classes state
  rw [folded, size]

theorem addReferrers?_eq {classes : List ClassId} (referrer : ClassId)
    (inside : ∀ cls ∈ classes, cls.index < state.referrers.size) :
    classes.foldlM (addReferrer? referrer) state =
      some (classes.foldl (addReferrer referrer) state) := by
  induction classes generalizing state with
  | nil => rfl
  | cons first rest ih =>
    rw [List.forall_mem_cons] at inside
    have kept := size_addReferrers referrer [first] state
    rw [List.foldlM_cons, addReferrer?_eq inside.1, List.foldl_cons]
    exact ih (kept.symm ▸ inside.2)

theorem moveReferrers?_eq {absorbed root : ClassId}
    (absorbedInside : absorbed.index < state.referrers.size)
    (rootInside : root.index < state.referrers.size) :
    state.moveReferrers? absorbed root = some (state.moveReferrers absorbed root) := by
  simp [moveReferrers?, referrersOf?, absorbedInside, rootInside]

theorem merge?_eq (table : state.referrers.size = state.store.size) {a b : ClassId}
    (aInside : a.index < state.store.size) (bInside : b.index < state.store.size) :
    state.merge? schedule a b = some (state.merge schedule a b) := by
  simp only [merge?, merge, Store.union?_eq aInside bInside, Option.bind_eq_bind, Option.bind_some]
  cases found : state.store.union a b with
  | none => rfl
  | some outcome =>
    obtain ⟨merge, store⟩ := outcome
    obtain ⟨rootInside, absorbedInside⟩ :=
      (Store.union_some aInside bInside found).inside aInside bInside
    rw [← table] at rootInside absorbedInside
    refine (bind_eq (moveReferrers?_eq ?_ ?_)).trans (enqueueReferrers?_eq ?_)
    · exact absorbedInside
    · exact rootInside
    · simpa [moveReferrers, enqueue] using rootInside

theorem refine?_eq (table : state.referrers.size = state.store.size)
    (refers : state.store.RefersInside) (inside : cls.index < state.store.size) :
    state.refine? schedule cls = some (state.refine schedule cls) := by
  have rootInside := Store.root_inside inside
  have referred (target : ClassId)
      (member : target ∈ (state.store.constraint (state.store.root cls)).references) :
      target.index < state.store.size := by
    obtain ⟨role, mentioned⟩ := Constraint.mem_references_iff.1 member
    exact refers mentioned
  have found (target : ClassId)
      (member : target ∈ (state.store.constraint (state.store.root cls)).references) :
      state.store.root? target = some (state.store.root target) :=
    Store.root?_eq (referred target member)
  have linkedInside (target : ClassId) (member : target ∈ ((state.store.constraint
      (state.store.root cls)).relink state.store.root).references) :
      target.index < state.store.size := by
    rw [Constraint.references_relink] at member
    obtain ⟨old, known, rfl⟩ := List.mem_map.1 member
    exact Store.root_inside (referred old known)
  have extent := Store.extentOf?_eq (fun slot member =>
    linkedInside slot.cls (mem_references member)) (state.store.root cls)
  simp only [refine?, refine, Store.root?_eq inside, Store.constraint?_eq rootInside,
    Constraint.relink?_eq found, Constraint.isStale?_eq found, extent, Store.update?_eq rootInside,
    Option.bind_eq_bind, Option.bind_some]
  rw [addReferrers?_eq _ (table.symm ▸ linkedInside), Option.bind_some]
  split
  · rw [enqueueReferrers?_eq]
    rw [size_addReferrers]
    exact table.symm ▸ rootInside
  · rfl

theorem Inside.next {step : Step} (inside : state.Inside)
    (found : state.next? = some (step, rest)) :
    rest.store = state.store ∧ rest.referrers.size = rest.store.size ∧ rest.store.RefersInside ∧
      ∀ cls ∈ step.classes, cls.index < rest.store.size := by
  unfold next? at found
  split at found
  · rename_i pending
    cases found
    have ends := inside.pending _ (pending ▸ List.mem_cons_self)
    exact ⟨rfl, inside.table, inside.refers, by simpa [Step.classes] using ends⟩
  · rename_i worklist
    cases found
    have first := inside.first worklist
    exact ⟨rfl, inside.table, inside.refers, by simpa [Step.classes] using first⟩
  · cases found

theorem perform?_eq {step : Step} (table : state.referrers.size = state.store.size)
    (refers : state.store.RefersInside)
    (inside : ∀ cls ∈ step.classes, cls.index < state.store.size) :
    state.perform? schedule step = some (state.perform schedule step) := by
  cases step with
  | merge a b =>
    refine merge?_eq ?_ ?_ ?_
    · exact table
    · exact inside a List.mem_cons_self
    · exact inside b (List.mem_cons_of_mem _ List.mem_cons_self)
  | refine cls =>
    refine refine?_eq ?_ ?_ ?_
    · exact table
    · exact refers
    · exact inside cls List.mem_cons_self

theorem run?_eq {cap budget : Nat} (inside : state.Inside) :
    run? schedule cap budget state = some (run schedule cap budget state) := by
  induction budget generalizing state with
  | zero =>
    unfold run? run
    cases found : state.next? with
    | none => rfl
    | some entry =>
      obtain ⟨_, _, _, known⟩ := inside.next found
      simp [Store.root?_eq (known _ entry.1.cls_mem)]
  | succ budget ih =>
    unfold run? run
    cases found : state.next? with
    | none => rfl
    | some entry =>
      obtain ⟨_, table, refers, known⟩ := inside.next found
      simp only [perform?_eq table refers known, Option.bind_eq_bind, Option.bind_some]
      exact ih (inside_leads (leads found) inside)

theorem run_error {cap budget : Nat} {failure : AnalysisFailure} (inside : state.Inside)
    (failed : (run schedule cap budget state).2 = .error failure) :
    ∃ cls : ClassId, cls.index < state.store.size ∧ failure = .nonTerminating cap cls := by
  -- A step that is left undone names a class that waited, and no step adds a class to the store.
  induction budget generalizing state with
  | zero =>
    cases found : state.next? with
    | none => simp [run, found] at failed
    | some entry =>
      obtain ⟨store, _, _, known⟩ := inside.next found
      simp only [run, found, Except.error.injEq] at failed
      exact ⟨_, store ▸ Store.root_inside (known _ entry.1.cls_mem), failed.symm⟩
  | succ budget ih =>
    cases found : state.next? with
    | none => simp [run, found] at failed
    | some entry =>
      have led : Step.Leads schedule state (entry.2.perform schedule entry.1) := leads found
      simp only [run, found] at failed
      rw [← size_leads led inside]
      exact ih (inside_leads led inside) failed

end Propagation

def Store.propagate? (schedule : Schedule) (cap : Nat) (merges : List ClassPair) (store : Store) :
    Option (Store × Except AnalysisFailure Work) :=
  Propagation.run? schedule cap cap (Propagation.start store merges)

/-- No lookup of a class fails in a run, whether it succeeds or not. -/
theorem Store.propagate?_eq {schedule : Schedule} {merges : List ClassPair} {store : Store}
    (inside : (Propagation.start store merges).Inside) (cap : Nat) :
    store.propagate? schedule cap merges = some (store.propagate schedule cap merges) :=
  Propagation.run?_eq inside

end TypeRecovery
