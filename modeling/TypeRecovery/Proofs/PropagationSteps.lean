import TypeRecovery.Proofs.StoreOperations
import TypeRecovery.Propagation
/-!
Runs of propagation as sequences of steps. A run that succeeds has performed all steps there were,
and a run that fails has one more step to perform than its budget allows. Of what a step does, only
its effect on the store, on the pairs and on the two lists of classes matters later on.
-/
namespace TypeRecovery.Propagation

variable {schedule : Schedule}

/-- So many steps lead from one state to the other. -/
inductive Steps (schedule : Schedule) : Nat → Propagation → Propagation → Prop where
  | none (state) : Steps schedule 0 state state
  | next {count : Nat} {state rest final : Propagation} {step : Step} :
      state.next? = some (step, rest) → Steps schedule count (rest.perform schedule step) final →
      Steps schedule (count + 1) state final

theorem Steps.keeps {Invariant : Propagation → Prop}
    (kept : ∀ {state rest step}, state.next? = some (step, rest) → Invariant state →
      Invariant (rest.perform schedule step))
    {count : Nat} {state final : Propagation} (steps : Steps schedule count state final)
    (start : Invariant state) : Invariant final := by
  induction steps with
  | none => exact start
  | next found _ ih => exact ih (kept found start)

theorem run_ok {cap budget : Nat} {state : Propagation} {work : Work}
    (ok : (run schedule cap budget state).2 = .ok work) :
    ∃ count ≤ budget, ∃ final, Steps schedule count state final ∧ final.next? = none ∧
      (run schedule cap budget state).1 = final.store ∧ work = final.work := by
  induction budget generalizing state with
  | zero =>
    cases found : state.next? with
    | none =>
      simp only [run, found, Except.ok.injEq] at ok ⊢
      exact ⟨0, Nat.le_refl 0, state, Steps.none state, found, rfl, ok.symm⟩
    | some entry =>
      rcases entry with ⟨step, rest⟩
      simp [run, found] at ok
  | succ budget ih =>
    cases found : state.next? with
    | none =>
      simp only [run, found, Except.ok.injEq] at ok ⊢
      exact ⟨0, Nat.zero_le _, state, Steps.none state, found, rfl, ok.symm⟩
    | some entry =>
      rcases entry with ⟨step, rest⟩
      simp only [run, found] at ok ⊢
      rcases ih ok with ⟨count, within, final, steps, done, store, work⟩
      exact ⟨count + 1, Nat.succ_le_succ within, final, Steps.next found steps, done, store, work⟩

theorem run_of_steps {cap budget count : Nat} {state final : Propagation}
    (steps : Steps schedule count state final) (done : final.next? = none)
    (within : count ≤ budget) :
    run schedule cap budget state = (final.store, .ok final.work) := by
  induction steps generalizing budget with
  | none => cases budget <;> simp [run, done]
  | next found _ ih =>
    cases budget with
    | zero => exact absurd within (Nat.not_succ_le_zero _)
    | succ budget =>
      simp only [run, found]
      exact ih done (Nat.le_of_succ_le_succ within)

theorem run_error_of_steps {cap budget count : Nat} {state final : Propagation}
    (steps : Steps schedule count state final) (beyond : budget < count) :
    ∃ cls, (run schedule cap budget state).2 = .error (.nonTerminating cap cls) := by
  induction steps generalizing budget with
  | none => exact absurd beyond (Nat.not_lt_zero _)
  | next found _ ih =>
    cases budget with
    | zero => simp [run, found]
    | succ budget =>
      simp only [run, found]
      exact ih (Nat.lt_of_succ_lt_succ beyond)

theorem enqueueAll (classes : List ClassId) (state : Propagation) :
    classes.foldl enqueue state =
      { state with worklist := Distinct.addAll state.worklist classes } := by
  induction classes generalizing state with
  | nil => rfl
  | cons first rest ih => exact ih (state.enqueue first)

theorem mem_movedReferrers {referrers : Array (List ClassId)} {absorbed root cls : Nat}
    {inherited : List ClassId} {referrer : ClassId}
    (member : referrer ∈ ((referrers.setIfInBounds absorbed []).modify root
      fun known => Distinct.addAll known inherited)[cls]?.getD []) :
    referrer ∈ referrers[cls]?.getD [] ∨ referrer ∈ inherited := by
  have cleared : referrer ∈ (referrers.setIfInBounds absorbed [])[cls]?.getD [] →
      referrer ∈ referrers[cls]?.getD [] := by
    rw [Array.getElem?_setIfInBounds]
    split
    · split <;> simp
    · exact id
  rw [Array.getElem?_modify] at member
  split at member
  · cases held : (referrers.setIfInBounds absorbed [])[cls]? with
    | none => simp [held] at member
    | some known =>
      simp only [held, Option.map_some, Option.getD_some, Distinct.mem_addAll] at member
      exact member.imp_left fun old => cleared (by simpa [held] using old)
  · exact Or.inl (cleared member)

theorem addReferrers (root : ClassId) (classes : List ClassId) (state : Propagation) :
    ∃ referrers, classes.foldl (addReferrer root) state = { state with referrers } ∧
      referrers.size = state.referrers.size ∧
      ∀ (referrer cls : ClassId), cls.index < state.referrers.size →
        (referrer ∈ referrers[cls.index]?.getD [] ↔
          referrer ∈ state.referrersOf cls ∨ referrer = root ∧ cls ∈ classes) := by
  induction classes generalizing state with
  | nil => exact ⟨state.referrers, rfl, rfl, fun _ _ _ => by simp [referrersOf]⟩
  | cons first rest ih =>
    rcases ih (addReferrer root state first) with ⟨referrers, same, size, members⟩
    have kept : (addReferrer root state first).referrers.size = state.referrers.size := by
      simp [addReferrer]
    refine ⟨referrers, same, size.trans kept, fun referrer cls inside => ?_⟩
    have grown : referrer ∈ (addReferrer root state first).referrersOf cls ↔
        referrer ∈ state.referrersOf cls ∨ referrer = root ∧ cls = first := by
      simp only [addReferrer, referrersOf, Array.getElem?_modify]
      by_cases same : first = cls
      · simp [same, inside, Distinct.mem_add]
      · have apart : first.index ≠ cls.index := fun equal => same (ClassId.eq_of_index equal)
        simp [apart, Ne.symm same]
    rw [members referrer cls (by rwa [kept]), grown, List.mem_cons, and_or_left, or_assoc]

end Propagation

/-- The constraint of a root, brought up to date. -/
def Store.refreshed (store : Store) (root : ClassId) : Constraint :=
  let linked := (store.constraint root).relink store.root
  { linked with extent := max linked.extent (store.extentOf root linked.slots) }

theorem lt_max_self (a b : UInt64) : a < max a b ↔ a < b := by
  show a < (if a ≤ b then b else a) ↔ _
  split
  · exact Iff.rfl
  · simp only [UInt64.lt_iff_toNat_lt, UInt64.le_iff_toNat_le] at *
    omega

theorem Store.grows_refreshed (store : Store) (cls : ClassId) :
    (store.constraint cls).extent < (store.refreshed (store.root cls)).extent ↔
      (store.constraint (store.root cls)).extent < store.extentOf (store.root cls)
        ((store.constraint (store.root cls)).relink store.root).slots := by
  rw [← store.constraint_root cls]
  exact lt_max_self _ _

namespace Propagation

variable {schedule : Schedule}

/-- What the next step makes of a state. -/
inductive Step.Leads (schedule : Schedule) (state after : Propagation) : Prop where
  /-- The classes of the first pair are one already. -/
  | same (a b : ClassId) : state.pending = (a, b) :: after.pending →
      state.store.root a = state.store.root b → after.store = state.store →
      after.worklist = state.worklist → after.referrers = state.referrers →
      Step.Leads schedule state after
  | united (a b : ClassId) (more : List ClassPair) (merge : Merge) :
      state.pending = (a, b) :: more → state.store.union a b = some (merge, after.store) →
      after.pending = more ++ merge.implied →
      after.worklist = Distinct.addAll (Distinct.add state.worklist merge.root)
        (schedule.arrange after.work.steps (after.referrersOf merge.root)) →
      after.referrers = ((state.referrers.setIfInBounds merge.absorbed.index []).modify
        merge.root.index fun known => Distinct.addAll known (state.referrersOf merge.absorbed)) →
      Step.Leads schedule state after
  | refined (cls : ClassId) (more : List ClassId) :
      state.pending = [] → state.worklist = cls :: more → after.pending = [] →
      after.store = state.store.update (state.store.root cls) (fun _ =>
        state.store.refreshed (state.store.root cls)) →
      after.referrers.size = state.referrers.size →
      (∀ referrer other, other.index < state.referrers.size →
        (referrer ∈ after.referrersOf other ↔ referrer ∈ state.referrersOf other ∨
          referrer = state.store.root cls ∧ other ∈
            ((state.store.constraint cls).relink state.store.root).references)) →
      after.worklist = (if (state.store.constraint cls).extent <
          (state.store.refreshed (state.store.root cls)).extent then
        Distinct.addAll more
          (schedule.arrange after.work.steps (after.referrersOf (state.store.root cls)))
        else more) →
      Step.Leads schedule state after

theorem leads_merge (state : Propagation) {a b : ClassId} {more : List ClassPair}
    (pending : state.pending = (a, b) :: more) :
    Step.Leads schedule state
      (({ state with pending := more } : Propagation).perform schedule (.merge a b)) := by
  cases found : state.store.union a b with
  | none =>
    simp only [perform, merge, found]
    exact .same a b pending (Store.union_none.1 found) rfl rfl rfl
  | some outcome =>
    rcases outcome with ⟨united, store⟩
    simp only [perform, merge, found, enqueueReferrers, enqueueAll]
    exact .united a b more united pending found rfl rfl rfl

theorem leads_refine (state : Propagation) {cls : ClassId} {more : List ClassId}
    (pending : state.pending = []) (worklist : state.worklist = cls :: more) :
    Step.Leads schedule state
      (({ state with worklist := more } : Propagation).perform schedule (.refine cls)) := by
  have grows := state.store.grows_refreshed cls
  simp only [perform, refine]
  rcases addReferrers (state.store.root cls)
      ((state.store.constraint (state.store.root cls)).relink state.store.root).references
      _ with ⟨referrers, folded, size, members⟩
  rw [folded]
  split
  · rename_i grew
    simp only [enqueueReferrers, enqueueAll]
    refine .refined cls more pending worklist pending rfl size ?_ ?_
    · rw [← state.store.constraint_root cls]
      exact members
    · rw [if_pos (grows.2 grew)]
      rfl
  · rename_i grew
    refine .refined cls more pending worklist pending rfl size ?_ ?_
    · rw [← state.store.constraint_root cls]
      exact members
    · rw [if_neg (grew ∘ grows.1)]

theorem leads {state rest : Propagation} {step : Step} (found : state.next? = some (step, rest)) :
    Step.Leads schedule state (rest.perform schedule step) := by
  unfold next? at found
  split at found
  · rename_i pending
    cases found
    exact leads_merge state pending
  · rename_i pending worklist
    cases found
    exact leads_refine state pending worklist
  · cases found

end TypeRecovery.Propagation
