import TypeRecovery.Proofs.AnalysisOutcome
import TypeRecovery.Proofs.RecordedConflicts
/-!
What classes are declared as while an analysis goes on. Seeding refines classes by parts, one after
the other, and propagation unites classes. Whatever else either does changes no declaration and
records no conflict. So the parts account for what the classes are declared as and for the conflicts
about them, as the parts do that calls contribute.
-/
namespace TypeRecovery

structure Constraint.SameDeclared (a b : Constraint) : Prop where
  width : b.declaredWidth = a.declaredWidth
  kind : b.declaredKind = a.declaredKind
  arity : b.arity = a.arity

theorem Constraint.SameDeclared.refl (a : Constraint) : a.SameDeclared a := ⟨rfl, rfl, rfl⟩

theorem Constraint.SameDeclared.symm {a b : Constraint} (same : a.SameDeclared b) :
    b.SameDeclared a := ⟨same.width.symm, same.kind.symm, same.arity.symm⟩

theorem Constraint.SameDeclared.trans {a b c : Constraint} (first : a.SameDeclared b)
    (second : b.SameDeclared c) : a.SameDeclared c :=
  ⟨second.width.trans first.width, second.kind.trans first.kind, second.arity.trans first.arity⟩

/-- A law about what is declared of a class, whatever else is known of it. -/
structure Account.DeclaredLaw (Good : Account → Prop) : Prop extends Law Good where
  of_sameDeclared : ∀ {parts disputes} {a b : Constraint}, Good ⟨parts, a, disputes⟩ →
    a.SameDeclared b →
    Good ⟨parts, b, disputes⟩

namespace Store

variable {store after final : Store} {cls : ClassId}

/-- No declaration was changed, and no conflict recorded. -/
structure KeepsDeclared (store after : Store) : Prop where
  root : ∀ cls, after.root cls = store.root cls
  size : store.size ≤ after.size
  disputes : after.disputes = store.disputes
  declared : ∀ cls, (store.constraint cls).SameDeclared (after.constraint cls)

theorem KeepsDeclared.refl (store : Store) : KeepsDeclared store store :=
  ⟨fun _ => rfl, Nat.le_refl _, rfl, fun _ => .refl _⟩

theorem KeepsDeclared.trans (first : KeepsDeclared store after)
    (second : KeepsDeclared after final) :
    KeepsDeclared store final where
  root cls := (second.root cls).trans (first.root cls)
  size := Nat.le_trans first.size second.size
  disputes := second.disputes.trans first.disputes
  declared cls := (first.declared cls).trans (second.declared cls)

theorem keepsDeclared_update {change : Constraint → Constraint}
    (same : (store.constraint cls).SameDeclared (change (store.constraint cls))) :
    KeepsDeclared store (store.update cls change) where
  root _ := rfl
  size := Nat.le_refl _
  disputes := rfl
  declared other := by
    by_cases inside : cls.index < store.size
    · rw [constraint_update inside]
      split
      · rename_i one
        rw [← constraint_root, one, constraint_root]
        exact same
      · exact .refl _
    · rw [constraint_update_of_outside (Nat.le_of_not_lt inside)]
      exact .refl _

theorem keepsDeclared_fresh (store : Store) {constraint : Constraint}
    (undeclared : ({} : Constraint).SameDeclared constraint) :
    KeepsDeclared store (store.fresh constraint).2 where
  root := root_fresh store constraint
  size := (Nat.le_succ _).trans_eq (size_fresh store constraint).symm
  disputes := rfl
  declared cls := by
    rw [constraint_fresh]
    split
    · rename_i new
      have outside : store.size ≤ cls.index := new ▸ Nat.le_refl _
      rw [constraint_of_outside outside]
      exact undeclared
    · exact .refl _

theorem keepsDeclared_bindTypedef (store : Store) (name : String) (cls : ClassId)
    (definition : Hint) :
    KeepsDeclared store (store.bindTypedef name cls definition) := by
  unfold bindTypedef
  split
  · exact .refl store
  · exact ⟨fun _ => rfl, Nat.le_refl _, rfl, fun _ => .refl _⟩

theorem sameDeclared_refreshed (store : Store) (cls : ClassId) :
    (store.constraint cls).SameDeclared (store.refreshed cls) where
  width := rfl
  kind := rfl
  arity := by
    unfold refreshed
    generalize store.constraint cls = constraint
    rcases constraint with ⟨_, _, _, _, _, _, _, _ | ⟨_ | params, _⟩, _⟩ <;>
      simp [Constraint.arity, Constraint.relink, Signature.relink, Signature.arity]

/-- Parts were added to classes, one after the other. -/
inductive AddsParts : List (ClassId × Constraint) → Store → Store → Prop where
  | keepsDeclared {store after : Store} : KeepsDeclared store after → AddsParts [] store after
  | added {cls : ClassId} {part : Constraint} {store after : Store} :
      AddsPart cls part store after → AddsParts [(cls, part)] store after
  | fresh (store : Store) (part : Constraint) :
      AddsParts [(⟨store.size⟩, part)] store (store.fresh part).2
  | union {a b : ClassId} {merge : Merge} {store after : Store} : a.index < store.size →
      b.index < store.size → store.union a b = some (merge, after) → AddsParts [] store after
  | trans {first second : List (ClassId × Constraint)} {store middle after : Store} :
      AddsParts first store middle → AddsParts second middle after →
      AddsParts (first ++ second) store after

theorem AddsParts.refl (store : Store) : AddsParts [] store store := .keepsDeclared (.refl store)

theorem AddsParts.onward {parts : List (ClassId × Constraint)}
    (addsParts : AddsParts parts store after)
    (keepsDeclared : KeepsDeclared after final) : AddsParts parts store final :=
  parts.append_nil ▸ addsParts.trans (.keepsDeclared keepsDeclared)

namespace Lawful

variable {Good : Account → Prop} {record parts : List (ClassId × Constraint)}

theorem keepsDeclared (law : Account.DeclaredLaw Good) (lawful : store.Lawful Good record)
    (keepsDeclared : KeepsDeclared store after) : after.Lawful Good record := by
  refine ⟨lawful.covers.mono keepsDeclared.size, ?_, fun cls => ?_⟩
  · rw [keepsDeclared.disputes]
    exact lawful.disputes.mono keepsDeclared.size
  · have good := lawful.good cls
    rw [account, about_of_same_roots keepsDeclared.root, about_of_same_roots keepsDeclared.root,
      keepsDeclared.disputes]
    exact law.of_sameDeclared good (keepsDeclared.declared cls)

theorem addsParts (law : Account.DeclaredLaw Good) (addsParts : AddsParts parts store after)
    (lawful : store.Lawful Good record) : after.Lawful Good (record ++ parts) := by
  -- On how the parts were added; the record grows by those of each step.
  induction addsParts generalizing record with
  | keepsDeclared keepsDeclared =>
    rw [List.append_nil]
    exact lawful.keepsDeclared law keepsDeclared
  | added addsPart => exact lawful.addsPart law.toLaw addsPart
  | fresh store part => exact lawful.fresh law.toLaw part
  | union aInside bInside found =>
    rw [List.append_nil]
    exact lawful.union law.toLaw aInside bInside found
  | trans _ _ first second =>
    rw [← List.append_assoc]
    exact second (first lawful)

end Lawful
end Store

/-- To add the parameters that are missing is to join a signature with `arity` parameters. -/
theorem Constraint.params_take_eq {constraint : Constraint} {signature : Signature}
    (known : constraint.signature = some signature) {arity : Nat} {more : List ClassId}
    (length : more.length = arity - (signature.params.getD []).length) :
    { constraint with signature := constraint.signature.map fun signature =>
        { signature with params := some ((constraint.signature.bind Signature.params).getD [] ++
          more) } } =
      constraint.join {
        signature :=
          some ⟨some ((signature.params.getD [] ++ more).take arity), signature.ret⟩ } := by
  rcases signature with ⟨_ | params, ret⟩
  · have whole : more.take arity = more := List.take_of_length_le (by simp_all)
    simp [join, evidence_union_empty, max_zero_width, max_zero_extent, Slot.addAll, known,
      Signature.join, whole]
  · have whole : more.take (arity - params.length) = more := List.take_of_length_le (by simp_all)
    simp [join, evidence_union_empty, max_zero_width, max_zero_extent, Slot.addAll, known,
      Signature.join, List.drop_take, whole]

namespace Seeding

open Store (KeepsDeclared)

variable {seeding : Seeding}

theorem keepsDeclared_mark (seeding : Seeding) (cls : ClassId) (evidence : Evidence) :
    KeepsDeclared seeding.store (seeding.mark cls evidence).store :=
  Store.keepsDeclared_update ⟨rfl, rfl, rfl⟩

theorem keepsDeclared_access (seeding : Seeding) (cls : ClassId) (size : UInt8) :
    KeepsDeclared seeding.store (seeding.access cls size).store :=
  Store.keepsDeclared_update ⟨rfl, rfl, rfl⟩

theorem keepsDeclared_addSlot (seeding : Seeding) (cls : ClassId) (slot : Slot) :
    KeepsDeclared seeding.store (seeding.addSlot cls slot).store :=
  Store.keepsDeclared_update ⟨rfl, rfl, rfl⟩

theorem keepsDeclared_pointeeOf (seeding : Seeding) (base : ClassId) :
    KeepsDeclared seeding.store (seeding.pointeeOf base).2.store := by
  unfold pointeeOf
  split
  · exact .refl _
  · exact (seeding.store.keepsDeclared_fresh (.refl _)).trans
      (Store.keepsDeclared_update ⟨rfl, rfl, rfl⟩)

theorem keepsDeclared_returnOf (seeding : Seeding) (callee : ClassId) :
    KeepsDeclared seeding.store (seeding.returnOf callee).2.store := by
  unfold returnOf
  split
  · exact .refl _
  · rename_i unknown
    refine (seeding.store.keepsDeclared_fresh (.refl _)).trans
      (Store.keepsDeclared_update ⟨rfl, rfl, ?_⟩)
    rw [← Store.constraint_fresh_empty] at unknown
    simp only [Constraint.arity, unknown]
    rfl

/-- Nothing was done but to make classes of which nothing is known. -/
structure OnlyFresh (seeding after : Seeding) : Prop where
  keepsDeclared : KeepsDeclared seeding.store after.store
  constraint : ∀ cls, after.store.constraint cls = seeding.store.constraint cls

theorem onlyFresh_freshMany (seeding : Seeding) (count : Nat) :
    OnlyFresh seeding (seeding.freshMany count).2 ∧ (seeding.freshMany count).1.length = count := by
  induction count generalizing seeding with
  | zero => exact ⟨⟨.refl _, fun _ => rfl⟩, rfl⟩
  | succ count ih =>
    obtain ⟨later, length⟩ := ih (seeding.fresh {}).2
    exact ⟨⟨(seeding.store.keepsDeclared_fresh (.refl _)).trans later.keepsDeclared, fun cls =>
      (later.constraint cls).trans (seeding.store.constraint_fresh_empty cls)⟩,
      congrArg Nat.succ length⟩

end Seeding

theorem Constraint.conflicts_params {constraint : Constraint} {signature : Signature}
    (known : constraint.signature = some signature) (params : List ClassId) (ret : ClassId) :
    constraint.conflicts { signature := some ⟨some params, ret⟩ } =
      Conflict.ofArities (signature.params.map List.length) (some params.length) := by
  simp [conflicts, Conflict.ofWidths, Conflict.ofKinds, known, Signature.arity]

namespace Seeding

variable {seeding : Seeding} {callee : ClassId}

theorem length_take_formalsOf (seeding : Seeding) (callee : ClassId) (arity : Nat) :
    ((seeding.formalsOf callee arity).1.take arity).length = arity := by
  simp only [formalsOf, List.length_take, List.length_append, (onlyFresh_freshMany _ _).2]
  omega

theorem addsPart_formalsOf {signature : Signature}
    (known : ((seeding.returnOf callee).2.store.constraint callee).signature = some signature)
    (arity : Nat) :
    Store.AddsPart callee
      { signature := some ⟨some ((seeding.formalsOf callee arity).1.take arity), signature.ret⟩ }
      (seeding.returnOf callee).2.store (seeding.formalsOf callee arity).2.store := by
  have count := length_take_formalsOf seeding callee arity
  unfold formalsOf at count ⊢
  generalize (seeding.returnOf callee).2 = called at known count ⊢
  have inside : callee.index < called.store.size := by
    apply Nat.lt_of_not_le
    intro outside
    rw [Store.constraint_of_outside outside] at known
    cases known
  simp only [known, Option.bind_some] at count ⊢
  -- The conflicts are recorded first, and then the parameters made that are missing.
  let conflicts := Conflict.ofArities (signature.params.map List.length) (some arity)
  have noted : Store.SameClasses called.store _ :=
    Store.recordConflicts_same called.store callee conflicts
  have disputes := Store.disputes_append
    (Store.conflicts_recordConflicts called.store callee conflicts)
  obtain ⟨onlyFresh, length⟩ := onlyFresh_freshMany
    ⟨conflicts.foldl (fun store => store.recordConflict callee) called.store, called.merges⟩
    (arity - (signature.params.getD []).length)
  generalize freshMany _ _ = made at onlyFresh length count ⊢
  refine Store.addsPart_update inside
    (fun other => (onlyFresh.keepsDeclared.root other).trans (noted.root other))
    (noted.size.ge.trans onlyFresh.keepsDeclared.size)
    (fun other => (onlyFresh.constraint other).trans (noted.constraint other)) ?_ ?_
  · rw [Constraint.conflicts_params known, count]
    exact onlyFresh.keepsDeclared.disputes.trans disputes
  · have joins := Constraint.params_take_eq known length
    rw [known] at joins ⊢
    exact joins

def Realized.parts (cls : ClassId) : Realized → List (ClassId × Constraint)
  | .constraint added => [(cls, added)]
  | .typedef _ => []

theorem addsParts_settle (seeding : Seeding) (realized : Realized) :
    Store.AddsParts (realized.parts (seeding.settle realized).1) seeding.store
      (seeding.settle realized).2.store := by
  cases realized with
  | constraint constraint => exact .fresh _ _
  | typedef named => exact .refl _

theorem addsParts_declareRealized {cls : ClassId} (inside : cls.index < seeding.store.size)
    (realized : Realized) :
    Store.AddsParts (realized.parts cls) seeding.store
      (seeding.declareRealized cls realized).store := by
  cases realized with
  | constraint constraint => exact .added (Store.addsPart_refine inside constraint)
  | typedef named => exact .refl _

end Seeding

namespace Propagation

variable {schedule : Schedule} {state after : Propagation}

theorem addsParts_leads (leads : Step.Leads schedule state after) (inside : state.Inside) :
    Store.AddsParts [] state.store after.store := by
  cases leads with
  | same a b pending same store =>
    rw [store]
    exact .refl _
  | united a b more merge pending found =>
    -- A queued pair is of classes of the store, as a union needs.
    have ends := inside.pending (a, b) (by rw [pending]; exact List.mem_cons_self)
    exact .union ends.1 ends.2 found
  | refined cls more pending worklist rest store =>
    rw [store]
    exact .keepsDeclared (Store.keepsDeclared_update (Store.sameDeclared_refreshed _ _))

theorem addsParts_steps {count : Nat} {final : Propagation}
    (steps : Steps schedule count state final) (inside : state.Inside) :
    Store.AddsParts [] state.store final.store := by
  induction steps with
  | none => exact .refl _
  | next found _ ih =>
    have led : Step.Leads schedule _ _ := leads found
    exact (addsParts_leads led inside).trans (ih (inside_leads led inside))

end Propagation
end TypeRecovery
