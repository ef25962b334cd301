import TypeRecovery.Proofs.Checked.Store
import TypeRecovery.Proofs.TypingClasses
/-!
A typing that is read off with lookups that can fail: of the classes of the store, of the numbers of
roots, and of the classes that aliases name. A class that has no number is none that a type may
refer to, and here it is not given the number of an absent class instead. The roots that the
numbering comes upon are in the store, each of them gets a number, and the numbers in types are
among those that were given. So nothing that is looked up is missing.
-/
namespace TypeRecovery

theorem filterMap_ite {Item Other : Type} (test : Item → Bool) (make : Item → Other)
    (items : List Item) :
    (items.map fun item => if test item then some (make item) else none).filterMap id =
      (items.filter test).map make := by
  rw [List.filterMap_map, Function.id_comp]
  induction items with
  | nil => rfl
  | cons first rest ih => cases holds : test first <;> simp [holds, ih]

namespace Numbering

variable {store : Store} {cls : ClassId}

def successors? (store : Store) (cls : ClassId) : Option (List ClassId) := do
  (← store.constraint? cls).references.mapM store.root?

def starts? (store : Store) : Option (List ClassId) := do
  let located ← (List.range store.locationCount).mapM fun place => store.classOf? ⟨place⟩
  return located ++ store.roots

def explore? (next : ClassId → Option (List ClassId)) :
    Nat → Nat → List ClassId → Option (List ClassId)
  | 0, _, order => return order
  | steps + 1, place, order =>
    match order[place]? with
    | none => return order
    | some cls => do explore? next steps (place + 1) (Distinct.addAll order (← next cls))

def ofStore? (store : Store) : Option Numbering := do
  let order ← (← starts? store).foldlM (fun order start =>
    explore? (successors? store) store.size order.length (Distinct.add order start)) []
  return ⟨order⟩

def number? (numbering : Numbering) (root : ClassId) : Option ClassId :=
  (numbering.order.idxOf? root).map fun place => ⟨place + 1⟩

theorem successors?_eq (refers : store.RefersInside) (inside : cls.index < store.size) :
    successors? store cls = some (successors store cls) := by
  have found (target : ClassId) (member : target ∈ (store.constraint cls).references) :
      store.root? target = some (store.root target) := by
    obtain ⟨role, mentioned⟩ := Constraint.mem_references_iff.1 member
    exact Store.root?_eq (refers mentioned)
  simp only [successors?, Store.constraint?_eq inside, Option.bind_eq_bind, Option.bind_some]
  exact mapM_eq_some found

theorem starts?_eq (store : Store) : starts? store = some (starts store) := by
  have located := mapM_eq_some fun place (member : place ∈ List.range store.locationCount) =>
    @Store.classOf?_eq _ ⟨place⟩ (List.mem_range.1 member)
  simp [starts?, starts, located]

section search

variable {next? : ClassId → Option (List ClassId)} {next : ClassId → List ClassId}
  {roots order : List ClassId}

theorem explore?_eq (bounded : ∀ cls, ∀ other ∈ next cls, other ∈ roots)
    (found : ∀ cls ∈ roots, next? cls = some (next cls)) {steps place : Nat}
    (known : ∀ cls ∈ order, cls ∈ roots) :
    explore? next? steps place order = some (explore next steps place order) ∧
      ∀ cls ∈ explore next steps place order, cls ∈ roots := by
  induction steps generalizing place order with
  | zero => exact ⟨rfl, known⟩
  | succ steps ih =>
    unfold explore? explore
    cases listed : order[place]? with
    | none => exact ⟨rfl, known⟩
    | some cls =>
      simp only [found cls (known cls (List.mem_of_getElem? listed)), Option.bind_eq_bind,
        Option.bind_some]
      apply ih
      intro other member
      exact (Distinct.mem_addAll.1 member).elim (known other) (bounded cls other)

theorem exploreAll?_eq (bounded : ∀ cls, ∀ other ∈ next cls, other ∈ roots)
    (found : ∀ cls ∈ roots, next? cls = some (next cls)) {starts : List ClassId}
    (startsKnown : ∀ cls ∈ starts, cls ∈ roots)
    (known : ∀ cls ∈ order, cls ∈ roots) (steps : Nat) :
    starts.foldlM (fun order start =>
        explore? next? steps order.length (Distinct.add order start)) order =
      some (starts.foldl (fun order start =>
        explore next steps order.length (Distinct.add order start)) order) := by
  induction starts generalizing order with
  | nil => rfl
  | cons start rest ih =>
    rw [List.forall_mem_cons] at startsKnown
    have added : ∀ cls ∈ Distinct.add order start, cls ∈ roots := by
      intro cls member
      rcases Distinct.mem_add.1 member with old | rfl
      · exact known cls old
      · exact startsKnown.1
    obtain ⟨same, explored⟩ := @explore?_eq _ _ _ _ bounded found steps order.length added
    rw [List.foldlM_cons, same]
    exact ih startsKnown.2 explored

end search

theorem ofStore?_eq (refers : store.RefersInside) : ofStore? store = some (ofStore store) := by
  have found (cls : ClassId) (isRoot : cls ∈ store.roots) :
      successors? store cls = some (successors store cls) :=
    successors?_eq refers (Store.mem_roots.1 isRoot).1
  have explored := exploreAll?_eq (mem_roots_of_successor refers) found (mem_roots_of_start store)
    (List.forall_mem_nil _) store.size
  simp [ofStore?, ofStore, starts?_eq, explored]

theorem number?_eq {numbering : Numbering} {root : ClassId} (member : root ∈ numbering.order) :
    numbering.number? root = some (numbering.number root) := by
  unfold number? number
  cases found : numbering.order.idxOf? root with
  | none => exact absurd member (List.idxOf?_eq_none_iff.1 found)
  | some place => rfl

end Numbering

namespace Reading

section lookups

variable (reading : Reading) (number? : ClassId → Option ClassId) (span? : ClassId → Option Nat)

def pointer? (constraint : Constraint) (target : ClassId) : Option CType := do
  let pointer := CType.pointer (← number? target)
  if constraint.evidence.hasIntegerUse then return .union [reading.primitive constraint, pointer]
  else return pointer

def group? (slot : Slot) : Option FieldGroup := do
  return .ofSlot slot.offset (max slot.size.toNat (← span? slot.cls)) (← number? slot.cls)

def aggregate? (constraint : Constraint) : Option CType := do
  let groups := FieldGroup.sweep (← constraint.slots.mapM (group? number? span?))
  match constraint.slots with
  | [slot] =>
    if slot.offset = 0 ∧ constraint.hasOwnEvidence = false then
      return .sameAs (← number? slot.cls)
    else return .ofGroups constraint.extent groups
  | _ => return .ofGroups constraint.extent groups

def type? (constraint : Constraint) : Option CType := do
  if constraint.declaredKind = some .void then return .void
  else match constraint.calledAs? with
    | some signature =>
      return .function (← (signature.params.getD []).mapM number?) (← number? signature.ret)
    | none =>
      match constraint.pointee with
      | some target => reading.pointer? number? constraint target
      | none =>
        if constraint.hasSlots then aggregate? number? span? constraint
        else return reading.scalar constraint

variable {reading number? span?} {constraint : Constraint}

theorem aggregate?_eq
    (numbered : ∀ target ∈ constraint.references, number? target = some (reading.number target))
    (spanned : ∀ target ∈ constraint.references, span? target = some (reading.span target)) :
    aggregate? number? span? constraint = some (reading.aggregate constraint) := by
  have groups : constraint.slots.mapM (group? number? span?) =
      some (constraint.slots.map reading.group) := by
    apply mapM_eq_some
    intro slot member
    have referred := Propagation.mem_references member
    simp [group?, group, numbered _ referred, spanned _ referred]
  simp only [aggregate?, aggregate, groups, Option.bind_eq_bind, Option.bind_some]
  rcases listed : constraint.slots with _ | ⟨slot, _ | ⟨second, rest⟩⟩
  · rfl
  · have referred := Propagation.mem_references (listed ▸ List.mem_cons_self)
    simp only [numbered _ referred, Option.bind_some]
    split <;> rfl
  · rfl

theorem type?_eq
    (numbered : ∀ target ∈ constraint.references, number? target = some (reading.number target))
    (spanned : ∀ target ∈ constraint.references, span? target = some (reading.span target)) :
    reading.type? number? span? constraint = some (reading.type constraint) := by
  unfold type? type
  by_cases void : constraint.declaredKind = some .void
  · rw [if_pos void, if_pos void]
    rfl
  rw [if_neg void, if_neg void]
  cases called : constraint.calledAs? with
  | some signature =>
    have known := Constraint.signature_of_calledAs? called
    have referred (cls : ClassId) (member : cls ∈ signature.references) :
        number? cls = some (reading.number cls) := by
      apply numbered
      simp only [Constraint.references, known]
      exact List.mem_append_right _ member
    have params := mapM_eq_some fun cls member => referred cls (List.mem_append_left _ member)
    simp [params, referred signature.ret (List.mem_append_right _ List.mem_cons_self)]
  | none =>
    cases pointee : constraint.pointee with
    | some target =>
      have referred := Constraint.mem_references_iff.2 ⟨.pointee, pointee⟩
      simp only [pointer?, pointer, numbered target referred, Option.bind_eq_bind, Option.bind_some]
      split <;> rfl
    | none =>
      by_cases fields : constraint.hasSlots = true
      · simp [fields, aggregate?_eq numbered spanned]
      · simp [fields]

end lookups

end Reading

namespace CType

def sizeWithin? (types : Array CType) (pointerSize : UInt8) :
    Nat → CType → Option (Option UInt64)
  | 0, _ => return none
  | levels + 1, type =>
    match type with
    | union alternatives => do
      let sizes ← alternatives.mapM (sizeWithin? types pointerSize levels)
      return (sizes.filterMap id).max?
    | sameAs cls =>
      match cls.index with
      | 0 => none
      | place + 1 => do sizeWithin? types pointerSize levels (← types[place]?)
    | plain => return plain.sizeWithin types pointerSize (levels + 1)

def sizeAmong? (types : Array CType) (pointerSize : UInt8) (type : CType) :
    Option (Option UInt64) :=
  type.sizeWithin? types pointerSize (referenceLimit + 1)

theorem sizeWithin?_eq {types : Array CType} {pointerSize : UInt8}
    (closed : ∀ type ∈ types, ∀ id, type.Names id → 1 ≤ id.index ∧ id.index ≤ types.size)
    {levels : Nat} {type : CType}
    (named : ∀ id, type.Names id → 1 ≤ id.index ∧ id.index ≤ types.size) :
    type.sizeWithin? types pointerSize levels =
      some (type.sizeWithin types pointerSize levels) := by
  -- By `closed` the type that a reference leads to has its own references among the types as well.
  induction levels generalizing type with
  | zero => rfl
  | succ levels ih =>
    cases type with
    | union alternatives =>
      have sizes := mapM_eq_some fun type (member : type ∈ alternatives) =>
        ih fun id names => named id (.alternative member names)
      simp [sizeWithin?, sizeWithin, sizes, List.filterMap_map]
    | sameAs cls =>
      obtain ⟨positive, within⟩ := named cls .sameAs
      obtain ⟨index⟩ := cls
      obtain ⟨place, rfl⟩ := Nat.exists_eq_add_of_le' positive
      have inside : place < types.size := within
      simp only [sizeWithin?, sizeWithin, Array.getElem?_eq_getElem inside, Option.bind_eq_bind,
        Option.bind_some]
      exact ih (closed _ (Array.getElem_mem inside))
    | _ => rfl

end CType

def Store.members? (store : Store) (cls : ClassId) : Option (List LocId) := do
  let root ← store.root? cls
  let placed ← (List.range store.locationCount).mapM fun place => do
    return (LocId.mk place, ← store.classOf? ⟨place⟩)
  return (placed.filter fun entry => entry.2 = root).map Prod.fst

theorem Store.members?_eq {store : Store} {cls : ClassId} (inside : cls.index < store.size) :
    store.members? cls = some (store.members cls) := by
  have placed : ((List.range store.locationCount).mapM fun place => do
      return (LocId.mk place, ← store.classOf? ⟨place⟩)) =
        some ((List.range store.locationCount).map fun place =>
          (LocId.mk place, store.classOf ⟨place⟩)) := by
    apply mapM_eq_some
    intro place member
    simp [@Store.classOf?_eq _ ⟨place⟩ (List.mem_range.1 member)]
  rw [members?, placed, root?_eq inside]
  simp [members, List.filter_map, Function.comp_def]

namespace Typing

variable {config : Config} {store : Store} {cls root : ClassId}

def number? (store : Store) (numbering : Numbering) (cls : ClassId) : Option ClassId := do
  numbering.number? (← store.root? cls)

def span? (store : Store) (cls : ClassId) : Option Nat := do
  return (← store.constraint? cls).span

def typeOfRoot? (config : Config) (store : Store) (numbering : Numbering) (root : ClassId) :
    Option CType := do
  (reading config store numbering).type? (number? store numbering) (span? store)
    (← store.constraint? root)

def classOfRoot? (config : Config) (store : Store) (numbering : Numbering) (types : Array CType)
    (root : ClassId) : Option TypedClass := do
  let constraint ← store.constraint? root
  let type ← typeOfRoot? config store numbering root
  return {
    id := ← number? store numbering root
    members := ← store.members? root
    type
    name := match type with
      | .union _ => none
      | _ => constraint.declaredName
    size := ← type.sizeAmong? types config.pointerSize }

def conflict? (store : Store) (numbering : Numbering) (recorded : ClassConflict) :
    Option Diagnostic := do
  return recorded.conflict.diagnostic (← number? store numbering recorded.cls)

def ambiguity? (store : Store) (numbering : Numbering) (root : ClassId) :
    Option (Option Diagnostic) := do
  if (← store.constraint? root).isAmbiguous then
    return some (Diagnostic.ambiguous (← number? store numbering root))
  else return none

def ofStore? (config : Config) (store : Store) : Option Typing := do
  let numbering ← Numbering.ofStore? store
  let roots := numbering.order
  let types := (← roots.mapM (typeOfRoot? config store numbering)).toArray
  let classes ← roots.mapM (classOfRoot? config store numbering types)
  let conflicts ← store.conflicts.toList.mapM (conflict? store numbering)
  let ambiguities ← roots.mapM (ambiguity? store numbering)
  return {
    classes := classes.toArray
    locationClasses := (← (List.range store.locationCount).mapM fun place =>
      number? store numbering (LocId.initialClass ⟨place⟩)).toArray
    diagnostics := Diagnostic.report (conflicts ++ ambiguities.filterMap id)
    pointerSize := config.pointerSize }

def typesOf (config : Config) (store : Store) : Array CType :=
  ((Numbering.ofStore store).order.map fun root =>
    (readingOf config store).type (store.constraint root)).toArray

section

variable (config) (refers : store.RefersInside)
include refers

theorem number?_eq (inside : cls.index < store.size) :
    number? store (Numbering.ofStore store) cls = some ((readingOf config store).number cls) := by
  have member := (Numbering.mem_order refers).2 (Store.root_mem_roots inside)
  simp only [number?, Store.root?_eq inside, Option.bind_eq_bind, Option.bind_some]
  exact Numbering.number?_eq member

theorem typeOfRoot?_eq (inside : root.index < store.size) :
    typeOfRoot? config store (Numbering.ofStore store) root =
      some ((readingOf config store).type (store.constraint root)) := by
  have referred (target : ClassId) (member : target ∈ (store.constraint root).references) :
      target.index < store.size := by
    obtain ⟨role, mentioned⟩ := Constraint.mem_references_iff.1 member
    exact refers mentioned
  simp only [typeOfRoot?, Store.constraint?_eq inside, Option.bind_eq_bind, Option.bind_some]
  apply Reading.type?_eq
  · exact fun target member => number?_eq config refers (referred target member)
  · intro target member
    simp [span?, Store.constraint?_eq (referred target member), reading]

theorem names_inside {id : ClassId}
    (names : ((readingOf config store).type (store.constraint cls)).Names id) :
    1 ≤ id.index ∧ id.index ≤ (typesOf config store).size := by
  -- A type has the numbers of classes that its constraint refers to, and these are in the store.
  obtain ⟨target, member, rfl⟩ := Reading.of_names names
  obtain ⟨role, mentioned⟩ := Constraint.mem_references_iff.1 member
  have range := @number_range config store refers target (refers mentioned)
  rw [← (Numbering.perm_order refers).length_eq] at range
  simpa [typesOf] using range

theorem sizeAmong?_eq :
    ((readingOf config store).type (store.constraint cls)).sizeAmong? (typesOf config store)
        config.pointerSize =
      some (((readingOf config store).type (store.constraint cls)).sizeAmong (typesOf config store)
        config.pointerSize) := by
  refine CType.sizeWithin?_eq (fun type member id names => ?_) fun id names =>
    names_inside config refers names
  obtain ⟨other, _, rfl⟩ := List.mem_map.1 (List.mem_toArray.1 member)
  exact names_inside config refers names

theorem classOfRoot?_eq (inside : root.index < store.size) :
    classOfRoot? config store (Numbering.ofStore store) (typesOf config store) root =
      some (classOfRoot (readingOf config store) store (typesOf config store) root) := by
  simp only [classOfRoot?, Store.constraint?_eq inside, typeOfRoot?_eq config refers inside,
    number?_eq config refers inside, Store.members?_eq inside, sizeAmong?_eq config refers,
    Option.bind_eq_bind, Option.bind_some]
  rfl

theorem ambiguity?_eq (inside : root.index < store.size) :
    ambiguity? store (Numbering.ofStore store) root =
      some (if (store.constraint root).isAmbiguous then
        some (Diagnostic.ambiguous ((readingOf config store).number root)) else none) := by
  simp only [ambiguity?, Store.constraint?_eq inside, number?_eq config refers inside,
    Option.bind_eq_bind, Option.bind_some]
  split <;> rfl

theorem locationClasses?_eq :
    (List.range store.locationCount).mapM (fun place =>
        number? store (Numbering.ofStore store) (LocId.initialClass ⟨place⟩)) =
      some ((List.range store.locationCount).map fun place =>
        (readingOf config store).number (LocId.initialClass ⟨place⟩)) := by
  apply mapM_eq_some
  intro place member
  exact number?_eq config refers (@initialClass_inside store ⟨place⟩ (List.mem_range.1 member))

theorem conflicts?_eq
    (recorded : ∀ conflict ∈ store.conflicts, conflict.cls.index < store.size) :
    store.conflicts.toList.mapM (conflict? store (Numbering.ofStore store)) =
      some (store.conflicts.toList.map fun recorded =>
        recorded.conflict.diagnostic ((readingOf config store).number recorded.cls)) := by
  apply mapM_eq_some
  intro conflict member
  simp [conflict?, number?_eq config refers (recorded conflict (Array.mem_toList_iff.1 member))]

/-- No lookup fails while a typing is read off, where references and conflicts are of classes of the
store. -/
theorem ofStore?_eq (recorded : ∀ conflict ∈ store.conflicts, conflict.cls.index < store.size) :
    ofStore? config store = some (ofStore config store) := by
  have inside (root : ClassId) (member : root ∈ (Numbering.ofStore store).order) :
      root.index < store.size := (Store.mem_roots.1 ((Numbering.mem_order refers).1 member)).1
  have types := mapM_eq_some fun root member => typeOfRoot?_eq config refers (inside root member)
  have classes := mapM_eq_some fun root member => classOfRoot?_eq config refers (inside root member)
  have ambiguities := mapM_eq_some fun root member =>
    ambiguity?_eq config refers (inside root member)
  simp only [ofStore?, Numbering.ofStore?_eq refers, types, conflicts?_eq config refers recorded,
    ambiguities, locationClasses?_eq config refers, Option.bind_eq_bind, Option.bind_some]
  refine (bind_eq classes).trans ?_
  rw [filterMap_ite]
  rfl

end

end Typing
end TypeRecovery
