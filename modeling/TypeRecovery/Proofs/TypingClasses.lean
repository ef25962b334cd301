import Mathlib.Data.List.Nodup
import TypeRecovery.Proofs.Extents
import TypeRecovery.Proofs.FieldGroups
import TypeRecovery.Proofs.StepBounds
import TypeRecovery.Typing.Assignment
/-!
The classes of a typing. They are those of the roots of the store, each once, under the numbers from
one on, so the number of a class gives its root back. Every location is a member of one class, the
one that it is said to be in, and every number that occurs in a type, at whatever depth, is that of
a class of the typing. None of this takes a store that was propagated: references may still name
classes that were absorbed.
-/
namespace TypeRecovery

namespace Numbering

variable {next : ClassId → List ClassId} {order : List ClassId} {cls : ClassId}

/-- A search that keeps on until nothing is left to take up. -/
inductive Explores (next : ClassId → List ClassId) :
    Nat → List ClassId → List ClassId → Prop where
  | done {place : Nat} {order : List ClassId} : order[place]? = none →
      Explores next place order order
  | take {place : Nat} {order final : List ClassId} {cls : ClassId} : order[place]? = some cls →
      Explores next (place + 1) (Distinct.addAll order (next cls)) final →
      Explores next place order final

theorem Explores.mem {place : Nat} {final : List ClassId}
    (explores : Explores next place order final) (member : cls ∈ order) : cls ∈ final := by
  induction explores with
  | done _ => exact member
  | take _ _ ih => exact ih (Distinct.mem_addAll.2 (Or.inl member))

theorem Explores.nodup {place : Nat} {final : List ClassId}
    (explores : Explores next place order final) (distinct : order.Nodup) : final.Nodup := by
  induction explores with
  | done _ => exact distinct
  | take _ _ ih => exact ih (Distinct.nodup_addAll distinct _)

theorem Explores.good {Good : ClassId → Prop} (kept : ∀ cls, ∀ other ∈ next cls, Good other)
    {place : Nat} {final : List ClassId} (explores : Explores next place order final)
    (good : ∀ cls ∈ order, Good cls) : ∀ cls ∈ final, Good cls := by
  induction explores with
  | done _ => exact good
  | take _ _ ih =>
    apply ih
    intro other member
    exact (Distinct.mem_addAll.1 member).elim (good other) (kept _ other)

theorem explores_explore {classes : List ClassId}
    (bounded : ∀ cls, ∀ other ∈ next cls, other ∈ classes)
    {steps place : Nat} (distinct : order.Nodup) (inside : ∀ cls ∈ order, cls ∈ classes)
    (enough : classes.length ≤ steps + place) :
    Explores next place order (explore next steps place order) := by
  induction steps generalizing place order with
  | zero =>
    apply Explores.done
    rw [List.getElem?_eq_none_iff]
    have short := distinct.length_le_of_subset fun _ member => inside _ member
    omega
  | succ steps ih =>
    cases found : order[place]? with
    | none =>
      simp only [explore, found]
      exact .done found
    | some cls =>
      simp only [explore, found]
      refine .take found (ih (Distinct.nodup_addAll distinct _) (fun other member => ?_) (by omega))
      exact (Distinct.mem_addAll.1 member).elim (inside other) (bounded cls other)

inductive Visits (next : ClassId → List ClassId) :
    List ClassId → List ClassId → List ClassId → Prop where
  | none {order : List ClassId} : Visits next [] order order
  | search {start : ClassId} {rest order middle final : List ClassId} :
      Explores next order.length (Distinct.add order start) middle →
      Visits next rest middle final → Visits next (start :: rest) order final

theorem Visits.mem {starts final : List ClassId} (visits : Visits next starts order final)
    (member : cls ∈ order ∨ cls ∈ starts) : cls ∈ final := by
  induction visits with
  | none => simpa using member
  | search explores _ ih =>
    apply ih
    rcases member with old | start
    · exact Or.inl (explores.mem (Distinct.mem_add.2 (Or.inl old)))
    · rcases List.mem_cons.1 start with rfl | later
      · exact Or.inl (explores.mem (Distinct.mem_add.2 (Or.inr rfl)))
      · exact Or.inr later

theorem Visits.nodup {starts final : List ClassId} (visits : Visits next starts order final)
    (distinct : order.Nodup) : final.Nodup := by
  induction visits with
  | none => exact distinct
  | search explores _ ih => exact ih (explores.nodup (Distinct.nodup_add distinct _))

theorem Visits.good {Good : ClassId → Prop} (kept : ∀ cls, ∀ other ∈ next cls, Good other)
    {starts final : List ClassId} (visits : Visits next starts order final)
    (good : ∀ cls ∈ order, Good cls) (goodStarts : ∀ cls ∈ starts, Good cls) :
    ∀ cls ∈ final, Good cls := by
  induction visits with
  | none => exact good
  | search explores _ ih =>
    rw [List.forall_mem_cons] at goodStarts
    refine ih (explores.good kept fun other member => ?_) goodStarts.2
    rcases Distinct.mem_add.1 member with old | rfl
    · exact good other old
    · exact goodStarts.1

theorem visits_foldl {classes : List ClassId}
    (bounded : ∀ cls, ∀ other ∈ next cls, other ∈ classes) {starts : List ClassId}
    (startsInside : ∀ cls ∈ starts, cls ∈ classes) (distinct : order.Nodup)
    (inside : ∀ cls ∈ order, cls ∈ classes) {steps : Nat} (enough : classes.length ≤ steps) :
    Visits next starts order (starts.foldl (fun order start =>
      explore next steps order.length (Distinct.add order start)) order) := by
  induction starts generalizing order with
  | nil => exact .none
  | cons start rest ih =>
    rw [List.forall_mem_cons] at startsInside
    have added : ∀ cls ∈ Distinct.add order start, cls ∈ classes := by
      intro cls member
      rcases Distinct.mem_add.1 member with old | rfl
      · exact inside cls old
      · exact startsInside.1
    have distinctAdded := Distinct.nodup_add distinct start
    have explores := explores_explore bounded distinctAdded added
      (Nat.le_trans enough (Nat.le_add_right steps order.length))
    exact .search explores (ih startsInside.2 (explores.nodup distinctAdded)
      (explores.good bounded added))

end Numbering

theorem Signature.mem_references_iff {signature : Signature} {cls : ClassId} :
    cls ∈ signature.references ↔ ∃ role, signature.Refers role cls := by
  simp only [references, List.mem_append, List.mem_singleton]
  constructor
  · rintro (param | rfl)
    · obtain ⟨place, found⟩ := List.mem_iff_getElem?.1 param
      exact ⟨.param place, found⟩
    · exact ⟨.result, rfl⟩
  · rintro ⟨role, refers⟩
    cases role with
    | result => exact Or.inr refers.symm
    | param place => exact Or.inl (List.mem_of_getElem? refers)
    | pointee => exact refers.elim
    | slot offset size => exact refers.elim

theorem Constraint.mem_references_iff {constraint : Constraint} {cls : ClassId} :
    cls ∈ constraint.references ↔ ∃ role, constraint.Refers role cls := by
  have signatures : cls ∈ (constraint.signature.map Signature.references).getD [] ↔
      ∃ role signature, constraint.signature = some signature ∧ signature.Refers role cls := by
    cases constraint.signature with
    | none => simp
    | some signature => simpa using Signature.mem_references_iff
  simp only [references, List.mem_append, Option.mem_toList, List.mem_map, signatures]
  constructor
  · rintro ((pointee | ⟨slot, member, rfl⟩) | ⟨role, signature, known, refers⟩)
    · exact ⟨.pointee, pointee⟩
    · exact ⟨.slot slot.offset slot.size, member⟩
    · cases role with
      | result => exact ⟨.result, signature, known, refers⟩
      | param place => exact ⟨.param place, signature, known, refers⟩
      | pointee => exact refers.elim
      | slot offset size => exact refers.elim
  · rintro ⟨role, refers⟩
    cases role with
    | pointee => exact Or.inl (Or.inl refers)
    | slot offset size => exact Or.inl (Or.inr ⟨_, refers, rfl⟩)
    | result => exact Or.inr ⟨.result, refers⟩
    | param place => exact Or.inr ⟨.param place, refers⟩

theorem Store.refersInside_made {store : Store} {constraint : Constraint}
    (inside : store.RefersInside)
    (known : ∀ cls ∈ constraint.references, cls.index ≤ store.size) :
    (store.fresh constraint).2.RefersInside :=
  refersInside_fresh inside fun refers => known _ (Constraint.mem_references_iff.2 ⟨_, refers⟩)

theorem Store.inside_of_refers {store : Store} {cls target : ClassId} {role : Role}
    (refers : (store.constraint cls).Refers role target) : cls.index < store.size := by
  apply Nat.lt_of_not_le
  intro outside
  rw [constraint_of_outside outside] at refers
  exact Constraint.not_refers_of_none rfl rfl rfl role target refers

/-- It is enough to look at the constraints of the roots. -/
theorem Store.refersInside_of_roots {store : Store} (inside : ∀ root ∈ store.roots,
    ∀ target ∈ (store.constraint root).references, target.index < store.size) :
    store.RefersInside := by
  intro cls role target refers
  have isRoot := root_mem_roots (inside_of_refers refers)
  rw [← store.constraint_root] at refers
  exact inside _ isRoot target (Constraint.mem_references_iff.2 ⟨role, refers⟩)

namespace Numbering

theorem mem_roots_of_successor {store : Store} (inside : store.RefersInside) (cls : ClassId) :
    ∀ other ∈ successors store cls, other ∈ store.roots := by
  intro other member
  obtain ⟨target, referred, rfl⟩ := List.mem_map.1 member
  obtain ⟨role, refers⟩ := Constraint.mem_references_iff.1 referred
  exact Store.root_mem_roots (inside refers)

theorem length_roots (store : Store) : store.roots.length ≤ store.size := by
  unfold Store.roots Forest.roots
  refine Nat.le_trans (List.length_filter_le ..) ?_
  rw [List.length_map, List.length_range]
  exact Nat.le_refl _

theorem mem_roots_of_start (store : Store) : ∀ cls ∈ starts store, cls ∈ store.roots := by
  intro cls member
  rcases List.mem_append.1 member with location | root
  · obtain ⟨place, declared, rfl⟩ := List.mem_map.1 location
    have known : place < store.size :=
      Nat.lt_of_lt_of_le (List.mem_range.1 declared) store.locations_inside
    exact Store.root_mem_roots known
  · exact root

theorem visits_ofStore {store : Store} (inside : store.RefersInside) :
    Visits (successors store) (starts store) [] (ofStore store).order :=
  visits_foldl (mem_roots_of_successor inside) (mem_roots_of_start store) List.nodup_nil
    (List.forall_mem_nil _) (length_roots store)

theorem nodup_order {store : Store} (inside : store.RefersInside) :
    (ofStore store).order.Nodup := (visits_ofStore inside).nodup List.nodup_nil

theorem mem_order {store : Store} (inside : store.RefersInside) {cls : ClassId} :
    cls ∈ (ofStore store).order ↔ cls ∈ store.roots := by
  have visits := visits_ofStore inside
  constructor
  · exact visits.good (mem_roots_of_successor inside) (List.forall_mem_nil _)
      (mem_roots_of_start store) cls
  · intro root
    exact visits.mem (Or.inr (List.mem_append_right _ root))

theorem number_of_mem {numbering : Numbering} {root : ClassId} (member : root ∈ numbering.order) :
    ∃ place, numbering.number root = ⟨place + 1⟩ ∧ numbering.order[place]? = some root := by
  unfold number
  cases found : numbering.order.idxOf? root with
  | none => exact absurd member (List.idxOf?_eq_none_iff.1 found)
  | some place =>
    obtain ⟨inside, same, _⟩ := List.idxOf?_eq_some_iff.1 found
    exact ⟨place, rfl, by rw [List.getElem?_eq_getElem inside, same]⟩

theorem number_injective {numbering : Numbering} {first second : ClassId}
    (firstMember : first ∈ numbering.order) (secondMember : second ∈ numbering.order)
    (same : numbering.number first = numbering.number second) : first = second := by
  obtain ⟨place, number, found⟩ := number_of_mem firstMember
  obtain ⟨place', number', found'⟩ := number_of_mem secondMember
  rw [number, number'] at same
  cases same
  exact Option.some.inj (found.symm.trans found')

end Numbering

namespace Typing

variable {config : Config} {store : Store}

def readingOf (config : Config) (store : Store) : Reading :=
  reading config store (Numbering.ofStore store)

theorem classOf?_ofStore {loc : LocId} (declared : loc.index < store.locationCount) :
    (ofStore config store).classOf? loc =
      some ((readingOf config store).number loc.initialClass) := by
  simp [classOf?, ofStore, declared, readingOf]

theorem number_root (cls : ClassId) : (readingOf config store).number (store.root cls) =
    (readingOf config store).number cls := by
  show (Numbering.ofStore store).number (store.root (store.root cls)) = _
  rw [store.root_root]
  rfl

theorem number_injective (inside : store.RefersInside) {first second : ClassId}
    (firstInside : first.index < store.size) (secondInside : second.index < store.size)
    (same : (readingOf config store).number first = (readingOf config store).number second) :
    store.root first = store.root second := by
  have member {cls : ClassId} (clsInside : cls.index < store.size) :
      store.root cls ∈ (Numbering.ofStore store).order :=
    (Numbering.mem_order inside).2 (Store.root_mem_roots clsInside)
  exact Numbering.number_injective (member firstInside) (member secondInside) same

theorem typeOfClass?_number (inside : store.RefersInside) {cls : ClassId}
    (clsInside : cls.index < store.size) :
    (ofStore config store).typeOfClass? ((readingOf config store).number cls) =
      some ((readingOf config store).type (store.constraint cls)) := by
  have member := (Numbering.mem_order inside).2 (Store.root_mem_roots clsInside)
  obtain ⟨place, number, found⟩ := Numbering.number_of_mem member
  have numbered : (readingOf config store).number cls = ⟨place + 1⟩ := number
  rw [numbered, ← store.constraint_root cls]
  simp [typeOfClass?, class?, ofStore, found, classOfRoot, readingOf]

theorem exists_of_typeOfClass? (inside : store.RefersInside) {id : ClassId} {type : CType}
    (found : (ofStore config store).typeOfClass? id = some type) :
    ∃ cls : ClassId, cls.index < store.size ∧
      type = (readingOf config store).type (store.constraint cls) := by
  obtain ⟨typed, known, rfl⟩ := Option.map_eq_some_iff.1 found
  unfold class? at known
  split at known
  · cases known
  · rename_i place _
    simp only [ofStore, List.getElem?_toArray, List.getElem?_map, Option.map_eq_some_iff] at known
    obtain ⟨root, listed, rfl⟩ := known
    have member := (Numbering.mem_order inside).1 (List.mem_of_getElem? listed)
    exact ⟨root, (Store.mem_roots.1 member).1, rfl⟩

end Typing

/-- The number of the class occurs in the type. -/
inductive CType.Names (id : ClassId) : CType → Prop where
  | pointer : Names id (.pointer id)
  | sameAs : Names id (.sameAs id)
  | param {params : List ClassId} {ret : ClassId} : id ∈ params → Names id (.function params ret)
  | result {params : List ClassId} : Names id (.function params id)
  | field {size : UInt64} {fields : List (CField CType)} {field : CField CType} :
      field ∈ fields → Names id field.type → Names id (.struct size fields)
  | alternative {alternatives : List CType} {type : CType} :
      type ∈ alternatives → Names id type → Names id (.union alternatives)

namespace CType

variable {id : ClassId}

theorem not_names_primitive (scalar : Primitive) : ¬ Names id (.primitive scalar) := nofun

theorem names_pointer_iff {target : ClassId} : Names id (.pointer target) ↔ id = target :=
  ⟨fun | .pointer => rfl, fun same => same ▸ .pointer⟩

theorem names_sameAs_iff {cls : ClassId} : Names id (.sameAs cls) ↔ id = cls :=
  ⟨fun | .sameAs => rfl, fun same => same ▸ .sameAs⟩

theorem names_function_iff {params : List ClassId} {ret : ClassId} :
    Names id (.function params ret) ↔ id ∈ params ∨ id = ret := by
  constructor
  · rintro (_ | _ | member | _)
    · exact Or.inl member
    · exact Or.inr rfl
  · rintro (member | rfl)
    · exact .param member
    · exact .result

theorem names_struct_iff {size : UInt64} {fields : List (CField CType)} :
    Names id (.struct size fields) ↔ ∃ field ∈ fields, Names id field.type :=
  ⟨fun | .field member names => ⟨_, member, names⟩, fun ⟨_, member, names⟩ => .field member names⟩

theorem names_union_iff {alternatives : List CType} :
    Names id (.union alternatives) ↔ ∃ type ∈ alternatives, Names id type :=
  ⟨fun | .alternative member names => ⟨_, member, names⟩,
    fun ⟨_, member, names⟩ => .alternative member names⟩

end CType

namespace FieldGroup

variable {id : ClassId} {group : FieldGroup}

theorem names_union_iff : group.union.Names id ↔ id ∈ group.classes := by
  simp only [union, CType.names_union_iff, List.mem_map]
  constructor
  · rintro ⟨_, ⟨cls, member, rfl⟩, names⟩
    exact CType.names_sameAs_iff.1 names ▸ member
  · intro member
    exact ⟨_, ⟨id, member, rfl⟩, .sameAs⟩

theorem names_type_iff : group.type.Names id ↔ id ∈ group.classes := by
  unfold type
  split
  · rename_i cls only
    rw [only, List.mem_singleton]
    exact CType.names_sameAs_iff
  · exact names_union_iff

end FieldGroup

theorem Reading.of_names {reading : Reading} {constraint : Constraint} {id : ClassId}
    (names : (reading.type constraint).Names id) :
    ∃ target ∈ constraint.references, id = reading.number target := by
  -- The groups of a sweep are made up of the classes of slots.
  have swept {group : FieldGroup}
      (found : group ∈ FieldGroup.sweep (constraint.slots.map reading.group))
      (member : id ∈ group.classes) :
      ∃ target ∈ constraint.references, id = reading.number target := by
    obtain ⟨slot, known, number⟩ := slot_of_sweep found member
    exact ⟨slot.cls, Propagation.mem_references known, number⟩
  have pointed {target : ClassId} (known : constraint.pointee = some target) :
      target ∈ constraint.references :=
    Constraint.mem_references_iff.2 ⟨.pointee, known⟩
  have reads := reads_type reading constraint
  generalize reading.type constraint = type at reads names
  cases reads with
  | void => cases names
  | function signature known =>
    have referred {cls : ClassId} (member : cls ∈ signature.references) :
        cls ∈ constraint.references := by
      obtain ⟨role, refers⟩ := Signature.mem_references_iff.1 member
      refine Constraint.mem_references_iff.2 ⟨role, ?_⟩
      cases role with
      | result | param => exact ⟨signature, known, refers⟩
      | pointee | slot => exact refers.elim
    rcases CType.names_function_iff.1 names with param | rfl
    · obtain ⟨cls, member, rfl⟩ := List.mem_map.1 param
      exact ⟨cls, referred (List.mem_append_left _ member), rfl⟩
    · exact ⟨signature.ret, referred (List.mem_append_right _ List.mem_cons_self), rfl⟩
  | pointer target known => exact ⟨target, pointed known, CType.names_pointer_iff.1 names⟩
  | pointerOr scalar target known =>
    obtain ⟨type, listed, names⟩ := CType.names_union_iff.1 names
    rcases List.mem_pair.1 listed with rfl | rfl
    · exact (CType.not_names_primitive scalar names).elim
    · exact ⟨target, pointed known, CType.names_pointer_iff.1 names⟩
  | value slot only base =>
    exact ⟨slot.cls, Propagation.mem_references (only ▸ List.mem_cons_self),
      CType.names_sameAs_iff.1 names⟩
  | struct size =>
    obtain ⟨field, listed, names⟩ := CType.names_struct_iff.1 names
    obtain ⟨group, found, rfl⟩ := List.mem_map.1 listed
    exact swept found (FieldGroup.names_type_iff.1 names)
  | union group found => exact swept found (FieldGroup.names_union_iff.1 names)
  | unknown => cases names
  | primitive scalar => cases names
  | primitives first second =>
    obtain ⟨type, listed, names⟩ := CType.names_union_iff.1 names
    rcases List.mem_pair.1 listed with rfl | rfl <;> exact (CType.not_names_primitive _ names).elim

/-- The classes of a typing are those of the roots, and nothing in it leads out of it. -/
structure Typing.Encloses (typing : Typing) (store : Store) : Prop where
  roots : ∃ order : List ClassId, order.Perm store.roots ∧
    typing.classes.toList.map TypedClass.members = order.map store.members
  ids : typing.classes.toList.map TypedClass.id =
    (List.range store.roots.length).map fun place => ⟨place + 1⟩
  located : ∀ loc : LocId, loc.index < store.locationCount →
    ∃! typed, typed ∈ typing.classes ∧ loc ∈ typed.members
  /-- The members of a class are the locations that are said to be in it. -/
  members : ∀ typed ∈ typing.classes, ∀ loc : LocId, loc ∈ typed.members ↔
    loc.index < store.locationCount ∧ typing.classOf? loc = some typed.id
  ascending : ∀ typed ∈ typing.classes, typed.members.Pairwise fun a b => a.index < b.index
  shared : ∀ first second : LocId, first.index < store.locationCount →
    second.index < store.locationCount →
    (typing.classOf? first = typing.classOf? second ↔ store.classOf first = store.classOf second)
  closed : ∀ typed ∈ typing.classes, ∀ id, typed.type.Names id →
    1 ≤ id.index ∧ id.index ≤ store.roots.length

namespace Store

theorem mem_members {store : Store} {cls : ClassId} {loc : LocId} :
    loc ∈ store.members cls ↔
      loc.index < store.locationCount ∧ store.classOf loc = store.root cls := by
  simp only [members, List.mem_filter, List.mem_map, List.mem_range, decide_eq_true_eq]
  refine and_congr_left fun _ => ⟨?_, fun declared => ⟨loc.index, declared, rfl⟩⟩
  rintro ⟨place, declared, rfl⟩
  exact declared

theorem members_ascending (store : Store) (cls : ClassId) :
    (store.members cls).Pairwise fun a b => a.index < b.index := by
  have places : ((List.range store.locationCount).map LocId.mk).Pairwise
      fun a b => a.index < b.index := List.pairwise_map.2 List.pairwise_lt_range
  exact places.filter _

end Store

namespace Numbering

theorem map_number {numbering : Numbering} (distinct : numbering.order.Nodup) :
    numbering.order.map numbering.number =
      (List.range numbering.order.length).map fun place => ⟨place + 1⟩ := by
  apply List.ext_getElem (by simp)
  intro place inside _
  have inside : place < numbering.order.length := by simpa using inside
  obtain ⟨other, number, found⟩ := number_of_mem (List.getElem_mem inside)
  obtain ⟨within, same⟩ := List.getElem?_eq_some_iff.1 found
  have here : other = place := distinct.getElem_inj_iff.1 same
  simp [number, here]

theorem perm_order {store : Store} (inside : store.RefersInside) :
    (ofStore store).order.Perm store.roots :=
  (List.perm_ext_iff_of_nodup (nodup_order inside) store.nodup_roots).2 fun _ => mem_order inside

end Numbering

namespace Typing

variable {config : Config} {store : Store}

theorem mem_ofStore {typed : TypedClass} (inside : store.RefersInside) :
    typed ∈ (ofStore config store).classes ↔ ∃ root ∈ store.roots,
      typed = classOfRoot (readingOf config store) store
        ((Numbering.ofStore store).order.map fun root =>
          (readingOf config store).type (store.constraint root)).toArray root := by
  simp only [← Numbering.mem_order inside]
  exact List.mem_toArray.trans (List.mem_map.trans (exists_congr fun _ => and_congr_right' eq_comm))

theorem number_range (inside : store.RefersInside) {cls : ClassId}
    (clsInside : cls.index < store.size) :
    1 ≤ ((readingOf config store).number cls).index ∧
      ((readingOf config store).number cls).index ≤ store.roots.length := by
  have member := (Numbering.mem_order inside).2 (Store.root_mem_roots clsInside)
  obtain ⟨place, number, found⟩ := Numbering.number_of_mem member
  have numbered : (readingOf config store).number cls = ⟨place + 1⟩ := number
  rw [numbered, ← (Numbering.perm_order inside).length_eq]
  exact ⟨Nat.le_add_left .., (List.getElem?_eq_some_iff.1 found).1⟩

theorem number_eq_iff (inside : store.RefersInside) {first second : ClassId}
    (firstInside : first.index < store.size) (secondInside : second.index < store.size) :
    (readingOf config store).number first = (readingOf config store).number second ↔
      store.root first = store.root second := by
  refine ⟨number_injective inside firstInside secondInside, fun same => ?_⟩
  rw [← number_root, same, number_root]

theorem initialClass_inside {loc : LocId} (declared : loc.index < store.locationCount) :
    loc.initialClass.index < store.size := Nat.lt_of_lt_of_le declared store.locations_inside

/-- The members of a root are the locations that have its number. -/
theorem mem_members_iff (inside : store.RefersInside) {root : ClassId} (isRoot : root ∈ store.roots)
    (loc : LocId) : loc ∈ store.members root ↔ loc.index < store.locationCount ∧
      (ofStore config store).classOf? loc = some ((readingOf config store).number root) := by
  rw [Store.mem_members]
  refine and_congr_right fun declared => ?_
  rw [classOf?_ofStore declared, Option.some_inj,
    number_eq_iff inside (initialClass_inside declared) (Store.mem_roots.1 isRoot).1]
  exact Iff.rfl

theorem ids_ofStore (inside : store.RefersInside) :
    (ofStore config store).classes.toList.map TypedClass.id =
      (List.range store.roots.length).map fun place => ⟨place + 1⟩ := by
  rw [← (Numbering.perm_order inside).length_eq,
    ← Numbering.map_number (Numbering.nodup_order inside)]
  simp only [ofStore, List.map_map]
  refine List.map_congr_left fun root member => ?_
  have isRoot := (Store.mem_roots.1 ((Numbering.mem_order inside).1 member)).2
  exact congrArg (Numbering.ofStore store).number isRoot

theorem existsUnique_member (inside : store.RefersInside) {loc : LocId}
    (declared : loc.index < store.locationCount) :
    ∃! typed, typed ∈ (ofStore config store).classes ∧ loc ∈ typed.members := by
  have isRoot : store.classOf loc ∈ store.roots := Store.mem_roots.2
    ⟨Store.root_inside (initialClass_inside declared), store.root_root _⟩
  refine ⟨_, ⟨(mem_ofStore inside).2 ⟨_, isRoot, rfl⟩, Store.mem_members.2 ⟨declared, ?_⟩⟩, ?_⟩
  · exact (store.root_root _).symm
  · rintro typed ⟨member, listed⟩
    obtain ⟨root, isRoot, rfl⟩ := (mem_ofStore inside).1 member
    rw [(Store.mem_members.1 listed).2, (Store.mem_roots.1 isRoot).2]

/-- The typing of a store whose constraints refer to its own classes is closed: all that it refers
to is in it. -/
theorem ofStore_encloses (config : Config) {store : Store} (inside : store.RefersInside) :
    (ofStore config store).Encloses store where
  roots := ⟨(Numbering.ofStore store).order, Numbering.perm_order inside, by
    simp [ofStore, classOfRoot]⟩
  ids := ids_ofStore inside
  located _ declared := existsUnique_member inside declared
  members typed member := by
    obtain ⟨root, isRoot, rfl⟩ := (mem_ofStore inside).1 member
    exact mem_members_iff inside isRoot
  ascending typed member := by
    obtain ⟨root, isRoot, rfl⟩ := (mem_ofStore inside).1 member
    exact store.members_ascending root
  shared first second firstDeclared secondDeclared := by
    rw [classOf?_ofStore firstDeclared, classOf?_ofStore secondDeclared, Option.some_inj]
    exact number_eq_iff inside (initialClass_inside firstDeclared)
      (initialClass_inside secondDeclared)
  closed typed member id names := by
    obtain ⟨root, isRoot, rfl⟩ := (mem_ofStore inside).1 member
    obtain ⟨target, referred, rfl⟩ := Reading.of_names names
    obtain ⟨role, refers⟩ := Constraint.mem_references_iff.1 referred
    exact number_range inside (inside refers)

def secondPointer : Store := ((Store.withLocations 2).fresh { pointee := some ⟨1⟩ }).2

/-- The pointer still leads to the class that was absorbed when the typing is read off. -/
theorem ofStore_encloses_secondPointer : ∃ merge after,
    secondPointer.union ⟨0⟩ ⟨1⟩ = some (merge, after) ∧ merge.absorbed = ⟨1⟩ ∧
      (after.constraint ⟨2⟩).pointee = some ⟨1⟩ ∧ after.RefersInside ∧
      (ofStore {} after).Encloses after := by
  have refersInside : secondPointer.RefersInside :=
    Store.refersInside_made (Store.refersInside_withLocations 2) (by decide)
  obtain ⟨merge, after, found, absorbed, pointee⟩ : ∃ merge after,
      secondPointer.union ⟨0⟩ ⟨1⟩ = some (merge, after) ∧ merge.absorbed = ⟨1⟩ ∧
        (after.constraint ⟨2⟩).pointee = some ⟨1⟩ := ⟨_, _, rfl, rfl, rfl⟩
  have unites := Store.union_some (by decide) (by decide) found
  have inside : after.RefersInside := Store.refersInside_unites unites refersInside
  exact ⟨merge, after, found, absorbed, pointee, inside, ofStore_encloses {} inside⟩

end Typing

end TypeRecovery
