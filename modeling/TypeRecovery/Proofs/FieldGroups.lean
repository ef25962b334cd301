import TypeRecovery.Proofs.SlotLists
import TypeRecovery.Typing.Assignment
/-!
Slots gathered into fields. The slots of an aggregate fall into runs, in their order: a run goes on
with every slot that starts before the end of all that was gathered by then. So a group starts where
its run does, ends with the slot that goes furthest, and has the classes of its slots, each once.

What a type tells of its constraint follows. A function tells the signature, a pointer the pointee,
an alias the only slot there is. A struct has a field for every slot, which mentions the class of
the slot.
-/
namespace TypeRecovery

namespace FieldGroup

theorem le_max_stop (a b : Int64) : a ≤ max a b := by
  show a ≤ if a ≤ b then b else a
  split <;> simp only [Int64.le_iff_toInt_le] at * <;> omega

theorem max_stop_le {a b : Int64} {bound : Int} :
    (max a b).toInt ≤ bound ↔ a.toInt ≤ bound ∧ b.toInt ≤ bound := by
  show (if a ≤ b then b else a).toInt ≤ bound ↔ _
  split <;> simp only [Int64.le_iff_toInt_le] at * <;> omega

theorem toInt_stop (offset : Int64) (width : Nat) (cls : ClassId) :
    (ofSlot offset width cls).stop.toInt =
      min (offset.toInt + min (width : Int) Int64.maxValue.toInt) Int64.maxValue.toInt := by
  have least := Int64.le_toInt offset
  have lowest : Int64.minValue.toInt = -2 ^ 63 := by decide
  have highest : Int64.maxValue.toInt = 2 ^ 63 - 1 := by decide
  show (Int64.ofIntClamp _).toInt = _
  by_cases fits : offset.toInt + min (width : Int) Int64.maxValue.toInt ≤ Int64.maxValue.toInt
  · rw [Int64.toInt_ofIntClamp (by omega) fits, Int.min_eq_left fits]
  · have above : Int64.minValue.toInt ≤ offset.toInt + min (width : Int) Int64.maxValue.toInt := by
      omega
    rw [Int64.ofIntClamp, dif_pos above, dif_neg fits]
    omega

end FieldGroup

def CField.stop {type : Type} (field : CField type) : Int := field.offset.toInt + field.size.toNat

namespace Reading

variable {reading : Reading}

def width (reading : Reading) (slot : Slot) : Nat :=
  max slot.size.toNat (reading.span slot.cls)

def stop (reading : Reading) (slot : Slot) : Int :=
  min (slot.offset.toInt + min (reading.width slot : Int) Int64.maxValue.toInt)
    Int64.maxValue.toInt

theorem stop_group (reading : Reading) (slot : Slot) :
    (reading.group slot).stop.toInt = reading.stop slot := FieldGroup.toInt_stop ..

theorem offset_le_stop (reading : Reading) (slot : Slot) :
    slot.offset.toInt ≤ reading.stop slot := by
  have most := Int64.toInt_lt slot.offset
  have highest : Int64.maxValue.toInt = 2 ^ 63 - 1 := by decide
  unfold stop
  omega

def StartsWithin (reading : Reading) (slot other : Slot) : Prop :=
  other.offset < slot.offset ∧ slot.offset.toInt < reading.stop other

/-- The slots of a run, each of which starts before the end of those in front of it, as a group. -/
inductive Gathers (reading : Reading) : List Slot → FieldGroup → Prop where
  | one (slot : Slot) : Gathers reading [slot] (reading.group slot)
  | more {run : List Slot} {group : FieldGroup} {slot : Slot} : Gathers reading run group →
      slot.offset < group.stop →
      Gathers reading (run ++ [slot]) (group.absorb (reading.group slot))

namespace Gathers

variable {run : List Slot} {group : FieldGroup}

theorem head (gathers : Gathers reading run group) :
    ∃ first rest, run = first :: rest ∧ group.start = first.offset := by
  induction gathers with
  | one slot => exact ⟨slot, [], rfl, rfl⟩
  | @more _ _ slot _ _ ih =>
    obtain ⟨first, rest, rfl, start⟩ := ih
    exact ⟨first, rest ++ [slot], rfl, start⟩

theorem start_le (gathers : Gathers reading run group)
    (ascending : Slot.Ascending run) :
    ∀ slot ∈ run, group.start ≤ slot.offset := by
  obtain ⟨first, rest, rfl, start⟩ := gathers.head
  rw [start]
  exact List.forall_mem_cons.2 ⟨Int64.le_refl _, (List.pairwise_cons.1 ascending).1⟩

theorem within (gathers : Gathers reading run group) :
    ∀ slot ∈ run, slot.offset < group.stop ∨ slot.offset = group.start := by
  induction gathers with
  | one slot => exact List.forall_mem_singleton.2 (Or.inr rfl)
  | @more run group slot _ overlaps ih =>
    have further : group.stop ≤ (group.absorb (reading.group slot)).stop :=
      FieldGroup.le_max_stop ..
    refine List.forall_mem_append.2 ⟨fun other member => ?_, List.forall_mem_singleton.2 ?_⟩
    · exact (ih other member).imp_left fun before => Int64.lt_of_lt_of_le before further
    · exact Or.inl (Int64.lt_of_lt_of_le overlaps further)

theorem stop_le_iff (gathers : Gathers reading run group) {bound : Int} :
    group.stop.toInt ≤ bound ↔ ∀ slot ∈ run, reading.stop slot ≤ bound := by
  induction gathers with
  | one slot => rw [List.forall_mem_singleton, stop_group]
  | @more _ group slot _ _ ih =>
    rw [List.forall_mem_append, List.forall_mem_singleton, ← ih, ← stop_group]
    exact FieldGroup.max_stop_le

theorem stop_le (gathers : Gathers reading run group) {slot : Slot} (member : slot ∈ run) :
    reading.stop slot ≤ group.stop.toInt := gathers.stop_le_iff.1 (Int.le_refl _) slot member

theorem exists_past (gathers : Gathers reading run group) {bound : Int}
    (past : bound < group.stop.toInt) : ∃ slot ∈ run, bound < reading.stop slot := by
  refine Classical.byContradiction fun none => ?_
  simp only [not_exists, not_and, Int.not_lt] at none
  have ended := gathers.stop_le_iff.2 none
  omega

theorem exists_stop (gathers : Gathers reading run group) :
    ∃ slot ∈ run, reading.stop slot = group.stop.toInt := by
  have short : group.stop.toInt - 1 < group.stop.toInt := by omega
  obtain ⟨slot, member, past⟩ := gathers.exists_past short
  have most := gathers.stop_le member
  exact ⟨slot, member, by omega⟩

theorem chained (gathers : Gathers reading run group) (ascending : Slot.Ascending run) :
    ∀ slot ∈ run, slot.offset = group.start ∨ ∃ other ∈ run, reading.StartsWithin slot other := by
  induction gathers with
  | one slot => exact List.forall_mem_singleton.2 (Or.inl rfl)
  | @more run group slot gathers overlaps ih =>
    obtain ⟨front, _, before⟩ := List.pairwise_append.1 ascending
    have chained := ih front
    refine List.forall_mem_append.2 ⟨fun other member => ?_, List.forall_mem_singleton.2 ?_⟩
    · exact (chained other member).imp_right fun ⟨outer, held, within⟩ =>
        ⟨outer, List.mem_append_left _ held, within⟩
    -- A slot that goes on past the start of the new one starts no later. Where both start at one
    -- offset, the new one is within whatever the other is within.
    obtain ⟨other, member, past⟩ := gathers.exists_past (Int64.lt_iff_toInt_lt.1 overlaps)
    by_cases same : other.offset = slot.offset
    · rw [← same] at past ⊢
      refine (chained other member).imp_right fun ⟨outer, held, within⟩ => ?_
      exact ⟨outer, List.mem_append_left _ held, same ▸ within.1, same ▸ within.2⟩
    · refine Or.inr ⟨other, List.mem_append_left _ member, ?_, past⟩
      exact Int64.lt_of_le_of_ne (before other member slot List.mem_cons_self) same

theorem start_le_stop (gathers : Gathers reading run group) :
    group.start.toInt ≤ group.stop.toInt := by
  obtain ⟨first, rest, rfl, start⟩ := gathers.head
  rw [start]
  exact Int.le_trans (reading.offset_le_stop first) (gathers.stop_le List.mem_cons_self)

theorem mem_classes (gathers : Gathers reading run group) {id : ClassId} :
    id ∈ group.classes ↔ ∃ slot ∈ run, id = reading.number slot.cls := by
  induction gathers with
  | one slot =>
    show id ∈ [reading.number slot.cls] ↔ _
    simp only [List.mem_singleton, exists_eq_left]
  | @more _ group slot _ _ ih =>
    show id ∈ Distinct.addAll group.classes [reading.number slot.cls] ↔ _
    rw [Distinct.mem_addAll, ih]
    simp only [List.mem_append, List.mem_singleton, or_and_right, exists_or, exists_eq_left]

theorem nodup_classes (gathers : Gathers reading run group) : group.classes.Nodup := by
  induction gathers with
  | one slot => exact List.pairwise_singleton _ _
  | more _ _ ih => exact Distinct.nodup_addAll ih _

theorem stop_field (gathers : Gathers reading run group) :
    group.field.stop = group.stop.toInt := by
  have ahead := gathers.start_le_stop
  have least := Int64.le_toInt group.start
  have most := Int64.toInt_lt group.stop
  show group.start.toInt + (UInt64.ofNat (group.stop.toInt - group.start.toInt).toNat).toNat = _
  rw [UInt64.toNat_ofNat']
  omega

end Gathers

/-- The groups that slots are gathered into, one after the other. -/
inductive Sweeps (reading : Reading) : List Slot → List FieldGroup → Prop where
  | last {run : List Slot} {group : FieldGroup} : Gathers reading run group →
      Sweeps reading run [group]
  | next {run rest : List Slot} {group : FieldGroup} {slot : Slot} {groups : List FieldGroup} :
      Gathers reading run group → group.stop ≤ slot.offset →
      Sweeps reading (slot :: rest) groups → Sweeps reading (run ++ slot :: rest) (group :: groups)

theorem Gathers.sweeps {run : List Slot} {group : FieldGroup} (gathers : Gathers reading run group)
    (rest : List Slot) :
    Sweeps reading (run ++ rest) (FieldGroup.sweepFrom group (rest.map reading.group)) := by
  induction rest generalizing run group with
  | nil =>
    rw [List.append_nil]
    exact .last gathers
  | cons slot rest ih =>
    rw [List.map_cons, FieldGroup.sweepFrom]
    split
    · rename_i overlaps
      rw [List.append_cons]
      exact ih (gathers.more overlaps)
    · rename_i apart
      exact .next gathers (Int64.not_lt.1 apart) (ih (.one slot))

theorem sweeps_sweep (reading : Reading) {slots : List Slot} (some : slots ≠ []) :
    Sweeps reading slots (FieldGroup.sweep (slots.map reading.group)) := by
  cases slots with
  | nil => exact absurd rfl some
  | cons first rest => exact (Gathers.one first).sweeps rest

namespace Sweeps

variable {slots : List Slot} {groups : List FieldGroup}

theorem exists_runs (sweeps : Sweeps reading slots groups) :
    ∃ runs : List (List Slot × FieldGroup), runs.flatMap Prod.fst = slots ∧
      runs.map Prod.snd = groups ∧ ∀ run ∈ runs, Gathers reading run.1 run.2 := by
  induction sweeps with
  | @last run group gathers =>
    exact ⟨[(run, group)], List.append_nil run, rfl, List.forall_mem_singleton.2 gathers⟩
  | @next run rest group slot groups gathers _ _ ih =>
    obtain ⟨runs, slots, groups, gathered⟩ := ih
    refine ⟨(run, group) :: runs, ?_, ?_, List.forall_mem_cons.2 ⟨gathers, gathered⟩⟩
    · rw [List.flatMap_cons, slots]
    · rw [List.map_cons, groups]

theorem run_of_mem (sweeps : Sweeps reading slots groups) {group : FieldGroup}
    (member : group ∈ groups) : ∃ run, run.Sublist slots ∧ Gathers reading run group := by
  obtain ⟨runs, rfl, rfl, gathered⟩ := sweeps.exists_runs
  obtain ⟨run, listed, rfl⟩ := List.mem_map.1 member
  exact ⟨run.1, List.sublist_flatten_of_mem (List.mem_map_of_mem listed), gathered run listed⟩

theorem exists_group (sweeps : Sweeps reading slots groups) {slot : Slot} (member : slot ∈ slots) :
    ∃ group ∈ groups, ∃ run, slot ∈ run ∧ run.Sublist slots ∧ Gathers reading run group := by
  obtain ⟨runs, rfl, rfl, gathered⟩ := sweeps.exists_runs
  obtain ⟨run, listed, held⟩ := List.mem_flatMap.1 member
  exact ⟨run.2, List.mem_map_of_mem listed, run.1, held,
    List.sublist_flatten_of_mem (List.mem_map_of_mem listed), gathered run listed⟩

/-- No group starts before one in front of it has ended. -/
theorem apart (sweeps : Sweeps reading slots groups)
    (ascending : Slot.Ascending slots) :
    groups.Pairwise fun a b => a.stop ≤ b.start := by
  induction sweeps with
  | last gathers => exact List.pairwise_singleton _ _
  | @next run rest group slot groups gathers ended sweeps ih =>
    have later := (List.pairwise_append.1 ascending).2.1
    refine List.pairwise_cons.2 ⟨fun other member => ?_, ih later⟩
    obtain ⟨run, sublist, gathers⟩ := sweeps.run_of_mem member
    obtain ⟨first, rest, rfl, start⟩ := gathers.head
    rw [start]
    refine Int64.le_trans ended ?_
    rcases List.mem_cons.1 (sublist.subset List.mem_cons_self) with rfl | behind
    · exact Int64.le_refl _
    · exact (List.pairwise_cons.1 later).1 first behind

end Sweeps

theorem slot_of_sweep {slots : List Slot} {group : FieldGroup} {id : ClassId}
    (found : group ∈ FieldGroup.sweep (slots.map reading.group)) (member : id ∈ group.classes) :
    ∃ slot ∈ slots, id = reading.number slot.cls := by
  have some : slots ≠ [] := by
    rintro rfl
    cases found
  obtain ⟨run, sublist, gathers⟩ := (reading.sweeps_sweep some).run_of_mem found
  obtain ⟨slot, held, number⟩ := gathers.mem_classes.1 member
  exact ⟨slot, sublist.subset held, number⟩

end Reading

/-- The type is the class's, or a union with the class's among its alternatives. -/
def CType.Mentions (type : CType) (cls : ClassId) : Prop :=
  type = .sameAs cls ∨ ∃ alternatives, type = .union alternatives ∧ .sameAs cls ∈ alternatives

def CType.PointsTo (type : CType) (target : ClassId) : Prop :=
  type = .pointer target ∨
    ∃ alternatives, type = .union alternatives ∧ .pointer target ∈ alternatives

/-- A value of the type has a value of the class within it: the type mentions the class, or is a
struct with a field that does. -/
def CType.Holds (type : CType) (cls : ClassId) : Prop :=
  type.Mentions cls ∨
    ∃ size fields, type = .struct size fields ∧ ∃ field ∈ fields, field.type.Mentions cls

/-- The field starts at the offset, or starts before it and goes on past it. -/
def CField.Takes (field : CField CType) (offset : Int64) : Prop :=
  field.offset ≤ offset ∧
    (offset.toInt < field.offset.toInt + field.size.toNat ∨ offset = field.offset)

namespace FieldGroup

theorem mentions_type {group : FieldGroup} {cls : ClassId} (member : cls ∈ group.classes) :
    group.type.Mentions cls := by
  unfold type
  split
  · rename_i only single
    rw [single] at member
    exact Or.inl (congrArg CType.sameAs (List.mem_singleton.1 member).symm)
  · exact Or.inr ⟨_, rfl, List.mem_map_of_mem member⟩

theorem mem_of_mentions_union {group : FieldGroup} {cls : ClassId}
    (mentions : group.union.Mentions cls) : cls ∈ group.classes := by
  rcases mentions with same | ⟨alternatives, same, member⟩
  · cases same
  · cases same
    simpa using member

theorem mem_of_mentions {group : FieldGroup} {cls : ClassId} (mentions : group.type.Mentions cls) :
    cls ∈ group.classes := by
  unfold type at mentions
  split at mentions
  · rename_i only single
    rcases mentions with same | ⟨alternatives, same, _⟩
    · cases same
      rw [single]
      exact List.mem_singleton_self _
    · cases same
  · exact mem_of_mentions_union mentions

end FieldGroup

theorem Constraint.signature_of_calledAs? {constraint : Constraint} {signature : Signature}
    (called : constraint.calledAs? = some signature) : constraint.signature = some signature := by
  unfold calledAs? at called
  split at called
  · exact called
  · cases called

theorem CType.ofGroups_cases (extent : UInt64) (groups : List FieldGroup) :
    (∃ group, groups = [group] ∧ group.start = 0 ∧ 1 < group.classes.length ∧
      ofGroups extent groups = group.union) ∨
    ofGroups extent groups = .struct
      (max extent (groups.getLast?.elim 0 fun last => .ofNat last.stop.toInt.toNat))
      (groups.map FieldGroup.field) := by
  unfold ofGroups
  split
  · rename_i group
    split
    · rename_i whole
      exact Or.inl ⟨group, rfl, whole.1, whole.2, rfl⟩
    · exact Or.inr rfl
  · exact Or.inr rfl

theorem Constraint.hasSlots_iff {constraint : Constraint} :
    constraint.hasSlots = true ↔ constraint.slots ≠ [] := by
  simp [hasSlots]

namespace Reading

theorem type_cases (reading : Reading) (constraint : Constraint) :
    reading.type constraint = .void ∨
    (∃ signature, constraint.calledAs? = some signature ∧ reading.type constraint =
      .function ((signature.params.getD []).map reading.number) (reading.number signature.ret)) ∨
    (∃ target, constraint.pointee = some target ∧
      reading.type constraint = reading.pointer constraint target) ∨
    (constraint.slots ≠ [] ∧ reading.type constraint = reading.aggregate constraint) ∨
    (constraint.pointee = none ∧ constraint.slots = [] ∧
      reading.type constraint = reading.scalar constraint) := by
  unfold type
  split
  · exact Or.inl rfl
  · refine Or.inr ?_
    split
    · rename_i signature called
      exact Or.inl ⟨signature, called, rfl⟩
    · refine Or.inr ?_
      split
      · rename_i target known
        exact Or.inl ⟨target, known, rfl⟩
      · rename_i unknown
        refine Or.inr ?_
        split
        · rename_i slotted
          exact Or.inl ⟨Constraint.hasSlots_iff.1 slotted, rfl⟩
        · rename_i plain
          refine Or.inr ⟨unknown, ?_, rfl⟩
          exact Classical.not_not.1 (plain ∘ Constraint.hasSlots_iff.2)

/-- An aggregate is its only value and nothing else, or is made up of the groups of its slots. -/
theorem aggregate_cases (reading : Reading) (constraint : Constraint) :
    (∃ slot, constraint.slots = [slot] ∧ slot.offset = 0 ∧ constraint.hasOwnEvidence = false ∧
      reading.aggregate constraint = .sameAs (reading.number slot.cls)) ∨
    reading.aggregate constraint = .ofGroups constraint.extent
      (FieldGroup.sweep (constraint.slots.map reading.group)) := by
  unfold aggregate
  split
  · rename_i slot only
    split
    · rename_i sole
      exact Or.inl ⟨slot, only, sole.1, sole.2, rfl⟩
    · exact Or.inr rfl
  · exact Or.inr rfl

/-- The types that a constraint can be read as, each with what it tells of the constraint. -/
inductive Reads (reading : Reading) (constraint : Constraint) : CType → Prop where
  | void : Reads reading constraint .void
  | function (signature : Signature) : constraint.signature = some signature →
      Reads reading constraint
        (.function ((signature.params.getD []).map reading.number) (reading.number signature.ret))
  | pointer (target : ClassId) : constraint.pointee = some target →
      Reads reading constraint (.pointer (reading.number target))
  | pointerOr (scalar : Primitive) (target : ClassId) : constraint.pointee = some target →
      Reads reading constraint (.union [.primitive scalar, .pointer (reading.number target)])
  | value (slot : Slot) : constraint.slots = [slot] → slot.offset = 0 →
      Reads reading constraint (.sameAs (reading.number slot.cls))
  | struct (size : UInt64) : Reads reading constraint (.struct size
      ((FieldGroup.sweep (constraint.slots.map reading.group)).map FieldGroup.field))
  | union (group : FieldGroup) : group ∈ FieldGroup.sweep (constraint.slots.map reading.group) →
      Reads reading constraint group.union
  | unknown : Reads reading constraint .unknown
  | primitive (scalar : Primitive) : Reads reading constraint (.primitive scalar)
  | primitives (first second : Primitive) :
      Reads reading constraint (.union [.primitive first, .primitive second])

variable {reading : Reading} {constraint : Constraint}

theorem reads_pointer {target : ClassId} (known : constraint.pointee = some target) :
    Reads reading constraint (reading.pointer constraint target) := by
  unfold pointer
  split
  · exact .pointerOr _ target known
  · exact .pointer target known

theorem reads_aggregate : Reads reading constraint (reading.aggregate constraint) := by
  rcases aggregate_cases reading constraint with ⟨slot, only, base, _, single⟩ | grouped
  · rw [single]
    exact .value slot only base
  · rw [grouped]
    rcases CType.ofGroups_cases constraint.extent
      (FieldGroup.sweep (constraint.slots.map reading.group)) with
      ⟨group, only, _, _, union⟩ | struct
    · rw [union]
      exact .union group (by rw [only]; exact List.mem_singleton_self _)
    · rw [struct]
      exact .struct _

theorem reads_scalar : Reads reading constraint (reading.scalar constraint) := by
  unfold scalar
  simp only
  split
  · exact .primitives _ _
  · split
    · exact .unknown
    · exact .primitive _

theorem reads_type (reading : Reading) (constraint : Constraint) :
    Reads reading constraint (reading.type constraint) := by
  rcases type_cases reading constraint with void | ⟨signature, called, function⟩ |
    ⟨target, known, pointer⟩ | ⟨_, aggregate⟩ | ⟨_, _, scalar⟩
  · rw [void]
    exact .void
  · rw [function]
    exact .function signature (Constraint.signature_of_calledAs? called)
  · rw [pointer]
    exact reads_pointer known
  · rw [aggregate]
    exact reads_aggregate
  · rw [scalar]
    exact reads_scalar

theorem of_function {params : List ClassId} {ret : ClassId}
    (read : reading.type constraint = .function params ret) :
    ∃ signature, constraint.signature = some signature ∧
      params = (signature.params.getD []).map reading.number ∧
        ret = reading.number signature.ret := by
  have reads := reads_type reading constraint
  rw [read] at reads
  cases reads with
  | function signature known => exact ⟨signature, known, rfl, rfl⟩

theorem type_function {signature : Signature} (kind : constraint.declaredKind = some .function)
    (known : constraint.signature = some signature) :
    reading.type constraint = .function ((signature.params.getD []).map reading.number)
      (reading.number signature.ret) := by
  simp [type, kind, Constraint.calledAs?, known]

theorem of_pointsTo {target : ClassId} (points : (reading.type constraint).PointsTo target) :
    ∃ cls, constraint.pointee = some cls ∧ target = reading.number cls := by
  have reads := reads_type reading constraint
  rcases points with read | ⟨alternatives, read, member⟩ <;> rw [read] at reads
  · cases reads with
    | pointer cls known => exact ⟨cls, known, rfl⟩
  · cases reads with
    | pointerOr scalar cls known => exact ⟨cls, known, by simpa using member⟩
    | union group _ => simp at member
    | primitives first second => simp at member

theorem of_struct {size : UInt64} {fields : List (CField CType)}
    (read : reading.type constraint = .struct size fields) :
    fields = (FieldGroup.sweep (constraint.slots.map reading.group)).map FieldGroup.field := by
  have reads := reads_type reading constraint
  rw [read] at reads
  cases reads with
  | struct => rfl

theorem of_sameAs {cls : ClassId} (read : reading.type constraint = .sameAs cls) :
    ∃ slot, constraint.slots = [slot] ∧ slot.offset = 0 ∧ cls = reading.number slot.cls := by
  have reads := reads_type reading constraint
  rw [read] at reads
  cases reads with
  | value slot only base => exact ⟨slot, only, base, rfl⟩

theorem of_holds {cls : ClassId} (holds : (reading.type constraint).Holds cls) :
    ∃ slot ∈ constraint.slots, cls = reading.number slot.cls := by
  have reads := reads_type reading constraint
  rcases holds with mentions | ⟨size, fields, read, field, listed, mentions⟩
  · generalize reading.type constraint = type at reads mentions
    cases reads with
    | value slot only _ =>
      rcases mentions with same | ⟨_, same, _⟩ <;> cases same
      exact ⟨slot, by rw [only]; exact List.mem_singleton_self _, rfl⟩
    | union group found => exact slot_of_sweep found (FieldGroup.mem_of_mentions_union mentions)
    | pointerOr scalar target known => simp [CType.Mentions] at mentions
    | primitives first second => simp [CType.Mentions] at mentions
    | _ => simp [CType.Mentions] at mentions
  · rw [of_struct read] at listed
    obtain ⟨group, found, rfl⟩ := List.mem_map.1 listed
    exact slot_of_sweep found (FieldGroup.mem_of_mentions mentions)

theorem Gathers.takes_field {run : List Slot} {group : FieldGroup}
    (gathers : Gathers reading run group)
    (ascending : Slot.Ascending run) {slot : Slot} (member : slot ∈ run) :
    group.field.Takes slot.offset := by
  refine ⟨gathers.start_le ascending slot member, (gathers.within slot member).imp_left ?_⟩
  show slot.offset < group.stop → slot.offset.toInt < group.field.stop
  rw [gathers.stop_field]
  exact Int64.lt_iff_toInt_lt.1

/-- Every slot of a struct is taken in by a field that mentions its class. -/
theorem exists_field {size : UInt64} {fields : List (CField CType)}
    (read : reading.type constraint = .struct size fields)
    (ordered : Slot.Ordered constraint.slots) {slot : Slot} (member : slot ∈ constraint.slots) :
    ∃ field ∈ fields, field.Takes slot.offset ∧ field.type.Mentions (reading.number slot.cls) := by
  obtain ⟨group, found, run, held, sublist, gathers⟩ :=
    (reading.sweeps_sweep (List.ne_nil_of_mem member)).exists_group member
  rw [of_struct read]
  refine ⟨group.field, List.mem_map_of_mem found,
    gathers.takes_field (ordered.ascending.sublist sublist) held, ?_⟩
  exact FieldGroup.mentions_type (gathers.mem_classes.2 ⟨slot, held, rfl⟩)

end Reading

end TypeRecovery
