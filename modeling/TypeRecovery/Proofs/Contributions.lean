import Mathlib.Data.Set.Basic
import Mathlib.Data.Set.Insert
import TypeRecovery.Proofs.DerivedClasses
import TypeRecovery.Proofs.Partition
/-!
What a class is known as, in terms of what was contributed to it. Every constraint that a class is
made with, refined by or edited by is a part of its account, and so are the parts of all classes
that were united with it. Calls only join accounts, so a law that joining keeps holds of the account
of every class after any calls. By such laws evidence, accesses, declarations and references are
those of the parts, whatever order these came in; where they differ in one place the greatest is
kept, and of names the first in the alphabet.
-/
namespace TypeRecovery

/-- What was contributed to a class, what became of it, and the conflicts this brought out. -/
structure Account where
  parts : Set Constraint
  total : Constraint
  disputes : Set Conflict

namespace Account

def blank : Account := ⟨∅, {}, ∅⟩

def single (part : Constraint) : Account := ⟨{part}, part, ∅⟩

def join (a b : Account) : Account where
  parts := a.parts ∪ b.parts
  total := a.total.join b.total
  disputes := a.disputes ∪ b.disputes ∪ {conflict | conflict ∈ a.total.conflicts b.total}

/-- What is true of every account that single parts are joined to. -/
structure Law (Good : Account → Prop) : Prop where
  blank : Good blank
  single : ∀ part, Good (single part)
  join : ∀ {a b}, Good a → Good b → Good (a.join b)

end Account

inductive Edit where
  | mark (evidence : Evidence)
  | access (size : UInt8)
  | slot (added : Slot)

namespace Edit

def apply : Edit → Constraint → Constraint
  | mark evidence, constraint => constraint.addEvidence evidence
  | access size, constraint => constraint.recordAccess size
  | slot added, constraint => (constraint.addSlot added).1

def part : Edit → Constraint
  | mark evidence => { evidence }
  | access size => { maxAccess := size }
  | slot added => { slots := [added] }

theorem apply_eq (edit : Edit) (constraint : Constraint) :
    edit.apply constraint = constraint.join edit.part := by
  cases edit with
  | mark evidence => exact constraint.addEvidence_eq evidence
  | access size => exact constraint.recordAccess_eq size
  | slot added => exact constraint.addSlot_eq added

theorem conflicts_part (edit : Edit) (constraint : Constraint) :
    constraint.conflicts edit.part = [] := by
  cases edit <;> simp [part, Constraint.conflicts, Conflict.ofWidths, Conflict.ofKinds,
    Conflict.ofArities]

end Edit

namespace Store

variable {store after : Store} {a b cls : ClassId}

theorem inside_of_root_eq (same : store.root a = store.root b) (inside : b.index < store.size) :
    a.index < store.size := by
  apply Nat.lt_of_not_le
  intro outside
  rw [root_of_outside outside] at same
  have := root_inside inside
  rw [← same] at this
  omega

theorem root_ne_next (known : cls ≠ ⟨store.size⟩) : store.root cls ≠ ⟨store.size⟩ := by
  intro next
  by_cases inside : cls.index < store.size
  · have := root_inside inside
    rw [next] at this
    exact Nat.lt_irrefl _ this
  · rw [root_of_outside (Nat.le_of_not_lt inside)] at next
    exact known next

section about

variable {Value : Type} {entries : List (ClassId × Value)}

/-- What the entries say of classes that are one with `cls`. -/
def about (store : Store) (entries : List (ClassId × Value)) (cls : ClassId) : Set Value :=
  {value | ∃ origin, (origin, value) ∈ entries ∧ store.root origin = store.root cls}

def Covers (store : Store) (entries : List (ClassId × Value)) : Prop :=
  ∀ entry ∈ entries, entry.1.index < store.size

theorem Covers.append {more : List (ClassId × Value)} (covers : store.Covers entries)
    (others : store.Covers more) : store.Covers (entries ++ more) :=
  List.forall_mem_append.2 ⟨covers, others⟩

theorem Covers.mono (covers : store.Covers entries) (grown : store.size ≤ after.size) :
    after.Covers entries :=
  fun entry member => Nat.lt_of_lt_of_le (covers entry member) grown

theorem about_append (store : Store) (first second : List (ClassId × Value)) (cls : ClassId) :
    store.about (first ++ second) cls = store.about first cls ∪ store.about second cls := by
  ext value
  simp only [about, List.mem_append, or_and_right, exists_or]
  rfl

theorem about_of_root_eq (same : store.root a = store.root b) :
    store.about entries a = store.about entries b := by
  simp only [about, same]

theorem about_of_same_roots (same : ∀ cls, after.root cls = store.root cls) :
    after.about entries cls = store.about entries cls := by
  simp only [about, same]

theorem about_values_of_same {origin : ClassId} (values : List Value)
    (same : store.root origin = store.root cls) :
    store.about (values.map (origin, ·)) cls = {value | value ∈ values} := by
  ext value
  constructor
  · rintro ⟨_, member, _⟩
    obtain ⟨_, held, paired⟩ := List.mem_map.1 member
    cases paired
    exact held
  · exact fun held => ⟨origin, List.mem_map_of_mem held, same⟩

theorem about_values_of_apart {origin : ClassId} (values : List Value)
    (apart : store.root origin ≠ store.root cls) :
    store.about (values.map (origin, ·)) cls = ∅ := by
  apply Set.eq_empty_of_forall_notMem
  rintro value ⟨_, member, same⟩
  obtain ⟨_, _, paired⟩ := List.mem_map.1 member
  cases paired
  exact apart same

theorem about_single_of_same {origin : ClassId} (value : Value)
    (same : store.root origin = store.root cls) : store.about [(origin, value)] cls = {value} :=
  (about_values_of_same [value] same).trans (Set.ext fun _ => List.mem_singleton)

theorem about_single_of_apart {origin : ClassId} (value : Value)
    (apart : store.root origin ≠ store.root cls) : store.about [(origin, value)] cls = ∅ :=
  about_values_of_apart [value] apart

theorem about_of_outside (covers : store.Covers entries) (outside : store.size ≤ cls.index) :
    store.about entries cls = ∅ := by
  apply Set.eq_empty_of_forall_notMem
  rintro value ⟨origin, member, same⟩
  exact Nat.not_lt.2 outside (inside_of_root_eq same.symm (covers _ member))

theorem about_unites {merge : Merge} (unites : Unites store a b merge after)
    (entries : List (ClassId × Value)) (cls : ClassId) :
    after.about entries cls =
      if after.root cls = merge.root then
        store.about entries merge.root ∪ store.about entries merge.absorbed
      else store.about entries cls := by
  ext value
  split
  · rename_i top
    simp only [about, top, unites.root_eq_iff, unites.isRoot.1, unites.isRoot.2, and_or_left,
      exists_or]
    rfl
  · rename_i other
    have fixed : after.root cls = store.root cls := by
      rw [unites.root] at other ⊢
      split at other
      · exact absurd rfl other
      · rw [if_neg ‹_›]
    -- Only classes of the two roots that were united have another root now.
    have kept (origin : ClassId) :
        after.root origin = store.root cls ↔ store.root origin = store.root cls := by
      rw [unites.root]
      split
      · rename_i absorbed
        constructor
        · intro top
          exact absurd (fixed.trans top.symm) other
        · intro same
          refine absurd (unites.root_eq_iff.2 (Or.inr ?_)) other
          rw [← same, absorbed]
      · exact Iff.rfl
    simp only [about, fixed, kept]

end about

def disputes (store : Store) : List (ClassId × Conflict) :=
  store.conflicts.toList.map fun entry => (entry.cls, entry.conflict)

theorem disputes_append {conflicts : List Conflict}
    (noted : after.conflicts.toList =
      store.conflicts.toList ++ conflicts.map (ClassConflict.mk cls)) :
    after.disputes = store.disputes ++ conflicts.map (cls, ·) := by
  rw [disputes, noted, List.map_append, List.map_map]
  rfl

/-- The account of a class, when the parts on record are those that were contributed. -/
def account (store : Store) (record : List (ClassId × Constraint)) (cls : ClassId) : Account :=
  ⟨store.about record cls, store.constraint cls, store.about store.disputes cls⟩

/-- The class of `cls` is refined by a part, and nothing else changes but for the conflicts that
this brings out. -/
structure AddsPart (cls : ClassId) (part : Constraint) (store after : Store) : Prop where
  inside : cls.index < store.size
  root : ∀ other, after.root other = store.root other
  size : store.size ≤ after.size
  constraint : ∀ other, after.constraint other =
    if store.root other = store.root cls then (store.constraint cls).join part
    else store.constraint other
  disputes : ∃ origin, store.root origin = store.root cls ∧
    after.disputes = store.disputes ++ ((store.constraint cls).conflicts part).map (origin, ·)

theorem addsPart_refine (inside : cls.index < store.size) (part : Constraint) :
    AddsPart cls part store (store.refine cls part).2 where
  inside
  root := root_refine store cls part
  size := (size_refine store cls part).ge
  constraint := constraint_refine inside part
  disputes := ⟨store.root cls, store.root_root cls, disputes_append (conflicts_refine ..)⟩

theorem addsPart_update {part : Constraint} {change : Constraint → Constraint}
    (inside : cls.index < store.size) (root : ∀ other, after.root other = store.root other)
    (size : store.size ≤ after.size)
    (constraint : ∀ other, after.constraint other = store.constraint other)
    (disputes : after.disputes =
      store.disputes ++ ((store.constraint cls).conflicts part).map (cls, ·))
    (joins : change (store.constraint cls) = (store.constraint cls).join part) :
    AddsPart cls part store (after.update cls change) where
  inside
  root
  size
  constraint other := by
    rw [constraint_update (Nat.lt_of_lt_of_le inside size), root, root, constraint, constraint,
      joins]
  disputes := ⟨cls, rfl, disputes⟩

theorem addsPart_edit (inside : cls.index < store.size) (edit : Edit) :
    AddsPart cls edit.part store (store.update cls edit.apply) := by
  refine addsPart_update inside (fun _ => rfl) (Nat.le_refl _) (fun _ => rfl) ?_ (edit.apply_eq _)
  rw [edit.conflicts_part, List.map_nil, List.append_nil]

theorem AddsPart.of_find {found : ClassId} {part : Constraint}
    (addsPart : AddsPart cls part (store.find found).2 after) : AddsPart cls part store after where
  inside := addsPart.inside.trans_eq (size_find store found)
  root other := (addsPart.root other).trans (root_find ..)
  size := (size_find store found).ge.trans addsPart.size
  constraint other := by
    rw [addsPart.constraint, root_find, root_find, constraint_find, constraint_find]
  disputes := by
    obtain ⟨origin, same, disputes⟩ := addsPart.disputes
    rw [root_find, root_find] at same
    rw [constraint_find] at disputes
    exact ⟨origin, same, disputes⟩

section account

variable {record : List (ClassId × Constraint)} {part : Constraint}

theorem account_fresh (covers : store.Covers record) (noted : store.Covers store.disputes)
    (part : Constraint) (cls : ClassId) :
    (store.fresh part).2.account (record ++ [((store.fresh part).1, part)]) cls =
      if cls = ⟨store.size⟩ then .single part else store.account record cls := by
  have roots (other : ClassId) : (store.fresh part).2.root other = store.root other := root_fresh ..
  have made : (store.fresh part).1 = ⟨store.size⟩ := rfl
  have disputes : (store.fresh part).2.disputes = store.disputes := rfl
  have outside : store.size ≤ (⟨store.size⟩ : ClassId).index := Nat.le_refl _
  unfold account
  rw [about_of_same_roots roots, about_of_same_roots roots, disputes, constraint_fresh, made,
    about_append]
  split
  · rename_i new
    rw [new, about_of_outside covers outside, about_of_outside noted outside,
      about_single_of_same part rfl, Set.empty_union]
    rfl
  · rename_i known
    rw [about_single_of_apart part fun one =>
      root_ne_next known (one.symm.trans (root_of_outside outside)), Set.union_empty]

theorem account_of_addsPart (addsPart : AddsPart cls part store after) (other : ClassId) :
    after.account (record ++ [(cls, part)]) other =
      if store.root other = store.root cls then (store.account record cls).join (.single part)
      else store.account record other := by
  obtain ⟨origin, same, disputes⟩ := addsPart.disputes
  unfold account
  rw [about_of_same_roots addsPart.root, about_of_same_roots addsPart.root, addsPart.constraint,
    disputes,
    about_append, about_append]
  split
  · rename_i one
    rw [about_single_of_same part one.symm, about_values_of_same _ (same.trans one.symm),
      about_of_root_eq one, about_of_root_eq one]
    simp [Account.join, Account.single]
  · rename_i apart
    rw [about_single_of_apart part (Ne.symm apart),
      about_values_of_apart _ fun one => apart (one.symm.trans same), Set.union_empty,
      Set.union_empty]

theorem account_of_unites {merge : Merge} (unites : Unites store a b merge after)
    (disputes : after.disputes = store.disputes ++
      ((store.constraint merge.root).conflicts (store.constraint merge.absorbed)).map
        (merge.root, ·)) (cls : ClassId) :
    after.account record cls =
      if after.root cls = merge.root then
        (store.account record merge.root).join (store.account record merge.absorbed)
      else store.account record cls := by
  have top : after.root merge.root = merge.root := unites.root_eq_iff.2 (Or.inl unites.isRoot.1)
  unfold account
  rw [unites.constraint, disputes, about_append, about_unites unites, about_unites unites]
  split
  · rename_i one
    rw [about_values_of_same _ (top.trans one.symm)]
    rfl
  · rename_i apart
    rw [about_values_of_apart _ fun one => apart (one.symm.trans top), Set.union_empty]

/-- The classes on record exist, and the account of every class is as it should be. -/
structure Lawful (Good : Account → Prop) (record : List (ClassId × Constraint)) (store : Store) :
    Prop where
  covers : store.Covers record
  disputes : store.Covers store.disputes
  good : ∀ cls, Good (store.account record cls)

variable {Good : Account → Prop} (law : Account.Law Good)
include law

theorem lawful_withLocations (count : Nat) : (withLocations count).Lawful Good [] where
  covers := List.forall_mem_nil _
  disputes := List.forall_mem_nil _
  good cls := by
    have nothing : (withLocations count).account [] cls = .blank := by
      rw [account, constraint_withLocations]
      simp [about, disputes, withLocations, Account.blank]
    rw [nothing]
    exact law.blank

namespace Lawful

theorem fresh (lawful : store.Lawful Good record) (part : Constraint) :
    (store.fresh part).2.Lawful Good (record ++ [((store.fresh part).1, part)]) := by
  have grown : store.size < (store.fresh part).2.size := by
    rw [size_fresh]
    exact Nat.lt_succ_self _
  refine ⟨(lawful.covers.mono grown.le).append (List.forall_mem_singleton.2 grown),
    lawful.disputes.mono grown.le, fun cls => ?_⟩
  rw [account_fresh lawful.covers lawful.disputes]
  split
  · exact law.single part
  · exact lawful.good cls

theorem addsPart (lawful : store.Lawful Good record) (addsPart : AddsPart cls part store after) :
    after.Lawful Good (record ++ [(cls, part)]) where
  covers := (lawful.covers.mono addsPart.size).append
    (List.forall_mem_singleton.2 (Nat.lt_of_lt_of_le addsPart.inside addsPart.size))
  disputes := by
    obtain ⟨origin, same, disputes⟩ := addsPart.disputes
    rw [disputes]
    refine (lawful.disputes.mono addsPart.size).append fun entry member => ?_
    obtain ⟨_, _, rfl⟩ := List.mem_map.1 member
    exact Nat.lt_of_lt_of_le (inside_of_root_eq same addsPart.inside) addsPart.size
  good other := by
    rw [account_of_addsPart addsPart]
    split
    · exact law.join (lawful.good cls) (law.single part)
    · exact lawful.good other

omit law in
theorem find (lawful : store.Lawful Good record) (cls : ClassId) :
    (store.find cls).2.Lawful Good record where
  covers := lawful.covers.mono (size_find ..).ge
  disputes := lawful.disputes.mono (size_find ..).ge
  good other := by
    have same : (store.find cls).2.account record other = store.account record other := by
      unfold account
      rw [about_of_same_roots (root_find store cls), about_of_same_roots (root_find store cls),
        constraint_find]
      rfl
    rw [same]
    exact lawful.good other

theorem union {merge : Merge} (lawful : store.Lawful Good record) (aInside : a.index < store.size)
    (bInside : b.index < store.size) (found : store.union a b = some (merge, after)) :
    after.Lawful Good record := by
  have unites := union_some aInside bInside found
  have disputes : after.disputes = store.disputes ++
      ((store.constraint merge.root).conflicts (store.constraint merge.absorbed)).map
        (merge.root, ·) := disputes_append (conflicts_union aInside bInside found)
  refine ⟨lawful.covers.mono unites.size.ge, ?_, fun cls => ?_⟩
  · rw [disputes]
    refine (lawful.disputes.mono unites.size.ge).append fun entry member => ?_
    obtain ⟨_, _, rfl⟩ := List.mem_map.1 member
    exact (unites.inside aInside bInside).1.trans_eq unites.size.symm
  · rw [account_of_unites unites disputes]
    split
    · exact law.join (lawful.good _) (lawful.good _)
    · exact lawful.good cls

end Lawful

end account

def Call.part? (store : Store) : Call Edit → Option (ClassId × Constraint)
  | .fresh constraint => some ((store.fresh constraint).1, constraint)
  | .refine cls constraint => some (cls, constraint)
  | .edit cls change => some (cls, change.part)
  | .union _ _ | .find _ | .sameClass _ _ | .classOf _ => none

def parts (store : Store) : List (Call Edit) → List (ClassId × Constraint)
  | [] => []
  | first :: rest => (first.part? store).toList ++ parts (store.call Edit.apply first) rest

section run

variable {Good : Account → Prop} (law : Account.Law Good) {record : List (ClassId × Constraint)}
include law

theorem Lawful.call {call : Call Edit} (inside : ∀ cls ∈ call.classes, cls.index < store.size)
    (lawful : store.Lawful Good record) :
    (store.call Edit.apply call).Lawful Good (record ++ (call.part? store).toList) := by
  have known {cls found : ClassId} (member : cls ∈ call.classes) :
      cls.index < (store.find found).2.size := (inside cls member).trans_eq (size_find ..).symm
  cases call with
  | fresh constraint => exact lawful.fresh law constraint
  | refine cls constraint =>
    exact lawful.addsPart law (addsPart_refine (known List.mem_cons_self) constraint).of_find
  | edit cls change =>
    exact lawful.addsPart law (addsPart_edit (known List.mem_cons_self) change).of_find
  | union a b =>
    rw [Call.part?, Option.toList_none, List.append_nil, Store.call]
    split
    · exact lawful.union law (inside a (by simp [Call.classes])) (inside b (by simp [Call.classes]))
        ‹_›
    · exact (lawful.find a).find b
  | find cls =>
    rw [Call.part?, Option.toList_none, List.append_nil]
    exact lawful.find cls
  | sameClass a b =>
    rw [Call.part?, Option.toList_none, List.append_nil]
    exact (lawful.find a).find b
  | classOf loc =>
    rw [Call.part?, Option.toList_none, List.append_nil]
    exact lawful.find loc.initialClass

theorem Lawful.callAll {calls : List (Call Edit)} (admits : store.Admits Edit.apply calls)
    (lawful : store.Lawful Good record) :
    (store.callAll Edit.apply calls).Lawful Good (record ++ store.parts calls) := by
  induction calls generalizing store record with
  | nil =>
    rw [parts, List.append_nil]
    exact lawful
  | cons first rest ih =>
    rw [parts, ← List.append_assoc]
    exact ih admits.2 (lawful.call law admits.1)

/-- After any calls from the start, the law holds of the account of every class. -/
theorem account_callAll {count : Nat} {calls : List (Call Edit)}
    (admits : (withLocations count).Admits Edit.apply calls) (cls : ClassId) :
    Good (((withLocations count).callAll Edit.apply calls).account
      ((withLocations count).parts calls) cls) :=
  ((lawful_withLocations law count).callAll law admits).good cls

end run

end Store

def Utmost {Value : Type} (le : Value → Value → Prop) (found : Set Value) : Option Value → Prop
  | none => found = ∅
  | some value => value ∈ found ∧ ∀ other ∈ found, le other value

/-- The choice between two values takes the one that is further. -/
structure Takes {Value : Type} (le : Value → Value → Prop) (choose : Value → Value → Value) :
    Prop where
  refl : ∀ value, le value value
  trans : ∀ {a b c}, le a b → le b c → le a c
  either : ∀ a b, choose a b = a ∧ le b a ∨ choose a b = b ∧ le a b

section utmost

variable {Value : Type} {le : Value → Value → Prop} {choose : Value → Value → Value}

theorem Utmost.chosen {first second : Set Value} {a b : Value} (takes : Takes le choose)
    (left : Utmost le first (some a)) (right : Utmost le second (some b)) :
    Utmost le (first ∪ second) (some (choose a b)) := by
  rcases takes.either a b with ⟨chosen, further⟩ | ⟨chosen, further⟩
  · rw [chosen]
    refine ⟨Or.inl left.1, fun other member => member.elim (left.2 other) fun held => ?_⟩
    exact takes.trans (right.2 other held) further
  · rw [chosen]
    refine ⟨Or.inr right.1, fun other member => member.elim (fun held => ?_) (right.2 other)⟩
    exact takes.trans (left.2 other held) further

theorem Utmost.merge {first second : Set Value} {a b : Option Value} (takes : Takes le choose)
    (left : Utmost le first a) (right : Utmost le second b) :
    Utmost le (first ∪ second) (a.merge choose b) := by
  cases a with
  | none =>
    rw [show first = ∅ from left, Set.empty_union, Option.merge_none_left]
    exact right
  | some a =>
    cases b with
    | none =>
      rw [show second = ∅ from right, Set.union_empty, Option.merge_none_right]
      exact left
    | some b => exact left.chosen takes right

theorem takes_ite [DecidableRel le] (refl : ∀ a, le a a)
    (trans : ∀ {a b c}, le a b → le b c → le a c) (total : ∀ a b, le a b ∨ le b a) :
    Takes le fun a b => if le a b then b else a where
  refl := refl
  trans := trans
  either a b := by
    split
    · exact Or.inr ⟨rfl, ‹_›⟩
    · exact Or.inl ⟨rfl, (total a b).resolve_left ‹_›⟩

theorem takes_max_width : Takes (fun a b : UInt8 => a ≤ b) max :=
  takes_ite UInt8.le_refl UInt8.le_trans UInt8.le_total

theorem takes_max_extent : Takes (fun a b : UInt64 => a ≤ b) max :=
  takes_ite UInt64.le_refl UInt64.le_trans UInt64.le_total

theorem takes_max_kind : Takes (fun a b : Kind => a.strength ≤ b.strength) max :=
  takes_ite (fun a => Nat.le_refl a.strength) Nat.le_trans fun a b =>
    Nat.le_total a.strength b.strength

theorem takes_max_arity : Takes (fun a b : Nat => a ≤ b) max :=
  takes_ite Nat.le_refl Nat.le_trans Nat.le_total

theorem takes_first_name : Takes (fun a b : String => b ≤ a) fun a b => if b < a then b else a where
  refl := String.le_refl
  trans first second := String.le_trans second first
  either a b := by
    split
    · rename_i earlier
      exact Or.inr ⟨rfl, String.not_lt.1 (String.lt_asymm earlier)⟩
    · rename_i later
      exact Or.inl ⟨rfl, String.not_lt.1 later⟩

end utmost

namespace Constraint

theorem exists_refers_join (a b : Constraint) (role : Role) :
    (∃ cls, (a.join b).Refers role cls) ↔
      (∃ cls, a.Refers role cls) ∨ ∃ cls, b.Refers role cls := by
  constructor
  · rintro ⟨cls, refers⟩
    exact (refers_of_join refers).imp (⟨cls, ·⟩) (⟨cls, ·⟩)
  · rintro (⟨cls, refers⟩ | ⟨cls, refers⟩)
    · exact ⟨cls, refers_join_left b refers⟩
    · obtain ⟨kept, refers, _⟩ := refers_join_right a refers
      exact ⟨kept, refers⟩

theorem isSome_pointee_iff {constraint : Constraint} :
    constraint.pointee.isSome ↔ ∃ cls, constraint.Refers .pointee cls := Option.isSome_iff_exists

theorem isSome_signature_iff {constraint : Constraint} :
    constraint.signature.isSome ↔ ∃ cls, constraint.Refers .result cls := by
  rw [Option.isSome_iff_exists]
  constructor
  · exact fun ⟨signature, found⟩ => ⟨signature.ret, signature, found, rfl⟩
  · exact fun ⟨_, signature, found, _⟩ => ⟨signature, found⟩

end Constraint

namespace Account

section laws

variable {Value : Type} {le : Value → Value → Prop} {choose : Value → Value → Value}

def values (read : Constraint → Option Value) (parts : Set Constraint) : Set Value :=
  {value | ∃ part ∈ parts, read part = some value}

theorem values_empty (read : Constraint → Option Value) : values read ∅ = ∅ :=
  Set.eq_empty_of_forall_notMem fun _ ⟨_, absent, _⟩ => absent

theorem values_single (read : Constraint → Option Value) (part : Constraint) :
    values read {part} = {value | read part = some value} := by
  ext value
  constructor
  · rintro ⟨_, rfl, has⟩
    exact has
  · exact fun has => ⟨part, rfl, has⟩

theorem values_union (read : Constraint → Option Value) (first second : Set Constraint) :
    values read (first ∪ second) = values read first ∪ values read second := by
  ext value
  constructor
  · rintro ⟨part, member, has⟩
    exact member.imp (fun held => ⟨part, held, has⟩) fun held => ⟨part, held, has⟩
  · rintro (⟨part, held, has⟩ | ⟨part, held, has⟩)
    · exact ⟨part, Or.inl held, has⟩
    · exact ⟨part, Or.inr held, has⟩

/-- Of values that some parts have, the utmost is kept. -/
theorem law_utmost (read : Constraint → Option Value) (takes : Takes le choose)
    (bare : read {} = none) (joins : ∀ a b, read (a.join b) = (read a).merge choose (read b)) :
    Law fun account => Utmost le (values read account.parts) (read account.total) where
  blank := by
    rw [blank, values_empty, bare]
    rfl
  single part := by
    rw [single, values_single]
    cases has : read part with
    | none =>
      apply Set.eq_empty_of_forall_notMem
      intro value given
      cases given
    | some value =>
      refine ⟨rfl, fun other same => ?_⟩
      cases same
      exact takes.refl value
  join left right := by
    rw [join, values_union, joins]
    exact left.merge takes right

theorem law_greatest (read : Constraint → Value) (takes : Takes le choose)
    (least : ∀ value, le (read {}) value)
    (joins : ∀ a b, read (a.join b) = choose (read a) (read b)) :
    Law fun account => Utmost le (insert (read {}) (values (fun part => some (read part))
      account.parts)) (some (read account.total)) where
  blank := by
    rw [blank, values_empty]
    exact ⟨Set.mem_insert .., fun other member => member.elim (fun same => same ▸ takes.refl _)
      False.elim⟩
  single part := by
    rw [single, values_single]
    refine ⟨Or.inr rfl, fun other member => ?_⟩
    rcases member with rfl | same
    · exact least _
    · cases same
      exact takes.refl _
  join left right := by
    rw [join, values_union, joins, Set.insert_union_distrib]
    exact left.chosen takes right

theorem law_some (has : Constraint → Prop) (bare : ¬ has {})
    (joins : ∀ a b, has (a.join b) ↔ has a ∨ has b) :
    Law fun account => has account.total ↔ ∃ part ∈ account.parts, has part where
  blank := iff_of_false bare fun ⟨_, absent, _⟩ => absent
  single part := by
    constructor
    · exact fun held => ⟨part, rfl, held⟩
    · rintro ⟨_, rfl, held⟩
      exact held
  join left right := by
    rw [join, joins, left, right]
    constructor
    · rintro (⟨part, member, held⟩ | ⟨part, member, held⟩)
      · exact ⟨part, Or.inl member, held⟩
      · exact ⟨part, Or.inr member, held⟩
    · rintro ⟨part, member | member, held⟩
      · exact Or.inl ⟨part, member, held⟩
      · exact Or.inr ⟨part, member, held⟩

theorem law_evidence (bit : Nat) :
    Law fun account => account.total.evidence.bits.getLsbD bit = true ↔
      ∃ part ∈ account.parts, part.evidence.bits.getLsbD bit = true := by
  refine law_some (fun constraint => constraint.evidence.bits.getLsbD bit = true) (fun given => ?_)
    fun a b => ?_
  · exact absurd given (by simp [EmptyCollection.emptyCollection, Evidence.empty])
  · show (a.evidence.bits ||| b.evidence.bits).getLsbD bit = true ↔ _
    rw [BitVec.getLsbD_or, Bool.or_eq_true]

theorem law_role (role : Role) :
    Law fun account => (∃ cls, account.total.Refers role cls) ↔
      ∃ part ∈ account.parts, ∃ cls, part.Refers role cls :=
  law_some (fun constraint => ∃ cls, constraint.Refers role cls)
    (fun ⟨_, refers⟩ => Constraint.not_refers_empty role _ refers) fun a b =>
      a.exists_refers_join b role

end laws

/-- What is known of a class is the sum of its parts. -/
structure Sums (account : Account) : Prop where
  evidence : ∀ bit, account.total.evidence.bits.getLsbD bit = true ↔
    ∃ part ∈ account.parts, part.evidence.bits.getLsbD bit = true
  maxAccess : Utmost (· ≤ ·) (insert 0 (values (fun part => some part.maxAccess) account.parts))
    (some account.total.maxAccess)
  extent : Utmost (· ≤ ·) (insert 0 (values (fun part => some part.extent) account.parts))
    (some account.total.extent)
  declaredWidth : Utmost (· ≤ ·) (values Constraint.declaredWidth account.parts)
    account.total.declaredWidth
  declaredKind : Utmost (fun a b => a.strength ≤ b.strength)
    (values Constraint.declaredKind account.parts) account.total.declaredKind
  /-- The first in the alphabet. -/
  declaredName : Utmost (fun a b => b ≤ a) (values Constraint.declaredName account.parts)
    account.total.declaredName
  arity : Utmost (· ≤ ·) (values Constraint.arity account.parts) account.total.arity
  slots : ∀ offset size, (∃ cls, ⟨offset, size, cls⟩ ∈ account.total.slots) ↔
    ∃ part ∈ account.parts, ∃ cls, ⟨offset, size, cls⟩ ∈ part.slots
  pointee : account.total.pointee.isSome ↔ ∃ part ∈ account.parts, part.pointee.isSome
  signature : account.total.signature.isSome ↔ ∃ part ∈ account.parts, part.signature.isSome

end Account

namespace Store

/-- After any calls from the start, what is known of a class is the sum of all that was contributed
to classes that are one with it. -/
theorem callAll_sums {count : Nat} {calls : List (Call Edit)}
    (admits : (withLocations count).Admits Edit.apply calls) (cls : ClassId) :
    (((withLocations count).callAll Edit.apply calls).account
      ((withLocations count).parts calls) cls).Sums where
  evidence bit := account_callAll (Account.law_evidence bit) admits cls
  maxAccess :=
    account_callAll (Account.law_greatest Constraint.maxAccess takes_max_width
      (fun _ => UInt8.zero_le) fun _ _ => rfl) admits cls
  extent :=
    account_callAll (Account.law_greatest Constraint.extent takes_max_extent
      (fun _ => UInt64.zero_le) fun _ _ => rfl) admits cls
  declaredWidth :=
    account_callAll (Account.law_utmost _ takes_max_width rfl fun _ _ => rfl) admits cls
  declaredKind :=
    account_callAll (Account.law_utmost _ takes_max_kind rfl fun _ _ => rfl) admits cls
  declaredName :=
    account_callAll (Account.law_utmost _ takes_first_name rfl fun _ _ => rfl) admits cls
  arity :=
    account_callAll (Account.law_utmost _ takes_max_arity rfl Constraint.arity_join) admits cls
  slots offset size := account_callAll (Account.law_role (.slot offset size)) admits cls
  pointee := by
    simpa only [Constraint.isSome_pointee_iff] using
      account_callAll (Account.law_role .pointee) admits cls
  signature := by
    simpa only [Constraint.isSome_signature_iff] using
      account_callAll (Account.law_role .result) admits cls

def additions : List (Call Edit) :=
  [.fresh { declaredWidth := some 4 }, .refine ⟨1⟩ { declaredWidth := some 8 }, .union ⟨0⟩ ⟨2⟩,
    .edit ⟨0⟩ (.mark {.read}), .union ⟨2⟩ ⟨1⟩, .edit ⟨2⟩ (.slot ⟨0, 4, ⟨1⟩⟩), .edit ⟨1⟩ (.access 2)]

theorem callAll_sums_additions : (withLocations 2).Admits Edit.apply additions ∧
    (((withLocations 2).callAll Edit.apply additions).account
      ((withLocations 2).parts additions) ⟨0⟩).Sums := by
  have admits : (withLocations 2).Admits Edit.apply additions := by decide
  exact ⟨admits, callAll_sums admits ⟨0⟩⟩

example : (withLocations 2).parts additions =
    [(⟨2⟩, { declaredWidth := some 4 }), (⟨1⟩, { declaredWidth := some 8 }),
      (⟨0⟩, { evidence := {.read} }), (⟨2⟩, { slots := [⟨0, 4, ⟨1⟩⟩] }),
      (⟨1⟩, { maxAccess := 2 })] := by decide

end Store

end TypeRecovery
