import TypeRecovery.Proofs.StoreCorrespondence
import TypeRecovery.Proofs.TypingClasses
/-!
Numbers under renaming. A search comes upon the classes of a store in the same order when they have
other names, so stores that can be found in each other number their classes alike. The classes that
are appended last come up in no certain order, but there are none once all were reached.
-/
namespace TypeRecovery

namespace Distinct

variable {Item Other : Type} [DecidableEq Item] [DecidableEq Other] {rename : Item → Other}

theorem map_add {items : List Item} {item : Item}
    (apart : ∀ other ∈ items, rename other = rename item → other = item) :
    (add items item).map rename = add (items.map rename) (rename item) := by
  have member : rename item ∈ items.map rename ↔ item ∈ items := by
    constructor
    · intro renamed
      obtain ⟨other, member, same⟩ := List.mem_map.1 renamed
      rwa [← apart other member same]
    · exact List.mem_map_of_mem
  by_cases known : item ∈ items
  · simp only [add, member, known, if_true]
  · simp only [add, member, known, if_false, List.map_append, List.map_cons, List.map_nil]

theorem map_addAll {items more : List Item}
    (apart : ∀ item ∈ more, ∀ other, other ∈ items ∨ other ∈ more → rename other = rename item →
      other = item) :
    (addAll items more).map rename = addAll (items.map rename) (more.map rename) := by
  induction more generalizing items with
  | nil => rfl
  | cons item rest ih =>
    have first := map_add fun other member =>
      apart item List.mem_cons_self other (Or.inl member)
    show (addAll (add items item) rest).map rename =
      addAll (add (items.map rename) (rename item)) (rest.map rename)
    rw [← first]
    apply ih
    intro later member other either
    apply apart later (List.mem_cons_of_mem _ member) other
    rcases either with known | last
    · rcases mem_add.1 known with old | rfl
      · exact Or.inl old
      · exact Or.inr List.mem_cons_self
    · exact Or.inr (List.mem_cons_of_mem _ last)

end Distinct

theorem idxOf?_map {Item Other : Type} [DecidableEq Item] [DecidableEq Other]
    {rename : Item → Other} {items : List Item} {item : Item}
    (apart : ∀ other ∈ items, rename other = rename item → other = item) :
    (items.map rename).idxOf? (rename item) = items.idxOf? item := by
  induction items with
  | nil => rfl
  | cons head rest ih =>
    rw [List.forall_mem_cons] at apart
    have same : (rename head == rename item) = (head == item) := by
      rw [Bool.eq_iff_iff, beq_iff_eq, beq_iff_eq]
      exact ⟨apart.1, congrArg rename⟩
    rw [List.map_cons, List.idxOf?_cons, List.idxOf?_cons, same, ih apart.2]

namespace Numbering

variable {next : ClassId → List ClassId} {order final : List ClassId}

theorem Explores.deterministic {place : Nat} {other : List ClassId}
    (explores : Explores next place order final) (again : Explores next place order other) :
    final = other := by
  induction explores with
  | done stop =>
    cases again with
    | done _ => rfl
    | take found _ =>
      rw [stop] at found
      cases found
  | take found _ ih =>
    cases again with
    | done stop =>
      rw [stop] at found
      cases found
    | take found' again =>
      rw [found] at found'
      cases found'
      exact ih again

theorem Visits.deterministic {starts other : List ClassId} (visits : Visits next starts order final)
    (again : Visits next starts order other) : final = other := by
  induction visits with
  | none =>
    cases again
    rfl
  | search explores _ ih =>
    cases again with
    | search explores' again =>
      rw [← explores.deterministic explores'] at again
      exact ih again

def Full (next : ClassId → List ClassId) (order : List ClassId) : Prop :=
  ∀ cls ∈ order, ∀ other ∈ next cls, other ∈ order

theorem Explores.full {place : Nat} (explores : Explores next place order final)
    (before : ∀ earlier < place, ∀ cls, order[earlier]? = some cls → ∀ other ∈ next cls,
      other ∈ order) : Full next final := by
  induction explores with
  | done stop =>
    rename_i place order
    intro cls member
    obtain ⟨earlier, found⟩ := List.mem_iff_getElem?.1 member
    apply before earlier _ cls found
    -- The place is past the end, so every class came before it.
    have inside := (List.getElem?_eq_some_iff.1 found).1
    have outside := List.getElem?_eq_none_iff.1 stop
    omega
  | take found _ ih =>
    rename_i place order final taken _
    have kept {earlier : Nat} (inside : earlier < order.length) :
        (Distinct.addAll order (next taken))[earlier]? = order[earlier]? := by
      obtain ⟨more, appended⟩ := Distinct.exists_addAll order (next taken)
      rw [appended, List.getElem?_append_left inside]
    have place := (List.getElem?_eq_some_iff.1 found).1
    apply ih
    intro earlier soon cls held other member
    rw [kept (by omega)] at held
    apply Distinct.mem_addAll.2
    rcases Nat.lt_succ_iff_lt_or_eq.1 soon with earlier | rfl
    · exact Or.inl (before _ earlier cls held other member)
    · rw [found] at held
      cases held
      exact Or.inr member

theorem Visits.full {starts : List ClassId} (visits : Visits next starts order final)
    (full : Full next order) : Full next final := by
  induction visits with
  | none => exact full
  | search explores _ ih =>
    rename_i start _ order _ _ _
    apply ih
    apply explores.full
    intro earlier inside cls found other member
    obtain ⟨more, appended⟩ := Distinct.exists_addAll order [start]
    have added : Distinct.add order start = order ++ more := appended
    rw [added, List.getElem?_append_left inside] at found
    exact Distinct.mem_add.2 (Or.inl (full cls (List.mem_of_getElem? found) other member))

theorem Visits.split {first second : List ClassId}
    (visits : Visits next (first ++ second) order final) :
    ∃ middle, Visits next first order middle ∧ Visits next second middle final := by
  induction first generalizing order with
  | nil => exact ⟨order, .none, visits⟩
  | cons start rest ih =>
    cases visits with
    | search explores later =>
      obtain ⟨middle, before, after⟩ := ih later
      exact ⟨middle, .search explores before, after⟩

theorem visits_of_present {starts : List ClassId} (present : ∀ start ∈ starts, start ∈ order) :
    Visits next starts order order := by
  induction starts with
  | nil => exact .none
  | cons start rest ih =>
    rw [List.forall_mem_cons] at present
    refine .search ?_ (ih present.2)
    rw [Distinct.add_of_mem present.1]
    apply Explores.done
    exact List.getElem?_eq_none_iff.2 (Nat.le_refl _)

section Renaming

variable {other : ClassId → List ClassId} {rename : ClassId → ClassId} {Good : ClassId → Prop}

theorem Explores.map (kept : ∀ cls, ∀ other ∈ next cls, Good other)
    (apart : ∀ {first second}, Good first → Good second → rename first = rename second →
      first = second)
    (leads : ∀ {cls}, Good cls → other (rename cls) = (next cls).map rename)
    {place : Nat} (explores : Explores next place order final) (good : ∀ cls ∈ order, Good cls) :
    Explores other place (order.map rename) (final.map rename) := by
  induction explores with
  | done stop =>
    apply Explores.done
    rw [List.getElem?_map, stop, Option.map_none]
  | take found _ ih =>
    rename_i place order final cls _
    have taken := good cls (List.mem_of_getElem? found)
    have goodAll : ∀ item ∈ Distinct.addAll order (next cls), Good item := by
      intro item member
      exact (Distinct.mem_addAll.1 member).elim (good item) (kept cls item)
    have renamed := ih goodAll
    rw [Distinct.map_addAll, ← leads taken] at renamed
    · apply Explores.take _ renamed
      rw [List.getElem?_map, found, Option.map_some]
    · intro item member known either
      exact apart (either.elim (good known) (kept cls known)) (kept cls item member)

theorem Visits.map (kept : ∀ cls, ∀ other ∈ next cls, Good other)
    (apart : ∀ {first second}, Good first → Good second → rename first = rename second →
      first = second)
    (leads : ∀ {cls}, Good cls → other (rename cls) = (next cls).map rename)
    {starts : List ClassId} (visits : Visits next starts order final)
    (good : ∀ cls ∈ order, Good cls) (goodStarts : ∀ cls ∈ starts, Good cls) :
    Visits other (starts.map rename) (order.map rename) (final.map rename) := by
  induction visits with
  | none => exact .none
  | search explores _ ih =>
    rename_i start _ order _ _ _
    rw [List.forall_mem_cons] at goodStarts
    have goodAdded : ∀ cls ∈ Distinct.add order start, Good cls := by
      intro cls member
      rcases Distinct.mem_add.1 member with old | rfl
      · exact good cls old
      · exact goodStarts.1
    have renamed := explores.map kept apart leads goodAdded
    rw [Distinct.map_add fun known member => apart (good known member) goodStarts.1] at renamed
    apply Visits.search
    · rwa [List.length_map]
    · exact ih (explores.good kept goodAdded) goodStarts.2

end Renaming
end Numbering

namespace Store

def places (store : Store) : List ClassId :=
  (List.range store.locationCount).map fun place => store.classOf ⟨place⟩

theorem mem_places {store : Store} {cls : ClassId} :
    cls ∈ store.places ↔
      ∃ loc : LocId, loc.index < store.locationCount ∧ store.classOf loc = cls := by
  constructor
  · intro member
    obtain ⟨place, declared, rfl⟩ := List.mem_map.1 member
    exact ⟨⟨place⟩, List.mem_range.1 declared, rfl⟩
  · rintro ⟨loc, declared, rfl⟩
    exact List.mem_map.2 ⟨loc.index, List.mem_range.2 declared, rfl⟩

/-- When every class is reached, those of the locations are enough to start from. -/
theorem visits_places {store : Store} (inside : store.RefersInside) (reached : store.Reached) :
    Numbering.Visits (Numbering.successors store) store.places []
      (Numbering.ofStore store).order := by
  have visits : Numbering.Visits (Numbering.successors store) (store.places ++ store.roots) []
    (Numbering.ofStore store).order := Numbering.visits_ofStore inside
  obtain ⟨middle, before, after⟩ := visits.split
  have full : Numbering.Full (Numbering.successors store) middle :=
    before.full fun cls member => by cases member
  have present : ∀ root ∈ store.roots, root ∈ middle := by
    intro root member
    obtain ⟨rootInside, isRoot⟩ := mem_roots.1 member
    rw [← isRoot]
    apply reached (· ∈ middle) _ _ root rootInside
    · intro loc declared
      exact before.mem (Or.inr (mem_places.2 ⟨loc, declared, rfl⟩))
    · intro cls role target _ held refers
      apply full cls held
      exact List.mem_map_of_mem (Constraint.mem_references_iff.2 ⟨role, refers⟩)
  rwa [after.deterministic (Numbering.visits_of_present present)]

namespace Resembles

variable {left right : Store} {there : ClassId → ClassId} (same : left.Resembles right there)
include same

theorem successors {cls : ClassId} (inside : cls.index < left.size) :
    Numbering.successors right (there cls) = (Numbering.successors left cls).map there := by
  have shapes := congrArg Constraint.references (same.shape inside)
  have references : ((right.constraint (there cls)).relink right.root).references =
      ((left.constraint cls).relink there).references := shapes
  rw [Constraint.references_relink, Constraint.references_relink] at references
  rw [Numbering.successors, Numbering.successors, references, List.map_map]
  apply List.map_congr_left
  intro target _
  exact (same.there_root target).symm

theorem places : right.places = left.places.map there := by
  rw [Store.places, Store.places, same.count, List.map_map]
  apply List.map_congr_left
  intro place declared
  rw [← same.placed ⟨place⟩ (List.mem_range.1 declared)]
  exact (same.there_root _).symm

theorem order :
    (Numbering.ofStore right).order = (Numbering.ofStore left).order.map there := by
  have visits := visits_places same.insideToo same.reachedToo
  rw [same.places] at visits
  apply visits.deterministic
  apply (visits_places same.inside same.reached).map
    (Numbering.mem_roots_of_successor same.inside) _ _ (List.forall_mem_nil _)
  · intro cls member
    obtain ⟨loc, declared, rfl⟩ := mem_places.1 member
    exact root_mem_roots (place_inside declared)
  · intro first second firstRoot secondRoot equal
    rw [mem_roots] at firstRoot secondRoot
    rw [← firstRoot.2, ← secondRoot.2]
    exact same.injective firstRoot.1 secondRoot.1 equal
  · intro cls root
    exact same.successors (mem_roots.1 root).1

theorem number {cls : ClassId} (inside : cls.index < left.size) :
    (Numbering.ofStore right).number (there cls) =
      (Numbering.ofStore left).number (left.root cls) := by
  have found : (Numbering.ofStore right).order.idxOf? (there cls) =
      (Numbering.ofStore left).order.idxOf? (left.root cls) := by
    rw [same.order, ← same.there_root cls]
    apply idxOf?_map
    intro other member equal
    obtain ⟨otherInside, isRoot⟩ :=
      mem_roots.1 ((Numbering.mem_order same.inside).1 member)
    rw [same.there_root] at equal
    rw [← isRoot]
    exact same.injective otherInside inside equal
  rw [Numbering.number, Numbering.number, found]

end Resembles
end Store
end TypeRecovery
