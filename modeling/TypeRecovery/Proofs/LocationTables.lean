import Mathlib.Data.Finset.Card
import TypeRecovery.Transcription
/-!
The table of locations is asked in two ways: a list has the location of a handle, and an index has
the handle of a location. A declaration adds to both, and only what the index does not have yet.
So the two stay inverse to each other as far as handles reach, and what a handle stands for never
changes.
-/
namespace TypeRecovery

theorem LocId.ofIndex_of_le {index : Nat} (within : index ≤ lastHandle) :
    ofIndex index = ⟨index⟩ := by
  rw [ofIndex, Nat.min_eq_left within]

namespace LocationTable

variable {table : LocationTable} {location other : Location} {loc : LocId}

theorem ofIndex_of_inside {place : Nat} (few : table.size ≤ lastHandle)
    (inside : place < table.locations.size) : LocId.ofIndex place = ⟨place⟩ :=
  LocId.ofIndex_of_le (Nat.le_trans (Nat.le_of_lt inside) few)

theorem declare_of_known (known : table.lookup location = some loc) :
    table.declare location = (loc, table) := by
  unfold declare
  rw [known]

theorem declare_of_new (new : table.lookup location = none) :
    table.declare location = (.ofIndex table.size,
      ⟨table.locations.push location, (location, .ofIndex table.size) :: table.index⟩) := by
  unfold declare
  rw [new]

theorem lookup_declare (table : LocationTable) (location other : Location) :
    (table.declare location).2.lookup other =
      if other = location then some (table.declare location).1 else table.lookup other := by
  cases known : table.lookup location with
  | some loc =>
    rw [declare_of_known known]
    by_cases same : other = location
    · rw [if_pos same, same, known]
    · rw [if_neg same]
  | none =>
    rw [declare_of_new known]
    show List.lookup other (_ :: _) = _
    rw [List.lookup_cons]
    by_cases same : other = location
    · rw [if_pos same, beq_iff_eq.2 same]
    · rw [if_neg same, beq_false_of_ne same]
      rfl

theorem lookup_keeps (known : table.lookup other = some loc) (location : Location) :
    (table.declare location).2.lookup other = some loc := by
  rw [lookup_declare]
  by_cases same : other = location
  · rw [if_pos same, ← same, declare_of_known known]
  · rw [if_neg same, known]

theorem getElem?_push_iff {place : Nat} : (table.locations.push location)[place]? = some other ↔
    table.locations[place]? = some other ∨ place = table.size ∧ location = other := by
  rw [Array.getElem?_push]
  split
  · rename_i last
    simp [last, size]
  · rename_i within
    simp [size, within]

/-- The index has the place of each location, or the last handle where the place is beyond it. -/
structure Coherent (table : LocationTable) : Prop where
  distinct : table.locations.toList.Nodup
  leads : ∀ location loc, table.lookup location = some loc ↔
    ∃ place, table.locations[place]? = some location ∧ LocId.ofIndex place = loc

namespace Coherent

theorem mem_iff (coherent : table.Coherent) (location : Location) :
    location ∈ table.locations ↔ ∃ loc, table.lookup location = some loc := by
  rw [Array.mem_iff_getElem?]
  constructor
  · rintro ⟨place, found⟩
    exact ⟨_, (coherent.leads _ _).2 ⟨place, found, rfl⟩⟩
  · rintro ⟨loc, known⟩
    obtain ⟨place, found, _⟩ := (coherent.leads _ _).1 known
    exact ⟨place, found⟩

theorem not_mem_of_new (coherent : table.Coherent) (new : table.lookup location = none) :
    location ∉ table.locations := by
  rw [coherent.mem_iff]
  rintro ⟨loc, known⟩
  rw [new] at known
  cases known

theorem lookup_iff (coherent : table.Coherent) (few : table.size ≤ lastHandle) :
    table.lookup location = some loc ↔ table.get? loc = some location := by
  rw [coherent.leads]
  have reached {place : Nat} (found : table.locations[place]? = some location) :
      LocId.ofIndex place = ⟨place⟩ := by
    obtain ⟨inside, _⟩ := Array.getElem?_eq_some_iff.1 found
    exact ofIndex_of_inside few inside
  constructor
  · rintro ⟨place, found, rfl⟩
    rw [reached found]
    exact found
  · exact fun found => ⟨loc.index, found, reached found⟩

theorem empty : LocationTable.empty.Coherent where
  distinct := List.nodup_nil
  leads location loc := by simp [LocationTable.empty, lookup]

theorem declare (coherent : table.Coherent) (location : Location) :
    (table.declare location).2.Coherent := by
  cases known : table.lookup location with
  | some loc =>
    rw [declare_of_known known]
    exact coherent
  | none =>
    have absent := coherent.not_mem_of_new known
    constructor
    · rw [declare_of_new known, Array.toList_push, List.nodup_append]
      refine ⟨coherent.distinct, List.nodup_singleton _, ?_⟩
      intro former member last only same
      rw [List.mem_singleton.1 only] at same
      exact absent (Array.mem_def.2 (same ▸ member))
    · intro other loc
      rw [lookup_declare, declare_of_new known]
      simp only [getElem?_push_iff]
      by_cases same : other = location
      · subst same
        rw [if_pos rfl, Option.some.injEq]
        constructor
        · exact fun handed => ⟨table.size, Or.inr ⟨rfl, rfl⟩, handed⟩
        · rintro ⟨place, old | ⟨rfl, _⟩, handed⟩
          · exact absurd (Array.mem_of_getElem? old) absent
          · exact handed
      · rw [if_neg same, coherent.leads]
        simp [Ne.symm same]

end Coherent

theorem ofList_concat (before : List Location) (location : Location) :
    ofList (before ++ [location]) = ((ofList before).declare location).2 := by
  rw [ofList, List.foldl_append]
  rfl

theorem coherent_ofList (locations : List Location) : (ofList locations).Coherent := by
  induction locations using List.reverseRecOn with
  | nil => exact .empty
  | append_singleton before location ih =>
    rw [ofList_concat]
    exact ih.declare location

theorem lookup_ofList_append {before : List Location}
    (known : (ofList before).lookup location = some loc) (later : List Location) :
    (ofList (before ++ later)).lookup location = some loc := by
  induction later using List.reverseRecOn with
  | nil => rwa [List.append_nil]
  | append_singleton later next ih =>
    rw [← List.append_assoc, ofList_concat]
    exact lookup_keeps ih next

theorem lookup_handed (before : List Location) (location : Location) (later : List Location) :
    (ofList (before ++ location :: later)).lookup location =
      some ((ofList before).declare location).1 := by
  have handed : (ofList (before ++ [location])).lookup location =
      some ((ofList before).declare location).1 := by
    rw [ofList_concat, lookup_declare, if_pos rfl]
  rw [List.append_cons]
  exact lookup_ofList_append handed later

theorem known_iff (locations : List Location) (location : Location) :
    (∃ loc, (ofList locations).lookup location = some loc) ↔ location ∈ locations := by
  constructor
  · rintro ⟨loc, known⟩
    induction locations using List.reverseRecOn with
    | nil => cases known
    | append_singleton before last ih =>
      rw [ofList_concat, lookup_declare] at known
      by_cases same : location = last
      · exact List.mem_append_right _ (List.mem_singleton.2 same)
      · rw [if_neg same] at known
        exact List.mem_append_left _ (ih known)
  · intro member
    obtain ⟨before, later, rfl⟩ := List.append_of_mem member
    exact ⟨_, lookup_handed before location later⟩

theorem size_ofList (locations : List Location) :
    (ofList locations).size = locations.toFinset.card := by
  have coherent := coherent_ofList locations
  have same : (ofList locations).locations.toList.toFinset = locations.toFinset := by
    ext location
    rw [List.mem_toFinset, List.mem_toFinset, ← Array.mem_def, coherent.mem_iff, known_iff]
  calc (ofList locations).size
      = (ofList locations).locations.toList.length := rfl
    _ = (ofList locations).locations.toList.toFinset.card :=
        (List.toFinset_card_of_nodup coherent.distinct).symm
    _ = locations.toFinset.card := by rw [same]

theorem handed_of_new {before : List Location} (new : location ∉ before)
    (few : before.toFinset.card ≤ lastHandle) :
    ((ofList before).declare location).1 = ⟨before.toFinset.card⟩ := by
  have unknown : (ofList before).lookup location = none := by
    rw [Option.eq_none_iff_forall_ne_some]
    exact fun loc known => new ((known_iff before location).1 ⟨loc, known⟩)
  rw [declare_of_new unknown, size_ofList, LocId.ofIndex_of_le few]

theorem exists_get?_iff (table : LocationTable) (loc : LocId) :
    (∃ location, table.get? loc = some location) ↔ loc.index < table.size := by
  rw [← Option.isSome_iff_exists, get?, size, isSome_getElem?]

theorem toList_eq (few : table.size ≤ lastHandle) :
    (table.toList.map fun entry => (entry.1, some entry.2)) =
      (List.range table.size).map fun place => (⟨place⟩, table.get? ⟨place⟩) := by
  have length : table.toList.length = table.size := by simp [toList, size]
  apply List.ext_getElem
  · rw [List.length_map, List.length_map, List.length_range, length]
  · intro place listed _
    have inside : place < table.locations.size := by rwa [List.length_map, length] at listed
    have found : table.get? ⟨place⟩ = some table.locations[place] := getElem?_pos ..
    simp [toList, ofIndex_of_inside few inside, found]

/-- A table has the locations that were declared, with the handles that it gave out for them. -/
structure Tabulates (locations : List Location) (table : LocationTable) : Prop where
  inverse : ∀ location loc, table.lookup location = some loc ↔ table.get? loc = some location
  apart : ∀ a b loc, table.lookup a = some loc → table.lookup b = some loc → a = b
  declared : ∀ location, (∃ loc, table.lookup location = some loc) ↔ location ∈ locations
  dense : ∀ loc, (∃ location, table.lookup location = some loc) ↔ loc.index < table.size
  /-- The handle of a new location is the number of distinct ones before it. -/
  numbered : ∀ before location later, locations = before ++ location :: later →
    location ∉ before → ((ofList before).declare location).1 = ⟨before.toFinset.card⟩
  /-- What a call gave, for a new location or not, stands for its location after all calls. -/
  stable : ∀ before location later, locations = before ++ location :: later →
    table.get? ((ofList before).declare location).1 = some location
  size : table.size = locations.toFinset.card
  contains : ∀ loc, table.contains loc = true ↔ loc.index < table.size
  listed : (table.toList.map fun entry => (entry.1, some entry.2)) =
    (List.range table.size).map fun place => (⟨place⟩, table.get? ⟨place⟩)

/-- After any declarations of fewer distinct locations than there are handles, the table pairs each
of them with one handle below their number, the handle that was given when it was first declared. -/
theorem ofList_tabulates {locations : List Location}
    (few : locations.toFinset.card < lastHandle) : (ofList locations).Tabulates locations := by
  have size := size_ofList locations
  have within : (ofList locations).size ≤ lastHandle := size ▸ Nat.le_of_lt few
  have inverse : ∀ location loc, (ofList locations).lookup location = some loc ↔
      (ofList locations).get? loc = some location :=
    fun location loc => (coherent_ofList locations).lookup_iff within
  constructor
  case inverse => exact inverse
  case apart =>
    intro a b loc first second
    rw [inverse] at first second
    exact Option.some.inj (first.symm.trans second)
  case declared => exact known_iff locations
  case dense =>
    intro loc
    simp only [inverse]
    exact exists_get?_iff _ loc
  case numbered =>
    rintro before location later rfl new
    have fewer : before.toFinset.card ≤ (before ++ location :: later).toFinset.card := by
      apply Finset.card_le_card
      rw [List.toFinset_append]
      exact Finset.subset_union_left
    exact handed_of_new new (Nat.le_trans fewer (Nat.le_of_lt few))
  case stable =>
    rintro before location later rfl
    exact (inverse _ _).1 (lookup_handed before location later)
  case size => exact size
  case contains => exact fun loc => decide_eq_true_iff
  case listed => exact toList_eq within

def redeclared : List Location := [.register "eax", .constant 0 4198400, .register "eax",
  .constant 0 4198416, .stack (-8), .constant 0 4198400]

theorem ofList_tabulates_redeclared : redeclared.toFinset.card < lastHandle ∧
    (ofList redeclared).size = 4 ∧
    (ofList redeclared).lookup (.constant 0 4198416) = some ⟨2⟩ ∧
    (ofList redeclared).Tabulates redeclared := by
  have few : redeclared.toFinset.card < lastHandle := by decide
  exact ⟨few, by decide, by decide, ofList_tabulates few⟩

end LocationTable
end TypeRecovery
