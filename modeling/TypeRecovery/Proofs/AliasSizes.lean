import TypeRecovery.Proofs.Aliases
import TypeRecovery.Proofs.StoreCorrespondence
/-!
The size of a class, along aliases. The search for a size goes from an alias to its class and from a
union to its alternatives, and gives up after so many references. So the size of a type is the
greatest of the sizes that are found within the limit. What is found from the end of a chain of
aliases is found from its beginning as well, but later by the length of the chain. Therefore the two
have one size unless the greatest is found at the end so late that the beginning misses it.
-/
namespace TypeRecovery

instance lawfulOrderMax_uint64 : Std.LawfulOrderMax UInt64 where
  max_eq_or a b := by
    show (if a ≤ b then b else a) = a ∨ (if a ≤ b then b else a) = b
    split
    · exact Or.inr rfl
    · exact Or.inl rfl
  max_le_iff := le_max_extent

theorem exists_max?_iff {sizes : List UInt64} {least : UInt64} :
    (∃ value, sizes.max? = some value ∧ least ≤ value) ↔ ∃ value ∈ sizes, least ≤ value := by
  constructor
  · rintro ⟨value, found, above⟩
    exact ⟨value, (List.max?_eq_some_iff.1 found).1, above⟩
  · rintro ⟨value, member, above⟩
    cases found : sizes.max? with
    | none =>
      rw [List.max?_eq_none_iff.1 found] at member
      cases member
    | some greatest =>
      have bounded := (List.max?_eq_some_iff.1 found).2 value member
      exact ⟨greatest, rfl, UInt64.le_trans above bounded⟩

namespace CType

def ownSize (pointerSize : UInt8) : CType → Option UInt64
  | primitive scalar => some scalar.size.toUInt64
  | pointer _ => some pointerSize.toUInt64
  | struct size _ => some size
  | unknown | void | union _ | function .. | sameAs _ => none

def Plain (type : CType) : Prop :=
  (∀ alternatives, type ≠ union alternatives) ∧ ∀ cls, type ≠ sameAs cls

theorem plain_primitive (scalar : Primitive) : (primitive scalar).Plain := ⟨nofun, nofun⟩

theorem sizeWithin_of_plain {types : Array CType} {pointerSize : UInt8} {type : CType}
    (plain : type.Plain) (levels : Nat) :
    type.sizeWithin types pointerSize (levels + 1) = type.ownSize pointerSize := by
  cases type with
  | union alternatives => exact absurd rfl (plain.1 alternatives)
  | sameAs cls => exact absurd rfl (plain.2 cls)
  | _ => rfl

end CType

namespace Typing

variable {typing : Typing} {cls next last : ClassId} {type final inner : CType}
  {least size : UInt64} {count steps levels : Nat}

/-- A value of a type has the size of another, if that is one of its alternatives or the type of the
class that it is an alias of. -/
inductive Defers (typing : Typing) : CType → CType → Prop where
  | alternative {alternatives : List CType} {type : CType} : type ∈ alternatives →
      Defers typing (.union alternatives) type
  | target {cls : ClassId} {type : CType} : typing.typeOfClass? cls = some type →
      Defers typing (.sameAs cls) type

theorem defers_union {alternatives : List CType} :
    typing.Defers (.union alternatives) type ↔ type ∈ alternatives := by
  constructor
  · rintro (member | _)
    exact member
  · exact .alternative

theorem defers_sameAs :
    typing.Defers (.sameAs cls) type ↔ typing.typeOfClass? cls = some type := by
  constructor
  · rintro (_ | found)
    exact found
  · exact .target

theorem not_defers_of_plain (plain : type.Plain) : ¬ typing.Defers type inner := by
  rintro (_ | _)
  · exact plain.1 _ rfl
  · exact plain.2 _ rfl

/-- A size that a value of the type may have, and after how many references it is found. -/
inductive Finds (typing : Typing) : Nat → CType → UInt64 → Prop where
  | own {type : CType} {size : UInt64} : type.ownSize typing.pointerSize = some size →
      Finds typing 0 type size
  | onward {steps : Nat} {type inner : CType} {size : UInt64} : typing.Defers type inner →
      Finds typing steps inner size → Finds typing (steps + 1) type size

theorem finds_of_plain (plain : type.Plain) :
    typing.Finds steps type size ↔ steps = 0 ∧ type.ownSize typing.pointerSize = some size := by
  constructor
  · rintro (own | ⟨defers, _⟩)
    · exact ⟨rfl, own⟩
    · exact absurd defers (not_defers_of_plain plain)
  · rintro ⟨rfl, own⟩
    exact .own own

def FindsWithin (typing : Typing) (levels : Nat) (type : CType) (least : UInt64) : Prop :=
  ∃ steps < levels, ∃ size, typing.Finds steps type size ∧ least ≤ size

theorem findsWithin_succ : typing.FindsWithin (levels + 1) type least ↔
    (∃ size, type.ownSize typing.pointerSize = some size ∧ least ≤ size) ∨
      ∃ inner, typing.Defers type inner ∧ typing.FindsWithin levels inner least := by
  constructor
  · rintro ⟨steps, within, size, finds, above⟩
    cases finds with
    | own own => exact Or.inl ⟨size, own, above⟩
    | onward defers finds =>
      exact Or.inr ⟨_, defers, _, Nat.lt_of_succ_lt_succ within, size, finds, above⟩
  · rintro (⟨size, own, above⟩ | ⟨inner, defers, steps, within, size, finds, above⟩)
    · exact ⟨0, Nat.succ_pos levels, size, .own own, above⟩
    · exact ⟨steps + 1, Nat.succ_lt_succ within, size, .onward defers finds, above⟩

def types (typing : Typing) : Array CType := typing.classes.map TypedClass.type

theorem typeOfClass?_of_class? {entry : TypedClass} (found : typing.class? cls = some entry) :
    typing.typeOfClass? cls = some entry.type :=
  Option.map_eq_some_iff.2 ⟨entry, found, rfl⟩

def sizeOf? (typing : Typing) (levels : Nat) (type : CType) : Option UInt64 :=
  type.sizeWithin typing.types typing.pointerSize levels

theorem sizeOf?_union {alternatives : List CType} :
    typing.sizeOf? (levels + 1) (.union alternatives) =
      (alternatives.filterMap (typing.sizeOf? levels)).max? := rfl

theorem sizeOf?_sameAs : typing.sizeOf? (levels + 1) (.sameAs cls) =
    (typing.typeOfClass? cls).bind (typing.sizeOf? levels) := by
  obtain ⟨_ | place⟩ := cls
  · rfl
  · show typing.types[place]?.bind _ = ((typing.classes[place]?).map TypedClass.type).bind _
    rw [types, Array.getElem?_map]
    rfl

/-- The size that is taken is the greatest of those that are found. -/
theorem exists_sizeOf?_iff : (∃ value, typing.sizeOf? levels type = some value ∧ least ≤ value) ↔
    typing.FindsWithin levels type least := by
  induction levels generalizing type with
  | zero =>
    constructor
    · rintro ⟨_, none, _⟩
      cases none
    · rintro ⟨_, never, _⟩
      exact absurd never (Nat.not_lt_zero _)
  | succ levels ih =>
    rw [findsWithin_succ]
    by_cases plain : type.Plain
    · have none : ¬ ∃ inner, typing.Defers type inner ∧ typing.FindsWithin levels inner least :=
        fun ⟨_, defers, _⟩ => not_defers_of_plain plain defers
      rw [sizeOf?, CType.sizeWithin_of_plain plain, or_iff_left none]
    · cases type with
      | union alternatives =>
        simp only [sizeOf?_union, exists_max?_iff, List.mem_filterMap, CType.ownSize, defers_union,
          ← ih, reduceCtorEq, false_and, exists_false, false_or]
        constructor
        · rintro ⟨value, ⟨inner, member, found⟩, above⟩
          exact ⟨inner, member, value, found, above⟩
        · rintro ⟨inner, member, value, found, above⟩
          exact ⟨value, ⟨inner, member, found⟩, above⟩
      | sameAs cls =>
        simp only [sizeOf?_sameAs, Option.bind_eq_some_iff, CType.ownSize, defers_sameAs,
          ← ih, reduceCtorEq, false_and, exists_false, false_or]
        constructor
        · rintro ⟨value, ⟨inner, known, found⟩, above⟩
          exact ⟨inner, known, value, found, above⟩
        · rintro ⟨inner, known, value, found, above⟩
          exact ⟨value, ⟨inner, known, found⟩, above⟩
      | _ => exact absurd ⟨nofun, nofun⟩ plain

theorem sizeOf?_eq_iff {other : CType} {levels' : Nat} :
    typing.sizeOf? levels type = typing.sizeOf? levels' other ↔
      ∀ least, typing.FindsWithin levels type least ↔ typing.FindsWithin levels' other least := by
  constructor
  · intro same least
    rw [← exists_sizeOf?_iff, same, exists_sizeOf?_iff]
  · intro same
    apply eq_of_bounds (fun least value : UInt64 => least ≤ value) UInt64.le_refl
      fun above below => UInt64.le_antisymm above below
    intro least
    rw [exists_sizeOf?_iff, exists_sizeOf?_iff]
    exact same least

inductive AliasIn (typing : Typing) : Nat → ClassId → ClassId → Prop where
  | here {cls : ClassId} : AliasIn typing 0 cls cls
  | onward {count : Nat} {cls next last : ClassId} : typing.AliasOf cls next →
      AliasIn typing count next last → AliasIn typing (count + 1) cls last

theorem AliasIn.reflTransGen (leads : typing.AliasIn count cls last) :
    Relation.ReflTransGen typing.AliasOf cls last := by
  induction leads with
  | here => exact .refl
  | onward link _ ih => exact .head link ih

/-- What is found from the end of a chain is found from its beginning, so many references later. -/
theorem finds_of_aliasIn (leads : typing.AliasIn count cls last)
    (found : typing.typeOfClass? cls = some type) (ends : typing.typeOfClass? last = some final) :
    typing.Finds steps type size ↔ ∃ rest, steps = rest + count ∧ typing.Finds rest final size := by
  induction leads generalizing type steps with
  | here =>
    rw [found, Option.some.injEq] at ends
    subst ends
    constructor
    · exact fun finds => ⟨steps, rfl, finds⟩
    · rintro ⟨rest, rfl, finds⟩
      exact finds
  | onward link later ih =>
    rename_i count cls next last
    rw [AliasOf, found, Option.some.injEq] at link
    subst link
    obtain ⟨middle, known⟩ : ∃ middle, typing.typeOfClass? next = some middle := by
      cases later with
      | here => exact ⟨final, ends⟩
      | onward link _ => exact ⟨_, link⟩
    constructor
    · rintro (own | ⟨defers, finds⟩)
      · cases own
      · rw [defers_sameAs, known, Option.some.injEq] at defers
        subst defers
        obtain ⟨rest, rfl, atEnd⟩ := (ih known ends).1 finds
        exact ⟨rest, rfl, atEnd⟩
    · rintro ⟨rest, rfl, finds⟩
      exact .onward (.target known) ((ih known ends).2 ⟨rest, rfl, finds⟩)

theorem findsWithin_of_aliasIn (leads : typing.AliasIn count cls last)
    (found : typing.typeOfClass? cls = some type) (ends : typing.typeOfClass? last = some final) :
    typing.FindsWithin levels type least ↔ typing.FindsWithin (levels - count) final least := by
  constructor
  · rintro ⟨steps, within, size, finds, above⟩
    obtain ⟨rest, rfl, atEnd⟩ := (finds_of_aliasIn leads found ends).1 finds
    exact ⟨rest, Nat.lt_sub_of_add_lt within, size, atEnd, above⟩
  · rintro ⟨rest, within, size, atEnd, above⟩
    exact ⟨rest + count, Nat.add_lt_of_lt_sub within, size,
      (finds_of_aliasIn leads found ends).2 ⟨rest, rfl, atEnd⟩, above⟩

/-- A chain is as large as its end, unless what is largest there is too far from the beginning. -/
theorem sizeOf?_eq_iff_of_aliasIn (leads : typing.AliasIn count cls last)
    (found : typing.typeOfClass? cls = some type) (ends : typing.typeOfClass? last = some final) :
    typing.sizeOf? levels type = typing.sizeOf? levels final ↔
      ∀ steps < levels, ∀ size, typing.Finds steps final size →
        typing.FindsWithin (levels - count) final size := by
  rw [sizeOf?_eq_iff]
  simp only [findsWithin_of_aliasIn leads found ends]
  constructor
  · intro same steps within size finds
    exact (same size).2 ⟨steps, within, size, finds, UInt64.le_refl size⟩
  · intro early least
    constructor
    · rintro ⟨steps, within, size, finds, above⟩
      exact ⟨steps, Nat.lt_of_lt_of_le within (Nat.sub_le levels count), size, finds, above⟩
    · rintro ⟨steps, within, size, finds, above⟩
      obtain ⟨earlier, soon, other, finds', above'⟩ := early steps within size finds
      exact ⟨earlier, soon, other, finds', UInt64.le_trans above above'⟩

variable {config : Config} {store : Store} {entry target : TypedClass}

theorem size_of_class? (found : (ofStore config store).class? cls = some entry) :
    entry.size =
      (ofStore config store).sizeOf? (CType.referenceLimit + 1) entry.type := by
  have types : (ofStore config store).types = ((Numbering.ofStore store).order.map fun root =>
      (readingOf config store).type (store.constraint root)).toArray := by
    simp only [Typing.types, ofStore, List.map_toArray, List.map_map]
    rfl
  obtain ⟨_ | place⟩ := cls
  · cases found
  · simp only [class?, ofStore, List.getElem?_toArray, List.getElem?_map,
      Option.map_eq_some_iff] at found
    obtain ⟨root, _, rfl⟩ := found
    rw [sizeOf?, types]
    rfl

theorem exists_of_aliasOf (inside : store.RefersInside)
    (link : (ofStore config store).AliasOf cls next) :
    ∃ type, (ofStore config store).typeOfClass? next = some type := by
  obtain ⟨_, slot, _, slotInside, rfl⟩ := exists_slot_of_sameAs inside link
  exact ⟨_, typeOfClass?_number inside slotInside⟩

theorem exists_of_aliasIn (inside : store.RefersInside)
    (leads : (ofStore config store).AliasIn count cls last)
    (found : (ofStore config store).typeOfClass? cls = some type) :
    ∃ final, (ofStore config store).typeOfClass? last = some final := by
  induction leads generalizing type with
  | here => exact ⟨type, found⟩
  | onward link _ ih =>
    obtain ⟨middle, known⟩ := exists_of_aliasOf inside link
    exact ih known

theorem size_eq_iff_of_aliasIn (found : (ofStore config store).class? cls = some entry)
    (held : (ofStore config store).class? last = some target)
    (leads : (ofStore config store).AliasIn count cls last) : entry.size = target.size ↔
    ∀ steps ≤ CType.referenceLimit, ∀ size, (ofStore config store).Finds steps target.type size →
      ∃ earlier, earlier + count ≤ CType.referenceLimit ∧
        ∃ other, (ofStore config store).Finds earlier target.type other ∧ size ≤ other := by
  have typed := typeOfClass?_of_class? found
  have ends := typeOfClass?_of_class? held
  rw [size_of_class? found, size_of_class? held, sizeOf?_eq_iff_of_aliasIn leads typed ends]
  simp only [FindsWithin, Nat.lt_sub_iff_add_lt, Nat.lt_succ_iff]

theorem size_eq_iff_of_plain (found : (ofStore config store).class? cls = some entry)
    (held : (ofStore config store).class? last = some target)
    (leads : (ofStore config store).AliasIn count cls last) (plain : target.type.Plain) :
    entry.size = target.size ↔ count ≤ CType.referenceLimit ∨ target.size = none := by
  have own : target.size = target.type.ownSize (ofStore config store).pointerSize := by
    rw [size_of_class? held, sizeOf?, CType.sizeWithin_of_plain plain]
  rw [size_eq_iff_of_aliasIn found held leads, own]
  simp only [finds_of_plain plain]
  constructor
  · intro early
    cases known : target.type.ownSize (ofStore config store).pointerSize with
    | none => exact Or.inr rfl
    | some size =>
      obtain ⟨_, soon, _, ⟨rfl, _⟩, _⟩ := early 0 (Nat.zero_le _) size ⟨rfl, known⟩
      exact Or.inl (Nat.zero_add count ▸ soon)
  · rintro (short | none) steps _ size ⟨rfl, known⟩
    · exact ⟨0, (Nat.zero_add count).symm ▸ short, size, ⟨rfl, known⟩, UInt64.le_refl size⟩
    · rw [none] at known
      cases known

/-- A class that leads to another through so many aliases is as large as that one, just when nothing
that is found there too late for the class is larger than all that is found soon enough. -/
theorem ofStore_size_eq_iff (inside : store.RefersInside)
    (found : (ofStore config store).class? cls = some entry)
    (leads : (ofStore config store).AliasIn count cls last) :
    ∃ target, (ofStore config store).class? last = some target ∧
      ((∀ next, target.type ≠ .sameAs next) →
        (ofStore config store).expand? cls = some target.type) ∧
      (entry.size = target.size ↔ ∀ steps ≤ CType.referenceLimit, ∀ size,
        (ofStore config store).Finds steps target.type size →
          ∃ earlier, earlier + count ≤ CType.referenceLimit ∧
            ∃ other, (ofStore config store).Finds earlier target.type other ∧ size ≤ other) ∧
      (target.type.Plain →
        (entry.size = target.size ↔ count ≤ CType.referenceLimit ∨ target.size = none)) := by
  have typed := typeOfClass?_of_class? found
  obtain ⟨final, ends⟩ := exists_of_aliasIn inside leads typed
  obtain ⟨target, held, rfl⟩ := Option.map_eq_some_iff.1 ends
  refine ⟨target, held, fun last => ?_, size_eq_iff_of_aliasIn found held leads,
    size_eq_iff_of_plain found held leads⟩
  rw [expand?_of_last leads.reflTransGen (not_aliasOf_of_ne ends last), ends]

def stacked : Nat → Store
  | 0 => ((Store.withLocations 0).fresh { maxAccess := 4 }).2
  | count + 1 => ((stacked count).fresh { slots := [⟨0, 4, ⟨count⟩⟩] }).2

theorem size_stacked (count : Nat) : (stacked count).size = count + 1 := by
  induction count with
  | zero => rfl
  | succ count ih => rw [stacked, Store.size_fresh, ih]

theorem refersInside_stacked (count : Nat) : (stacked count).RefersInside := by
  induction count with
  | zero => exact Store.refersInside_made (Store.refersInside_withLocations 0) (by decide)
  | succ count ih =>
    apply Store.refersInside_made ih
    intro cls member
    rw [List.mem_singleton.1 member, size_stacked]
    exact Nat.le_succ count

def stackedClass (place : Nat) : TypedClass where
  id := ⟨place + 1⟩
  members := []
  type := match place with
    | 0 => .primitive ⟨4, none⟩
    | _ + 1 => .sameAs ⟨place⟩
  name := none
  size := if place < 65 then some 4 else none

theorem classes_stacked :
    (ofStore {} (stacked 65)).classes = ((List.range 66).map stackedClass).toArray := by
  decide +kernel

theorem class?_stacked {place : Nat} (inside : place < 66) :
    (ofStore {} (stacked 65)).class? ⟨place + 1⟩ = some (stackedClass place) := by
  show (ofStore {} (stacked 65)).classes[place]? = _
  rw [classes_stacked, List.getElem?_toArray, List.getElem?_map, List.getElem?_range inside]
  rfl

theorem typeOfClass?_stacked {place : Nat} (inside : place < 66) :
    (ofStore {} (stacked 65)).typeOfClass? ⟨place + 1⟩ = some (stackedClass place).type :=
  typeOfClass?_of_class? (class?_stacked inside)

theorem aliasIn_stacked {count : Nat} (few : count ≤ 65) :
    (ofStore {} (stacked 65)).AliasIn count ⟨count + 1⟩ ⟨1⟩ := by
  induction count with
  | zero => exact .here
  | succ count ih =>
    exact .onward (typeOfClass?_stacked (Nat.lt_succ_of_le few)) (ih (Nat.le_of_succ_le few))

theorem ofStore_size_eq_iff_stacked : ∃ entry distant target,
    (ofStore {} (stacked 65)).class? ⟨65⟩ = some entry ∧
      (ofStore {} (stacked 65)).class? ⟨66⟩ = some distant ∧
      (ofStore {} (stacked 65)).class? ⟨1⟩ = some target ∧ target.type.Plain ∧
      target.size = some 4 ∧ entry.size = target.size ∧ distant.size ≠ target.size := by
  have plain : (stackedClass 0).type.Plain := CType.plain_primitive ⟨4, none⟩
  have last := @class?_stacked 0 (by decide)
  have entry := @class?_stacked 64 (by decide)
  have distant := @class?_stacked 65 (by decide)
  obtain ⟨_, held, _, _, near⟩ :=
    ofStore_size_eq_iff (refersInside_stacked 65) entry (@aliasIn_stacked 64 (by decide))
  obtain ⟨_, held', _, _, far⟩ :=
    ofStore_size_eq_iff (refersInside_stacked 65) distant (aliasIn_stacked (Nat.le_refl 65))
  rw [last, Option.some.injEq] at held held'
  subst held held'
  refine ⟨_, _, _, entry, distant, last, plain, rfl, (near plain).2 (Or.inl (by decide)), ?_⟩
  intro same
  rcases (far plain).1 same with long | none
  · exact absurd long (by decide)
  · cases none

/-- A class may differ in size from the class that it is an alias of, and from where its aliases
end. -/
theorem size_ne_stacked : (stacked 65).RefersInside ∧ ∃ entry target last,
    (ofStore {} (stacked 65)).class? ⟨66⟩ = some entry ∧ entry.type = .sameAs ⟨65⟩ ∧
      (ofStore {} (stacked 65)).class? ⟨65⟩ = some target ∧ entry.size ≠ target.size ∧
      (ofStore {} (stacked 65)).class? ⟨1⟩ = some last ∧
      (ofStore {} (stacked 65)).expand? ⟨66⟩ = some last.type ∧ entry.size ≠ last.size := by
  have plain : (stackedClass 0).type.Plain := CType.plain_primitive ⟨4, none⟩
  have last := @typeOfClass?_stacked 0 (by decide)
  have leads := aliasIn_stacked (Nat.le_refl 65)
  have expanded := expand?_of_last leads.reflTransGen (not_aliasOf_of_ne last plain.2)
  have apart : (none : Option UInt64) ≠ some 4 := (Option.some_ne_none 4).symm
  exact ⟨refersInside_stacked 65, _, _, _, class?_stacked (by decide), rfl,
    class?_stacked (by decide), apart, class?_stacked (by decide), expanded.trans last, apart⟩

end Typing
end TypeRecovery
