import TypeRecovery.Proofs.DerivedClasses
/-!
Hints as declarations. A hint is realized as a constraint that is not of any class yet, or as the
class of a typedef. What it is realized as holds at a label exactly when the hint is declared of it,
up to the labels of the classes that are made for its parts.

A typedef was declared with its definition when it was bound, so a later use with the same
definition has nothing to add. This is not true yet while the definition is being realized, but such
a definition is larger than any hint in it, and so it is not met again.
-/
namespace TypeRecovery

section

variable {Label : Type} {label : ClassId → Label}

namespace Constraint

variable {model : Model Label} {here : Label}

theorem fits_pointer {size : Nat} {width : UInt8} {target : ClassId}
    (inside : target.index < size) :
    ({ declaredKind := some .pointer, declaredWidth := some width,
       pointee := some target } : Constraint).Fits size := by
  refine ⟨⟨fun {role other} refers => ?_, List.Pairwise.nil⟩, rfl⟩
  cases role <;> simp [Refers] at refers
  exact refers ▸ inside

theorem holds_pointer {width : UInt8} {target : ClassId} :
    ({ declaredKind := some .pointer, declaredWidth := some width,
       pointee := some target } : Constraint).Holds label model here ↔
      model.Shows here { declaredKind := some .pointer, declaredWidth := some width } ∧
        model.refers here .pointee (label target) := by
  constructor
  · intro holds
    exact ⟨fun trait has => holds.has trait (by cases trait <;> exact has),
      holds.refers .pointee target rfl⟩
  · rintro ⟨shows', refers⟩
    refine ⟨fun trait has => shows' trait (by cases trait <;> exact has), fun role other held => ?_⟩
    cases role <;> simp [Refers] at held
    exact held ▸ refers

theorem fits_function {size : Nat} {formals : List ClassId} {result : ClassId}
    (formalsInside : ∀ cls ∈ formals, cls.index < size) (inside : result.index < size) :
    ({ declaredKind := some .function,
       signature := some ⟨some formals, result⟩ } : Constraint).Fits size := by
  refine ⟨⟨fun {role other} refers => ?_, List.Pairwise.nil⟩, rfl⟩
  cases role with
  | result =>
    simp [Refers, Signature.Refers] at refers
    exact refers ▸ inside
  | param place =>
    simp [Refers, Signature.Refers] at refers
    exact formalsInside other (List.mem_of_getElem? refers)
  | _ => simp [Refers] at refers

theorem holds_function {formals : List ClassId} {result : ClassId} :
    ({ declaredKind := some .function,
       signature := some ⟨some formals, result⟩ } : Constraint).Holds label model here ↔
      model.Shows here { declaredKind := some .function } ∧
        (∀ count ≤ formals.length, model.has here (.arity count)) ∧
        (∀ place target, (formals.map label)[place]? = some target →
          model.refers here (.param place) target) ∧
        model.refers here .result (label result) := by
  constructor
  · intro holds
    refine ⟨fun trait has => holds.has trait ?_, fun count least => holds.has _ ⟨_, rfl, least⟩,
      fun place target found => ?_, holds.refers .result result ⟨_, rfl, rfl⟩⟩
    · cases trait with
      | arity count => simp [Has, arity] at has
      | _ => exact has
    · rw [List.getElem?_map, Option.map_eq_some_iff] at found
      obtain ⟨cls, found, rfl⟩ := found
      exact holds.refers (.param place) cls ⟨_, rfl, found⟩
  · rintro ⟨shows', arity, takes, returns⟩
    refine ⟨fun trait has => ?_, fun role cls refers => ?_⟩
    · by_cases counted : ∃ count, trait = .arity count
      · obtain ⟨count, rfl⟩ := counted
        obtain ⟨_, known, least⟩ := has
        cases known
        exact arity count least
      · apply shows'
        cases trait with
        | arity count => exact absurd ⟨count, rfl⟩ counted
        | _ => exact has
    · cases role with
      | result =>
        simp [Refers, Signature.Refers] at refers
        exact refers ▸ returns
      | param place =>
        simp [Refers, Signature.Refers] at refers
        exact takes place _ (by rw [List.getElem?_map, refers, Option.map_some])
      | _ => simp [Refers] at refers

end Constraint

namespace Seeding

variable {scene : Scene Label} {seeding : Seeding} {cls : ClassId}

/-- What was realized is right about a label. -/
def Realized.At (label : ClassId → Label) (model : Model Label) (here : Label) : Realized → Prop
  | .constraint part => part.Holds label model here
  | .typedef cls => label cls = here

def Realized.Fits (size : Nat) : Realized → Prop
  | .constraint part => part.Fits size
  | .typedef cls => cls.index < size

theorem settle_extends (wellFormed : seeding.WellFormed) {realized : Realized}
    (fits : realized.Fits seeding.store.size) :
    Extends seeding (seeding.settle realized).2 ∧
      (seeding.settle realized).1.index < (seeding.settle realized).2.store.size := by
  cases realized with
  | constraint constraint => exact ⟨fresh_extends wellFormed fits, fresh_inside ..⟩
  | typedef cls => exact ⟨Extends.refl wellFormed, fits⟩

theorem at_of_settle {realized : Realized} (holds : (seeding.settle realized).2.Holds label scene) :
    realized.At label scene.toModel (label (seeding.settle realized).1) := by
  cases realized with
  | constraint constraint => exact (holds_fresh.1 holds).2
  | typedef cls => exact rfl

theorem exists_settle (wellFormed : seeding.WellFormed) {realized : Realized}
    (fits : realized.Fits seeding.store.size) (holds : seeding.Holds label scene) {here : Label}
    (at' : realized.At label scene.toModel here) :
    ∃ other, Continues seeding.store.size label other ∧
      other (seeding.settle realized).1 = here ∧ (seeding.settle realized).2.Holds other scene := by
  cases realized with
  | constraint constraint => exact exists_fresh wellFormed fits holds at'
  | typedef cls => exact ⟨label, Continues.refl _ _, at', holds⟩

theorem declareRealized_extends (wellFormed : seeding.WellFormed)
    (inside : cls.index < seeding.store.size) {realized : Realized}
    (fits : realized.Fits seeding.store.size) :
    Extends seeding (seeding.declareRealized cls realized) := by
  cases realized with
  | constraint constraint => exact refineWith_extends wellFormed inside fits
  | typedef named =>
    apply equate_extends wellFormed
    simpa using ⟨inside, fits⟩

theorem at_of_declareRealized (inside : cls.index < seeding.store.size) {realized : Realized}
    (holds : (seeding.declareRealized cls realized).Holds label scene) :
    seeding.Holds label scene ∧ realized.At label scene.toModel (label cls) := by
  cases realized with
  | constraint constraint => exact holds_of_refineWith inside holds
  | typedef named =>
    have both := holds_equate.1 holds
    exact ⟨both.1, (both.2 _ List.mem_cons_self).symm⟩

theorem holds_declareRealized (unique : scene.Unique) (inside : cls.index < seeding.store.size)
    {realized : Realized} (holds : seeding.Holds label scene)
    (at' : realized.At label scene.toModel (label cls)) :
    (seeding.declareRealized cls realized).Holds label scene := by
  cases realized with
  | constraint constraint => exact holds_refineWith unique inside holds at'
  | typedef named =>
    apply holds_equate.2
    exact ⟨holds, by simpa [Agree] using Eq.symm at'⟩

/-- A class for the name, bound to it. -/
def intern (seeding : Seeding) (name : String) (definition : Hint) : Seeding :=
  (seeding.fresh { declaredName := some name }).2.bind name ⟨seeding.store.size⟩ definition

theorem fits_name (size : Nat) (name : String) :
    ({ declaredName := some name } : Constraint).Fits size :=
  Constraint.fits_of_not_refers _ (Constraint.not_refers_of_none rfl rfl rfl) rfl rfl

theorem holds_name {name : String} {here : Label} :
    ({ declaredName := some name } : Constraint).Holds label
    scene.toModel here ↔ scene.Shows here { declaredName := some name } := by
  refine Constraint.holds_iff.trans ⟨And.left, fun shows' => ⟨shows', fun role cls refers => ?_⟩⟩
  exact absurd refers (Constraint.not_refers_of_none rfl rfl rfl role cls)

section intern

variable {name : String} {definition : Hint} (free : seeding.store.typedef? name = none)
include free

theorem free_fresh : (seeding.fresh { declaredName := some name }).2.store.typedef? name = none :=
  (Store.typedef?_fresh seeding.store _ name).trans free

theorem intern_extends (wellFormed : seeding.WellFormed) :
    Extends seeding (seeding.intern name definition) ∧
      seeding.store.size < (seeding.intern name definition).store.size := by
  have made := fresh_extends wellFormed (fits_name _ name)
  have inside := seeding.fresh_inside { declaredName := some name }
  have bound := @bind_extends _ _ _ definition made.wellFormed inside (free_fresh free)
  exact ⟨made.trans bound, Nat.lt_of_lt_of_le inside bound.size⟩

theorem holds_intern : (seeding.intern name definition).Holds label scene ↔
    seeding.Holds label scene ∧ scene.Shows (scene.named name) { declaredName := some name } ∧
      label ⟨seeding.store.size⟩ = scene.named name := by
  rw [intern, holds_bind (free_fresh free), holds_fresh, and_assoc, holds_name]
  constructor
  · rintro ⟨holds, shows', new⟩
    exact ⟨holds, new ▸ shows', new⟩
  · rintro ⟨holds, shows', new⟩
    exact ⟨holds, new ▸ shows', new⟩

theorem exists_intern (wellFormed : seeding.WellFormed) (holds : seeding.Holds label scene)
    (named : scene.Shows (scene.named name) { declaredName := some name }) :
    ∃ other, Continues seeding.store.size label other ∧
      other ⟨seeding.store.size⟩ = scene.named name ∧
      (seeding.intern name definition).Holds other scene := by
  obtain ⟨other, continues, new, made⟩ :=
    exists_fresh wellFormed (fits_name _ name) holds (holds_name.2 named)
  exact ⟨other, continues, new, (holds_bind (free_fresh free)).2 ⟨made, new⟩⟩

theorem typedef?_intern {other : String} {entry : ClassId × Hint}
    (found : (seeding.intern name definition).store.typedef? other = some entry) :
    seeding.store.typedef? other = some entry ∨ name = other ∧ entry.2 = definition := by
  rw [intern, typedef?_bind (free_fresh free)] at found
  split at found
  · rename_i same
    cases found
    exact Or.inr ⟨same, rfl⟩
  · exact Or.inl ((Store.typedef?_fresh seeding.store _ other).symm.trans found)

end intern

mutual
theorem realize_extends (pointerSize : UInt8) (hint : Hint) {seeding : Seeding}
    (wellFormed : seeding.WellFormed) :
    Extends seeding (realize pointerSize hint seeding).2 ∧
      (realize pointerSize hint seeding).1.Fits
        (realize pointerSize hint seeding).2.store.size := by
  match hint with
  | .void =>
    exact ⟨Extends.refl wellFormed,
      Constraint.fits_of_not_refers _ (Constraint.not_refers_of_none rfl rfl rfl) rfl rfl⟩
  | .int size signedness =>
    exact ⟨Extends.refl wellFormed,
      Constraint.fits_of_not_refers _ (Constraint.not_refers_of_none rfl rfl rfl) rfl rfl⟩
  | .pointer inner =>
    obtain ⟨realized, fits⟩ := realize_extends pointerSize inner wellFormed
    obtain ⟨settled, inside⟩ := settle_extends realized.wellFormed fits
    have before := realized.trans settled
    simp only [realize]
    cases inner.size pointerSize with
    | some size =>
      have made := fresh_extends settled.wellFormed (@Constraint.fits_slot _ ⟨0, size, _⟩ inside)
      exact ⟨before.trans made, Constraint.fits_pointer (fresh_inside ..)⟩
    | none => exact ⟨before, Constraint.fits_pointer inside⟩
  | .function name params ret =>
    obtain ⟨formals, paramsInside⟩ := settleAll_extends pointerSize params wellFormed
    obtain ⟨realized, fits⟩ := realize_extends pointerSize ret formals.wellFormed
    obtain ⟨settled, inside⟩ := settle_extends realized.wellFormed fits
    have later := realized.trans settled
    simp only [realize]
    refine ⟨formals.trans later, Constraint.fits_function (fun cls member => ?_) inside⟩
    exact Nat.lt_of_lt_of_le (paramsInside cls member) later.size
  | .named name definition =>
    simp only [realize]
    cases found : seeding.store.typedef? name with
    | some entry =>
      have inside := wellFormed.typedefs found
      by_cases same : entry.2 = definition
      · simp only [same, if_true]
        exact ⟨Extends.refl wellFormed, inside⟩
      · simp only [same, if_false]
        obtain ⟨realized, fits⟩ := realize_extends pointerSize definition wellFormed
        have inside' := Nat.lt_of_lt_of_le inside realized.size
        have declared := declareRealized_extends realized.wellFormed inside' fits
        exact ⟨realized.trans declared, Nat.lt_of_lt_of_le inside' declared.size⟩
    | none =>
      -- The name has a class before the definition is realized, and the definition keeps it.
      obtain ⟨interned, new⟩ := @intern_extends _ _ definition found wellFormed
      obtain ⟨realized, fits⟩ := realize_extends pointerSize definition interned.wellFormed
      have inside := Nat.lt_of_lt_of_le new realized.size
      have declared :=
        @declareRealized_extends _ ⟨seeding.store.size⟩ realized.wellFormed inside _ fits
      exact ⟨interned.trans (realized.trans declared), Nat.lt_of_lt_of_le inside declared.size⟩

theorem settleAll_extends (pointerSize : UInt8) (hints : List Hint) {seeding : Seeding}
    (wellFormed : seeding.WellFormed) :
    Extends seeding (settleAll pointerSize hints seeding).2 ∧
      ∀ cls ∈ (settleAll pointerSize hints seeding).1,
        cls.index < (settleAll pointerSize hints seeding).2.store.size := by
  match hints with
  | [] => exact ⟨Extends.refl wellFormed, List.forall_mem_nil _⟩
  | hint :: rest =>
    obtain ⟨realized, fits⟩ := realize_extends pointerSize hint wellFormed
    obtain ⟨settled, inside⟩ := settle_extends realized.wellFormed fits
    obtain ⟨others, restInside⟩ := settleAll_extends pointerSize rest settled.wellFormed
    refine ⟨(realized.trans settled).trans others, List.forall_mem_cons.2 ⟨?_, restInside⟩⟩
    exact Nat.lt_of_lt_of_le inside others.size
end

def classFor (pointerSize : UInt8) (hint : Hint) (seeding : Seeding) : ClassId × Seeding :=
  (realize pointerSize hint seeding).2.settle (realize pointerSize hint seeding).1

theorem classFor_extends (pointerSize : UInt8) (hint : Hint) (wellFormed : seeding.WellFormed) :
    Extends seeding (classFor pointerSize hint seeding).2 ∧
      (classFor pointerSize hint seeding).1.index <
        (classFor pointerSize hint seeding).2.store.size := by
  obtain ⟨realized, fits⟩ := realize_extends pointerSize hint wellFormed
  obtain ⟨settled, inside⟩ := settle_extends realized.wellFormed fits
  exact ⟨realized.trans settled, inside⟩

end Seeding

end

namespace Seeding

variable {Label : Type} {label : ClassId → Label} {scene : Scene Label} {seeding : Seeding}

def Binds (known : String → Hint → Prop) (before after : Seeding) : Prop :=
  ∀ name entry, after.store.typedef? name = some entry →
    before.store.typedef? name = some entry ∨ known name entry.2

section binds

variable {known : String → Hint → Prop} {after : Seeding}

theorem Binds.trans {middle : Seeding} (first : Binds known seeding middle)
    (second : Binds known middle after) : Binds known seeding after := by
  intro name entry found
  rcases second name entry found with old | new
  · exact first name entry old
  · exact Or.inr new

theorem binds_of_same
    (same : ∀ name, after.store.typedef? name = seeding.store.typedef? name) :
    Binds known seeding after :=
  fun name _ found => Or.inl ((same name).symm.trans found)

theorem typedef?_settle (realized : Realized) (name : String) :
    (seeding.settle realized).2.store.typedef? name = seeding.store.typedef? name := by
  cases realized with
  | constraint constraint => exact Store.typedef?_fresh ..
  | typedef cls => rfl

theorem typedef?_declareRealized (cls : ClassId) (realized : Realized) (name : String) :
    (seeding.declareRealized cls realized).store.typedef? name = seeding.store.typedef? name := by
  cases realized with
  | constraint constraint => exact (Store.refine_same seeding.store cls constraint).typedef? name
  | typedef cls => rfl

theorem binds_intern {name : String} {definition : Hint}
    (free : seeding.store.typedef? name = none)
    (binds : Binds known (seeding.intern name definition) after)
    (defined : known name definition) : Binds known seeding after := by
  intro other entry found
  rcases binds _ _ found with old | new
  · rcases typedef?_intern free old with older | ⟨rfl, same⟩
    · exact Or.inl older
    · exact Or.inr (same ▸ defined)
  · exact Or.inr new

end binds

section declared

variable {pointerSize : UInt8} {lost : List String}

/-- Typedefs are as good as their definitions, those with definitions of that size or more aside. -/
def Settled (scene : Scene Label) (pointerSize : UInt8) (lost : List String) (bound : Nat)
    (seeding : Seeding) : Prop :=
  ∀ name entry, seeding.store.typedef? name = some entry → name ∉ lost →
    scene.Shows (scene.named name) { declaredName := some name } ∧
      (sizeOf entry.2 < bound → scene.Declared pointerSize lost entry.2 (scene.named name))

def Settles (scene : Scene Label) (pointerSize : UInt8) (lost : List String)
    (before after : Seeding) : Prop :=
  Binds (scene.Defined pointerSize lost) before after

theorem Settled.lower {bound less : Nat} (settled : Settled scene pointerSize lost bound seeding)
    (lower : less ≤ bound) : Settled scene pointerSize lost less seeding :=
  fun name entry found kept => (settled name entry found kept).imp_right fun declared small =>
    declared (Nat.lt_of_lt_of_le small lower)

theorem Settled.after {bound : Nat} {after : Seeding}
    (settled : Settled scene pointerSize lost bound seeding)
    (settles : Settles scene pointerSize lost seeding after) :
    Settled scene pointerSize lost bound after := by
  intro name entry found
  rcases settles name entry found with old | new
  · exact settled name entry old
  · exact fun kept => (new kept).imp_right fun declared _ => declared

/-- Wherever the seeding that a hint leaves holds, the hint is declared of what it was realized as.
-/
def Declares (scene : Scene Label) (pointerSize : UInt8) (lost : List String) (hint : Hint) :
    Prop :=
  ∀ ⦃label : ClassId → Label⦄ ⦃seeding : Seeding⦄, seeding.WellFormed →
    Settled scene pointerSize lost (sizeOf hint) seeding →
    (realize pointerSize hint seeding).2.Holds label scene →
    (∀ here, (realize pointerSize hint seeding).1.At label scene.toModel here →
      scene.Declared pointerSize lost hint here) ∧
      Settles scene pointerSize lost seeding (realize pointerSize hint seeding).2

def DeclaresAll (scene : Scene Label) (pointerSize : UInt8) (lost : List String)
    (hints : List Hint) : Prop :=
  ∀ ⦃label : ClassId → Label⦄ ⦃seeding : Seeding⦄, seeding.WellFormed →
    Settled scene pointerSize lost (sizeOf hints) seeding →
    (settleAll pointerSize hints seeding).2.Holds label scene →
    scene.DeclaredAll pointerSize lost hints ((settleAll pointerSize hints seeding).1.map label) ∧
      Settles scene pointerSize lost seeding (settleAll pointerSize hints seeding).2

theorem Declares.classFor {hint : Hint} (declares : Declares scene pointerSize lost hint)
    (wellFormed : seeding.WellFormed)
    (settled : Settled scene pointerSize lost (sizeOf hint) seeding)
    (holds : (classFor pointerSize hint seeding).2.Holds label scene) :
    scene.Declared pointerSize lost hint (label (classFor pointerSize hint seeding).1) ∧
      Settles scene pointerSize lost seeding (classFor pointerSize hint seeding).2 := by
  obtain ⟨realized, fits⟩ := realize_extends pointerSize hint wellFormed
  have before := (settle_extends realized.wellFormed fits).1.holds_of holds
  obtain ⟨declared, settles⟩ := declares wellFormed settled before
  exact ⟨declared _ (at_of_settle holds), settles.trans (binds_of_same (typedef?_settle _))⟩

theorem declares_void : Declares scene pointerSize lost .void := by
  intro label seeding wellFormed settled holds
  simp only [Scene.Declared]
  exact ⟨fun here at' => at'.has, binds_of_same fun _ => rfl⟩

theorem declares_int (size : UInt8) (signedness : Option Signedness) :
    Declares scene pointerSize lost (.int size signedness) := by
  intro label seeding wellFormed settled holds
  simp only [Scene.Declared]
  exact ⟨fun here at' => at'.has, binds_of_same fun _ => rfl⟩

theorem declares_pointer {inner : Hint} (declares : Declares scene pointerSize lost inner) :
    Declares scene pointerSize lost (.pointer inner) := by
  intro label seeding wellFormed settled holds
  have settled := settled.lower (show sizeOf inner ≤ sizeOf (Hint.pointer inner) by simp)
  simp only [realize, Scene.Declared] at holds ⊢
  cases size : inner.size pointerSize with
  | some bytes =>
    simp only [size] at holds ⊢
    obtain ⟨before, value⟩ := holds_fresh.1 holds
    obtain ⟨declared, settles⟩ := declares.classFor wellFormed settled before
    refine ⟨fun here at' => ?_, settles.trans (binds_of_same (Store.typedef?_fresh _ _))⟩
    obtain ⟨shows', refers⟩ := Constraint.holds_pointer.1 at'
    exact ⟨shows', _, refers, _, Constraint.holds_slot.1 value, declared⟩
  | none =>
    simp only [size] at holds ⊢
    obtain ⟨declared, settles⟩ := declares.classFor wellFormed settled holds
    refine ⟨fun here at' => ?_, settles⟩
    obtain ⟨shows', refers⟩ := Constraint.holds_pointer.1 at'
    exact ⟨shows', _, refers, declared⟩

theorem declares_function (name : Option String) {params : List Hint} {ret : Hint}
    (declaresParams : DeclaresAll scene pointerSize lost params)
    (declaresRet : Declares scene pointerSize lost ret) :
    Declares scene pointerSize lost (.function name params ret) := by
  intro label seeding wellFormed settled holds
  have smaller : sizeOf params ≤ sizeOf (Hint.function name params ret) ∧
      sizeOf ret ≤ sizeOf (Hint.function name params ret) := by
    constructor
    · simp
      omega
    · simp
  have formals := (settleAll_extends pointerSize params wellFormed).1
  simp only [realize, Scene.Declared] at holds ⊢
  have before := (classFor_extends pointerSize ret formals.wellFormed).1.holds_of holds
  obtain ⟨all, paramsSettle⟩ := declaresParams wellFormed (settled.lower smaller.1) before
  obtain ⟨declared, settles⟩ := declaresRet.classFor formals.wellFormed
    ((settled.after paramsSettle).lower smaller.2) holds
  refine ⟨fun here at' => ?_, paramsSettle.trans settles⟩
  obtain ⟨shows', arity, takes, returns⟩ := Constraint.holds_function.1 at'
  have length := Scene.length_of_declaredAll all
  rw [List.length_map] at length
  exact ⟨shows', length ▸ arity, ⟨_, all, takes⟩, _, returns, declared⟩

theorem settled_intern {name : String} {definition : Hint} {bound : Nat}
    (free : seeding.store.typedef? name = none)
    (settled : Settled scene pointerSize lost bound seeding)
    (small : sizeOf definition ≤ bound)
    (named : scene.Shows (scene.named name) { declaredName := some name }) :
    Settled scene pointerSize lost (sizeOf definition) (seeding.intern name definition) := by
  -- The definition that is being realized is not declared yet, but it is too large to be asked for.
  intro other entry found
  rcases typedef?_intern free found with old | ⟨rfl, same⟩
  · exact settled.lower small _ _ old
  · exact fun _ => ⟨named, fun smaller => absurd smaller (by rw [same]; exact Nat.lt_irrefl _)⟩

theorem declares_named (name : String) {definition : Hint}
    (declares : Declares scene pointerSize lost definition) :
    Declares scene pointerSize lost (.named name definition) := by
  intro label seeding wellFormed settled holds
  have smaller : sizeOf definition < sizeOf (Hint.named name definition) := by
    simp only [Hint.named.sizeOf_spec]
    omega
  simp only [realize, Scene.Declared] at holds ⊢
  cases found : seeding.store.typedef? name with
  | some entry =>
    by_cases same : entry.2 = definition
    · simp only [found, same, if_true] at holds ⊢
      refine ⟨fun here at' => ?_, binds_of_same fun _ => rfl⟩
      have there : here = scene.named name := at'.symm.trans (holds.named found)
      subst there
      refine ⟨rfl, fun kept => ?_⟩
      obtain ⟨named, declared⟩ := settled _ _ found kept
      exact ⟨named, same ▸ declared (same ▸ smaller)⟩
    · simp only [found, same, if_false] at holds ⊢
      have realized := (realize_extends pointerSize definition wellFormed).1
      have inside := Nat.lt_of_lt_of_le (wellFormed.typedefs found) realized.size
      obtain ⟨before, at'⟩ := at_of_declareRealized inside holds
      have entryLabel : label entry.1 = scene.named name :=
        (realized.holds_of before).named found
      obtain ⟨declared, settles⟩ :=
        declares wellFormed (settled.lower (Nat.le_of_lt smaller)) before
      refine ⟨fun here here' => ?_, settles.trans (binds_of_same (typedef?_declareRealized _ _))⟩
      have there : here = scene.named name := here'.symm.trans entryLabel
      subst there
      exact ⟨rfl, fun kept => ⟨(settled _ _ found kept).1, declared _ (entryLabel ▸ at')⟩⟩
  | none =>
    simp only [found] at holds ⊢
    obtain ⟨interned, new⟩ := @intern_extends _ _ definition found wellFormed
    have realized := (realize_extends pointerSize definition interned.wellFormed).1
    have inside := Nat.lt_of_lt_of_le new realized.size
    obtain ⟨before, at'⟩ := @at_of_declareRealized _ _ _ _ ⟨seeding.store.size⟩ inside _ holds
    obtain ⟨_, named, newLabel⟩ := (holds_intern found).1 (realized.holds_of before)
    obtain ⟨declared, settles⟩ := declares interned.wellFormed
      (settled_intern found settled (Nat.le_of_lt smaller) named) before
    have defined : scene.Defined pointerSize lost name definition :=
      fun _ => ⟨named, declared _ (newLabel ▸ at')⟩
    refine ⟨fun here here' => ?_,
      binds_intern found (settles.trans (binds_of_same (typedef?_declareRealized _ _))) defined⟩
    have there : here = scene.named name := here'.symm.trans newLabel
    subst there
    exact ⟨rfl, defined⟩

theorem declaresAll_nil : DeclaresAll scene pointerSize lost [] := by
  intro label seeding wellFormed settled holds
  exact ⟨by simp [settleAll, Scene.DeclaredAll], binds_of_same fun _ => rfl⟩

theorem declaresAll_cons {hint : Hint} {rest : List Hint}
    (declares : Declares scene pointerSize lost hint)
    (declaresRest : DeclaresAll scene pointerSize lost rest) :
    DeclaresAll scene pointerSize lost (hint :: rest) := by
  intro label seeding wellFormed settled holds
  have smaller : sizeOf hint ≤ sizeOf (hint :: rest) ∧ sizeOf rest ≤ sizeOf (hint :: rest) := by
    constructor
    · simp
      omega
    · simp
  have first := (classFor_extends pointerSize hint wellFormed).1
  simp only [settleAll, Scene.DeclaredAll] at holds ⊢
  have before := (settleAll_extends pointerSize rest first.wellFormed).1.holds_of holds
  obtain ⟨declared, settles⟩ := declares.classFor wellFormed (settled.lower smaller.1) before
  obtain ⟨all, restSettle⟩ := declaresRest first.wellFormed
    ((settled.after settles).lower smaller.2) holds
  exact ⟨⟨_, _, rfl, declared, all⟩, settles.trans restSettle⟩

mutual
theorem declared_of_realize (hint : Hint) : Declares scene pointerSize lost hint := by
  match hint with
  | .void => exact declares_void
  | .int size signedness => exact declares_int size signedness
  | .pointer inner => exact declares_pointer (declared_of_realize inner)
  | .function name params ret =>
    exact declares_function name (declared_of_settleAll params) (declared_of_realize ret)
  | .named name definition => exact declares_named name (declared_of_realize definition)

theorem declared_of_settleAll (hints : List Hint) : DeclaresAll scene pointerSize lost hints := by
  match hints with
  | [] => exact declaresAll_nil
  | hint :: rest =>
    exact declaresAll_cons (declared_of_realize hint) (declared_of_settleAll rest)
end

end declared

/-- Where a hint is declared, the classes for its parts can be given labels. -/
def Realizable (scene : Scene Label) (pointerSize : UInt8) (hint : Hint) : Prop :=
  ∀ ⦃label : ClassId → Label⦄ ⦃seeding : Seeding⦄, seeding.WellFormed → seeding.Holds label scene →
    ∀ ⦃here : Label⦄, scene.Declared pointerSize [] hint here →
      ∃ other, Continues seeding.store.size label other ∧
        (realize pointerSize hint seeding).2.Holds other scene ∧
        (realize pointerSize hint seeding).1.At other scene.toModel here

def RealizableAll (scene : Scene Label) (pointerSize : UInt8) (hints : List Hint) : Prop :=
  ∀ ⦃label : ClassId → Label⦄ ⦃seeding : Seeding⦄, seeding.WellFormed → seeding.Holds label scene →
    ∀ ⦃targets : List Label⦄, scene.DeclaredAll pointerSize [] hints targets →
      ∃ other, Continues seeding.store.size label other ∧
        (settleAll pointerSize hints seeding).2.Holds other scene ∧
        (settleAll pointerSize hints seeding).1.map other = targets

section realizable

variable {pointerSize : UInt8}

theorem Realizable.classFor {hint : Hint} (realizable : Realizable scene pointerSize hint)
    (wellFormed : seeding.WellFormed) (holds : seeding.Holds label scene) {here : Label}
    (declared : scene.Declared pointerSize [] hint here) :
    ∃ other, Continues seeding.store.size label other ∧
      other (classFor pointerSize hint seeding).1 = here ∧
      (classFor pointerSize hint seeding).2.Holds other scene := by
  obtain ⟨realized, fits⟩ := realize_extends pointerSize hint wellFormed
  obtain ⟨first, continues, holds, at'⟩ := realizable wellFormed holds declared
  obtain ⟨second, later, new, holds⟩ := exists_settle realized.wellFormed fits holds at'
  exact ⟨second, continues.trans later realized.size, new, holds⟩

theorem realizable_void : Realizable scene pointerSize .void := by
  intro label seeding wellFormed holds here declared
  simp only [Scene.Declared] at declared
  refine ⟨label, Continues.refl _ _, holds, declared, fun role cls refers => ?_⟩
  exact absurd refers (Constraint.not_refers_of_none rfl rfl rfl role cls)

theorem realizable_int (size : UInt8) (signedness : Option Signedness) :
    Realizable scene pointerSize (.int size signedness) := by
  intro label seeding wellFormed holds here declared
  simp only [Scene.Declared] at declared
  refine ⟨label, Continues.refl _ _, holds, declared, fun role cls refers => ?_⟩
  exact absurd refers (Constraint.not_refers_of_none rfl rfl rfl role cls)

theorem realizable_pointer {inner : Hint} (realizable : Realizable scene pointerSize inner) :
    Realizable scene pointerSize (.pointer inner) := by
  intro label seeding wellFormed holds here declared
  obtain ⟨value, inside⟩ := classFor_extends pointerSize inner wellFormed
  simp only [Scene.Declared] at declared
  obtain ⟨shows', target, refers, declared⟩ := declared
  simp only [realize]
  cases size : inner.size pointerSize with
  | some bytes =>
    simp only [size] at declared
    obtain ⟨_, slot, declared⟩ := declared
    obtain ⟨first, continues, rfl, holds⟩ := realizable.classFor wellFormed holds declared
    have fits := @Constraint.fits_slot _ ⟨0, bytes, _⟩ inside
    obtain ⟨second, later, new, holds⟩ :=
      exists_fresh value.wellFormed fits holds (Constraint.holds_slot.2 slot)
    exact ⟨second, continues.trans later value.size, holds,
      Constraint.holds_pointer.2 ⟨shows', new ▸ refers⟩⟩
  | none =>
    simp only [size] at declared
    obtain ⟨first, continues, new, holds⟩ := realizable.classFor wellFormed holds declared
    exact ⟨first, continues, holds, Constraint.holds_pointer.2 ⟨shows', new ▸ refers⟩⟩

theorem realizable_function (name : Option String) {params : List Hint} {ret : Hint}
    (realizableParams : RealizableAll scene pointerSize params)
    (realizableRet : Realizable scene pointerSize ret) :
    Realizable scene pointerSize (.function name params ret) := by
  intro label seeding wellFormed holds here declared
  obtain ⟨formals, inside⟩ := settleAll_extends pointerSize params wellFormed
  simp only [Scene.Declared] at declared
  obtain ⟨shows', arity, ⟨targets, paramsDeclared, takes⟩, result, returns, declared⟩ := declared
  obtain ⟨first, continues, holds, labels⟩ := realizableParams wellFormed holds paramsDeclared
  obtain ⟨second, later, new, holds⟩ := realizableRet.classFor formals.wellFormed holds declared
  -- The formals keep the labels that they had before there was a class for the result.
  have kept : (settleAll pointerSize params seeding).1.map second = targets := by
    rw [← labels]
    exact List.map_congr_left fun cls member => later cls (inside cls member)
  have length : (settleAll pointerSize params seeding).1.length = params.length := by
    rw [← Scene.length_of_declaredAll paramsDeclared, ← labels, List.length_map]
  refine ⟨second, continues.trans later formals.size, holds, Constraint.holds_function.2 ?_⟩
  exact ⟨shows', length.symm ▸ arity, kept.symm ▸ takes, new ▸ returns⟩

theorem realizable_named (unique : scene.Unique) (name : String) {definition : Hint}
    (realizable : Realizable scene pointerSize definition) :
    Realizable scene pointerSize (.named name definition) := by
  intro label seeding wellFormed holds here declared
  rw [Scene.declared_named] at declared
  obtain ⟨rfl, named, declared⟩ := declared
  simp only [realize]
  cases found : seeding.store.typedef? name with
  | some entry =>
    by_cases same : entry.2 = definition
    · simp only [same, if_true]
      exact ⟨label, Continues.refl _ _, holds, holds.named found⟩
    · simp only [same, if_false]
      have realized := (realize_extends pointerSize definition wellFormed).1
      have inside := wellFormed.typedefs found
      obtain ⟨other, continues, after, at'⟩ := realizable wellFormed holds declared
      have entryLabel := (continues _ inside).trans (holds.named found)
      rw [← entryLabel] at at'
      exact ⟨other, continues, holds_declareRealized unique
        (Nat.lt_of_lt_of_le inside realized.size) after at', entryLabel⟩
  | none =>
    obtain ⟨interned, new⟩ := @intern_extends _ _ definition found wellFormed
    have realized := (realize_extends pointerSize definition interned.wellFormed).1
    obtain ⟨first, continues, newLabel, holds⟩ :=
      @exists_intern _ _ _ _ _ definition found wellFormed holds named
    obtain ⟨other, later, after, at'⟩ := realizable interned.wellFormed holds declared
    have kept := (later ⟨seeding.store.size⟩ new).trans newLabel
    rw [← kept] at at'
    exact ⟨other, continues.trans later interned.size, holds_declareRealized unique
      (Nat.lt_of_lt_of_le new realized.size) after at', kept⟩

theorem realizableAll_nil : RealizableAll scene pointerSize [] := by
  intro label seeding wellFormed holds targets declared
  simp only [Scene.DeclaredAll] at declared
  exact ⟨label, Continues.refl _ _, holds, declared.symm⟩

theorem realizableAll_cons {hint : Hint} {rest : List Hint}
    (realizable : Realizable scene pointerSize hint)
    (realizableRest : RealizableAll scene pointerSize rest) :
    RealizableAll scene pointerSize (hint :: rest) := by
  intro label seeding wellFormed holds targets declared
  obtain ⟨value, inside⟩ := classFor_extends pointerSize hint wellFormed
  simp only [Scene.DeclaredAll] at declared
  obtain ⟨target, others, rfl, declared, all⟩ := declared
  obtain ⟨first, continues, new, holds⟩ := realizable.classFor wellFormed holds declared
  obtain ⟨second, later, holds, labels⟩ := realizableRest value.wellFormed holds all
  refine ⟨second, continues.trans later value.size, holds, ?_⟩
  have kept : second (classFor pointerSize hint seeding).1 = target := (later _ inside).trans new
  exact List.cons_eq_cons.2 ⟨kept, labels⟩

mutual
theorem exists_realize (unique : scene.Unique) (hint : Hint) :
    Realizable scene pointerSize hint := by
  match hint with
  | .void => exact realizable_void
  | .int size signedness => exact realizable_int size signedness
  | .pointer inner => exact realizable_pointer (exists_realize unique inner)
  | .function name params ret =>
    exact realizable_function name (exists_settleAll unique params) (exists_realize unique ret)
  | .named name definition => exact realizable_named unique name (exists_realize unique definition)

theorem exists_settleAll (unique : scene.Unique) (hints : List Hint) :
    RealizableAll scene pointerSize hints := by
  match hints with
  | [] => exact realizableAll_nil
  | hint :: rest =>
    exact realizableAll_cons (exists_realize unique hint) (exists_settleAll unique rest)
end

end realizable

section declare

variable {pointerSize : UInt8} {cls : ClassId}

theorem declare_extends (hint : Hint) (wellFormed : seeding.WellFormed)
    (inside : cls.index < seeding.store.size) :
    Extends seeding (seeding.declare pointerSize cls hint) := by
  obtain ⟨realized, fits⟩ := realize_extends pointerSize hint wellFormed
  have inside' := Nat.lt_of_lt_of_le inside realized.size
  exact realized.trans (declareRealized_extends realized.wellFormed inside' fits)

theorem declared_of_declare (hint : Hint) (wellFormed : seeding.WellFormed)
    (inside : cls.index < seeding.store.size) {lost : List String}
    (settled : Settled scene pointerSize lost (sizeOf hint) seeding)
    (holds : (seeding.declare pointerSize cls hint).Holds label scene) :
    scene.Declared pointerSize lost hint (label cls) ∧
      Settles scene pointerSize lost seeding (seeding.declare pointerSize cls hint) := by
  have realized := (realize_extends pointerSize hint wellFormed).1
  obtain ⟨before, at'⟩ := at_of_declareRealized (Nat.lt_of_lt_of_le inside realized.size) holds
  obtain ⟨declared, settles⟩ := declared_of_realize hint wellFormed settled before
  exact ⟨declared _ at', settles.trans (binds_of_same (typedef?_declareRealized _ _))⟩

theorem exists_declare (hint : Hint) (wellFormed : seeding.WellFormed)
    (inside : cls.index < seeding.store.size) (unique : scene.Unique)
    (holds : seeding.Holds label scene)
    (declared : scene.Declared pointerSize [] hint (label cls)) :
    ∃ other, Continues seeding.store.size label other ∧
      (seeding.declare pointerSize cls hint).Holds other scene := by
  have realized := (realize_extends pointerSize hint wellFormed).1
  obtain ⟨other, continues, after, at'⟩ := exists_realize unique hint wellFormed holds declared
  rw [← continues cls inside] at at'
  exact ⟨other, continues,
    holds_declareRealized unique (Nat.lt_of_lt_of_le inside realized.size) after at'⟩

end declare

end Seeding

end TypeRecovery
