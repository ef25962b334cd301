import TypeRecovery.Proofs.AnalysisOutcome
import TypeRecovery.Proofs.Confluence
import TypeRecovery.Proofs.KeptDeclarations
import TypeRecovery.Proofs.ObservedParts
import TypeRecovery.Proofs.Reports
import TypeRecovery.Proofs.TypingClasses
/-!
The warnings of a typing. Each conflict that was recorded has a warning about the class that it is
about by now, and each function that was dereferenced has one. There are no others, and they are in
strict order.

Runs on the same observations contribute the same to their classes, though not in the same order.
Which declarations meet in a class depends on the order where there are three or more. Of two there
is no more than one conflict to report, and the reports are the same.
-/
namespace TypeRecovery

theorem AtMostTwo.of_pair {Value : Type} {values : Set Value} (a b : Value)
    (either : ∀ value ∈ values, value = a ∨ value = b) : AtMostTwo values := by
  intro x left y right z other
  rcases either x left with rfl | rfl <;> rcases either y right with rfl | rfl <;>
    rcases either z other with rfl | rfl <;> simp

theorem AtMostTwo.mono {Value : Type} {values more : Set Value} (few : AtMostTwo more)
    (within : values ⊆ more) : AtMostTwo values :=
  fun x left y right z other => few x (within left) y (within right) z (within other)

namespace Store

section values

variable {Label : Type} {label : ClassId → Label} {expected : Label → Constraint → Prop}
  {store : Store} {record : List (ClassId × Constraint)} {cls : ClassId}

theorem declaredValues_account {Value : Type} {topic : Topic Value} (strict : topic.Strict)
    (faithful : Seeding.Faithful label expected record) (covers : store.Covers record)
    (one : ∀ origin : ClassId, origin.index < store.size →
      (store.root origin = store.root cls ↔ label origin = label cls)) :
    topic.declaredValues (store.account record cls) =
      {value | ∃ constraint, expected (label cls) constraint ∧
        topic.read constraint = some value} := by
  ext value
  constructor
  · rintro ⟨part, ⟨origin, member, same⟩, read⟩
    have declares := faithful.sound _ member
    rw [(one origin (covers _ member)).1 same] at declares
    exact ⟨part, declares, read⟩
  · rintro ⟨constraint, declares, read⟩
    obtain ⟨⟨origin, part⟩, member, there, same⟩ := faithful.recorded _ _ declares
    refine ⟨part, ⟨origin, member, (one origin (covers _ member)).2 there⟩, ?_⟩
    rw [← strict.read_eq same, read]

end values

section matching

variable {left right : Store} {there back : ClassId → ClassId}
  {expected : ClassId → Constraint → Prop} {record others : List (ClassId × Constraint)}

/-- A class is declared the same as the class under which it is found in another store, if the same
was expected of them. -/
theorem Renames.sameDeclaredValues (same : left.Renames right there back)
    (first : Seeding.Faithful there expected record)
    (second : Seeding.Faithful right.root expected others) (covers : left.Covers record)
    (othersCovers : right.Covers others) {cls : ClassId} (inside : cls.index < left.size) :
    (left.account record cls).SameDeclaredValues (right.account others (there cls)) := by
  intro Value topic strict
  rw [declaredValues_account strict first covers, declaredValues_account strict second othersCovers,
    same.onward.fixed cls inside]
  · exact fun _ _ => Iff.rfl
  · intro origin originInside
    constructor
    · intro one
      rw [← same.there_root origin, one, same.there_root]
    · exact same.injective originInside inside

end matching

variable {pointerSize : UInt8} {observations : List Observation} {store : Store}

theorem exists_contributed_of_hintDeclares {hint : Hint} {here there : ClassId}
    {constraint : Constraint}
    (declares : store.scene.HintDeclares pointerSize hint here there constraint)
    (hinted : store.Hinted pointerSize observations hint here) :
    ∃ declared, store.Contributed pointerSize observations there declared ∧
      declared.SameDeclared constraint := by
  induction declares with
  | own same => exact ⟨_, .hint hinted, same⟩
  | definition _ ih => exact ih (.definition hinted)
  | target unsized points _ ih => exact ih (.target hinted unsized points)
  | value sized points held _ ih => exact ih (.value hinted sized points held)
  | param found takes _ ih => exact ih (.param hinted found takes)
  | result returns _ ih => exact ih (.result hinted returns)

theorem exists_contributed_of_observationsDeclare {there : ClassId} {constraint : Constraint}
    (declares : store.scene.ObservationsDeclare pointerSize observations there constraint) :
    ∃ declared, store.Contributed pointerSize observations there declared ∧
      declared.SameDeclared constraint := by
  obtain ⟨observation, member, ⟨rfl, declared, used, same⟩ | ⟨hint, hinted, contributed⟩⟩ :=
    declares
  · refine ⟨declared, .use member ?_, same⟩
    generalize observation.use = use at used
    cases use with
    | callWithArgs args =>
      cases used
      exact List.mem_cons_of_mem _ List.mem_cons_self
    | _ => cases used
  · exact exists_contributed_of_hintDeclares contributed (.observed member hinted)

def declared {Value : Type} (pointerSize : UInt8) (observations : List Observation) (store : Store)
    (topic : Topic Value) (cls : ClassId) : Set Value :=
  {value | ∃ constraint, store.Contributed pointerSize observations cls constraint ∧
    topic.read constraint = some value}

/-- No class is declared with three different widths, kinds or numbers of parameters. -/
structure FewDeclared (pointerSize : UInt8) (observations : List Observation) (store : Store) :
    Prop where
  width : ∀ cls, AtMostTwo (store.declared pointerSize observations .width cls)
  kind : ∀ cls, AtMostTwo (store.declared pointerSize observations .kind cls)
  arity : ∀ cls, AtMostTwo (store.declared pointerSize observations .arity cls)

theorem declaredValues_subset {Value : Type} {topic : Topic Value} (strict : topic.Strict)
    {record : List (ClassId × Constraint)} (covers : store.Covers record)
    (faithful : Seeding.Faithful store.root
      (store.scene.ObservationsDeclare pointerSize observations) record)
    (cls : ClassId) : topic.declaredValues (store.account record cls) ⊆
      store.declared pointerSize observations topic (store.root cls) := by
  rw [declaredValues_account strict faithful covers fun _ _ => Iff.rfl]
  rintro value ⟨constraint, declares, read⟩
  obtain ⟨declared, contributed, same⟩ := exists_contributed_of_observationsDeclare declares
  exact ⟨declared, contributed, (strict.read_eq same).symm.trans read⟩

theorem FewDeclared.few {record : List (ClassId × Constraint)}
    (few : store.FewDeclared pointerSize observations) (covers : store.Covers record)
    (faithful : Seeding.Faithful store.root
      (store.scene.ObservationsDeclare pointerSize observations) record)
    (cls : ClassId) : (store.account record cls).Few where
  width := (few.width _).mono (declaredValues_subset Topic.strict_width covers faithful cls)
  kind := (few.kind _).mono (declaredValues_subset Topic.strict_kind covers faithful cls)
  arity := (few.arity _).mono (declaredValues_subset Topic.strict_arity covers faithful cls)

end Store

namespace Constraint

theorem isAmbiguous_relink (find : ClassId → ClassId) (constraint : Constraint) :
    (constraint.relink find).isAmbiguous = constraint.isAmbiguous := by
  unfold isAmbiguous
  rw [calledAs?_relink, Option.isSome_map]
  show (_ && (constraint.pointee.map find).isSome) = _
  rw [Option.isSome_map]
  rfl

end Constraint

theorem Conflict.primarySubject?_diagnostic (conflict : Conflict) (id : ClassId) :
    (conflict.diagnostic id).primarySubject? = some (.cls id) := rfl

theorem Diagnostic.primarySubject?_ambiguous (id : ClassId) :
    (ambiguous id).primarySubject? = some (.cls id) := rfl

theorem Store.inside_of_dispute {store : Store} (covers : store.Covers store.disputes)
    {cls : ClassId} {conflict : Conflict} (held : conflict ∈ store.about store.disputes cls) :
    cls.index < store.size := by
  obtain ⟨origin, member, same⟩ := held
  exact inside_of_root_eq same.symm (covers _ member)

namespace Typing

variable {config : Config} {store : Store}

/-- All that there is to report of a store, in the order in which it was found. -/
def found (config : Config) (store : Store) : List Diagnostic :=
  (store.conflicts.toList.map fun recorded =>
    recorded.conflict.diagnostic ((readingOf config store).number recorded.cls)) ++
  ((Numbering.ofStore store).order.filter fun root => (store.constraint root).isAmbiguous).map
    fun root => Diagnostic.ambiguous ((readingOf config store).number root)

theorem diagnostics_ofStore :
    (ofStore config store).diagnostics = Diagnostic.report (found config store) := rfl

/-- A class called and dereferenced, as a root of the store. -/
def Ambiguous (store : Store) (root : ClassId) : Prop :=
  root ∈ (Numbering.ofStore store).order ∧ (store.constraint root).isAmbiguous

theorem mem_found {diagnostic : Diagnostic} : diagnostic ∈ found config store ↔
    (∃ cls, ∃ conflict ∈ store.about store.disputes cls,
      diagnostic = conflict.diagnostic ((readingOf config store).number cls)) ∨
    ∃ root, Ambiguous store root ∧
      diagnostic = .ambiguous ((readingOf config store).number root) := by
  unfold found Ambiguous
  rw [List.mem_append, List.mem_map, List.mem_map]
  refine or_congr ⟨?_, ?_⟩ ⟨?_, ?_⟩
  · rintro ⟨recorded, member, rfl⟩
    exact ⟨recorded.cls, recorded.conflict, ⟨_, List.mem_map_of_mem member, rfl⟩, rfl⟩
  · rintro ⟨cls, conflict, ⟨origin, member, same⟩, rfl⟩
    obtain ⟨recorded, listed, paired⟩ := List.mem_map.1 member
    cases paired
    refine ⟨recorded, listed, ?_⟩
    -- What was recorded about a class is reported with the number of its root.
    rw [← number_root recorded.cls, same, number_root]
  · rintro ⟨root, member, rfl⟩
    exact ⟨root, List.mem_filter.1 member, rfl⟩
  · rintro ⟨root, member, rfl⟩
    exact ⟨root, List.mem_filter.2 member, rfl⟩

theorem apart_found : Diagnostic.Apart (found config store) := by
  intro a left b right equal
  obtain ⟨subject, code, _⟩ := Diagnostic.eq_of_order equal
  rcases mem_found.1 left with ⟨cls, conflict, _, rfl⟩ | ⟨root, _, rfl⟩
  · rcases mem_found.1 right with ⟨cls', other, _, rfl⟩ | ⟨root', _, rfl⟩
    · have number : (readingOf config store).number cls = (readingOf config store).number cls' := by
        simpa [Conflict.primarySubject?_diagnostic] using subject
      rw [Conflict.eq_of_order equal, number]
    -- A conflict and an ambiguity never have the same code.
    · cases conflict <;> cases code
  · rcases mem_found.1 right with ⟨cls', other, _, rfl⟩ | ⟨root', _, rfl⟩
    · cases other <;> cases code
    · have number : (readingOf config store).number root =
        (readingOf config store).number root' := by
        simpa [Diagnostic.primarySubject?_ambiguous] using subject
      rw [number]

end Typing

def Typing.Warns (typing : Typing) (code : Code) (id : ClassId) : Prop :=
  ∃ diagnostic ∈ typing.diagnostics,
    diagnostic.code = code ∧ diagnostic.primarySubject? = some (.cls id)

instance (typing : Typing) (code : Code) (id : ClassId) : Decidable (typing.Warns code id) :=
  inferInstanceAs (Decidable (∃ diagnostic ∈ typing.diagnostics, _ ∧ _))

namespace Store

theorem Resembles.exists_there {left right : Store} {there : ClassId → ClassId}
    (same : left.Resembles right there) {cls : ClassId} (inside : cls.index < right.size) :
    ∃ root : ClassId, root.index < left.size ∧ there root = right.root cls := by
  have member := (Numbering.mem_order same.insideToo).2 (root_mem_roots inside)
  rw [same.order] at member
  obtain ⟨root, listed, label⟩ := List.mem_map.1 member
  exact ⟨root, (mem_roots.1 ((Numbering.mem_order same.inside).1 listed)).1, label⟩

namespace Mirrors

variable {left right : Store} {there : ClassId → ClassId} (same : left.Mirrors right there)
  (config : Config)
include same

theorem isAmbiguous {cls : ClassId} (inside : cls.index < left.size) :
    (right.constraint (there cls)).isAmbiguous = (left.constraint cls).isAmbiguous := by
  rw [← Constraint.isAmbiguous_relink right.root, same.constraint_relink inside,
    Constraint.isAmbiguous_relink]

/-- As much is reported of the one store as of the other, if it is so of the conflicts about each
class. -/
theorem exists_found_iff {holds : Diagnostic → Prop} (leftCovers : left.Covers left.disputes)
    (rightCovers : right.Covers right.disputes)
    (alike : ∀ {cls : ClassId}, cls.index < left.size → ∀ id,
      (∃ conflict ∈ left.about left.disputes cls, holds (conflict.diagnostic id)) ↔
        ∃ conflict ∈ right.about right.disputes (there cls), holds (conflict.diagnostic id)) :
    (∃ diagnostic ∈ Typing.found config left, holds diagnostic) ↔
      ∃ diagnostic ∈ Typing.found config right, holds diagnostic := by
  have rootInside {root : ClassId} (member : root ∈ (Numbering.ofStore left).order) :
      root.index < left.size :=
    (mem_roots.1 ((Numbering.mem_order same.inside).1 member)).1
  constructor
  · rintro ⟨_, member, good⟩
    rcases Typing.mem_found.1 member with ⟨cls, conflict, held, rfl⟩ | ⟨root, ⟨listed, both⟩, rfl⟩
    · have inside := inside_of_dispute leftCovers held
      rw [← same.reading_number config inside] at good
      obtain ⟨other, heldToo, good⟩ := (alike inside _).1 ⟨conflict, held, good⟩
      exact ⟨_, Typing.mem_found.2 (Or.inl ⟨there cls, other, heldToo, rfl⟩), good⟩
    · have inside := rootInside listed
      rw [← same.reading_number config inside] at good
      refine ⟨_, Typing.mem_found.2 (Or.inr ⟨there root, ⟨?_, ?_⟩, rfl⟩), good⟩
      · rw [same.order]
        exact List.mem_map_of_mem listed
      · rwa [same.isAmbiguous inside]
  · rintro ⟨_, member, good⟩
    rcases Typing.mem_found.1 member with ⟨cls, conflict, held, rfl⟩ | ⟨root, ⟨listed, both⟩, rfl⟩
    · obtain ⟨known, inside, label⟩ := same.exists_there (inside_of_dispute rightCovers held)
      rw [← Typing.number_root, ← label, same.reading_number config inside] at good
      rw [about_of_root_eq (right.root_root cls).symm, ← label] at held
      obtain ⟨other, heldToo, good⟩ := (alike inside _).2 ⟨conflict, held, good⟩
      exact ⟨_, Typing.mem_found.2 (Or.inl ⟨known, other, heldToo, rfl⟩), good⟩
    · rw [same.order] at listed
      obtain ⟨known, knownListed, rfl⟩ := List.mem_map.1 listed
      have inside := rootInside knownListed
      rw [same.reading_number config inside] at good
      rw [same.isAmbiguous inside] at both
      exact ⟨_, Typing.mem_found.2 (Or.inr ⟨known, ⟨knownListed, both⟩, rfl⟩), good⟩

theorem warns_iff (leftCovers : left.Covers left.disputes)
    (rightCovers : right.Covers right.disputes)
    (alike : ∀ {cls : ClassId}, cls.index < left.size → ∀ code,
      (∃ conflict ∈ left.about left.disputes cls, conflict.code = code) ↔
        ∃ conflict ∈ right.about right.disputes (there cls), conflict.code = code)
    (code : Code) (id : ClassId) :
    (Typing.ofStore config left).Warns code id ↔ (Typing.ofStore config right).Warns code id := by
  simp only [Typing.Warns, Typing.diagnostics_ofStore, Diagnostic.mem_report]
  apply same.exists_found_iff config leftCovers rightCovers
  intro cls inside number
  have about (conflict : Conflict) : ((conflict.diagnostic number).code = code ∧
      (conflict.diagnostic number).primarySubject? = some (.cls id)) ↔
      conflict.code = code ∧ number = id := by
    rw [Conflict.primarySubject?_diagnostic, Option.some_inj, Subject.cls.injEq]
    rfl
  simp only [about, ← and_assoc, exists_and_right, alike inside code]

theorem diagnostics_eq (leftCovers : left.Covers left.disputes)
    (rightCovers : right.Covers right.disputes)
    (alike : ∀ {cls : ClassId}, cls.index < left.size →
      left.about left.disputes cls = right.about right.disputes (there cls)) :
    (Typing.ofStore config left).diagnostics = (Typing.ofStore config right).diagnostics := by
  rw [Typing.diagnostics_ofStore, Typing.diagnostics_ofStore]
  apply Diagnostic.report_congr Typing.apart_found
  intro diagnostic
  have found : (∃ found ∈ Typing.found config left, found = diagnostic) ↔
      ∃ found ∈ Typing.found config right, found = diagnostic := by
    apply same.exists_found_iff config leftCovers rightCovers
    intro cls inside id
    rw [alike inside]
  simpa using found

end Mirrors
end Store

theorem Scene.observationsDeclare_congr {Label : Type} {scene : Scene Label} {pointerSize : UInt8}
    {observations others : List Observation}
    (same : ∀ observation, observation ∈ observations ↔ observation ∈ others) :
    scene.ObservationsDeclare pointerSize observations =
      scene.ObservationsDeclare pointerSize others := by
  unfold ObservationsDeclare
  simp only [same]

/-- Runs on the same observations, however ordered and repeated, warn of the same sorts of conflict
about the same classes. Where no class is declared with three different widths, kinds or numbers of
parameters, their warnings are the same. -/
theorem analyze_warns {observations others : List Observation} {locationCount : Nat}
    {config : Config} {schedule again : Schedule} {typing other : Typing}
    (first : analyze observations locationCount config schedule = .ok typing)
    (second : analyze others locationCount config again = .ok other)
    (same : ∀ observation, observation ∈ observations ↔ observation ∈ others) :
    (∀ code id, typing.Warns code id ↔ other.Warns code id) ∧
      ((analyzedStore observations locationCount config schedule).FewDeclared config.pointerSize
        observations → typing.diagnostics = other.diagnostics) := by
  obtain ⟨seeded, final, analysis, last, rfl⟩ := analyze_ok_store first
  obtain ⟨seeded', final', again, rfl⟩ := analyze_ok second
  obtain ⟨there, back, matched, holds⟩ := analysis.exists_matches_holds again same
  obtain ⟨record, lawful, faithful⟩ := analysis.exists_record
  obtain ⟨record', lawful', faithful'⟩ := again.exists_record
  have paired := lawful (Account.declaredLaw_paired Topic.strict_width)
  have paired' := lawful' (Account.declaredLaw_paired Topic.strict_width)
  have regular (cls : ClassId) : (final.store.account record cls).Regular :=
    fun _ _ strict => (lawful (Account.declaredLaw_paired strict)).good cls
  have regular' (cls : ClassId) : (final'.store.account record' cls).Regular :=
    fun _ _ strict => (lawful' (Account.declaredLaw_paired strict)).good cls
  have sameDeclaredValues {cls : ClassId} (inside : cls.index < final.store.size) :
      (final.store.account record cls).SameDeclaredValues
        (final'.store.account record' (there cls)) := by
    -- The first record is faithful to the scene of the second store, where its classes are found.
    have found := faithful again.unique holds
    rw [Scene.observationsDeclare_congr same] at found
    exact matched.sameDeclaredValues found (faithful' again.unique (Seeding.holds_scene _))
      paired.covers
      paired'.covers inside
  constructor
  · apply matched.mirrors.warns_iff config paired.disputes paired'.disputes
    intro cls inside code
    constructor
    · rintro ⟨conflict, held, rfl⟩
      exact (regular cls).exists_of_code (regular' _) (sameDeclaredValues inside) held
    · rintro ⟨conflict, held, rfl⟩
      exact (regular' _).exists_of_code (regular cls) (sameDeclaredValues inside).symm held
  · intro few
    rw [← last] at few
    have few (cls : ClassId) := few.few paired.covers
      (faithful analysis.unique (Seeding.holds_scene _)) cls
    apply matched.mirrors.diagnostics_eq config paired.disputes paired'.disputes
    intro cls inside
    exact (regular cls).disputes_eq (regular' _) (sameDeclaredValues inside) (few cls)

def sizedRead (size : UInt8) : Observation := ⟨⟨0⟩, ⟨0⟩, .read size, some (.int size none)⟩

theorem eq_of_hinted_sizedRead {pointerSize small large : UInt8} {store : Store} {hint : Hint}
    {cls : ClassId}
    (hinted : store.Hinted pointerSize [sizedRead small, sizedRead large] hint cls) :
    hint = .int small none ∨ hint = .int large none := by
  induction hinted with
  | observed member found =>
    simp only [List.mem_cons, List.not_mem_nil, or_false] at member
    rcases member with rfl | rfl <;> cases found
    · exact Or.inl rfl
    · exact Or.inr rfl
  | definition _ ih => exact ih.elim nofun nofun
  | target _ _ _ ih => exact ih.elim nofun nofun
  | value _ _ _ _ ih => exact ih.elim nofun nofun
  | param _ _ _ ih => exact ih.elim nofun nofun
  | result _ _ ih => exact ih.elim nofun nofun

theorem declares_of_contributed_sizedRead {pointerSize small large : UInt8} {store : Store}
    {cls : ClassId} {constraint : Constraint}
    (contributed : store.Contributed pointerSize [sizedRead small, sizedRead large] cls
      constraint) :
    (∀ width, constraint.declaredWidth = some width → width = small ∨ width = large) ∧
      (∀ kind, constraint.declaredKind = some kind → kind = .primitive) ∧
      constraint.arity = none := by
  cases contributed with
  | use member listed =>
    simp only [List.mem_cons, List.not_mem_nil, or_false] at member
    rcases member with rfl | rfl <;> cases List.mem_singleton.1 listed <;> exact ⟨nofun, nofun, rfl⟩
  | hint hinted =>
    rcases eq_of_hinted_sizedRead hinted with rfl | rfl
    · exact ⟨fun _ found => Or.inl (Option.some.inj found).symm,
        fun _ found => (Option.some.inj found).symm, rfl⟩
    · exact ⟨fun _ found => Or.inr (Option.some.inj found).symm,
        fun _ found => (Option.some.inj found).symm, rfl⟩
  | name hinted => exact (eq_of_hinted_sizedRead hinted).elim nofun nofun

theorem fewDeclared_sizedRead (pointerSize small large : UInt8) (store : Store) :
    store.FewDeclared pointerSize [sizedRead small, sizedRead large] where
  width cls := .of_pair small large fun width ⟨_, contributed, found⟩ =>
    (declares_of_contributed_sizedRead contributed).1 width found
  kind cls := .of_pair .primitive .primitive fun kind ⟨_, contributed, found⟩ =>
    Or.inl ((declares_of_contributed_sizedRead contributed).2.1 kind found)
  arity cls := .of_pair 0 0 fun arity ⟨_, contributed, found⟩ => by
    cases found.symm.trans (declares_of_contributed_sizedRead contributed).2.2

/-- Two widths disagree in the same way whichever comes first. -/
theorem analyze_warns_swapped : ∃ typing other,
    analyze [sizedRead 1, sizedRead 2] 1 {} = .ok typing ∧
      analyze [sizedRead 2, sizedRead 1] 1 {} = .ok other ∧
      typing.Warns .widthConflict ⟨1⟩ ∧ other.Warns .widthConflict ⟨1⟩ ∧
      typing.diagnostics = other.diagnostics := by
  have first : ∃ typing, analyze [sizedRead 1, sizedRead 2] 1 {} = .ok typing ∧
      typing.Warns .widthConflict ⟨1⟩ := ⟨_, rfl, by decide⟩
  have second : ∃ other, analyze [sizedRead 2, sizedRead 1] 1 {} = .ok other := ⟨_, rfl⟩
  obtain ⟨typing, first, warns⟩ := first
  obtain ⟨other, second⟩ := second
  obtain ⟨sorts, equal⟩ := analyze_warns first second fun observation => by
    simp [or_comm]
  exact ⟨typing, other, first, second, warns, (sorts _ _).1 warns,
    equal (fewDeclared_sizedRead 8 1 2 _)⟩

/-- Of three widths the least meets the next in one order and the greatest in another. -/
theorem analyze_not_warns_reversed : ∃ typing other,
    analyze [sizedRead 1, sizedRead 2, sizedRead 4] 1 {} = .ok typing ∧
      analyze [sizedRead 4, sizedRead 2, sizedRead 1] 1 {} = .ok other ∧
      [sizedRead 1, sizedRead 2, sizedRead 4].Perm [sizedRead 4, sizedRead 2, sizedRead 1] ∧
      typing.diagnostics ≠ other.diagnostics :=
  ⟨_, _, rfl, rfl, (List.reverse_perm [sizedRead 1, sizedRead 2, sizedRead 4]).symm, by decide⟩

namespace Reading

variable {reading : Reading} {constraint : Constraint} {params : List ClassId} {ret : ClassId}

theorem pointer_ne_function (target : ClassId) :
    reading.pointer constraint target ≠ .function params ret := by
  unfold pointer
  simp only
  split <;> exact nofun

theorem aggregate_ne_function : reading.aggregate constraint ≠ .function params ret := by
  rcases aggregate_cases reading constraint with ⟨_, _, _, _, single⟩ | grouped
  · rw [single]
    exact nofun
  · rw [grouped]
    rcases CType.ofGroups_cases constraint.extent _ with ⟨_, _, _, _, union⟩ | struct
    · rw [union]
      exact nofun
    · rw [struct]
      exact nofun

theorem scalar_ne_function : reading.scalar constraint ≠ .function params ret := by
  unfold scalar
  simp only
  split
  · exact nofun
  · split <;> exact nofun

theorem exists_function_iff : (∃ params ret, reading.type constraint = .function params ret) ↔
    constraint.declaredKind ≠ some .void ∧ constraint.calledAs?.isSome = true := by
  unfold type
  by_cases void : constraint.declaredKind = some .void
  · rw [if_pos void]
    exact iff_of_false (fun ⟨_, _, same⟩ => nomatch same) fun both => both.1 void
  · rw [if_neg void, and_iff_right void]
    split
    · rename_i signature called
      exact iff_of_true ⟨_, _, rfl⟩ (called ▸ rfl)
    · rename_i uncalled
      rw [uncalled]
      refine iff_of_false ?_ Bool.false_ne_true
      rintro ⟨params, ret, read⟩
      split at read
      · exact pointer_ne_function _ read
      · split at read
        · exact aggregate_ne_function read
        · exact scalar_ne_function read

theorem isAmbiguous_iff : constraint.isAmbiguous = true ↔
    (∃ params ret, reading.type constraint = .function params ret) ∧
      constraint.pointee.isSome = true := by
  rw [exists_function_iff, Constraint.isAmbiguous, Bool.and_eq_true, Bool.and_eq_true, bne_iff_ne]

end Reading

namespace Typing

variable {config : Config} {store : Store}

theorem size_ofStore (inside : store.RefersInside) :
    (ofStore config store).size = store.roots.length := by
  rw [← (Numbering.perm_order inside).length_eq]
  show ((Numbering.ofStore store).order.map _).toArray.size = _
  rw [List.size_toArray, List.length_map]

theorem warning_of_found (inside : store.RefersInside) (covers : store.Covers store.disputes)
    {diagnostic : Diagnostic} (member : diagnostic ∈ found config store) :
    diagnostic.severity = .warning ∧ ∃ id, diagnostic.primarySubject? = some (.cls id) ∧
      1 ≤ id.index ∧ id.index ≤ (ofStore config store).size := by
  rw [size_ofStore inside]
  rcases mem_found.1 member with ⟨cls, conflict, held, rfl⟩ | ⟨root, ⟨listed, _⟩, rfl⟩
  · have clsInside := Store.inside_of_dispute covers held
    exact ⟨rfl, _, conflict.primarySubject?_diagnostic _, number_range inside clsInside⟩
  · have rootInside := (Store.mem_roots.1 ((Numbering.mem_order inside).1 listed)).1
    exact ⟨rfl, _, Diagnostic.primarySubject?_ambiguous _, number_range inside rootInside⟩

/-- What a typing of the store is to notify of: the recorded conflicts, each about the class that
the class it was recorded on belongs to by now, and the functions that have a pointee. -/
inductive Notifies (config : Config) (store : Store) : Diagnostic → Prop where
  | conflict {recorded : ClassConflict} : recorded ∈ store.conflicts →
      Notifies config store (recorded.conflict.diagnostic
        ((Numbering.ofStore store).number (store.root recorded.cls)))
  | ambiguity {root : ClassId} {params : List ClassId} {ret : ClassId} : root ∈ store.roots →
      (ofStore config store).typeOfClass? ((Numbering.ofStore store).number root) =
        some (.function params ret) →
      (store.constraint root).pointee.isSome = true →
      Notifies config store (.ambiguous ((Numbering.ofStore store).number root))

theorem typeOfClass?_root (inside : store.RefersInside) {root : ClassId}
    (isRoot : root ∈ store.roots) :
    (ofStore config store).typeOfClass? ((Numbering.ofStore store).number root) =
      some ((readingOf config store).type (store.constraint root)) := by
  obtain ⟨rootInside, fixed⟩ := Store.mem_roots.1 isRoot
  have typed := @typeOfClass?_number config _ inside root rootInside
  rwa [show (readingOf config store).number root = (Numbering.ofStore store).number root from
    congrArg (Numbering.ofStore store).number fixed] at typed

theorem mem_found_iff (inside : store.RefersInside) {diagnostic : Diagnostic} :
    diagnostic ∈ found config store ↔ Notifies config store diagnostic := by
  have number {root : ClassId} (isRoot : root ∈ store.roots) :
      (readingOf config store).number root = (Numbering.ofStore store).number root :=
    congrArg (Numbering.ofStore store).number (Store.mem_roots.1 isRoot).2
  unfold found
  rw [List.mem_append, List.mem_map, List.mem_map]
  constructor
  · rintro (⟨recorded, member, rfl⟩ | ⟨root, member, rfl⟩)
    · exact .conflict (Array.mem_toList_iff.1 member)
    · obtain ⟨listed, ambiguous⟩ := List.mem_filter.1 member
      have isRoot := (Numbering.mem_order inside).1 listed
      obtain ⟨⟨params, ret, read⟩, pointing⟩ := Reading.isAmbiguous_iff.1 ambiguous
      rw [number isRoot]
      exact .ambiguity isRoot
        ((typeOfClass?_root inside isRoot).trans (congrArg some read)) pointing
  · rintro (⟨member⟩ | ⟨isRoot, typed, pointing⟩)
    · exact Or.inl ⟨_, Array.mem_toList_iff.2 member, rfl⟩
    · have read := Option.some.inj ((typeOfClass?_root inside isRoot).symm.trans typed)
      have ambiguous := Reading.isAmbiguous_iff.2 ⟨⟨_, _, read⟩, pointing⟩
      exact Or.inr ⟨_, List.mem_filter.2 ⟨(Numbering.mem_order inside).2 isRoot, ambiguous⟩,
        congrArg Diagnostic.ambiguous (number isRoot)⟩

/-- A typing notifies of all that it is to, and of nothing else. The notices are warnings about
classes of the typing, and they are in strict order, so none of them comes twice. -/
theorem ofStore_notifies (inside : store.RefersInside) (covers : store.Covers store.disputes)
    (config : Config) :
    ((ofStore config store).diagnostics.Pairwise fun a b => Diagnostic.order a b = .lt) ∧
    (∀ diagnostic ∈ (ofStore config store).diagnostics, diagnostic.severity = .warning ∧
      ∃ id, diagnostic.primarySubject? = some (.cls id) ∧
        1 ≤ id.index ∧ id.index ≤ (ofStore config store).size) ∧
    ∀ diagnostic, diagnostic ∈ (ofStore config store).diagnostics ↔
      Notifies config store diagnostic := by
  rw [diagnostics_ofStore]
  refine ⟨Diagnostic.pairwise_report apart_found, fun diagnostic member => ?_, fun diagnostic => ?_⟩
  · exact warning_of_found inside covers (Diagnostic.mem_report.1 member)
  · rw [Diagnostic.mem_report, mem_found_iff inside]

def dispatcher : Store :=
  let store := ((Store.withLocations 2).recordConflict ⟨0⟩ (.width 4 2)).recordConflict ⟨1⟩
    (.width 4 2)
  let store := ((store.union ⟨0⟩ ⟨1⟩).map Prod.snd).getD store
  let (target, store) := store.fresh {}
  (store.refine ⟨1⟩ {
    evidence := {.called}, pointee := some target, signature := some ⟨none, target⟩ }).2

theorem ofStore_notifies_dispatcher : dispatcher.RefersInside ∧
    dispatcher.Covers dispatcher.disputes ∧
    dispatcher.disputes = [(⟨0⟩, .width 4 2), (⟨1⟩, .width 4 2)] ∧ dispatcher.root ⟨1⟩ = ⟨0⟩ ∧
    (ofStore {} dispatcher).diagnostics = [Conflict.diagnostic (.width 4 2) ⟨1⟩, .ambiguous ⟨1⟩] ∧
    ((ofStore {} dispatcher).diagnostics.Pairwise fun a b => Diagnostic.order a b = .lt) ∧
    ∀ diagnostic, diagnostic ∈ (ofStore {} dispatcher).diagnostics ↔
      Notifies {} dispatcher diagnostic := by
  have inside : dispatcher.RefersInside := Store.refersInside_of_roots (by decide)
  have covers : dispatcher.Covers dispatcher.disputes := by
    unfold Store.Covers
    decide
  obtain ⟨ordered, _, same⟩ := ofStore_notifies inside covers {}
  exact ⟨inside, covers, by decide, by decide, by decide, ordered, same⟩

end Typing

end TypeRecovery
