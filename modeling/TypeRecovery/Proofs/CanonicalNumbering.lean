import Mathlib.Data.Set.Function
import TypeRecovery.Proofs.Warnings
/-!
Numbers do not depend on how a store was made. A typing tells the classes of a store apart by the
locations and by what refers to what, never by the classes that happen to be roots. So stores whose
roots are the same but for their names have the same typing, and where the same conflicts were
recorded of them, the same warnings.

After propagation every class that seeding made is reached from a location along references. So a
search from the locations numbers all classes, and those that would be appended last are none.
-/
namespace TypeRecovery

namespace Store

def contested (store : Store) : Set (ClassId × Conflict) :=
  {entry | ∃ recorded ∈ store.conflicts, (store.root recorded.cls, recorded.conflict) = entry}

theorem mem_about_iff {store : Store} {cls : ClassId} {conflict : Conflict} :
    conflict ∈ store.about store.disputes cls ↔ (store.root cls, conflict) ∈ store.contested := by
  constructor
  · rintro ⟨origin, member, same⟩
    obtain ⟨recorded, listed, paired⟩ := List.mem_map.1 member
    cases paired
    exact ⟨recorded, Array.mem_toList_iff.1 listed, by rw [same]⟩
  · rintro ⟨recorded, listed, paired⟩
    obtain ⟨root, rfl⟩ := Prod.mk.inj paired
    exact ⟨recorded.cls, List.mem_map_of_mem (Array.mem_toList_iff.2 listed), root⟩

theorem contested_of_one {store : Store} {cls : ClassId} {conflict : Conflict}
    (one : store.conflicts = #[⟨cls, conflict⟩]) :
    store.contested = {(store.root cls, conflict)} := by
  ext entry
  simp only [contested, one, List.mem_toArray, List.mem_singleton, exists_eq_left,
    Set.mem_ofPred_eq, Set.mem_singleton_iff, eq_comm]

/-- A bijection between the roots of two stores that keeps the roots of the locations and the
constraints, where these are compared by the roots of the classes that they refer to. -/
structure Corresponds (left right : Store) (rename : ClassId → ClassId) : Prop where
  count : right.locationCount = left.locationCount
  bijective : Set.BijOn rename {root | root ∈ left.roots} {root | root ∈ right.roots}
  placed : ∀ loc : LocId, loc.index < left.locationCount →
    rename (left.classOf loc) = right.classOf loc
  constraint : ∀ root ∈ left.roots, (right.constraint (rename root)).relink right.root =
    (left.constraint root).relink fun target => rename (left.root target)

namespace Corresponds

variable {left right : Store} {rename : ClassId → ClassId}
  (same : left.Corresponds right rename)
include same

theorem renamed_mem {cls : ClassId} (inside : cls.index < left.size) :
    rename (left.root cls) ∈ right.roots := same.bijective.mapsTo (root_mem_roots inside)

theorem exists_renamed {cls : ClassId} (inside : cls.index < right.size) :
    ∃ root ∈ left.roots, rename root = right.root cls :=
  same.bijective.surjOn (root_mem_roots inside)

theorem injective {first second : ClassId} (firstInside : first.index < left.size)
    (secondInside : second.index < left.size)
    (equal : rename (left.root first) = rename (left.root second)) :
    left.root first = left.root second :=
  same.bijective.injOn (root_mem_roots firstInside) (root_mem_roots secondInside) equal

theorem refers_iff {root : ClassId} (isRoot : root ∈ left.roots) {role : Role} {target : ClassId} :
    (∃ known, (right.constraint (rename root)).Refers role known ∧ right.root known = target) ↔
      ∃ old, (left.constraint root).Refers role old ∧ rename (left.root old) = target := by
  rw [← Constraint.refers_relink, same.constraint root isRoot, Constraint.refers_relink]

theorem insideToo (inside : left.RefersInside) : right.RefersInside := by
  intro cls role target refers
  obtain ⟨root, isRoot, label⟩ := same.exists_renamed (inside_of_refers refers)
  rw [← right.constraint_root, ← label] at refers
  obtain ⟨old, given, equal⟩ := (same.refers_iff isRoot).1 ⟨target, refers, rfl⟩
  have renamed := same.renamed_mem (inside given)
  rw [equal, mem_roots] at renamed
  exact inside_of_root_eq (right.root_root target).symm renamed.1

theorem reachedToo (reached : left.Reached) : right.Reached := by
  intro good places onward cls inside
  obtain ⟨root, isRoot, label⟩ := same.exists_renamed inside
  rw [← label, ← (mem_roots.1 isRoot).2]
  -- What reaches the classes of the one store reaches their counterparts.
  refine reached (fun cls => good (rename cls)) ?_ ?_ root (mem_roots.1 isRoot).1
  · intro loc declared
    rw [same.placed loc declared]
    exact places loc (same.count ▸ declared)
  · intro cls role target fixed held refers
    have isRoot := mem_roots.2 ⟨inside_of_refers refers, fixed⟩
    obtain ⟨known, given, equal⟩ := (same.refers_iff isRoot).2 ⟨target, refers, rfl⟩
    rw [← equal]
    have renamed := same.bijective.mapsTo isRoot
    exact onward (mem_roots.1 renamed).2 held given

theorem constraint_relink {cls : ClassId} (inside : cls.index < left.size) :
    (right.constraint (rename (left.root cls))).relink right.root =
      (left.constraint cls).relink fun target => rename (left.root target) := by
  rw [same.constraint _ (root_mem_roots inside), left.constraint_root]

theorem mirrors (inside : left.RefersInside) (reached : left.Reached) :
    left.Mirrors right fun cls => rename (left.root cls) where
  count := same.count
  inside := inside
  insideToo := same.insideToo inside
  reached := reached
  reachedToo := same.reachedToo reached
  placed := same.placed
  fixed cls inside := (mem_roots.1 (same.renamed_mem inside)).2
  there_root cls := by rw [left.root_root]
  injective := same.injective
  shape inside := by rw [Store.shape, same.constraint_relink inside]
  extent inside := by
    have relinked := congrArg Constraint.extent (same.constraint_relink inside)
    exact relinked

variable (conflicts : Prod.map rename id '' left.contested = right.contested)
include conflicts

theorem covers (covers : left.Covers left.disputes) : right.Covers right.disputes := by
  intro entry member
  have held : (right.root entry.1, entry.2) ∈ right.contested :=
    mem_about_iff.1 ⟨entry.1, member, rfl⟩
  rw [← conflicts] at held
  obtain ⟨_, ⟨recorded, listed, rfl⟩, paired⟩ := held
  have inside := covers _ (List.mem_map_of_mem (Array.mem_toList_iff.2 listed))
  have renamed := same.renamed_mem inside
  rw [show rename (left.root recorded.cls) = right.root entry.1 from congrArg Prod.fst paired,
    mem_roots] at renamed
  exact inside_of_root_eq (right.root_root entry.1).symm renamed.1

theorem about_eq (covers : left.Covers left.disputes) {cls : ClassId}
    (inside : cls.index < left.size) : left.about left.disputes cls =
      right.about right.disputes (rename (left.root cls)) := by
  ext conflict
  rw [mem_about_iff, mem_about_iff, (mem_roots.1 (same.renamed_mem inside)).2, ← conflicts]
  constructor
  · intro held
    exact ⟨_, held, rfl⟩
  · rintro ⟨_, ⟨recorded, listed, rfl⟩, paired⟩
    obtain ⟨label, rfl⟩ := Prod.mk.inj paired
    have origin := covers _ (List.mem_map_of_mem (Array.mem_toList_iff.2 listed))
    exact ⟨recorded, listed, by rw [same.injective origin inside label]; rfl⟩

end Corresponds
end Store

/-- Stores that are the same but for the names of their roots have the same classes, numbered alike,
and where their conflicts are the same but for these names, the same warnings. -/
theorem Typing.ofStore_canonical {left right : Store} {rename : ClassId → ClassId}
    (inside : left.RefersInside) (reached : left.Reached)
    (same : left.Corresponds right rename) (config : Config) :
    (ofStore config left).classes = (ofStore config right).classes ∧
      (ofStore config left).locationClasses = (ofStore config right).locationClasses ∧
      (left.Covers left.disputes → Prod.map rename id '' left.contested = right.contested →
        (ofStore config left).diagnostics = (ofStore config right).diagnostics) := by
  have mirrors := same.mirrors inside reached
  refine ⟨(mirrors.classes config).symm, (mirrors.locationClasses config).symm, ?_⟩
  intro covers conflicts
  exact mirrors.diagnostics_eq config covers (same.covers conflicts covers)
    (same.about_eq conflicts covers)

/-- A location that holds the address of a value, which points back at it. Two widths are declared
for the value. -/
def ringed : Store :=
  let (value, store) := (Store.withLocations 1).fresh
    { pointee := some ⟨0⟩, declaredWidth := some 4 }
  let store := (store.refine ⟨0⟩ { pointee := some value }).2
  (store.refine value { declaredWidth := some 8 }).2

/-- The same, but the class that the location started in was absorbed by another, which had absorbed
one before. -/
def ringedLate : Store :=
  let (holder, store) := (Store.withLocations 1).fresh {}
  let (spare, store) := store.fresh {}
  let store := ((store.union holder spare).map Prod.snd).getD store
  let (value, store) := store.fresh { pointee := some spare, declaredWidth := some 8 }
  let store := (store.refine value { declaredWidth := some 4 }).2
  let store := (store.refine spare { pointee := some value }).2
  ((store.union holder ⟨0⟩).map Prod.snd).getD store

def renameRinged (cls : ClassId) : ClassId := ⟨2 * cls.index + 1⟩

theorem refersInside_ringed : ringed.RefersInside := Store.refersInside_of_roots (by decide)

theorem reached_ringed : ringed.Reached := by
  intro good places onward cls inside
  have start : good ⟨0⟩ := places ⟨0⟩ (by decide)
  have value : good ⟨1⟩ := @onward ⟨0⟩ .pointee ⟨1⟩ rfl start rfl
  obtain ⟨_ | _ | index⟩ := cls
  · exact start
  · exact value
  · exact absurd inside (Nat.not_lt_of_le (Nat.le_add_left 2 index))

theorem corresponds_ringed : ringed.Corresponds ringedLate renameRinged where
  count := rfl
  bijective := by
    have mapsTo : ∀ root ∈ ringed.roots, renameRinged root ∈ ringedLate.roots := by decide
    have onto : ∀ root ∈ ringedLate.roots, ∃ known ∈ ringed.roots, renameRinged known = root := by
      decide
    have injective : ∀ first ∈ ringed.roots, ∀ second ∈ ringed.roots,
        renameRinged first = renameRinged second → first = second := by decide
    exact ⟨mapsTo, fun first member second other => injective first member second other, onto⟩
  placed loc declared := by
    obtain rfl : loc = ⟨0⟩ := by
      cases loc
      exact congrArg LocId.mk (Nat.lt_one_iff.1 declared)
    rfl
  constraint := by decide

theorem contested_ringed : Prod.map renameRinged id '' ringed.contested = ringedLate.contested := by
  have left : ringed.contested = {(⟨1⟩, .width 8 4)} := @Store.contested_of_one _ ⟨1⟩ _ rfl
  have right : ringedLate.contested = {(⟨3⟩, .width 8 4)} := @Store.contested_of_one _ ⟨3⟩ _ rfl
  rw [left, right, Set.image_singleton]
  rfl

/-- The location is in the first class of both, and the second class is warned of in both. -/
theorem ofStore_canonical_ringed :
    (Typing.ofStore {} ringed).classes = (Typing.ofStore {} ringedLate).classes ∧
      (Typing.ofStore {} ringed).locationClasses = (Typing.ofStore {} ringedLate).locationClasses ∧
      (Typing.ofStore {} ringed).diagnostics = (Typing.ofStore {} ringedLate).diagnostics ∧
      (Typing.ofStore {} ringedLate).Warns .widthConflict ⟨2⟩ := by
  obtain ⟨classes, locations, diagnostics⟩ :=
    Typing.ofStore_canonical refersInside_ringed reached_ringed corresponds_ringed {}
  have covers : ringed.Covers ringed.disputes := by
    unfold Store.Covers
    decide
  exact ⟨classes, locations, diagnostics covers contested_ringed, by decide⟩

namespace Store

/-- The class of `here` refers to the class of the root `next`. -/
def LeadsTo (store : Store) (here next : ClassId) : Prop := next ∈ Numbering.successors store here

theorem leadsTo_iff {store : Store} {here next : ClassId} : store.LeadsTo here next ↔
    ∃ role target, (store.constraint here).Refers role target ∧ store.root target = next := by
  constructor
  · intro member
    obtain ⟨target, referred, same⟩ := List.mem_map.1 member
    obtain ⟨role, refers⟩ := Constraint.mem_references_iff.1 referred
    exact ⟨role, target, refers, same⟩
  · rintro ⟨role, target, refers, rfl⟩
    exact List.mem_map_of_mem (Constraint.mem_references_iff.2 ⟨role, refers⟩)

/-- Some location leads to the class, from reference to reference. -/
def Anchored (store : Store) (cls : ClassId) : Prop :=
  ∃ loc : LocId, loc.index < store.locationCount ∧
    Relation.ReflTransGen store.LeadsTo (store.classOf loc) cls

/-- What holds of every location, and is handed on by every reference, holds of all classes just
when every root is anchored to a location. -/
theorem reached_iff {store : Store} :
    store.Reached ↔ ∀ root ∈ store.roots, store.Anchored root := by
  constructor
  · intro reached root member
    obtain ⟨inside, isRoot⟩ := mem_roots.1 member
    rw [← isRoot]
    apply reached store.Anchored _ _ root inside
    · intro loc declared
      exact ⟨loc, declared, .refl⟩
    · rintro cls role target _ ⟨loc, declared, path⟩ refers
      exact ⟨loc, declared, path.tail (leadsTo_iff.2 ⟨role, target, refers, rfl⟩)⟩
  · intro anchored good places onward cls inside
    obtain ⟨loc, declared, path⟩ := anchored _ (root_mem_roots inside)
    -- A path goes from root to root.
    have kept {here : ClassId}
        (path : Relation.ReflTransGen store.LeadsTo (store.classOf loc) here) :
        store.root here = here ∧ good here := by
      induction path with
      | refl => exact ⟨store.root_root _, places loc declared⟩
      | tail _ last ih =>
        obtain ⟨role, target, refers, rfl⟩ := leadsTo_iff.1 last
        exact ⟨store.root_root target, onward ih.1 ih.2 refers⟩
    exact (kept path).2

end Store

namespace Numbering

def ofPlaces (store : Store) : Numbering :=
  ⟨store.places.foldl (fun order start =>
    explore (successors store) store.size order.length (Distinct.add order start)) []⟩

theorem visits_ofPlaces {store : Store} (inside : store.RefersInside) :
    Visits (successors store) store.places [] (ofPlaces store).order := by
  refine visits_foldl (mem_roots_of_successor inside) ?_ List.nodup_nil (List.forall_mem_nil _)
    (length_roots store)
  intro cls member
  obtain ⟨loc, declared, rfl⟩ := Store.mem_places.1 member
  exact Store.root_mem_roots (Store.place_inside declared)

theorem ofStore_eq_ofPlaces {store : Store} (inside : store.RefersInside)
    (reached : store.Reached) : ofStore store = ofPlaces store :=
  congrArg mk ((Store.visits_places inside reached).deterministic (visits_ofPlaces inside))

end Numbering

namespace Session

variable {config : Config} {count : Nat} {observations : List Observation} {schedule : Schedule}
  {seeded closed : Session} {work : Work}

theorem replays_once (seeding : (start config count).seed observations = (seeded, none))
    (ran : seeded.propagate schedule = (closed, .ok work)) :
    Seeding.Replays config.pointerSize observations (Seeding.start (.withLocations count))
      (Seeding.start closed.store) := by
  have first := @replays_seed (start config count) observations (Seeding.wellFormed_start count)
    (congrArg Prod.snd seeding)
  rw [seeding] at first
  have second := @replays_propagate seeded config.pointerSize schedule work
    (first.follows []).wellFormed (congrArg Prod.snd ran)
  obtain ⟨_, final, _, _, last⟩ := propagate_ok (congrArg Prod.snd ran)
  rw [ran] at second last
  -- Nothing waits when a session was propagated.
  have settled : closed.seeding = Seeding.start closed.store := by
    rw [show closed = _ from last]
    rfl
  rw [settled] at second
  exact first.onward second

/-- Every class of a session that was seeded and propagated is anchored to a location. So the
locations are enough to start the numbering from, and a store that is the same but for the names of
its classes numbers them alike. -/
theorem propagate_anchors (seeding : (start config count).seed observations = (seeded, none))
    (ran : seeded.propagate schedule = (closed, .ok work)) :
    closed.store.locationCount = count ∧ (∀ root ∈ closed.store.roots, closed.store.Anchored root) ∧
      Numbering.ofStore closed.store = Numbering.ofPlaces closed.store ∧
      ∀ {other : Store} {rename : ClassId → ClassId}, closed.store.Corresponds other rename →
        Numbering.ofStore other = Numbering.ofPlaces other ∧
          ∀ root ∈ closed.store.roots, (Numbering.ofStore other).number (rename root) =
            (Numbering.ofStore closed.store).number root := by
  have replays := replays_once seeding ran
  have inside : closed.store.RefersInside := replays.refersInside
  have reached : closed.store.Reached := replays.storeReached
  refine ⟨(replays.follows []).locationCount, Store.reached_iff.1 reached,
    Numbering.ofStore_eq_ofPlaces inside reached, ?_⟩
  intro other rename same
  have mirrors := same.mirrors inside reached
  refine ⟨Numbering.ofStore_eq_ofPlaces mirrors.insideToo mirrors.reachedToo, ?_⟩
  intro root member
  obtain ⟨rootInside, isRoot⟩ := Store.mem_roots.1 member
  have number := mirrors.number rootInside
  simp only [isRoot] at number
  exact number

def redefined : Store := analyzedStore [pointerUse, functionUse] 3 {}

def redefinedLate : Store := analyzedStore [functionUse, pointerUse] 3 {}

def renameRedefined (cls : ClassId) : ClassId :=
  match cls.index with
  | 0 => ⟨1⟩
  | 4 => ⟨8⟩
  | 5 => ⟨9⟩
  | 6 => ⟨3⟩
  | _ => cls

theorem corresponds_redefined : redefined.Corresponds redefinedLate renameRedefined where
  count := by decide +kernel
  bijective := by
    have mapsTo : ∀ root ∈ redefined.roots, renameRedefined root ∈ redefinedLate.roots := by
      decide +kernel
    have onto : ∀ root ∈ redefinedLate.roots, ∃ known ∈ redefined.roots,
        renameRedefined known = root := by decide +kernel
    have injective : ∀ first ∈ redefined.roots, ∀ second ∈ redefined.roots,
        renameRedefined first = renameRedefined second → first = second := by decide +kernel
    exact ⟨mapsTo, fun first member second other => injective first member second other, onto⟩
  placed loc declared := by
    have count : redefined.locationCount = 3 := by decide +kernel
    have placed : ∀ place < 3,
        renameRedefined (redefined.classOf ⟨place⟩) = redefinedLate.classOf ⟨place⟩ := by
      decide +kernel
    exact placed loc.index (count ▸ declared)
  constraint := by decide +kernel

/-- Three of the five classes are of no location, and have other names in the other order. -/
theorem propagate_anchors_redefined : ∃ seeded closed work,
    (start {} 3).seed [pointerUse, functionUse] = (seeded, none) ∧
      seeded.propagate = (closed, .ok work) ∧ closed.store = redefined ∧
      redefined.roots = [⟨0⟩, ⟨2⟩, ⟨4⟩, ⟨5⟩, ⟨6⟩] ∧ redefined.places = [⟨0⟩, ⟨0⟩, ⟨2⟩] ∧
      (∀ root ∈ redefined.roots, redefined.Anchored root) ∧
      Numbering.ofStore redefined = Numbering.ofPlaces redefined ∧
      ∀ root ∈ redefined.roots, (Numbering.ofStore redefinedLate).number (renameRedefined root) =
        (Numbering.ofStore redefined).number root := by
  have seeding : ∃ seeded, (start {} 3).seed [pointerUse, functionUse] = (seeded, none) := ⟨_, rfl⟩
  obtain ⟨seeded, seeding⟩ := seeding
  have ran : ∃ work, seeded.propagate = (seeded.propagate.1, .ok work) := by
    cases seeding
    exact ⟨_, rfl⟩
  obtain ⟨work, ran⟩ := ran
  have store : seeded.propagate.1.store = redefined := by
    cases seeding
    rfl
  obtain ⟨_, anchored, places, renamed⟩ := propagate_anchors seeding ran
  rw [store] at anchored places renamed
  exact ⟨seeded, _, work, seeding, ran, store, by decide +kernel, by decide +kernel, anchored,
    places, (renamed corresponds_redefined).2⟩

end Session

end TypeRecovery
