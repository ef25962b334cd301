import TypeRecovery.Proofs.SeedingMoves
import TypeRecovery.Proofs.StoreOperations
import TypeRecovery.Store
/-!
A store whose classes are looked up with a check. A class outside a forest counts as its own root,
nothing is known of it, and to link or change it changes nothing, so a lookup out of range goes
unnoticed. The lookups here fail for such a class, and what they are part of fails with them. Where
classes are in range, and those that constraints refer to are, they give the same as the ones
without the check.

A change of one class is the unchecked change behind a test of that class. What reads classes is
written out with checked lookups: a result that is made of these alone cannot pass over one, as a
test in front of the unchecked function could. What looks nothing up is shared with the functions
that run. Each equation below ties a function to the one it follows, so that neither changes without
the other.
-/
namespace TypeRecovery

namespace Node

def climb? (nodes : Array Node) : Nat → ClassId → Option ClassId
  | 0, cls => do
    let _ ← nodes[cls.index]?
    return cls
  | steps + 1, cls => do
    let node ← nodes[cls.index]?
    if node.parent = cls then return cls else climb? nodes steps node.parent

theorem parent_eq {nodes : Array Node} {cls : ClassId} (inside : cls.index < nodes.size) :
    nodes[cls.index].parent = parentIn nodes cls := by simp [parentIn, inside]

theorem climb?_eq {nodes : Array Node} (closed : ∀ cls : ClassId, cls.index < nodes.size →
    (parentIn nodes cls).index < nodes.size) {steps : Nat} {cls : ClassId}
    (inside : cls.index < nodes.size) : climb? nodes steps cls = some (climb nodes steps cls) := by
  induction steps generalizing cls with
  | zero => simp [climb?, climb, inside]
  | succ steps ih =>
    simp only [climb?, climb, Array.getElem?_eq_getElem inside, Option.bind_eq_bind,
      Option.bind_some, parent_eq inside]
    by_cases isRoot : parentIn nodes cls = cls
    · simp [isRoot]
    · simp [isRoot, ih (closed cls inside)]

end Node

namespace Forest

variable {forest : Forest} {cls child target top : ClassId}

def root? (forest : Forest) (cls : ClassId) : Option ClassId :=
  Node.climb? forest.nodes forest.height cls

def rank? (forest : Forest) (cls : ClassId) : Option Nat := forest.nodes[cls.index]?.map Node.rank

def attach? (forest : Forest) (child target : ClassId) : Option Forest := do
  let _ ← forest.nodes[child.index]?
  let _ ← forest.nodes[target.index]?
  return forest.attach child target

def raise? (forest : Forest) (top : ClassId) : Option Forest := do
  let _ ← forest.nodes[top.index]?
  return forest.raise top

def compress? (top : ClassId) : Nat → ClassId → Forest → Option Forest
  | 0, _, forest => return forest
  | steps + 1, cls, forest => do
    if cls = top then return forest
    else
      let node ← forest.nodes[cls.index]?
      compress? top steps node.parent (← forest.attach? cls top)

def find? (forest : Forest) (cls : ClassId) : Option (ClassId × Forest) := do
  let top ← forest.root? cls
  return (top, ← compress? top forest.height cls forest)

def merge? (forest : Forest) (a b : ClassId) : Option (Option Merged) := do
  let (a, forest) ← forest.find? a
  let (b, forest) ← forest.find? b
  if a = b then return none
  else if (← forest.rank? b) < (← forest.rank? a) then return some ⟨a, b, ← forest.attach? b a⟩
  else if (← forest.rank? a) < (← forest.rank? b) then return some ⟨b, a, ← forest.attach? a b⟩
  else if a.index < b.index then return some ⟨a, b, ← (← forest.raise? a).attach? b a⟩
  else return some ⟨b, a, ← (← forest.raise? b).attach? a b⟩

theorem root?_eq (inside : cls.index < forest.size) : forest.root? cls = some (forest.root cls) :=
  Node.climb?_eq forest.parent_inside inside

theorem rank?_eq (inside : cls.index < forest.size) :
    forest.rank? cls = some (forest.rank cls) := by
  rw [size] at inside
  simp [rank?, rank, Node.rankIn, inside]

theorem attach?_eq (childInside : child.index < forest.size)
    (targetInside : target.index < forest.size) :
    forest.attach? child target = some (forest.attach child target) := by
  rw [size] at childInside targetInside
  simp [attach?, childInside, targetInside]

theorem raise?_eq (inside : top.index < forest.size) :
    forest.raise? top = some (forest.raise top) := by
  rw [size] at inside
  simp [raise?, inside]

theorem compress?_eq {steps : Nat} (inside : cls.index < forest.size)
    (topInside : top.index < forest.size) :
    compress? top steps cls forest = some (compress top steps cls forest) := by
  induction steps generalizing cls forest with
  | zero => rfl
  | succ steps ih =>
    unfold compress? compress
    split
    · rfl
    · have next := forest.parent_inside cls inside
      simp only [Array.getElem?_eq_getElem (show cls.index < forest.nodes.size from inside),
        attach?_eq inside topInside, Option.bind_eq_bind, Option.bind_some, Node.parent_eq]
      exact ih (by rwa [size_attach]) (by rwa [size_attach])

theorem find?_eq (inside : cls.index < forest.size) :
    forest.find? cls = some (forest.find cls) := by
  simp [find?, find, root?_eq inside, compress?_eq inside (root_inside inside)]

theorem merge?_eq {a b : ClassId} (aInside : a.index < forest.size)
    (bInside : b.index < forest.size) :
    forest.merge? a b = some (forest.merge a b) := by
  -- Finding a root leaves as many classes as there were, so all that follows is in range too.
  have firstSize := forest.size_find a
  have secondSize := (forest.find a).2.size_find b
  have second := find?_eq (firstSize.symm ▸ bInside : b.index < (forest.find a).2.size)
  have firstInside : (forest.find a).1.index < ((forest.find a).2.find b).2.size := by
    rw [secondSize, firstSize]
    exact root_inside aInside
  have secondInside : ((forest.find a).2.find b).1.index < ((forest.find a).2.find b).2.size := by
    rw [secondSize]
    exact root_inside (firstSize.symm ▸ bInside)
  simp only [merge?, merge, find?_eq aInside, second, Option.bind_eq_bind, Option.bind_some]
  generalize ((forest.find a).2.find b).1 = bTop at *
  generalize ((forest.find a).2.find b).2 = short at *
  generalize (forest.find a).1 = aTop at *
  split
  · rfl
  simp only [rank?_eq firstInside, rank?_eq secondInside, Option.bind_some]
  split
  · simp [attach?_eq secondInside firstInside]
  split
  · simp [attach?_eq firstInside secondInside]
  split
  · have raised := short.size_raise aTop
    simp [raise?_eq firstInside,
      attach?_eq (raised.symm ▸ secondInside) (raised.symm ▸ firstInside)]
  · have raised := short.size_raise bTop
    simp [raise?_eq secondInside,
      attach?_eq (raised.symm ▸ firstInside) (raised.symm ▸ secondInside)]

end Forest

theorem bind_eq {Item Other : Type} {found : Option Item} {item : Item} {next : Item → Option Other}
    (same : found = some item) : found.bind next = next item := by rw [same, Option.bind_some]

theorem mapM_eq_some {Item Other : Type} {f : Item → Option Other} {g : Item → Other}
    {items : List Item} (each : ∀ item ∈ items, f item = some (g item)) :
    items.mapM f = some (items.map g) := by
  induction items with
  | nil => rfl
  | cons first rest ih =>
    rw [List.forall_mem_cons] at each
    simp [List.mapM_cons, each.1, ih each.2]

theorem option_mapM_eq_some {Item Other : Type} {f : Item → Option Other} {g : Item → Other}
    {option : Option Item} (each : ∀ item, option = some item → f item = some (g item)) :
    option.mapM f = some (option.map g) := by
  cases option with
  | none => rfl
  | some item => simp [each item rfl]

theorem foldlM_eq_some {Item State : Type} {f : State → Item → Option State}
    {g : State → Item → State} {items : List Item}
    (each : ∀ item ∈ items, ∀ state, f state item = some (g state item)) (state : State) :
    items.foldlM f state = some (items.foldl g state) := by
  induction items generalizing state with
  | nil => rfl
  | cons first rest ih =>
    rw [List.forall_mem_cons] at each
    simp [each.1, ih each.2]

namespace Signature

def relink? (find : ClassId → Option ClassId) (signature : Signature) : Option Signature := do
  return ⟨← signature.params.mapM (List.mapM find), ← find signature.ret⟩

theorem relink?_eq {find : ClassId → Option ClassId} {root : ClassId → ClassId}
    {signature : Signature}
    (found : ∀ target ∈ signature.references, find target = some (root target)) :
    signature.relink? find = some (signature.relink root) := by
  obtain ⟨params, ret⟩ := signature
  obtain ⟨inputs, result⟩ := List.forall_mem_append.1 found
  have ret : find ret = some (root ret) := result ret List.mem_cons_self
  have params : params.mapM (List.mapM find) = some (params.map (List.map root)) := by
    apply option_mapM_eq_some
    rintro classes rfl
    exact mapM_eq_some inputs
  simp [relink?, relink, params, ret]

end Signature

def Slot.relink? (find : ClassId → Option ClassId) (slot : Slot) : Option Slot := do
  return { slot with cls := ← find slot.cls }

namespace Constraint

def relink? (find : ClassId → Option ClassId) (constraint : Constraint) : Option Constraint := do
  return { constraint with
    pointee := ← constraint.pointee.mapM find
    slots := ← constraint.slots.mapM (Slot.relink? find)
    signature := ← constraint.signature.mapM (Signature.relink? find) }

theorem relink?_eq {find : ClassId → Option ClassId} {root : ClassId → ClassId}
    {constraint : Constraint}
    (found : ∀ target ∈ constraint.references, find target = some (root target)) :
    constraint.relink? find = some (constraint.relink root) := by
  simp only [references, List.forall_mem_append] at found
  obtain ⟨⟨pointed, fields⟩, called⟩ := found
  have pointee : constraint.pointee.mapM find = some (constraint.pointee.map root) := by
    apply option_mapM_eq_some
    intro target same
    exact pointed target (by rw [same]; exact List.mem_cons_self)
  have slots : constraint.slots.mapM (Slot.relink? find) =
      some (constraint.slots.map fun slot => { slot with cls := root slot.cls }) := by
    apply mapM_eq_some
    intro slot member
    simp [Slot.relink?, fields slot.cls (List.mem_map_of_mem member)]
  have signature : constraint.signature.mapM (Signature.relink? find) =
      some (constraint.signature.map (Signature.relink root)) := by
    apply option_mapM_eq_some
    intro signature same
    rw [same] at called
    exact Signature.relink?_eq called
  simp [relink?, relink, pointee, slots, signature]

end Constraint

namespace Store

variable {store : Store} {cls : ClassId}

def root? (store : Store) (cls : ClassId) : Option ClassId := store.forest.root? cls

def classOf? (store : Store) (loc : LocId) : Option ClassId := store.root? loc.initialClass

def constraint? (store : Store) (cls : ClassId) : Option Constraint := do
  store.constraints[(← store.root? cls).index]?

def update? (store : Store) (cls : ClassId) (change : Constraint → Constraint) : Option Store := do
  let _ ← store.constraint? cls
  return store.update cls change

def refine? (store : Store) (cls : ClassId) (constraint : Constraint) :
    Option (List ClassPair × Store) := do
  let top ← store.root? cls
  let conjunction := (← store.constraint? top).conjoin constraint
  let updated ← store.update? top fun _ => conjunction.constraint
  return (conjunction.implied,
    conjunction.conflicts.foldl (fun store => store.recordConflict top) updated)

def union? (store : Store) (a b : ClassId) : Option (Option (Merge × Store)) := do
  match ← store.forest.merge? a b with
  | none => return store.union a b
  | some merged =>
    let _ ← store.constraints[merged.root.index]?
    let _ ← store.constraints[merged.absorbed.index]?
    return store.union a b

def boundTo? (store : Store) (name : String) : Option (Option (ClassId × Hint)) :=
  (store.typedefs.find? fun typedef => typedef.name = name).mapM fun typedef => do
    return (← store.root? typedef.cls, typedef.definition)

def slotEnd? (store : Store) (owner : ClassId) (slot : Slot) : Option UInt64 :=
  if slot.offset < 0 then some 0
  else do
    let inner ← if slot.cls = owner then pure 0
      else (store.constraint? slot.cls).map Constraint.span
    return .ofNatClamp (slot.offset.toInt.toNat + max slot.size.toNat inner)

def extentOf? (store : Store) (owner : ClassId) (slots : List Slot) : Option UInt64 :=
  slots.foldlM (fun extent slot => do return max extent (← store.slotEnd? owner slot)) 0

theorem root?_eq (inside : cls.index < store.size) : store.root? cls = some (store.root cls) :=
  Forest.root?_eq inside

theorem classOf?_eq {loc : LocId} (declared : loc.index < store.locationCount) :
    store.classOf? loc = some (store.classOf loc) :=
  root?_eq (Nat.lt_of_lt_of_le declared store.locations_inside)

theorem constraint?_eq (inside : cls.index < store.size) :
    store.constraint? cls = some (store.constraint cls) := by
  have held : (store.root cls).index < store.constraints.size := by
    rw [store.constraints_size]
    exact root_inside inside
  simp [constraint?, constraint, root?_eq inside, held]

theorem update?_eq (inside : cls.index < store.size) (change : Constraint → Constraint) :
    store.update? cls change = some (store.update cls change) := by
  simp [update?, constraint?_eq inside]

theorem refine?_eq (inside : cls.index < store.size) (constraint : Constraint) :
    store.refine? cls constraint = some (store.refine cls constraint) := by
  have top := root_inside inside
  simp only [refine?, refine, root?_eq inside, constraint?_eq top, update?_eq top,
    Option.bind_eq_bind, Option.bind_some, Option.pure_def]

theorem union?_eq {a b : ClassId} (aInside : a.index < store.size)
    (bInside : b.index < store.size) :
    store.union? a b = some (store.union a b) := by
  simp only [union?, Forest.merge?_eq aInside bInside, Option.bind_eq_bind, Option.bind_some]
  cases found : store.forest.merge a b with
  | none => rfl
  | some merged =>
    have merges := Forest.merge_some aInside bInside found
    have rootInside : merged.root.index < store.forest.size := merges.inside aInside bInside
    have absorbedInside : merged.absorbed.index < store.forest.size := by
      rcases merges.roots with ⟨_, same⟩ | ⟨_, same⟩
      · exact same ▸ root_inside bInside
      · exact same ▸ root_inside aInside
    rw [← store.constraints_size] at rootInside absorbedInside
    simp [rootInside, absorbedInside]

theorem boundTo?_eq (inside : ∀ {name entry}, store.typedef? name = some entry →
    entry.1.index < store.size) (name : String) :
    store.boundTo? name = some (store.typedef? name) := by
  -- A class that is not in the store is its own root, so a bound class is in the store when its
  -- root is.
  unfold boundTo?
  apply option_mapM_eq_some
  intro typedef found
  have rootInside : (store.root typedef.cls).index < store.size := by
    apply @inside name (store.root typedef.cls, typedef.definition)
    rw [typedef?, found]
    rfl
  have typedefInside : typedef.cls.index < store.size := by
    apply Nat.lt_of_not_le
    intro outside
    rw [root_of_outside outside] at rootInside
    exact absurd rootInside (Nat.not_lt.2 outside)
  simp [root?_eq typedefInside]

theorem slotEnd?_eq {slot : Slot} (inside : slot.cls.index < store.size) (owner : ClassId) :
    store.slotEnd? owner slot = some (store.slotEnd owner slot) := by
  unfold slotEnd? slotEnd
  split
  · rfl
  · split <;> simp [constraint?_eq inside]

theorem extentOf?_eq {slots : List Slot} (inside : ∀ slot ∈ slots, slot.cls.index < store.size)
    (owner : ClassId) : store.extentOf? owner slots = some (store.extentOf owner slots) := by
  apply foldlM_eq_some
  intro slot member extent
  simp [slotEnd?_eq (inside slot member)]

end Store

end TypeRecovery
