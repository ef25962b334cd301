import TypeRecovery.Basic
/-!
A forest of disjoint sets of classes. Every class has a parent, and a root is its own parent. Ranks
grow strictly along the links, so climbing from a class ends at its root after at most as many
steps as the greatest rank. Two sets are merged by linking the root of lesser rank under the other.
A class outside the forest counts as its own root.

The root is the one label that is constant along the links and leaves roots as they are. So
shortening the way to a root changes no root, and linking one root under another changes just the
roots of the classes under it.
-/
namespace TypeRecovery

structure Node where
  parent : ClassId
  rank : Nat
deriving DecidableEq

namespace Node

def parentIn (nodes : Array Node) (cls : ClassId) : ClassId :=
  match nodes[cls.index]? with
  | some node => node.parent
  | none => cls

def rankIn (nodes : Array Node) (cls : ClassId) : Nat :=
  match nodes[cls.index]? with
  | some node => node.rank
  | none => 0

def climb (nodes : Array Node) : Nat → ClassId → ClassId
  | 0, cls => cls
  | steps + 1, cls =>
    let parent := parentIn nodes cls
    if parent = cls then cls else climb nodes steps parent

theorem parentIn_push_root (nodes : Array Node) (cls : ClassId) :
    parentIn (nodes.push ⟨⟨nodes.size⟩, 0⟩) cls = parentIn nodes cls := by
  unfold parentIn
  rw [Array.getElem?_push]
  by_cases last : cls.index = nodes.size
  · simp [last]
    cases cls
    simp_all
  · simp [last]

theorem rankIn_push_root (nodes : Array Node) (cls : ClassId) :
    rankIn (nodes.push ⟨⟨nodes.size⟩, 0⟩) cls = rankIn nodes cls := by
  unfold rankIn
  rw [Array.getElem?_push]
  by_cases last : cls.index = nodes.size <;> simp [last]

theorem parentIn_set (nodes : Array Node) (changed cls : ClassId) (node : Node)
    (inside : changed.index < nodes.size) :
    parentIn (nodes.set changed.index node) cls =
      if cls = changed then node.parent else parentIn nodes cls := by
  unfold parentIn
  by_cases same : cls = changed
  · simp [same, inside]
  · have apart : changed.index ≠ cls.index := by
      cases cls; cases changed; simp_all [eq_comm]
    simp [same, apart]

theorem rankIn_set (nodes : Array Node) (changed cls : ClassId) (node : Node)
    (inside : changed.index < nodes.size) :
    rankIn (nodes.set changed.index node) cls =
      if cls = changed then node.rank else rankIn nodes cls := by
  unfold rankIn
  by_cases same : cls = changed
  · simp [same, inside]
  · have apart : changed.index ≠ cls.index := by
      cases cls; cases changed; simp_all [eq_comm]
    simp [same, apart]

end Node

structure Forest where
  nodes : Array Node
  /-- No rank is greater. -/
  height : Nat
  parent_inside : ∀ cls : ClassId, cls.index < nodes.size →
    (Node.parentIn nodes cls).index < nodes.size
  rank_climbs : ∀ cls : ClassId, Node.parentIn nodes cls ≠ cls →
    Node.rankIn nodes cls < Node.rankIn nodes (Node.parentIn nodes cls)
  rank_bounded : ∀ cls : ClassId, Node.rankIn nodes cls ≤ height

namespace Forest

def size (forest : Forest) : Nat := forest.nodes.size

def contains (forest : Forest) (cls : ClassId) : Bool := cls.index < forest.size

def parent (forest : Forest) (cls : ClassId) : ClassId := Node.parentIn forest.nodes cls

def rank (forest : Forest) (cls : ClassId) : Nat := Node.rankIn forest.nodes cls

def root (forest : Forest) (cls : ClassId) : ClassId := Node.climb forest.nodes forest.height cls

def roots (forest : Forest) : List ClassId :=
  ((List.range forest.size).map ClassId.mk).filter fun cls => forest.parent cls = cls

def singletons (count : Nat) : Forest where
  nodes := Array.ofFn fun position : Fin count => ⟨⟨position⟩, 0⟩
  height := 0
  parent_inside cls inside := by
    simp only [Array.size_ofFn] at inside
    simp [Node.parentIn, inside]
  rank_climbs cls moved := by
    by_cases inside : cls.index < count <;> simp [Node.parentIn, inside] at moved
  rank_bounded cls := by
    by_cases inside : cls.index < count <;> simp [Node.rankIn, inside]

def add (forest : Forest) : ClassId × Forest :=
  (⟨forest.size⟩, {
    nodes := forest.nodes.push ⟨⟨forest.nodes.size⟩, 0⟩
    height := forest.height
    parent_inside := fun cls inside => by
      rw [Node.parentIn_push_root]
      by_cases known : cls.index < forest.nodes.size
      · have := forest.parent_inside cls known
        simp only [Array.size_push]
        omega
      · simp only [Node.parentIn]
        simpa [known] using inside
    rank_climbs := fun cls moved => by
      rw [Node.parentIn_push_root] at moved ⊢
      rw [Node.rankIn_push_root, Node.rankIn_push_root]
      exact forest.rank_climbs cls moved
    rank_bounded := fun cls => by
      rw [Node.rankIn_push_root]
      exact forest.rank_bounded cls })

/-- Makes `target` the parent of `child`. Only a class of greater rank can become a parent. -/
def attach (forest : Forest) (child target : ClassId) : Forest :=
  if fits : (child.index < forest.nodes.size ∧ target.index < forest.nodes.size) ∧
      Node.rankIn forest.nodes child < Node.rankIn forest.nodes target then
    { nodes := forest.nodes.set child.index ⟨target, Node.rankIn forest.nodes child⟩ fits.1.1
      height := forest.height
      parent_inside := fun cls inside => by
        rw [Node.parentIn_set _ _ _ _ fits.1.1]
        simp only [Array.size_set] at inside ⊢
        split
        · exact fits.1.2
        · exact forest.parent_inside cls inside
      rank_climbs := fun cls moved => by
        have ranks : ∀ other, Node.rankIn (forest.nodes.set child.index
            ⟨target, Node.rankIn forest.nodes child⟩ fits.1.1) other =
              Node.rankIn forest.nodes other := by
          intro other
          rw [Node.rankIn_set _ _ _ _ fits.1.1]
          split <;> simp_all
        rw [ranks, ranks]
        rw [Node.parentIn_set _ _ _ _ fits.1.1] at moved ⊢
        split at moved
        · simp_all
        · simp_all [forest.rank_climbs]
      rank_bounded := fun cls => by
        rw [Node.rankIn_set _ _ _ _ fits.1.1]
        split
        · exact forest.rank_bounded child
        · exact forest.rank_bounded cls }
  else forest

def raise (forest : Forest) (top : ClassId) : Forest :=
  if isRoot : top.index < forest.nodes.size ∧ Node.parentIn forest.nodes top = top then
    { nodes := forest.nodes.set top.index ⟨top, Node.rankIn forest.nodes top + 1⟩ isRoot.1
      height := max forest.height (Node.rankIn forest.nodes top + 1)
      parent_inside := fun cls inside => by
        rw [Node.parentIn_set _ _ _ _ isRoot.1]
        simp only [Array.size_set] at inside ⊢
        split
        · exact isRoot.1
        · exact forest.parent_inside cls inside
      rank_climbs := fun cls moved => by
        rw [Node.parentIn_set _ _ _ _ isRoot.1] at moved ⊢
        split at moved
        · simp_all
        · rename_i apart
          have climbs := forest.rank_climbs cls moved
          rw [if_neg apart, Node.rankIn_set _ _ _ _ isRoot.1, Node.rankIn_set _ _ _ _ isRoot.1,
            if_neg apart]
          split
          · rename_i under
            rw [under] at climbs
            exact Nat.lt_succ_of_lt climbs
          · exact climbs
      rank_bounded := fun cls => by
        rw [Node.rankIn_set _ _ _ _ isRoot.1]
        split
        · exact Nat.le_max_right ..
        · exact Nat.le_trans (forest.rank_bounded cls) (Nat.le_max_left ..) }
  else forest

/-- Attaches every class on the way from `cls` to `top` directly to `top`. -/
def compress (top : ClassId) : Nat → ClassId → Forest → Forest
  | 0, _, forest => forest
  | steps + 1, cls, forest =>
    if cls = top then forest
    else compress top steps (forest.parent cls) (forest.attach cls top)

def find (forest : Forest) (cls : ClassId) : ClassId × Forest :=
  let top := forest.root cls
  (top, compress top forest.height cls forest)

structure Merged where
  root : ClassId
  absorbed : ClassId
  forest : Forest

/-- Merges the sets of two classes, if they are two. The root of greater rank stays; between roots
of one rank the one that was made first stays, and its rank grows. -/
def merge (forest : Forest) (a b : ClassId) : Option Merged :=
  let (a, forest) := forest.find a
  let (b, forest) := forest.find b
  if a = b then none
  else if forest.rank b < forest.rank a then some ⟨a, b, forest.attach b a⟩
  else if forest.rank a < forest.rank b then some ⟨b, a, forest.attach a b⟩
  else if a.index < b.index then some ⟨a, b, (forest.raise a).attach b a⟩
  else some ⟨b, a, (forest.raise b).attach a b⟩

theorem size_add (forest : Forest) : forest.add.2.size = forest.size + 1 := by
  simp [add, size]

theorem size_attach (forest : Forest) (child target : ClassId) :
    (forest.attach child target).size = forest.size := by
  unfold attach size
  split <;> simp

theorem size_raise (forest : Forest) (top : ClassId) : (forest.raise top).size = forest.size := by
  unfold raise size
  split <;> simp

theorem size_compress (top : ClassId) (steps : Nat) (cls : ClassId) (forest : Forest) :
    (compress top steps cls forest).size = forest.size := by
  induction steps generalizing cls forest with
  | zero => rfl
  | succ steps ih =>
    unfold compress
    split
    · rfl
    · rw [ih, size_attach]

theorem size_find (forest : Forest) (cls : ClassId) : (forest.find cls).2.size = forest.size :=
  size_compress ..

theorem size_merge {forest : Forest} {a b : ClassId} {merged : Merged}
    (found : forest.merge a b = some merged) : merged.forest.size = forest.size := by
  simp only [merge] at found
  repeat' split at found
  · cases found
  all_goals
    cases found
    simp only [size_attach, size_raise, size_find]

end Forest

namespace Forest

theorem rank_lt_parent {forest : Forest} {cls : ClassId} (moved : forest.parent cls ≠ cls) :
    forest.rank cls < forest.rank (forest.parent cls) :=
  forest.rank_climbs cls moved

theorem climb_of_root {forest : Forest} {cls : ClassId} (isRoot : forest.parent cls = cls)
    (steps : Nat) : Node.climb forest.nodes steps cls = cls := by
  cases steps with
  | zero => rfl
  | succ steps => exact if_pos isRoot

theorem climb_succ {forest : Forest} {cls : ClassId} (moved : forest.parent cls ≠ cls)
    (steps : Nat) :
    Node.climb forest.nodes (steps + 1) cls = Node.climb forest.nodes steps (forest.parent cls) :=
  if_neg moved

theorem parent_climb (forest : Forest) (steps : Nat) (cls : ClassId)
    (enough : forest.height ≤ steps + forest.rank cls) :
    forest.parent (Node.climb forest.nodes steps cls) = Node.climb forest.nodes steps cls := by
  -- A step that finds no root climbs to a greater rank, and no rank is above the height.
  induction steps generalizing cls with
  | zero =>
    by_cases isRoot : forest.parent cls = cls
    · exact isRoot
    · have climbs := rank_lt_parent isRoot
      have bounded : forest.rank (forest.parent cls) ≤ forest.height := forest.rank_bounded _
      omega
  | succ steps ih =>
    by_cases isRoot : forest.parent cls = cls
    · rw [climb_of_root isRoot]
      exact isRoot
    · have climbs := rank_lt_parent isRoot
      rw [climb_succ isRoot]
      exact ih (forest.parent cls) (by omega)

theorem parent_root (forest : Forest) (cls : ClassId) :
    forest.parent (forest.root cls) = forest.root cls :=
  forest.parent_climb forest.height cls (Nat.le_add_right ..)

theorem root_of_root {forest : Forest} {cls : ClassId} (isRoot : forest.parent cls = cls) :
    forest.root cls = cls :=
  climb_of_root isRoot forest.height

theorem root_root (forest : Forest) (cls : ClassId) :
    forest.root (forest.root cls) = forest.root cls :=
  root_of_root (forest.parent_root cls)

/-- A label that is constant along the links, and that leaves roots as they are, is the root. -/
theorem label_eq_root {forest : Forest} {label : ClassId → ClassId}
    (along : ∀ cls, label (forest.parent cls) = label cls)
    (fixed : ∀ cls, forest.parent cls = cls → label cls = cls) (cls : ClassId) :
    label cls = forest.root cls := by
  have kept : ∀ steps cls, label (Node.climb forest.nodes steps cls) = label cls := by
    intro steps
    induction steps with
    | zero => exact fun _ => rfl
    | succ steps ih =>
      intro cls
      by_cases isRoot : forest.parent cls = cls
      · rw [climb_of_root isRoot]
      · rw [climb_succ isRoot, ih, along]
  rw [← kept forest.height cls]
  exact fixed _ (forest.parent_root cls)

theorem root_parent (forest : Forest) (cls : ClassId) :
    forest.root (forest.parent cls) = forest.root cls := by
  by_cases isRoot : forest.parent cls = cls
  · rw [isRoot]
  · have climbs := rank_lt_parent isRoot
    have bounded : forest.rank (forest.parent cls) ≤ forest.height := forest.rank_bounded _
    have ended : ∀ steps cls, forest.parent (Node.climb forest.nodes steps cls) =
        Node.climb forest.nodes steps cls →
        Node.climb forest.nodes (steps + 1) cls = Node.climb forest.nodes steps cls := by
      intro steps
      induction steps with
      | zero => exact fun _ stop => climb_of_root stop 1
      | succ steps ih =>
        intro cls stop
        by_cases here : forest.parent cls = cls
        · rw [climb_of_root here, climb_of_root here]
        · rw [climb_succ here] at stop ⊢
          rw [climb_succ here]
          exact ih _ stop
    obtain ⟨steps, height⟩ : ∃ steps, forest.height = steps + 1 :=
      ⟨forest.height - 1, by omega⟩
    unfold root
    rw [height, climb_succ isRoot]
    exact ended steps _ (forest.parent_climb steps _ (by omega))

theorem parent_attach (forest : Forest) (child target cls : ClassId) :
    (forest.attach child target).parent cls = forest.parent cls ∨
      cls = child ∧ (forest.attach child target).parent cls = target := by
  unfold attach
  split
  · rename_i fits
    unfold parent
    rw [Node.parentIn_set _ _ _ _ fits.1.1]
    split
    · exact Or.inr ⟨by assumption, rfl⟩
    · exact Or.inl rfl
  · exact Or.inl rfl

theorem root_attach_root (forest : Forest) (child cls : ClassId) :
    (forest.attach child (forest.root child)).root cls = forest.root cls := by
  symm
  apply label_eq_root
  · intro cls
    rcases forest.parent_attach child (forest.root child) cls with same | ⟨rfl, moved⟩
    · rw [same, root_parent]
    · rw [moved, root_root]
  · intro cls isRoot
    rcases forest.parent_attach child (forest.root child) cls with same | ⟨rfl, moved⟩
    · exact root_of_root (same ▸ isRoot)
    · exact moved.symm.trans isRoot

theorem root_compress (top : ClassId) (steps : Nat) (cls other : ClassId) (forest : Forest)
    (reaches : forest.root cls = top) :
    (compress top steps cls forest).root other = forest.root other := by
  induction steps generalizing cls forest with
  | zero => rfl
  | succ steps ih =>
    unfold compress
    split
    · rfl
    · subst reaches
      rw [ih _ _ (by rw [root_attach_root, root_parent]), root_attach_root]

theorem root_find (forest : Forest) (cls other : ClassId) :
    (forest.find cls).2.root other = forest.root other :=
  root_compress _ _ _ _ _ rfl

end Forest

end TypeRecovery
