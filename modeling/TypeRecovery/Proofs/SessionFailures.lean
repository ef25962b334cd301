import TypeRecovery.Proofs.SessionSemantics
/-!
Sessions in which calls fail. A batch that fails takes its equalities with it, but not the names
that it bound, so what these were defined by may never be equated with them. A propagation that
fails takes with it the equalities that waited and those that its merges had implied. All other
observations hold whenever a propagation succeeds, and no failure parts what was one class.
-/
namespace TypeRecovery

namespace Store

/-- The class is that of a typedef name and, as far as definitions are not lost, of each name that
this one is defined by. -/
def Aliases (store : Store) (lost : List String) (cls : ClassId) : Hint → Prop
  | .named name definition => (∃ known, store.typedef? name = some (cls, known)) ∧
      (name ∉ lost → store.Aliases lost cls definition)
  | _ => True

/-- All that observations say is true of the classes of the store, and so are the equalities that
follow because one class is in each role for another. -/
structure Satisfies (store : Store) (pointerSize : UInt8) (lost : List String)
    (observations : List Observation) : Prop where
  observed : ∀ observation ∈ observations, store.scene.Observed pointerSize lost observation
  unique : store.model.Unique
  assigned : ∀ observation ∈ observations, ∀ source, observation.use = .assignedFrom source →
    store.classOf observation.location = store.classOf source
  compared : ∀ observation ∈ observations, ∀ other signedness,
    observation.use = .comparedWith other signedness →
      store.classOf observation.location = store.classOf other
  passed : ∀ first ∈ observations, ∀ second ∈ observations, ∀ args others,
    first.use = .callWithArgs args → second.use = .callWithArgs others →
      store.classOf first.location = store.classOf second.location → ∀ (place : Nat) arg other,
        args[place]? = some arg → others[place]? = some other →
          store.classOf arg = store.classOf other
  returned : ∀ first ∈ observations, ∀ second ∈ observations, ∀ callee other,
    first.use = .callReturns callee → second.use = .callReturns other →
      store.classOf callee = store.classOf other →
        store.classOf first.location = store.classOf second.location
  loaded : ∀ first ∈ observations, ∀ second ∈ observations, ∀ base other offset size,
    first.use = .dereference base offset size → second.use = .dereference other offset size →
      store.classOf base = store.classOf other →
        store.classOf first.location = store.classOf second.location
  aliased : ∀ observation ∈ observations, ∀ hint, observation.hint = some hint →
    store.Aliases lost (store.classOf observation.location) hint

variable {store : Store} {pointerSize : UInt8} {lost : List String}
  {observations : List Observation}

theorem aliases_of_declared {cls : ClassId} (inside : cls.index < store.size) (hint : Hint)
    (declared : store.scene.Declared pointerSize lost hint cls) : store.Aliases lost cls hint := by
  match hint with
  | .named name definition =>
    simp only [Scene.Declared] at declared
    obtain ⟨same, defined⟩ := declared
    refine ⟨?_, fun kept => aliases_of_declared inside definition (defined kept).2⟩
    cases found : store.typedef? name with
    | some entry =>
      simp only [scene, found] at same
      exact ⟨entry.2, by rw [same]⟩
    | none =>
      simp only [scene, found] at same
      rw [same] at inside
      exact absurd inside (Nat.lt_irrefl _)
  | .void | .int _ _ | .pointer _ | .function _ _ _ => trivial

theorem satisfies_of_observed (unique : store.model.Unique)
    (inside : ∀ observation ∈ observations,
      (store.classOf observation.location).index < store.size)
    (observed : ∀ observation ∈ observations, store.scene.Observed pointerSize lost observation) :
    store.Satisfies pointerSize lost observations := by
  have used {observation : Observation} {use : Use} (member : observation ∈ observations)
      (same : observation.use = use) :
      store.scene.Used (store.classOf observation.location) use := same ▸ (observed _ member).1
  constructor
  · exact observed
  · exact unique
  · intro observation member source assigned
    exact (used member assigned).2
  · intro observation member other signedness compared
    exact (used member compared).2
  · intro first firstMember second secondMember args others call again same place arg other here
      there
    obtain ⟨_, _, _, takes⟩ := used firstMember call
    obtain ⟨_, _, _, takes'⟩ := used secondMember again
    have given := takes' place other there
    rw [← same] at given
    exact unique (takes place arg here) given
  · intro first firstMember second secondMember callee other call again same
    obtain ⟨_, _, gives⟩ := used firstMember call
    obtain ⟨_, _, gives'⟩ := used secondMember again
    have one : store.scene.place callee = store.scene.place other := same
    rw [← one] at gives'
    exact unique gives gives'
  · intro first firstMember second secondMember base other offset size load reload same
    obtain ⟨_, _, target, points, slot⟩ := used firstMember load
    obtain ⟨_, _, target', points', slot'⟩ := used secondMember reload
    have one : store.scene.place base = store.scene.place other := same
    rw [← one] at points'
    rw [unique points' points] at slot'
    exact unique slot slot'
  · intro observation member hint hinted
    exact aliases_of_declared (inside _ member) hint ((observed _ member).2 hint hinted)

def names (store : Store) : List String := store.typedefs.map Typedef.name

theorem mem_names {name : String} (bound : store.typedef? name ≠ none) : name ∈ store.names := by
  unfold typedef? at bound
  cases found : store.typedefs.find? fun typedef => typedef.name = name with
  | none => simp [found] at bound
  | some typedef =>
    have same : typedef.name = name := by simpa using List.find?_some found
    exact List.mem_map.2 ⟨typedef, List.mem_of_find?_eq_some found, same⟩

end Store

namespace Propagation

variable {schedule : Schedule} {state after final : Propagation} {a b : ClassId}

theorem joined_leads (leads : Step.Leads schedule state after) (inside : state.Inside)
    (same : state.store.root a = state.store.root b) :
    after.store.root a = after.store.root b := by
  cases leads with
  | same first second pending known store => rw [store, same]
  | united first second more merge pending found =>
    have unites := inside.unites pending found
    rw [unites.root, unites.root, same]
  | refined cls more pending worklist rest store =>
    rw [store]
    exact same

theorem Steps.joined {count : Nat} (steps : Steps schedule count state final)
    (inside : state.Inside) (same : state.store.root a = state.store.root b) :
    final.store.root a = final.store.root b := by
  induction steps with
  | none => exact same
  | next found _ ih =>
    have leads := @leads schedule _ _ _ found
    exact ih (inside_leads leads inside) (joined_leads leads inside same)

end Propagation

theorem Seeding.follows_locations {pointerSize : UInt8} {lost : List String} {count : Nat}
    {after : Seeding} (locationCount : after.store.locationCount = count)
    (wellFormed : after.WellFormed)
    (bound : ∀ name, after.store.typedef? name ≠ none → name ∈ lost) :
    Follows pointerSize lost [] (start (.withLocations count)) after where
  size := by
    have inside : count ≤ after.store.size := locationCount ▸ after.store.locations_inside
    simpa [start, Store.withLocations, Store.size, Forest.size, Forest.singletons] using inside
  locationCount := locationCount
  wellFormed := wellFormed
  declared := List.forall_mem_nil _
  holds_of holds := holds_start.2 fun loc declared => holds.place loc (locationCount ▸ declared)
  observed _ _ := by
    refine ⟨fun name entry found kept => absurd (bound name ?_) kept, List.forall_mem_nil _⟩
    rw [found]
    exact Option.some_ne_none entry

inductive Call where
  | seed (observations : List Observation)
  | propagate (schedule : Schedule)

/-- A session, what was observed that it remembers, and the names whose definitions it may not. -/
structure Ledger where
  session : Session
  kept : List Observation
  lost : List String

namespace Ledger

def start (config : Config) (locationCount : Nat) : Ledger := ⟨.start config locationCount, [], []⟩

/-- A batch is kept unless it fails. If it does, the names that it was the first to use are lost.
All is lost in a propagation that fails. -/
def call (ledger : Ledger) : Call → Ledger
  | .seed observations =>
    let seeded := ledger.session.seed observations
    match seeded.2 with
    | none => { ledger with session := seeded.1, kept := ledger.kept ++ observations }
    | some _ => { ledger with
        session := seeded.1
        lost := ledger.lost ++ seeded.1.store.names.filter fun name =>
          (ledger.session.store.typedef? name).isNone }
  | .propagate schedule =>
    let closed := ledger.session.propagate schedule
    match closed.2 with
    | .ok _ => { ledger with session := closed.1 }
    | .error _ => ⟨closed.1, [], ledger.lost ++ closed.1.store.names⟩

def run (config : Config) (locationCount : Nat) (calls : List Call) : Ledger :=
  calls.foldl call (start config locationCount)

variable {ledger : Ledger} {count : Nat}

/-- What is kept is known, as far as it does not rest on a definition that is lost. -/
def Correct (count : Nat) (ledger : Ledger) : Prop :=
  ∀ lost, ledger.lost ⊆ lost → Seeding.Follows ledger.session.config.pointerSize lost ledger.kept
    (Seeding.start (.withLocations count)) ledger.session.seeding

theorem correct_start (config : Config) (count : Nat) : Correct count (start config count) :=
  fun _ _ => .refl (Seeding.wellFormed_start count)

theorem Correct.wellFormed (correct : Correct count ledger) : ledger.session.seeding.WellFormed :=
  (correct ledger.lost (List.Subset.refl _)).wellFormed

theorem correct_seed (correct : Correct count ledger) (observations : List Observation) :
    Correct count (ledger.call (.seed observations)) := by
  have config := Session.config_seed ledger.session observations
  cases seeded : (ledger.session.seed observations).2 with
  | none =>
    simp only [Correct, call, seeded, config]
    intro lost within
    exact (correct lost within).trans
      ((Session.replays_seed correct.wellFormed seeded).follows lost)
  | some failure =>
    simp only [Correct, call, seeded, config]
    intro lost within
    obtain ⟨before, new⟩ := List.append_subset.1 within
    have same := Session.seed_error seeded
    rw [same] at new ⊢
    refine (correct lost before).onward
      (Seeding.follows_observeAll correct.wellFormed observations ?_)
    intro name free bound
    apply new
    rw [List.mem_filter]
    exact ⟨Store.mem_names bound, by rw [free]; rfl⟩

theorem Correct.follows_propagate {schedule : Schedule} {work : Work} {lost : List String}
    (correct : Correct count ledger) (ok : (ledger.session.propagate schedule).2 = .ok work)
    (within : ledger.lost ⊆ lost) :
    Seeding.Follows ledger.session.config.pointerSize lost ledger.kept
      (Seeding.start (.withLocations count)) (ledger.session.propagate schedule).1.seeding :=
  (correct lost within).onward ((Session.replays_propagate correct.wellFormed ok).follows lost)

theorem correct_propagate (correct : Correct count ledger) (schedule : Schedule) :
    Correct count (ledger.call (.propagate schedule)) := by
  cases closed : (ledger.session.propagate schedule).2 with
  | ok work =>
    simp only [Correct, call, closed]
    exact fun lost => correct.follows_propagate closed
  | error failure =>
    simp only [Correct, call, closed]
    intro lost within
    obtain ⟨_, bound⟩ := List.append_subset.1 within
    obtain ⟨steps, final, taken, same⟩ := Session.propagate_steps ledger.session schedule
    rw [same] at bound ⊢
    have follows := correct ledger.lost (List.Subset.refl _)
    have kept := Seeding.declarations_steps correct.wellFormed taken
    apply Seeding.follows_locations
    · exact kept.1.trans follows.locationCount
    · exact Seeding.wellFormed_steps correct.wellFormed taken
    · intro name found
      exact bound (Store.mem_names found)

theorem correct_call (correct : Correct count ledger) (call : Call) :
    Correct count (ledger.call call) := by
  cases call with
  | seed observations => exact correct_seed correct observations
  | propagate schedule => exact correct_propagate correct schedule

theorem correct_calls (correct : Correct count ledger) (calls : List Call) :
    Correct count (calls.foldl call ledger) := by
  induction calls generalizing ledger with
  | nil => exact correct
  | cons first rest ih => exact ih (correct_call correct first)

theorem Correct.joined_propagate (correct : Correct count ledger) (schedule : Schedule)
    {a b : ClassId} (same : ledger.session.store.root a = ledger.session.store.root b) :
    (ledger.session.propagate schedule).1.store.root a =
      (ledger.session.propagate schedule).1.store.root b := by
  obtain ⟨steps, final, taken, ended⟩ := Session.propagate_steps ledger.session schedule
  rw [ended]
  exact taken.joined correct.wellFormed.inside same

theorem Correct.joined_call (correct : Correct count ledger) (call : Call) {a b : ClassId}
    (same : ledger.session.store.root a = ledger.session.store.root b) :
    (ledger.call call).session.store.root a = (ledger.call call).session.store.root b := by
  cases call with
  | seed observations =>
    have onward := @Seeding.observeAll_extends _ ledger.session.config.pointerSize observations
      correct.wellFormed.start
    have joined := (onward.root a).trans (same.trans (onward.root b).symm)
    cases seeded : (ledger.session.seed observations).2 with
    | none =>
      obtain ⟨after, observed, ended⟩ := Session.seed_ok seeded
      rw [observed] at joined
      simp only [Ledger.call, seeded]
      rw [ended]
      exact joined
    | some failure =>
      simp only [Ledger.call, seeded]
      rw [Session.seed_error seeded]
      exact joined
  | propagate schedule =>
    simp only [Ledger.call]
    split <;> exact correct.joined_propagate schedule same

theorem Correct.joined_calls (correct : Correct count ledger) (calls : List Call) {a b : ClassId}
    (same : ledger.session.store.root a = ledger.session.store.root b) :
    (calls.foldl call ledger).session.store.root a =
      (calls.foldl call ledger).session.store.root b := by
  induction calls generalizing ledger with
  | nil => exact same
  | cons first rest ih => exact ih (correct_call correct first) (correct.joined_call first same)

theorem config_call (ledger : Ledger) (call : Call) :
    (ledger.call call).session.config = ledger.session.config := by
  cases call with
  | seed observations =>
    simp only [Ledger.call]
    split <;> exact Session.config_seed _ _
  | propagate schedule =>
    simp only [Ledger.call]
    split <;> rfl

theorem config_calls (ledger : Ledger) (calls : List Call) :
    (calls.foldl call ledger).session.config = ledger.session.config := by
  induction calls generalizing ledger with
  | nil => rfl
  | cons first rest ih => exact (ih _).trans (config_call ledger first)

end Ledger

theorem Store.satisfies_of_follows {pointerSize : UInt8} {lost : List String}
    {observations : List Observation} {count : Nat} {store : Store}
    (follows : Seeding.Follows pointerSize lost observations
      (Seeding.start (.withLocations count)) (Seeding.start store)) :
    store.Satisfies pointerSize lost observations := by
  apply satisfies_of_observed follows.wellFormed.unique _ follows.observed_scene
  intro observation member
  have declared : observation.location.index < count :=
    follows.declared _ member _ List.mem_cons_self
  have locationCount : store.locationCount = count := follows.locationCount
  rw [← locationCount] at declared
  exact root_inside (Nat.lt_of_lt_of_le declared store.locations_inside)

/-- Whatever calls were made on a session, and whichever of them failed, once a propagation succeeds
the classes satisfy all that was observed and not lost, and classes that were one at any time are.
-/
theorem satisfies_of_propagate {config : Config} {count : Nat} {calls : List Call}
    {schedule : Schedule} {work : Work}
    (ok : ((Ledger.run config count calls).session.propagate schedule).2 = .ok work) :
    let ledger := Ledger.run config count calls
    let store := (ledger.session.propagate schedule).1.store
    store.Satisfies config.pointerSize ledger.lost ledger.kept ∧
      ∀ earlier, earlier <+: calls → ∀ a b,
        let before := (Ledger.run config count earlier).session.store
        before.root a = before.root b → store.root a = store.root b := by
  have correct := Ledger.correct_calls (Ledger.correct_start config count) calls
  constructor
  · have after := correct.follows_propagate ok (List.Subset.refl _)
    rw [Ledger.config_calls] at after
    exact Store.satisfies_of_follows after
  · rintro earlier ⟨later, rfl⟩ a b before one
    have begun := Ledger.correct_calls (Ledger.correct_start config count) earlier
    have joined := begun.joined_calls later one
    rw [← List.foldl_append] at joined
    exact correct.joined_propagate schedule joined

def chain : Observation := ⟨⟨0⟩, ⟨0⟩, .read 4, some (.named "A" (.named "B" (.int 4 none)))⟩

def link : Observation := ⟨⟨4⟩, ⟨1⟩, .read 4, some (.named "B" (.int 4 none))⟩

def copied : Observation := ⟨⟨8⟩, ⟨2⟩, .assignedFrom ⟨1⟩, none⟩

def stray : Observation := ⟨⟨12⟩, ⟨3⟩, .read 4, none⟩

def interrupted : List Call :=
  [.seed [chain, link], .seed [copied, stray], .propagate .listed, .seed [copied]]

theorem satisfies_of_propagate_interrupted : ∃ work,
    let ledger := Ledger.run {} 3 interrupted
    ledger.session.propagate.2 = .ok work ∧ ledger.kept = [chain, link, copied] ∧
      ledger.session.propagate.1.store.Satisfies 8 [] [chain, link, copied] := by
  have ok : ∃ work, (Ledger.run {} 3 interrupted).session.propagate.2 = .ok work := ⟨_, rfl⟩
  obtain ⟨work, ok⟩ := ok
  exact ⟨work, ok, rfl, (satisfies_of_propagate ok).1⟩

/-- The batch that fails is the first to use the names. -/
def strayed : List Call := [.seed [chain, stray], .seed [chain, link]]

/-- The definition of the first name takes no effect then, though it is given again. -/
theorem satisfies_not_strayed : ∃ work,
    let ledger := Ledger.run {} 3 strayed
    ledger.session.propagate.2 = .ok work ∧ ledger.kept = [chain, link] ∧
      ¬ ledger.session.propagate.1.store.Satisfies 8 [] [chain, link] := by
  have ok : ∃ work, (Ledger.run {} 3 strayed).session.propagate.2 = .ok work := ⟨_, rfl⟩
  obtain ⟨work, ok⟩ := ok
  have apart : (Ledger.run {} 3 strayed).session.propagate.1.store.classOf ⟨0⟩ ≠
      (Ledger.run {} 3 strayed).session.propagate.1.store.classOf ⟨1⟩ := by decide
  refine ⟨work, ok, rfl, fun satisfies => ?_⟩
  have first := satisfies.aliased chain (by decide) _ rfl
  have second := satisfies.aliased link (by decide) _ rfl
  simp only [Store.Aliases] at first second
  obtain ⟨_, inner⟩ := first
  obtain ⟨⟨known, named⟩, _⟩ := inner List.not_mem_nil
  obtain ⟨⟨other, named'⟩, _⟩ := second
  exact apart (congrArg Prod.fst (Option.some.inj (named.symm.trans named')))

end TypeRecovery
