import TypeRecovery.Constraint
/-!
Slot lists under addition. A slot that was held is never given up, and a slot that is added is held
afterwards, or another slot for the same field is and the two classes are handed back as a pair. The
order of the list, and with it the uniqueness of its fields, is kept.
-/
namespace TypeRecovery.Slot

theorem mem_insert {slot other : Slot} {slots : List Slot} :
    other ∈ insert slot slots ↔ other = slot ∨ other ∈ slots := by
  induction slots with
  | nil => simp [insert]
  | cons head rest ih =>
    by_cases first : slot.Before head
    · simp [insert, first]
    · simp only [insert, first, if_false, List.mem_cons, ih]
      exact or_left_comm

theorem add_cases (slots : List Slot) (slot : Slot) :
    (∃ known ∈ slots, known.SameField slot ∧
      add slots slot = (slots, if known.cls = slot.cls then none else some (known.cls, slot.cls))) ∨
    (∀ known ∈ slots, ¬ known.SameField slot) ∧ add slots slot = (insert slot slots, none) := by
  unfold add
  split
  · rename_i known found
    have same := List.find?_some found
    simp only [decide_eq_true_eq] at same
    exact Or.inl ⟨known, List.mem_of_find?_eq_some found, same, rfl⟩
  · rename_i absent
    refine Or.inr ⟨fun known member same => ?_, rfl⟩
    exact absurd (decide_eq_true same) (List.find?_eq_none.1 absent known member)

theorem mem_add {slots : List Slot} {slot other : Slot} (member : other ∈ (add slots slot).1) :
    other ∈ slots ∨ other = slot := by
  rcases add_cases slots slot with ⟨_, _, _, added⟩ | ⟨_, added⟩
  · rw [added] at member
    exact Or.inl member
  · rw [added, mem_insert] at member
    exact member.symm

theorem add_keeps {slots : List Slot} (slot : Slot) {other : Slot} (member : other ∈ slots) :
    other ∈ (add slots slot).1 := by
  rcases add_cases slots slot with ⟨_, _, _, added⟩ | ⟨_, added⟩
  · rw [added]
    exact member
  · rw [added, mem_insert]
    exact Or.inr member

/-- The added field is in the list, if not with the added class then with one paired with it. -/
theorem add_represents (slots : List Slot) (slot : Slot) :
    ∃ held ∈ (add slots slot).1, held.SameField slot ∧
      (held.cls = slot.cls ∨ (add slots slot).2 = some (held.cls, slot.cls)) := by
  rcases add_cases slots slot with ⟨known, member, same, added⟩ | ⟨_, added⟩
  · refine ⟨known, by rw [added]; exact member, same, ?_⟩
    by_cases equal : known.cls = slot.cls
    · exact Or.inl equal
    · exact Or.inr (by simp [added, equal])
  · exact ⟨slot, by rw [added, mem_insert]; exact Or.inl rfl, ⟨rfl, rfl⟩, Or.inl rfl⟩

theorem add_pair {slots : List Slot} {slot : Slot} {pair : ClassPair}
    (found : (add slots slot).2 = some pair) :
    ∃ known ∈ slots, known.SameField slot ∧ pair = (known.cls, slot.cls) := by
  rcases add_cases slots slot with ⟨known, member, same, added⟩ | ⟨_, added⟩
  · rw [added] at found
    refine ⟨known, member, same, ?_⟩
    by_cases equal : known.cls = slot.cls
    · simp [equal] at found
    · simpa [equal, eq_comm] using found
  · simp [added] at found

theorem Before.offset_le {a b : Slot} (before : a.Before b) : a.offset ≤ b.offset :=
  before.elim Int64.le_of_lt fun ⟨same, _⟩ => same ▸ Int64.le_refl _

theorem Before.trans {a b c : Slot} (first : a.Before b) (second : b.Before c) : a.Before c := by
  simp only [Before, Int64.lt_iff_toInt_lt, UInt8.lt_iff_toNat_lt] at first second ⊢
  rcases first with first | ⟨same, first⟩ <;> rcases second with second | ⟨same', second⟩
  · exact Or.inl (by omega)
  · exact Or.inl (by rw [← same']; exact first)
  · exact Or.inl (by rw [same]; exact second)
  · exact Or.inr ⟨same.trans same', by omega⟩

theorem before_of_not_before {a b : Slot} (apart : ¬ a.SameField b) (late : ¬ a.Before b) :
    b.Before a := by
  simp only [Before, SameField, Int64.lt_iff_toInt_lt, UInt8.lt_iff_toNat_lt, not_or,
    not_and, ← Int64.toInt_inj, ← UInt8.toNat_inj] at apart late ⊢
  by_cases same : a.offset.toInt = b.offset.toInt
  · have sizes := apart same
    have order := late.2 same
    exact Or.inr ⟨same.symm, by omega⟩
  · exact Or.inl (by omega)

theorem insert_ordered {slot : Slot} {slots : List Slot} (ordered : Ordered slots)
    (apart : ∀ known ∈ slots, ¬ known.SameField slot) : Ordered (insert slot slots) := by
  induction slots with
  | nil => exact List.pairwise_singleton ..
  | cons head rest ih =>
    have later := (List.pairwise_cons.1 ordered).1
    have tail := (List.pairwise_cons.1 ordered).2
    by_cases first : slot.Before head
    · simp only [insert, first, if_true]
      refine List.pairwise_cons.2 ⟨fun other member => ?_, ordered⟩
      rcases List.mem_cons.1 member with rfl | member
      · exact first
      · exact first.trans (later other member)
    · simp only [insert, first, if_false]
      refine List.pairwise_cons.2
        ⟨fun other member => ?_,
          ih tail fun known held => apart known (List.mem_cons_of_mem _ held)⟩
      rcases mem_insert.1 member with rfl | held
      · exact before_of_not_before
          (fun same => apart head List.mem_cons_self ⟨same.1.symm, same.2.symm⟩) first
      · exact later other held

theorem add_ordered {slots : List Slot} (slot : Slot) (ordered : Ordered slots) :
    Ordered (add slots slot).1 := by
  rcases add_cases slots slot with ⟨_, _, _, added⟩ | ⟨apart, added⟩
  · rw [added]
    exact ordered
  · rw [added]
    exact insert_ordered ordered apart

theorem addAll_ordered {slots : List Slot} (more : List Slot) (ordered : Ordered slots) :
    Ordered (addAll slots more).1 := by
  induction more generalizing slots with
  | nil => exact ordered
  | cons slot rest ih => exact ih (add_ordered slot ordered)

def Ascending (slots : List Slot) : Prop := slots.Pairwise fun a b => a.offset ≤ b.offset

instance (slots : List Slot) : Decidable (Ascending slots) :=
  inferInstanceAs (Decidable (slots.Pairwise fun a b => a.offset ≤ b.offset))

theorem le_of_not_before {a b : Slot} (late : ¬ a.Before b) : b.offset ≤ a.offset :=
  Int64.not_lt.1 fun less => late (Or.inl less)

theorem insert_ascending (slot : Slot) {slots : List Slot} (ascending : Ascending slots) :
    Ascending (insert slot slots) := by
  induction slots with
  | nil => exact List.pairwise_singleton _ _
  | cons head rest ih =>
    obtain ⟨first, later⟩ := List.pairwise_cons.1 ascending
    unfold insert
    split
    · rename_i before
      refine List.pairwise_cons.2 ⟨List.forall_mem_cons.2 ⟨before.offset_le, ?_⟩, ascending⟩
      exact fun other member => Int64.le_trans before.offset_le (first other member)
    · rename_i late
      refine List.pairwise_cons.2 ⟨fun other member => ?_, ih later⟩
      rcases mem_insert.1 member with rfl | member
      · exact le_of_not_before late
      · exact first other member

theorem addAll_ascending {slots : List Slot} (more : List Slot) (ascending : Ascending slots) :
    Ascending (addAll slots more).1 := by
  induction more generalizing slots with
  | nil => exact ascending
  | cons slot rest ih =>
    apply ih
    rcases add_cases slots slot with ⟨_, _, _, added⟩ | ⟨_, added⟩ <;> rw [added]
    · exact ascending
    · exact insert_ascending slot ascending

theorem Ordered.ascending {slots : List Slot} (ordered : Ordered slots) : Ascending slots :=
  ordered.imp Before.offset_le

theorem mem_addAll {slots more : List Slot} {other : Slot}
    (member : other ∈ (addAll slots more).1) : other ∈ slots ∨ other ∈ more := by
  induction more generalizing slots with
  | nil => exact Or.inl member
  | cons slot rest ih =>
    rcases ih member with held | later
    · rcases mem_add held with held | rfl
      · exact Or.inl held
      · exact Or.inr List.mem_cons_self
    · exact Or.inr (List.mem_cons_of_mem _ later)

theorem addAll_keeps {slots : List Slot} (more : List Slot) {other : Slot}
    (member : other ∈ slots) :
    other ∈ (addAll slots more).1 := by
  induction more generalizing slots with
  | nil => exact member
  | cons slot rest ih => exact ih (add_keeps slot member)

theorem addAll_represents {slots more : List Slot} {slot : Slot} (member : slot ∈ more) :
    ∃ held ∈ (addAll slots more).1, held.SameField slot ∧
      (held.cls = slot.cls ∨ (held.cls, slot.cls) ∈ (addAll slots more).2) := by
  induction more generalizing slots with
  | nil => cases member
  | cons first rest ih =>
    rcases List.mem_cons.1 member with rfl | later
    · rcases add_represents slots slot with ⟨held, present, same, paired⟩
      refine ⟨held, addAll_keeps rest present, same, paired.imp_right fun pair => ?_⟩
      simp [addAll, pair]
    · rcases @ih (add slots first).1 later with ⟨held, present, same, paired⟩
      refine ⟨held, present, same, paired.imp_right fun pair => ?_⟩
      exact List.mem_append_right _ pair

theorem addAll_pair {slots more : List Slot} {pair : ClassPair}
    (found : pair ∈ (addAll slots more).2) :
    ∃ known, (known ∈ slots ∨ known ∈ more) ∧ ∃ slot ∈ more, known.SameField slot ∧
      pair = (known.cls, slot.cls) := by
  induction more generalizing slots with
  | nil => cases found
  | cons first rest ih =>
    rcases List.mem_append.1 found with here | later
    · rcases add_pair (Option.mem_toList.1 here) with ⟨known, member, same, rfl⟩
      exact ⟨known, Or.inl member, first, List.mem_cons_self, same, rfl⟩
    · rcases ih later with ⟨known, member, slot, added, same, rfl⟩
      refine ⟨known, ?_, slot, List.mem_cons_of_mem _ added, same, rfl⟩
      rcases member with held | held
      · rcases mem_add held with held | rfl
        · exact Or.inl held
        · exact Or.inr List.mem_cons_self
      · exact Or.inr (List.mem_cons_of_mem _ held)

def Separate (slots : List Slot) : Prop := slots.Pairwise fun a b => ¬ a.SameField b

theorem separate_of_ordered {slots : List Slot} (ordered : Ordered slots) : Separate slots := by
  refine List.Pairwise.imp ?_ ordered
  rintro a b before ⟨sameOffset, sameSize⟩
  rcases before with before | ⟨_, before⟩
  · rw [sameOffset] at before
    exact Int64.lt_irrefl before
  · rw [sameSize] at before
    exact UInt8.lt_irrefl _ before

theorem eq_of_sameField {slots : List Slot} {a b : Slot} (separate : Separate slots)
    (aMember : a ∈ slots) (bMember : b ∈ slots) (same : a.SameField b) : a = b := by
  rcases List.mem_iff_getElem.1 aMember with ⟨i, iInside, rfl⟩
  rcases List.mem_iff_getElem.1 bMember with ⟨j, jInside, rfl⟩
  have apart := List.pairwise_iff_getElem.1 separate
  rcases Nat.lt_trichotomy i j with before | rfl | after
  · exact absurd same (apart i j iInside jInside before)
  · rfl
  · exact absurd ⟨same.1.symm, same.2.symm⟩ (apart j i jInside iInside after)

theorem insert_perm (slot : Slot) (slots : List Slot) :
    (insert slot slots).Perm (slot :: slots) := by
  induction slots with
  | nil => exact .refl _
  | cons head rest ih =>
    by_cases first : slot.Before head
    · simp [insert, first]
    · simp only [insert, first, if_false]
      exact (ih.cons head).trans (.swap slot head rest)

theorem add_separate {slots : List Slot} (slot : Slot) (separate : Separate slots) :
    Separate (add slots slot).1 := by
  rcases add_cases slots slot with ⟨_, _, _, added⟩ | ⟨apart, added⟩
  · rw [added]
    exact separate
  · rw [added]
    have symmetric {a b : Slot} (apart : ¬ a.SameField b) : ¬ b.SameField a :=
      fun same => apart ⟨same.1.symm, same.2.symm⟩
    refine ((insert_perm slot slots).pairwise_iff symmetric).2 (List.pairwise_cons.2 ⟨?_, separate⟩)
    exact fun known member => symmetric (apart known member)

theorem addAll_separate {slots : List Slot} (more : List Slot) (separate : Separate slots) :
    Separate (addAll slots more).1 := by
  induction more generalizing slots with
  | nil => exact separate
  | cons slot rest ih => exact ih (add_separate slot separate)

end TypeRecovery.Slot
