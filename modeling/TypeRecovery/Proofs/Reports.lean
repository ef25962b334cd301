import Mathlib.Data.List.Basic
import Mathlib.Order.Compare
import TypeRecovery.Constraint
import TypeRecovery.Diagnostic
/-!
Reports of diagnostics. A report is in order, and nothing comes twice in it that came twice in a
row. A conflict names the declaration that was dropped and the one that was kept, and neither has a
blank in it, so code and message tell which conflict a warning is of. Hence a report of warnings is
determined by what there is to report, however often and in whatever order it was found.
-/
namespace TypeRecovery

instance : Std.TransOrd Subject :=
  inferInstanceAs (Std.TransCmp (compareLex (compareOn fun subject : Subject => subject.position.1)
    (compareOn fun subject : Subject => subject.position.2)))

instance : Std.LawfulEqOrd Subject where
  eq_of_compare {a b} same := by
    obtain ⟨sort, number⟩ := Ordering.then_eq_eq.1 same
    have sort := Std.LawfulEqOrd.eq_of_compare sort
    have number := Std.LawfulEqOrd.eq_of_compare number
    rcases a with ⟨⟨_⟩⟩ | ⟨⟨_⟩⟩ | ⟨⟨_⟩⟩ <;> rcases b with ⟨⟨_⟩⟩ | ⟨⟨_⟩⟩ | ⟨⟨_⟩⟩ <;>
      simp_all [Subject.position, UInt64.toNat_inj]

instance : Std.TransOrd Code := inferInstanceAs (Std.TransCmp (compareOn Code.number))

instance : Std.LawfulEqOrd Code where
  eq_of_compare {a b} same := by
    have number : a.number = b.number := Std.LawfulEqOrd.eq_of_compare same
    cases a <;> cases b <;> first | rfl | cases number

namespace Diagnostic

instance : Std.TransCmp order :=
  inferInstanceAs (Std.TransCmp (compareLex (compareOn primarySubject?)
    (compareLex (compareOn code) (compareOn message))))

theorem eq_of_order {a b : Diagnostic} (same : order a b = .eq) :
    a.primarySubject? = b.primarySubject? ∧ a.code = b.code ∧ a.message = b.message := by
  obtain ⟨subject, rest⟩ := Ordering.then_eq_eq.1 same
  obtain ⟨code, message⟩ := Ordering.then_eq_eq.1 rest
  exact ⟨Std.LawfulEqOrd.eq_of_compare subject, Std.LawfulEqOrd.eq_of_compare code,
    Std.LawfulEqOrd.eq_of_compare message⟩

variable {diagnostics : List Diagnostic}

theorem pairwise_insert (diagnostic : Diagnostic)
    (sorted : diagnostics.Pairwise fun a b => (order a b).isLE) :
    (insert diagnostic diagnostics).Pairwise fun a b => (order a b).isLE := by
  induction diagnostics with
  | nil => exact List.pairwise_singleton _ _
  | cons head rest ih =>
    obtain ⟨least, sorted⟩ := List.pairwise_cons.1 sorted
    unfold insert
    split
    · rename_i after
      refine List.pairwise_cons.2 ⟨fun other member => ?_, ih sorted⟩
      rcases mem_insert.1 member with rfl | member
      · exact Ordering.isLE_of_eq_lt (Std.OrientedCmp.gt_iff_lt.1 after)
      · exact least other member
    · rename_i before
      have first : (order diagnostic head).isLE := Ordering.isLE_iff_ne_gt.2 before
      refine List.pairwise_cons.2 ⟨fun other member => ?_, List.pairwise_cons.2 ⟨least, sorted⟩⟩
      rcases List.mem_cons.1 member with rfl | member
      · exact first
      · exact Std.TransCmp.isLE_trans first (least other member)

theorem pairwise_sort (diagnostics : List Diagnostic) :
    (sort diagnostics).Pairwise fun a b => (order a b).isLE := by
  unfold sort
  induction diagnostics with
  | nil => exact List.Pairwise.nil
  | cons first rest ih => exact pairwise_insert first ih

theorem eraseReps_cons (first second : Diagnostic) (rest : List Diagnostic) :
    (first :: second :: rest).eraseReps =
      if first = second then (second :: rest).eraseReps
      else first :: (second :: rest).eraseReps := by
  -- The loop of the library keeps what it has done in reverse.
  have looped (last : Diagnostic) (rest done : List Diagnostic) :
      List.eraseRepsBy.loop (· == ·) last rest done = done.reverse ++ (last :: rest).eraseReps := by
    induction rest generalizing last done with
    | nil => exact List.reverse_cons
    | cons next rest ih =>
      show List.eraseRepsBy.loop _ _ _ _ = done.reverse ++ List.eraseRepsBy.loop _ _ _ []
      unfold List.eraseRepsBy.loop
      split
      · exact ih last done
      · rw [ih next (last :: done), ih next [last], List.reverse_cons, List.append_assoc]
        rfl
  show List.eraseRepsBy.loop _ _ _ [] = _
  unfold List.eraseRepsBy.loop
  split
  · rename_i same
    rw [if_pos (eq_of_beq same), eq_of_beq same]
    rfl
  · rename_i apart
    rw [if_neg (ne_of_beq_false apart), looped]
    rfl

def Apart (diagnostics : List Diagnostic) : Prop :=
  ∀ a ∈ diagnostics, ∀ b ∈ diagnostics, order a b = .eq → a = b

theorem pairwise_eraseReps (sorted : diagnostics.Pairwise fun a b => (order a b).isLE)
    (apart : Apart diagnostics) : diagnostics.eraseReps.Pairwise fun a b => order a b = .lt := by
  induction diagnostics with
  | nil => exact List.Pairwise.nil
  | cons first rest ih =>
    obtain ⟨least, sorted⟩ := List.pairwise_cons.1 sorted
    have later := ih sorted fun a left b right =>
      apart a (List.mem_cons_of_mem _ left) b (List.mem_cons_of_mem _ right)
    cases rest with
    | nil => exact List.pairwise_singleton _ _
    | cons second rest =>
      rw [eraseReps_cons]
      split
      · exact later
      · rename_i different
        refine List.pairwise_cons.2 ⟨fun other member => ?_, later⟩
        have member := mem_eraseReps.1 member
        have before := least other member
        rcases Ordering.isLE_iff_eq_lt_or_eq_eq.1 before with less | same
        · exact less
        · -- What lies between two equal diagnostics is equal to them.
          have equal := apart first List.mem_cons_self other (List.mem_cons_of_mem _ member) same
          subst equal
          have between : (order second first).isLE := by
            rcases List.mem_cons.1 member with rfl | member
            · exact before
            · exact (List.pairwise_cons.1 sorted).1 first member
          exact absurd (apart first List.mem_cons_self second
            (List.mem_cons_of_mem _ List.mem_cons_self)
            (Std.OrientedCmp.isLE_antisymm (least second List.mem_cons_self) between)) different

theorem pairwise_report (apart : Apart diagnostics) :
    (report diagnostics).Pairwise fun a b => order a b = .lt :=
  pairwise_eraseReps (pairwise_sort diagnostics) fun a left b right =>
    apart a (mem_sort.1 left) b (mem_sort.1 right)

/-- The same diagnostics make up the same report. -/
theorem report_congr {others : List Diagnostic} (apart : Apart diagnostics)
    (same : ∀ diagnostic, diagnostic ∈ diagnostics ↔ diagnostic ∈ others) :
    report diagnostics = report others := by
  have apartToo : Apart others := fun a left b right =>
    apart a ((same a).2 left) b ((same b).2 right)
  have nodup {diagnostics : List Diagnostic} (apart : Apart diagnostics) :
      (report diagnostics).Nodup := by
    apply (pairwise_report apart).imp
    rintro diagnostic _ less rfl
    have equal : order diagnostic diagnostic = .eq := Std.ReflCmp.compare_self
    cases equal.symm.trans less
  have perm := (List.perm_ext_iff_of_nodup (nodup apart) (nodup apartToo)).2 fun diagnostic =>
    mem_report.trans ((same diagnostic).trans mem_report.symm)
  -- Both reports are in strict order, and that leaves one order for the same diagnostics.
  refine perm.eq_of_pairwise ?_ (pairwise_report apart) (pairwise_report apartToo)
  intro a b _ _ less greater
  have after : order b a = .gt := Std.OrientedCmp.gt_iff_lt.2 less
  cases after.symm.trans greater

end Diagnostic

theorem Numeral.decimal_injective {first second : Nat} (same : decimal first = decimal second) :
    first = second := by
  have digits : Nat.toDigits 10 first = Nat.toDigits 10 second := String.ofList_inj.1 same
  have value := congrArg (Nat.ofDigitChars 10 · 0) digits
  rwa [Nat.ofDigitChars_toDigits (by decide) (by decide),
    Nat.ofDigitChars_toDigits (by decide) (by decide)] at value

def Unbroken (word : String) : Prop := ' ' ∉ word.toList

theorem Numeral.unbroken_decimal (number : Nat) : Unbroken (decimal number) := by
  intro member
  rw [decimal, String.toList_ofList] at member
  cases Nat.isDigit_of_mem_toDigits (by decide) (by decide) member

theorem Kind.unbroken_text (kind : Kind) : Unbroken kind.text := by
  cases kind <;> unfold Unbroken <;> decide

theorem Kind.text_injective {first second : Kind} (same : first.text = second.text) :
    first = second := by
  cases first <;> cases second <;> first | rfl | exact absurd same (by decide)

theorem eq_of_blank {first second rest others : List Char} (whole : ' ' ∉ first)
    (wholeToo : ' ' ∉ second) (same : first ++ ' ' :: rest = second ++ ' ' :: others) :
    first = second ∧ rest = others := by
  induction first generalizing second with
  | nil =>
    cases second with
    | nil => exact ⟨rfl, (List.cons.inj same).2⟩
    | cons head tail =>
      obtain ⟨rfl, _⟩ := List.cons.inj same
      exact absurd List.mem_cons_self wholeToo
  | cons head tail ih =>
    cases second with
    | nil =>
      obtain ⟨rfl, _⟩ := List.cons.inj same
      exact absurd List.mem_cons_self whole
    | cons other later =>
      obtain ⟨heads, tails⟩ := List.cons.inj same
      obtain ⟨words, rests⟩ := ih (fun member => whole (List.mem_cons_of_mem _ member))
        (fun member => wholeToo (List.mem_cons_of_mem _ member)) tails
      exact ⟨List.cons_eq_cons.2 ⟨heads, words⟩, rests⟩

theorem eq_of_joined {opening a b a' b' : String} (first : Unbroken a) (second : Unbroken a')
    (same : opening ++ a ++ " and " ++ b = opening ++ a' ++ " and " ++ b') : a = a' ∧ b = b' := by
  have letters := congrArg String.toList same
  have blank : " and ".toList = ' ' :: "and ".toList := rfl
  simp only [String.toList_append, List.append_assoc] at letters
  rw [List.append_cancel_left_eq, blank, List.cons_append, List.cons_append] at letters
  obtain ⟨words, rests⟩ := eq_of_blank first second letters
  exact ⟨String.toList_inj.1 words, String.toList_inj.1 (List.append_cancel_left rests)⟩

namespace Conflict

theorem eq_of_text {first second : Conflict} (code : first.code = second.code)
    (text : first.text = second.text) : first = second := by
  cases first <;> cases second <;> simp only [Conflict.code, reduceCtorEq] at code
  case width.width kept dropped kept' dropped' =>
    obtain ⟨less, more⟩ := eq_of_joined (Numeral.unbroken_decimal dropped.toNat)
      (Numeral.unbroken_decimal dropped'.toNat) ((String.append_left_inj _).1 text)
    rw [UInt8.toNat_inj.1 (Numeral.decimal_injective less),
      UInt8.toNat_inj.1 (Numeral.decimal_injective more)]
  case kind.kind kept dropped kept' dropped' =>
    obtain ⟨weak, strong⟩ :=
      eq_of_joined (Kind.unbroken_text dropped) (Kind.unbroken_text dropped') text
    rw [Kind.text_injective weak, Kind.text_injective strong]
  case arity.arity kept dropped kept' dropped' =>
    obtain ⟨less, more⟩ := eq_of_joined (Numeral.unbroken_decimal dropped)
      (Numeral.unbroken_decimal dropped') ((String.append_left_inj _).1 text)
    rw [Numeral.decimal_injective less, Numeral.decimal_injective more]

theorem eq_of_order {first second : Conflict} {id other : ClassId}
    (same : Diagnostic.order (first.diagnostic id) (second.diagnostic other) = .eq) :
    first = second := by
  -- The message begins with words that all conflicts of one code share.
  obtain ⟨_, code, message⟩ := Diagnostic.eq_of_order same
  exact eq_of_text code ((String.append_right_inj _).1 message)

end Conflict

end TypeRecovery
