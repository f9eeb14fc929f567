import SurveyTables.Proofs.Number.Order
import SurveyTables.Proofs.Tabulation.GroupKeys

/-!
# Sorting has one result

Answers, bit by bit, rows of them and the classes of a group are in total orders in which only equal ones
are level, so there is one way to put them in order, wherever one starts from.

* `IsTotalOrder`, `SortsUniquely`, **`sortsUniquely_mergeSort`**;
* `RawAnswer.order_number`, `RawAnswer.order_nan`: numbers that are not equal are in their order as numbers,
  and a NaN is before or behind them all, as its sign says;
* `RawAnswer.orderAll_append`, `RawAnswer.orderAll_of_ne`: rows of answers by what stands behind their
  common beginning;
* `RawAnswer.raw_answer`: only a NaN has bits that its answer does not tell;
* `RawAnswer.orderKeyed`, `RawAnswer.sortedKeyed`: keys in the order of the answers they stand for;
* `Tabulation.arranged`: classes in order;
* **`Tabulation.orders_sort_uniquely`**.
-/

namespace SurveyTables

variable {α : Type}

/-- A total order in which only equal things are level. -/
structure IsTotalOrder (cmp : α → α → Ordering) : Prop where
  swap : ∀ a b, cmp a b = (cmp b a).swap
  trans : ∀ a b c, (cmp a b).isLE = true → (cmp b c).isLE = true → (cmp a c).isLE = true
  eq_iff : ∀ a b, cmp a b = .eq ↔ a = b

/-- The list has one arrangement that is in order. Sorting leads to it, from any other arrangement of
the list as well. -/
structure SortsUniquely (cmp : α → α → Ordering) (sort : List α → List α) (l : List α) : Prop where
  perm : (sort l).Perm l
  ascending : (sort l).Pairwise fun a b => (cmp a b).isLE = true
  unique : ∀ m, m.Perm l → m.Pairwise (fun a b => (cmp a b).isLE = true) → m = sort l
  start : ∀ m, m.Perm l → sort m = sort l

section Order

variable (cmp : α → α → Ordering) [Std.TransCmp cmp]

theorem isTotalOrder [Std.LawfulEqCmp cmp] : IsTotalOrder cmp where
  swap _ _ := Std.OrientedCmp.eq_swap
  trans _ _ _ := Std.TransCmp.isLE_trans
  eq_iff _ _ := Std.LawfulEqCmp.compare_eq_iff_eq

theorem eq_of_ascending {l m : List α} (hlevel : ∀ a ∈ l, ∀ b ∈ l, cmp a b = .eq → a = b)
    (hl : l.Pairwise fun a b => (cmp a b).isLE = true)
    (hm : m.Pairwise fun a b => (cmp a b).isLE = true) (hperm : m.Perm l) : m = l := by
  refine hperm.eq_of_pairwise (fun a b ha hb hab hba => ?_) hm hl
  refine hlevel a (hperm.mem_iff.mp ha) b hb ?_
  rw [@Std.OrientedCmp.eq_swap _ cmp _ b a] at hba
  cases ho : cmp a b with
  | lt => rw [ho] at hba; exact absurd hba Bool.false_ne_true
  | eq => rfl
  | gt => rw [ho] at hab; exact absurd hab Bool.false_ne_true

/-- **Sorting has one result**, if only equal things are level. -/
theorem sortsUniquely_mergeSort {l : List α} (hlevel : ∀ a ∈ l, ∀ b ∈ l, cmp a b = .eq → a = b) :
    SortsUniquely cmp (List.mergeSort · fun a b => cmp a b != .gt) l := by
  have hperm (m : List α) := List.mergeSort_perm m fun a b => cmp a b != .gt
  have hascending := pairwise_mergeSort_cmp cmp
  have hunique (m : List α) (hm : m.Perm l) (hle : m.Pairwise fun a b => (cmp a b).isLE = true) :
      m = l.mergeSort fun a b => cmp a b != .gt := by
    refine eq_of_ascending cmp (fun a ha b hb => ?_) (hascending l) hle (hm.trans (hperm l).symm)
    exact hlevel a ((hperm l).mem_iff.mp ha) b ((hperm l).mem_iff.mp hb)
  exact ⟨hperm l, hascending l, hunique, fun m hm => hunique _ ((hperm m).trans hm) (hascending m)⟩

end Order

namespace RawAnswer

theorem order_number {x y : UInt64} (hx : Number.isNaN (Float.ofBits x) = false)
    (hy : Number.isNaN (Float.ofBits y) = false) (hne : (Float.ofBits x == Float.ofBits y) = false) :
    (number x).order (number y) = .lt ↔ Float.ofBits x < Float.ofBits y := by
  rw [order, compare_lt_iff_lt, ← Number.rank_lt_rank_iff hx hy hne,
    Number.toBits_ofBits (Number.isNaN_ofBits_eq_false_iff.mp hx),
    Number.toBits_ofBits (Number.isNaN_ofBits_eq_false_iff.mp hy)]

/-- A NaN with the sign bit is before all numbers, and one without it behind them. -/
theorem order_nan {x y : UInt64} (hx : Number.isNaN (Float.ofBits x) = true)
    (hy : Number.isNaN (Float.ofBits y) = false) :
    (number x).order (number y) = if Number.signBit ≤ x.toNat then .lt else .gt := by
  have hfar : ¬ x.toNat % Number.signBit ≤ Number.stepsToInfinity := by
    rw [← Number.isNaN_ofBits_eq_false_iff, hx]
    exact Bool.true_eq_false.mp
  have hnear := Number.isNaN_ofBits_eq_false_iff.mp hy
  have hxlt := x.toNat_lt
  have hylt := y.toNat_lt
  rw [order]
  unfold Number.rank Number.stepsToInfinity Number.leadingBit Number.signBit at *
  split
  · rw [compare_lt_iff_lt]
    split <;> omega
  · rw [compare_gt_iff_gt]
    split <;> omega

theorem orderAll_append (as bs cs : List RawAnswer) :
    orderAll (as ++ bs) (as ++ cs) = orderAll bs cs := by
  induction as with
  | nil => rfl
  | cons a as ih =>
    rw [List.cons_append, List.cons_append, orderAll, ih, @Std.ReflCmp.compare_self _ order]
    rfl

theorem orderAll_of_ne {a b : RawAnswer} (h : a ≠ b) (as bs cs : List RawAnswer) :
    orderAll (as ++ a :: bs) (as ++ b :: cs) = a.order b := by
  have hne : a.order b ≠ .eq := fun ho => h (Std.LawfulEqCmp.eq_of_compare ho)
  rw [orderAll_append, orderAll]
  cases ho : a.order b
  · rfl
  · exact absurd ho hne
  · rfl

/-- An answer that is not missing tells its bits. -/
theorem raw_answer {a : RawAnswer} (h : a.answer.isMissing = false) : a.answer.raw = a := by
  cases a with
  | number bits =>
    exact congrArg number (Number.toBits_ofBits (Number.isNaN_ofBits_eq_false_iff.mp h))
  | _ => rfl

/-- The order of keys: by the answers that they stand for, then by the keys themselves. -/
def orderKeyed (a b : String × List RawAnswer) : Ordering :=
  (orderAll a.2 b.2).then (compare a.1 b.1)

/-- The keys in order; those that are equal in order stay as they were. -/
def sortedKeyed (keyed : List (String × List RawAnswer)) : List (String × List RawAnswer) :=
  keyed.mergeSort fun a b => orderKeyed a b != .gt

instance : Std.TransCmp orderKeyed :=
  have : Std.TransCmp fun a b : String × List RawAnswer => orderAll a.2 b.2 :=
    { eq_swap := Std.OrientedCmp.eq_swap, isLE_trans := Std.TransCmp.isLE_trans }
  inferInstanceAs (Std.TransCmp (compareLex
    (fun a b : String × List RawAnswer => orderAll a.2 b.2) (compareOn Prod.fst)))

theorem fst_eq_of_orderKeyed_eq {a b : String × List RawAnswer} (h : orderKeyed a b = .eq) :
    a.1 = b.1 := by
  rw [orderKeyed, Ordering.then_eq_eq] at h
  exact Std.LawfulEqOrd.eq_of_compare h.2

end RawAnswer

namespace Tabulation

/-- The key of a class with the answers that it stands for, bit by bit. -/
def KeyEntry.raw (e : KeyEntry) : String × List RawAnswer :=
  (e.key, e.answers.map Answer.raw)

/-- Classes in order, each with its number. -/
def arranged (classes : List (KeyEntry × Nat)) : List (KeyEntry × Nat) :=
  classes.mergeSort fun a b => a.1.order b.1 != .gt

theorem KeyEntry.order_eq_orderKeyed (a b : KeyEntry) : a.order b = RawAnswer.orderKeyed a.raw b.raw :=
  rfl

theorem KeyEntry.key_eq_of_order_eq {a b : KeyEntry} (h : a.order b = .eq) : a.key = b.key := by
  rw [order_eq_orderKeyed] at h
  exact RawAnswer.fst_eq_of_orderKeyed_eq h

theorem sortsUniquely_arranged {classes : List (KeyEntry × Nat)}
    (h : (classes.map (·.1.key)).Nodup) :
    SortsUniquely (fun a b => a.1.order b.1) arranged classes :=
  sortsUniquely_mergeSort _ fun _ ha _ hb hab =>
    List.inj_on_of_nodup_map h ha hb (KeyEntry.key_eq_of_order_eq hab)

/-- **The orders of answers, of rows of answers and of keys are total, bit by bit, and sorting by them has
one result.** The orders that the tabulation uses are their images, which miss no answer but a NaN. -/
theorem orders_sort_uniquely :
    (IsTotalOrder RawAnswer.order ∧ IsTotalOrder RawAnswer.orderAll ∧
      (∀ x y, Number.isNaN (Float.ofBits x) = false → Number.isNaN (Float.ofBits y) = false →
        (Float.ofBits x == Float.ofBits y) = false →
        ((RawAnswer.number x).order (.number y) = .lt ↔ Float.ofBits x < Float.ofBits y)) ∧
      (∀ x y, Number.isNaN (Float.ofBits x) = true → Number.isNaN (Float.ofBits y) = false →
        (RawAnswer.number x).order (.number y) =
          if Number.signBit ≤ x.toNat then .lt else .gt) ∧
      (RawAnswer.number (-0.0 : Float).toBits).order (.number (0.0 : Float).toBits) = .lt ∧
      (∀ as b bs, RawAnswer.orderAll as (as ++ b :: bs) = .lt) ∧
      (∀ a b, a ≠ b → ∀ as bs cs, RawAnswer.orderAll (as ++ a :: bs) (as ++ b :: cs) = a.order b) ∧
      (∀ l, SortsUniquely RawAnswer.order RawAnswer.sorted l) ∧
      ∀ keyed, (keyed.map Prod.fst).Nodup →
        SortsUniquely RawAnswer.orderKeyed RawAnswer.sortedKeyed keyed) ∧
    ((∀ a : Answer, a.raw.answer = a) ∧
      (∀ a : RawAnswer, a.answer.isMissing = false → a.answer.raw = a) ∧
      (∀ a b : Answer, a.order b = a.raw.order b.raw) ∧
      (∀ as bs, Answer.orderAll as bs = RawAnswer.orderAll (as.map Answer.raw) (bs.map Answer.raw)) ∧
      (∀ a b : KeyEntry, a.order b = RawAnswer.orderKeyed a.raw b.raw) ∧
      IsTotalOrder Answer.order ∧ IsTotalOrder Answer.orderAll) ∧
    (∀ classes, (classes.map (·.1.key)).Nodup →
      SortsUniquely (fun a b => a.1.order b.1) arranged classes) ∧
    (∀ g answers, ∀ classes, classes.Perm (GroupKeys.ofAnswers g answers).entries.toList.zipIdx →
      arranged classes = (GroupKeys.ofAnswers g answers).sorted) := by
  refine ⟨⟨isTotalOrder _, isTotalOrder _, fun x y hx hy => RawAnswer.order_number hx hy,
      fun x y hx => RawAnswer.order_nan hx, by decide, fun as b bs => ?_,
      fun a b h => RawAnswer.orderAll_of_ne h, fun l => ?_, fun keyed hkeyed => ?_⟩,
    ⟨Answer.answer_raw, fun a => RawAnswer.raw_answer, fun _ _ => rfl, fun _ _ => rfl,
      KeyEntry.order_eq_orderKeyed, isTotalOrder _, isTotalOrder _⟩,
    fun classes => sortsUniquely_arranged, fun g answers classes hperm => ?_⟩
  · have := RawAnswer.orderAll_append as [] (b :: bs)
    rwa [List.append_nil] at this
  · exact sortsUniquely_mergeSort _ fun _ _ _ _ => Std.LawfulEqCmp.eq_of_compare
  · exact sortsUniquely_mergeSort _ fun _ ha _ hb hab =>
      List.inj_on_of_nodup_map hkeyed ha hb (RawAnswer.fst_eq_of_orderKeyed_eq hab)
  · have hnodup := (GroupKeys.numbers_ofAnswers g answers).nodup_keys
    have hsorted := (List.mergeSort_perm (GroupKeys.ofAnswers g answers).entries.toList.zipIdx
      fun a b => a.1.order b.1 != .gt).map (·.1.key)
    exact (sortsUniquely_arranged (hsorted.nodup_iff.mp hnodup)).start classes hperm

/-- Two numbers that are not equal, a NaN with its sign bit before 1, rows that begin alike, and two
classes. -/
theorem orders_sort_uniquely_numbers :
    (RawAnswer.number 0xBFF8000000000000).order (.number 0x3FD0000000000000) = .lt ∧
    (RawAnswer.number 0xFFF8000000000000).order (.number 0x3FF0000000000000) = .lt ∧
    RawAnswer.orderAll [.missing, .number 1, .missing] [.missing, .text "1"] = .lt ∧
    SortsUniquely RawAnswer.orderKeyed RawAnswer.sortedKeyed [("b", [.text "b"]), ("1", [.number 1])] ∧
    SortsUniquely (fun a b => a.1.order b.1) arranged
      [({ key := "b", answers := [.text "b"] }, 0), ({ key := "1", answers := [.number 1] }, 1)] := by
  obtain ⟨⟨-, -, hnumber, hnan, -, -, hrow, -, hkeyed⟩, -, hclasses, -⟩ := orders_sort_uniquely
  refine ⟨?_, hnan _ _ (by decide +kernel) (by decide +kernel), ?_, hkeyed _ (by decide),
    hclasses _ (by decide)⟩
  · exact (hnumber _ _ (by decide +kernel) (by decide +kernel) (by decide +kernel)).mpr
      (by decide +kernel)
  · exact hrow (.number 1) (.text "1") RawAnswer.noConfusion [.missing] [.missing] []

end Tabulation

end SurveyTables
