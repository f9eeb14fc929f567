import Mathlib
import SurveyTables.Answer.Basic

/-!
# The order of answers

Answers, bit by bit, are in a total order in which only equal answers are level, and so are rows of
answers. The order of answers is the image of this one, so it is total too.

* `Number.rank_injective`: the order of doubles by rank tells all bits apart;
* the instances for `RawAnswer.order` and `RawAnswer.orderAll`;
* `Answer.answer_raw`, `Answer.raw_injective`: an answer is read back from its bits;
* the instances for `Answer.order` and `Answer.orderAll`;
* `pairwise_mergeSort_cmp`: what is sorted by an order is in order.
-/

namespace SurveyTables

theorem Number.rank_injective : Function.Injective Number.rank := by
  intro x y h
  have hx := x.toNat_lt
  have hy := y.toNat_lt
  apply UInt64.toNat_inj.mp
  unfold Number.rank Number.signBit at h
  split at h <;> split at h <;> omega

namespace RawAnswer

instance : Std.OrientedCmp order where
  eq_swap {a b} := by
    cases a <;> cases b <;> simp only [order] <;> try rfl
    · exact Std.OrientedOrd.eq_swap
    · exact Std.OrientedOrd.eq_swap
    · exact Std.OrientedOrd.eq_swap

instance : Std.TransCmp order where
  isLE_trans {a b c} hab hbc := by
    -- answers of different kinds are in the order of their kinds
    cases a <;> cases b <;> cases c <;> simp only [order] at hab hbc ⊢ <;>
      try first | rfl | contradiction
    · exact Std.TransOrd.isLE_trans hab hbc
    · exact Std.TransOrd.isLE_trans hab hbc
    · exact Std.TransOrd.isLE_trans hab hbc

instance : Std.LawfulEqCmp order where
  eq_of_compare {a b} h := by
    cases a <;> cases b <;> simp only [order] at h <;> try first | rfl | contradiction
    · rw [Number.rank_injective (Std.LawfulEqOrd.eq_of_compare h)]
    · rw [Std.LawfulEqOrd.eq_of_compare h]
    · rw [Std.LawfulEqOrd.eq_of_compare h]

theorem orderAll_eq_compareLex : orderAll = List.compareLex order := by
  funext as bs
  induction as generalizing bs with
  | nil => cases bs <;> rfl
  | cons a as ih =>
    cases bs with
    | nil => rfl
    | cons b bs => rw [orderAll, ih, List.compareLex_cons_cons]

instance : Std.TransCmp orderAll := orderAll_eq_compareLex ▸ inferInstance

instance : Std.LawfulEqCmp orderAll := orderAll_eq_compareLex ▸ inferInstance

end RawAnswer

namespace Answer

theorem answer_raw (a : Answer) : a.raw.answer = a := by
  cases a with
  | number x => exact congrArg number (Float.ofBits_toBits x)
  | _ => rfl

theorem raw_injective : Function.Injective raw :=
  Function.LeftInverse.injective answer_raw

instance : Std.TransCmp order where
  eq_swap {a b} := @Std.OrientedCmp.eq_swap _ RawAnswer.order _ a.raw b.raw
  isLE_trans {a b c} := @Std.TransCmp.isLE_trans _ RawAnswer.order _ a.raw b.raw c.raw

instance : Std.LawfulEqCmp order where
  compare_self {a} := @Std.ReflCmp.compare_self _ RawAnswer.order _ a.raw
  eq_of_compare h := raw_injective (@Std.LawfulEqCmp.eq_of_compare _ RawAnswer.order _ _ _ h)

instance : Std.TransCmp orderAll where
  eq_swap {as bs} := @Std.OrientedCmp.eq_swap _ RawAnswer.orderAll _ (as.map raw) (bs.map raw)
  isLE_trans {as bs cs} :=
    @Std.TransCmp.isLE_trans _ RawAnswer.orderAll _ (as.map raw) (bs.map raw) (cs.map raw)

instance : Std.LawfulEqCmp orderAll where
  compare_self {as} := @Std.ReflCmp.compare_self _ RawAnswer.orderAll _ (as.map raw)
  eq_of_compare h := raw_injective.list_map
    (@Std.LawfulEqCmp.eq_of_compare _ RawAnswer.orderAll _ _ _ h)

end Answer

theorem pairwise_mergeSort_cmp {α : Type} (cmp : α → α → Ordering) [Std.TransCmp cmp] (l : List α) :
    (l.mergeSort fun a b => cmp a b != .gt).Pairwise fun a b => (cmp a b).isLE = true := by
  have hle : ∀ a b, (cmp a b != .gt) = (cmp a b).isLE := fun a b => by cases cmp a b <;> rfl
  simp only [hle]
  refine List.pairwise_mergeSort (fun a b c => Std.TransCmp.isLE_trans) (fun a b => ?_) l
  rw [@Std.OrientedCmp.eq_swap _ cmp _ b a]
  cases cmp a b <;> rfl

end SurveyTables
