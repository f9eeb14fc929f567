import SurveyTables.Proofs.Number.Reading
import SurveyTables.Proofs.Table.KeyRoundTrip
import SurveyTables.Tabulation.GroupKeys

/-!
# Numbers in labels and keys

* `IsFaithful`: a text tells just which double it stands for, and is written in a plain form;
* `display_eq_of_groupKey_eq`: a key tells the words of all answers;
* **`display_number_faithful`**: the words for a number are faithful, and no two numbers share a key.
-/

namespace SurveyTables.Tabulation

open Number

/-- The text is a faithful one for the double. -/
structure IsFaithful (x : Float) (s : String) : Prop where
  /-- It is read as the double, and as no other. -/
  reads : ∀ y, ReadsAs s y ↔ y = x
  /-- There is no exponent in it. -/
  chars : ∀ c ∈ s.toList, c.isDigit = true ∨ c = '-' ∨ c = '.'
  /-- There is a point just in numbers that are not whole. -/
  point : '.' ∉ s.toList ↔ ∃ n : ℤ, value x = n
  /-- Zeros at the end are left out behind a point. -/
  last : ∀ whole behind, s.toList = whole ++ '.' :: behind → behind ≠ [] ∧ behind.getLast? ≠ some '0'
  /-- Whole numbers that are not too large are written in all their digits. -/
  digits : ∀ n < 10 ^ 15, |value x| = (n : Nat) → s.toList = (sign x).toList ++ Decimal.digits n

theorem isFaithful_text {x : Float} (h : isFinite x = true) : IsFaithful x (text x) where
  reads _ := readsAs_text_iff h
  chars _ := mem_text h
  point := point_not_mem_text_iff h
  last _ _ := ne_zero_of_text_eq h
  digits _ := text_of_value_eq h

theorem display_eq_of_groupKey_eq {g : Group} {as bs : List Answer} (h : groupKey g as = groupKey g bs)
    {k : Nat} (hk : k < g.length) {a b : Answer} (ha : as[k]? = some a) (hb : bs[k]? = some b) :
    a.display = b.display := by
  have hpath : groupPath g as = groupPath g bs := Key.encode_injective h
  have hstep (cs : List Answer) (c : Answer) (hc : cs[k]? = some c) :
      (groupPath g cs)[k]? = some (g[k], c.display) := by
    rw [groupPath, List.getElem?_zip_eq_some]
    exact ⟨List.getElem?_eq_getElem hk, by rw [List.getElem?_map, hc]; rfl⟩
  have hsteps := (hstep as a ha).symm.trans ((congrArg (·[k]?) hpath).trans (hstep bs b hb))
  exact congrArg Prod.snd (Option.some.inj hsteps)

/-- **The words for a number are faithful**, so that different numbers have different words, and answers
with different numbers have different keys. -/
theorem display_number_faithful :
    (∀ x, isFinite x = true → IsFaithful x (Answer.number x).display) ∧
    (∀ x y, isNaN x = false → isNaN y = false →
      (Answer.number x).display = (Answer.number y).display → x = y) ∧
    (∀ g as bs, groupKey g as = groupKey g bs → ∀ k < g.length, ∀ x y, isNaN x = false →
      isNaN y = false → as[k]? = some (.number x) → bs[k]? = some (.number y) → x = y) :=
  ⟨fun _ => isFaithful_text, fun _ _ => text_injective, fun _ _ _ hkey _ hk _ _ hx hy ha hb =>
    text_injective hx hy (display_eq_of_groupKey_eq hkey hk ha hb)⟩

/-- Two numbers that are not whole, and a zero. -/
theorem display_number_faithful_tenth : ReadsAs "0.1" 0.1 ∧ ReadsAs "-0" (-0.0) ∧
    groupKey ["q"] [.number 0.1] ≠ groupKey ["q"] [.number 0.3] := by
  obtain ⟨hfaithful, -, hkeys⟩ := display_number_faithful
  refine ⟨?_, ?_, fun h => ?_⟩
  · exact ((hfaithful 0.1 (by decide +kernel)).reads 0.1).mpr rfl
  · exact ((hfaithful (-0.0) (by decide +kernel)).reads (-0.0)).mpr rfl
  · have heq := hkeys ["q"] _ _ h 0 (by decide) 0.1 0.3 (by decide +kernel) (by decide +kernel) rfl rfl
    exact absurd heq (by decide +kernel)

end SurveyTables.Tabulation
