import Mathlib
import SurveyTables.Proofs.Expression.Places

/-!
# Reading again

A reader can be asked to read again from where a failed reading stopped. Each reading is that of a new reader of
the tokens to come, apart from the groups that were left open before.

* `Reader.after`: the reader after a number of readings;
* `Reader.Rereads`, **`Reader.rereads`**: what every reading does, whatever the reader has been through;
* `Reader.after_eq_of_le`: from some reading on nothing changes;
* **`Reader.readTimes_exact`**.
-/

namespace SurveyTables

open Expression

namespace Reader

/-- The reader after `count` readings. -/
def after (r : Reader) (count : Nat) : Reader :=
  (fun s : Reader => s.read.2)^[count] r

/-- A reader of the same tokens that has not read before. -/
def fresh (r : Reader) : Reader :=
  { rest := r.rest }

/-- The law of a reading, next to that of a new reader. -/
structure Rereads (r : Reader) : Prop where
  ok_iff : ∀ e, r.read.1 = .ok e ↔ r.fresh.read.1 = .ok e
  /-- Both stop in front of the same token. -/
  rest_eq : r.read.2.rest = r.fresh.read.2.rest
  of_ok : ∀ e, r.read.1 = .ok e → r.read.2 = { rest := [], depth := r.depth }
  /-- The depth grows by the groups that the passed tokens open and do not close. Only a reader that passes no
  token stays as it is. -/
  exists_passed : ∃ passed, r.rest = passed ++ r.read.2.rest ∧ (passed = [] ↔ r.read.2 = r) ∧
    passed.count .rightParen ≤ passed.count .leftParen ∧
    r.read.2.depth = r.depth + (passed.count .leftParen - passed.count .rightParen)

/-- **Every reading keeps the law.** -/
theorem rereads (r : Reader) : r.Rereads := by
  obtain ⟨ts, depth⟩ := r
  obtain ⟨passed, rest, p, hts, hrun, -, hread⟩ := exists_stop ts
  have hcount := Place.depth_of_run hrun
  refine ⟨fun e => ?_, ?_, fun e he => ?_, passed, ?_, ?_, by omega, ?_⟩
  · rw [fresh, hread, hread]
    split
    · exact Iff.rfl
    · rw [Place.answer_eq_ok_iff, Place.answer_eq_ok_iff]
  · rw [fresh, hread, hread]
  · rw [hread] at he ⊢
    split at he
    · exact nomatch he
    · obtain ⟨draft, rfl, hnext, -⟩ := Place.answer_eq_ok_iff.mp he
      rw [List.head?_eq_none_iff.mp hnext]
      rfl
  · rw [hread, hts]
  · rw [hread]
    constructor
    · rintro rfl
      obtain rfl := Option.some.inj hrun
      rw [hts]
      rfl
    · intro hsame
      have hrest : rest = passed ++ rest := (congrArg Reader.rest hsame).trans hts
      simpa using hrest
  · rw [hread]
    show depth + p.depth = depth + _
    omega

/-! ## One reading after the other -/

theorem readTimes_eq (r : Reader) (count : Nat) :
    r.readTimes count = (List.range count).map fun k => (r.after k).read.1 := by
  induction count generalizing r with
  | zero => rfl
  | succ count ih =>
    rw [readTimes, ih, List.range_succ_eq_map, List.map_cons, List.map_map]
    rfl

theorem length_rest_lt {r : Reader} (h : r.read.2 ≠ r) : r.read.2.rest.length < r.rest.length := by
  obtain ⟨passed, hrest, hsame, -⟩ := r.rereads.exists_passed
  have hne : passed ≠ [] := mt hsame.mp h
  rw [hrest, List.length_append]
  have := List.length_pos_of_ne_nil hne
  omega

theorem after_of_read_eq {r : Reader} (h : r.read.2 = r) (count : Nat) : r.after count = r :=
  Function.iterate_fixed h count

/-- **After as many readings as there are tokens, nothing changes.** -/
theorem after_eq_of_le {r : Reader} {bound count : Nat} (hbound : r.rest.length ≤ bound)
    (hcount : bound ≤ count) : r.after count = r.after bound := by
  induction bound generalizing r count with
  | zero =>
    have hsame : r.read.2 = r := by
      by_contra h
      have := length_rest_lt h
      omega
    rw [after_of_read_eq hsame, after_of_read_eq hsame]
  | succ bound ih =>
    obtain ⟨count, rfl⟩ : ∃ more, count = more + 1 := ⟨count - 1, by omega⟩
    by_cases h : r.read.2 = r
    · rw [after_of_read_eq h, after_of_read_eq h]
    · have hlt := length_rest_lt h
      exact @ih r.read.2 count (by omega) (by omega)

/-- **Reading again and again** keeps the law of one reading from what the last one has left, and from the
number of tokens on all answers are the same. -/
theorem readTimes_exact (text : String) :
    (∀ count, (ofText text).readTimes count =
      (List.range count).map fun k => ((ofText text).after k).read.1) ∧
    (∀ k, ((ofText text).after (k + 1)) = ((ofText text).after k).read.2 ∧
      ((ofText text).after k).Rereads) ∧
    ∀ k, (tokens text.toList).length ≤ k →
      ((ofText text).after k).read = ((ofText text).after (tokens text.toList).length).read := by
  refine ⟨readTimes_eq _, fun k => ⟨?_, rereads _⟩, fun k hk => ?_⟩
  · exact Function.iterate_succ_apply' _ k _
  · have hlength : (ofText text).rest.length ≤ (tokens text.toList).length := le_refl _
    rw [after_eq_of_le hlength hk]

/-- A group that is not closed where it has to be stays counted while the reader goes on behind it. -/
theorem readTimes_exact_unclosed :
    ((ofText "(a + b c").readTimes 3 =
      [.error (.unclosed 1 (some (.name "c"))), .ok (.single "c"), .error .empty] ∧
      (ofText "(a + b c").after 2 = { rest := [], depth := 1 }) ∧
    (tokens "(a + b c".toList).length ≤ 7 ∧
      ((ofText "(a + b c").after 7).read = ((ofText "(a + b c").after 5).read := by
  have htokens : tokens "(a + b c".toList =
      [.leftParen, .name "a", .plus, .name "b", .name "c"] := by cbv
  have hlength : (tokens "(a + b c".toList).length = 5 := congrArg List.length htokens
  have hreader : ofText "(a + b c" = { rest := tokens "(a + b c".toList } := rfl
  rw [htokens] at hreader
  have h := readTimes_exact "(a + b c"
  rw [hlength] at h
  refine ⟨⟨?_, ?_⟩, by omega, h.2.2 7 (by omega)⟩
  · rw [h.1, hreader]
    rfl
  · rw [(h.2.1 1).1, hreader]
    rfl

end Reader

end SurveyTables
