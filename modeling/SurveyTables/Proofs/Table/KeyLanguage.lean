import Mathlib.Data.List.DropRight
import Mathlib.Data.Set.List
import SurveyTables.Proofs.Table.KeyRoundTrip

/-!
# The language of keys

A text is read from the left, and two separator characters next to each other are taken together. It is
a key if nothing is wrong with what is read, and else it is refused for what is wrong first.

* `Reads`, **`reads_iff`**: the one way to read a text;
* `Violates`, `IsFirstFault`: what is wrong first;
* `firstFault?`, **`isFirstFault_iff`**: it is found in one pass that remembers one thing only, if a pair
  separator has been seen in the token;
* `splitTokens_eq`, `decodeChars_eq`: the tokens of a text;
* `decodeToken_cases`, **`fault?_mapM_decodeToken`**: each token is read or refused for its first fault,
  and so are all of them;
* `exists_pairSymbols_iff`, **`exists_pairs_iff`**: the keys, token by token;
* `IsDecoded`, **`decode_exact`**.
-/

namespace SurveyTables.Key

/-! ## Reading a text -/

/-- The symbols of a text, read from the left. Behind a malformed backslash nothing is read. -/
inductive Reads : List Char → List Symbol → Prop where
  | nil : Reads [] []
  | escaped {c : Char} {cs : List Char} {us : List Symbol} :
    isReserved c = true → Reads cs us → Reads ('\\' :: c :: cs) (.literal c :: us)
  | malformed {cs : List Char} :
    (∀ c, cs.head? = some c → isReserved c = false) → Reads ('\\' :: cs) [.malformed]
  | pairSeparator {cs : List Char} {us : List Symbol} :
    Reads cs us → Reads (':' :: ':' :: cs) (.pairSeparator :: us)
  | tokenSeparator {cs : List Char} {us : List Symbol} :
    Reads cs us → Reads ('_' :: '_' :: cs) (.tokenSeparator :: us)
  | itself {c : Char} {cs : List Char} {us : List Symbol} :
    c ≠ '\\' → (c = ':' ∨ c = '_' → cs.head? ≠ some c) → Reads cs us →
    Reads (c :: cs) (.literal c :: us)

/-- **A text is read in one way.** -/
theorem reads_iff {cs : List Char} {us : List Symbol} : Reads cs us ↔ us = symbols cs := by
  constructor
  · intro h
    induction h with
    | nil => rfl
    | escaped hc _ ih => rw [symbols_reserved hc, ih]
    | @malformed cs hcs =>
      cases cs with
      | nil => rfl
      | cons c cs => rw [symbols, if_neg (by simp [hcs c rfl])]
    | pairSeparator _ ih => rw [symbols, ih]
    | tokenSeparator _ ih => rw [symbols, ih]
    | itself hc hnext _ ih =>
      rw [symbols, ih]
      · rintro d ds rfl
        exact absurd rfl hc
      · rintro rfl
        exact absurd rfl hc
      · rintro ds rfl rfl
        exact absurd rfl (hnext (.inl rfl))
      · rintro ds rfl rfl
        exact absurd rfl (hnext (.inr rfl))
  · rintro rfl
    induction cs using symbols.induct with
    | case1 c cs hc ih => rw [symbols_reserved hc]; exact .escaped hc ih
    | case2 c cs hc =>
      rw [symbols, if_neg hc]
      exact .malformed (by simpa using hc)
    | case3 => exact .malformed (by simp)
    | case4 cs ih => rw [symbols]; exact .pairSeparator ih
    | case5 cs ih => rw [symbols]; exact .tokenSeparator ih
    | case6 c cs hb he hp ht ih =>
      have hne : c ≠ '\\' := by
        rintro rfl
        cases cs with
        | nil => exact he rfl rfl
        | cons d ds => exact hb d ds rfl rfl
      have hnext : c = ':' ∨ c = '_' → cs.head? ≠ some c := by
        rintro hsep hhead
        obtain ⟨ds, rfl⟩ := List.head?_eq_some_iff.mp hhead
        rcases hsep with rfl | rfl
        · exact hp ds rfl rfl
        · exact ht ds rfl rfl
      rw [symbols]
      · exact .itself hne hnext ih
      · exact hb
      · exact he
      · exact hp
      · exact ht
    | case7 => exact .nil

/-! ## The first fault -/

/-- The symbols of the token that is not ended yet. -/
def openToken (before : List Symbol) : List Symbol :=
  before.rtakeWhile (· != .tokenSeparator)

/-- What is wrong with the next symbol, or with the end, behind the symbols before it. -/
inductive Violates (before : List Symbol) : Option Symbol → Fault → Prop where
  | malformed : Violates before (some .malformed) .invalidEscape
  | repeated : .pairSeparator ∈ openToken before →
    Violates before (some .pairSeparator) .repeatedSeparator
  | tokenEnd : .pairSeparator ∉ openToken before →
    Violates before (some .tokenSeparator) .missingSeparator
  | textEnd : .pairSeparator ∉ openToken before → Violates before none .missingSeparator

/-- The fault is the first one of the symbols that stand behind others, counted from the left. -/
def IsFirstFault (before us : List Symbol) (fault : Fault) : Prop :=
  ∃ i ≤ us.length, Violates (before ++ us.take i) us[i]? fault ∧
    ∀ j < i, ∀ other, ¬ Violates (before ++ us.take j) us[j]? other

variable {before us token : List Symbol} {u : Symbol} {fault : Fault} {seen : Bool}

theorem isFirstFault_nil : IsFirstFault before [] fault ↔ Violates before none fault := by
  constructor
  · rintro ⟨i, hi, hfault, -⟩
    obtain rfl : i = 0 := Nat.le_zero.mp hi
    simpa using hfault
  · intro h
    exact ⟨0, Nat.le_refl _, by simpa using h, fun j hj => absurd hj (Nat.not_lt_zero j)⟩

theorem isFirstFault_cons : IsFirstFault before (u :: us) fault ↔
    Violates before (some u) fault ∨
      (∀ other, ¬ Violates before (some u) other) ∧ IsFirstFault (before ++ [u]) us fault := by
  have hshift (i : Nat) : before ++ (u :: us).take (i + 1) = before ++ [u] ++ us.take i := by
    rw [List.take_succ_cons, List.append_assoc, List.singleton_append]
  constructor
  · rintro ⟨i, hi, hfault, hfirst⟩
    cases i with
    | zero => exact .inl (by simpa using hfault)
    | succ i =>
      refine .inr ⟨fun other => ?_, i, Nat.le_of_succ_le_succ hi, ?_, fun j hj other => ?_⟩
      · simpa using hfirst 0 (Nat.succ_pos i) other
      · rwa [hshift, List.getElem?_cons_succ] at hfault
      · have := hfirst (j + 1) (Nat.succ_lt_succ hj) other
        rwa [hshift, List.getElem?_cons_succ] at this
  · rintro (h | ⟨hnone, i, hi, hfault, hfirst⟩)
    · exact ⟨0, Nat.zero_le _, by simpa using h, fun j hj => absurd hj (Nat.not_lt_zero j)⟩
    · refine ⟨i + 1, Nat.succ_le_succ hi, ?_, fun j hj other => ?_⟩
      · rwa [hshift, List.getElem?_cons_succ]
      · cases j with
        | zero => simpa using hnone other
        | succ j =>
          rw [hshift, List.getElem?_cons_succ]
          exact hfirst j (Nat.lt_of_succ_lt_succ hj) other

/-! ## One pass -/

/-- What is wrong with the next symbol, if a pair separator has been seen in the token or not. -/
def violation? (seen : Bool) : Option Symbol → Option Fault
  | some .malformed => some .invalidEscape
  | some .pairSeparator => if seen then some .repeatedSeparator else none
  | some .tokenSeparator | none => if seen then none else some .missingSeparator
  | some (.literal _) => none

/-- Whether a pair separator has been seen in the token behind the symbol. -/
def seenBehind (seen : Bool) : Symbol → Bool
  | .pairSeparator => true
  | .tokenSeparator => false
  | _ => seen

/-- The first fault of the symbols, where `seen` says whether the separator of the pair has come. -/
def firstFault? (seen : Bool) : List Symbol → Option Fault
  | [] => violation? seen none
  | u :: us => (violation? seen (some u)).or (firstFault? (seenBehind seen u) us)

theorem violates_iff {next : Option Symbol}
    (hseen : seen = true ↔ .pairSeparator ∈ openToken before) :
    Violates before next fault ↔ violation? seen next = some fault := by
  constructor
  · intro h
    cases h with
    | malformed => rfl
    | repeated h => rw [violation?, if_pos (hseen.mpr h)]
    | tokenEnd h | textEnd h => rw [violation?, if_neg (mt hseen.mp h)]
  · intro h
    match next with
    | some (.literal _) => exact nomatch h
    | some .malformed =>
      obtain rfl := Option.some.inj h
      exact .malformed
    | some .pairSeparator =>
      rw [violation?, Option.ite_none_right_eq_some] at h
      obtain ⟨h, ⟨⟩⟩ := h
      exact .repeated (hseen.mp h)
    | some .tokenSeparator =>
      rw [violation?, Option.ite_none_left_eq_some] at h
      obtain ⟨h, ⟨⟩⟩ := h
      exact .tokenEnd (mt hseen.mpr h)
    | none =>
      rw [violation?, Option.ite_none_left_eq_some] at h
      obtain ⟨h, ⟨⟩⟩ := h
      exact .textEnd (mt hseen.mpr h)

theorem seenBehind_iff (hseen : seen = true ↔ .pairSeparator ∈ openToken before) :
    seenBehind seen u = true ↔ .pairSeparator ∈ openToken (before ++ [u]) := by
  cases u <;> simp [openToken, seenBehind, hseen]

theorem isFirstFault_iff (hseen : seen = true ↔ .pairSeparator ∈ openToken before) :
    IsFirstFault before us fault ↔ firstFault? seen us = some fault := by
  induction us generalizing before seen with
  | nil => rw [isFirstFault_nil, firstFault?, violates_iff hseen]
  | cons u us ih =>
    have hnone : (∀ other, ¬ Violates before (some u) other) ↔ violation? seen (some u) = none := by
      rw [Option.eq_none_iff_forall_ne_some]
      exact forall_congr' fun other => not_congr (violates_iff hseen)
    rw [isFirstFault_cons, firstFault?, Option.or_eq_some_iff, violates_iff hseen, hnone,
      ih (seenBehind_iff hseen)]

/-! ## Tokens -/

theorem splitTokens_eq (us : List Symbol) :
    (splitTokens us).1 :: (splitTokens us).2 = us.splitOn .tokenSeparator := by
  rw [List.splitOn_eq_splitOnP]
  induction us with
  | nil => rfl
  | cons u us ih =>
    rw [List.splitOnP_cons_eq_if_modifyHead, ← ih]
    by_cases hu : u = .tokenSeparator
    · rw [hu, if_pos (beq_self_eq_true _)]
      rfl
    · rw [splitTokens_cons hu, if_neg (by simpa using hu)]
      rfl

theorem not_mem_of_mem_splitOn (h : token ∈ us.splitOn .tokenSeparator) :
    .tokenSeparator ∉ token := by
  rw [← splitTokens_eq] at h
  induction us generalizing token with
  | nil => simp_all [splitTokens]
  | cons u us ih =>
    by_cases hu : u = .tokenSeparator
    · obtain rfl | h : token = [] ∨ _ := by simpa [hu, splitTokens] using h
      · exact List.not_mem_nil
      · exact ih (List.mem_cons.mpr h)
    · rw [splitTokens_cons hu] at h
      rcases List.mem_cons.mp h with rfl | h
      · exact List.not_mem_cons_of_ne_of_not_mem (Ne.symm hu) (ih List.mem_cons_self)
      · exact ih (List.mem_cons_of_mem _ h)

theorem mem_iff_mem_splitOn (hu : u ≠ .tokenSeparator) :
    u ∈ us ↔ ∃ token ∈ us.splitOn .tokenSeparator, u ∈ token := by
  rw [← splitTokens_eq]
  induction us with
  | nil => simp [splitTokens]
  | cons v us ih =>
    by_cases hv : v = .tokenSeparator
    · simpa [hv, hu, splitTokens] using ih
    · rw [List.mem_cons, ih, splitTokens_cons hv]
      simp [or_assoc]

theorem decodeChars_eq (cs : List Char) :
    decodeChars cs = ((symbols cs).splitOn .tokenSeparator).mapM decodeToken := by
  rw [← splitTokens_eq]
  rfl

/-! ## One token -/

theorem exists_literals_append (us : List Symbol) :
    ∃ (cs : List Char) (behind : List Symbol), us = cs.map .literal ++ behind ∧
      ∀ c, behind.head? ≠ some (.literal c) := by
  induction us with
  | nil => exact ⟨[], [], rfl, fun c => nofun⟩
  | cons u us ih =>
    cases u with
    | literal c =>
      obtain ⟨cs, behind, rfl, hhead⟩ := ih
      exact ⟨c :: cs, behind, rfl, hhead⟩
    | pairSeparator | tokenSeparator | malformed => exact ⟨[], _, rfl, fun c => nofun⟩

theorem literals_append_of_head (cs : List Char) (h : ∀ c, us.head? ≠ some (.literal c)) :
    literals (cs.map .literal ++ us) = (cs, us) := by
  have hus : literals us = ([], us) := by
    unfold literals
    split
    · exact absurd rfl (h _)
    · rfl
  rw [literals_append, hus, List.append_nil]

theorem firstFault?_literals_append (cs : List Char) (us : List Symbol) :
    firstFault? seen (cs.map .literal ++ us) = firstFault? seen us := by
  induction cs with
  | nil => rfl
  | cons c cs ih => exact ih

theorem firstFault?_pairSymbols (pair : List Char × List Char) :
    firstFault? false (pairSymbols pair) = none := by
  have hvalue : firstFault? true (pair.2.map .literal ++ []) = none :=
    firstFault?_literals_append pair.2 []
  rw [List.append_nil] at hvalue
  rw [pairSymbols, firstFault?_literals_append]
  exact hvalue

/-- A token is the symbols of the pair that is read from it, or it is refused for its first fault. -/
theorem decodeToken_cases (token : List Symbol) :
    (∃ pair, token = pairSymbols pair ∧ decodeToken token = .ok pair) ∨
      ∃ fault, decodeToken token = .error fault ∧
        (.tokenSeparator ∉ token → firstFault? false token = some fault) := by
  obtain ⟨id, behind, rfl, hhead⟩ := exists_literals_append token
  rw [decodeToken, literals_append_of_head id hhead, firstFault?_literals_append]
  cases behind with
  | nil => exact .inr ⟨_, rfl, fun _ => rfl⟩
  | cons u rest =>
    cases u with
    | literal c => exact absurd rfl (hhead c)
    | tokenSeparator => exact .inr ⟨_, rfl, fun h => absurd (by simp) h⟩
    | malformed => exact .inr ⟨_, rfl, fun _ => rfl⟩
    | pairSeparator =>
      obtain ⟨value, behind, rfl, hvalue⟩ := exists_literals_append rest
      have hrest : firstFault? false (.pairSeparator :: (value.map .literal ++ behind)) =
          firstFault? true behind := firstFault?_literals_append value behind
      simp only [literals_append_of_head value hvalue, hrest]
      cases behind with
      | nil => exact .inl ⟨(id, value), by rw [List.append_nil]; rfl, rfl⟩
      | cons u _ =>
        cases u with
        | literal c => exact absurd rfl (hvalue c)
        | tokenSeparator => exact .inr ⟨_, rfl, fun h => absurd (by simp) h⟩
        | pairSeparator | malformed => exact .inr ⟨_, rfl, fun _ => rfl⟩

theorem decodeToken_eq_ok_iff {pair : List Char × List Char} :
    decodeToken token = .ok pair ↔ token = pairSymbols pair := by
  constructor
  · intro h
    obtain ⟨read, htoken, hread⟩ | ⟨fault, hfault, -⟩ := decodeToken_cases token
    · rw [htoken, Except.ok.inj (hread.symm.trans h)]
    · exact nomatch hfault.symm.trans h
  · rintro rfl
    exact decodeToken_pairSymbols pair

/-- What is wrong, if a reading is refused. -/
def fault? {α : Type} : Except Fault α → Option Fault
  | .ok _ => none
  | .error fault => some fault

theorem fault?_decodeToken (h : .tokenSeparator ∉ token) :
    fault? (decodeToken token) = firstFault? false token := by
  obtain ⟨pair, rfl, hpair⟩ | ⟨fault, hfault, hfirst⟩ := decodeToken_cases token
  · rw [hpair, firstFault?_pairSymbols]
    rfl
  · rw [hfault, hfirst h]
    rfl

/-! ## The tokens of a text -/

theorem firstFault?_append_tokenSeparator (h : .tokenSeparator ∉ token) (us : List Symbol) :
    firstFault? seen (token ++ .tokenSeparator :: us) =
      (firstFault? seen token).or (firstFault? false us) := by
  induction token generalizing seen with
  | nil => rfl
  | cons u token ih =>
    rw [List.mem_cons, not_or] at h
    have hseen : firstFault? (seenBehind seen u) (token ++ .tokenSeparator :: us) =
        (firstFault? (seenBehind seen u) token).or (firstFault? false us) := ih h.2
    rw [List.cons_append, firstFault?, hseen, firstFault?, Option.or_assoc]

/-- **The tokens of a text have its first fault**, as the first of them that is refused. -/
theorem fault?_mapM_decodeToken {tokens : List (List Symbol)} (hne : tokens ≠ [])
    (h : ∀ token ∈ tokens, .tokenSeparator ∉ token) :
    fault? (tokens.mapM decodeToken) = firstFault? false ([.tokenSeparator].intercalate tokens) := by
  have hcons (token : List Symbol) (tokens : List (List Symbol)) :
      fault? ((token :: tokens).mapM decodeToken) =
        (fault? (decodeToken token)).or (fault? (tokens.mapM decodeToken)) := by
    rw [List.mapM_cons]
    cases decodeToken token with
    | error fault => rfl
    | ok pair => cases tokens.mapM decodeToken <;> rfl
  induction tokens with
  | nil => exact absurd rfl hne
  | cons token tokens ih =>
    have htoken := h token List.mem_cons_self
    rw [hcons, fault?_decodeToken htoken]
    cases tokens with
    | nil => rw [List.intercalate_singleton, List.mapM_nil]; exact Option.or_none
    | cons next tokens =>
      rw [ih (List.cons_ne_nil _ _) fun token ht => h token (List.mem_cons_of_mem _ ht),
        List.intercalate_cons_cons, List.append_assoc, List.singleton_append,
        firstFault?_append_tokenSeparator htoken]

theorem decodeChars_eq_error_iff {cs : List Char} :
    decodeChars cs = .error fault ↔ IsFirstFault [] (symbols cs) fault := by
  have hseen : false = true ↔ .pairSeparator ∈ openToken [] := by simp [openToken]
  have hfault : fault? (decodeChars cs) = firstFault? false (symbols cs) := by
    rw [decodeChars_eq, fault?_mapM_decodeToken (List.splitOn_ne_nil _ _)
      fun token ht => not_mem_of_mem_splitOn ht, List.intercalate_splitOn]
  rw [isFirstFault_iff hseen, ← hfault]
  cases decodeChars cs <;> simp [fault?]

theorem mapM_decodeToken_eq_ok_iff {tokens : List (List Symbol)}
    {pairs : List (List Char × List Char)} :
    tokens.mapM decodeToken = .ok pairs ↔ tokens = pairs.map pairSymbols := by
  constructor
  · intro h
    induction tokens generalizing pairs with
    | nil =>
      obtain rfl := Except.ok.inj h
      rfl
    | cons token tokens ih =>
      rw [List.mapM_cons] at h
      cases htoken : decodeToken token with
      | error fault => rw [htoken] at h; exact nomatch h
      | ok pair =>
        cases htokens : tokens.mapM decodeToken with
        | error fault => rw [htoken, htokens] at h; exact nomatch h
        | ok others =>
          rw [htoken, htokens] at h
          obtain rfl := Except.ok.inj h
          rw [List.map_cons, decodeToken_eq_ok_iff.mp htoken, ih htokens]
  · rintro rfl
    exact mapM_decodeToken pairs

theorem mem_range_map_literal (hm : .malformed ∉ us) (ht : .tokenSeparator ∉ us)
    (hp : .pairSeparator ∉ us) : us ∈ Set.range (List.map Symbol.literal) := by
  rw [Set.range_list_map]
  intro u hu
  cases u with
  | literal c => exact ⟨c, rfl⟩
  | pairSeparator => exact absurd hu hp
  | tokenSeparator => exact absurd hu ht
  | malformed => exact absurd hu hm

theorem exists_pairSymbols_iff (h : .tokenSeparator ∉ token) :
    (∃ pair, pairSymbols pair = token) ↔ .malformed ∉ token ∧ token.count .pairSeparator = 1 := by
  constructor
  · rintro ⟨pair, rfl⟩
    have hcount (cs : List Char) : (cs.map Symbol.literal).count .pairSeparator = 0 := by
      simp [List.count_eq_zero]
    rw [pairSymbols, List.count_append, List.count_cons_self, hcount, hcount]
    simp
  · rintro ⟨hm, hcount⟩
    have hmem : Symbol.pairSeparator ∈ token := List.count_pos_iff.mp (by omega)
    obtain ⟨id, value, rfl, hid⟩ := List.eq_append_cons_of_mem hmem
    rw [List.count_append, List.count_cons_self, List.count_eq_zero.mpr hid] at hcount
    have hvalue : Symbol.pairSeparator ∉ value := List.count_eq_zero.mp (by omega)
    simp only [List.mem_append, List.mem_cons, not_or] at h hm
    obtain ⟨id, rfl⟩ := mem_range_map_literal hm.1 h.1 hid
    obtain ⟨value, rfl⟩ := mem_range_map_literal hm.2.2 h.2.2 hvalue
    exact ⟨(id, value), rfl⟩

theorem exists_pairs_iff :
    (∃ pairs : List (List Char × List Char), us.splitOn .tokenSeparator = pairs.map pairSymbols) ↔
      .malformed ∉ us ∧ ∀ token ∈ us.splitOn .tokenSeparator, token.count .pairSeparator = 1 := by
  have hmalformed : .malformed ∉ us ↔ ∀ token ∈ us.splitOn .tokenSeparator, .malformed ∉ token := by
    rw [mem_iff_mem_splitOn (by decide)]
    simp
  calc (∃ pairs : List (List Char × List Char), us.splitOn .tokenSeparator = pairs.map pairSymbols)
      ↔ us.splitOn .tokenSeparator ∈ Set.range (List.map pairSymbols) :=
        exists_congr fun _ => eq_comm
    _ ↔ ∀ token ∈ us.splitOn .tokenSeparator, ∃ pair, pairSymbols pair = token := by
        rw [Set.range_list_map]
        rfl
    _ ↔ ∀ token ∈ us.splitOn .tokenSeparator,
          .malformed ∉ token ∧ token.count .pairSeparator = 1 := by
        refine forall₂_congr fun token ht => ?_
        exact exists_pairSymbols_iff (not_mem_of_mem_splitOn ht)
    _ ↔ _ := by rw [forall₂_and, hmalformed]

/-! ## The language -/

/-- What is decoded from a text of these symbols. -/
structure IsDecoded (key : String) (us : List Symbol) : Prop where
  /-- A text is a key if it is not empty, nothing in it is malformed, and each token has one pair
  separator. -/
  isKey_iff : (∃ p, decode key = .ok p) ↔ key ≠ "" ∧ .malformed ∉ us ∧
    ∀ token ∈ us.splitOn .tokenSeparator, token.count .pairSeparator = 1
  /-- Its path is the texts in front of the pair separators and behind them. -/
  ok_iff (p : Path) : decode key = .ok p ↔ key ≠ "" ∧
    us.splitOn .tokenSeparator = p.map fun pair => pairSymbols (pair.1.toList, pair.2.toList)
  /-- Any other text is empty, or it is refused for its first fault. -/
  error_iff (error : DecodeError) : decode key = .error error ↔
    key = "" ∧ error = .empty ∨
      key ≠ "" ∧ ∃ fault, IsFirstFault [] us fault ∧ error = .fault key fault
  /-- The key of the path has the same path. -/
  again (p : Path) : decode key = .ok p → decode (encode p) = .ok p

theorem decode_empty : decode "" = .error .empty := rfl

theorem decode_of_ne {key : String} (h : key ≠ "") : decode key =
    match decodeChars key.toList with
    | .ok pairs => .ok (pairs.map fun pair => (String.ofList pair.1, String.ofList pair.2))
    | .error fault => .error (.fault key fault) := by
  rw [decode]
  split
  · next hnil => exact absurd (String.toList_eq_nil_iff.mp hnil) h
  · rfl

theorem decode_eq_ok_iff {key : String} {p : Path} : decode key = .ok p ↔
    key ≠ "" ∧ decodeChars key.toList =
      .ok (p.map fun pair => (pair.1.toList, pair.2.toList)) := by
  by_cases hkey : key = ""
  · simp [hkey, decode_empty]
  · rw [decode_of_ne hkey]
    cases decodeChars key.toList with
    | error fault => simp
    | ok pairs =>
      simp only [Except.ok.injEq, ne_eq, hkey, not_false_eq_true, true_and]
      constructor
      · rintro rfl
        simp [Function.comp_def]
      · rintro rfl
        simp [Function.comp_def]

theorem decode_eq_error_iff {key : String} {error : DecodeError} : decode key = .error error ↔
    key = "" ∧ error = .empty ∨
      key ≠ "" ∧ ∃ fault, decodeChars key.toList = .error fault ∧ error = .fault key fault := by
  by_cases hkey : key = ""
  · simp [hkey, decode_empty, eq_comm]
  · rw [decode_of_ne hkey]
    cases decodeChars key.toList <;> simp [hkey, eq_comm]

theorem isDecoded (key : String) : IsDecoded key (symbols key.toList) := by
  have hok (p : Path) : decode key = .ok p ↔ key ≠ "" ∧
      (symbols key.toList).splitOn .tokenSeparator =
        p.map fun pair => pairSymbols (pair.1.toList, pair.2.toList) := by
    rw [decode_eq_ok_iff, decodeChars_eq, mapM_decodeToken_eq_ok_iff, List.map_map]
    rfl
  refine ⟨?_, hok, fun error => ?_, fun p hp => ?_⟩
  · rw [← exists_pairs_iff, exists_congr hok, exists_and_left]
    refine and_congr_right fun _ => ⟨?_, ?_⟩
    · rintro ⟨p, hp⟩
      exact ⟨p.map fun pair => (pair.1.toList, pair.2.toList), by rw [hp, List.map_map]; rfl⟩
    · rintro ⟨pairs, hpairs⟩
      refine ⟨pairs.map fun pair => (String.ofList pair.1, String.ofList pair.2), ?_⟩
      rw [hpairs]
      simp [Function.comp_def]
  · rw [decode_eq_error_iff]
    simp only [decodeChars_eq_error_iff]
  · refine decode_encode ?_
    rintro rfl
    exact List.splitOn_ne_nil _ _ ((hok []).mp hp).2

/-- **Every text is read in one way, and what it is read as decides what is decoded from it.** -/
theorem decode_exact (key : String) :
    ∃ us, Reads key.toList us ∧ (∀ other, Reads key.toList other → other = us) ∧ IsDecoded key us :=
  ⟨symbols key.toList, reads_iff.mpr rfl, fun _ h => reads_iff.mp h, isDecoded key⟩

-- three separator characters are a separator and a character
example : decode "a:::b___c::d" = .ok [("a", ":b"), ("_c", "d")] ∧
    decode "a::b__c:d\\" = .error (.fault "a::b__c:d\\" .invalidEscape) := by decide +kernel

end SurveyTables.Key
