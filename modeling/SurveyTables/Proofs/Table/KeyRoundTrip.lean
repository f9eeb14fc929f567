import SurveyTables.Table.Key

/-!
# Keys read back

A key is a row of symbols: literals for the characters of the texts, and separators that no text can
hold, because every reserved character of a text is a literal behind a backslash.

* `pairSymbols`, `symbols_encodePair_append`: the symbols of a pair in a key;
* `splitTokens_encodeChars`: the tokens of a key are the symbols of its pairs;
* `decodeToken_pairSymbols`, `decode_encode`: each token, and so each key, reads back;
* **`decode_encode_zip`**: a key gives back exactly the pairs of ids and texts, different pairs have
  different keys, and only the key of no pairs is empty.
-/

namespace SurveyTables.Key

/-! ## The symbols of a pair -/

/-- The symbols of a pair: the literals of both texts and the separator between them. -/
def pairSymbols (pair : List Char × List Char) : List Symbol :=
  pair.1.map .literal ++ .pairSeparator :: pair.2.map .literal

theorem symbols_reserved {c : Char} (h : isReserved c = true) (rest : List Char) :
    symbols ('\\' :: c :: rest) = .literal c :: symbols rest := by
  rw [symbols, if_pos h]

theorem symbols_plain {c : Char} (h : isReserved c = false) (rest : List Char) :
    symbols (c :: rest) = .literal c :: symbols rest := by
  have hc : (c ≠ '\\' ∧ c ≠ ':') ∧ c ≠ '_' := by simpa [isReserved] using h
  obtain ⟨⟨hb, hp⟩, ht⟩ := hc
  rw [symbols] <;> simp [hb, hp, ht]

/-- What follows a text does not change how the text is read, as no reserved character ends it
unescaped. -/
theorem symbols_escaped_append (cs rest : List Char) :
    symbols (escaped cs ++ rest) = cs.map .literal ++ symbols rest := by
  induction cs with
  | nil => rfl
  | cons c cs ih =>
    rw [escaped]
    by_cases hc : isReserved c = true
    · rw [if_pos hc, List.cons_append, List.cons_append, symbols_reserved hc, ih]
      rfl
    · rw [if_neg hc, List.cons_append, symbols_plain (by simpa using hc), ih]
      rfl

theorem symbols_encodePair_append (pair : List Char × List Char) (rest : List Char) :
    symbols (encodePair pair ++ rest) = pairSymbols pair ++ symbols rest := by
  have hsep : symbols (':' :: ':' :: (escaped pair.2 ++ rest)) =
      .pairSeparator :: symbols (escaped pair.2 ++ rest) := by
    rw [symbols]
  rw [encodePair, List.append_assoc, List.cons_append, List.cons_append, symbols_escaped_append,
    hsep, symbols_escaped_append, pairSymbols, List.append_assoc, List.cons_append]

/-! ## The tokens of a key -/

theorem splitTokens_cons {u : Symbol} (hu : u ≠ .tokenSeparator) (us : List Symbol) :
    splitTokens (u :: us) = (u :: (splitTokens us).1, (splitTokens us).2) := by
  rw [splitTokens]
  exact hu

theorem splitTokens_literals_append (cs : List Char) (us : List Symbol) :
    splitTokens (cs.map .literal ++ us) =
      (cs.map .literal ++ (splitTokens us).1, (splitTokens us).2) := by
  induction cs with
  | nil => rfl
  | cons c cs ih => rw [List.map_cons, List.cons_append, splitTokens_cons (by simp), ih]; rfl

theorem splitTokens_pairSymbols_append (pair : List Char × List Char) (us : List Symbol) :
    splitTokens (pairSymbols pair ++ us) =
      (pairSymbols pair ++ (splitTokens us).1, (splitTokens us).2) := by
  rw [pairSymbols, List.append_assoc, List.cons_append, splitTokens_literals_append,
    splitTokens_cons (by simp), splitTokens_literals_append]
  simp

theorem splitTokens_encodeChars (pair : List Char × List Char)
    (rest : List (List Char × List Char)) :
    splitTokens (symbols (encodeChars (pair :: rest))) = (pairSymbols pair, rest.map pairSymbols) := by
  induction rest generalizing pair with
  | nil =>
    have h := symbols_encodePair_append pair []
    rw [List.append_nil] at h
    rw [encodeChars, h, splitTokens_pairSymbols_append]
    simp [symbols, splitTokens]
  | cons next rest ih =>
    have hsep : symbols ('_' :: '_' :: encodeChars (next :: rest)) =
        .tokenSeparator :: symbols (encodeChars (next :: rest)) := by
      rw [symbols]
    rw [encodeChars, symbols_encodePair_append, hsep, splitTokens_pairSymbols_append, splitTokens, ih]
    · simp
    · simp

/-! ## Reading back -/

theorem literals_append (cs : List Char) (us : List Symbol) :
    literals (cs.map .literal ++ us) = (cs ++ (literals us).1, (literals us).2) := by
  induction cs with
  | nil => rfl
  | cons c cs ih => rw [List.map_cons, List.cons_append, literals, ih]; rfl

theorem decodeToken_pairSymbols (pair : List Char × List Char) :
    decodeToken (pairSymbols pair) = .ok pair := by
  have hvalue : literals (pair.2.map .literal) = (pair.2, []) := by
    have h := literals_append pair.2 []
    simpa [literals] using h
  have hid : literals (pairSymbols pair) = (pair.1, .pairSeparator :: pair.2.map .literal) := by
    rw [pairSymbols, literals_append, literals, List.append_nil]
    simp
  rw [decodeToken, hid]
  simp only [hvalue]

theorem mapM_decodeToken (pairs : List (List Char × List Char)) :
    (pairs.map pairSymbols).mapM decodeToken = .ok pairs := by
  induction pairs with
  | nil => rfl
  | cons pair pairs ih => rw [List.map_cons, List.mapM_cons, decodeToken_pairSymbols, ih]; rfl

theorem decodeChars_encodeChars {pairs : List (List Char × List Char)} (h : pairs ≠ []) :
    decodeChars (encodeChars pairs) = .ok pairs := by
  obtain ⟨pair, rest, rfl⟩ := List.exists_cons_of_ne_nil h
  rw [decodeChars, splitTokens_encodeChars]
  exact mapM_decodeToken (pair :: rest)

theorem encodeChars_eq_nil_iff {pairs : List (List Char × List Char)} :
    encodeChars pairs = [] ↔ pairs = [] := by
  cases pairs with
  | nil => simp [encodeChars]
  | cons pair rest => cases rest <;> simp [encodeChars, encodePair]

theorem encode_eq_empty_iff {p : Path} : encode p = "" ↔ p = [] := by
  rw [encode, ← String.toList_eq_nil_iff, String.toList_ofList, encodeChars_eq_nil_iff,
    List.map_eq_nil_iff]

theorem decode_encode {p : Path} (h : p ≠ []) : decode (encode p) = .ok p := by
  have hp : p.map (fun pair => (pair.1.toList, pair.2.toList)) ≠ [] := by simpa using h
  have hne : encodeChars (p.map fun pair => (pair.1.toList, pair.2.toList)) ≠ [] := by
    rwa [ne_eq, encodeChars_eq_nil_iff]
  rw [decode, encode, String.toList_ofList]
  split
  · contradiction
  · rw [decodeChars_encodeChars hp]
    simp [Function.comp_def]

theorem encode_injective : Function.Injective encode := by
  intro p q h
  by_cases hp : p = []
  · rw [hp, encode_eq_empty_iff.mpr rfl, eq_comm, encode_eq_empty_iff] at h
    rw [hp, h]
  · have hq : q ≠ [] := fun hq => hp (encode_eq_empty_iff.mp (h.trans (encode_eq_empty_iff.mpr hq)))
    have := decode_encode hp
    rw [h, decode_encode hq] at this
    exact (Except.ok.inj this).symm

/-- **A key gives back the ids and texts that it was made of**, as far as both reach. Only the key of no
pairs is empty. -/
theorem decode_encode_zip {V W : Type} (text : V → String) (ids : List String) (values : List V) :
    (ids.zip values ≠ [] →
      decode (encode (ids.zip (values.map text))) = .ok (ids.zip (values.map text))) ∧
    (∀ (text' : W → String) (ids' : List String) (values' : List W),
      encode (ids.zip (values.map text)) = encode (ids'.zip (values'.map text')) →
        ids.zip (values.map text) = ids'.zip (values'.map text')) ∧
    (encode (ids.zip (values.map text)) = "" ↔ ids.zip values = []) ∧
    decode "" = .error .empty := by
  have hnil : ids.zip (values.map text) = [] ↔ ids.zip values = [] := by
    rw [List.zip_map_right, List.map_eq_nil_iff]
  refine ⟨fun h => ?_, fun text' ids' values' h => ?_, ?_, rfl⟩
  · exact decode_encode (mt hnil.mp h)
  · exact encode_injective h
  · rw [encode_eq_empty_iff, hnil]

/-- Texts made of separators, backslashes and nothing at all, and one value too many. -/
theorem decode_encode_zip_reserved :
    ["q\\", "", ":_:"].zip ["::", "", "__\\", "extra"] ≠ [] ∧
    decode (encode (["q\\", "", ":_:"].zip (["::", "", "__\\", "extra"].map id))) =
      .ok [("q\\", "::"), ("", ""), (":_:", "__\\")] :=
  ⟨by decide, (decode_encode_zip (W := String) id ["q\\", "", ":_:"] ["::", "", "__\\", "extra"]).1
    (by decide)⟩

end SurveyTables.Key
