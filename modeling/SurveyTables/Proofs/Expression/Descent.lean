import SurveyTables.Proofs.Expression.Places

/-!
# Reading by descent

The grammar read by one procedure for each of its rules. A procedure counts a group as open from `(` to `)`; one
that fails leaves the count as it is. The drafts that a reader keeps are what these procedures hold while they
wait for others.

* `Visit`, `Visit.andThen`: what becomes of a procedure, and of two of them one after the other;
* `sum`, `chains`, `chain`, `atoms`, `atom`: the procedures; `descend`: reading with them;
* `entries_sum`, `entries_chain`, `entries_atom`: a procedure puts its own reader in front of those of the
  procedures that it enters;
* `Reaches`, `Follows`: the places that a procedure goes through; **`Follows.andThen`**;
* **`descend_eq`**: reading by descent is reading;
* **`exists_of_mem_entries`**: every procedure is entered at a place that the tokens before it lead to.
-/

namespace SurveyTables.Expression.Descent

/-! ## Procedures -/

/-- What becomes of a procedure that is entered at `r`. It never goes back. -/
structure Visit (r : Reader) where
  answer : Except ReadError Expression
  /-- Where the procedure leaves the reader, also if it fails. -/
  reader : Reader
  /-- The reader at every entry of a procedure, in order. -/
  entries : List Reader
  le : reader.rest.length ≤ r.rest.length

namespace Visit

variable {r s : Reader}

/-- The end of a procedure at `s`. -/
def done (s : Reader) (answer : Except ReadError Expression) (h : s.rest.length ≤ r.rest.length) :
    Visit r :=
  { answer, reader := s, entries := [], le := h }

/-- The procedure is entered at `r`. -/
def entered (v : Visit r) : Visit r :=
  { v with entries := r :: v.entries }

/-- Goes on from `r` to `s`. -/
def after (v : Visit s) (h : s.rest.length ≤ r.rest.length) : Visit r :=
  { v with le := v.le.trans h }

/-- Goes on with what the procedure has read, unless it has failed. -/
def andThen (v : Visit r)
    (next : Expression → (s : Reader) → s.rest.length ≤ r.rest.length → Visit s) : Visit r :=
  match v.answer with
  | .error _ => v
  | .ok e =>
    let w := next e v.reader v.le
    { w with entries := v.entries ++ w.entries, le := w.le.trans v.le }

end Visit

/-- The end of a group that holds `e`. -/
def close (e : Expression) (r : Reader) : Visit r :=
  match h : r.rest with
  | .rightParen :: rest => .done { rest, depth := r.depth - 1 } (.ok (.paren e)) (by simp [h])
  | rest => .done r (.error (.unclosed r.depth rest.head?)) (le_refl _)

/-- The end of the text, behind `e`. -/
def finish (e : Expression) (r : Reader) : Visit r :=
  match r.rest with
  | [] => .done r (.ok e) (le_refl _)
  | t :: _ => .done r (.error (.ofEnd t)) (le_refl _)

mutual

-- A sum enters a chain, and a chain an atom, with the same tokens to come; any other entry has fewer.

/-- A chain, and as long as `+` follows another one. -/
def sum (r : Reader) : Visit r :=
  ((chain r).andThen fun c s _ => chains [c] s).entered
termination_by 3 * r.rest.length + 2

/-- The chains that follow, `done` being those before them, the newest first. -/
def chains (done : List Expression) (r : Reader) : Visit r :=
  match h : r.rest with
  | .plus :: rest =>
    ((chain { r with rest }).andThen fun c s _ => chains (c :: done) s).after (by simp [h])
  | _ => .done r (.ok (collapse .sum done.reverse)) (le_refl _)
termination_by 3 * r.rest.length
decreasing_by all_goals grind

/-- An atom, and as long as `>` follows another one. -/
def chain (r : Reader) : Visit r :=
  ((atom r).andThen fun a s _ => atoms [a] s).entered
termination_by 3 * r.rest.length + 1

/-- The atoms that follow, `done` being those before them, the newest first. -/
def atoms (done : List Expression) (r : Reader) : Visit r :=
  match h : r.rest with
  | .greater :: rest =>
    ((atom { r with rest }).andThen fun a s _ => atoms (a :: done) s).after (by simp [h])
  | _ => .done r (.ok (collapse .nest done.reverse)) (le_refl _)
termination_by 3 * r.rest.length
decreasing_by all_goals grind

/-- A name, or a sum in parentheses. -/
def atom (r : Reader) : Visit r :=
  .entered <| match h : r.rest with
  | .name id :: rest => .done { r with rest } (.ok (.single id)) (by simp [h])
  | .leftParen :: rest =>
    ((sum { rest, depth := r.depth + 1 }).andThen fun e s _ => close e s).after (by simp [h])
  | rest => .done r (.error (.ofItem r.depth rest.head?)) (le_refl _)
termination_by 3 * r.rest.length
decreasing_by grind

end

/-- Reads one expression up to the end of the text. -/
def descend (r : Reader) : Visit r :=
  match r.rest with
  | [] => .done r (.error .empty) (le_refl _)
  | _ :: _ => (sum r).andThen fun e s _ => finish e s

/-! ## Entries -/

section Entries

variable {r s : Reader}

theorem Visit.entries_andThen (v : Visit r)
    (next : Expression → (s : Reader) → s.rest.length ≤ r.rest.length → Visit s) :
    (v.andThen next).entries = v.entries ++ match v.answer with
      | .error _ => []
      | .ok e => (next e v.reader v.le).entries := by
  rw [andThen]
  split
  · exact (List.append_nil _).symm
  · rfl

theorem entries_close (e : Expression) (r : Reader) : (close e r).entries = [] := by
  unfold close
  split <;> rfl

theorem entries_sum (r : Reader) : (sum r).entries = r :: ((chain r).entries ++
    match (chain r).answer with
    | .error _ => []
    | .ok c => (chains [c] (chain r).reader).entries) := by
  rw [sum]
  exact congrArg (r :: ·) (Visit.entries_andThen _ _)

theorem entries_chain (r : Reader) : (chain r).entries = r :: ((atom r).entries ++
    match (atom r).answer with
    | .error _ => []
    | .ok a => (atoms [a] (atom r).reader).entries) := by
  rw [chain]
  exact congrArg (r :: ·) (Visit.entries_andThen _ _)

theorem entries_atom (r : Reader) : (atom r).entries = r :: match r.rest with
    | .leftParen :: rest => (sum { rest, depth := r.depth + 1 }).entries
    | _ => [] := by
  rw [atom, Visit.entered]
  refine congrArg (r :: ·) ?_
  split
  · next id rest h =>
    show [] = _
    rw [h]
  · next rest h =>
    have hgroup : ((sum { rest, depth := r.depth + 1 }).andThen fun e s _ => close e s).entries =
        (sum { rest, depth := r.depth + 1 }).entries := by
      rw [Visit.entries_andThen]
      split
      · exact List.append_nil _
      · rw [entries_close, List.append_nil]
    refine Eq.trans hgroup ?_
    rw [h]
  · next hname hparen =>
    split
    · next rest h => exact absurd h (hparen rest)
    · rfl

/-- Every procedure is the first to be entered of those that it enters. -/
theorem head?_entries (r : Reader) : (sum r).entries.head? = some r ∧
    (chain r).entries.head? = some r ∧ (atom r).entries.head? = some r := by
  rw [entries_sum, entries_chain, entries_atom]
  exact ⟨rfl, rfl, rfl⟩

end Entries

/-! ## Places on the way -/

/-- Tokens that fit lead from the place `p` of `r` to the place `q` of `s`, which counts its groups and the
`left` others. -/
structure Reaches (left : Nat) (p : Place) (r : Reader) (q : Place) (s : Reader) : Prop where
  exists_run : ∃ passed, r.rest = passed ++ s.rest ∧ p.run passed = some q
  depth_eq : s.depth = left + q.depth

namespace Reaches

variable {left : Nat} {p q : Place} {r s : Reader} {t : Token}

theorem refl (h : r.depth = left + p.depth) : Reaches left p r p r :=
  ⟨⟨[], rfl, rfl⟩, h⟩

theorem step (hrest : r.rest = t :: s.rest) (hstep : p.step t = some q)
    (hdepth : s.depth = left + q.depth) : Reaches left p r q s :=
  ⟨⟨[t], hrest, by rw [Place.run_cons, hstep]; rfl⟩, hdepth⟩

theorem trans {p' : Place} {r' : Reader} (h : Reaches left p r q s) (h' : Reaches left q s p' r') :
    Reaches left p r p' r' := by
  obtain ⟨passed, hrest, hrun⟩ := h.exists_run
  obtain ⟨passed', hrest', hrun'⟩ := h'.exists_run
  refine ⟨⟨passed ++ passed', ?_, ?_⟩, h'.depth_eq⟩
  · rw [hrest, hrest', List.append_assoc]
  · rw [Place.run_append, hrun]
    exact hrun'

end Reaches

/-- From the place `p` on, a procedure enters others, ends and fails at the places that its tokens lead to. Where
it ends is as `Done` says, where it fails is a token that does not fit. -/
structure Follows (left : Nat) (p : Place) {r : Reader} (v : Visit r)
    (Done : Expression → Place → Option Token → Prop) : Prop where
  entries : ∀ s ∈ v.entries, ∃ q, Reaches left p r q s
  of_ok : ∀ e, v.answer = .ok e →
    ∃ q, Reaches left p r q v.reader ∧ Done e q v.reader.rest.head?
  of_error : ∀ err, v.answer = .error err →
    ∃ q, Reaches left p r q v.reader ∧ (∀ t ∈ v.reader.rest.head?, q.step t = none) ∧
      q.answer left v.reader.rest.head? = .error err

namespace Follows

variable {left : Nat} {p q : Place} {r s : Reader} {v : Visit r}
  {Done Done' : Expression → Place → Option Token → Prop}

theorem entered (h : Follows left p v Done) (hdepth : r.depth = left + p.depth) :
    Follows left p v.entered Done where
  entries := by
    intro s hs
    rcases List.mem_cons.mp hs with rfl | hs
    · exact ⟨p, .refl hdepth⟩
    · exact h.entries s hs
  of_ok := h.of_ok
  of_error := h.of_error

theorem after {w : Visit s} (h : Follows left q w Done) (hreach : Reaches left p r q s)
    (hle : s.rest.length ≤ r.rest.length) : Follows left p (w.after hle) Done where
  entries s' hs' := (h.entries s' hs').imp fun _ => hreach.trans
  of_ok e he := (h.of_ok e he).imp fun _ => And.imp_left hreach.trans
  of_error err herr := (h.of_error err herr).imp fun _ => And.imp_left hreach.trans

theorem done_ok {e : Expression} (hreach : Reaches left p r q s) (hdone : Done e q s.rest.head?)
    (hle : s.rest.length ≤ r.rest.length) : Follows left p (.done s (.ok e) hle : Visit r) Done where
  entries := nofun
  of_ok _ he := ⟨q, hreach, Except.ok.inj he ▸ hdone⟩
  of_error := nofun

theorem done_error {err : ReadError} (hdepth : r.depth = left + p.depth)
    (hstuck : ∀ t ∈ r.rest.head?, p.step t = none)
    (hanswer : p.answer left r.rest.head? = .error err) (hle : r.rest.length ≤ r.rest.length) :
    Follows left p (.done r (.error err) hle : Visit r) Done where
  entries := nofun
  of_ok := nofun
  of_error _ herr := ⟨p, .refl hdepth, hstuck, hanswer.trans herr⟩

/-- **One procedure after the other.** -/
theorem andThen (h : Follows left p v Done)
    {next : Expression → (s : Reader) → s.rest.length ≤ r.rest.length → Visit s}
    (hnext : ∀ e q s hle, s.depth = left + q.depth → Done e q s.rest.head? →
      Follows left q (next e s hle) Done') : Follows left p (v.andThen next) Done' := by
  unfold Visit.andThen
  split
  · next err herr => exact ⟨h.entries, fun _ he => (nomatch herr.symm.trans he), h.of_error⟩
  · next e he =>
    obtain ⟨q, hreach, hdone⟩ := h.of_ok e he
    have hafter := (hnext e q v.reader v.le hreach.depth_eq hdone).after hreach v.le
    refine ⟨fun s hs => ?_, hafter.of_ok, hafter.of_error⟩
    rcases List.mem_append.mp hs with hs | hs
    · exact h.entries s hs
    · exact hafter.entries s hs

end Follows

/-! ## The places of each procedure -/

variable {left : Nat}

/-- Behind an atom of the draft. -/
def IsAtom (outer : List Draft) (draft : Draft) (e : Expression) (q : Place) (_ : Option Token) : Prop :=
  q = .behind outer (draft.addItem e)

/-- Behind a whole chain, with these before it. -/
def IsChain (outer : List Draft) (chains : List Expression) (e : Expression) (q : Place)
    (next : Option Token) : Prop :=
  ∃ draft, q = .behind outer draft ∧ draft.chains = chains ∧ draft.chain = e ∧ next ≠ some .greater

/-- Behind a whole sum. -/
def IsSum (outer : List Draft) (e : Expression) (q : Place) (next : Option Token) : Prop :=
  ∃ draft, q = .behind outer draft ∧ draft.sum = e ∧ next ≠ some .greater ∧ next ≠ some .plus

/-- Behind the whole text. -/
def IsWhole (e : Expression) (q : Place) (next : Option Token) : Prop :=
  ∃ draft, q = .behind [] draft ∧ draft.sum = e ∧ next = none

theorem close_follows {outer : List Draft} {around draft : Draft} {r : Reader}
    (hdepth : r.depth = left + (outer.length + 1))
    (hgreater : r.rest.head? ≠ some .greater) (hplus : r.rest.head? ≠ some .plus) :
    Follows left (.behind (around :: outer) draft) (close draft.sum r) (IsAtom outer around) := by
  unfold close
  split
  · next rest hrest =>
    refine .done_ok (.step hrest rfl ?_) rfl _
    show r.depth - 1 = left + outer.length
    omega
  · next hright =>
    refine .done_error hdepth (fun t ht => ?_) ?_ _
    · obtain ⟨rest, hrest⟩ := List.head?_eq_some_iff.mp ht
      cases t <;> first | rfl | simp_all
    · rw [Place.answer, hdepth]

theorem finish_follows {draft : Draft} {r : Reader} (hdepth : r.depth = left)
    (hgreater : r.rest.head? ≠ some .greater) (hplus : r.rest.head? ≠ some .plus) :
    Follows left (.behind [] draft) (finish draft.sum r) IsWhole := by
  unfold finish
  split
  · next hrest => exact .done_ok (.refl hdepth) ⟨draft, rfl, rfl, by rw [hrest]; rfl⟩ _
  · next t rest hrest =>
    refine .done_error hdepth (fun t' ht => ?_) ?_ _
    · cases t' <;> first | rfl | simp_all
    · rw [hrest, List.head?_cons, Place.answer]

-- One case for each procedure; a draft holds what the loops around the place have gathered.

mutual

theorem sum_follows (r : Reader) (outer : List Draft) (hdepth : r.depth = left + outer.length) :
    Follows left (.due outer {}) (sum r) (IsSum outer) := by
  rw [sum]
  refine .entered (.andThen (chain_follows r outer [] hdepth) ?_) hdepth
  rintro c q s hle hdepth ⟨draft, rfl, hchains, rfl, hnext⟩
  refine chains_follows s outer draft [draft.chain] hdepth ?_ hnext
  rw [Draft.endChain, hchains]
termination_by 3 * r.rest.length + 2

theorem chains_follows (r : Reader) (outer : List Draft) (draft : Draft) (done : List Expression)
    (hdepth : r.depth = left + outer.length) (hdone : draft.endChain.chains = done)
    (hnext : r.rest.head? ≠ some .greater) :
    Follows left (.behind outer draft) (chains done r) (IsSum outer) := by
  rw [chains]
  split
  · next rest hrest =>
    -- The loop knows the finished chains only; so does the draft once its last chain is finished.
    have hend : draft.endChain = { chains := done } := by rw [← hdone]; rfl
    have hreach : Reaches left (.behind outer draft) r (.due outer { chains := done }) { r with rest } :=
      .step hrest (by rw [← hend]; rfl) hdepth
    refine .after (.andThen (chain_follows { r with rest } outer done hdepth) ?_) hreach _
    rintro c q s hle hdepth ⟨draft, rfl, hchains, rfl, hnext⟩
    refine chains_follows s outer draft (draft.chain :: done) hdepth ?_ hnext
    rw [Draft.endChain, hchains]
  · next hplus =>
    refine .done_ok (.refl hdepth) ⟨draft, rfl, ?_, hnext, ?_⟩ _
    · rw [Draft.sum, hdone]
    · exact fun hhead => (List.head?_eq_some_iff.mp hhead).elim hplus
termination_by 3 * r.rest.length
decreasing_by all_goals grind

theorem chain_follows (r : Reader) (outer : List Draft) (chains : List Expression)
    (hdepth : r.depth = left + outer.length) :
    Follows left (.due outer { chains }) (chain r) (IsChain outer chains) := by
  rw [chain]
  refine .entered (.andThen (atom_follows r outer { chains } hdepth) ?_) hdepth
  rintro a q s hle hdepth rfl
  exact atoms_follows s outer chains [a] hdepth
termination_by 3 * r.rest.length + 1

theorem atoms_follows (r : Reader) (outer : List Draft) (chains done : List Expression)
    (hdepth : r.depth = left + outer.length) :
    Follows left (.behind outer { chains, items := done }) (atoms done r) (IsChain outer chains) := by
  rw [atoms]
  split
  · next rest hrest =>
    have hreach : Reaches left (.behind outer { chains, items := done }) r
        (.due outer { chains, items := done }) { r with rest } := .step hrest rfl hdepth
    refine .after (.andThen (atom_follows { r with rest } outer _ hdepth) ?_) hreach _
    rintro a q s hle hdepth rfl
    exact atoms_follows s outer chains (a :: done) hdepth
  · next hgreater =>
    refine .done_ok (.refl hdepth) ⟨_, rfl, rfl, rfl, ?_⟩ _
    exact fun hhead => (List.head?_eq_some_iff.mp hhead).elim hgreater
termination_by 3 * r.rest.length
decreasing_by all_goals grind

theorem atom_follows (r : Reader) (outer : List Draft) (draft : Draft)
    (hdepth : r.depth = left + outer.length) :
    Follows left (.due outer draft) (atom r) (IsAtom outer draft) := by
  rw [atom]
  refine .entered ?_ hdepth
  split
  · next id rest hrest => exact .done_ok (.step hrest rfl hdepth) rfl _
  · next rest hrest =>
    have hinside : r.depth + 1 = left + (outer.length + 1) := by omega
    have hreach : Reaches left (.due outer draft) r (.due (draft :: outer) {})
        { rest, depth := r.depth + 1 } := .step hrest rfl hinside
    refine .after (.andThen (sum_follows _ (draft :: outer) hinside) ?_) hreach _
    rintro e q s hle hdepth ⟨inner, rfl, rfl, hgreater, hplus⟩
    exact close_follows hdepth hgreater hplus
  · next hname hleft =>
    refine .done_error hdepth (fun t ht => ?_) ?_ _
    · obtain ⟨rest, hrest⟩ := List.head?_eq_some_iff.mp ht
      cases t <;> first | rfl | simp_all
    · rw [Place.answer, hdepth]
termination_by 3 * r.rest.length
decreasing_by grind

end

/-! ## Reading -/

/-- **A descent is a reading.** -/
theorem Follows.read_eq {p : Place} {r : Reader} {v : Visit r} (h : Follows left p v IsWhole) :
    p.read left r.rest = (v.answer, v.reader) := by
  have hstop : ∃ q, Reaches left p r q v.reader ∧ (∀ t ∈ v.reader.rest.head?, q.step t = none) ∧
      q.answer left v.reader.rest.head? = v.answer := by
    cases hanswer : v.answer with
    | ok e =>
      obtain ⟨q, hreach, draft, rfl, rfl, hnext⟩ := h.of_ok e hanswer
      rw [hnext]
      exact ⟨_, hreach, nofun, rfl⟩
    | error err => exact h.of_error err hanswer
  obtain ⟨q, hreach, hstuck, hanswer⟩ := hstop
  obtain ⟨passed, hrest, hrun⟩ := hreach.exists_run
  rw [hrest, Place.read_append hrun, Place.read_eq_answer hstuck, hanswer, ← hreach.depth_eq]

theorem descend_follows {r : Reader} (h : r.rest ≠ []) : Follows r.depth .start (descend r) IsWhole := by
  unfold descend
  split
  · next hnil => exact absurd hnil h
  · refine .andThen (sum_follows r [] rfl) ?_
    rintro e q s hle hdepth ⟨draft, rfl, rfl, hgreater, hplus⟩
    exact finish_follows hdepth hgreater hplus

theorem descend_nil {r : Reader} (h : r.rest = []) :
    descend r = .done r (.error .empty) (le_refl _) := by
  unfold descend
  split
  · rfl
  · next hcons => exact nomatch h.symm.trans hcons

/-- **Reading by descent is reading**: the same answer, and the reader left at the same place with the same
count. -/
theorem descend_eq (r : Reader) : ((descend r).answer, (descend r).reader) = r.read := by
  cases hrest : r.rest with
  | nil =>
    have hread : r.read = (.error .empty, r) := by rw [Reader.read, hrest]
    rw [descend_nil hrest, hread]
    rfl
  | cons t ts =>
    have hne : r.rest ≠ [] := by simp [hrest]
    rw [← (descend_follows hne).read_eq, Reader.read, hrest]
    rfl

/-- **A procedure is entered at a place** that the tokens before it lead to. -/
theorem exists_of_mem_entries {r s : Reader} (h : s ∈ (descend r).entries) :
    ∃ q, Reaches r.depth .start r q s := by
  by_cases hrest : r.rest = []
  · rw [descend_nil hrest] at h
    exact absurd h List.not_mem_nil
  · exact (descend_follows hrest).entries s h

end SurveyTables.Expression.Descent
