import SurveyTables.Proofs.Expression.Reading

/-!
# Places in an expression

A reader is at a place within the sums that it drafts. A token moves it to the next place, or does not fit;
reading goes on as long as tokens fit.

* `Place`, `Place.step`, `Place.run`: a place, and where tokens lead from it;
* `Place.read_append`, **`Place.exists_run`**: a reading passes the tokens that fit, and a run has an end;
* `Place.answer_eq_ok_iff`: only behind an item, with no group open, the end of the text can come;
* `Place.count_run`, `Place.depth_of_run`: how many groups are open;
* **`Place.exists_closing`**: from every place on, some tokens complete the expression;
* **`Reader.read_append`**, **`Reader.exists_stop`**: a reading stops in front of the first token that does not
  fit.
-/

namespace SurveyTables

namespace Expression

/-- A place in an expression, within the drafts of the sums around it: an item is due, or has just been
read. -/
inductive Place where
  | due (outer : List Draft) (draft : Draft)
  | behind (outer : List Draft) (draft : Draft)

namespace Place

/-- Where an expression begins. -/
def start : Place := due [] {}

/-- How many groups are open. -/
def depth : Place → Nat
  | due outer _ => outer.length
  | behind outer _ => outer.length

/-- The place behind a token; `none` if the token does not fit. -/
def step : Place → Token → Option Place
  | due outer draft, .name id => some (behind outer (draft.addItem (.single id)))
  | due outer draft, .leftParen => some (due (draft :: outer) {})
  | behind outer draft, .greater => some (due outer draft)
  | behind outer draft, .plus => some (due outer draft.endChain)
  | behind (around :: outer) draft, .rightParen =>
    some (behind outer (around.addItem (.paren draft.sum)))
  | _, _ => none

/-- The place behind tokens that all fit. -/
def run (p : Place) (ts : List Token) : Option Place :=
  ts.foldlM step p

/-- Reads on from the place, with `left` groups that earlier readings left open. -/
def read (left : Nat) : Place → List Token → Except ReadError Expression × Reader
  | due outer draft, ts => readItem left outer draft ts
  | behind outer draft, ts => readRest left outer draft ts

/-- The answer at the place if what comes next does not fit. -/
def answer (left : Nat) : Place → Option Token → Except ReadError Expression
  | due outer _, next => .error (.ofItem (left + outer.length) next)
  | behind [] draft, none => .ok draft.sum
  | behind [] _, some t => .error (.ofEnd t)
  | behind (_ :: outer) _, next => .error (.unclosed (left + (outer.length + 1)) next)

variable {p q : Place} {t : Token} {ts rest : List Token} {left : Nat}

/-! ## Steps -/

theorem read_cons (h : p.step t = some q) (left : Nat) (rest : List Token) :
    p.read left (t :: rest) = q.read left rest := by
  unfold step at h
  split at h <;> cases h
  all_goals simp only [read, readItem, readRest]

theorem read_eq_answer (h : ∀ t ∈ rest.head?, p.step t = none) :
    p.read left rest = (p.answer left rest.head?, { rest, depth := left + p.depth }) := by
  cases rest with
  | nil =>
    rcases p with ⟨outer, draft⟩ | ⟨_ | ⟨around, outer⟩, draft⟩ <;>
      simp [read, readItem, readRest, finish, answer, depth]
  | cons t rest =>
    have hstep : p.step t = none := h t rfl
    rcases p with ⟨outer, draft⟩ | ⟨_ | ⟨around, outer⟩, draft⟩ <;> cases t <;>
      simp [step] at hstep <;> simp [read, readItem, readRest, finish, answer, depth]

theorem answer_eq_ok_iff {next : Option Token} {e : Expression} : p.answer left next = .ok e ↔
    ∃ draft, p = behind [] draft ∧ next = none ∧ draft.sum = e := by
  rcases p with ⟨outer, draft⟩ | ⟨_ | ⟨around, outer⟩, draft⟩ <;> cases next <;> simp [answer]

theorem count_step (h : p.step t = some q) :
    q.depth + [t].count .rightParen = p.depth + [t].count .leftParen := by
  unfold step at h
  split at h <;> cases h
  all_goals simp [depth]

/-! ## Runs -/

theorem run_cons (p : Place) (t : Token) (ts : List Token) :
    p.run (t :: ts) = (p.step t).bind (·.run ts) := rfl

theorem run_append (p : Place) (ts us : List Token) :
    p.run (ts ++ us) = (p.run ts).bind (·.run us) := by
  rw [run, List.foldlM_append]
  rfl

theorem read_append (h : p.run ts = some q) (left : Nat) (rest : List Token) :
    p.read left (ts ++ rest) = q.read left rest := by
  induction ts generalizing p with
  | nil =>
    obtain rfl := Option.some.inj h
    rfl
  | cons t ts ih =>
    rw [run_cons, Option.bind_eq_some_iff] at h
    obtain ⟨next, hstep, hrun⟩ := h
    rw [List.cons_append, read_cons hstep, ih hrun]

/-- **A run goes as far as tokens fit.** -/
theorem exists_run (p : Place) (ts : List Token) : ∃ passed rest q, ts = passed ++ rest ∧
    p.run passed = some q ∧ ∀ t ∈ rest.head?, q.step t = none := by
  induction ts generalizing p with
  | nil => exact ⟨[], [], p, rfl, rfl, by simp⟩
  | cons t ts ih =>
    cases hstep : p.step t with
    | none => exact ⟨[], t :: ts, p, rfl, rfl, by simpa using hstep⟩
    | some next =>
      obtain ⟨passed, rest, q, rfl, hrun, hstuck⟩ := ih next
      exact ⟨t :: passed, rest, q, rfl, by rw [run_cons, hstep]; exact hrun, hstuck⟩

theorem count_run (h : p.run ts = some q) :
    q.depth + ts.count .rightParen = p.depth + ts.count .leftParen := by
  induction ts generalizing p with
  | nil =>
    obtain rfl := Option.some.inj h
    rfl
  | cons t ts ih =>
    rw [run_cons, Option.bind_eq_some_iff] at h
    obtain ⟨next, hstep, hrun⟩ := h
    have hone := count_step hstep
    have hmore := ih hrun
    rw [← List.singleton_append, List.count_append, List.count_append]
    omega

theorem depth_of_run (h : start.run ts = some p) :
    p.depth + ts.count .rightParen = ts.count .leftParen := by
  rw [count_run h, start, depth, List.length_nil, Nat.zero_add]

/-! ## Closing -/

/-- The tokens that complete the expression: the item that is due, and the end of every open group. -/
def closing : Place → List Token
  | due outer _ => .name "x" :: List.replicate outer.length .rightParen
  | behind outer _ => List.replicate outer.length .rightParen

theorem run_rightParens (outer : List Draft) (draft : Draft) : ∃ done,
    (behind outer draft).run (List.replicate outer.length .rightParen) = some (behind [] done) := by
  induction outer generalizing draft with
  | nil => exact ⟨draft, rfl⟩
  | cons around outer ih => exact ih (around.addItem (.paren draft.sum))

/-- **From every place on the expression can be completed.** -/
theorem exists_closing (p : Place) : ∃ done, p.run p.closing = some (behind [] done) := by
  cases p with
  | due outer draft => exact run_rightParens outer (draft.addItem (.single "x"))
  | behind outer draft => exact run_rightParens outer draft

end Place

end Expression

/-! ## Where a reading stops -/

open Expression

variable {passed rest : List Token} {p : Place}

/-- A reading passes the tokens that fit and stops in front of one that does not, with the groups counted that
are open there. Only where there is nothing to read it says so. -/
theorem Reader.read_append (hrun : Place.start.run passed = some p)
    (hstuck : ∀ t ∈ rest.head?, p.step t = none) (depth : Nat) :
    Reader.read { rest := passed ++ rest, depth } =
      (if passed ++ rest = [] then .error .empty else p.answer depth rest.head?,
        { rest, depth := depth + p.depth }) := by
  have hread : readItem depth [] {} (passed ++ rest) =
      (p.answer depth rest.head?, { rest, depth := depth + p.depth }) := by
    rw [← Place.read_eq_answer hstuck, ← Place.read_append hrun]
    rfl
  rw [read]
  split
  · next hnil =>
    obtain ⟨rfl, rfl⟩ := List.append_eq_nil_iff.mp hnil
    obtain rfl := Option.some.inj hrun
    rfl
  · next t ts hcons =>
    have hne : passed ++ rest ≠ [] := ne_of_eq_of_ne hcons (List.cons_ne_nil t ts)
    rw [hread, if_neg hne]

/-- **Every reading stops somewhere.** -/
theorem Reader.exists_stop (ts : List Token) : ∃ passed rest p, ts = passed ++ rest ∧
    Place.start.run passed = some p ∧ (∀ t ∈ rest.head?, p.step t = none) ∧
    ∀ depth, Reader.read { rest := ts, depth } =
      (if ts = [] then .error .empty else p.answer depth rest.head?,
        { rest, depth := depth + p.depth }) := by
  obtain ⟨passed, rest, p, rfl, hrun, hstuck⟩ := Place.start.exists_run ts
  exact ⟨passed, rest, p, rfl, hrun, hstuck, Reader.read_append hrun hstuck⟩

end SurveyTables
