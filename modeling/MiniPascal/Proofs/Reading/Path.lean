import MiniPascal.Proofs.Grammar
import MiniPascal.Proofs.Lexing.Scan
import MiniPascal.Proofs.Sequence
import MiniPascal.Reading.Program

/-!
# Proofs — Reading — Path

Which tokens a reader consumes.  `c.Path w d` says that a cursor comes from `c` to `d` by consuming
the tokens `w` in order, all of them lexemes of the text.  Cursors stand on what an input yields
(`OnStream`): lexemes and faults, and the end of the text last and nowhere else.  The single steps
are told by paths in both directions (`take_of_path`, `path_of_take`, and the same for `require`).
-/

namespace MiniPascal

/-- What an input yields up to its end. -/
inductive IsStream : List Pulled → Prop where
  | finish {offset : Nat} : IsStream [.ok (.eof offset)]
  | token {t : Token} {rs : List Pulled} (ht : t.WellSpelled) (h : IsStream rs) :
      IsStream (.ok t :: rs)
  | fault {e : Located LexicalFault} {rs : List Pulled} (h : IsStream rs) :
      IsStream (.error e :: rs)

/-- The results of an input form a stream. -/
theorem Input.isStream_results (i : Input) : IsStream i.results := by
  obtain ⟨t, rest, -, -, hcases⟩ := i.next_cases
  rcases hcases with ⟨-, hnext⟩ | ⟨e, hnext⟩ | ⟨kind, word, hw, hr, -, -, -, hnext⟩
  · rw [results_of_atEnd (by rw [hnext]; rfl), hnext]
    exact .finish
  · have hend : i.next.1.atEnd = false := by rw [hnext]; rfl
    have hshorter := next_shorter hend
    rw [results_of_not_atEnd hend, hnext]
    exact .fault (isStream_results i.next.2)
  · have hend : i.next.1.atEnd = false := by rw [hnext]; exact atEnd_token hw
    have hshorter := next_shorter hend
    rw [results_of_not_atEnd hend, hnext]
    refine .token ?_ (isStream_results i.next.2)
    simp only [Token.WellSpelled, String.toList_ofList]
    exact ⟨hw, hr⟩
termination_by i.chars.length

/-- A lexeme of the text is not its end. -/
theorem Token.WellSpelled.kind_ne_eof {t : Token} (h : t.WellSpelled) : t.kind ≠ .eof := by
  intro hk
  have hspells := h.1
  rw [hk] at hspells
  exact hspells

namespace Cursor

/-- A cursor stands on what an input yields. -/
def OnStream (c : Cursor) : Prop := IsStream (.ok c.current :: c.rest)

/-- From one cursor to another by consuming lexemes. -/
inductive Path : Cursor → List Token → Cursor → Prop where
  | here {c : Cursor} (h : c.OnStream) : Path c [] c
  | step {t u : Token} {rest : List Pulled} {p : Span} {w : List Token} {d : Cursor}
      (ht : t.WellSpelled) (h : Path ⟨u, rest, t.span⟩ w d) : Path ⟨t, .ok u :: rest, p⟩ (t :: w) d

namespace Path

variable {b c d : Cursor} {t : Token} {v w : List Token}

theorem onStream (h : Path c w d) : d.OnStream := by
  induction h with
  | here h => exact h
  | step _ _ ih => exact ih

theorem onStream_start (h : Path c w d) : c.OnStream := by
  induction h with
  | here h => exact h
  | step ht _ ih => exact .token ht ih

/-- The tokens on a path are well spelled. -/
theorem wellSpelled (h : Path c w d) : ∀ t ∈ w, t.WellSpelled := by
  induction h with
  | here _ => exact fun _ h => nomatch h
  | step ht _ ih =>
      rintro u (_ | ⟨_, hu⟩)
      · exact ht
      · exact ih u hu

theorem trans (h : Path b v c) (h' : Path c w d) : Path b (v ++ w) d := by
  induction h with
  | here _ => exact h'
  | step ht _ ih => exact .step ht (ih h')

/-- A path can be halted behind any of its tokens. -/
theorem split (h : Path b (v ++ w) d) : ∃ c, Path b v c ∧ Path c w d := by
  induction v generalizing b with
  | nil => exact ⟨b, .here h.onStream_start, h⟩
  | cons t v ih =>
      cases h with
      | step ht h =>
          obtain ⟨c, hv, hw⟩ := ih h
          exact ⟨c, .step ht hv, hw⟩

/-- The first token of a path is the one looked at. -/
theorem current_eq (h : Path c (t :: w) d) : c.current = t := by
  cases h
  rfl

/-- A path of no tokens leads nowhere. -/
theorem eq_of_nil (h : Path c [] d) : d = c := by
  cases h
  rfl

/-- As many results are left as there were before, less the tokens consumed. -/
theorem length_rest (h : Path c w d) : c.rest.length = d.rest.length + w.length := by
  induction h with
  | here _ => rfl
  | step _ _ ih =>
      simp only [List.length_cons] at ih ⊢
      omega

/-- The token consumed last is the last one of the path. -/
theorem previous_eq (h : Path c (t :: w) d) : d.previous = (w.getLastD t).span := by
  induction w generalizing c t with
  | nil =>
      cases h with
      | step _ h => rw [eq_of_nil h]; rfl
  | cons u w ih =>
      cases h with
      | step _ h => rw [ih h, List.getLastD_cons]

/-- A stretch ends with the token consumed last. -/
theorem stretch_eq (h : Path c (t :: w) d) : stretch (t :: w) = t.span.through d.previous := by
  rw [stretch, h.previous_eq]

/-- A path consumes what the cursor had ahead. -/
theorem ahead_eq (h : Path c w d) :
    (.ok c.current :: c.rest : List Pulled) = w.map .ok ++ .ok d.current :: d.rest := by
  induction h with
  | here _ => rfl
  | step _ _ ih => rw [ih, List.map_cons, List.cons_append]

end Path

end Cursor

namespace Reader

variable {α β : Type} {c d : Cursor} {t : Token}

/-! ### Steps and paths -/

theorem peek_bind (k : Token → Reader α) : (peek >>= k) c = k c.current c := rfl

section Loops

variable {γ : Type} {test : Token.Kind → Option γ} {step : γ → β → Reader β} {b : β}

/-- A loop stops where the test fails. -/
theorem iterate_of_none (h : test c.current.kind = none) (rounds : Nat) :
    iterate test step rounds b c = .ok b c := by
  cases rounds with
  | zero => rfl
  | succ rounds =>
      rw [iterate, peek_bind, h]
      rfl

/-- A loop takes a step where the test holds. -/
theorem iterate_of_some {x : γ} (h : test c.current.kind = some x) (rounds : Nat) :
    iterate test step (rounds + 1) b c = (step x b >>= iterate test step rounds) c := by
  rw [iterate, peek_bind, h]

end Loops

theorem take_of_path (h : c.Path [t] d) : take c = .ok t d := by
  cases h with
  | step _ h =>
      cases h
      rfl

/-- Consuming the token looked at, unless it is the end, is a path of that token. -/
theorem path_of_take (hc : c.OnStream) (h : take c = .ok t d) (hk : c.current.kind ≠ .eof) :
    t = c.current ∧ c.Path [t] d := by
  obtain ⟨u, rest, p⟩ := c
  cases hc with
  | finish => exact absurd rfl hk
  | token hu hrest =>
      match rest, h with
      | .ok v :: rest, h =>
          cases h
          exact ⟨rfl, .step hu (.here hrest)⟩
      | .error e :: _, h => cases h
      | [],            _ => cases hrest

/-- The token on a path is accepted if it is of the kind required. -/
theorem require_of_path {kind : Token.Kind} {what : Expected} (h : c.Path [t] d)
    (ht : t.kind = kind) : require kind what c = .ok t d := by
  refine bind_eq_ok.2 ⟨c.current, c, rfl, ?_⟩
  rw [if_pos (by rw [h.current_eq, ht])]
  exact take_of_path h

/-- A required token is consumed, and is of the kind required. -/
theorem path_of_require {kind : Token.Kind} {what : Expected} (hc : c.OnStream)
    (h : require kind what c = .ok t d) (hk : kind ≠ .eof) : t.kind = kind ∧ c.Path [t] d := by
  obtain ⟨_, _, ⟨⟩, h⟩ := bind_eq_ok.1 h
  split at h
  · next hkind =>
      obtain ⟨rfl, hpath⟩ := path_of_take hc h (hkind ▸ hk)
      exact ⟨hkind, hpath⟩
  · cases h

/-! ### Loops by name -/

/-- A step of a chain: an operator, another operand, and the height above both. -/
def chainStep (operand : Reader Measured) (op : Operator) (left : Measured) : Reader Measured := do
  let _ ← take
  let right ← operand
  return ⟨left.expr.combine op right.expr, ← heightAbove (max left.height right.height)⟩

theorem chain_eq (op? : Token.Kind → Option Operator) (operand : Reader Measured) :
    chain op? operand = operand >>= iterate op? (chainStep operand) nestingLimit := rfl

/-- A step of a list with separators: a separator and one thing more. -/
def separatedStep (one : Reader α) (_ : Unit) (done : Array α) : Reader (Array α) := do
  let _ ← take
  return done.push (← one)

/-- One thing, and as many more as separators follow. -/
def separated (separator : Token.Kind) (one : Reader α) : Reader (Array α) := do
  whileAt (only separator) (separatedStep one) #[← one]

/-- A step of a list without separators: one thing more. -/
def repeatedStep (one : Reader α) (_ : Unit) (done : Array α) : Reader (Array α) := do
  return done.push (← one)

/-- As many things as begin with a token of one kind. -/
def repeated (kind : Token.Kind) (one : Reader α) : Reader (Array α) :=
  whileAt (only kind) (repeatedStep one) #[]

/-- A step of a list of lists: as many things more as the next one holds. -/
def listedStep (some : Reader (List α)) (_ : Unit) (done : List α) : Reader (List α) := do
  return done ++ (← some)

/-- A row of statements is one with separators, behind which no name may stand. -/
theorem statements_eq (one : Reader Statement) :
    statements one = separated .semicolon one >>= fun read => do
      if (← peek).kind = .identifier then failExpected .semicolonBetween
      else return read.toList := by
  rw [separated, bind_assoc]
  rfl

theorem variableList_eq :
    variableList = separated .comma (name .variableName) >>= fun names => do
      let _ ← require .colon .colonAfterNames
      let (type, typeSpan) ← typeName
      let _ ← require .semicolon .semicolonAfterVariables
      return names.toList.map fun (name, span) => .var name type (span.through typeSpan) := by
  rw [separated, bind_assoc]
  rfl

end Reader

end MiniPascal
