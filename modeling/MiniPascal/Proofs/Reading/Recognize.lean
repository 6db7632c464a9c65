import MiniPascal.Proofs.Grammar.Language
import MiniPascal.Proofs.Reading.Complete
import MiniPascal.Proofs.Reading.Sound

/-!
# Proofs — Reading — Recognize

What a reader pulls, and where it stops.  `Recognizes m L` says of a reader, on whatever stream its
cursor stands, that a value is yielded for a word of `L`; that a fault is told where a beginning of
a word of `L` ends, or is the lexical fault behind one (`Halts`); and that either depends on the
results that were pulled alone (`DrawsAt`).  The rules of the grammar are inequalities between
languages, so every reader recognizes its phrase because its steps, in a row or in a loop, recognize
the parts of a rule.  Main statement (`wholeProgram_recognizes`): so does the reader of programs.
-/

namespace MiniPascal

open scoped Computability

/-- The cursor with other results ahead of it. -/
def Cursor.facing (c : Cursor) (rs : List Pulled) : Cursor := ⟨c.current, rs, c.previous⟩

namespace Reader

variable {α β γ : Type} {c d : Cursor} {L M : Language Token}

/-! ### What is pulled -/

/-- The results that are left. -/
def left : Outcome α → List Pulled
  | .ok _ d    => d.rest
  | .error _ d => d.rest

/-- The outcome with other results left. -/
def leaving (rs : List Pulled) : Outcome α → Outcome α
  | .ok a d    => .ok a (d.facing rs)
  | .error f d => .error f (d.facing rs)

/-- The outcome is decided by results that are pulled, whatever follows them. -/
def DrawsAt (c : Cursor) (m : Reader α) : Prop :=
  ∃ pulled, c.rest = pulled ++ left (m c) ∧
    ∀ more, m (c.facing (pulled ++ more)) = leaving more (m c)

namespace DrawsAt

variable {m : Reader α} {k : α → Reader β}

/-- What pulls nothing comes to the same whatever is ahead. -/
theorem of_eq (h : ∀ rs, m (c.facing rs) = leaving rs (m c)) (hleft : left (m c) = c.rest) :
    DrawsAt c m :=
  ⟨[], hleft.symm, h⟩

/-- Where reading succeeds, it does so whatever stands behind the results pulled. -/
theorem of_ok {a : α} (h : DrawsAt c m) (hm : m c = .ok a d) :
    ∃ pulled, c.rest = pulled ++ d.rest ∧
      ∀ more, m (c.facing (pulled ++ more)) = .ok a (d.facing more) := by
  obtain ⟨pulled, hrest, hdraws⟩ := h
  rw [hm] at hrest hdraws
  exact ⟨pulled, hrest, hdraws⟩

/-- Where reading fails, it does so whatever stands behind the results pulled. -/
theorem of_error {f : Located ReadingFault} (h : DrawsAt c m) (hm : m c = .error f d) :
    ∃ pulled, c.rest = pulled ++ d.rest ∧
      ∀ more, m (c.facing (pulled ++ more)) = .error f (d.facing more) := by
  obtain ⟨pulled, hrest, hdraws⟩ := h
  rw [hm] at hrest hdraws
  exact ⟨pulled, hrest, hdraws⟩

/-- What the second part pulls stands behind what the first one does. -/
theorem bind (h : DrawsAt c m) (hk : ∀ a d, m c = .ok a d → DrawsAt d (k a)) :
    DrawsAt c (m >>= k) := by
  cases hm : m c with
  | error f d =>
      obtain ⟨pulled, hrest, hdraws⟩ := h.of_error hm
      refine ⟨pulled, by rwa [bind_of_error hm], fun more => ?_⟩
      rw [bind_of_error hm, bind_of_error (hdraws more)]
      rfl
  | ok a d =>
      obtain ⟨first, hfirst, hdraws⟩ := h.of_ok hm
      obtain ⟨second, hsecond, hmore⟩ := hk a d hm
      refine ⟨first ++ second, ?_, fun more => ?_⟩
      · rw [bind_of_ok hm, List.append_assoc, ← hsecond, hfirst]
      · rw [bind_of_ok hm, List.append_assoc, bind_of_ok (hdraws (second ++ more))]
        exact hmore more

end DrawsAt

/-! ### Where it stops -/

/-- A fault and the cursor it leaves, after tokens that begin a word: the fault stands at the token
looked at, or it is the lexical one that is pulled while that token, which is consumed, goes on with
the word. -/
inductive Halts (L : Language Token) (c : Cursor) : Located ReadingFault → Cursor → Prop where
  | here {w : List Token} {e : Cursor} {cause : GrammarFault} (hw : c.Path w e) (hL : Begins L w)
      (hcause : cause = .tooDeep ∨ ∃ what, cause = .expected what e.current) :
      Halts L c ⟨.grammar cause, ⟨e.current.span.offset, max e.current.span.len 1⟩⟩ e
  | lexical {w : List Token} {e : Cursor} {fault : Located LexicalFault} {rest : List Pulled}
      (hw : c.Path w e) (hrest : e.rest = .error fault :: rest) (hL : Begins L (w ++ [e.current])) :
      Halts L c (fault.map .lexical) (e.facing rest)

namespace Halts

variable {f : Located ReadingFault} {e : Cursor}

/-- A fault in a word of one language is one in a word of another, if what begins words of the one
does so of the other. -/
theorem imp (h : Halts L c f e) (hLM : ∀ w, Begins L w → Begins M w) : Halts M c f e := by
  cases h with
  | here hw hL hcause => exact .here hw (hLM _ hL) hcause
  | lexical hw hrest hL => exact .lexical hw hrest (hLM _ hL)

/-- A word of the first part lies before. -/
theorem after {w : List Token} (hw : c.Path w d) (hL : w ∈ L) (h : Halts M d f e) :
    Halts (L * M) c f e := by
  cases h with
  | here hv hM hcause => exact .here (hw.trans hv) (hM.mul_left hL) hcause
  | lexical hv hrest hM =>
      refine .lexical (hw.trans hv) hrest ?_
      rw [List.append_assoc]
      exact hM.mul_left hL

end Halts

/-! ### Recognizing -/

/-- At `c`, the reader yields for a word of the language, or halts in one, and draws. -/
structure RecognizesAt (c : Cursor) (m : Reader α) (L : Language Token) : Prop where
  reads : ∀ {a d}, m c = .ok a d → ∃ w ∈ L, c.Path w d
  halts : ∀ {f d}, m c = .error f d → Halts L c f d
  draws : DrawsAt c m

/-- Anywhere on a stream, the reader recognizes the language. -/
def Recognizes (m : Reader α) (L : Language Token) : Prop := ∀ c, c.OnStream → RecognizesAt c m L

namespace RecognizesAt

variable {m : Reader α} {k : α → Reader β}

theorem mono (h : L ≤ M) (hm : RecognizesAt c m L) : RecognizesAt c m M where
  reads ha := by
    obtain ⟨w, hw, hpath⟩ := hm.reads ha
    exact ⟨w, h hw, hpath⟩
  halts hf := (hm.halts hf).imp fun _ hw => hw.mono h
  draws := hm.draws

/-- Two steps recognize the words of the first with those of the second behind them. -/
theorem bind [HasWord M] (hm : RecognizesAt c m L)
    (hk : ∀ a d, m c = .ok a d → d.OnStream → RecognizesAt d (k a) M) :
    RecognizesAt c (m >>= k) (L * M) where
  reads h := by
    obtain ⟨a, e, hma, hka⟩ := bind_eq_ok.1 h
    obtain ⟨u, hu, hpath⟩ := hm.reads hma
    obtain ⟨v, hv, hpath'⟩ := (hk a e hma hpath.onStream).reads hka
    exact ⟨u ++ v, Language.append_mem_mul hu hv, hpath.trans hpath'⟩
  halts h := by
    rcases bind_eq_error.1 h with hmf | ⟨a, e, hma, hkf⟩
    · exact (hm.halts hmf).imp fun _ hw => hw.mul_right
    · obtain ⟨u, hu, hpath⟩ := hm.reads hma
      exact ((hk a e hma hpath.onStream).halts hkf).after hpath hu
  draws := hm.draws.bind fun a d hma => by
    obtain ⟨u, -, hpath⟩ := hm.reads hma
    exact (hk a d hma hpath.onStream).draws

/-- Parts in a row. -/
theorem andThen [HasWord M] (hm : RecognizesAt c m L) (hk : ∀ a, Recognizes (k a) M) :
    RecognizesAt c (m >>= k) (L * M) :=
  .bind hm fun a d _ hd => hk a d hd

/-- A last part that consumes nothing. -/
theorem ending (hm : RecognizesAt c m L) (hk : ∀ a, Recognizes (k a) 1) :
    RecognizesAt c (m >>= k) L :=
  .mono (mul_one L).le (.andThen hm hk)

/-- A reader that looks at a token recognizes what it goes on with. -/
theorem peek {k : Token → Reader α} (h : RecognizesAt c (k c.current) L) :
    RecognizesAt c (Reader.peek >>= k) L :=
  ⟨h.reads, h.halts, h.draws⟩

end RecognizesAt

/-! ### Steps -/

/-- What consumes nothing and yields what does not depend on the results ahead. -/
theorem recognizes_one {m : Reader α} {value : Cursor → α} (h : ∀ c, m c = .ok (value c) c)
    (hvalue : ∀ c rs, value (c.facing rs) = value c) : Recognizes m 1 := by
  refine fun c hc => ⟨fun hm => ?_, fun hm => ?_, .of_eq (fun rs => ?_) (by rw [h]; rfl)⟩
  · rw [h] at hm
    cases hm
    exact ⟨[], Language.nil_mem_one, .here hc⟩
  · rw [h] at hm
    cases hm
  · rw [h, h, hvalue]
    rfl

theorem pure_recognizes (a : α) : Recognizes (pure a) 1 :=
  recognizes_one (fun _ => rfl) fun _ _ => rfl

theorem spanFrom_recognizes (start : Span) : Recognizes (spanFrom start) 1 :=
  recognizes_one (fun _ => spanFrom_eq start) fun _ _ => rfl

theorem failHere_recognizes [HasWord L] {cause : GrammarFault} (hc : c.OnStream)
    (hcause : cause = .tooDeep ∨ ∃ what, cause = .expected what c.current) :
    RecognizesAt c (failHere cause : Reader α) L :=
  ⟨nofun, fun h => by cases h; exact .here (.here hc) begins_nil hcause,
    .of_eq (fun _ => rfl) rfl⟩

/-- Where something is missing, the fault stands behind the empty beginning of a word. -/
theorem failExpected_recognizes [HasWord L] (what : Expected) :
    Recognizes (failExpected what : Reader α) L :=
  fun _ hc => .peek (failHere_recognizes hc (.inr ⟨what, rfl⟩))

/-- The token looked at is consumed, unless it is the end. -/
theorem take_recognizes {p : Token.Kind → Prop} (hc : c.OnStream) (hp : p c.current.kind)
    (heof : ¬ p .eof) : RecognizesAt c take (oneOf p) := by
  have hk : c.current.kind ≠ .eof := fun hk => heof (hk ▸ hp)
  have hmem : [c.current] ∈ oneOf p := ⟨_, rfl, hp⟩
  obtain ⟨t, rest, previous⟩ := c
  refine ⟨fun h => ?_, fun h => ?_, ?_⟩
  · obtain ⟨rfl, hpath⟩ := path_of_take hc h hk
    exact ⟨_, hmem, hpath⟩
  · match rest, h with
    | .error fault :: rest, h =>
        cases h
        exact .lexical (.here hc) rfl (begins_of_mem hmem)
  · match rest, hc with
    | .ok u :: rest,        _  => exact ⟨[.ok u], rfl, fun _ => rfl⟩
    | .error fault :: rest, _  => exact ⟨[.error fault], rfl, fun _ => rfl⟩
    | [],                   hc =>
        -- Only the end has nothing behind it.
        cases hc with
        | finish => exact absurd rfl hk
        | token _ h => cases h

/-- A token that is required is recognized as the one word there is. -/
theorem require_recognizes (kind : Token.Kind) (what : Expected) (heof : .eof ≠ kind) :
    Recognizes (require kind what) (just kind) := by
  intro c hc
  refine .peek ?_
  split
  · next hk => exact take_recognizes hc hk heof
  · exact failExpected_recognizes what c hc

/-- Going a level further down recognizes the same; that it is too deep there is a fault of its own.
-/
theorem deeper_recognizes [HasWord L] {inner : Option (Reader α)}
    (h : ∀ m ∈ inner, Recognizes m L) : Recognizes (deeper inner) L := by
  cases inner with
  | none => exact fun c hc => failHere_recognizes hc (.inl rfl)
  | some m => exact h m rfl

/-! ### Loops -/

section Loops

variable {test : Token.Kind → Option γ} {step : γ → β → Reader β}

/-- A loop recognizes as many words as it takes steps. -/
theorem iterate_recognizes (hstep : ∀ x b c, c.OnStream → test c.current.kind = some x →
      RecognizesAt c (step x b) L) (rounds : Nat) :
    ∀ b, Recognizes (iterate test step rounds b) L∗ := by
  induction rounds with
  | zero => exact fun b c hc => .mono one_le_kstar (pure_recognizes b c hc)
  | succ rounds ih =>
      intro b c hc
      refine .peek ?_
      split
      · next x hx => exact .mono mul_kstar_le_kstar (.andThen (hstep x b c hc hx) ih)
      · exact .mono one_le_kstar (pure_recognizes b c hc)

/-- Rounds that suffice for the results ahead suffice whatever follows those that are pulled, since
every step consumes a token. -/
theorem iterate_draws (hstep : ∀ x b c, c.OnStream → test c.current.kind = some x →
      RecognizesAt c (step x b) L) (hL : [] ∉ L) (rounds : Nat) :
    ∀ b c, c.OnStream → c.rest.length < rounds → ∃ pulled,
      c.rest = pulled ++ left (iterate test step rounds b c) ∧
        ∀ more rounds', (pulled ++ more).length < rounds' →
          iterate test step rounds' b (c.facing (pulled ++ more)) =
            leaving more (iterate test step rounds b c) := by
  induction rounds with
  | zero => exact fun _ _ _ h => absurd h (Nat.not_lt_zero _)
  | succ rounds ih =>
      intro b c hc hrounds
      cases htest : test c.current.kind with
      | none =>
          rw [iterate_of_none htest]
          exact ⟨[], rfl, fun more rounds' _ => iterate_of_none (c := c.facing more) htest rounds'⟩
      | some x =>
          have hone := hstep x b c hc htest
          have hround : ∀ rs rounds, iterate test step (rounds + 1) b (c.facing rs) =
              (step x b >>= iterate test step rounds) (c.facing rs) :=
            fun rs rounds => iterate_of_some (c := c.facing rs) htest rounds
          rw [iterate_of_some htest]
          cases hm : step x b c with
          | error f d =>
              obtain ⟨pulled, hrest, hdraws⟩ := hone.draws.of_error hm
              rw [bind_of_error hm]
              refine ⟨pulled, hrest, fun more rounds' hrounds' => ?_⟩
              obtain ⟨fewer, rfl⟩ := Nat.exists_eq_add_one.2 (Nat.zero_lt_of_lt hrounds')
              rw [hround, bind_of_error (hdraws more)]
              rfl
          | ok b' d =>
              obtain ⟨first, hfirst, hdraws⟩ := hone.draws.of_ok hm
              -- The step has pulled a result for each token of its word, which is not empty.
              obtain ⟨w, hw, hpath⟩ := hone.reads hm
              have hne : 0 < w.length := List.length_pos_iff.2 fun h => hL (h ▸ hw)
              have hconsumed := hpath.length_rest
              have hpulled := congrArg List.length hfirst
              rw [List.length_append] at hpulled
              obtain ⟨second, hsecond, hmore⟩ := ih b' d hpath.onStream (by omega)
              rw [bind_of_ok hm]
              refine ⟨first ++ second, ?_, fun more rounds' hrounds' => ?_⟩
              · rw [List.append_assoc, ← hsecond, hfirst]
              · obtain ⟨fewer, rfl⟩ := Nat.exists_eq_add_one.2 (Nat.zero_lt_of_lt hrounds')
                rw [List.append_assoc, List.length_append] at hrounds'
                rw [hround, List.append_assoc, bind_of_ok (hdraws (second ++ more))]
                exact hmore more fewer (by omega)

/-- A loop recognizes any number of words of its step, one behind another. -/
theorem whileAt_recognizes (hstep : ∀ x b c, c.OnStream → test c.current.kind = some x →
      RecognizesAt c (step x b) L) (hL : [] ∉ L) (b : β) :
    Recognizes (whileAt test step b) L∗ := by
  intro c hc
  have hloop := iterate_recognizes hstep (c.rest.length + 1) b c hc
  obtain ⟨pulled, hpulled, hdraws⟩ :=
    iterate_draws hstep hL (c.rest.length + 1) b c hc (Nat.lt_succ_self _)
  exact ⟨hloop.reads, hloop.halts, pulled, hpulled, fun more =>
    hdraws more ((pulled ++ more).length + 1) (Nat.lt_succ_self _)⟩

end Loops

/-! ### Expressions -/

theorem heightAbove_recognizes (child : Nat) : Recognizes (heightAbove child) 1 := by
  unfold heightAbove
  split
  · exact pure_recognizes _
  · exact fun c hc => failHere_recognizes hc (.inl rfl)

/-- A chain has a kind of operator, and the end is none. -/
theorem chain_recognizes {op? : Token.Kind → Option Operator} (kind : Token.Kind) {op : Operator}
    (hop : op? kind = some op) (hend : op? .eof = none)
    {Operand : List Token → Expression → Nat → Prop} [HasWord (phrase Operand)]
    {operand : Reader Measured} (h : Recognizes operand (phrase Operand)) :
    Recognizes (chain op? operand) (phrase (Chained op? Operand)) := by
  have := hasWord_oneOf (p := fun k => ∃ op, op? k = some op) kind ⟨op, hop⟩
  have hstep : ∀ op l c, c.OnStream → op? c.current.kind = some op →
      RecognizesAt c (chainStep operand op l)
        (oneOf (fun k => ∃ op, op? k = some op) * phrase Operand) := by
    intro op l c hc htest
    refine .andThen (take_recognizes hc ⟨op, htest⟩ (by simp [hend])) fun _ d hd => ?_
    refine .ending (h d hd) fun r d hd => .ending (heightAbove_recognizes _ d hd) fun n => ?_
    exact pure_recognizes _
  intro c hc
  exact .mono (mul_kstar_le chained_one chained_more)
    (.andThen (h c hc) (iterate_recognizes hstep nestingLimit))

theorem sumOf_recognizes {factor : Reader Measured} (h : Recognizes factor (phrase IsFactor)) :
    Recognizes (sumOf factor) (phrase IsExpression) :=
  chain_recognizes .plus rfl rfl (chain_recognizes .star rfl rfl h)

section Factors

variable {inner : Option (Reader Measured)}

theorem signed_recognizes {op : Sign} (h : ∀ m ∈ inner, Recognizes m (phrase IsFactor))
    (hc : c.OnStream) (hop : Sign.ofKind? c.current.kind = some op) :
    RecognizesAt c (signed op inner) (phrase IsFactor) := by
  have hend : ¬ ∃ op, Sign.ofKind? .eof = some op := by rintro ⟨_, ⟨⟩⟩
  refine .mono factor_signed
    (.andThen (take_recognizes hc ⟨op, hop⟩ hend) fun t d hd => ?_)
  refine .ending (deeper_recognizes h d hd) fun e d hd => ?_
  exact .ending (heightAbove_recognizes _ d hd) fun n => pure_recognizes _

/-- A literal of the text is in range. -/
theorem literal_recognizes (hc : c.OnStream)
    (hk : c.current.kind = .integerConst ∨ c.current.kind = .realConst) :
    RecognizesAt c literal (phrase IsFactor) := by
  have hne : c.current.kind ≠ .eof := by rcases hk with hk | hk <;> rw [hk] <;> decide
  refine .mono ((mul_one _).le.trans factor_literal)
    (.bind (take_recognizes hc hk (by decide)) fun t d htake hd => ?_)
  obtain ⟨rfl, hpath⟩ := path_of_take hc htake hne
  obtain ⟨value, hvalue⟩ := Option.isSome_iff_exists.1 ((hpath.wellSpelled _ (.head _)).2 hk)
  rw [hvalue]
  exact pure_recognizes _ d hd

theorem parenthesized_recognizes (h : ∀ m ∈ inner, Recognizes m (phrase IsFactor))
    (hc : c.OnStream) (hk : c.current.kind = .leftParen) :
    RecognizesAt c (parenthesized inner) (phrase IsFactor) := by
  have hsum : ∀ m ∈ inner.map sumOf, Recognizes m (phrase IsExpression) := by
    intro m hm
    obtain ⟨factor, hfactor, rfl⟩ := Option.map_eq_some_iff.1 hm
    exact sumOf_recognizes (h factor hfactor)
  refine .mono factor_parenthesized (.andThen (take_recognizes hc hk (by decide)) fun _ d hd => ?_)
  refine .andThen (deeper_recognizes hsum d hd) fun e d hd => ?_
  exact .ending (require_recognizes .rightParen _ (by decide) d hd) fun _ => pure_recognizes e

theorem variableName_recognizes (hc : c.OnStream) (hk : c.current.kind = .identifier) :
    RecognizesAt c variableName (phrase IsFactor) :=
  .mono factor_named (.ending (take_recognizes hc hk (by decide)) fun _ => pure_recognizes _)

/-- Every token that begins a factor has a branch of its own. -/
theorem factorWith_recognizes (h : ∀ m ∈ inner, Recognizes m (phrase IsFactor)) :
    Recognizes (factorWith inner) (phrase IsFactor) := by
  intro c hc
  refine .peek ?_
  split
  · next hk => exact signed_recognizes h hc (by rw [hk]; rfl)
  · next hk => exact signed_recognizes h hc (by rw [hk]; rfl)
  · next hk => exact literal_recognizes hc (.inl hk)
  · next hk => exact literal_recognizes hc (.inr hk)
  · next hk => exact parenthesized_recognizes h hc hk
  · next hk => exact variableName_recognizes hc hk
  · exact failExpected_recognizes _ c hc

end Factors

theorem factor_recognizes (levels : Nat) : Recognizes (factor levels) (phrase IsFactor) := by
  induction levels with
  | zero => exact factorWith_recognizes fun _ hm => nomatch hm
  | succ levels ih => exact factorWith_recognizes fun _ hm => Option.some.inj hm ▸ ih

theorem expression_recognizes (levels : Nat) :
    Recognizes (expression levels) (phrase IsExpression) :=
  sumOf_recognizes (factor_recognizes levels)

/-! ### Lists -/

section Lists

variable {One : List Token → α → Nat → Prop} {one : Reader α}

/-- A row with separators is recognized, if its things are. -/
theorem separated_recognizes [HasWord (phrase One)] (separator : Token.Kind)
    (hsep : .eof ≠ separator) (h : Recognizes one (phrase One)) :
    Recognizes (separated separator one) (phrase (Separated separator One)) := by
  have hstep : ∀ (x : Unit) (done : Array α) (c : Cursor), c.OnStream →
      only separator c.current.kind = some x →
        RecognizesAt c (separatedStep one x done) (just separator * phrase One) := by
    intro x done c hc htest
    refine .andThen (take_recognizes hc (eq_of_only htest) hsep) fun _ d hd => ?_
    exact .ending (h d hd) fun _ => pure_recognizes _
  have hne : [] ∉ just separator * phrase One := by
    rintro ⟨_, ⟨t, rfl, -⟩, _, -, h⟩
    cases h
  intro c hc
  exact .mono (mul_kstar_le separated_one separated_more)
    (.andThen (h c hc) fun first => whileAt_recognizes hstep hne #[first])

theorem repeated_recognizes {kind : Token.Kind} (hne : [] ∉ phrase One)
    (h : ∀ c, c.OnStream → c.current.kind = kind → RecognizesAt c one (phrase One)) :
    Recognizes (repeated kind one) (phrase (Repeated One)) := by
  have hstep : ∀ (x : Unit) (done : Array α) (c : Cursor), c.OnStream →
      only kind c.current.kind = some x → RecognizesAt c (repeatedStep one x done) (phrase One) :=
    fun x done c hc htest => .ending (h c hc (eq_of_only htest)) fun _ => pure_recognizes _
  intro c hc
  exact .mono (kstar_le_of_mul_le_left repeated_none repeated_more)
    (whileAt_recognizes hstep hne #[] c hc)

end Lists

/-! ### Statements -/

theorem name_recognizes (what : Expected) : Recognizes (name what) (just .identifier) :=
  fun c hc => .ending (require_recognizes .identifier _ (by decide) c hc) fun _ => pure_recognizes _

theorem assignment_recognizes {value : Reader Measured}
    (h : Recognizes value (phrase IsExpression)) :
    Recognizes (assignment value) (phrase IsAssignment) := by
  intro c hc
  refine .mono assignment_rule (.andThen (name_recognizes _ c hc) fun _ d hd => ?_)
  refine .andThen (require_recognizes .assign _ (by decide) d hd) fun _ d hd => ?_
  exact .ending (h d hd) fun _ => pure_recognizes _

/-- Statements are recognized where compounds and values are; the empty one needs no token. -/
theorem statement_recognizes {inner : Reader Compound} {value : Reader Measured}
    (hinner : Recognizes inner (phrase IsCompound))
    (hvalue : Recognizes value (phrase IsExpression)) :
    Recognizes (statement inner value) (phrase IsStatement) := by
  intro c hc
  refine .peek ?_
  split
  · exact .mono statement_compound (.ending (hinner c hc) fun _ => pure_recognizes _)
  · exact .mono statement_assignment (assignment_recognizes hvalue c hc)
  · exact .mono statement_empty (pure_recognizes _ c hc)

/-- A row of statements is recognized, though a name behind it is a fault of its own. -/
theorem statements_recognizes {one : Reader Statement} (h : Recognizes one (phrase IsStatement)) :
    Recognizes (statements one) (phrase (Separated .semicolon IsStatement)) := by
  intro c hc
  rw [statements_eq]
  refine .ending (separated_recognizes .semicolon (by decide) h c hc) fun read d hd => .peek ?_
  split
  · exact failExpected_recognizes _ d hd
  · exact pure_recognizes _ d hd

theorem compoundWith_recognizes {inner : Option (Reader (List Statement))}
    (h : ∀ m ∈ inner, Recognizes m (phrase (Separated .semicolon IsStatement))) :
    Recognizes (compoundWith inner) (phrase IsCompound) := by
  intro c hc
  refine .mono compound_rule
    (.andThen (require_recognizes .beginWord _ (by decide) c hc) fun _ d hd => ?_)
  refine .andThen (deeper_recognizes h d hd) fun _ d hd => ?_
  refine .ending (require_recognizes .endWord _ (by decide) d hd) fun _ d hd => ?_
  exact .ending (spanFrom_recognizes _ d hd) fun _ => pure_recognizes _

theorem compound_recognizes (levels : Nat) : Recognizes (compound levels) (phrase IsCompound) := by
  induction levels with
  | zero => exact compoundWith_recognizes fun _ hm => nomatch hm
  | succ levels ih =>
      refine compoundWith_recognizes fun _ hm => Option.some.inj hm ▸ ?_
      exact statements_recognizes (statement_recognizes ih (expression_recognizes levels))

/-! ### Declarations -/

theorem typeName_recognizes : Recognizes typeName typeWord := by
  intro c hc
  refine .peek ?_
  split
  · next hk =>
      have hp : ∃ type, TypeName.ofKind? c.current.kind = some type := ⟨.integer, by rw [hk]; rfl⟩
      exact .ending (take_recognizes hc hp nofun) fun _ => pure_recognizes _
  · next hk =>
      have hp : ∃ type, TypeName.ofKind? c.current.kind = some type := ⟨.real, by rw [hk]; rfl⟩
      exact .ending (take_recognizes hc hp nofun) fun _ => pure_recognizes _
  · exact failExpected_recognizes _ c hc

theorem variableList_recognizes : Recognizes variableList (declaring IsVariableList) := by
  intro c hc
  rw [variableList_eq]
  have hname : Recognizes (name .variableName) (phrase IsName) := fun c hc =>
    .mono name_rule (name_recognizes _ c hc)
  refine .mono variableList_rule
    (.andThen (separated_recognizes .comma (by decide) hname c hc) fun _ d hd => ?_)
  refine .andThen (require_recognizes .colon _ (by decide) d hd) fun _ d hd => ?_
  refine .andThen (typeName_recognizes d hd) fun _ d hd => ?_
  exact .ending (require_recognizes .semicolon _ (by decide) d hd) fun _ => pure_recognizes _

/-- The variables are recognized, none at all included. -/
theorem variablePart_recognizes : Recognizes variablePart (declaring IsVariablePart) := by
  have hstep : ∀ (x : Unit) (done : List Declaration) (c : Cursor), c.OnStream →
      only .identifier c.current.kind = some x →
        RecognizesAt c (listedStep variableList x done) (declaring IsVariableList) :=
    fun x done c hc _ => .ending (variableList_recognizes c hc) fun _ => pure_recognizes _
  have hne : [] ∉ declaring IsVariableList := by
    rintro ⟨ds, h⟩
    obtain ⟨_, _, h, -⟩ := head_of_isVariableList h
    cases h
  intro c hc
  refine .peek ?_
  split
  · next hk =>
      refine .mono variablePart_some (.andThen (take_recognizes hc hk (by decide)) fun _ d hd => ?_)
      exact .mono (mul_kstar_le variableLists_one variableLists_more)
        (.andThen (variableList_recognizes d hd) fun first => whileAt_recognizes hstep hne first)
  · exact .mono variablePart_none (pure_recognizes _ c hc)

theorem procedure_recognizes {inner : Option (Reader Block)}
    (h : ∀ m ∈ inner, Recognizes m (phrase IsBlock)) (hc : c.OnStream)
    (hk : c.current.kind = .procedureWord) :
    RecognizesAt c (procedure inner) (phrase IsProcedure) := by
  refine .mono procedure_rule (.andThen (take_recognizes hc hk (by decide)) fun start d hd => ?_)
  refine .andThen (name_recognizes _ d hd) fun name d hd => ?_
  refine .andThen (require_recognizes .semicolon _ (by decide) d hd) fun _ d hd => ?_
  refine .andThen (deeper_recognizes h d hd) fun block d hd => ?_
  refine .mono (one_mul _).le (.andThen (spanFrom_recognizes _ d hd) fun span d hd => ?_)
  exact .ending (require_recognizes .semicolon _ (by decide) d hd) fun _ => pure_recognizes _

theorem blockWith_recognizes {body : Reader Compound} {inner : Option (Reader Block)}
    (hbody : Recognizes body (phrase IsCompound)) (h : ∀ m ∈ inner, Recognizes m (phrase IsBlock)) :
    Recognizes (blockWith body inner) (phrase IsBlock) := by
  have hne : [] ∉ phrase IsProcedure := by
    rintro ⟨p, depth, h⟩
    obtain ⟨_, _, h, -⟩ := head_of_isProcedure _ _ _ h
    cases h
  intro c hc
  refine .mono block_rule (.andThen (variablePart_recognizes c hc) fun vars d hd => ?_)
  refine .andThen (repeated_recognizes hne (fun _ => procedure_recognizes h) d hd) fun ps d hd => ?_
  exact .ending (hbody d hd) fun _ => pure_recognizes _

theorem block_recognizes (levels : Nat) : Recognizes (block levels) (phrase IsBlock) := by
  induction levels with
  | zero => exact blockWith_recognizes (compound_recognizes 0) fun _ hm => nomatch hm
  | succ levels ih =>
      exact blockWith_recognizes (compound_recognizes _) fun _ hm => Option.some.inj hm ▸ ih

/-! ### Programs -/

theorem program_recognizes : Recognizes program (phrase IsProgram) := by
  intro c hc
  refine .mono program_rule
    (.andThen (require_recognizes .programWord _ (by decide) c hc) fun start d hd => ?_)
  refine .andThen (name_recognizes _ d hd) fun name d hd => ?_
  refine .andThen (require_recognizes .semicolon _ (by decide) d hd) fun _ d hd => ?_
  refine .andThen (block_recognizes _ d hd) fun block d hd => ?_
  refine .ending (require_recognizes .dot _ (by decide) d hd) fun _ d hd => ?_
  exact .ending (spanFrom_recognizes _ d hd) fun _ => pure_recognizes _

/-- **The reader of programs recognizes programs**: it stops at the end of a beginning of one, and
what it comes to depends on what it has pulled by then. -/
theorem wholeProgram_recognizes : Recognizes wholeProgram (phrase IsProgram) := by
  intro c hc
  refine .ending (program_recognizes c hc) fun p d hd => .peek ?_
  split
  · exact pure_recognizes p d hd
  · exact failExpected_recognizes _ d hd

end Reader

end MiniPascal
