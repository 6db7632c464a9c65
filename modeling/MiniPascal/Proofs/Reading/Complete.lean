import MiniPascal.Proofs.Reading.Path

/-!
# Proofs — Reading — Complete

What is in the grammar is read, or a limit is exceeded.  `Settles x y fits` says that `x` is the
result `y` if the limits are kept, and the fault that the nesting is too deep if they are not; there
is no third outcome.  `Finds` says this of a reader for every derivation and every path of its
tokens, provided that the token behind them cannot go on with what was read.  The loops are followed
from the left, one step for each token that the derivation adds at its right end; that the rounds
suffice is a matter of the heights in `chain`, and of the tokens left elsewhere.  Main statement
(`wholeProgram_settles`): the tokens of a derived program are read as that program, if it keeps the
limits.
-/

namespace MiniPascal

namespace Reader

variable {α β γ : Type} {b c d e : Cursor} {levels depth : Nat}

/-- A result of reading. -/
abbrev Outcome (α : Type) := EStateM.Result (Located ReadingFault) Cursor α

/-- The fault that a limit is exceeded. -/
def TooDeep : Outcome α → Prop
  | .ok _ _    => False
  | .error f _ => f.cause = .grammar .tooDeep

/-- The outcome `x` is `y` if the limits are kept, and says that the nesting is too deep if not. -/
def Settles (x y : Outcome α) (fits : Prop) : Prop := (fits → x = y) ∧ (¬ fits → TooDeep x)

/-! ### Combinations of steps -/

theorem spanFrom_eq (start : Span) : spanFrom start c = .ok (start.through c.previous) c := rfl

/-- What follows does not undo that the first part is too deep. -/
theorem tooDeep_bind {m : Reader α} {k : α → Reader β} (h : TooDeep (m c)) :
    TooDeep ((m >>= k) c) := by
  cases hm : m c with
  | ok a d =>
      rw [hm] at h
      exact h.elim
  | error f d =>
      rw [hm] at h
      rwa [bind_of_error hm]

namespace Settles

variable {x y : Outcome α} {z : Outcome β} {P Q : Prop}

theorem of_eq (h : x = y) (hP : P) : Settles x y P := ⟨fun _ => h, fun hn => absurd hP hn⟩

theorem congr (h : Settles x y P) (hPQ : P ↔ Q) : Settles x y Q :=
  ⟨fun hQ => h.1 (hPQ.2 hQ), fun hQ => h.2 fun hP => hQ (hPQ.1 hP)⟩

/-- The limits of both parts are the limits of the whole. -/
theorem bind {m : Reader α} {k : α → Reader β} {a : α} (hm : Settles (m c) (.ok a d) P)
    (hk : Settles (k a d) z Q) : Settles ((m >>= k) c) z (P ∧ Q) := by
  constructor
  · intro h
    rw [bind_of_ok (hm.1 h.1), hk.1 h.2]
  · intro h
    by_cases hP : P
    · rw [bind_of_ok (hm.1 hP)]
      exact hk.2 fun hQ => h ⟨hP, hQ⟩
    · exact tooDeep_bind (hm.2 hP)

/-- A first part that keeps the limits in any case. -/
theorem after {m : Reader α} {k : α → Reader β} {a : α} (hm : m c = .ok a d)
    (hk : Settles (k a d) z P) : Settles ((m >>= k) c) z P := by
  rwa [bind_of_ok hm]

theorem trans {x' : Outcome α} (h : Settles x y P) (h' : Settles y x' Q) :
    Settles x x' (P ∧ Q) := by
  constructor
  · intro hPQ
    rw [h.1 hPQ.1, h'.1 hPQ.2]
  · intro hPQ
    by_cases hP : P
    · rw [h.1 hP]
      exact h'.2 fun hQ => hPQ ⟨hP, hQ⟩
    · exact h.2 hP

/-- The outcome of a part that keeps the limits, which settles in its turn. -/
theorem of_fits {x' : Outcome α} (h : Settles x y P) (hP : P) (h' : Settles y x' Q) :
    Settles x x' Q := by
  rwa [h.1 hP]

/-- A second part that keeps the limits in any case. -/
theorem andThen {m : Reader α} {k : α → Reader β} {a : α} (hm : Settles (m c) (.ok a d) P)
    (hk : k a d = z) : Settles ((m >>= k) c) z P :=
  (bind hm (of_eq hk trivial)).congr (and_iff_left trivial)

end Settles

/-- A reader finds what `G` derives: on a path of derived tokens whose next token satisfies
`follow`, it yields what they derive, in the form that `result` gives it. -/
def Finds (follow : Token.Kind → Prop) (levels : Nat) (values : α → List Expression)
    (result : α → β) (G : List Token → α → Nat → Prop) (m : Reader β) : Prop :=
  ∀ w a depth c d, G w a depth → c.Path w d → follow d.current.kind →
    Settles (m c) (.ok (result a) d) (Fits levels depth (values a))

/-- What is one level further down, if there is such a level, is as `G` says of the levels left. -/
def Inner (levels : Nat) (inner : Option (Reader α)) (G : Nat → Reader α → Prop) : Prop :=
  match levels, inner with
  | 0,     none   => True
  | k + 1, some m => G k m
  | _,     _      => False

/-- One level further down there is one level less, so what fits there fits here with one level
more. -/
theorem deeper_settles {inner : Option (Reader α)} {y : Outcome α} {values : List Expression}
    (h : Inner levels inner fun k m => Settles (m c) y (Fits k depth values)) :
    Settles (deeper inner c) y (Fits levels (depth + 1) values) := by
  match levels, inner, h with
  | 0,     none,   _ => exact ⟨fun h => absurd h Fits.not_zero_succ, fun _ => rfl⟩
  | k + 1, some m, h => exact h.congr Fits.succ_iff.symm

theorem Inner.imp {inner : Option (Reader α)} {G H : Nat → Reader α → Prop}
    (h : Inner levels inner G) (hGH : ∀ k m, G k m → H k m) : Inner levels inner H := by
  match levels, inner, h with
  | 0,     none,   _ => exact trivial
  | k + 1, some m, h => exact hGH k m h

/-- What is built from the reader one level further down is there exactly if that one is. -/
theorem Inner.map {inner : Option (Reader α)} {f : Reader α → Reader β}
    {G : Nat → Reader α → Prop} {H : Nat → Reader β → Prop} (h : Inner levels inner G)
    (hGH : ∀ k m, G k m → H k (f m)) : Inner levels (inner.map f) H := by
  match levels, inner, h with
  | 0,     none,   _ => exact trivial
  | k + 1, some m, h => exact hGH k m h

/-- A loop takes a step that settles. -/
theorem iterate_settles {test : Token.Kind → Option γ} {step : γ → β → Reader β} {x : γ}
    {a a' : β} {P : Prop} (htest : test c.current.kind = some x)
    (hstep : Settles (step x a c) (.ok a' d) P) (rounds : Nat) :
    Settles (iterate test step (rounds + 1) a c) (iterate test step rounds a' d) P := by
  rw [iterate_of_some htest]
  exact .andThen hstep rfl

/-! ### Expressions -/

/-- An expression as it is measured. -/
def measured (e : Expression) : Measured := ⟨e, e.height⟩

/-- An expression may be made higher as long as it is below the limit. -/
theorem heightAbove_settles (child : Nat) :
    Settles (heightAbove child c) (.ok (child + 1) c) (child < nestingLimit) := by
  unfold heightAbove
  split
  · next h => exact .of_eq rfl h
  · next h => exact ⟨fun h' => absurd h' h, fun _ => rfl⟩

section Chains

variable {op? : Token.Kind → Option Operator} {Operand : List Token → Expression → Nat → Prop}
  {operand : Reader Measured} {follow : Token.Kind → Prop}

/-- One more operand: the step of a chain. -/
theorem chainStep_settles
    (hoperand : Finds follow levels (fun e => [e]) measured Operand operand) {t : Token}
    {v : List Token} {op : Operator} {l r : Expression} {dl dr : Nat} (hl : Fits levels dl [l])
    (hr : Operand v r dr) (hpath : c.Path (t :: v) d) (hd : follow d.current.kind) :
    Settles (chainStep operand op (measured l) c) (.ok (measured (l.combine op r)) d)
      (Fits levels (max dl dr) [l.combine op r]) := by
  obtain ⟨c₁, ht, hv⟩ := Cursor.Path.split (v := [t]) hpath
  have hright := hoperand v r dr c₁ d hr hv hd
  have habove := heightAbove_settles (c := d) (max l.height r.height)
  have hstep : Settles (chainStep operand op (measured l) c) (.ok (measured (l.combine op r)) d)
      (Fits levels dr [r] ∧ max l.height r.height < nestingLimit) :=
    .after (take_of_path ht) (.bind hright (.andThen habove rfl))
  refine hstep.congr ?_
  simp only [Fits.singleton_iff, Nat.max_le, Expression.combine, Expression.height] at hl ⊢
  omega

/-- A chain has come to the end of a derivation from its left with rounds left for more. -/
theorem chain_comes
    (hoperand : Finds follow levels (fun e => [e]) measured Operand operand)
    (hfollow : ∀ k op, op? k = some op → follow k) {w : List Token} {e : Expression}
    (h : Chained op? Operand w e depth) :
    ∀ d, c.Path w d → follow d.current.kind → ∃ rounds, nestingLimit < rounds + e.height ∧
      Settles (chain op? operand c) (iterate op? (chainStep operand) rounds (measured e) d)
        (Fits levels depth [e]) := by
  induction h with
  | @one w e depth h =>
      intro d hpath hd
      refine ⟨nestingLimit, Nat.lt_add_of_pos_right e.height_pos, ?_⟩
      rw [chain_eq]
      exact .andThen (hoperand w e depth c d h hpath hd) rfl
  | @more w v t op l r dl dr hl ht hr ih =>
      intro d hpath hd
      obtain ⟨c₁, hw, hv⟩ := hpath.split
      have hk : op? c₁.current.kind = some op := by rw [hv.current_eq, ht]
      obtain ⟨rounds, hrounds, hleft⟩ := ih c₁ hw (hfollow _ _ hk)
      by_cases hfits : Fits levels dl [l]
      · -- Every round adds to the height, so within the limit a round is left for this operand.
        obtain ⟨more, rfl⟩ : ∃ more, rounds = more + 1 := by
          have hlimit := (Fits.singleton_iff.1 hfits).2
          exact ⟨rounds - 1, by omega⟩
        have hstep : Settles (chainStep operand op (measured l) c₁)
            (.ok (measured (l.combine op r)) d) (Fits levels (max dl dr) [l.combine op r]) :=
          chainStep_settles hoperand hfits hr hv hd
        refine ⟨more, ?_, ?_⟩
        · simp only [Expression.combine, Expression.height]
          omega
        · exact hleft.of_fits hfits (iterate_settles hk hstep more)
      · -- The fault has come before this operand: no number of rounds is reached any more.
        refine ⟨nestingLimit, Nat.lt_add_of_pos_right (Expression.height_pos _), ?_⟩
        refine ⟨fun h => absurd ?_ hfits, fun _ => hleft.2 hfits⟩
        simp only [Fits.singleton_iff, Nat.max_le, Expression.combine, Expression.height] at h ⊢
        omega

/-- A chain finds the operands and operators in front of it, as long as each step stays below the
limit. -/
theorem chain_finds (hoperand : Finds follow levels (fun e => [e]) measured Operand operand)
    (hfollow : ∀ k op, op? k = some op → follow k) :
    Finds (fun k => follow k ∧ op? k = none) levels (fun e => [e]) measured
      (Chained op? Operand) (chain op? operand) := by
  intro w e depth c d h hpath hd
  obtain ⟨rounds, -, hsettles⟩ := chain_comes hoperand hfollow h d hpath hd.1
  rwa [iterate_of_none hd.2] at hsettles

end Chains

theorem eq_of_signOfKind? {k : Token.Kind} {op : Sign} (h : Sign.ofKind? k = some op) :
    k = .plus ∧ op = .plus ∨ k = .minus ∧ op = .minus := by
  unfold Sign.ofKind? at h
  split at h <;> cases h
  · exact .inl ⟨rfl, rfl⟩
  · exact .inr ⟨rfl, rfl⟩

/-- No operator of sums is one of products. -/
theorem ofProductKind?_of_ofSumKind? (k : Token.Kind) (op : Operator)
    (h : Operator.ofSumKind? k = some op) : Operator.ofProductKind? k = none := by
  cases k <;> first | rfl | cases h

/-- What may stand behind an expression: anything but an operator. -/
def EndsExpression (k : Token.Kind) : Prop :=
  Operator.ofProductKind? k = none ∧ Operator.ofSumKind? k = none

/-- With factors that are found, sums are. -/
theorem sumOf_finds {factor : Reader Measured}
    (h : Finds (fun _ => True) levels (fun e => [e]) measured IsFactor factor) :
    Finds EndsExpression levels (fun e => [e]) measured IsExpression (sumOf factor) := by
  have hterm : Finds (fun k => True ∧ Operator.ofProductKind? k = none) levels (fun e => [e])
      measured IsTerm (chain Operator.ofProductKind? factor) :=
    chain_finds h fun _ _ _ => trivial
  intro w e depth c d he hpath hd
  exact chain_finds hterm (fun k op hk => ⟨trivial, ofProductKind?_of_ofSumKind? k op hk⟩)
    w e depth c d he hpath ⟨⟨trivial, hd.1⟩, hd.2⟩

section Factors

variable {inner : Option (Reader Measured)}

/-- What is one level further down finds factors. -/
abbrev InnerFactors (levels : Nat) (inner : Option (Reader Measured)) : Prop :=
  Inner levels inner fun k m => Finds (fun _ => True) k (fun e => [e]) measured IsFactor m

/-- A sign is read with the factor behind it, one level further down. -/
theorem signed_settles (hinner : InnerFactors levels inner) {t : Token} {w : List Token}
    {op : Sign} {e : Expression} (h : IsFactor w e depth) (hpath : c.Path (t :: w) d) :
    Settles (signed op inner c) (.ok (measured (.unary op e (t.span.through e.span))) d)
      (Fits levels (depth + 1) [.unary op e (t.span.through e.span)]) := by
  obtain ⟨c₁, ht, hw⟩ := Cursor.Path.split (v := [t]) hpath
  have hfactor : Settles (deeper inner c₁) (.ok (measured e) d) (Fits levels (depth + 1) [e]) :=
    deeper_settles (hinner.imp fun k m hm => hm w e depth c₁ d h hw trivial)
  have habove := heightAbove_settles (c := d) e.height
  have hsigned : Settles (signed op inner c)
      (.ok (measured (.unary op e (t.span.through e.span))) d)
      (Fits levels (depth + 1) [e] ∧ e.height < nestingLimit) :=
    .after (take_of_path ht) (.bind hfactor (.andThen habove rfl))
  refine hsigned.congr ?_
  simp only [Fits.singleton_iff, Expression.height]
  omega

/-- A literal of the text is in range. -/
theorem literal_settles {t : Token} (ht : t.kind = .integerConst ∨ t.kind = .realConst)
    (hpath : c.Path [t] d) :
    Settles (literal c) (.ok (measured (.num t.number t.span)) d)
      (Fits levels 0 [.num t.number t.span]) := by
  refine .after (take_of_path hpath) (.of_eq ?_ (Fits.leaf rfl))
  obtain ⟨value, hvalue⟩ := Option.isSome_iff_exists.1 ((hpath.wellSpelled t (.head _)).2 ht)
  rw [Token.number, hvalue]
  rfl

/-- Parentheses are read with the expression inside, one level further down. -/
theorem parenthesized_settles (hinner : InnerFactors levels inner) {l r : Token} {w : List Token}
    {e : Expression} (h : IsExpression w e depth) (hr : r.kind = .rightParen)
    (hpath : c.Path (l :: w ++ [r]) d) :
    Settles (parenthesized inner c) (.ok (measured e) d) (Fits levels (depth + 1) [e]) := by
  obtain ⟨c₂, hlw, hclose⟩ := hpath.split
  obtain ⟨c₁, hl, hw⟩ := Cursor.Path.split (v := [l]) hlw
  have hend : EndsExpression c₂.current.kind := by
    rw [hclose.current_eq, hr]
    exact ⟨rfl, rfl⟩
  have hsum : Settles (deeper (inner.map sumOf) c₁) (.ok (measured e) c₂)
      (Fits levels (depth + 1) [e]) :=
    deeper_settles (hinner.map fun k m hm => sumOf_finds hm w e depth c₁ c₂ h hw hend)
  refine .after (take_of_path hl) (.andThen hsum ?_)
  rw [bind_of_ok (require_of_path hclose hr)]
  rfl

theorem variableName_eq {t : Token} (hpath : c.Path [t] d) :
    variableName c = .ok (measured (.var t.lexeme t.span)) d := by
  rw [variableName, bind_of_ok (take_of_path hpath)]
  rfl

/-- A factor is read by the reader that its first token calls for. -/
theorem factorWith_finds (hinner : InnerFactors levels inner) :
    Finds (fun _ => True) levels (fun e => [e]) measured IsFactor (factorWith inner) := by
  intro w e depth c d h hpath _
  rw [factorWith, peek_bind]
  -- The first token of each rule is of a kind of its own, and the reader branches on it.
  cases h with
  | @signed t w op e depth ht h =>
      rw [hpath.current_eq]
      rcases eq_of_signOfKind? ht with ⟨hk, rfl⟩ | ⟨hk, rfl⟩ <;> rw [hk]
      · exact signed_settles hinner h hpath
      · exact signed_settles hinner h hpath
  | @literal t ht =>
      rw [hpath.current_eq]
      rcases ht with ht | ht <;> rw [ht]
      · exact literal_settles (.inl ht) hpath
      · exact literal_settles (.inr ht) hpath
  | @parenthesized l r w e depth hl h hr =>
      rw [List.cons_append] at hpath
      rw [hpath.current_eq, hl]
      exact parenthesized_settles hinner h hr hpath
  | @named t ht =>
      rw [hpath.current_eq, ht]
      exact .of_eq (variableName_eq hpath) (Fits.leaf rfl)

end Factors

theorem factor_finds (levels : Nat) :
    Finds (fun _ => True) levels (fun e => [e]) measured IsFactor (factor levels) := by
  induction levels with
  | zero => exact factorWith_finds trivial
  | succ levels ih => exact factorWith_finds ih

/-- **Expressions are found** wherever what follows does not go on with them. -/
theorem expression_finds (levels : Nat) :
    Finds EndsExpression levels (fun e => [e]) measured IsExpression (expression levels) :=
  sumOf_finds (factor_finds levels)

/-! ### Lists -/

theorem only_of_eq {kind k : Token.Kind} (h : k = kind) : only kind k = some () := if_pos h

theorem only_of_ne {kind k : Token.Kind} (h : k ≠ kind) : only kind k = none := if_neg h

section Lists

variable {values : α → List Expression} {One : List Token → α → Nat → Prop} {one : Reader α}
  {follow : Token.Kind → Prop}

/-- A list with separators has come to the end of a derivation with rounds left for every token. -/
theorem separated_comes {separator : Token.Kind} (hone : Finds follow levels values id One one)
    (hfollow : follow separator) {w : List Token} {as : List α}
    (h : Separated separator One w as depth) :
    ∀ d, c.Path w d → follow d.current.kind → ∃ rounds, d.rest.length < rounds ∧
      Settles (separated separator one c)
        (iterate (only separator) (separatedStep one) rounds as.toArray d)
        (Fits levels depth (as.flatMap values)) := by
  induction h with
  | @one w a depth h =>
      intro d hpath hd
      refine ⟨d.rest.length + 1, Nat.lt_succ_self _, ?_⟩
      rw [List.flatMap_singleton]
      exact .andThen (hone w a depth c d h hpath hd) rfl
  | @more w v t as a depth depth' hw ht hv ih =>
      intro d hpath hd
      obtain ⟨c₁, hwpath, htv⟩ := hpath.split
      obtain ⟨c₂, htpath, hvpath⟩ := Cursor.Path.split (v := [t]) htv
      have hk : c₁.current.kind = separator := by rw [htv.current_eq, ht]
      obtain ⟨rounds, hrounds, hleft⟩ := ih c₁ hwpath (hk ▸ hfollow)
      -- The rounds are as many as the tokens left, and a round takes at least its separator.
      obtain ⟨more, rfl⟩ : ∃ more, rounds = more + 1 := ⟨rounds - 1, by omega⟩
      have hlength := htv.length_rest
      simp only [List.length_cons] at hlength
      refine ⟨more, by omega, ?_⟩
      have hstep : Settles (separatedStep one () as.toArray c₁) (.ok (as ++ [a]).toArray d)
          (Fits levels depth' (values a)) := by
        rw [← List.push_toArray]
        exact .after (take_of_path htpath) (.andThen (hone v a _ c₂ d hv hvpath hd) rfl)
      refine (hleft.trans (iterate_settles (only_of_eq hk) hstep more)).congr ?_
      rw [List.flatMap_append, List.flatMap_singleton]
      exact Fits.append_iff.symm

/-- A row with separators is found, if each thing is and a separator may follow it. -/
theorem separated_finds {separator : Token.Kind} (hone : Finds follow levels values id One one)
    (hfollow : follow separator) :
    Finds (fun k => follow k ∧ k ≠ separator) levels (List.flatMap values) List.toArray
      (Separated separator One) (separated separator one) := by
  intro w as depth c d h hpath hd
  obtain ⟨rounds, -, hsettles⟩ := separated_comes hone hfollow h d hpath hd.1
  rwa [iterate_of_none (only_of_ne hd.2)] at hsettles

/-- A list without separators has come to the end of a derivation with rounds left for every
token, as each of its things takes one. -/
theorem repeated_comes {kind : Token.Kind}
    (hone : Finds (fun _ => True) levels values id One one)
    (hstart : ∀ w a depth, One w a depth → ∃ t v, w = t :: v ∧ t.kind = kind)
    {w : List Token} {as : List α} (h : Repeated One w as depth) :
    ∀ d, c.Path w d → ∃ rounds, d.rest.length < rounds ∧
      Settles (repeated kind one c) (iterate (only kind) (repeatedStep one) rounds as.toArray d)
        (Fits levels depth (as.flatMap values)) := by
  induction h with
  | none =>
      intro d hpath
      rw [hpath.eq_of_nil]
      refine ⟨c.rest.length + 1, Nat.lt_succ_self _, .of_eq rfl (Fits.nil_iff.2 (Nat.zero_le _))⟩
  | @more w v as a depth depth' hw hv ih =>
      intro d hpath
      obtain ⟨c₁, hwpath, hvpath⟩ := hpath.split
      -- What is listed is not empty, so a round takes at least its first token.
      obtain ⟨t, u, rfl, ht⟩ := hstart v a depth' hv
      obtain ⟨rounds, hrounds, hleft⟩ := ih c₁ hwpath
      obtain ⟨more, rfl⟩ : ∃ more, rounds = more + 1 := ⟨rounds - 1, by omega⟩
      have hk : c₁.current.kind = kind := by rw [hvpath.current_eq, ht]
      have hlength := hvpath.length_rest
      simp only [List.length_cons] at hlength
      refine ⟨more, by omega, ?_⟩
      have hstep : Settles (repeatedStep one () as.toArray c₁) (.ok (as ++ [a]).toArray d)
          (Fits levels depth' (values a)) := by
        rw [← List.push_toArray]
        exact .andThen (hone _ a _ c₁ d hv hvpath trivial) rfl
      refine (hleft.trans (iterate_settles (only_of_eq hk) hstep more)).congr ?_
      rw [List.flatMap_append, List.flatMap_singleton]
      exact Fits.append_iff.symm

/-- A row without separators is found, if each thing is and begins with a kind of its own. -/
theorem repeated_finds {kind : Token.Kind} (hone : Finds (fun _ => True) levels values id One one)
    (hstart : ∀ w a depth, One w a depth → ∃ t v, w = t :: v ∧ t.kind = kind) :
    Finds (· ≠ kind) levels (List.flatMap values) List.toArray (Repeated One)
      (repeated kind one) := by
  intro w as depth c d h hpath hd
  obtain ⟨rounds, -, hsettles⟩ := repeated_comes hone hstart h d hpath
  rwa [iterate_of_none (only_of_ne hd)] at hsettles

end Lists

/-! ### Statements -/

/-- What may stand behind a statement. -/
def EndsStatement (k : Token.Kind) : Prop := k = .semicolon ∨ k = .endWord

theorem EndsStatement.endsExpression {k : Token.Kind} (h : EndsStatement k) :
    EndsExpression k := by
  rcases h with rfl | rfl <;> exact ⟨rfl, rfl⟩

theorem name_of_path {what : Expected} {t : Token} (hpath : c.Path [t] d)
    (ht : t.kind = .identifier) : name what c = .ok (t.lexeme, t.span) d := by
  rw [name, bind_of_ok (require_of_path hpath ht)]
  rfl

theorem name_finds (levels : Nat) (what : Expected) :
    Finds (fun _ => True) levels (fun _ => []) id IsName (name what) := by
  rintro _ _ _ c d ⟨ht⟩ hpath _
  exact .of_eq (name_of_path hpath ht) (Fits.nil_iff.2 (Nat.zero_le levels))

theorem assignment_finds {value : Reader Measured}
    (hvalue : Finds EndsExpression levels (fun e => [e]) measured IsExpression value) :
    Finds EndsExpression levels Statement.values id IsAssignment (assignment value) := by
  intro _ _ _ c d ⟨ht, ha, h⟩ hpath hd
  obtain ⟨c₁, htpath, hrest⟩ := Cursor.Path.split (v := [_]) hpath
  obtain ⟨c₂, hapath, hwpath⟩ := Cursor.Path.split (v := [_]) hrest
  rw [Statement.values]
  refine .after (name_of_path htpath ht) (.after (require_of_path hapath ha) ?_)
  exact .andThen (hvalue _ _ _ c₂ d h hwpath hd) rfl

theorem statement_finds {inner : Reader Compound} {value : Reader Measured}
    (hinner : Finds (fun _ => True) levels Compound.values id IsCompound inner)
    (hvalue : Finds EndsExpression levels (fun e => [e]) measured IsExpression value) :
    Finds EndsStatement levels Statement.values id IsStatement (statement inner value) := by
  intro w s depth c d h hpath hd
  rw [statement, peek_bind]
  cases h with
  | @compound w compound depth h =>
      have hk : c.current.kind = .beginWord := by
        obtain ⟨hb, -, -⟩ := h
        rw [List.cons_append] at hpath
        rw [hpath.current_eq, hb]
      rw [hk, Compound.values_toStatement]
      exact .andThen (hinner w compound depth c d h hpath trivial) rfl
  | assignment h =>
      have hk : c.current.kind = .identifier := by
        obtain ⟨ht, -, -⟩ := h
        rw [hpath.current_eq, ht]
      rw [hk]
      exact assignment_finds hvalue w s depth c d h hpath hd.endsExpression
  | empty =>
      rw [hpath.eq_of_nil] at hd ⊢
      rw [Statement.values]
      refine .of_eq ?_ (Fits.nil_iff.2 (Nat.zero_le levels))
      rcases hd with hk | hk <;> rw [hk] <;> rfl

/-- A row of statements is found in front of the word that ends the compound. -/
theorem statements_finds {one : Reader Statement}
    (hone : Finds EndsStatement levels Statement.values id IsStatement one) :
    Finds (· = .endWord) levels Statement.listValues id (Separated .semicolon IsStatement)
      (statements one) := by
  intro w ss depth c d h hpath hd
  have hlist : Settles (separated .semicolon one c) (.ok ss.toArray d)
      (Fits levels depth (ss.flatMap Statement.values)) :=
    separated_finds hone (.inl rfl) w ss depth c d h hpath ⟨.inr hd, by rw [hd]; exact nofun⟩
  rw [statements_eq, Statement.listValues_eq_flatMap]
  refine .andThen hlist ?_
  rw [peek_bind, hd, List.toList_toArray]
  rfl

/-- A compound is found where its statements are, one level further down. -/
theorem compoundWith_finds {inner : Option (Reader (List Statement))}
    (hinner : Inner levels inner fun k m => Finds (· = .endWord) k Statement.listValues id
      (Separated .semicolon IsStatement) m) :
    Finds (fun _ => True) levels Compound.values id IsCompound (compoundWith inner) := by
  intro _ _ _ c d h hpath _
  obtain @⟨b, e, w, ss, depth, hb, h, he⟩ := h
  obtain ⟨c₂, hbw, hepath⟩ := hpath.split
  obtain ⟨c₁, hbpath, hw⟩ := Cursor.Path.split (v := [b]) hbw
  have hk : c₂.current.kind = .endWord := by rw [hepath.current_eq, he]
  have hstatements : Settles (deeper inner c₁) (.ok ss c₂)
      (Fits levels (depth + 1) (Statement.listValues ss)) :=
    deeper_settles (hinner.imp fun k m hm => hm w ss depth c₁ c₂ h hw hk)
  refine .after (require_of_path hbpath hb) (.andThen hstatements ?_)
  rw [bind_of_ok (require_of_path hepath he), List.cons_append,
    Cursor.Path.stretch_eq (List.cons_append ▸ hpath)]
  rfl

theorem compound_finds (levels : Nat) :
    Finds (fun _ => True) levels Compound.values id IsCompound (compound levels) := by
  induction levels with
  | zero => exact compoundWith_finds trivial
  | succ levels ih =>
      exact compoundWith_finds (statements_finds (statement_finds ih (expression_finds levels)))

/-! ### Declarations -/

theorem typeName_of_path {t : Token} {type : TypeName} (hpath : c.Path [t] d)
    (ht : TypeName.ofKind? t.kind = some type) : typeName c = .ok (type, t.span) d := by
  rw [typeName, peek_bind, hpath.current_eq]
  unfold TypeName.ofKind? at ht
  split at ht
  · next hk =>
      cases ht
      rw [hk]
      dsimp only
      rw [bind_of_ok (take_of_path hpath)]
      rfl
  · next hk =>
      cases ht
      rw [hk]
      dsimp only
      rw [bind_of_ok (take_of_path hpath)]
      rfl
  · cases ht

/-- Names open nothing. -/
theorem depth_of_names {w : List Token} {names : List (String × Span)}
    (h : Separated .comma IsName w names depth) : depth = 0 := by
  induction h with
  | one h => cases h; rfl
  | more _ _ hv ih => cases hv; rw [ih]; rfl

/-- A list of variables is read from any tokens that derive it, and nothing limits it. -/
theorem variableList_of_path {w : List Token} {ds : List Declaration} (h : IsVariableList w ds)
    (hpath : c.Path w d) : variableList c = .ok ds d := by
  obtain @⟨w, colon, t, s, names, type, depth, h, hcolon, ht, hs⟩ := h
  obtain rfl := depth_of_names h
  obtain ⟨c₁, hw, hrest⟩ := hpath.split
  obtain ⟨c₂, hcolonpath, hrest⟩ := Cursor.Path.split (v := [colon]) hrest
  obtain ⟨c₃, htpath, hspath⟩ := Cursor.Path.split (v := [t]) hrest
  have hk : c₁.current.kind ≠ .comma := by
    rw [hcolonpath.current_eq, hcolon]
    exact nofun
  have hnames : separated .comma (name .variableName) c = .ok names.toArray c₁ :=
    (separated_finds (name_finds 0 .variableName) trivial w names 0 c c₁ h hw
      ⟨trivial, hk⟩).1 ⟨Nat.le_refl 0, by simp⟩
  rw [variableList_eq, bind_of_ok hnames, bind_of_ok (require_of_path hcolonpath hcolon),
    bind_of_ok (typeName_of_path htpath ht)]
  dsimp only
  rw [bind_of_ok (require_of_path hspath hs)]
  rfl

/-- A list of variables begins with a name. -/
theorem head_of_isVariableList {w : List Token} {ds : List Declaration}
    (h : IsVariableList w ds) : ∃ t v, w = t :: v ∧ t.kind = .identifier := by
  have hnames : ∀ {w names depth}, Separated .comma IsName w names depth →
      ∃ t v, w = t :: v ∧ t.kind = .identifier := by
    intro w names depth h
    induction h with
    | one h =>
        obtain ⟨ht⟩ := h
        exact ⟨_, _, rfl, ht⟩
    | more _ _ _ ih =>
        obtain ⟨t, v, rfl, ht⟩ := ih
        exact ⟨t, _, rfl, ht⟩
  obtain ⟨h, -, -, -⟩ := h
  obtain ⟨t, v, rfl, ht⟩ := hnames h
  exact ⟨t, _, rfl, ht⟩

/-- The loop over lists of variables has come to the end of a derivation with rounds left. -/
theorem variableLists_come {w : List Token} {ds : List Declaration} (h : IsVariableLists w ds) :
    ∀ d, c.Path w d → ∃ rounds, d.rest.length < rounds ∧
      (variableList >>= whileAt (only .identifier) (listedStep variableList)) c =
        iterate (only .identifier) (listedStep variableList) rounds ds d := by
  induction h with
  | one h =>
      intro d hpath
      refine ⟨d.rest.length + 1, Nat.lt_succ_self _, ?_⟩
      rw [bind_of_ok (variableList_of_path h hpath)]
      rfl
  | @more w v ds es hw hv ih =>
      intro d hpath
      obtain ⟨c₁, hwpath, hvpath⟩ := hpath.split
      obtain ⟨t, u, rfl, ht⟩ := head_of_isVariableList hv
      obtain ⟨rounds, hrounds, hleft⟩ := ih c₁ hwpath
      obtain ⟨more, rfl⟩ : ∃ more, rounds = more + 1 := ⟨rounds - 1, by omega⟩
      have hlength := hvpath.length_rest
      simp only [List.length_cons] at hlength
      have htest : only .identifier c₁.current.kind = some () :=
        only_of_eq (by rw [hvpath.current_eq, ht])
      have hstep : listedStep variableList () ds c₁ = .ok (ds ++ es) d := by
        rw [listedStep, bind_of_ok (variableList_of_path hv hvpath)]
        rfl
      exact ⟨more, by omega, by rw [hleft, iterate_of_some htest, bind_of_ok hstep]⟩

/-- The variables are read up to the first token that begins neither them nor a further list. -/
theorem variablePart_of_path {w : List Token} {ds : List Declaration} (h : IsVariablePart w ds)
    (hpath : c.Path w d) (hvar : d.current.kind ≠ .varWord)
    (hname : d.current.kind ≠ .identifier) : variablePart c = .ok ds d := by
  rw [variablePart, peek_bind]
  cases h with
  | none =>
      rw [hpath.eq_of_nil] at hvar ⊢
      rw [if_neg hvar]
      rfl
  | @some t w ds ht h =>
      obtain ⟨c₁, htpath, hw⟩ := Cursor.Path.split (v := [t]) hpath
      obtain ⟨rounds, -, hloop⟩ := variableLists_come h d hw
      rw [iterate_of_none (only_of_ne hname)] at hloop
      rw [hpath.current_eq, if_pos ht, bind_of_ok (take_of_path htpath)]
      exact hloop

/-- A procedure is found where its block is, one level further down. -/
theorem procedure_finds {inner : Option (Reader Block)}
    (hinner : Inner levels inner fun k m => Finds (fun _ => True) k Block.values id IsBlock m) :
    Finds (fun _ => True) levels Declaration.values id IsProcedure (procedure inner) := by
  intro _ _ _ c d h hpath _
  obtain @⟨t, n, s, e, w, b, depth, ht, hn, hs, h, he⟩ := h
  obtain ⟨c₄, htw, hepath⟩ := hpath.split
  obtain ⟨c₁, htpath, hnw⟩ := Cursor.Path.split (v := [t]) htw
  obtain ⟨c₂, hnpath, hsw⟩ := Cursor.Path.split (v := [n]) hnw
  obtain ⟨c₃, hspath, hw⟩ := Cursor.Path.split (v := [s]) hsw
  have hblock : Settles (deeper inner c₃) (.ok b c₄) (Fits levels (depth + 1) b.values) :=
    deeper_settles (hinner.imp fun k m hm => hm w b depth c₃ c₄ h hw trivial)
  rw [Declaration.values, htw.stretch_eq]
  refine .after (take_of_path htpath) (.after (name_of_path hnpath hn)
    (.after (require_of_path hspath hs) (.andThen hblock ?_)))
  rw [bind_of_ok (spanFrom_eq _), bind_of_ok (require_of_path hepath he)]
  rfl

/-- A procedure begins with its reserved word. -/
theorem head_of_isProcedure (w : List Token) (p : Declaration) (depth : Nat)
    (h : IsProcedure w p depth) : ∃ t v, w = t :: v ∧ t.kind = .procedureWord := by
  obtain ⟨ht, -, -, -, -⟩ := h
  exact ⟨_, _, rfl, ht⟩

/-- A compound begins with its reserved word. -/
theorem head_of_isCompound {w : List Token} {compound : Compound}
    (h : IsCompound w compound depth) : ∃ t v, w = t :: v ∧ t.kind = .beginWord := by
  obtain ⟨hb, -, -⟩ := h
  exact ⟨_, _, rfl, hb⟩

/-- Procedures begin with the reserved word of the first of them, if there is one. -/
theorem head_of_procedures {w : List Token} {ps : List Declaration}
    (h : Repeated IsProcedure w ps depth) :
    w = [] ∨ ∃ t v, w = t :: v ∧ t.kind = .procedureWord := by
  induction h with
  | none => exact .inl rfl
  | more _ hv ih =>
      obtain ⟨t, v, rfl, ht⟩ := head_of_isProcedure _ _ _ hv
      rcases ih with rfl | ⟨u, w, rfl, hu⟩
      · exact .inr ⟨t, v, rfl, ht⟩
      · exact .inr ⟨u, _, rfl, hu⟩

/-- A block is found where its body is, and the blocks of its procedures. -/
theorem blockWith_finds {body : Reader Compound} {inner : Option (Reader Block)}
    (hbody : Finds (fun _ => True) levels Compound.values id IsCompound body)
    (hinner : Inner levels inner fun k m => Finds (fun _ => True) k Block.values id IsBlock m) :
    Finds (fun _ => True) levels Block.values id IsBlock (blockWith body inner) := by
  intro _ _ _ c d h hpath _
  obtain @⟨u, v, w, vars, procedures, compound, dp, dc, hu, hv, hw⟩ := h
  obtain ⟨c₁, hupath, hrest⟩ := hpath.split
  obtain ⟨c₂, hvpath, hwpath⟩ := hrest.split
  have hbegin : c₂.current.kind = .beginWord := by
    obtain ⟨t, v, rfl, ht⟩ := head_of_isCompound hw
    rw [hwpath.current_eq, ht]
  -- Whichever comes behind the variables, it ends their part.
  have hnext : c₁.current.kind = .beginWord ∨ c₁.current.kind = .procedureWord := by
    rcases head_of_procedures hv with rfl | ⟨t, v, rfl, ht⟩
    · exact .inl (hvpath.eq_of_nil ▸ hbegin)
    · exact .inr (by rw [hvpath.current_eq, ht])
  have hvars : variablePart c = .ok vars c₁ := by
    refine variablePart_of_path hu hupath ?_ ?_ <;>
      rcases hnext with hk | hk <;> rw [hk] <;> exact nofun
  have hprocedures : Settles (repeated .procedureWord (procedure inner) c₁)
      (.ok procedures.toArray c₂) (Fits levels dp (procedures.flatMap Declaration.values)) :=
    repeated_finds (procedure_finds hinner) head_of_isProcedure v procedures dp c₁ c₂ hv hvpath
      (by rw [hbegin]; exact nofun)
  have hcompound := hbody w compound dc c₂ d hw hwpath trivial
  rw [hu.values_block]
  refine (Settles.after hvars (.bind hprocedures (.andThen hcompound ?_))).congr
    Fits.append_iff.symm
  rw [List.toList_toArray]
  rfl

theorem block_finds (levels : Nat) :
    Finds (fun _ => True) levels Block.values id IsBlock (block levels) := by
  induction levels with
  | zero => exact blockWith_finds (compound_finds 0) trivial
  | succ levels ih => exact blockWith_finds (compound_finds _) ih

/-! ### Programs -/

theorem program_finds :
    Finds (fun _ => True) nestingLimit Program.values id IsProgram program := by
  intro _ _ depth c d h hpath _
  obtain @⟨t, n, s, e, w, b, _, ht, hn, hs, h, he⟩ := h
  obtain ⟨c₄, htw, hepath⟩ := hpath.split
  obtain ⟨c₁, htpath, hnw⟩ := Cursor.Path.split (v := [t]) htw
  obtain ⟨c₂, hnpath, hsw⟩ := Cursor.Path.split (v := [n]) hnw
  obtain ⟨c₃, hspath, hw⟩ := Cursor.Path.split (v := [s]) hsw
  have hblock := block_finds nestingLimit w b depth c₃ c₄ h hw trivial
  refine .after (require_of_path htpath ht) (.after (name_of_path hnpath hn)
    (.after (require_of_path hspath hs) (.andThen hblock ?_)))
  rw [bind_of_ok (require_of_path hepath he), bind_of_ok (spanFrom_eq _)]
  simp only [List.cons_append] at hpath ⊢
  rw [hpath.stretch_eq]
  rfl

/-- **What the grammar derives is read if it keeps the limits**, and else the nesting is too deep.
-/
theorem wholeProgram_settles {w : List Token} {p : Program} (h : IsProgram w p depth)
    (hpath : c.Path w d) (hd : d.current.kind = .eof) :
    Settles (wholeProgram c) (.ok p d) (Fits nestingLimit depth p.values) := by
  refine .andThen (program_finds w p depth c d h hpath trivial) ?_
  rw [peek_bind, if_pos hd]
  rfl

end Reader

end MiniPascal
