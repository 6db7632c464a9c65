import MiniPascal.Proofs.Reading.Path
import MiniPascal.Proofs.Tree.Values

/-!
# Proofs — Reading — Sound

What is read is in the grammar.  `Reads m G` says that whatever `m` yields, it yields for consumed
tokens `w` with `G w`; for every reader `G` is the rule of the grammar that it is named after,
together with the limits that it keeps.  Loops go by induction on the rounds, with the tokens
consumed so far as the invariant (`iterate_reads`); readers with levels go by induction on the
levels.  Main statement (`wholeProgram_reads`): a program that is read is derived by the tokens
before the end, and keeps both limits.
-/

namespace MiniPascal

namespace Reader

variable {α β γ : Type} {c d : Cursor} {levels : Nat}

/-- What `m` yields at `c`, it yields for consumed tokens as `G` says. -/
def ReadsAt (c : Cursor) (m : Reader α) (G : List Token → α → Prop) : Prop :=
  ∀ a d, m c = .ok a d → ∃ w, c.Path w d ∧ G w a

/-- What `m` yields anywhere on a stream, it yields for consumed tokens as `G` says. -/
def Reads (m : Reader α) (G : List Token → α → Prop) : Prop := ∀ c, c.OnStream → ReadsAt c m G

/-- A reader that looks at a token reads what it goes on with. -/
theorem ReadsAt.peek {k : Token → Reader α} {G : List Token → α → Prop}
    (h : ReadsAt c (k c.current) G) : ReadsAt c (peek >>= k) G := by
  intro a d hm
  obtain ⟨_, _, ⟨⟩, hm⟩ := bind_eq_ok.1 hm
  exact h a d hm

/-! ### Combinations of steps -/

/-- What is read one level further down is read by the reader there. -/
theorem eq_ok_of_deeper {inner : Option (Reader α)} {a : α} (h : deeper inner c = .ok a d) :
    ∃ m ∈ inner, m c = .ok a d := by
  cases inner with
  | none => cases h
  | some m => exact ⟨m, rfl, h⟩

theorem spanFrom_eq_ok {start span : Span} (h : spanFrom start c = .ok span d) :
    d = c ∧ span = start.through c.previous := by
  obtain ⟨_, _, ⟨⟩, ⟨⟩⟩ := bind_eq_ok.1 h
  exact ⟨rfl, rfl⟩

/-- A loop keeps what each of its rounds keeps of the tokens consumed so far. -/
theorem iterate_reads {test : Token.Kind → Option γ} {step : γ → β → Reader β}
    {P : List Token → β → Prop}
    (hstep : ∀ u b x c b' d, P u b → c.OnStream → test c.current.kind = some x →
      step x b c = .ok b' d → ∃ v, c.Path v d ∧ P (u ++ v) b') (rounds : Nat) :
    ∀ u b c b' d, P u b → c.OnStream → iterate test step rounds b c = .ok b' d →
      ∃ v, c.Path v d ∧ P (u ++ v) b' := by
  induction rounds with
  | zero =>
      intro u b c b' d hP hc h
      cases h
      exact ⟨[], .here hc, by rwa [List.append_nil]⟩
  | succ rounds ih =>
      intro u b c b' d hP hc h
      cases htest : test c.current.kind with
      | none =>
          rw [iterate_of_none htest] at h
          cases h
          exact ⟨[], .here hc, by rwa [List.append_nil]⟩
      | some x =>
          rw [iterate_of_some htest] at h
          obtain ⟨b₁, c₁, hone, hmore⟩ := bind_eq_ok.1 h
          obtain ⟨v, hv, hP'⟩ := hstep u b x c b₁ c₁ hP hc htest hone
          obtain ⟨w, hw, hP''⟩ := ih (u ++ v) b₁ c₁ b' d hP' hv.onStream hmore
          exact ⟨v ++ w, hv.trans hw, by rwa [← List.append_assoc]⟩

/-- What a step keeps, from the tokens read so far to those read with it, a loop keeps. -/
theorem whileAt_reads {test : Token.Kind → Option γ} {step : γ → β → Reader β}
    {P : List Token → β → Prop}
    (hstep : ∀ u b x c b' d, P u b → c.OnStream → test c.current.kind = some x →
      step x b c = .ok b' d → ∃ v, c.Path v d ∧ P (u ++ v) b') {u : List Token} {b b' : β}
    (hP : P u b) (hc : c.OnStream) (h : whileAt test step b c = .ok b' d) :
    ∃ v, c.Path v d ∧ P (u ++ v) b' :=
  iterate_reads hstep _ u b c b' d hP hc h

theorem eq_of_only {kind k : Token.Kind} {x : Unit} (h : only kind k = some x) : k = kind := by
  unfold only at h
  split at h
  · assumption
  · cases h

/-! ### Expressions -/

/-- The tokens `w` derive the expression that was measured, its height is right, and it keeps the
limits. -/
def Measures (levels : Nat) (Operand : List Token → Expression → Nat → Prop) (w : List Token)
    (m : Measured) : Prop :=
  m.height = m.expr.height ∧ ∃ depth, Operand w m.expr depth ∧ Fits levels depth [m.expr]

/-- An expression is made higher only below the limit. -/
theorem heightAbove_eq_ok {child n : Nat} (h : heightAbove child c = .ok n d) :
    child < nestingLimit ∧ n = child + 1 ∧ d = c := by
  unfold heightAbove at h
  split at h
  · next hchild =>
      cases h
      exact ⟨hchild, rfl, rfl⟩
  · cases h

/-- A chain has been read from tokens that derive one, within the limits of its operands. -/
theorem chain_reads {op? : Token.Kind → Option Operator} (hend : op? .eof = none)
    {Operand : List Token → Expression → Nat → Prop} {operand : Reader Measured}
    (h : Reads operand (Measures levels Operand)) :
    Reads (chain op? operand) (Measures levels (Chained op? Operand)) := by
  intro c hc m d hm
  obtain ⟨first, c₁, hfirst, hloop⟩ := bind_eq_ok.1 hm
  obtain ⟨u, hu, hheight, depth, hderives, hfits⟩ := h c hc first c₁ hfirst
  have hP : Measures levels (Chained op? Operand) u first := ⟨hheight, depth, .one hderives, hfits⟩
  have hstep : ∀ u l op c m d, Measures levels (Chained op? Operand) u l → c.OnStream →
      op? c.current.kind = some op → chainStep operand op l c = .ok m d →
        ∃ v, c.Path v d ∧ Measures levels (Chained op? Operand) (u ++ v) m := by
    intro u l op c m d ⟨hlheight, dl, hl, hlfits⟩ hc htest hone
    have hk : c.current.kind ≠ .eof := fun hk => by rw [hk, hend] at htest; cases htest
    obtain ⟨t, c₁, htake, hone⟩ := bind_eq_ok.1 hone
    obtain ⟨r, c₂, hright, hone⟩ := bind_eq_ok.1 hone
    obtain ⟨n, c₃, habove, ⟨⟩⟩ := bind_eq_ok.1 hone
    obtain ⟨rfl, ht⟩ := path_of_take hc htake hk
    obtain ⟨v, hv, hrheight, dr, hr, hrfits⟩ := h c₁ ht.onStream r c₂ hright
    obtain ⟨hlimit, rfl, rfl⟩ := heightAbove_eq_ok habove
    -- The heights that are carried along are those of the trees, so the limit is on the tree.
    rw [hlheight, hrheight] at hlimit ⊢
    refine ⟨c.current :: v, ht.trans hv, rfl, max dl dr, .more hl htest hr, ?_⟩
    exact Fits.singleton_iff.2 ⟨Nat.max_le.2 ⟨hlfits.1, hrfits.1⟩, hlimit⟩
  obtain ⟨v, hv, hmeasures⟩ := iterate_reads hstep _ u first c₁ m d hP hu.onStream hloop
  exact ⟨u ++ v, hu.trans hv, hmeasures⟩

theorem sumOf_reads {factor : Reader Measured} (h : Reads factor (Measures levels IsFactor)) :
    Reads (sumOf factor) (Measures levels IsExpression) :=
  chain_reads rfl (chain_reads rfl h)

section Factors

variable {inner : Option (Reader Measured)}

/-- What is one level further down, if there is such a level, reads factors in the levels left. -/
abbrev InnerReads (levels : Nat) (inner : Option (Reader α)) (G : Nat → List Token → α → Prop) :
    Prop :=
  ∀ m ∈ inner, ∃ k, levels = k + 1 ∧ Reads m (G k)

theorem signed_reads {op : Sign}
    (hinner : InnerReads levels inner fun k => Measures k IsFactor) (hc : c.OnStream)
    (hop : Sign.ofKind? c.current.kind = some op) :
    ReadsAt c (signed op inner) (Measures levels IsFactor) := by
  intro m d h
  have hk : c.current.kind ≠ .eof := fun hk => by rw [hk] at hop; cases hop
  obtain ⟨t, c₁, htake, h⟩ := bind_eq_ok.1 h
  obtain ⟨e, c₂, hoperand, h⟩ := bind_eq_ok.1 h
  obtain ⟨n, c₃, habove, ⟨⟩⟩ := bind_eq_ok.1 h
  obtain ⟨rfl, ht⟩ := path_of_take hc htake hk
  obtain ⟨factor, hmem, hfactor⟩ := eq_ok_of_deeper hoperand
  obtain ⟨k, rfl, hreads⟩ := hinner factor hmem
  obtain ⟨w, hw, hheight, depth, hderives, hfits⟩ := hreads c₁ ht.onStream e c₂ hfactor
  obtain ⟨hlimit, rfl, rfl⟩ := heightAbove_eq_ok habove
  rw [hheight] at hlimit ⊢
  refine ⟨c.current :: w, ht.trans hw, rfl, depth + 1, .signed hop hderives, ?_⟩
  exact Fits.singleton_iff.2 ⟨Nat.succ_le_succ hfits.1, hlimit⟩

/-- A literal has been read from its one token. -/
theorem literal_reads (hc : c.OnStream)
    (hk : c.current.kind = .integerConst ∨ c.current.kind = .realConst) :
    ReadsAt c literal (Measures levels IsFactor) := by
  intro m d h
  have hne : c.current.kind ≠ .eof := by rcases hk with hk | hk <;> rw [hk] <;> exact nofun
  obtain ⟨t, c₁, htake, h⟩ := bind_eq_ok.1 h
  obtain ⟨rfl, ht⟩ := path_of_take hc htake hne
  cases hnumber : Number.ofLexeme? c.current.kind c.current.lexeme.toList with
  | none => rw [hnumber] at h; cases h
  | some value =>
      rw [hnumber] at h
      cases h
      have hvalue : c.current.number = value := by rw [Token.number, hnumber]; rfl
      refine ⟨[c.current], ht, rfl, 0, hvalue ▸ .literal hk, ?_⟩
      exact Fits.leaf rfl

theorem parenthesized_reads (hinner : InnerReads levels inner fun k => Measures k IsFactor)
    (hc : c.OnStream) (hk : c.current.kind = .leftParen) :
    ReadsAt c (parenthesized inner) (Measures levels IsFactor) := by
  intro m d h
  obtain ⟨t, c₁, htake, h⟩ := bind_eq_ok.1 h
  obtain ⟨e, c₂, hsum, h⟩ := bind_eq_ok.1 h
  obtain ⟨r, c₃, hclose, ⟨⟩⟩ := bind_eq_ok.1 h
  obtain ⟨rfl, ht⟩ := path_of_take hc htake (by rw [hk]; exact nofun)
  obtain ⟨sum, hmem, hsum⟩ := eq_ok_of_deeper hsum
  obtain ⟨factor, hfactor, rfl⟩ := Option.map_eq_some_iff.1 hmem
  obtain ⟨k, rfl, hreads⟩ := hinner factor hfactor
  obtain ⟨w, hw, hheight, depth, hderives, hfits⟩ := sumOf_reads hreads c₁ ht.onStream m c₂ hsum
  obtain ⟨hright, hr⟩ := path_of_require hw.onStream hclose nofun
  refine ⟨c.current :: w ++ [r], (ht.trans hw).trans hr, hheight, depth + 1,
    .parenthesized hk hderives hright, Fits.succ_iff.2 hfits⟩

theorem variableName_reads (hc : c.OnStream) (hk : c.current.kind = .identifier) :
    ReadsAt c variableName (Measures levels IsFactor) := by
  intro m d h
  obtain ⟨t, c₁, htake, ⟨⟩⟩ := bind_eq_ok.1 h
  obtain ⟨rfl, ht⟩ := path_of_take hc htake (by rw [hk]; exact nofun)
  exact ⟨[c.current], ht, rfl, 0, .named hk, Fits.leaf rfl⟩

/-- Whichever branch is taken, the tokens derive a factor. -/
theorem factorWith_reads (hinner : InnerReads levels inner fun k => Measures k IsFactor) :
    Reads (factorWith inner) (Measures levels IsFactor) := by
  intro c hc
  refine .peek ?_
  split
  · next hk => exact signed_reads hinner hc (by rw [hk]; rfl)
  · next hk => exact signed_reads hinner hc (by rw [hk]; rfl)
  · next hk => exact literal_reads hc (.inl hk)
  · next hk => exact literal_reads hc (.inr hk)
  · next hk => exact parenthesized_reads hinner hc hk
  · next hk => exact variableName_reads hc hk
  · exact nofun

end Factors

theorem factor_reads (levels : Nat) : Reads (factor levels) (Measures levels IsFactor) := by
  induction levels with
  | zero => exact factorWith_reads fun _ hm => nomatch hm
  | succ levels ih => exact factorWith_reads fun _ hm => Option.some.inj hm ▸ ⟨levels, rfl, ih⟩

theorem expression_reads (levels : Nat) :
    Reads (expression levels) (Measures levels IsExpression) :=
  sumOf_reads (factor_reads levels)

/-! ### Lists -/

/-- The tokens `w` derive `a`, which keeps the limits. -/
def Keeps (levels : Nat) (values : α → List Expression) (G : List Token → α → Nat → Prop)
    (w : List Token) (a : α) : Prop :=
  ∃ depth, G w a depth ∧ Fits levels depth (values a)

section Lists

variable {values : α → List Expression} {One : List Token → α → Nat → Prop} {one : Reader α}

/-- A row with separators has been read, if each thing in it has. -/
theorem separated_reads {separator : Token.Kind} (hsep : separator ≠ .eof)
    (hone : Reads one (Keeps levels values One)) :
    Reads (separated separator one) fun w as =>
      Keeps levels (List.flatMap values) (Separated separator One) w as.toList := by
  intro c hc as d h
  obtain ⟨first, c₁, hfirst, hloop⟩ := bind_eq_ok.1 h
  obtain ⟨u, hu, da, hderives, hfits⟩ := hone c hc first c₁ hfirst
  have hP : Keeps levels (List.flatMap values) (Separated separator One) u #[first].toList :=
    ⟨da, .one hderives, by rwa [List.flatMap_singleton]⟩
  have hstep : ∀ u (as : Array α) (x : Unit) (c : Cursor) as' d,
      Keeps levels (List.flatMap values) (Separated separator One) u as.toList → c.OnStream →
        only separator c.current.kind = some x → separatedStep one x as c = .ok as' d →
          ∃ v, c.Path v d ∧
            Keeps levels (List.flatMap values) (Separated separator One) (u ++ v) as'.toList := by
    intro u as x c as' d ⟨dw, hw, hwfits⟩ hc htest hstep
    have hk := eq_of_only htest
    obtain ⟨t, c₁, htake, hstep⟩ := bind_eq_ok.1 hstep
    obtain ⟨a, c₂, ha, ⟨⟩⟩ := bind_eq_ok.1 hstep
    obtain ⟨rfl, ht⟩ := path_of_take hc htake (hk ▸ hsep)
    obtain ⟨v, hv, da, hderives, hfits⟩ := hone c₁ ht.onStream a d ha
    rw [Array.toList_push]
    refine ⟨c.current :: v, ht.trans hv, max dw da, .more hw hk hderives, ?_⟩
    rw [List.flatMap_append, List.flatMap_singleton]
    exact Fits.append_iff.2 ⟨hwfits, hfits⟩
  obtain ⟨v, hv, hkeeps⟩ := whileAt_reads hstep hP hu.onStream hloop
  exact ⟨u ++ v, hu.trans hv, hkeeps⟩

theorem repeated_reads {kind : Token.Kind}
    (hone : ∀ c, c.OnStream → c.current.kind = kind → ReadsAt c one (Keeps levels values One)) :
    Reads (repeated kind one) fun w as =>
      Keeps levels (List.flatMap values) (Repeated One) w as.toList := by
  intro c hc as d h
  -- The loop begins without anything listed, and with no token consumed.
  have hP : Keeps levels (List.flatMap values) (Repeated One) [] (#[] : Array α).toList :=
    ⟨0, .none, Fits.nil_iff.2 (Nat.zero_le levels)⟩
  have hstep : ∀ u (as : Array α) (x : Unit) (c : Cursor) as' d,
      Keeps levels (List.flatMap values) (Repeated One) u as.toList → c.OnStream →
        only kind c.current.kind = some x → repeatedStep one x as c = .ok as' d →
          ∃ v, c.Path v d ∧
            Keeps levels (List.flatMap values) (Repeated One) (u ++ v) as'.toList := by
    intro u as x c as' d ⟨dw, hw, hwfits⟩ hc htest hstep
    obtain ⟨a, c₁, ha, ⟨⟩⟩ := bind_eq_ok.1 hstep
    obtain ⟨v, hv, da, hderives, hfits⟩ := hone c hc (eq_of_only htest) a d ha
    rw [Array.toList_push]
    refine ⟨v, hv, max dw da, .more hw hderives, ?_⟩
    rw [List.flatMap_append, List.flatMap_singleton]
    exact Fits.append_iff.2 ⟨hwfits, hfits⟩
  exact whileAt_reads hstep hP hc h

end Lists

/-! ### Statements -/

theorem path_of_name {what : Expected} {n : String × Span} (hc : c.OnStream)
    (h : name what c = .ok n d) :
    ∃ t, c.Path [t] d ∧ t.kind = .identifier ∧ n = (t.lexeme, t.span) := by
  obtain ⟨t, c₁, hrequire, ⟨⟩⟩ := bind_eq_ok.1 h
  obtain ⟨hk, ht⟩ := path_of_require hc hrequire nofun
  exact ⟨t, ht, hk, rfl⟩

theorem name_reads (levels : Nat) (what : Expected) :
    Reads (name what) (Keeps levels (fun _ => []) IsName) := by
  intro c hc n d h
  obtain ⟨t, ht, hk, rfl⟩ := path_of_name hc h
  exact ⟨[t], ht, 0, .mk hk, Fits.nil_iff.2 (Nat.zero_le levels)⟩

theorem assignment_reads {value : Reader Measured}
    (hvalue : Reads value (Measures levels IsExpression)) :
    Reads (assignment value) (Keeps levels Statement.values IsAssignment) := by
  intro c hc s d h
  obtain ⟨n, c₁, hname, h⟩ := bind_eq_ok.1 h
  obtain ⟨a, c₂, hassign, h⟩ := bind_eq_ok.1 h
  obtain ⟨e, c₃, hexpr, ⟨⟩⟩ := bind_eq_ok.1 h
  obtain ⟨t, ht, htk, rfl⟩ := path_of_name hc hname
  obtain ⟨hak, ha⟩ := path_of_require ht.onStream hassign nofun
  obtain ⟨w, hw, -, depth, hderives, hfits⟩ := hvalue c₂ ha.onStream e d hexpr
  refine ⟨t :: a :: w, (ht.trans ha).trans hw, depth, .mk htk hak hderives, ?_⟩
  rwa [Statement.values]

/-- A statement has been read where compounds and values have; the empty one from no token. -/
theorem statement_reads {inner : Reader Compound} {value : Reader Measured}
    (hinner : Reads inner (Keeps levels Compound.values IsCompound))
    (hvalue : Reads value (Measures levels IsExpression)) :
    Reads (statement inner value) (Keeps levels Statement.values IsStatement) := by
  intro c hc
  refine .peek ?_
  split
  · intro s d h
    obtain ⟨compound, c₁, h, ⟨⟩⟩ := bind_eq_ok.1 h
    obtain ⟨w, hw, depth, hderives, hfits⟩ := hinner c hc compound d h
    exact ⟨w, hw, depth, .compound hderives, by rwa [Compound.values_toStatement]⟩
  · intro s d h
    obtain ⟨w, hw, depth, hderives, hfits⟩ := assignment_reads hvalue c hc s d h
    exact ⟨w, hw, depth, .assignment hderives, hfits⟩
  · intro s d h
    cases h
    refine ⟨[], .here hc, 0, .empty, ?_⟩
    rw [Statement.values]
    exact Fits.nil_iff.2 (Nat.zero_le levels)

/-- A row of statements has been read where each of them has. -/
theorem statements_reads {one : Reader Statement}
    (hone : Reads one (Keeps levels Statement.values IsStatement)) :
    Reads (statements one)
      (Keeps levels Statement.listValues (Separated .semicolon IsStatement)) := by
  intro c hc ss d h
  rw [statements_eq] at h
  obtain ⟨read, c₁, hread, h⟩ := bind_eq_ok.1 h
  obtain ⟨_, _, ⟨⟩, h⟩ := bind_eq_ok.1 h
  split at h
  · cases h
  · cases h
    obtain ⟨w, hw, depth, hderives, hfits⟩ := separated_reads (by decide) hone c hc read d hread
    exact ⟨w, hw, depth, hderives, by rwa [Statement.listValues_eq_flatMap]⟩

theorem compoundWith_reads {inner : Option (Reader (List Statement))}
    (hinner : InnerReads levels inner fun k =>
      Keeps k Statement.listValues (Separated .semicolon IsStatement)) :
    Reads (compoundWith inner) (Keeps levels Compound.values IsCompound) := by
  intro c hc compound d h
  obtain ⟨b, c₁, hbegin, h⟩ := bind_eq_ok.1 h
  obtain ⟨ss, c₂, hstatements, h⟩ := bind_eq_ok.1 h
  obtain ⟨e, c₃, hend, h⟩ := bind_eq_ok.1 h
  obtain ⟨span, c₄, hspan, ⟨⟩⟩ := bind_eq_ok.1 h
  obtain ⟨rfl, rfl⟩ := spanFrom_eq_ok hspan
  obtain ⟨hbk, hb⟩ := path_of_require hc hbegin nofun
  obtain ⟨statements, hmem, hstatements⟩ := eq_ok_of_deeper hstatements
  obtain ⟨k, rfl, hreads⟩ := hinner statements hmem
  obtain ⟨w, hw, depth, hderives, hfits⟩ := hreads c₁ hb.onStream ss c₂ hstatements
  obtain ⟨hek, he⟩ := path_of_require hw.onStream hend nofun
  have hpath : c.Path (b :: (w ++ [e])) d := (hb.trans hw).trans he
  have hrule := IsCompound.mk hbk hderives hek
  rw [List.cons_append, hpath.stretch_eq] at hrule
  exact ⟨b :: (w ++ [e]), hpath, depth + 1, hrule, Fits.succ_iff.2 hfits⟩

theorem compound_reads (levels : Nat) :
    Reads (compound levels) (Keeps levels Compound.values IsCompound) := by
  induction levels with
  | zero => exact compoundWith_reads fun _ hm => nomatch hm
  | succ levels ih =>
      refine compoundWith_reads fun _ hm => Option.some.inj hm ▸ ⟨levels, rfl, ?_⟩
      exact statements_reads (statement_reads ih (expression_reads levels))

/-! ### Declarations -/

theorem typeName_reads : Reads typeName fun w type =>
    ∃ t, w = [t] ∧ TypeName.ofKind? t.kind = some type.1 ∧ type.2 = t.span := by
  intro c hc
  refine .peek ?_
  split
  · next hk =>
      intro type d h
      obtain ⟨t, c₁, htake, ⟨⟩⟩ := bind_eq_ok.1 h
      obtain ⟨rfl, ht⟩ := path_of_take hc htake (by rw [hk]; exact nofun)
      exact ⟨[c.current], ht, c.current, rfl, by rw [hk]; rfl, rfl⟩
  · next hk =>
      intro type d h
      obtain ⟨t, c₁, htake, ⟨⟩⟩ := bind_eq_ok.1 h
      obtain ⟨rfl, ht⟩ := path_of_take hc htake (by rw [hk]; exact nofun)
      exact ⟨[c.current], ht, c.current, rfl, by rw [hk]; rfl, rfl⟩
  · exact nofun

theorem variableList_reads : Reads variableList fun w ds => IsVariableList w ds := by
  intro c hc ds d h
  rw [variableList_eq] at h
  obtain ⟨names, c₁, hnames, h⟩ := bind_eq_ok.1 h
  obtain ⟨colon, c₂, hcolon, h⟩ := bind_eq_ok.1 h
  obtain ⟨type, c₃, htype, h⟩ := bind_eq_ok.1 h
  obtain ⟨semi, c₄, hsemi, ⟨⟩⟩ := bind_eq_ok.1 h
  obtain ⟨w, hw, depth, hderives, -⟩ :=
    separated_reads (by decide) (name_reads 0 _) c hc names c₁ hnames
  obtain ⟨hck, hcolon⟩ := path_of_require hw.onStream hcolon nofun
  obtain ⟨_, ht, t, rfl, htk, hspan⟩ := typeName_reads c₂ hcolon.onStream type c₃ htype
  obtain ⟨hsk, hs⟩ := path_of_require ht.onStream hsemi nofun
  refine ⟨w ++ [colon, t, semi], hw.trans (hcolon.trans (ht.trans hs)), ?_⟩
  rw [hspan]
  exact .mk hderives hck htk hsk

/-- The variables have been read from tokens that derive them, or from none. -/
theorem variablePart_reads : Reads variablePart fun w ds => IsVariablePart w ds := by
  intro c hc
  refine .peek ?_
  split
  · next hk =>
      intro ds d h
      obtain ⟨t, c₁, htake, h⟩ := bind_eq_ok.1 h
      obtain ⟨first, c₂, hfirst, h⟩ := bind_eq_ok.1 h
      obtain ⟨rfl, ht⟩ := path_of_take hc htake (by rw [hk]; exact nofun)
      obtain ⟨u, hu, hfirst⟩ := variableList_reads c₁ ht.onStream first c₂ hfirst
      have hstep : ∀ u ds (x : Unit) c ds' d, IsVariableLists u ds → c.OnStream →
          only .identifier c.current.kind = some x → listedStep variableList x ds c = .ok ds' d →
            ∃ v, c.Path v d ∧ IsVariableLists (u ++ v) ds' := by
        intro u ds x c ds' d hP hc _ hstep
        obtain ⟨more, c₁, hmore, ⟨⟩⟩ := bind_eq_ok.1 hstep
        obtain ⟨v, hv, hlist⟩ := variableList_reads c hc more d hmore
        exact ⟨v, hv, .more hP hlist⟩
      obtain ⟨v, hv, hlists⟩ := whileAt_reads hstep (.one hfirst) hu.onStream h
      exact ⟨c.current :: (u ++ v), ht.trans (hu.trans hv), .some hk hlists⟩
  · intro ds d h
    cases h
    exact ⟨[], .here hc, .none⟩

theorem procedure_reads {inner : Option (Reader Block)}
    (hinner : InnerReads levels inner fun k => Keeps k Block.values IsBlock)
    (hc : c.OnStream) (hk : c.current.kind = .procedureWord) :
    ReadsAt c (procedure inner) (Keeps levels Declaration.values IsProcedure) := by
  intro declaration d h
  obtain ⟨t, c₁, htake, h⟩ := bind_eq_ok.1 h
  obtain ⟨n, c₂, hname, h⟩ := bind_eq_ok.1 h
  obtain ⟨s, c₃, hsemi, h⟩ := bind_eq_ok.1 h
  obtain ⟨b, c₄, hblock, h⟩ := bind_eq_ok.1 h
  obtain ⟨span, c₅, hspan, h⟩ := bind_eq_ok.1 h
  obtain ⟨e, c₆, hend, ⟨⟩⟩ := bind_eq_ok.1 h
  obtain ⟨rfl, rfl⟩ := spanFrom_eq_ok hspan
  obtain ⟨rfl, ht⟩ := path_of_take hc htake (by rw [hk]; exact nofun)
  obtain ⟨n, hn, hnk, rfl⟩ := path_of_name ht.onStream hname
  obtain ⟨hsk, hs⟩ := path_of_require hn.onStream hsemi nofun
  obtain ⟨block, hmem, hblock⟩ := eq_ok_of_deeper hblock
  obtain ⟨k, rfl, hreads⟩ := hinner block hmem
  obtain ⟨w, hw, depth, hderives, hfits⟩ := hreads c₃ hs.onStream b c₅ hblock
  obtain ⟨hek, he⟩ := path_of_require hw.onStream hend nofun
  have hpath : c.Path (c.current :: n :: s :: w) c₅ := ((ht.trans hn).trans hs).trans hw
  have hrule := IsProcedure.mk hk hnk hsk hderives hek
  rw [hpath.stretch_eq] at hrule
  refine ⟨_, hpath.trans he, depth + 1, hrule, ?_⟩
  rw [Declaration.values]
  exact Fits.succ_iff.2 hfits

theorem blockWith_reads {body : Reader Compound} {inner : Option (Reader Block)}
    (hbody : Reads body (Keeps levels Compound.values IsCompound))
    (hinner : InnerReads levels inner fun k => Keeps k Block.values IsBlock) :
    Reads (blockWith body inner) (Keeps levels Block.values IsBlock) := by
  intro c hc b d h
  obtain ⟨vars, c₁, hvars, h⟩ := bind_eq_ok.1 h
  obtain ⟨procedures, c₂, hprocedures, h⟩ := bind_eq_ok.1 h
  obtain ⟨compound, c₃, hcompound, ⟨⟩⟩ := bind_eq_ok.1 h
  obtain ⟨u, hu, hpart⟩ := variablePart_reads c hc vars c₁ hvars
  obtain ⟨v, hv, dp, hp, hpfits⟩ :=
    repeated_reads (fun c hc hk => procedure_reads hinner hc hk) c₁ hu.onStream procedures c₂
      hprocedures
  obtain ⟨w, hw, dc, hderives, hfits⟩ := hbody c₂ hv.onStream compound d hcompound
  refine ⟨u ++ (v ++ w), hu.trans (hv.trans hw), max dp dc, .mk hpart hp hderives, ?_⟩
  rw [hpart.values_block]
  exact Fits.append_iff.2 ⟨hpfits, hfits⟩

theorem block_reads (levels : Nat) : Reads (block levels) (Keeps levels Block.values IsBlock) := by
  induction levels with
  | zero => exact blockWith_reads (compound_reads 0) fun _ hm => nomatch hm
  | succ levels ih =>
      exact blockWith_reads (compound_reads _) fun _ hm => Option.some.inj hm ▸ ⟨levels, rfl, ih⟩

/-! ### Programs -/

theorem program_reads : Reads program (Keeps nestingLimit Program.values IsProgram) := by
  intro c hc p d h
  obtain ⟨t, c₁, hstart, h⟩ := bind_eq_ok.1 h
  obtain ⟨n, c₂, hname, h⟩ := bind_eq_ok.1 h
  obtain ⟨s, c₃, hsemi, h⟩ := bind_eq_ok.1 h
  obtain ⟨b, c₄, hblock, h⟩ := bind_eq_ok.1 h
  obtain ⟨e, c₅, hdot, h⟩ := bind_eq_ok.1 h
  obtain ⟨span, c₆, hspan, ⟨⟩⟩ := bind_eq_ok.1 h
  obtain ⟨rfl, rfl⟩ := spanFrom_eq_ok hspan
  obtain ⟨htk, ht⟩ := path_of_require hc hstart nofun
  obtain ⟨n, hn, hnk, rfl⟩ := path_of_name ht.onStream hname
  obtain ⟨hsk, hs⟩ := path_of_require hn.onStream hsemi nofun
  obtain ⟨w, hw, depth, hderives, hfits⟩ := block_reads _ c₃ hs.onStream b c₄ hblock
  obtain ⟨hek, he⟩ := path_of_require hw.onStream hdot nofun
  have hpath : c.Path (t :: n :: s :: (w ++ [e])) d :=
    (((ht.trans hn).trans hs).trans hw).trans he
  have hrule := IsProgram.mk htk hnk hsk hderives hek
  rw [List.cons_append, List.cons_append, List.cons_append, hpath.stretch_eq] at hrule
  exact ⟨_, hpath, depth, hrule, hfits⟩

/-- **A program that is read is in the grammar.**  The tokens before the end derive it, and it keeps
both limits. -/
theorem wholeProgram_reads {p : Program} (hc : c.OnStream) (h : wholeProgram c = .ok p d) :
    d.current.kind = .eof ∧
      ∃ w, c.Path w d ∧ Keeps nestingLimit Program.values IsProgram w p := by
  obtain ⟨q, c₁, hprogram, h⟩ := bind_eq_ok.1 h
  obtain ⟨_, _, ⟨⟩, h⟩ := bind_eq_ok.1 h
  split at h
  · next hk =>
      cases h
      exact ⟨hk, program_reads c hc p d hprogram⟩
  · cases h

end Reader

end MiniPascal
