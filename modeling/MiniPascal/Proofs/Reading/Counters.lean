import MiniPascal.Proofs.Reading.Calls
import MiniPascal.Proofs.Reading.Lazy

/-!
# Proofs — Reading — Counters

Both counters are exact.  Every counting reader follows the plain one that it is named after: the
calls that it makes are those that the tokens make due, and it leaves open what encloses it.  The
readers go by the same inductions as the plain ones, loops on the rounds and rules on the levels.
Main statement (`Program.readCounting_exact`): a text is read with counters to the same program or
fault, all that is on record is exact, and the record is complete.
-/

namespace MiniPascal

open Reader Enclosing

variable {α β : Type} {rs : List Pulled} {s : Counted} {levels : Nat} {o : Enclosing}
  {owed : List Rule}

/-- The same value, whatever the height. -/
def Same (a b : α) (_ : Nat) : Prop := b = a

/-! ### Expressions -/

/-- Where an operand may begin that is not that of a sign. -/
def BeforeOperand (o : Enclosing) : Prop := o.behindOperand = false ∧ Settled o.openers

/-- An operand ends there, and nothing else. -/
def EndsOperand (o o' : Enclosing) : Prop := o' = ⟨o.openers, true⟩

/-- Where a factor may begin. -/
def BeforeFactor (o : Enclosing) : Prop := o.behindOperand = false

/-- An operand ends there, and the signs before it do. -/
def EndsFactor (o o' : Enclosing) : Prop := o' = endOperand o.openers

section Chains

variable {op? : Token.Kind → Option Operator} {operand : Reader Measured}
  {operand' : Counting Expression} {openers : List Token.Kind}

/-- Behind an operand an operator opens nothing, and announces the calls of another operand. -/
def Announces (op? : Token.Kind → Option Operator) (owed : List Rule) : Prop :=
  ∀ k op, op? k = some op → (k ≠ .eof ∧ k ≠ .beginWord) ∧ ∀ openers,
    past ⟨openers, true⟩ k = ⟨openers, false⟩ ∧ announced ⟨openers, true⟩ k = owed

/-- An operator of a sum announces a term. -/
theorem announces_sum : Announces Operator.ofSumKind? [.term, .factor] := by
  intro k op h
  cases k <;> first | exact ⟨⟨nofun, nofun⟩, fun _ => ⟨rfl, rfl⟩⟩ | cases h

/-- An operator of a product announces a factor. -/
theorem announces_product : Announces Operator.ofProductKind? [.factor] := by
  intro k op h
  cases k <;> first | exact ⟨⟨nofun, nofun⟩, fun _ => ⟨rfl, rfl⟩⟩ | cases h

/-- A round of a chain leaves open what encloses it. -/
theorem chainStep_follows {op : Operator} {left : Measured}
    (hop : op? s.tally.cursor.current.kind = some op) (hannounces : Announces op? owed)
    (hfollows : Follows levels BeforeOperand owed EndsOperand operand operand' Tells)
    (hopeners : Settled openers) (hs : Stands rs levels ⟨openers, true⟩ [] s) :
    FollowsAt rs s (Reader.chainStep operand op left) (Counting.chainStep operand' op left)
      fun m m' t => m' = m ∧ Stands rs levels ⟨openers, true⟩ [] t := by
  obtain ⟨hne, hpast⟩ := hannounces _ _ hop
  refine .take_bind hs.sound hs.place rfl hne fun c hlevel₁ hat₁ => ?_
  rw [(hpast openers).1, (hpast openers).2] at hat₁
  have hs₁ : Stands rs levels ⟨openers, false⟩ owed (s.step c) := hs.along hlevel₁ hat₁ rfl
  refine (hfollows rs _ _ ⟨rfl, hopeners⟩ hs₁).bind fun right e s₂ _ hlevel₂ hyields => ?_
  obtain ⟨⟨rfl, hheight⟩, _, rfl, hat₂⟩ := hyields
  have hs₂ : Stands rs levels ⟨openers, true⟩ [] s₂ := hs₁.along hlevel₂ hat₂ rfl
  refine .tally_bind ?_
  rw [hheight]
  refine .heightAbove_bind hs₂.sound hat₂ fun c hlevel₃ hat₃ => ?_
  exact .value hlevel₃.sound ⟨rfl, hs₂.along hlevel₃ hat₃ rfl⟩

/-- A chain follows if its operands do. -/
theorem chain_follows (hannounces : Announces op? owed)
    (hfollows : Follows levels BeforeOperand owed EndsOperand operand operand' Tells) :
    Follows levels BeforeOperand owed EndsOperand (Reader.chain op? operand)
      (Counting.chain op? operand') Tells := by
  rintro rs s ⟨openers, _⟩ ⟨rfl, hopeners⟩ hs
  rw [chain_eq]
  refine (hfollows rs s _ ⟨rfl, hopeners⟩ hs).bind fun first e s₁ _ hlevel₁ hyields => ?_
  obtain ⟨⟨rfl, hheight⟩, _, rfl, hat₁⟩ := hyields
  have hs₁ : Stands rs levels ⟨openers, true⟩ [] s₁ := hs.along hlevel₁ hat₁ rfl
  refine .tally_bind ?_
  rw [hheight, ← bind_pure (iterate op? (chainStep operand) nestingLimit first)]
  have hstep : ∀ s left op, Stands rs levels ⟨openers, true⟩ [] s →
      op? s.tally.cursor.current.kind = some op →
        FollowsAt rs s (Reader.chainStep operand op left) (Counting.chainStep operand' op left)
          fun m m' t => m' = m ∧ Stands rs levels ⟨openers, true⟩ [] t :=
    fun _ _ _ hs htest => chainStep_follows htest hannounces hfollows hopeners hs
  have hloop := FollowsAt.iterate (fun _ hs => hs.sound) hstep nestingLimit s₁ first hs₁
  refine hloop.bind fun m m' s₂ _ hlevel₂ hQ => ?_
  obtain ⟨rfl, hs₂⟩ := hQ
  refine .setHeight_bind hs₂.sound (.value (hs₂.sound.moved hs₂.sound.depth) ?_)
  exact ⟨⟨rfl, rfl⟩, _, rfl, hs₂.place.moved rfl⟩

end Chains

section Factors

variable {inner : Option (Reader Measured)} {inner' : Option (Counting Expression)}

/-- The factors one level further down, for either reader. -/
abbrev PairedFactors (levels : Nat) (inner : Option (Reader Measured))
    (inner' : Option (Counting Expression)) : Prop :=
  Paired (fun k m n => m = Reader.factor k ∧ Follows k BeforeFactor [.factor] EndsFactor m n Tells)
    levels inner inner'

/-- Sums of products follow if factors do. -/
theorem sumOf_follows {factor' : Counting Expression}
    (hfollows : Follows levels BeforeFactor [.factor] EndsFactor (Reader.factor levels) factor'
      Tells) :
    Follows levels BeforeOperand [.expression, .term, .factor] EndsOperand
      (Reader.expression levels) (Counting.sumOf factor') Tells := by
  have hfactor : Follows levels BeforeOperand [.factor] EndsOperand (Reader.factor levels) factor'
      Tells := by
    rintro rs s o ⟨ho, hopeners⟩ hs
    refine (hfollows rs s o ho hs).mono fun a b t _ hyields => ?_
    obtain ⟨htells, _, rfl, hat⟩ := hyields
    exact ⟨htells, _, endOperand_of_settled hopeners, hat⟩
  have hterms : Reads (Reader.chain Operator.ofProductKind? (Reader.factor levels))
      (Measures levels IsTerm) := chain_reads rfl (factor_reads levels)
  have hterm : Follows levels BeforeOperand [.term, .factor] EndsOperand
      (Reader.chain Operator.ofProductKind? (Reader.factor levels)) (Counting.term factor')
        Tells :=
    (chain_follows announces_product hfactor).callMeasured hterms (fun _ _ _ => .term)
      fun _ e d h => ⟨e, d, h⟩
  exact (chain_follows announces_sum hterm).callMeasured (expression_reads levels)
    (fun _ _ _ => .expression) fun _ e d h => ⟨e, d, h⟩

/-- A sign in front of an operand opens a construct, and announces a factor. -/
theorem past_of_sign {k : Token.Kind} {op : Sign} (h : Sign.ofKind? k = some op) :
    (k ≠ .eof ∧ k ≠ .beginWord) ∧ isSign k = true ∧ ∀ openers : List Token.Kind,
      past ⟨openers, false⟩ k = ⟨k :: openers, false⟩ ∧
        announced ⟨openers, false⟩ k = [.factor] := by
  cases k <;> first | exact ⟨⟨nofun, nofun⟩, rfl, fun _ => ⟨rfl, rfl⟩⟩ | cases h

/-- A sign follows if the factors one level further down do. -/
theorem signed_follows {op : Sign} (hinner : PairedFactors levels inner inner')
    (hop : Sign.ofKind? s.tally.cursor.current.kind = some op) (ho : BeforeFactor o)
    (hs : Stands rs levels o [] s) :
    FollowsAt rs s (Reader.signed op inner) (Counting.signed op inner')
      (Yields rs Tells (EndsFactor o)) := by
  obtain ⟨openers, _⟩ := o
  obtain rfl := ho
  obtain ⟨hne, hsign, hpast⟩ := past_of_sign hop
  refine .take_bind hs.sound hs.place rfl hne fun c hlevel₁ hat₁ => ?_
  rw [(hpast openers).1, (hpast openers).2] at hat₁
  have hopens := hs.opens hlevel₁.sound hlevel₁.depth hat₁ rfl
  have hoperand := FollowsAt.within (P := BeforeFactor) hopens rfl (hinner.imp fun _ _ _ h => h.2)
  refine hoperand.bind fun operand e s₂ _ hlevel₂ hyields => ?_
  obtain ⟨⟨rfl, hheight⟩, _, rfl, hat₂⟩ := hyields
  rw [endOperand_cons_sign hsign] at hat₂
  refine .tally_bind ?_
  rw [hheight]
  refine .heightAbove_bind hlevel₂.sound hat₂ fun c hlevel₃ hat₃ => ?_
  refine .setHeight_bind hlevel₃.sound (.value (hlevel₃.sound.moved hlevel₃.sound.depth) ?_)
  exact ⟨⟨rfl, rfl⟩, _, rfl, hat₃.moved rfl⟩

/-- A literal has the height one, for either reader. -/
theorem literal_follows
    (hk : s.tally.cursor.current.kind = .integerConst ∨ s.tally.cursor.current.kind = .realConst)
    (hs : Stands rs levels o [] s) :
    FollowsAt rs s Reader.literal Counting.literal (Yields rs Tells (EndsFactor o)) := by
  have hne : s.tally.cursor.current.kind ≠ .eof ∧ s.tally.cursor.current.kind ≠ .beginWord := by
    rcases hk with hk | hk <;> rw [hk] <;> exact ⟨nofun, nofun⟩
  refine .take_bind hs.sound hs.place rfl hne fun c hlevel hat => ?_
  have hat' : (s.step c).At rs (endOperand o.openers) [] := by
    rcases hk with hk | hk <;> rw [hk] at hat <;> exact hat
  refine .setHeight_bind hlevel.sound ?_
  have hsound : ((s.step c).moved { (s.step c).tally with height := 1 }).Sound rs :=
    hlevel.sound.moved hlevel.sound.depth
  have hmoved : ((s.step c).moved { (s.step c).tally with height := 1 }).At rs
      (endOperand o.openers) [] := hat'.moved rfl
  cases Number.ofLexeme? s.tally.cursor.current.kind s.tally.cursor.current.lexeme.toList with
  | some value => exact .value hsound ⟨⟨rfl, rfl⟩, _, rfl, hmoved⟩
  | none => exact .throw hsound hmoved.told

/-- Parentheses follow if the factors one level further down do, and have the height of what they
enclose. -/
theorem parenthesized_follows (hinner : PairedFactors levels inner inner')
    (hk : s.tally.cursor.current.kind = .leftParen) (hs : Stands rs levels o [] s) :
    FollowsAt rs s (Reader.parenthesized inner) (Counting.parenthesized inner')
      (Yields rs Tells (EndsFactor o)) := by
  refine .take_bind hs.sound hs.place hk ⟨nofun, nofun⟩ fun c hlevel₁ hat₁ => ?_
  have hpaired : Paired (fun k m n => Follows k BeforeOperand [.expression, .term, .factor]
      EndsOperand m n Tells) levels (inner.map Reader.sumOf) (inner'.map Counting.sumOf) :=
    hinner.map fun k m n h => by
      obtain ⟨rfl, hfollows⟩ := h
      exact sumOf_follows hfollows
  have hopens := hs.opens hlevel₁.sound hlevel₁.depth hat₁ rfl
  have hsum := FollowsAt.within hopens ⟨rfl, settled_cons rfl o.openers⟩ hpaired
  refine hsum.bind fun m e s₂ _ hlevel₂ hyields => ?_
  obtain ⟨htells, _, rfl, hat₂⟩ := hyields
  refine .require_bind hlevel₂.sound hat₂ ⟨nofun, nofun⟩ fun _ c hlevel₃ hat₃ => ?_
  exact .value hlevel₃.sound ⟨htells, _, rfl, hat₃⟩

/-- A variable has the height one, for either reader. -/
theorem variableName_follows (hk : s.tally.cursor.current.kind = .identifier)
    (hs : Stands rs levels o [] s) :
    FollowsAt rs s Reader.variableName Counting.variableName (Yields rs Tells (EndsFactor o)) := by
  refine .take_bind hs.sound hs.place hk ⟨nofun, nofun⟩ fun c hlevel hat => ?_
  refine .setHeight_bind hlevel.sound (.value (hlevel.sound.moved hlevel.sound.depth) ?_)
  exact ⟨⟨rfl, rfl⟩, _, rfl, hat.moved rfl⟩

/-- A factor follows if the factors one level further down do. -/
theorem factorWith_follows (hfactor : Reader.factorWith inner = Reader.factor levels)
    (hinner : PairedFactors levels inner inner') :
    Follows levels BeforeFactor [.factor] EndsFactor (Reader.factorWith inner)
      (Counting.factorWith inner') Tells := by
  refine Follows.callMeasured (hfactor ▸ factor_reads levels) (fun _ _ _ => .factor)
    (fun c e d h => ⟨e, d, hfactor ▸ h⟩) ?_
  rintro rs s o ho hs
  refine .peek_bind ?_
  cases hk : s.tally.cursor.current.kind with
  | plus => exact signed_follows hinner (by rw [hk]; rfl) ho hs
  | minus => exact signed_follows hinner (by rw [hk]; rfl) ho hs
  | integerConst => exact literal_follows (.inl hk) hs
  | realConst => exact literal_follows (.inr hk) hs
  | leftParen => exact parenthesized_follows hinner hk hs
  | identifier => exact variableName_follows hk hs
  | _ => exact .fail hs.sound hs.place.told ⟨_, rfl, rfl⟩

end Factors

/-- **Factors follow**, in as many levels as are left. -/
theorem factor_follows (levels : Nat) :
    Follows levels BeforeFactor [.factor] EndsFactor (Reader.factor levels)
      (Counting.factor levels) Tells := by
  induction levels with
  | zero => exact factorWith_follows rfl .none
  | succ levels ih => exact factorWith_follows rfl (.some ⟨rfl, ih⟩)

/-- **Expressions follow.** -/
theorem expression_follows (levels : Nat) :
    Follows levels BeforeOperand [.expression, .term, .factor] EndsOperand
      (Reader.expression levels) (Counting.expression levels) Tells :=
  sumOf_follows (factor_follows levels)

/-! ### Statements -/

/-- Where a statement of a compound may begin. -/
def InCompound (o : Enclosing) : Prop := ∃ openers, o.openers = .beginWord :: openers

/-- The same constructs are open there. -/
def LeavesOpen (o o' : Enclosing) : Prop := o'.openers = o.openers

/-- A compound ends there, and with it the procedure that it is the body of. -/
def EndsBody (o o' : Enclosing) : Prop := o' = ⟨endBody o.openers, false⟩

/-- In a compound no sign is waiting. -/
theorem InCompound.settled (h : InCompound o) : Settled o.openers := by
  obtain ⟨openers, ho⟩ := h
  exact ho ▸ settled_cons rfl openers

/-- An assignment follows if its value does. -/
theorem assignment_follows {value : Reader Measured} {value' : Counting Expression}
    (hvalue : Follows levels BeforeOperand [.expression, .term, .factor] EndsOperand value value'
      Tells) :
    Follows levels InCompound [] LeavesOpen (Reader.assignment value) (Counting.assignment value')
      Same := by
  rintro rs s o ho hs
  refine .name_bind hs.sound hs.place fun n c hlevel₁ hat₁ => ?_
  rw [endOperand_of_settled ho.settled] at hat₁
  refine .require_bind hlevel₁.sound hat₁ ⟨nofun, nofun⟩ fun _ c hlevel₂ hat₂ => ?_
  have hs₂ : Stands rs levels ⟨o.openers, false⟩ [.expression, .term, .factor] _ :=
    hs.along (hlevel₁.trans hlevel₂) hat₂ rfl
  have hexpression := hvalue rs _ ⟨o.openers, false⟩ ⟨rfl, ho.settled⟩ hs₂
  refine hexpression.bind fun m e s₃ _ hlevel₃ hyields => ?_
  obtain ⟨⟨rfl, -⟩, _, rfl, hat₃⟩ := hyields
  exact .value hlevel₃.sound ⟨rfl, ⟨o.openers, true⟩, rfl, hat₃⟩

/-- A statement follows if the compounds and the expressions in it do. -/
theorem statement_follows {inner : Counting Compound} {value : Counting Expression}
    (hinner : Follows levels (fun _ => True) [] EndsBody (Reader.compound levels) inner Same)
    (hvalue : Follows levels BeforeOperand [.expression, .term, .factor] EndsOperand
      (Reader.expression levels) value Tells) :
    Follows levels InCompound [.statement] LeavesOpen
      (Reader.statement (Reader.compound levels) (Reader.expression levels))
      (Counting.statement inner value) Same := by
  refine Follows.callOther (statement_reads (compound_reads levels) (expression_reads levels))
    (fun _ _ _ => .statement) (fun _ e d h => ⟨e, d, h⟩) ?_
  rintro rs s o ho hs
  refine .peek_bind ?_
  cases hk : s.tally.cursor.current.kind with
  | beginWord =>
      refine (hinner rs s o trivial hs).bind fun c c' t _ hlevel hyields => ?_
      obtain ⟨hsame, _, rfl, hat⟩ := hyields
      obtain rfl := hsame
      obtain ⟨openers, hopeners⟩ := ho
      refine .value hlevel.sound ⟨rfl, _, ?_, hat⟩
      rw [LeavesOpen, hopeners]
      rfl
  | identifier => exact assignment_follows hvalue rs s o ho hs
  | _ => exact .value hs.sound ⟨rfl, o, rfl, hs.place⟩

/-- A counting reader stands within some constructs, whether or not a name has just ended, and
still owes some calls there. -/
def StandsIn (rs : List Pulled) (levels : Nat) (openers : List Token.Kind) (owed : List Rule)
    (s : Counted) : Prop :=
  ∃ o, o.openers = openers ∧ Stands rs levels o owed s

theorem StandsIn.sound {openers : List Token.Kind} (h : StandsIn rs levels openers owed s) :
    s.Sound rs := by
  obtain ⟨o, -, hs⟩ := h
  exact hs.sound

/-- Statements follow if each of them does. -/
theorem statements_follows {one : Reader Statement} {one' : Counting Statement}
    (hfollows : Follows levels InCompound [.statement] LeavesOpen one one' Same) :
    Follows levels InCompound [.statement] LeavesOpen (Reader.statements one)
      (Counting.statements one') Same := by
  rintro rs s o ⟨openers, ho⟩ hs
  have hone : ∀ s, StandsIn rs levels (.beginWord :: openers) [.statement] s →
      FollowsAt rs s one one' fun a b t =>
        b = a ∧ StandsIn rs levels (.beginWord :: openers) [] t := by
    rintro s ⟨o, ho, hs⟩
    refine (hfollows rs s o ⟨openers, ho⟩ hs).mono fun a b t hlevel hyields => ?_
    obtain ⟨hsame, o', hopeners, hat⟩ := hyields
    exact ⟨hsame, o', hopeners.trans ho, hs.along hlevel hat hopeners⟩
  have hnext : ∀ s, StandsIn rs levels (.beginWord :: openers) [] s →
      s.tally.cursor.current.kind = .semicolon → ∃ o, s.At rs o [] ∧ ∀ c,
        s.Level rs (s.step c) → (s.step c).At rs (o.past .semicolon) (o.announced .semicolon) →
          StandsIn rs levels (.beginWord :: openers) [.statement] (s.step c) := by
    rintro s ⟨o, ho, hs⟩ _
    refine ⟨o, hs.place, fun c hlevel hat => ⟨o.past .semicolon, ho, hs.along hlevel ?_ rfl⟩⟩
    rwa [announced_semicolon_of_compound ho] at hat
  have hne : Token.Kind.semicolon ≠ .eof ∧ Token.Kind.semicolon ≠ .beginWord := ⟨nofun, nofun⟩
  have hlist := FollowsAt.separated hne (fun _ hs => hs.sound) hone hnext ⟨o, ho, hs⟩
  rw [statements_eq]
  refine hlist.bind fun as bs t _ hlevel hQ => ?_
  obtain ⟨rfl, o', ho', ht⟩ := hQ
  refine .peek_bind ?_
  split
  · exact .fail hlevel.sound ht.place.told ⟨_, rfl, rfl⟩
  · exact .value hlevel.sound ⟨rfl, o', ho'.trans ho.symm, ht.place⟩

/-- A compound follows if the statements one level further down do. -/
theorem compoundWith_follows {inner : Option (Reader (List Statement))}
    {inner' : Option (Counting (List Statement))}
    (hcompound : Reader.compoundWith inner = Reader.compound levels)
    (hinner : Paired (fun k m n => Follows k InCompound [.statement] LeavesOpen m n Same) levels
      inner inner') :
    Follows levels (fun _ => True) [] EndsBody (Reader.compoundWith inner)
      (Counting.compoundWith inner') Same := by
  rintro rs s o - hs
  obtain ⟨v, -, howes⟩ := hs.place
  have hreads : Reads (Reader.compoundWith inner)
      (Reader.Keeps levels Compound.values IsCompound) := hcompound ▸ compound_reads levels
  refine .call (fun e d h => ⟨e, d, hs.levels_eq ▸ hcompound ▸ h⟩) (fun a b c height hm _ =>
    hasRead_of_keeps hreads (fun _ _ _ => .compound) howes.onStream hm) ?_
  refine .begin_bind (hs.sound_calling .compound) hs.place fun b c hlevel₁ hat₁ => ?_
  have hopens := hs.opens hlevel₁.sound hlevel₁.depth hat₁ rfl
  have hstatements := FollowsAt.within hopens ⟨o.openers, rfl⟩ hinner
  refine hstatements.bind fun ss ss' t _ hlevel₂ hyields => ?_
  obtain ⟨hsame, o', hopeners, hat₂⟩ := hyields
  obtain rfl := hsame
  refine .require_bind hlevel₂.sound hat₂ ⟨nofun, nofun⟩ fun _ c hlevel₃ hat₃ => ?_
  refine .spanFrom_bind hlevel₃.sound hat₃ fun span c hlevel₄ hat₄ => ?_
  refine .value hlevel₄.sound ⟨rfl, _, ?_, hat₄⟩
  rw [EndsBody, past_endWord, hopeners]
  rfl

/-- **Compounds follow**, in as many levels as are left. -/
theorem compound_follows (levels : Nat) :
    Follows levels (fun _ => True) [] EndsBody (Reader.compound levels) (Counting.compound levels)
      Same := by
  induction levels with
  | zero => exact compoundWith_follows rfl .none
  | succ levels ih =>
      exact compoundWith_follows rfl
        (.some (statements_follows (statement_follows ih (expression_follows levels))))

/-! ### Declarations -/

/-- What declarations may stand in. -/
def Declares (openers : List Token.Kind) : Prop :=
  Settled openers ∧ openers.head? ≠ some .beginWord

/-- Where a block may begin. -/
def BeforeBlock (o : Enclosing) : Prop := Declares o.openers

/-- Behind a procedure's name declarations may follow. -/
theorem declares_procedure (openers : List Token.Kind) : Declares (.procedureWord :: openers) :=
  ⟨settled_cons rfl openers, nofun⟩

/-- Behind the name of what is declared a semicolon announces its block, elsewhere among
declarations nothing. -/
theorem Declares.announced_semicolon {openers : List Token.Kind} (h : Declares openers)
    (behindName : Bool) :
    announced ⟨openers, behindName⟩ .semicolon = if behindName then [.block] else [] := by
  rw [announced, if_neg h.2]

section Variables

variable {openers : List Token.Kind}

/-- The variables of a type follow, and make no calls. -/
theorem variableList_follows (ho : Declares openers)
    (hs : StandsIn rs levels openers [] s) :
    FollowsAt rs s Reader.variableList Counting.variableList fun ds ds' t =>
      ds' = ds ∧ StandsIn rs levels openers [] t := by
  have hone : ∀ s, StandsIn rs levels openers [] s →
      FollowsAt rs s (name .variableName) (liftM (name .variableName)) fun a b t =>
        b = a ∧ Stands rs levels ⟨openers, true⟩ [] t := by
    rintro s ⟨o, rfl, h⟩
    have hname : FollowsAt rs s (name .variableName >>= pure)
        (liftM (name .variableName) >>= pure) fun a b t =>
          b = a ∧ Stands rs levels ⟨o.openers, true⟩ [] t := by
      refine .name_bind h.sound h.place fun n c hlevel hat => ?_
      rw [endOperand_of_settled ho.1] at hat
      exact .value hlevel.sound ⟨rfl, h.along hlevel hat rfl⟩
    rwa [bind_pure, bind_pure] at hname
  have hnext : ∀ s, Stands rs levels ⟨openers, true⟩ [] s →
      s.tally.cursor.current.kind = .comma → ∃ o, s.At rs o [] ∧ ∀ c,
        s.Level rs (s.step c) → (s.step c).At rs (o.past .comma) (o.announced .comma) →
          StandsIn rs levels openers [] (s.step c) :=
    fun s hs _ => ⟨_, hs.place, fun c hlevel hat => ⟨_, rfl, hs.along hlevel hat rfl⟩⟩
  have hne : Token.Kind.comma ≠ .eof ∧ Token.Kind.comma ≠ .beginWord := ⟨nofun, nofun⟩
  have hlist := FollowsAt.separated hne (fun _ hs => hs.sound) hone hnext hs
  rw [variableList_eq]
  refine hlist.bind fun names names' s₁ _ _ hQ => ?_
  obtain ⟨rfl, hs₁⟩ := hQ
  refine .require_bind hs₁.sound hs₁.place ⟨nofun, nofun⟩ fun _ c hlevel₂ hat₂ => ?_
  refine .typeName_bind hlevel₂.sound hat₂ fun type c hlevel₃ hat₃ => ?_
  refine .require_bind hlevel₃.sound hat₃ ⟨nofun, nofun⟩ fun _ c hlevel₄ hat₄ => ?_
  have hat₄' : Counted.At rs ⟨openers, false⟩ [] _ :=
    ho.announced_semicolon false ▸ hat₄
  have hlevel := hlevel₂.trans (hlevel₃.trans hlevel₄)
  exact .value hlevel₄.sound ⟨rfl, _, rfl, hs₁.along hlevel hat₄' rfl⟩

/-- So does the part of a block that declares them. -/
theorem variablePart_follows (ho : Declares openers)
    (hs : StandsIn rs levels openers [] s) :
    FollowsAt rs s Reader.variablePart Counting.variablePart fun ds ds' t =>
      ds' = ds ∧ StandsIn rs levels openers [] t := by
  refine .peek_bind ?_
  split
  · next hk =>
      obtain ⟨o, hopeners, hs⟩ := hs
      refine .take_bind hs.sound hs.place hk ⟨nofun, nofun⟩ fun c hlevel hat => ?_
      have hs₁ : StandsIn rs levels openers [] (s.step c) :=
        ⟨o.past .varWord, hopeners, hs.along hlevel hat rfl⟩
      have hstep : ∀ s ds (x : Unit), StandsIn rs levels openers [] s →
          only .identifier s.tally.cursor.current.kind = some x →
            FollowsAt rs s (Reader.listedStep Reader.variableList x ds)
              (do return ds ++ (← Counting.variableList)) fun es es' t =>
                es' = es ∧ StandsIn rs levels openers [] t := by
        intro s ds x hs _
        refine (variableList_follows ho hs).bind fun es es' t _ hlevel hQ => ?_
        obtain ⟨rfl, ht⟩ := hQ
        exact .value hlevel.sound ⟨rfl, ht⟩
      refine (variableList_follows ho hs₁).bind fun ds ds' t _ _ hQ => ?_
      obtain ⟨rfl, ht⟩ := hQ
      exact .whileAt (fun _ hs => hs.sound) hstep ht
  · exact .value hs.sound ⟨rfl, hs⟩

end Variables

/-- A procedure follows if the blocks one level further down do. -/
theorem procedure_follows {inner : Option (Reader Block)} {inner' : Option (Counting Block)}
    (hinner : Paired (fun k m n => Follows k BeforeBlock [.block] EndsBody m n Same) levels
      inner inner')
    (hk : s.tally.cursor.current.kind = .procedureWord) (ho : Declares o.openers)
    (hs : Stands rs levels o [] s) :
    FollowsAt rs s (Reader.procedure inner) (Counting.procedure inner') fun d d' t =>
      d' = d ∧ StandsIn rs levels o.openers [] t := by
  have hopened := declares_procedure o.openers
  refine .take_bind hs.sound hs.place hk ⟨nofun, nofun⟩ fun c hlevel₁ hat₁ => ?_
  refine .name_bind hlevel₁.sound hat₁ fun n c hlevel₂ hat₂ => ?_
  have hat₂' : Counted.At rs ⟨.procedureWord :: o.openers, true⟩ [] _ :=
    endOperand_of_settled hopened.1 ▸ hat₂
  refine .require_bind hlevel₂.sound hat₂' ⟨nofun, nofun⟩ fun _ c hlevel₃ hat₃ => ?_
  have hat₃' : Counted.At rs ⟨.procedureWord :: o.openers, false⟩ [.block] _ :=
    hopened.announced_semicolon true ▸ hat₃
  have hlevel := hlevel₁.trans (hlevel₂.trans hlevel₃)
  have hopens := hs.opens hlevel.sound hlevel.depth hat₃' rfl
  refine (FollowsAt.within hopens hopened hinner).bind fun b b' s₄ _ hlevel₄ hyields => ?_
  obtain ⟨hsame, _, rfl, hat₄⟩ := hyields
  obtain rfl := hsame
  refine .spanFrom_bind hlevel₄.sound hat₄ fun span c hlevel₅ hat₅ => ?_
  refine .require_bind hlevel₅.sound hat₅ ⟨nofun, nofun⟩ fun _ c hlevel₆ hat₆ => ?_
  have hat₆' : Counted.At rs ⟨o.openers, false⟩ [] _ :=
    ho.announced_semicolon false ▸ hat₆
  have hlevel' := hlevel.trans (hlevel₄.trans (hlevel₅.trans hlevel₆))
  exact .value hlevel₆.sound ⟨rfl, ⟨o.openers, false⟩, rfl, hs.along hlevel' hat₆' rfl⟩

/-- A block follows if its body and the blocks one level further down do. -/
theorem blockWith_follows {body : Counting Compound} {inner : Option (Reader Block)}
    {inner' : Option (Counting Block)}
    (hblock : Reader.blockWith (Reader.compound levels) inner = Reader.block levels)
    (hbody : Follows levels (fun _ => True) [] EndsBody (Reader.compound levels) body Same)
    (hinner : Paired (fun k m n => Follows k BeforeBlock [.block] EndsBody m n Same) levels
      inner inner') :
    Follows levels BeforeBlock [.block] EndsBody
      (Reader.blockWith (Reader.compound levels) inner) (Counting.blockWith body inner') Same := by
  refine Follows.callOther (hblock ▸ block_reads levels) (fun _ _ _ => .block)
    (fun c e d h => ⟨e, d, hblock ▸ h⟩) ?_
  rintro rs s o ho hs
  have hvars := variablePart_follows ho ⟨o, rfl, hs⟩
  refine hvars.bind fun vars vars' s₁ _ _ hQ => ?_
  obtain ⟨rfl, hs₁⟩ := hQ
  have hstep : ∀ s as (x : Unit), StandsIn rs levels o.openers [] s →
      only .procedureWord s.tally.cursor.current.kind = some x →
        FollowsAt rs s (Reader.repeatedStep (Reader.procedure inner) x as)
          (do return as.push (← Counting.procedure inner')) fun bs bs' t =>
            bs' = bs ∧ StandsIn rs levels o.openers [] t := by
    rintro s as x ⟨o', ho', hs⟩ htest
    have hprocedure := procedure_follows hinner (eq_of_only htest) (ho' ▸ ho) hs
    refine hprocedure.bind fun a b t _ hlevel hQ => ?_
    obtain ⟨rfl, ht⟩ := hQ
    exact .value hlevel.sound ⟨rfl, ho' ▸ ht⟩
  have hloop : FollowsAt rs s₁ (Reader.repeated .procedureWord (Reader.procedure inner)) _ _ :=
    .whileAt (fun _ hs => hs.sound) hstep hs₁
  refine hloop.bind fun procedures procedures' s₂ _ _ hQ => ?_
  obtain ⟨rfl, o', ho', hs₂⟩ := hQ
  refine (hbody rs s₂ o' trivial hs₂).bind fun c c' s₃ _ hlevel₃ hyields => ?_
  obtain ⟨hsame, _, rfl, hat₃⟩ := hyields
  obtain rfl := hsame
  exact .value hlevel₃.sound ⟨rfl, _, by rw [EndsBody, ho'], hat₃⟩

/-- **Blocks follow**, in as many levels as are left. -/
theorem block_follows (levels : Nat) :
    Follows levels BeforeBlock [.block] EndsBody (Reader.block levels) (Counting.block levels)
      Same := by
  induction levels with
  | zero => exact blockWith_follows rfl (compound_follows 0) .none
  | succ levels ih => exact blockWith_follows rfl (compound_follows (levels + 1)) (.some ih)

/-! ### Programs -/

/-- A program that is read with counters is the one read without, with all calls made up to the end
of the text. -/
theorem wholeProgram_follows (hs : Stands rs nestingLimit ⟨[], false⟩ [] s) :
    FollowsAt rs s Reader.wholeProgram Counting.wholeProgram fun p q t =>
      q = p ∧ ∃ o, t.At rs o [] := by
  have hopened : BeforeBlock ⟨[], false⟩ := ⟨rfl, nofun⟩
  have hprogram : FollowsAt rs s Reader.program Counting.program fun p q t =>
      q = p ∧ ∃ o, t.At rs o [] := by
    refine .require_bind hs.sound hs.place ⟨nofun, nofun⟩ fun _ c hlevel₁ hat₁ => ?_
    refine .name_bind hlevel₁.sound hat₁ fun n c hlevel₂ hat₂ => ?_
    refine .require_bind hlevel₂.sound hat₂ ⟨nofun, nofun⟩ fun _ c hlevel₃ hat₃ => ?_
    have hs₃ : Stands rs nestingLimit ⟨[], false⟩ [.block] _ :=
      hs.along (hlevel₁.trans (hlevel₂.trans hlevel₃)) hat₃ rfl
    have hblock := block_follows nestingLimit rs _ _ hopened hs₃
    refine hblock.bind fun b b' s₄ _ hlevel₄ hyields => ?_
    obtain ⟨hsame, _, rfl, hat₄⟩ := hyields
    obtain rfl := hsame
    refine .require_bind hlevel₄.sound hat₄ ⟨nofun, nofun⟩ fun _ c hlevel₅ hat₅ => ?_
    refine .spanFrom_bind hlevel₅.sound hat₅ fun span c hlevel₆ hat₆ => ?_
    exact .value hlevel₆.sound ⟨rfl, _, hat₆⟩
  refine hprogram.bind fun p q t _ hlevel hQ => ?_
  obtain ⟨rfl, o, hat⟩ := hQ
  refine .peek_bind ?_
  split
  · exact .value hlevel.sound ⟨rfl, o, hat⟩
  · exact .fail hlevel.sound hat.told ⟨_, rfl, rfl⟩

/-- Before the first token nothing is open, and no call is due. -/
theorem stands_start {t : Token} {rest : List Pulled} (h : IsStream (.ok t :: rest)) :
    Stands (.ok t :: rest) nestingLimit ⟨[], false⟩ [] (.start t rest) where
  sound  := ⟨Nat.zero_le _, List.forall_mem_singleton.2 (Nat.zero_le _)⟩
  place  := by
    refine ⟨[], rfl, ⟨h, rfl, fun u hu => ?_⟩, rfl, List.nil_prefix⟩
    obtain rfl := List.prefix_nil.1 hu
    exact ⟨_, .head _, rfl⟩
  depth  := rfl
  levels := Nat.zero_add nestingLimit

namespace Program

/-- The records tell how results are read, with the calls returned or still open. -/
theorem countingOfResults_told {rs : List Pulled} (h : IsStream rs) :
    (countingOfResults rs).1 = (ofResults rs).mapError .fault ∧
      (∀ r ∈ (countingOfResults rs).2, r.Exact rs) ∧
      ∃ v r, Told rs v r (readFrom rs).2 (countingOfResults rs).2 ∧
        (∀ p, ofResults rs = .ok p → called rs (countingOfResults rs).2 = callsBehind v ∧
          Leaves (countingOfResults rs).2 []) ∧
        ∀ e, ofResults rs = .error e → ∃ opened, Leaves (countingOfResults rs).2 opened ∧
          ∀ call ∈ opened, call.1.FailsAt (nestingLimit - call.2.depth) call.2.cursor := by
  match rs, h with
  | .error e :: rest, _ =>
      simp only [countingOfResults, ofResults, readFrom]
      refine ⟨rfl, List.forall_mem_nil _, [], .error e, ⟨rfl, fun u t us hu hle => ?_, ?_, ?_⟩,
        by rintro _ ⟨⟩, fun _ _ => ⟨[], .start, List.forall_mem_nil _⟩⟩
      · obtain rfl := List.length_eq_zero_iff.1 (Nat.le_zero.1 hle)
        cases hu
      · exact List.nil_prefix
      · exact List.nil_prefix
  | .ok t :: rest,    h =>
      have hfollows := wholeProgram_follows (stands_start h)
      have hstart : Leaves (Counted.start t rest).records [] := .reached _ .start
      simp only [countingOfResults, ofResults, readFrom]
      cases hm : Reader.wholeProgram ⟨t, rest, ⟨0, 0⟩⟩ with
      | ok p c =>
          obtain ⟨q, u, hn, rfl, hlevel, rfl, o, v, -, howes⟩ := hfollows.ok p c hm
          simp only [hn]
          exact ⟨rfl, hlevel.sound.records, v, _, howes.told_here,
            fun _ _ => ⟨howes.called_eq, hlevel.closed _ hstart⟩, by rintro _ ⟨⟩⟩
      | error e c =>
          obtain ⟨u, hn, hhalts⟩ := hfollows.error e c hm
          simp only [hn]
          obtain ⟨v, r, htold⟩ := hhalts.told
          obtain ⟨more, hleaves, hmore⟩ := hhalts.opened _ hstart
          rw [List.append_nil] at hleaves
          exact ⟨rfl, hhalts.sound.records, v, r, htold, by rintro _ ⟨⟩,
            fun _ _ => ⟨more, hleaves, hmore⟩⟩

/-- **Both counters are exact.**  A text is read with counters to the same program or the same fault
as without: no level is left without having been entered, and none is missing.  In every state on
record the depth is at most the nesting limit.  At every call of a rule it is the number of
constructs that enclose the place in the text, and at the return it is the same again; and where an
expression, a term or a factor returns, the height is that of its tree, at most the limit too.  The
record is complete: every token that is looked at is, in a state on record; the calls are those that
the tokens make due; and each of them returns, unless what it reads is at fault. -/
theorem readCounting_exact (s : String) :
    (readCounting s).1 = (read s).mapError .fault ∧
      (∀ r ∈ (readCounting s).2, r.Exact (Input.ofString s).results) ∧
      ∃ v r after, readFrom (Input.ofString s).results = (read s, after) ∧
        Told (Input.ofString s).results v r after (readCounting s).2 ∧
        (∀ p, read s = .ok p →
          called (Input.ofString s).results (readCounting s).2 = callsBehind v ∧
            Leaves (readCounting s).2 []) ∧
        ∀ e, read s = .error e → ∃ opened, Leaves (readCounting s).2 opened ∧
          ∀ call ∈ opened, call.1.FailsAt (nestingLimit - call.2.depth) call.2.cursor := by
  obtain ⟨hread, hexact, v, r, htold, hcalls⟩ :=
    countingOfResults_told (Input.ofString s).isStream_results
  exact ⟨hread, hexact, v, r, _, Prod.ext (readFrom_fst _) rfl, htold, hcalls⟩

/-- A procedure with an empty body, and a sign before parentheses. -/
def countedSource : String := "PROGRAM T; PROCEDURE P; BEGIN END; BEGIN x := -(1) END."

/-- Parentheses that are not closed. -/
def unclosedSource : String := "PROGRAM T; BEGIN x := (1 END."

theorem scan_countedSource : scan countedSource = .ok [
    ⟨.programWord, "PROGRAM", ⟨0, 7⟩⟩, ⟨.identifier, "T", ⟨8, 1⟩⟩, ⟨.semicolon, ";", ⟨9, 1⟩⟩,
    ⟨.procedureWord, "PROCEDURE", ⟨11, 9⟩⟩, ⟨.identifier, "P", ⟨21, 1⟩⟩,
    ⟨.semicolon, ";", ⟨22, 1⟩⟩, ⟨.beginWord, "BEGIN", ⟨24, 5⟩⟩, ⟨.endWord, "END", ⟨30, 3⟩⟩,
    ⟨.semicolon, ";", ⟨33, 1⟩⟩, ⟨.beginWord, "BEGIN", ⟨35, 5⟩⟩, ⟨.identifier, "x", ⟨41, 1⟩⟩,
    ⟨.assign, ":=", ⟨43, 2⟩⟩, ⟨.minus, "-", ⟨46, 1⟩⟩, ⟨.leftParen, "(", ⟨47, 1⟩⟩,
    ⟨.integerConst, "1", ⟨48, 1⟩⟩, ⟨.rightParen, ")", ⟨49, 1⟩⟩, ⟨.endWord, "END", ⟨51, 3⟩⟩,
    ⟨.dot, ".", ⟨54, 1⟩⟩, .eof 55] := by decide +kernel

theorem scan_unclosedSource : scan unclosedSource = .ok [
    ⟨.programWord, "PROGRAM", ⟨0, 7⟩⟩, ⟨.identifier, "T", ⟨8, 1⟩⟩, ⟨.semicolon, ";", ⟨9, 1⟩⟩,
    ⟨.beginWord, "BEGIN", ⟨11, 5⟩⟩, ⟨.identifier, "x", ⟨17, 1⟩⟩, ⟨.assign, ":=", ⟨19, 2⟩⟩,
    ⟨.leftParen, "(", ⟨22, 1⟩⟩, ⟨.integerConst, "1", ⟨23, 1⟩⟩, ⟨.endWord, "END", ⟨25, 3⟩⟩,
    ⟨.dot, ".", ⟨28, 1⟩⟩, .eof 29] := by decide +kernel

/-- The program that the first of these texts is. -/
def countedProgram : Program :=
  ⟨"T", ⟨[.procedure "P" [] ⟨[.noop], ⟨24, 9⟩⟩ ⟨11, 22⟩],
    ⟨[.assign "x" ⟨41, 1⟩ (.unary .minus (.num (.int 1) ⟨48, 1⟩) ⟨46, 3⟩) ⟨41, 8⟩],
      ⟨35, 19⟩⟩⟩, ⟨0, 55⟩⟩

theorem read_countedSource : read countedSource = .ok countedProgram := by
  rw [read, results_of_scan scan_countedSource]
  rfl

theorem read_unclosedSource : read unclosedSource =
    .error ⟨.grammar (.expected .closingParen ⟨.endWord, "END", ⟨25, 3⟩⟩), ⟨25, 3⟩⟩ := by
  rw [read, results_of_scan scan_unclosedSource]
  rfl

/-- The calls on record, in order, each with its depth. -/
def enteredAt (records : List Record) : List (Rule × Nat) :=
  records.reverse.filterMap fun
    | .entered rule now => some (rule, now.depth)
    | _                 => none

/-- The returns on record, in order, each with the depths at the call and at the return, and with
the height. -/
def returnedAt (records : List Record) : List (Rule × Nat × Nat × Nat) :=
  records.reverse.filterMap fun
    | .returned rule entry exit _ => some (rule, entry.depth, exit.depth, exit.height)
    | _                           => none

/-- Every call in the first text returns, to the depth it was made at.  In the second one the
closing parenthesis is missing, and the calls around it stay open. -/
theorem readCounting_exact_example :
    (readCounting countedSource).1 = .ok countedProgram ∧
      called (Input.ofString countedSource).results (readCounting countedSource).2 =
        [(.block, 3), (.block, 6), (.compound, 6), (.statement, 7), (.compound, 9),
          (.statement, 10), (.expression, 12), (.term, 12), (.factor, 12), (.factor, 13),
          (.expression, 14), (.term, 14), (.factor, 14)] ∧
      enteredAt (readCounting countedSource).2 =
        [(.block, 0), (.block, 1), (.compound, 1), (.statement, 2), (.compound, 0),
          (.statement, 1), (.expression, 1), (.term, 1), (.factor, 1), (.factor, 2),
          (.expression, 3), (.term, 3), (.factor, 3)] ∧
      returnedAt (readCounting countedSource).2 =
        [(.statement, 2, 2, 0), (.compound, 1, 1, 0), (.block, 1, 1, 0), (.factor, 3, 3, 1),
          (.term, 3, 3, 1), (.expression, 3, 3, 1), (.factor, 2, 2, 1), (.factor, 1, 1, 2),
          (.term, 1, 1, 2), (.expression, 1, 1, 2), (.statement, 1, 1, 2), (.compound, 0, 0, 2),
          (.block, 0, 0, 2)] ∧
      Leaves (readCounting countedSource).2 [] ∧
    called (Input.ofString unclosedSource).results (readCounting unclosedSource).2 =
        [(.block, 3), (.compound, 3), (.statement, 4), (.expression, 6), (.term, 6),
          (.factor, 6), (.expression, 7), (.term, 7), (.factor, 7)] ∧
      returnedAt (readCounting unclosedSource).2 =
        [(.factor, 2, 2, 1), (.term, 2, 2, 1), (.expression, 2, 2, 1)] ∧
      ∃ opened, Leaves (readCounting unclosedSource).2 opened ∧ opened.map Prod.fst =
        [.factor, .term, .expression, .statement, .compound, .block] := by
  obtain ⟨hcounted, -, _, _, _, -, -, hreturned, -⟩ := readCounting_exact countedSource
  obtain ⟨-, -, _, _, _, -, -, -, hstopped⟩ := readCounting_exact unclosedSource
  obtain ⟨opened, hopened, -⟩ := hstopped _ read_unclosedSource
  refine ⟨?_, ?_, ?_, ?_, (hreturned _ read_countedSource).2, ?_, ?_, opened, hopened, ?_⟩
  · rw [hcounted, read_countedSource]
    rfl
  · rw [readCounting, results_of_scan scan_countedSource]
    decide +kernel
  · rw [readCounting, results_of_scan scan_countedSource]
    decide +kernel
  · rw [readCounting, results_of_scan scan_countedSource]
    decide +kernel
  · rw [readCounting, results_of_scan scan_unclosedSource]
    decide +kernel
  · rw [readCounting, results_of_scan scan_unclosedSource]
    decide +kernel
  · rw [hopened.rules_eq, readCounting, results_of_scan scan_unclosedSource]
    decide +kernel

end Program

end MiniPascal
