import MiniPascal.Token

/-!
# Proofs — Grammar — Enclosing

Where a place in a program stands, as told by the tokens before it.  A procedure, a compound, a
parenthesis and a sign before an operand begin with a token of their own; a parenthesis and a
compound also end with one, a procedure ends with the compound that is its body, and a sign with its
operand.  So going over the tokens from the left with a stack is enough to know what encloses a
place (`Enclosing.behind`), whether or not the tokens go on to form a program.  The same walk tells
which rules of the grammar begin where (`Enclosing.callsBehind`): a compound with its own word, any
other rule behind a token that announces it.
-/

namespace MiniPascal

/-- What encloses a place: the tokens that the constructs open there begin with, the innermost
first.  Behind an operand or another name a sign is an operator, in any other place it begins a
construct. -/
structure Enclosing where
  openers       : List Token.Kind
  behindOperand : Bool
deriving DecidableEq, Repr

namespace Enclosing

/-- The kinds of signs. -/
def isSign : Token.Kind → Bool
  | .plus | .minus => true
  | _              => false

/-- At the end of an operand the signs before it end too. -/
def endOperand (openers : List Token.Kind) : Enclosing := ⟨openers.dropWhile isSign, true⟩

/-- At the end of the body of a procedure the procedure ends too. -/
def endBody : List Token.Kind → List Token.Kind
  | .procedureWord :: openers => openers
  | openers                   => openers

/-- What encloses the place behind one token more. -/
def past (o : Enclosing) (kind : Token.Kind) : Enclosing :=
  match kind with
  | .procedureWord | .beginWord | .leftParen  => ⟨kind :: o.openers, false⟩
  | .plus | .minus                            =>
      ⟨if o.behindOperand then o.openers else kind :: o.openers, false⟩
  | .identifier | .integerConst | .realConst  => endOperand o.openers
  | .rightParen                               => endOperand o.openers.tail
  | .endWord                                  => ⟨endBody o.openers.tail, false⟩
  | _                                         => ⟨o.openers, false⟩

/-- What encloses the place behind more tokens. -/
def after (o : Enclosing) (w : List Token) : Enclosing := w.foldl (fun o t => o.past t.kind) o

/-- What encloses the place behind the first tokens of a text. -/
def behind (w : List Token) : Enclosing := after ⟨[], false⟩ w

/-- How many constructs enclose a place. -/
def count (o : Enclosing) : Nat := o.openers.length

@[simp] theorem after_nil (o : Enclosing) : o.after [] = o := rfl

@[simp] theorem after_cons (o : Enclosing) (t : Token) (w : List Token) :
    o.after (t :: w) = (o.past t.kind).after w := rfl

/-- What encloses a place does not depend on where the walk is broken off. -/
theorem after_append (o : Enclosing) (v w : List Token) : o.after (v ++ w) = (o.after v).after w :=
  List.foldl_append

/-- The word that ends a compound ends the procedure around it too. -/
theorem past_endWord (o : Enclosing) : o.past .endWord = ⟨endBody o.openers.tail, false⟩ := rfl

theorem behind_concat (w : List Token) (t : Token) : behind (w ++ [t]) = (behind w).past t.kind :=
  after_append _ w [t]

/-! ### Signs in front of a place -/

/-- No sign is waiting for its operand. -/
def Settled (openers : List Token.Kind) : Prop := openers.dropWhile isSign = openers

/-- Behind the beginning of anything but a sign no sign is waiting. -/
theorem settled_cons {k : Token.Kind} (h : isSign k = false) (openers : List Token.Kind) :
    Settled (k :: openers) := by
  rw [Settled, List.dropWhile_cons, h]
  rfl

/-- Where no sign is waiting, an operand ends nothing but itself. -/
theorem endOperand_of_settled {openers : List Token.Kind} (h : Settled openers) :
    endOperand openers = ⟨openers, true⟩ := by
  rw [endOperand, h]

/-- A sign ends where the signs before it end. -/
theorem endOperand_cons_sign {k : Token.Kind} (h : isSign k = true) (openers : List Token.Kind) :
    endOperand (k :: openers) = endOperand openers := by
  rw [endOperand, List.dropWhile_cons, h]
  rfl

end Enclosing

/-! ### Calls -/

/-- The rules of the grammar that are read by calls of their own. -/
inductive Rule where
  | block | compound | statement | expression | term | factor
deriving DecidableEq, Repr

/-- The rules that begin with a token of a kind. -/
def Rule.beginningWith : Token.Kind → List Rule
  | .beginWord => [.compound]
  | _          => []

namespace Enclosing

/-- The rules that begin behind a token, the outermost first.  A semicolon announces a statement in
a compound, and a block behind the name of a program or a procedure; behind a type or a procedure it
announces nothing. -/
def announced (o : Enclosing) : Token.Kind → List Rule
  | .beginWord                => [.statement]
  | .semicolon                =>
      if o.openers.head? = some .beginWord then [.statement]
      else if o.behindOperand then [.block]
      else []
  | .assign | .leftParen      => [.expression, .term, .factor]
  | .plus | .minus            => if o.behindOperand then [.term, .factor] else [.factor]
  | .star | .divWord | .slash => [.factor]
  | _                         => []

/-- A semicolon in a compound announces a statement. -/
theorem announced_semicolon_of_compound {o : Enclosing} {openers : List Token.Kind}
    (h : o.openers = .beginWord :: openers) : o.announced .semicolon = [.statement] := by
  rw [announced, h]
  rfl

/-- The calls that are due on the way over tokens, in order, each with how many tokens of the text
stand before it; there are `n` before the first of these. -/
def callsOver (o : Enclosing) (n : Nat) : List Token → List (Rule × Nat)
  | []     => []
  | t :: w =>
      (Rule.beginningWith t.kind).map (·, n) ++ (o.announced t.kind).map (·, n + 1) ++
        callsOver (o.past t.kind) (n + 1) w

/-- The calls that are due on the way over the first tokens of a text. -/
def callsBehind (w : List Token) : List (Rule × Nat) := callsOver ⟨[], false⟩ 0 w

/-- Calls are due on one part of the way and then on the other. -/
theorem callsOver_append (o : Enclosing) (n : Nat) (v w : List Token) :
    o.callsOver n (v ++ w) = o.callsOver n v ++ (o.after v).callsOver (n + v.length) w := by
  induction v generalizing o n with
  | nil => rfl
  | cons t v ih =>
      rw [List.cons_append, callsOver, callsOver, ih, ← List.append_assoc, Nat.add_right_comm]
      rfl

/-- One token more makes the calls due that begin with it, and those that it announces. -/
theorem callsBehind_concat (w : List Token) (t : Token) :
    callsBehind (w ++ [t]) = callsBehind w ++ (Rule.beginningWith t.kind).map (·, w.length) ++
      ((behind w).announced t.kind).map (·, w.length + 1) := by
  rw [callsBehind, callsOver_append, Nat.zero_add, callsOver, callsOver, List.append_nil,
    ← List.append_assoc]
  rfl

end Enclosing

end MiniPascal
