import MiniPascal.Proofs.Reading.Counting
import MiniPascal.Proofs.Reading.Path

/-!
# Proofs — Reading — Records

What the records of a counting reader are to tell, given the results `rs` that are read.  Each
record on its own is to be exact (`Record.Exact`): the depth is the number of constructs that
enclose the place, the height that of the expression.  Together they are to be complete
(`Told`): every token that is looked at is looked at in a state on record, the calls on record are
those that the tokens make due, and every return closes the call made last (`Leaves`).  On the way
the calls that are due at a place are made one after another; what has not been made yet is owed
(`Counted.Owes`), and a token is consumed only where nothing is.
-/

namespace MiniPascal

open Reader Enclosing

variable {α : Type} {rs : List Pulled} {v w : List Token} {c d : Cursor}

/-! ### Places -/

namespace Cursor

/-- The cursor stands behind the tokens `w`, with which `rs` begins. -/
def Behind (rs : List Pulled) (w : List Token) (c : Cursor) : Prop :=
  rs = w.map .ok ++ .ok c.current :: c.rest

/-- How many tokens of `rs` the cursor stands behind. -/
def place (rs : List Pulled) (c : Cursor) : Nat := rs.length - (c.rest.length + 1)

/-- Behind so many tokens stands the cursor. -/
theorem Behind.place_eq (h : c.Behind rs w) : c.place rs = w.length := by
  rw [place, h, List.length_append, List.length_map, List.length_cons, Nat.add_sub_cancel]

/-- On a path the tokens of it come to lie behind the cursor. -/
theorem Behind.along (h : c.Behind rs v) (hw : c.Path w d) : d.Behind rs (v ++ w) := by
  rw [Behind, h, hw.ahead_eq, List.map_append, List.append_assoc]

end Cursor

/-- Of tokens with which the same results begin, the fewer begin the more. -/
theorem prefix_of_map_ok {u : List Token} {us vs : List Pulled} (hu : rs = u.map .ok ++ us)
    (hv : rs = v.map .ok ++ vs) (hle : u.length ≤ v.length) : u <+: v := by
  have hmap : u.map (Except.ok : Token → Pulled) <+: v.map .ok :=
    List.prefix_of_prefix_length_le ⟨us, hu.symm⟩ ⟨vs, hv.symm⟩
      (by rwa [List.length_map, List.length_map])
  rw [List.prefix_iff_eq_take, ← List.map_take] at hmap
  rw [List.length_map] at hmap
  rw [List.prefix_iff_eq_take]
  exact (List.map_inj_right fun _ _ => Except.ok.inj).1 hmap

/-! ### Rules -/

/-- The tokens `w` derive what a rule reads, with the expression if it reads one. -/
inductive Rule.Derives (w : List Token) : Rule → Option Expression → Prop where
  | block {b : Block} {depth : Nat} (h : IsBlock w b depth) : Derives w .block none
  | compound {c : Compound} {depth : Nat} (h : IsCompound w c depth) : Derives w .compound none
  | statement {s : Statement} {depth : Nat} (h : IsStatement w s depth) :
      Derives w .statement none
  | expression {e : Expression} {depth : Nat} (h : IsExpression w e depth) :
      Derives w .expression (some e)
  | term {e : Expression} {depth : Nat} (h : IsTerm w e depth) : Derives w .term (some e)
  | factor {e : Expression} {depth : Nat} (h : IsFactor w e depth) : Derives w .factor (some e)

/-- From `c` to `d` stand tokens that derive what a rule has read.  If that is an expression,
`height` is the height of it, and within the limit. -/
structure Rule.HasRead (rule : Rule) (c d : Cursor) (tree : Option Expression) (height : Nat) :
    Prop where
  derives : ∃ w, c.Path w d ∧ rule.Derives w tree
  height  : ∀ e ∈ tree, height = e.height ∧ e.height ≤ nestingLimit

/-- A reader meets a fault. -/
def Reader.FailsAt (c : Cursor) (m : Reader α) : Prop := ∃ e d, m c = .error e d

/-- What a rule reads where `levels` more constructs may be opened is at fault. -/
def Rule.FailsAt (levels : Nat) (c : Cursor) : Rule → Prop
  | .block      => (Reader.block levels).FailsAt c
  | .compound   => (Reader.compound levels).FailsAt c
  | .statement  => (Reader.statement (Reader.compound levels) (Reader.expression levels)).FailsAt c
  | .expression => (Reader.expression levels).FailsAt c
  | .term       => (Reader.chain Operator.ofProductKind? (Reader.factor levels)).FailsAt c
  | .factor     => (Reader.factor levels).FailsAt c

/-! ### Records one by one -/

/-- What the counters are on record.  The depth is always within the limit.  At the call of a rule
it is the number of constructs that enclose the place.  At the return it is what it was at the call,
and the height is that of the expression that the tokens since then derive, if the rule reads one.
-/
def Record.Exact (rs : List Pulled) : Record → Prop
  | .reached now                   => now.depth ≤ nestingLimit
  | .entered _ now                 =>
      now.depth ≤ nestingLimit ∧ ∃ w, now.cursor.Behind rs w ∧ now.depth = (behind w).count
  | .returned rule entry exit tree =>
      exit.depth ≤ nestingLimit ∧ exit.depth = entry.depth ∧
        rule.HasRead entry.cursor exit.cursor tree exit.height

/-! ### Records together -/

variable {records : List Record} {now : Tally} {r : Pulled} {after : List Pulled}

/-- The calls on record, in order, each with how many tokens of `rs` stand before it. -/
def called (rs : List Pulled) (records : List Record) : List (Rule × Nat) :=
  records.reverse.filterMap fun
    | .entered rule now => some (rule, now.cursor.place rs)
    | _                 => none

@[simp] theorem called_reached : called rs (.reached now :: records) = called rs records := by
  rw [called, List.reverse_cons, List.filterMap_append]
  exact List.append_nil _

@[simp] theorem called_entered (rule : Rule) :
    called rs (.entered rule now :: records) =
      called rs records ++ [(rule, now.cursor.place rs)] := by
  rw [called, List.reverse_cons, List.filterMap_append]
  rfl

@[simp] theorem called_returned (rule : Rule) (entry : Tally) (tree : Option Expression) :
    called rs (.returned rule entry now tree :: records) = called rs records := by
  rw [called, List.reverse_cons, List.filterMap_append]
  exact List.append_nil _

/-- Records, the last first, leave calls open, the innermost first: a return closes the call that
was made last. -/
inductive Leaves : List Record → List (Rule × Tally) → Prop where
  | start : Leaves [] []
  | reached {records : List Record} {opened : List (Rule × Tally)} (now : Tally)
      (h : Leaves records opened) : Leaves (.reached now :: records) opened
  | entered {records : List Record} {opened : List (Rule × Tally)} (rule : Rule) (now : Tally)
      (h : Leaves records opened) : Leaves (.entered rule now :: records) ((rule, now) :: opened)
  | returned {records : List Record} {opened : List (Rule × Tally)} {rule : Rule} {entry : Tally}
      (exit : Tally) (tree : Option Expression) (h : Leaves records ((rule, entry) :: opened)) :
      Leaves (.returned rule entry exit tree :: records) opened

/-- The rules of the calls that records leave open, the innermost first. -/
def openRules : List Record → List Rule
  | []                         => []
  | .reached _ :: records      => openRules records
  | .entered rule _ :: records => rule :: openRules records
  | .returned .. :: records    => (openRules records).tail

/-- The calls left open are found by going through the records once. -/
theorem Leaves.rules_eq {opened : List (Rule × Tally)} (h : Leaves records opened) :
    opened.map Prod.fst = openRules records := by
  induction h with
  | start => rfl
  | reached _ _ ih => exact ih
  | entered rule _ _ ih => exact congrArg (rule :: ·) ih
  | returned _ _ _ ih => exact congrArg List.tail ih

/-- The records tell all that reading came by.  The results pulled are the tokens `v` and the result
`r`, with `after` left of `rs`.  Every token among them is looked at in a state on record.  The
calls that all but the last token of `v` make due are on record; and no others are, but for those
that the last one makes due, and for that of a compound whose word is missing behind it. -/
structure Told (rs : List Pulled) (v : List Token) (r : Pulled) (after : List Pulled)
    (records : List Record) : Prop where
  pulled  : rs = v.map .ok ++ r :: after
  reached : ∀ u t us, rs = u.map .ok ++ .ok t :: us → u.length ≤ v.length →
    ∃ now, .reached now ∈ records ∧ now.cursor.Behind rs u
  begun   : callsBehind v.dropLast <+: called rs records
  only    : called rs records <+: callsBehind v ++ [(.compound, v.length)]

/-- To come to one place more does not undo what has been told. -/
theorem Told.note_reached (h : Told rs v r after records) (now : Tally) :
    Told rs v r after (.reached now :: records) where
  pulled  := h.pulled
  reached := fun u t us hu hle => by
    obtain ⟨then_, hmem, hbehind⟩ := h.reached u t us hu hle
    exact ⟨then_, .tail _ hmem, hbehind⟩
  begun   := by
    rw [called_reached]
    exact h.begun
  only    := by
    rw [called_reached]
    exact h.only

/-! ### Calls that are owed -/

namespace Counted

variable {s t : Counted} {owed : List Rule}

/-- The state with the call of a rule on record. -/
def calling (rule : Rule) (s : Counted) : Counted :=
  { s with records := .entered rule s.tally :: s.records }

/-- The state with the return of a rule on record. -/
def returning (rule : Rule) (entry : Tally) (tree : Option Expression) (s : Counted) : Counted :=
  { s with records := .returned rule entry s.tally tree :: s.records }

@[simp] theorem called_calling (rule : Rule) :
    called rs (s.calling rule).records =
      called rs s.records ++ [(rule, s.tally.cursor.place rs)] := called_entered rule

@[simp] theorem called_returning (rule : Rule) (entry : Tally) (tree : Option Expression) :
    called rs (s.returning rule entry tree).records = called rs s.records :=
  called_returned rule entry tree

@[simp] theorem called_moved (now : Tally) :
    called rs (s.moved now).records = called rs s.records := called_reached

/-- A counting reader has come past the tokens `v`, and every place up to there is on record. -/
structure IsPast (rs : List Pulled) (v : List Token) (s : Counted) : Prop where
  onStream : s.tally.cursor.OnStream
  behind   : s.tally.cursor.Behind rs v
  reached  : ∀ u, u <+: v → ∃ now, .reached now ∈ s.records ∧ now.cursor.Behind rs u

/-- A counting reader has come past the tokens `v`, and has made all calls that they make due but
`owed`, the last of them. -/
structure Owes (rs : List Pulled) (v : List Token) (owed : List Rule) (s : Counted) : Prop
    extends s.IsPast rs v where
  made   : called rs s.records ++ owed.map (·, v.length) = callsBehind v
  begun  : callsBehind v.dropLast <+: called rs s.records

/-- One record more does not undo where the reader has come to. -/
theorem IsPast.note (h : s.IsPast rs v) (r : Record) :
    IsPast rs v { s with records := r :: s.records } where
  onStream := h.onStream
  behind   := h.behind
  reached  := fun u hu => by
    obtain ⟨now, hmem, hbehind⟩ := h.reached u hu
    exact ⟨now, .tail _ hmem, hbehind⟩

/-- Counters may change where the reader stands. -/
theorem IsPast.moved (h : s.IsPast rs v) {now : Tally} (hnow : now.cursor = s.tally.cursor) :
    (s.moved now).IsPast rs v where
  onStream := hnow.symm ▸ h.onStream
  behind   := hnow.symm ▸ h.behind
  reached  := (h.note (.reached now)).reached

/-- One token more is behind the reader once it has been consumed. -/
theorem IsPast.take {u : Token} {now : Tally} (h : s.IsPast rs v)
    (hpath : s.tally.cursor.Path [u] now.cursor) : (s.moved now).IsPast rs (v ++ [u]) where
  onStream := hpath.onStream
  behind   := h.behind.along hpath
  reached  := fun w hw => by
    rcases List.prefix_concat_iff.1 hw with rfl | hw
    · exact ⟨now, .head _, h.behind.along hpath⟩
    · exact (h.note (.reached now)).reached w hw

/-- Where reading stops at the token looked at, it has told of the tokens behind it. -/
theorem IsPast.told_here (h : s.IsPast rs v)
    (hbegun : callsBehind v.dropLast <+: called rs s.records)
    (honly : called rs s.records <+: callsBehind v ++ [(.compound, v.length)]) :
    Told rs v (.ok s.tally.cursor.current) s.tally.cursor.rest s.records where
  pulled  := h.behind
  reached := fun u _ _ hu hle => h.reached u (prefix_of_map_ok hu h.behind hle)
  begun   := hbegun
  only    := honly

/-- Where reading stops as the token looked at is consumed, it has told of this token too. -/
theorem IsPast.told_fault {e : Located LexicalFault} (h : s.IsPast rs v)
    (hrest : s.tally.cursor.rest = .error e :: after)
    (hbegun : callsBehind v <+: called rs s.records)
    (honly : called rs s.records <+: callsBehind (v ++ [s.tally.cursor.current])) :
    Told rs (v ++ [s.tally.cursor.current]) (.error e) after s.records := by
  have hpulled : rs = (v ++ [s.tally.cursor.current]).map .ok ++ .error e :: after := by
    rw [List.map_append, List.append_assoc, ← hrest]
    exact h.behind
  refine ⟨hpulled, fun u t us hu hle => ?_, ?_, honly.trans (List.prefix_append _ _)⟩
  · have hprefix : u <+: v ++ [s.tally.cursor.current] := prefix_of_map_ok hu hpulled hle
    rcases List.prefix_concat_iff.1 hprefix with rfl | hv
    · -- Behind all the tokens stands the fault, and no token.
      rw [hu] at hpulled
      cases List.append_cancel_left hpulled
    · exact h.reached u hv
  · rwa [List.dropLast_concat]

/-- Where nothing is owed, all calls have been made. -/
theorem Owes.called_eq (h : s.Owes rs v []) : called rs s.records = callsBehind v :=
  (List.append_nil _).symm.trans h.made

/-- The calls made are the first of those that are due. -/
theorem Owes.called_prefix (h : s.Owes rs v owed) :
    called rs s.records <+: callsBehind v := ⟨_, h.made⟩

/-- Counters may be set with calls still owed. -/
theorem Owes.moved (h : s.Owes rs v owed) {now : Tally} (hnow : now.cursor = s.tally.cursor) :
    (s.moved now).Owes rs v owed where
  toIsPast := h.toIsPast.moved hnow
  made     := by
    rw [called_moved]
    exact h.made
  begun    := by
    rw [called_moved]
    exact h.begun

/-- A call that is owed is made. -/
theorem Owes.call {rule : Rule} (h : s.Owes rs v (rule :: owed)) :
    (s.calling rule).Owes rs v owed where
  toIsPast := h.toIsPast.note _
  made     := by
    rw [called_calling, h.behind.place_eq, List.append_assoc]
    exact h.made
  begun    := by
    rw [called_calling]
    exact h.begun.trans (List.prefix_append _ _)

/-- A return makes no call. -/
theorem Owes.return (h : s.Owes rs v owed) (rule : Rule) (entry : Tally)
    (tree : Option Expression) : (s.returning rule entry tree).Owes rs v owed where
  toIsPast := h.toIsPast.note _
  made     := by
    rw [called_returning]
    exact h.made
  begun    := by
    rw [called_returning]
    exact h.begun

/-- What a token announces is owed once it has been consumed, if the calls that begin with it have
been made before. -/
theorem IsPast.owes_take {u : Token} {now : Tally} (h : s.IsPast rs v)
    (hcalled : called rs s.records =
      callsBehind v ++ (Rule.beginningWith u.kind).map (·, v.length))
    (hpath : s.tally.cursor.Path [u] now.cursor) :
    (s.moved now).Owes rs (v ++ [u]) ((Enclosing.behind v).announced u.kind) where
  toIsPast := h.take hpath
  made     := by
    rw [called_moved, hcalled, callsBehind_concat, List.length_append]
    rfl
  begun    := by
    rw [called_moved, hcalled, List.dropLast_concat]
    exact List.prefix_append _ _

/-- Wherever a call is still owed or none is, the records tell of the tokens behind. -/
theorem Owes.told_here (h : s.Owes rs v owed) :
    Told rs v (.ok s.tally.cursor.current) s.tally.cursor.rest s.records :=
  h.toIsPast.told_here h.begun (h.called_prefix.trans (List.prefix_append _ _))

end Counted

end MiniPascal
