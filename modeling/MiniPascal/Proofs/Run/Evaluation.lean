import MiniPascal.Evaluation
import MiniPascal.Proofs.Bindings

/-!
# Proofs — Run — Evaluation

Evaluation taken apart.  An operation has a value if its operands have values and the operation on
these has one; its fault is that of the first operand that has no value, or its own.  So nodes are
evaluated operands first, and the left one before the right one (`postorder`); a fault is that of
the first node without a value (`exists_first_failing`), all of whose operands have values, and it
blames this node (`FailsAt.span_eq`).  What a part of an expression has no value for, the
whole has none for either (`exists_fault_of_part`).
-/

namespace MiniPascal

section Outcomes

variable {ε ε' α β : Type} {x : Except ε α} {k : α → Except ε β} {f : ε → ε'}

theorem outcome_bind_eq_ok {b : β} : x >>= k = .ok b ↔ ∃ a, x = .ok a ∧ k a = .ok b := by
  cases x <;> simp [bind, Except.bind]

/-- Two steps fail if the first does, or the second after it. -/
theorem outcome_bind_eq_error {e : ε} :
    x >>= k = .error e ↔ x = .error e ∨ ∃ a, x = .ok a ∧ k a = .error e := by
  cases x <;> simp [bind, Except.bind]

theorem outcome_mapError_eq_ok {a : α} : x.mapError f = .ok a ↔ x = .ok a := by
  cases x with
  | ok b => exact ⟨fun h => congrArg _ (Except.ok.inj h), fun h => congrArg _ (Except.ok.inj h)⟩
  | error e => exact ⟨nofun, nofun⟩

theorem outcome_mapError_eq_error {e' : ε'} :
    x.mapError f = .error e' ↔ ∃ e, x = .error e ∧ f e = e' := by
  constructor
  · intro h
    cases x with
    | ok a => cases h
    | error e => exact ⟨e, rfl, Except.error.inj h⟩
  · rintro ⟨e, rfl, rfl⟩
    rfl

end Outcomes

namespace Expression

variable {s : Store} {e l r : Expression} {span : Span} {n : Number} {fault : Located RuntimeFault}

theorem eval_unary_eq_ok {op : Sign} :
    (unary op e span).eval s = .ok n ↔ ∃ a, e.eval s = .ok a ∧ Number.unary op a = .ok n := by
  rw [eval, outcome_bind_eq_ok]
  simp only [outcome_mapError_eq_ok]

/-- A sign has no value if its operand has none, or it does not apply. -/
theorem eval_unary_eq_error {op : Sign} :
    (unary op e span).eval s = .error fault ↔
      e.eval s = .error fault ∨ ∃ a cause, e.eval s = .ok a ∧ Number.unary op a = .error cause ∧
        fault = ⟨.arithmetic cause, span⟩ := by
  rw [eval, outcome_bind_eq_error]
  simp only [outcome_mapError_eq_error, exists_and_left, eq_comm (b := fault)]

theorem eval_binary_eq_ok {op : Operator} :
    (binary op l r span).eval s = .ok n ↔
      ∃ a b, l.eval s = .ok a ∧ r.eval s = .ok b ∧ Number.binary op a b = .ok n := by
  rw [eval, outcome_bind_eq_ok]
  simp only [outcome_bind_eq_ok, outcome_mapError_eq_ok, exists_and_left]

/-- An operation has no value if its left operand has none, else if its right one has none, else if
it does not apply. -/
theorem eval_binary_eq_error {op : Operator} :
    (binary op l r span).eval s = .error fault ↔
      l.eval s = .error fault ∨
      (∃ a, l.eval s = .ok a ∧ r.eval s = .error fault) ∨
      ∃ a b cause, l.eval s = .ok a ∧ r.eval s = .ok b ∧ Number.binary op a b = .error cause ∧
        fault = ⟨.arithmetic cause, span⟩ := by
  rw [eval, outcome_bind_eq_error]
  simp only [outcome_bind_eq_error, outcome_mapError_eq_error, exists_and_left,
    eq_comm (b := fault), and_or_left, exists_or]

/-- A node of an expression with all that is below it. -/
inductive IsPart (part : Expression) : Expression → Prop where
  | self : IsPart part part
  | operand {op : Sign} {e : Expression} {span : Span} (h : IsPart part e) :
      IsPart part (.unary op e span)
  | left {op : Operator} {l r : Expression} {span : Span} (h : IsPart part l) :
      IsPart part (.binary op l r span)
  | right {op : Operator} {l r : Expression} {span : Span} (h : IsPart part r) :
      IsPart part (.binary op l r span)

/-- The expressions that a node makes its value of. -/
def operands : Expression → List Expression
  | .binary _ l r _ => [l, r]
  | .unary _ e _    => [e]
  | .num _ _        => []
  | .var _ _        => []

/-- A node has no value, though there is one for each of its operands. -/
structure FailsAt (s : Store) (node : Expression) (fault : Located RuntimeFault) : Prop where
  fails    : node.eval s = .error fault
  operands : ∀ e ∈ node.operands, ∃ n, e.eval s = .ok n

/-- A node that fails is a variable that is not in the store, or an operation that is refused. -/
theorem FailsAt.cases {node : Expression} (h : node.FailsAt s fault) :
    (∃ name span, node = .var name span ∧ name ∉ s.names ∧
        fault = ⟨.uninitialized name, span⟩) ∨
      (∀ name span, node ≠ .var name span) ∧
        ∃ cause, fault = ⟨.arithmetic cause, node.span⟩ := by
  obtain ⟨hfails, hoperands⟩ := h
  cases node with
  | binary op l r span =>
      obtain ⟨⟨a, ha⟩, hright⟩ := List.forall_mem_cons.1 hoperands
      obtain ⟨b, hb⟩ := List.forall_mem_singleton.1 hright
      rcases eval_binary_eq_error.1 hfails with hl | ⟨_, _, hr⟩ | ⟨_, _, cause, _, _, _, rfl⟩
      · exact nomatch ha.symm.trans hl
      · exact nomatch hb.symm.trans hr
      · exact .inr ⟨nofun, cause, rfl⟩
  | unary op e span =>
      obtain ⟨a, ha⟩ := List.forall_mem_singleton.1 hoperands
      rcases eval_unary_eq_error.1 hfails with he | ⟨_, cause, _, _, rfl⟩
      · exact nomatch ha.symm.trans he
      · exact .inr ⟨nofun, cause, rfl⟩
  | num n span => cases hfails
  | var name span =>
      rw [eval] at hfails
      split at hfails
      · cases hfails
      · next hname =>
          cases hfails
          refine .inl ⟨name, span, rfl, fun hmem => ?_, rfl⟩
          obtain ⟨n, hn⟩ := Bindings.mem_names_iff.1 hmem
          exact nomatch hname.symm.trans hn

/-- **A fault blames the node that fails.** -/
theorem FailsAt.span_eq {node : Expression} (h : node.FailsAt s fault) :
    fault.span = node.span := by
  rcases h.cases with ⟨name, span, rfl, -, rfl⟩ | ⟨-, cause, rfl⟩ <;> rfl

/-- The nodes of an expression in the order in which they are evaluated. -/
def postorder : Expression → List Expression
  | .binary op l r span => l.postorder ++ r.postorder ++ [.binary op l r span]
  | .unary op e span    => e.postorder ++ [.unary op e span]
  | .num n span         => [.num n span]
  | .var name span      => [.var name span]

/-- If an expression has a value, so have all its nodes. -/
theorem evaluated_of_eval {n : Number} (h : e.eval s = .ok n) :
    ∀ node ∈ e.postorder, ∃ m, node.eval s = .ok m := by
  induction e generalizing n with
  | binary op l r span ihl ihr =>
      obtain ⟨a, b, hl, hr, -⟩ := eval_binary_eq_ok.1 h
      exact List.forall_mem_append.2
        ⟨List.forall_mem_append.2 ⟨ihl hl, ihr hr⟩, List.forall_mem_singleton.2 ⟨n, h⟩⟩
  | unary op e span ih =>
      obtain ⟨a, he, -⟩ := eval_unary_eq_ok.1 h
      exact List.forall_mem_append.2 ⟨ih he, List.forall_mem_singleton.2 ⟨n, h⟩⟩
  | num m span => exact List.forall_mem_singleton.2 ⟨n, h⟩
  | var name span => exact List.forall_mem_singleton.2 ⟨n, h⟩

/-- **A fault is that of the first node without a value.** -/
theorem exists_first_failing (h : e.eval s = .error fault) :
    ∃ front node back, e.postorder = front ++ node :: back ∧
      (∀ earlier ∈ front, ∃ n, earlier.eval s = .ok n) ∧ node.FailsAt s fault := by
  induction e with
  | binary op l r span ihl ihr =>
      rw [postorder]
      rcases eval_binary_eq_error.1 h with hl | ⟨a, hl, hr⟩ | ⟨a, b, -, hl, hr, -, -⟩
      · obtain ⟨front, node, back, hnodes, hfront, hfails⟩ := ihl hl
        exact ⟨front, node, back ++ (r.postorder ++ [.binary op l r span]), by rw [hnodes]; simp,
          hfront, hfails⟩
      · obtain ⟨front, node, back, hnodes, hfront, hfails⟩ := ihr hr
        exact ⟨l.postorder ++ front, node, back ++ [.binary op l r span], by rw [hnodes]; simp,
          List.forall_mem_append.2 ⟨evaluated_of_eval hl, hfront⟩, hfails⟩
      · exact ⟨_, _, [], rfl,
          List.forall_mem_append.2 ⟨evaluated_of_eval hl, evaluated_of_eval hr⟩, h,
          List.forall_mem_cons.2 ⟨⟨a, hl⟩, List.forall_mem_singleton.2 ⟨b, hr⟩⟩⟩
  | unary op e span ih =>
      rw [postorder]
      rcases eval_unary_eq_error.1 h with he | ⟨a, -, he, -, -⟩
      · obtain ⟨front, node, back, hnodes, hfront, hfails⟩ := ih he
        exact ⟨front, node, back ++ [.unary op e span], by rw [hnodes]; simp, hfront, hfails⟩
      · exact ⟨_, _, [], rfl, evaluated_of_eval he, h, List.forall_mem_singleton.2 ⟨a, he⟩⟩
  | num n span => cases h
  | var name span => exact ⟨[], _, [], rfl, nofun, h, nofun⟩

/-- The nodes in postorder are the parts of the expression. -/
theorem mem_postorder_iff {node : Expression} : node ∈ e.postorder ↔ node.IsPart e := by
  constructor
  · intro h
    induction e with
    | binary op l r span ihl ihr =>
        rw [postorder, List.mem_append, List.mem_append, List.mem_singleton] at h
        rcases h with (hl | hr) | rfl
        · exact .left (ihl hl)
        · exact .right (ihr hr)
        · exact .self
    | unary op e span ih =>
        rw [postorder, List.mem_append, List.mem_singleton] at h
        rcases h with he | rfl
        · exact .operand (ih he)
        · exact .self
    | num n span =>
        obtain rfl := List.mem_singleton.1 h
        exact .self
    | var name span =>
        obtain rfl := List.mem_singleton.1 h
        exact .self
  · intro h
    induction h with
    | self => cases node <;> simp [postorder]
    | operand _ ih => exact List.mem_append_left _ ih
    | left _ ih => exact List.mem_append_left _ (List.mem_append_left _ ih)
    | right _ ih => exact List.mem_append_left _ (List.mem_append_right _ ih)

/-- An expression without a value has it from a node that fails. -/
theorem exists_failing_node (h : e.eval s = .error fault) :
    ∃ node : Expression, node.IsPart e ∧ node.FailsAt s fault := by
  obtain ⟨front, node, back, hnodes, -, hfails⟩ := exists_first_failing h
  exact ⟨node, mem_postorder_iff.1 (by rw [hnodes]; simp), hfails⟩

/-- An expression has no value if a part of it has none. -/
theorem exists_fault_of_part {part : Expression} (h : IsPart part e)
    (hpart : ∃ fault, part.eval s = .error fault) : ∃ fault, e.eval s = .error fault := by
  obtain ⟨fault, hfault⟩ := hpart
  cases hvalue : e.eval s with
  | error cause => exact ⟨cause, rfl⟩
  | ok n =>
      obtain ⟨m, hm⟩ := evaluated_of_eval hvalue part (mem_postorder_iff.2 h)
      exact nomatch hm.symm.trans hfault

end Expression

end MiniPascal
