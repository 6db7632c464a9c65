import MiniPascal.Proofs.Number.Operations
import MiniPascal.Report

/-!
# Proofs — Run — Visits

An expression worked out node by node.  The nodes are visited in the order of `Expression.postorder`
on a stack of values: each takes the values of its operands from the top, the last one first, and
leaves its own there, or it is refused and ends the visit.  What a node yields and what it is
refused for stands in tables, those of the operations in a module of their own.  A visit has one
outcome at most (`Visits.unique`), and evaluation comes to it (`Expression.visits_postorder`): it
comes to the value that is left if no node is refused, and to the fault of the first node that is.
Main statement: `Expression.eval_visits`.
-/

namespace MiniPascal

/-! ### Nodes -/

namespace Expression

/-- The value of a node, made of the values of its operands. -/
inductive Yields (s : Store) : Expression → List Number → Number → Prop where
  | num {n : Number} {span : Span} : Yields s (.num n span) [] n
  | var {name : String} {span : Span} {n : Number} (h : s.get? name = some n) :
      Yields s (.var name span) [] n
  | unary {op : Sign} {e : Expression} {span : Span} {a n : Number} (h : op.Yields a n) :
      Yields s (.unary op e span) [a] n
  | binary {op : Operator} {l r : Expression} {span : Span} {a b n : Number}
      (h : op.Yields a b n) : Yields s (.binary op l r span) [a, b] n

/-- The report of a node that has no value, though its operands have theirs. -/
inductive Refuses (s : Store) : Expression → List Number → Report → Prop where
  | var {name : String} {span : Span} (h : name ∉ s.names) :
      Refuses s (.var name span) [] ⟨.uninitialized, name, span⟩
  | unary {op : Sign} {e : Expression} {span : Span} {a : Number} {text : String}
      (h : op.Refuses a text) : Refuses s (.unary op e span) [a] ⟨.arithmetic, text, span⟩
  | binary {op : Operator} {l r : Expression} {span : Span} {a b : Number} {text : String}
      (h : op.Refuses a b text) : Refuses s (.binary op l r span) [a, b] ⟨.arithmetic, text, span⟩

end Expression

/-- What a visit of nodes comes to, from the stack that it begins with to the one that it leaves or
to the report that ends it. -/
inductive Visits (s : Store) :
    List Expression → List Number → Except Report (List Number) → Prop where
  | done {stack : List Number} : Visits s [] stack (.ok stack)
  | value {node : Expression} {nodes : List Expression} {operands stack : List Number}
      {n : Number} {outcome : Except Report (List Number)} (h : node.Yields s operands n)
      (hrest : Visits s nodes (n :: stack) outcome) :
      Visits s (node :: nodes) (operands.reverse ++ stack) outcome
  | refused {node : Expression} {nodes : List Expression} {operands stack : List Number}
      {report : Report} (h : node.Refuses s operands report) :
      Visits s (node :: nodes) (operands.reverse ++ stack) (.error report)

namespace Expression

variable {s : Store} {node : Expression} {operands : List Number} {n m : Number}
  {report report' : Report}

/-- A node yields on as many operands as it has. -/
theorem Yields.length_eq (h : node.Yields s operands n) :
    operands.length = node.operands.length := by
  cases h <;> rfl

theorem Refuses.length_eq (h : node.Refuses s operands report) :
    operands.length = node.operands.length := by
  cases h <;> rfl

/-- A node yields one value. -/
theorem Yields.unique (h : node.Yields s operands n) (h' : node.Yields s operands m) : n = m := by
  cases h with
  | num =>
      cases h'
      rfl
  | var h =>
      cases h' with
      | var h' => exact Option.some.inj (h.symm.trans h')
  | unary h =>
      cases h' with
      | unary h' =>
          rw [← Number.unary_eq_ok_iff] at h h'
          exact Except.ok.inj (h.symm.trans h')
  | binary h =>
      cases h' with
      | binary h' => exact Except.ok.inj (h.binary.symm.trans h'.binary)

theorem Refuses.unique (h : node.Refuses s operands report)
    (h' : node.Refuses s operands report') : report = report' := by
  cases h with
  | var _ =>
      cases h'
      rfl
  | unary h =>
      cases h' with
      | unary h' =>
          cases h
          cases h'
          rfl
  | binary h =>
      cases h' with
      | binary h' =>
          obtain ⟨cause, hcause, rfl⟩ := h.binary
          obtain ⟨cause', hcause', rfl⟩ := h'.binary
          obtain rfl : cause = cause' := Except.error.inj (hcause.symm.trans hcause')
          rfl

/-- No node both yields a value and is refused. -/
theorem Yields.not_refuses (h : node.Yields s operands n) : ¬ node.Refuses s operands report := by
  intro h'
  cases h with
  | num => cases h'
  | var h =>
      cases h' with
      | var h' => exact h' (Bindings.mem_names_iff.2 ⟨n, h⟩)
  | unary h =>
      cases h' with
      | unary h' =>
          cases h'
          next hword =>
            cases h
            next h => exact hword h
  | binary h =>
      cases h' with
      | binary h' =>
          obtain ⟨cause, hcause, -⟩ := h'.binary
          exact nomatch h.binary.symm.trans hcause

end Expression

/-! ### Visits -/

namespace Visits

variable {s : Store} {node : Expression} {nodes front back : List Expression}
  {stack mid : List Number} {outcome outcome' : Except Report (List Number)} {report : Report}

/-- What a visit begins with. -/
theorem cons_cases (h : Visits s (node :: nodes) stack outcome) :
    ∃ operands rest, stack = operands.reverse ++ rest ∧
      operands.length = node.operands.length ∧
      ((∃ n, node.Yields s operands n ∧ Visits s nodes (n :: rest) outcome) ∨
        ∃ report, node.Refuses s operands report ∧ outcome = .error report) := by
  generalize hall : node :: nodes = all at h
  cases h with
  | done => cases hall
  | value h hrest =>
      cases hall
      exact ⟨_, _, rfl, h.length_eq, .inl ⟨_, h, hrest⟩⟩
  | refused h =>
      cases hall
      exact ⟨_, _, rfl, h.length_eq, .inr ⟨_, h, rfl⟩⟩

/-- The operands that a node finds are told by their number. -/
theorem operands_unique {operands operands' rest rest' : List Number} {k : Nat}
    (hlength : operands.length = k) (hlength' : operands'.length = k)
    (h : operands.reverse ++ rest = operands'.reverse ++ rest') :
    operands = operands' ∧ rest = rest' := by
  have hlengths : operands.reverse.length = operands'.reverse.length := by
    rw [List.length_reverse, List.length_reverse, hlength, hlength']
  obtain ⟨hoperands, hrest⟩ := List.append_inj h hlengths
  exact ⟨List.reverse_inj.1 hoperands, hrest⟩

/-- **A visit comes to one outcome.** -/
theorem unique (h : Visits s nodes stack outcome) (h' : Visits s nodes stack outcome') :
    outcome = outcome' := by
  induction h with
  | done =>
      cases h'
      rfl
  | value h _ ih =>
      obtain ⟨operands', rest', hstack, hlength, h' | h'⟩ := h'.cons_cases
      · obtain ⟨m, hm, hrest⟩ := h'
        obtain ⟨rfl, rfl⟩ := operands_unique h.length_eq hlength hstack
        obtain rfl := h.unique hm
        exact ih hrest
      · obtain ⟨report, hrefused, -⟩ := h'
        obtain ⟨rfl, rfl⟩ := operands_unique h.length_eq hlength hstack
        exact absurd hrefused h.not_refuses
  | refused h =>
      obtain ⟨operands', rest', hstack, hlength, h' | h'⟩ := h'.cons_cases
      · obtain ⟨m, hm, -⟩ := h'
        obtain ⟨rfl, rfl⟩ := operands_unique h.length_eq hlength hstack
        exact absurd h hm.not_refuses
      · obtain ⟨report, hrefused, rfl⟩ := h'
        obtain ⟨rfl, rfl⟩ := operands_unique h.length_eq hlength hstack
        rw [h.unique hrefused]

/-- A visit that is not ended goes on. -/
theorem append (h : Visits s front stack (.ok mid)) (hback : Visits s back mid outcome) :
    Visits s (front ++ back) stack outcome := by
  generalize hmid : Except.ok mid = first at h
  induction h with
  | done =>
      cases hmid
      exact hback
  | value h _ ih => exact .value h (ih hmid)
  | refused _ => cases hmid

end Visits

/-! ### Evaluation -/

namespace Expression

variable {s : Store} {e : Expression} {n : Number} {fault : Located RuntimeFault}

/-- An expression with a value is visited to its end, and leaves the value on the stack. -/
theorem visits_of_eval (h : e.eval s = .ok n) (stack : List Number) :
    Visits s e.postorder stack (.ok (n :: stack)) := by
  induction e generalizing n stack with
  | binary op l r span ihl ihr =>
      obtain ⟨a, b, hl, hr, hop⟩ := eval_binary_eq_ok.1 h
      have hnode : Visits s [.binary op l r span] ([a, b].reverse ++ stack) (.ok (n :: stack)) :=
        .value (.binary (Number.binary_eq_ok_iff.1 hop)) .done
      exact ((ihl hl stack).append (ihr hr (a :: stack))).append hnode
  | unary op e span ih =>
      obtain ⟨a, he, hop⟩ := eval_unary_eq_ok.1 h
      have hnode : Visits s [.unary op e span] ([a].reverse ++ stack) (.ok (n :: stack)) :=
        .value (.unary (Number.unary_eq_ok_iff.1 hop)) .done
      exact (ih he stack).append hnode
  | num m span =>
      cases h
      have hleaf : Visits s [.num m span] ([].reverse ++ stack) (.ok (m :: stack)) :=
        .value .num .done
      exact hleaf
  | var name span =>
      rw [eval] at h
      cases hname : s.get? name <;> rw [hname] at h <;> cases h
      have hleaf : Visits s [.var name span] ([].reverse ++ stack) (.ok (n :: stack)) :=
        .value (.var hname) .done
      exact hleaf

/-- An expression without a value is visited up to the first node that is refused, over the values
of its operands. -/
theorem exists_first_refused (h : e.eval s = .error fault) (stack : List Number) :
    ∃ front node back operands rest, e.postorder = front ++ node :: back ∧
      Visits s front stack (.ok (operands.reverse ++ rest)) ∧
      List.Forall₂ (fun operand n => operand.eval s = .ok n) node.operands operands ∧
      node.Refuses s operands fault.runtimeReport := by
  induction e generalizing stack with
  | binary op l r span ihl ihr =>
      rw [postorder]
      rcases eval_binary_eq_error.1 h with hl | ⟨a, hl, hr⟩ | ⟨a, b, cause, hl, hr, hop, rfl⟩
      · obtain ⟨front, node, back, operands, rest, hnodes, hnode⟩ := ihl hl stack
        exact ⟨front, node, back ++ (r.postorder ++ [.binary op l r span]), operands, rest,
          by rw [hnodes]; simp, hnode⟩
      · obtain ⟨front, node, back, operands, rest, hnodes, hfront, hnode⟩ := ihr hr (a :: stack)
        exact ⟨l.postorder ++ front, node, back ++ [.binary op l r span], operands, rest,
          by rw [hnodes]; simp, (visits_of_eval hl stack).append hfront, hnode⟩
      · exact ⟨_, .binary op l r span, [], [a, b], stack, rfl,
          (visits_of_eval hl stack).append (visits_of_eval hr (a :: stack)),
          .cons hl (.cons hr .nil), .binary (Number.binary_eq_error_iff.1 hop)⟩
  | unary op e span ih =>
      rw [postorder]
      rcases eval_unary_eq_error.1 h with he | ⟨a, cause, he, hop, rfl⟩
      · obtain ⟨front, node, back, operands, rest, hnodes, hnode⟩ := ih he stack
        exact ⟨front, node, back ++ [.unary op e span], operands, rest, by rw [hnodes]; simp, hnode⟩
      · exact ⟨_, .unary op e span, [], [a], stack, rfl, visits_of_eval he stack,
          .cons he .nil, .unary (Number.unary_eq_error_iff.1 hop)⟩
  | num m span => cases h
  | var name span =>
      have hfails : FailsAt s (.var name span) fault := ⟨h, List.forall_mem_nil _⟩
      rcases hfails.cases with ⟨_, _, hnode, hname, rfl⟩ | ⟨hnode, -⟩
      · cases hnode
        exact ⟨[], _, [], [], stack, rfl, .done, .nil, .var hname⟩
      · exact absurd rfl (hnode name span)

/-- **Evaluation is a visit of the nodes in postorder.** -/
theorem visits_postorder (s : Store) (e : Expression) :
    Visits s e.postorder [] (((e.eval s).map ([·])).mapError Located.runtimeReport) := by
  cases h : e.eval s with
  | ok n => exact visits_of_eval h []
  | error fault =>
      obtain ⟨front, node, back, operands, rest, hnodes, hfront, -, hnode⟩ :=
        exists_first_refused h []
      rw [hnodes]
      exact hfront.append (.refused hnode)

/-- **Evaluation stops at the first node in postorder that has no value.**  It has a value if and
only if a visit of the nodes, in which each makes its value of those of its operands, comes to its
end; and this is the value that is left then, that of the root.  It has a fault if and only if the
visit comes to a node that is refused over the values of its operands, and the fault is told as this
refusal is, at the place of the node. -/
theorem eval_visits (s : Store) (e : Expression) :
    (∀ n, e.eval s = .ok n ↔ Visits s e.postorder [] (.ok [n])) ∧
      ∀ fault, e.eval s = .error fault ↔
        ∃ front node back operands rest, e.postorder = front ++ node :: back ∧
          Visits s front [] (.ok (operands.reverse ++ rest)) ∧
          List.Forall₂ (fun operand n => operand.eval s = .ok n) node.operands operands ∧
          node.Refuses s operands fault.runtimeReport := by
  have hvisit := visits_postorder s e
  refine ⟨fun n => ⟨fun h => visits_of_eval h [], fun h => ?_⟩, fun fault =>
    ⟨fun h => exists_first_refused h [], ?_⟩⟩
  · have hsame := hvisit.unique h
    cases heval : e.eval s with
    | ok m =>
        rw [heval] at hsame
        cases hsame
        rfl
    | error fault =>
        rw [heval] at hsame
        cases hsame
  · rintro ⟨front, node, back, operands, rest, hnodes, hfront, -, hrefused⟩
    rw [hnodes] at hvisit
    have hsame := hvisit.unique (hfront.append (.refused hrefused))
    cases heval : e.eval s with
    | ok m =>
        rw [heval] at hsame
        cases hsame
    | error other =>
        rw [heval] at hsame
        rw [Located.runtimeReport_injective (Except.error.inj hsame)]

/-- Of `1 / -0.0 + y` the quotient is refused, and the variable is not looked for. -/
example :
    eval .empty
      (.binary .sum
        (.binary .quotient (.num (.int 1) ⟨0, 1⟩) (.num (.real (.zero true)) ⟨4, 4⟩) ⟨0, 8⟩)
        (.var "y" ⟨11, 1⟩) ⟨0, 12⟩) =
      .error ⟨.arithmetic .divisionByZero, ⟨0, 8⟩⟩ := rfl

end Expression

end MiniPascal
