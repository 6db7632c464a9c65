import MiniPascal.Proofs.Run.Accesses
import MiniPascal.Proofs.Run.Blind

/-!
# Proofs — Run — Commutation

Neighbouring assignments that have nothing to do with each other may change places.  Neither of two
independent assignments reads what the other writes, so each has the same value in either order, and
the stores behind them agree under every name (`Alike.swap`).  What comes later cannot tell such
stores apart, be it performed or stopped by a fault (`Alike.foldlM`).  Main statement: programs that
differ in the order of two independent neighbours alone come both to their end or both to a fault,
and in the end every variable has the same value (`Session.runOn_swapped`); only the order in which
the store lists the variables may be another.
-/

namespace MiniPascal

/-- An assignment without places. -/
def Assignment.bare (a : Assignment) : Assignment := ⟨a.target, a.value.bare⟩

/-- Assignments to different variables, neither of which is read for the other. -/
structure Assignment.Independent (a b : Assignment) : Prop where
  targets : a.target ≠ b.target
  left    : b.target ∉ a.value.reads.map (·.name)
  right   : a.target ∉ b.value.reads.map (·.name)

namespace Store

variable {s : Store} {a b : Assignment}

/-- An assignment leaves the value of an expression that does not read its target. -/
theorem eval_put {e : Expression} {name : String} (h : name ∉ e.reads.map (·.name)) (n : Number) :
    e.eval (s.put name n) = e.eval s := by
  refine Expression.eval_congr fun o ho => ?_
  have hne : name ≠ o.name :=
    fun heq => h (heq ▸ List.mem_map_of_mem (Expression.lookups_subset_reads ho))
  rw [Bindings.get?_put, if_neg hne]

/-- Two assignments, the second of which does not read what the first writes: both have their value
over the store before. -/
theorem foldlM_pair (h : a.target ∉ b.value.reads.map (·.name)) :
    [a, b].foldlM Store.assign s =
      a.value.eval s >>= fun n => (b.value.eval s).map ((s.put a.target n).put b.target) := by
  simp only [List.foldlM_cons, List.foldlM_nil, bind_pure]
  cases ha : a.value.eval s with
  | error fault =>
      rw [assign_of_fault ha]
      rfl
  | ok n =>
      rw [assign_of_eval ha]
      change Store.assign (s.put a.target n) b = _
      rw [assign, eval_put h]
      rfl

end Store

/-! ### Outcomes -/

/-- Two outcomes that the values of variables do not tell apart: stores with the same value under
every name, or faults. -/
def Alike : Except (Located RuntimeFault) Store → Except (Located RuntimeFault) Store → Prop
  | .ok s,    .ok t    => ∀ name, t.get? name = s.get? name
  | .error _, .error _ => True
  | _,        _        => False

namespace Alike

variable {s t : Store} {as bs : List Assignment} {a b : Assignment}
  {x y z : Except (Located RuntimeFault) Store}

theorem refl (x : Except (Located RuntimeFault) Store) : Alike x x := by
  cases x with
  | ok s => exact fun _ => rfl
  | error fault => trivial

theorem trans (h : Alike x y) (h' : Alike y z) : Alike x z := by
  cases x <;> cases y <;> cases z
  · trivial
  · exact h'.elim
  · exact h.elim
  · exact h.elim
  · exact h.elim
  · exact h.elim
  · exact h'.elim
  · exact fun name => (h' name).trans (h name)

/-- Outcomes that are alike, and then whatever is alike on stores that are. -/
theorem bind {k l : Store → Except (Located RuntimeFault) Store} (h : Alike x y)
    (hnext : ∀ s t, Alike (.ok s) (.ok t) → Alike (k s) (l t)) : Alike (x >>= k) (y >>= l) := by
  cases x <;> cases y
  · trivial
  · exact h.elim
  · exact h.elim
  · exact hnext _ _ h

theorem put (h : Alike (.ok s) (.ok t)) (name : String) (n : Number) :
    Alike (.ok (s.put name n)) (.ok (t.put name n)) := by
  intro other
  rw [Bindings.get?_put, Bindings.get?_put, h other]

/-- The same assignment, up to places, over stores that are alike. -/
theorem assign (h : Alike (.ok s) (.ok t)) (hbare : a.bare = b.bare) :
    Alike (s.assign a) (t.assign b) := by
  obtain ⟨htarget, hvalue⟩ := Assignment.mk.inj hbare
  have hstores : b.value.eval t = b.value.eval s := Expression.eval_congr fun o _ => h o.name
  have hcauses : (a.value.eval s).mapError Located.cause =
      (b.value.eval s).mapError Located.cause := by
    rw [← a.value.eval_blind s, hvalue, b.value.eval_blind s]
  rw [Store.assign, Store.assign, hstores, htarget]
  cases ha : a.value.eval s <;> cases hb : b.value.eval s <;> rw [ha, hb] at hcauses
  · trivial
  · cases hcauses
  · cases hcauses
  · cases hcauses
    exact h.put _ _

/-- **What comes later cannot tell stores apart that are alike.** -/
theorem foldlM (h : Alike (.ok s) (.ok t))
    (hbare : as.map Assignment.bare = bs.map Assignment.bare) :
    Alike (as.foldlM Store.assign s) (bs.foldlM Store.assign t) := by
  induction as generalizing bs s t with
  | nil =>
      obtain rfl := List.map_eq_nil_iff.1 hbare.symm
      exact h
  | cons a as ih =>
      obtain ⟨b, bs, rfl, hb, hbs⟩ := List.map_eq_cons_iff.1 hbare.symm
      rw [List.foldlM_cons, List.foldlM_cons]
      exact (h.assign hb.symm).bind fun _ _ hnext => ih hnext hbs.symm

/-- **Independent neighbours may change places.** -/
theorem swap (h : a.Independent b) (s : Store) :
    Alike ([a, b].foldlM Store.assign s) ([b, a].foldlM Store.assign s) := by
  rw [Store.foldlM_pair h.right, Store.foldlM_pair h.left]
  cases a.value.eval s <;> cases b.value.eval s
  · trivial
  · trivial
  · trivial
  · intro name
    rw [Bindings.get?_put, Bindings.get?_put, Bindings.get?_put, Bindings.get?_put]
    -- At most one of the two puts is under the name, as the targets differ.
    by_cases ha : a.target = name
    · have hb : b.target ≠ name := fun hb => h.targets (ha.trans hb.symm)
      rw [if_pos ha, if_pos ha, if_neg hb]
    · rw [if_neg ha, if_neg ha]

end Alike

/-- Independent neighbours may change places among other assignments. -/
theorem Assignment.Independent.alike {a b : Assignment} (h : a.Independent b) (s : Store)
    {before after : List Assignment} :
    Alike ((before ++ a :: b :: after).foldlM Store.assign s)
      ((before ++ b :: a :: after).foldlM Store.assign s) := by
  change Alike ((before ++ ([a, b] ++ after)).foldlM Store.assign s)
    ((before ++ ([b, a] ++ after)).foldlM Store.assign s)
  rw [List.foldlM_append, List.foldlM_append]
  cases before.foldlM Store.assign s with
  | error fault => trivial
  | ok s' =>
      change Alike (([a, b] ++ after).foldlM Store.assign s')
        (([b, a] ++ after).foldlM Store.assign s')
      rw [List.foldlM_append, List.foldlM_append]
      exact (Alike.swap h s').bind fun _ _ hrest => hrest.foldlM rfl

/-! ### Runs -/

/-- What assignments come to as one outcome, its fault or the store that it leaves. -/
theorem Folds.foldlM_eq {s s' : Store} {as : List Assignment}
    {fault : Option (Located RuntimeFault)} (h : Folds s as fault s') :
    as.foldlM Store.assign s = fault.elim (.ok s') .error := by
  cases h with
  | toEnd h => exact h
  | toFault has h hfault =>
      rw [has, List.foldlM_append, h]
      change List.foldlM Store.assign s' (_ :: _) = _
      rw [List.foldlM_cons, Store.assign_of_fault hfault]
      rfl

namespace Session

variable {p q : Program} {before after : List Assignment} {a b : Assignment}

/-- **Independent assignments commute.**  Let two programs have the same assignments in the same
order, places aside, except that two independent neighbours have changed places.  On every store
both come to their end, or both to a fault; and in the end the same value is under every name. -/
theorem runOn_swapped
    (hp : p.assignments.map Assignment.bare = (before ++ a :: b :: after).map Assignment.bare)
    (hq : q.assignments.map Assignment.bare = (before ++ b :: a :: after).map Assignment.bare)
    (h : a.Independent b) (s : Store) :
    ((runOn s p).1 = none ↔ (runOn s q).1 = none) ∧
      ((runOn s p).1 = none → ∀ name, (runOn s q).2.get? name = (runOn s p).2.get? name) := by
  have halike : Alike (p.assignments.foldlM Store.assign s) (q.assignments.foldlM Store.assign s) :=
    ((Alike.refl (.ok s)).foldlM hp).trans ((h.alike s).trans ((Alike.refl (.ok s)).foldlM hq.symm))
  rw [(folds_runOn s p).foldlM_eq, (folds_runOn s q).foldlM_eq] at halike
  cases hleft : (runOn s p).1 <;> cases hright : (runOn s q).1 <;> rw [hleft, hright] at halike
  · exact ⟨Iff.rfl, fun _ => halike⟩
  · exact halike.elim
  · exact halike.elim
  · exact ⟨⟨nofun, nofun⟩, nofun⟩

/-- Two assignments of numbers at given places, and the difference behind them. -/
def difference (first second : String × Int64 × Span) : Program where
  name  := "T"
  block :=
    ⟨[], ⟨[.assign first.1 ⟨17, 1⟩ (.num (.int first.2.1) first.2.2) ⟨17, 6⟩,
      .assign second.1 ⟨25, 1⟩ (.num (.int second.2.1) second.2.2) ⟨25, 7⟩,
      .assign "z" ⟨34, 1⟩
        (.binary .difference (.var "x" ⟨39, 1⟩) (.var "y" ⟨43, 1⟩) ⟨39, 5⟩) ⟨34, 10⟩], ⟨11, 37⟩⟩⟩
  span  := ⟨0, 49⟩

theorem runOn_swapped_example :
    let p := difference ("x", 5, ⟨22, 1⟩) ("y", 13, ⟨30, 2⟩)
    let q := difference ("y", 13, ⟨22, 2⟩) ("x", 5, ⟨31, 1⟩)
    (runOn .empty p).1 = none ∧ (runOn .empty q).1 = none ∧
      (∀ name, (runOn .empty q).2.get? name = (runOn .empty p).2.get? name) ∧
      (runOn .empty p).2 = ⟨[("x", .int 5), ("y", .int 13), ("z", .int (-8))]⟩ ∧
      (runOn .empty q).2 = ⟨[("y", .int 13), ("x", .int 5), ("z", .int (-8))]⟩ := by
  intro p q
  let a : Assignment := ⟨"x", .num (.int 5) ⟨22, 1⟩⟩
  let b : Assignment := ⟨"y", .num (.int 13) ⟨30, 2⟩⟩
  let rest : Assignment :=
    ⟨"z", .binary .difference (.var "x" ⟨39, 1⟩) (.var "y" ⟨43, 1⟩) ⟨39, 5⟩⟩
  have hindependent : a.Independent b := ⟨by decide, by decide, by decide⟩
  have hend : (runOn .empty p).1 = none := rfl
  have hp : p.assignments.map Assignment.bare = ([] ++ a :: b :: [rest]).map .bare := rfl
  have hq : q.assignments.map Assignment.bare = ([] ++ b :: a :: [rest]).map .bare := rfl
  obtain ⟨hends, hsame⟩ := runOn_swapped hp hq hindependent .empty
  exact ⟨hend, hends.1 hend, hsame hend, rfl, rfl⟩

end Session

end MiniPascal
