import MiniPascal.Proofs.Reading.Following

/-!
# Proofs — Reading — Calls

How a counting reader goes down a level and calls a rule.  A reader `Stands` where the depth is the
number of constructs that enclose the place.  `Follows` says of a rule that it follows the plain one
wherever it may begin, makes the calls that are owed there, and owes none where it ends.  That holds
of what lies one level further down if it holds of that (`FollowsAt.within`), and of the call of a
rule if it holds of the rule (`Follows.call`).
-/

namespace MiniPascal

open Reader Enclosing

variable {α β γ δ : Type} {rs : List Pulled} {s t : Counted} {levels : Nat} {o o' : Enclosing}
  {owed owed' : List Rule}

/-! ### Depth -/

/-- The state one level further down. -/
def Counting.down (s : Counted) : Counted :=
  s.moved { s.tally with depth := s.tally.depth + 1 }

/-- The state one level further up. -/
def Counting.up (s : Counted) : Counted :=
  s.moved { s.tally with depth := s.tally.depth - 1 }

/-- A counting reader stands where `o` encloses it, and still owes some calls there.  The depth is
the number of constructs that enclose the place, and `levels` are left below. -/
structure Stands (rs : List Pulled) (levels : Nat) (o : Enclosing) (owed : List Rule)
    (s : Counted) : Prop where
  sound  : s.Sound rs
  place  : s.At rs o owed
  depth  : s.tally.depth = o.count
  levels : s.tally.depth + levels = nestingLimit

/-- On the same level the depth stays right as long as the same constructs are open. -/
theorem Stands.along (h : Stands rs levels o owed s) (ht : s.Level rs t) (hat : t.At rs o' owed')
    (hopeners : o'.openers = o.openers) : Stands rs levels o' owed' t where
  sound  := ht.sound
  place  := hat
  depth  := by rw [ht.depth, h.depth, count, count, hopeners]
  levels := by rw [ht.depth, h.levels]

/-- A counting reader has come past what opens one construct more, and still has to go down for
it. -/
structure Opens (rs : List Pulled) (levels : Nat) (o : Enclosing) (owed : List Rule)
    (s : Counted) : Prop where
  sound  : s.Sound rs
  place  : s.At rs o owed
  depth  : s.tally.depth + 1 = o.count
  levels : s.tally.depth + levels = nestingLimit

/-- Past a token that opens a construct, on the same level, the reader has to go down. -/
theorem Stands.opens {k : Token.Kind} (h : Stands rs levels o owed s) (ht : t.Sound rs)
    (hdepth : t.tally.depth = s.tally.depth) (hat : t.At rs o' owed')
    (hopeners : o'.openers = k :: o.openers) : Opens rs levels o' owed' t where
  sound  := ht
  place  := hat
  depth  := by rw [hdepth, h.depth, count, count, hopeners, List.length_cons]
  levels := by rw [hdepth, h.levels]

/-- One level further down the depth is right again. -/
theorem Opens.down (h : Opens rs (levels + 1) o owed s) :
    Stands rs levels o owed (Counting.down s) where
  sound  := h.sound.moved <| by
    have hlevels := h.levels
    show s.tally.depth + 1 ≤ nestingLimit
    omega
  place  := h.place.moved rfl
  depth  := h.depth
  levels := (Nat.add_right_comm s.tally.depth 1 levels).trans h.levels

/-- The levels left are those that the depth leaves of the limit. -/
theorem Stands.levels_eq (h : Stands rs levels o owed s) :
    nestingLimit - s.tally.depth = levels := by
  rw [← h.levels, Nat.add_sub_cancel_left]

/-- A call made here is exact. -/
theorem Stands.exact_entered (h : Stands rs levels o owed s) (rule : Rule) :
    Record.Exact rs (.entered rule s.tally) := by
  obtain ⟨v, hv, hat⟩ := h.place
  exact ⟨h.sound.depth, v, hat.behind, hv ▸ h.depth⟩

/-- Where calls are due, the counters are right at the call too. -/
theorem Stands.sound_calling (h : Stands rs levels o owed s) (rule : Rule) :
    (s.calling rule).Sound rs :=
  ⟨h.sound.depth, List.forall_mem_cons.2 ⟨h.exact_entered rule, h.sound.records⟩⟩

/-- A call that is owed is made. -/
theorem Stands.call {rule : Rule} (h : Stands rs levels o (rule :: owed) s) :
    Stands rs levels o owed (s.calling rule) where
  sound  := h.sound_calling rule
  place  := by
    obtain ⟨v, hv, hat⟩ := h.place
    exact ⟨v, hv, hat.call⟩
  depth  := h.depth
  levels := h.levels

/-! ### Levels and rules -/

/-- What a reader comes to: its value, which goes together with the height as `R` says, and a place
as `F` says where no calls are owed. -/
def Yields (rs : List Pulled) (R : α → β → Nat → Prop) (F : Enclosing → Prop) (a : α) (b : β)
    (t : Counted) : Prop :=
  R a b t.tally.height ∧ ∃ o, F o ∧ t.At rs o []

/-- Wherever `P` holds of what encloses it, `owed` are the calls owed and `levels` are left, `n`
follows `m`: it yields a value as `R` says, at a place that `F` tells from the one where it
began. -/
def Follows (levels : Nat) (P : Enclosing → Prop) (owed : List Rule)
    (F : Enclosing → Enclosing → Prop) (m : Reader α) (n : Counting β)
    (R : α → β → Nat → Prop) : Prop :=
  ∀ rs s o, P o → Stands rs levels o owed s → FollowsAt rs s m n (Yields rs R (F o))

/-- What lies one level further down, for the plain reader and for the counting one: nothing for
either if no levels are left, or two readers that go together in the levels left. -/
inductive Paired (P : Nat → Reader α → Counting β → Prop) :
    Nat → Option (Reader α) → Option (Counting β) → Prop where
  | none : Paired P 0 none none
  | some {levels : Nat} {m : Reader α} {n : Counting β} (h : P levels m n) :
      Paired P (levels + 1) (some m) (some n)

/-- What is built from readers that are paired is paired. -/
theorem Paired.map {P : Nat → Reader α → Counting β → Prop} {Q : Nat → Reader γ → Counting δ → Prop}
    {f : Reader α → Reader γ} {g : Counting β → Counting δ} {inner : Option (Reader α)}
    {inner' : Option (Counting β)} (h : Paired P levels inner inner')
    (hPQ : ∀ k m n, P k m n → Q k (f m) (g n)) : Paired Q levels (inner.map f) (inner'.map g) := by
  cases h with
  | none => exact .none
  | some h => exact .some (hPQ _ _ _ h)

theorem Paired.imp {P Q : Nat → Reader α → Counting β → Prop} {inner : Option (Reader α)}
    {inner' : Option (Counting β)} (h : Paired P levels inner inner')
    (hPQ : ∀ k m n, P k m n → Q k m n) : Paired Q levels inner inner' := by
  cases h with
  | none => exact .none
  | some h => exact .some (hPQ _ _ _ h)

namespace Counting

theorem descend_eq (s : Counted) :
    descend s = (if s.tally.depth < nestingLimit then
      update fun t => { t with depth := t.depth + 1 }
    else liftM (failHere .tooDeep : Reader Unit) : Counting Unit) s := rfl

/-- Below the limit there is a level further down. -/
theorem descend_of_lt (h : s.tally.depth < nestingLimit) : descend s = .ok () (down s) := by
  rw [descend_eq, if_pos h]
  rfl

/-- At the limit it is too deep, as for the plain reader. -/
theorem descend_of_not_lt {e : Located ReadingFault} {c : Cursor}
    (h : ¬ s.tally.depth < nestingLimit)
    (hfail : (failHere .tooDeep : Reader α) s.tally.cursor = .error e c) :
    descend s = .error (.fault e) (s.moved s.tally) := by
  cases hfail
  rw [descend_eq, if_neg h]
  rfl

/-- What has gone down goes up. -/
theorem ascend_of_ne_zero (h : s.tally.depth ≠ 0) : ascend s = .ok () (up s) := by
  have hif : ascend s = (if s.tally.depth = 0 then throw .underflow
    else update fun t => { t with depth := t.depth - 1 } : Counting Unit) s := rfl
  rw [hif, if_neg h]
  rfl

/-- What comes to a value a level further down comes to it here, a level up. -/
theorem within_of_ok {n : Counting α} {a : α} (h : s.tally.depth < nestingLimit)
    (hn : n (down s) = .ok a t) (ht : t.tally.depth ≠ 0) : within (some n) s = .ok a (up t) := by
  rw [within, bind_of_ok (descend_of_lt h), Option.getD_some, bind_of_ok hn,
    bind_of_ok (ascend_of_ne_zero ht)]
  rfl

theorem within_of_error {n : Counting α} {e : Stop} (h : s.tally.depth < nestingLimit)
    (hn : n (down s) = .error e t) : within (some n) s = .error e t := by
  rw [within, bind_of_ok (descend_of_lt h), Option.getD_some, bind_of_error hn]

end Counting

section Rules

variable {P : Enclosing → Prop} {F : Enclosing → Enclosing → Prop} {R : α → β → Nat → Prop}
  {m : Reader α} {n : Counting β}

/-- **Going down and up again** leaves the depth as it was.  There is a level further down exactly
if the depth is below the limit, and the depth is right there. -/
theorem FollowsAt.within {inner : Option (Reader α)} {inner' : Option (Counting β)}
    (hs : Opens rs levels o owed s) (hP : P o)
    (hinner : Paired (fun j m n => Follows j P owed F m n R) levels inner inner') :
    FollowsAt rs s (deeper inner) (Counting.within inner') (Yields rs R (F o)) := by
  have hlevels := hs.levels
  cases hinner with
  | none =>
      have hdepth : ¬ s.tally.depth < nestingLimit := by omega
      constructor
      · intro a c hm
        cases hm
      · intro e c hm
        have hn := Counting.descend_of_not_lt hdepth hm
        cases hm
        exact ⟨_, bind_of_error hn, .moved hs.sound rfl hs.place.told⟩
  | @some j m n h =>
      have hdepth : s.tally.depth < nestingLimit := by omega
      have hfollows := h rs _ _ hP hs.down
      constructor
      · intro a c hm
        obtain ⟨b, u, hn, hcursor, hu, hR, o', hF, hat⟩ := hfollows.ok a c hm
        -- The level was entered, so it can be left.
        have hudepth : u.tally.depth = s.tally.depth + 1 := hu.depth
        have hup : (Counting.up u).tally.depth = s.tally.depth := by
          show u.tally.depth - 1 = s.tally.depth
          omega
        have hsound : (Counting.up u).Sound rs := hu.sound.moved (hup ▸ hs.sound.depth)
        have hlevel : s.Level rs (Counting.up u) :=
          ⟨hup, hsound, fun opened h => .reached _ (hu.closed opened (.reached _ h))⟩
        exact ⟨b, Counting.up u, Counting.within_of_ok hdepth hn (by omega), hcursor, hlevel, hR,
          o', hF, hat.moved rfl⟩
      · intro e c hm
        obtain ⟨u, hn, hhalts⟩ := hfollows.error e c hm
        exact ⟨u, Counting.within_of_error hdepth hn, hhalts.before fun _ => .reached _⟩

/-- **A call is exact** if what it reads follows, and leaves the height of its expression.  It stays
open only if it is one of a rule that fails. -/
theorem FollowsAt.call {rule : Rule} {tree : β → Option Expression} {Q : Enclosing → Prop}
    (hfails : ∀ e d, m s.tally.cursor = .error e d →
      rule.FailsAt (nestingLimit - s.tally.depth) s.tally.cursor)
    (hread : ∀ a b c height, m s.tally.cursor = .ok a c → R a b height →
      rule.HasRead s.tally.cursor c (tree b) height)
    (h : FollowsAt rs (s.calling rule) m n (Yields rs R Q)) :
    FollowsAt rs s m (Counting.call rule tree n) (Yields rs R Q) := by
  have hcall : Counting.call rule tree n s = (n >>= fun b => do
      Counting.note (.returned rule s.tally (← Counting.tally) (tree b))
      return b) (s.calling rule) := rfl
  constructor
  · intro a c hm
    obtain ⟨b, t, hn, rfl, ht, hR, o, hQ, v, hv, howes⟩ := h.ok a c hm
    have hexact : Record.Exact rs (.returned rule s.tally t.tally (tree b)) :=
      ⟨ht.sound.depth, ht.depth, hread a b _ _ hm hR⟩
    have hlevel : s.Level rs (t.returning rule s.tally (tree b)) :=
      ⟨ht.depth, ⟨ht.sound.depth, List.forall_mem_cons.2 ⟨hexact, ht.sound.records⟩⟩,
        fun _ h => .returned _ _ (ht.closed _ (.entered rule s.tally h))⟩
    refine ⟨b, t.returning rule s.tally (tree b), ?_, rfl, hlevel, hR, o, hQ, v, hv,
      howes.return rule s.tally (tree b)⟩
    rw [hcall, bind_of_ok hn]
    rfl
  · intro e c hm
    obtain ⟨t, hn, hhalts⟩ := h.error e c hm
    refine ⟨t, by rw [hcall, bind_of_error hn], hhalts.sound, hhalts.told, fun opened h => ?_⟩
    obtain ⟨more, hleaves, hmore⟩ := hhalts.opened _ (.entered rule s.tally h)
    refine ⟨more ++ [(rule, s.tally)], by rwa [List.append_assoc], ?_⟩
    exact List.forall_mem_append.2 ⟨hmore, List.forall_mem_singleton.2 (hfails e c hm)⟩

/-- The call of a rule that is owed is exact. -/
theorem Follows.call {rule : Rule} {tree : β → Option Expression}
    (hfails : ∀ c e d, m c = .error e d → rule.FailsAt levels c)
    (hread : ∀ c a b d height, c.OnStream → m c = .ok a d → R a b height →
      rule.HasRead c d (tree b) height)
    (h : Follows levels P owed F m n R) :
    Follows levels P (rule :: owed) F m (Counting.call rule tree n) R := by
  intro rs s o hP hs
  obtain ⟨v, -, howes⟩ := hs.place
  refine .call (fun e d hm => hs.levels_eq ▸ hfails _ e d hm)
    (fun a b c height hm hR => hread _ a b c height howes.onStream hm hR) ?_
  exact h rs _ o hP hs.call

/-- Where a compound has been called, both consume its word, or say that it should stand there.
Nothing announces a compound, so it is the word that makes the call due. -/
theorem FollowsAt.begin_bind {what : Expected} {k : Token → Reader γ} {l : Token → Counting δ}
    {Q : γ → δ → Counted → Prop} (hs : (s.calling .compound).Sound rs) (hat : s.At rs o [])
    (hk : ∀ u c, (s.calling .compound).Level rs ((s.calling .compound).step c) →
      ((s.calling .compound).step c).At rs ⟨.beginWord :: o.openers, false⟩ [.statement] →
        FollowsAt rs ((s.calling .compound).step c) (k u) (l u) Q) :
    FollowsAt rs (s.calling .compound) (require .beginWord what >>= k)
      (liftM (require .beginWord what) >>= l) Q := by
  obtain ⟨v, rfl, howes⟩ := hat
  have hpast : (s.calling .compound).IsPast rs v := howes.toIsPast.note _
  have hcalled : called rs (s.calling .compound).records =
      callsBehind v ++ [(.compound, v.length)] := by
    rw [Counted.called_calling, howes.called_eq, howes.behind.place_eq]
  refine .lift_bind hs (fun e d hrequire => ?_) fun u c hrequire hlevel => ?_
  · rcases eq_or_rest_of_require hrequire with rfl | ⟨hkind, f, hrest⟩
    · refine ⟨v, _, hpast.told_here ?_ ?_⟩
      · rw [hcalled]
        exact (howes.called_eq ▸ howes.begun).trans (List.prefix_append _ _)
      · exact hcalled ▸ List.prefix_rfl
    · have hbegin : (s.calling .compound).tally.cursor.current.kind = .beginWord := hkind
      refine ⟨_, _, hpast.told_fault hrest ?_ ?_⟩
      · rw [hcalled]
        exact List.prefix_append _ _
      · rw [hcalled, callsBehind_concat, hbegin]
        exact List.prefix_append _ _
  · obtain ⟨hkind, hpath⟩ := path_of_require howes.onStream hrequire nofun
    refine hk u c hlevel ⟨v ++ [u], ?_, ?_⟩
    · rw [behind_concat, hkind]
      rfl
    · have hbegins : called rs (s.calling .compound).records =
          callsBehind v ++ (Rule.beginningWith u.kind).map (·, v.length) := by
        rw [hcalled, hkind]
        rfl
      have howes' : ((s.calling .compound).step c).Owes rs (v ++ [u])
          ((behind v).announced u.kind) := hpast.owes_take hbegins hpath
      rwa [hkind] at howes'

end Rules

/-! ### Calls of rules -/

/-- The expression that was measured, and its height in the counter. -/
def Tells (m : Measured) (e : Expression) (height : Nat) : Prop := e = m.expr ∧ height = m.height

section Calls

variable {P : Enclosing → Prop} {F : Enclosing → Enclosing → Prop} {rule : Rule}

/-- A rule for expressions has read an expression of the height that was measured. -/
theorem hasRead_of_measures {m : Reader Measured} {G : List Token → Expression → Nat → Prop}
    (hreads : Reads m (Measures levels G))
    (hderives : ∀ w e depth, G w e depth → rule.Derives w (some e)) {c d : Cursor} {a : Measured}
    {b : Expression} {height : Nat} (hc : c.OnStream) (hm : m c = .ok a d)
    (htells : Tells a b height) : rule.HasRead c d (some b) height := by
  obtain ⟨rfl, rfl⟩ := htells
  obtain ⟨w, hpath, hheight, depth, hG, hfits⟩ := hreads c hc a d hm
  refine ⟨⟨w, hpath, hderives w _ depth hG⟩, fun e he => ?_⟩
  obtain rfl := Option.some.inj he
  exact ⟨hheight, hfits.2 _ (List.mem_singleton_self _)⟩

/-- What any other rule has read has no height. -/
theorem hasRead_of_keeps {values : α → List Expression} {m : Reader α}
    {G : List Token → α → Nat → Prop} (hreads : Reads m (Keeps levels values G))
    (hderives : ∀ w a depth, G w a depth → rule.Derives w none) {c d : Cursor} {a : α}
    {height : Nat} (hc : c.OnStream) (hm : m c = .ok a d) : rule.HasRead c d none height := by
  obtain ⟨w, hpath, depth, hG, -⟩ := hreads c hc a d hm
  exact ⟨⟨w, hpath, hderives w a depth hG⟩, fun _ he => nomatch he⟩

/-- The call of a rule for expressions is exact. -/
theorem Follows.callMeasured {m : Reader Measured} {n : Counting Expression}
    {G : List Token → Expression → Nat → Prop} (hreads : Reads m (Measures levels G))
    (hderives : ∀ w e depth, G w e depth → rule.Derives w (some e))
    (hfails : ∀ c e d, m c = .error e d → rule.FailsAt levels c)
    (h : Follows levels P owed F m n Tells) :
    Follows levels P (rule :: owed) F m (Counting.call rule some n) Tells :=
  h.call hfails fun _ _ _ _ _ hc hm hR => hasRead_of_measures hreads hderives hc hm hR

/-- The call of a block or a statement is exact. -/
theorem Follows.callOther {R : α → α → Nat → Prop} {values : α → List Expression} {m : Reader α}
    {n : Counting α} {G : List Token → α → Nat → Prop} (hreads : Reads m (Keeps levels values G))
    (hderives : ∀ w a depth, G w a depth → rule.Derives w none)
    (hfails : ∀ c e d, m c = .error e d → rule.FailsAt levels c)
    (h : Follows levels P owed F m n R) :
    Follows levels P (rule :: owed) F m (Counting.call rule (fun _ => none) n) R :=
  h.call hfails fun _ _ _ _ _ hc hm _ => hasRead_of_keeps hreads hderives hc hm

end Calls

end MiniPascal
