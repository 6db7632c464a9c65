import MiniPascal.Proofs.Reading.Records
import MiniPascal.Proofs.Reading.Sound

/-!
# Proofs — Reading — Following

What a counting reader owes to the plain one, and how that goes together.  `FollowsAt rs s m n Q`
says that from `s` on the counting reader `n` does what the plain `m` does: it yields a value, on
the level where it began and with every call returned (`Counted.Level`), or the same fault, with
calls left open only of rules that fail (`Counted.Halts`); and in either case what is on record is
exact and complete.  It holds of a whole if it holds of the parts (`FollowsAt.bind`), of a step over
a token where no call is owed (`FollowsAt.consume_bind`), and of a loop if it holds of a round
(`FollowsAt.iterate`).
-/

namespace MiniPascal

open Reader Enclosing

/-! ### From one state to another -/

namespace Counted

variable {rs : List Pulled} {s t u : Counted} {c : Cursor}

/-- The depth is within the limit, and every record is exact. -/
structure Sound (rs : List Pulled) (s : Counted) : Prop where
  depth   : s.tally.depth ≤ nestingLimit
  records : ∀ r ∈ s.records, r.Exact rs

theorem Sound.moved {now : Tally} (h : s.Sound rs) (hnow : now.depth ≤ nestingLimit) :
    (s.moved now).Sound rs :=
  ⟨hnow, List.forall_mem_cons.2 ⟨hnow, h.records⟩⟩

/-- A counting reader comes from `s` to `t` on the same level, and returns from every call that it
makes on the way. -/
structure Level (rs : List Pulled) (s t : Counted) : Prop where
  depth  : t.tally.depth = s.tally.depth
  sound  : t.Sound rs
  closed : ∀ opened, Leaves s.records opened → Leaves t.records opened

theorem Level.refl (h : s.Sound rs) : s.Level rs s := ⟨rfl, h, fun _ => id⟩

theorem Level.trans (h : s.Level rs t) (h' : t.Level rs u) : s.Level rs u :=
  ⟨h'.depth.trans h.depth, h'.sound, fun opened hs => h'.closed opened (h.closed opened hs)⟩

/-- Cursor and height may change on a level. -/
theorem Level.moved {now : Tally} (h : s.Sound rs) (hnow : now.depth = s.tally.depth) :
    s.Level rs (s.moved now) :=
  ⟨hnow, h.moved (hnow ▸ h.depth), fun _ => .reached now⟩

/-- A counting reader that was at `s` stops with a fault at `t`, where `c` is the cursor of the
plain one.  The calls left open since then are of rules that fail. -/
structure Halts (rs : List Pulled) (s : Counted) (c : Cursor) (t : Counted) : Prop where
  sound  : t.Sound rs
  told   : ∃ v r, Told rs v r c.rest t.records
  opened : ∀ opened, Leaves s.records opened → ∃ more, Leaves t.records (more ++ opened) ∧
    ∀ call ∈ more, call.1.FailsAt (nestingLimit - call.2.depth) call.2.cursor

/-- What comes before a stop leaves no call open, if it is on a level or only goes down. -/
theorem Halts.before (h : t.Halts rs c u)
    (hclosed : ∀ opened, Leaves s.records opened → Leaves t.records opened) : s.Halts rs c u :=
  ⟨h.sound, h.told, fun opened hs => h.opened opened (hclosed opened hs)⟩

/-- A stop right where the reader stands. -/
theorem Halts.here (hs : s.Sound rs) (htold : ∃ v r, Told rs v r c.rest s.records) :
    s.Halts rs c s :=
  ⟨hs, htold, fun _ h => ⟨[], h, List.forall_mem_nil _⟩⟩

/-- A stop after one more state on record. -/
theorem Halts.moved {now : Tally} (hs : s.Sound rs) (hnow : now.depth = s.tally.depth)
    (htold : ∃ v r, Told rs v r c.rest s.records) : s.Halts rs c (s.moved now) where
  sound  := hs.moved (hnow ▸ hs.depth)
  told   := by
    obtain ⟨v, r, h⟩ := htold
    exact ⟨v, r, h.note_reached now⟩
  opened := fun _ h => ⟨[], .reached now h, List.forall_mem_nil _⟩

/-- A counting reader stands where `o` encloses it, and still owes some calls there. -/
def At (rs : List Pulled) (o : Enclosing) (owed : List Rule) (s : Counted) : Prop :=
  ∃ v, behind v = o ∧ s.Owes rs v owed

variable {o : Enclosing} {owed : List Rule}

/-- Setting counters does not change what is due. -/
theorem At.moved {now : Tally} (h : s.At rs o owed) (hnow : now.cursor = s.tally.cursor) :
    (s.moved now).At rs o owed := by
  obtain ⟨v, hv, h⟩ := h
  exact ⟨v, hv, h.moved hnow⟩

/-- At every place the records tell of the tokens behind it. -/
theorem At.told (h : s.At rs o owed) : ∃ v r, Told rs v r s.tally.cursor.rest s.records := by
  obtain ⟨v, -, h⟩ := h
  exact ⟨v, _, h.told_here⟩

end Counted

/-! ### Following -/

variable {α β γ δ : Type} {rs : List Pulled} {s : Counted} {o : Enclosing}

/-- From `s` on, `n` does what `m` does, and what it yields is as `Q` says. -/
structure FollowsAt (rs : List Pulled) (s : Counted) (m : Reader α) (n : Counting β)
    (Q : α → β → Counted → Prop) : Prop where
  ok    : ∀ a c, m s.tally.cursor = .ok a c →
    ∃ b t, n s = .ok b t ∧ t.tally.cursor = c ∧ s.Level rs t ∧ Q a b t
  error : ∀ e c, m s.tally.cursor = .error e c → ∃ t, n s = .error (.fault e) t ∧ s.Halts rs c t

namespace FollowsAt

variable {m : Reader α} {n : Counting β} {k : α → Reader γ} {l : β → Counting δ}
  {Q : α → β → Counted → Prop} {R : γ → δ → Counted → Prop}

/-- A value is followed by a value. -/
theorem value {a : α} {b : β} (hs : s.Sound rs) (h : Q a b s) :
    FollowsAt rs s (pure a) (pure b) Q := by
  constructor
  · intro a' c hm
    obtain ⟨rfl, rfl⟩ := EStateM.Result.ok.inj hm
    exact ⟨b, s, rfl, rfl, .refl hs, h⟩
  · intro e c hm
    cases hm

/-- A whole follows if its parts do. -/
theorem bind (h : FollowsAt rs s m n Q)
    (hk : ∀ a b t, m s.tally.cursor = .ok a t.tally.cursor → s.Level rs t → Q a b t →
      FollowsAt rs t (k a) (l b) R) : FollowsAt rs s (m >>= k) (n >>= l) R where
  ok    := by
    intro c d hm
    obtain ⟨a, e, hm, hk'⟩ := bind_eq_ok.1 hm
    obtain ⟨b, t, hn, rfl, hlevel, hQ⟩ := h.ok a e hm
    obtain ⟨b', u, hl, hcursor, hlevel', hR⟩ := (hk a b t hm hlevel hQ).ok c d hk'
    refine ⟨b', u, ?_, hcursor, hlevel.trans hlevel', hR⟩
    rw [bind_of_ok hn, hl]
  error := by
    intro e d hm
    rcases bind_eq_error.1 hm with hm | ⟨a, c, hm, hk'⟩
    · obtain ⟨t, hn, hhalts⟩ := h.error e d hm
      exact ⟨t, bind_of_error hn, hhalts⟩
    · obtain ⟨b, t, hn, rfl, hlevel, hQ⟩ := h.ok a c hm
      obtain ⟨u, hl, hhalts⟩ := (hk a b t hm hlevel hQ).error e d hk'
      exact ⟨u, by rw [bind_of_ok hn, hl], hhalts.before hlevel.closed⟩

/-- What has been reached may be said with less. -/
theorem mono {Q' : α → β → Counted → Prop} (h : FollowsAt rs s m n Q)
    (hQ : ∀ a b t, s.Level rs t → Q a b t → Q' a b t) : FollowsAt rs s m n Q' where
  ok    := by
    intro a c hm
    obtain ⟨b, t, hn, hcursor, hlevel, h⟩ := h.ok a c hm
    exact ⟨b, t, hn, hcursor, hlevel, hQ a b t hlevel h⟩
  error := h.error

/-- A fault is followed by itself, whatever either side should have yielded. -/
theorem fail {m : Reader α} {m' : Reader β} (hs : s.Sound rs)
    (htold : ∃ v r, Told rs v r s.tally.cursor.rest s.records)
    (h : ∃ e, m s.tally.cursor = .error e s.tally.cursor ∧
      m' s.tally.cursor = .error e s.tally.cursor) :
    FollowsAt rs s m (liftM m' : Counting β) Q := by
  obtain ⟨e, hm, hm'⟩ := h
  constructor
  · intro a d h
    rw [hm] at h
    cases h
  · intro e' d h
    rw [hm] at h
    cases h
    have hn : Counting.lift m' s = .error (.fault e) (s.moved s.tally) := by
      rw [Counting.lift, hm']
    exact ⟨_, hn, .moved hs rfl htold⟩

/-- A fault of its own is one too. -/
theorem throw {e : Located ReadingFault} (hs : s.Sound rs)
    (htold : ∃ v r, Told rs v r s.tally.cursor.rest s.records) :
    FollowsAt rs s (throw e : Reader α) (throw (.fault e) : Counting β) Q := by
  constructor
  · intro a c hm
    cases hm
  · intro e' c hm
    cases hm
    exact ⟨s, rfl, .here hs htold⟩

/-- The counters may be looked at on the way. -/
theorem tally_bind {l : Tally → Counting β} (h : FollowsAt rs s m (l s.tally) Q) :
    FollowsAt rs s m (Counting.tally >>= l) Q := ⟨h.ok, h.error⟩

/-- Both look at the same token. -/
theorem peek_bind {k : Token → Reader α} {l : Token → Counting β}
    (h : FollowsAt rs s (k s.tally.cursor.current) (l s.tally.cursor.current) Q) :
    FollowsAt rs s (peek >>= k) (Counting.peek >>= l) Q := ⟨h.ok, h.error⟩

/-- The height may be set on the way. -/
theorem setHeight_bind {height : Nat} {l : Unit → Counting β} (hs : s.Sound rs)
    (h : FollowsAt rs (s.moved { s.tally with height }) m (l ()) Q) :
    FollowsAt rs s m (Counting.setHeight height >>= l) Q := by
  have hmoved : s.Level rs (s.moved { s.tally with height }) := .moved hs rfl
  constructor
  · intro a c hm
    obtain ⟨b, t, hl, hcursor, hlevel, hQ⟩ := h.ok a c hm
    exact ⟨b, t, hl, hcursor, hmoved.trans hlevel, hQ⟩
  · intro e c hm
    obtain ⟨t, hl, hhalts⟩ := h.error e c hm
    exact ⟨t, hl, hhalts.before hmoved.closed⟩

end FollowsAt

/-! ### Steps over tokens -/

/-- The state with another cursor, on record. -/
def Counted.step (s : Counted) (c : Cursor) : Counted := s.moved { s.tally with cursor := c }

/-- A reader that fails does so where it stands, or at a lexical fault behind the token that it
consumes. -/
def Reader.IsStep (m : Reader α) : Prop :=
  ∀ c e d, m c = .error e d → d = c ∨ ∃ f, c.rest = .error f :: d.rest

section Steps

variable {m : Reader α} {f : α → Reader β}

/-- Consuming a token is a plain step; so are the ones below. -/
theorem isStep_take : Reader.take.IsStep := by
  rintro ⟨current, rest, previous⟩ e d h
  match rest, h with
  | .error f :: _, h =>
      cases h
      exact .inr ⟨f, rfl⟩

/-- What is done with the value of a step may not fail. -/
theorem Reader.IsStep.map (h : m.IsStep) (hf : ∀ a c e d, f a c ≠ .error e d) :
    Reader.IsStep (m >>= f) := by
  intro c e d hm
  rcases bind_eq_error.1 hm with hm | ⟨a, b, -, hfault⟩
  · exact h c e d hm
  · exact absurd hfault (hf a b e d)

theorem isStep_failExpected (what : Expected) :
    (Reader.failExpected what : Reader α).IsStep := by
  intro c e d h
  cases h
  exact .inl rfl

/-- Looking at a token first does not change what a step is. -/
theorem isStep_peek {k : Token → Reader α} (h : ∀ t, (k t).IsStep) :
    Reader.IsStep (Reader.peek >>= k) := fun c => h c.current c

/-- A required token that does not stand there is at fault itself; one that does is consumed. -/
theorem eq_or_rest_of_require {kind : Token.Kind} {what : Expected} {c d : Cursor}
    {e : Located ReadingFault} (h : Reader.require kind what c = .error e d) :
    d = c ∨ c.current.kind = kind ∧ ∃ f, c.rest = .error f :: d.rest := by
  rw [Reader.require, Reader.peek_bind] at h
  split at h
  · next hkind => exact (isStep_take c e d h).imp_right fun hrest => ⟨hkind, hrest⟩
  · cases h
    exact .inl rfl

theorem isStep_require (kind : Token.Kind) (what : Expected) :
    (Reader.require kind what).IsStep :=
  fun _ _ _ h => (eq_or_rest_of_require h).imp_right And.right

theorem isStep_name (what : Expected) : (Reader.name what).IsStep :=
  (isStep_require .identifier what).map fun _ _ _ _ h => nomatch h

theorem isStep_typeName : Reader.typeName.IsStep := by
  refine isStep_peek fun t => ?_
  split
  · exact isStep_take.map fun _ _ _ _ h => nomatch h
  · exact isStep_take.map fun _ _ _ _ h => nomatch h
  · exact isStep_failExpected .typeName

theorem isStep_heightAbove (child : Nat) : (Reader.heightAbove child).IsStep := by
  intro c e d h
  unfold heightAbove at h
  split at h
  · cases h
  · cases h
    exact .inl rfl

theorem isStep_spanFrom (start : Span) : (Reader.spanFrom start).IsStep := by
  intro c e d h
  cases h

/-- A step that fails where nothing is owed has told of all tokens up to there. -/
theorem Counted.At.told_step (h : s.At rs o []) (hm : m.IsStep) {e : Located ReadingFault}
    {d : Cursor} (hfault : m s.tally.cursor = .error e d) :
    ∃ v r, Told rs v r d.rest s.records := by
  obtain ⟨v, -, howes⟩ := h
  rcases hm _ _ _ hfault with rfl | ⟨f, hrest⟩
  · exact ⟨v, _, howes.told_here⟩
  · refine ⟨_, _, howes.told_fault hrest ?_ ?_⟩
    · exact howes.called_eq ▸ List.prefix_rfl
    · rw [howes.called_eq, callsBehind_concat, List.append_assoc]
      exact List.prefix_append _ _

end Steps

/-- The name of a type opens nothing and announces nothing. -/
theorem past_of_typeName {k : Token.Kind} {type : TypeName} (h : TypeName.ofKind? k = some type) :
    o.past k = ⟨o.openers, false⟩ ∧ o.announced k = [] := by
  cases k <;> first | exact ⟨rfl, rfl⟩ | cases h

namespace FollowsAt

variable {m : Reader α} {k : α → Reader γ} {l : α → Counting δ} {R : γ → δ → Counted → Prop}

/-- A plain step is followed by itself, and then by what follows the rest. -/
theorem lift_bind (hs : s.Sound rs)
    (htold : ∀ e c, m s.tally.cursor = .error e c → ∃ v r, Told rs v r c.rest s.records)
    (hk : ∀ a c, m s.tally.cursor = .ok a c → s.Level rs (s.step c) →
      FollowsAt rs (s.step c) (k a) (l a) R) : FollowsAt rs s (m >>= k) (liftM m >>= l) R := by
  have hlift : FollowsAt rs s m (liftM m : Counting α) fun a b t =>
      b = a ∧ t = s.step t.tally.cursor := by
    constructor
    · intro a c hm
      have hn : Counting.lift m s = .ok a (s.step c) := by
        rw [Counting.lift, hm]
        rfl
      exact ⟨a, _, hn, rfl, .moved hs rfl, rfl, rfl⟩
    · intro e c hm
      have hn : Counting.lift m s = .error (.fault e) (s.step c) := by
        rw [Counting.lift, hm]
        rfl
      exact ⟨_, hn, .moved hs rfl (htold e c hm)⟩
  refine hlift.bind fun a b t hm hlevel hQ => ?_
  obtain ⟨rfl, ht⟩ := hQ
  rw [ht] at hlevel ⊢
  exact hk b _ hm hlevel

/-- Both consume one token, where nothing is owed.  Behind it what it announces is. -/
theorem consume_bind {P : Token → α → Prop} (hs : s.Sound rs) (hat : s.At rs o []) (hm : m.IsStep)
    (hok : ∀ a d, m s.tally.cursor = .ok a d →
      ∃ u, s.tally.cursor.Path [u] d ∧ u.kind ≠ .beginWord ∧ P u a)
    (hk : ∀ u a c, P u a → s.Level rs (s.step c) →
      (s.step c).At rs (o.past u.kind) (o.announced u.kind) →
        FollowsAt rs (s.step c) (k a) (l a) R) : FollowsAt rs s (m >>= k) (liftM m >>= l) R := by
  refine .lift_bind hs (fun e c h => hat.told_step hm h) fun a c h hlevel => ?_
  obtain ⟨u, hpath, hkind, hP⟩ := hok a c h
  obtain ⟨v, rfl, howes⟩ := hat
  have hcalled : called rs s.records =
      callsBehind v ++ (Rule.beginningWith u.kind).map (·, v.length) := by
    have hnone : Rule.beginningWith u.kind = [] := by
      cases hu : u.kind <;> first | rfl | exact absurd hu hkind
    rw [howes.called_eq, hnone, List.map_nil, List.append_nil]
  exact hk u a c hP hlevel ⟨_, behind_concat v u, howes.owes_take hcalled hpath⟩

/-- Both consume the token looked at. -/
theorem take_bind {kind : Token.Kind} {k : Token → Reader γ} {l : Token → Counting δ}
    (hs : s.Sound rs) (hat : s.At rs o []) (hkind : s.tally.cursor.current.kind = kind)
    (hne : kind ≠ .eof ∧ kind ≠ .beginWord)
    (hk : ∀ c, s.Level rs (s.step c) → (s.step c).At rs (o.past kind) (o.announced kind) →
      FollowsAt rs (s.step c) (k s.tally.cursor.current) (l s.tally.cursor.current) R) :
    FollowsAt rs s (take >>= k) (liftM take >>= l) R := by
  obtain ⟨v, -, howes⟩ := id hat
  refine .consume_bind (P := fun u t => t = s.tally.cursor.current ∧ u.kind = kind) hs hat
    isStep_take (fun t d htake => ?_) fun u t c hP hlevel hc => ?_
  · obtain ⟨rfl, hpath⟩ := path_of_take howes.onStream htake (hkind ▸ hne.1)
    exact ⟨_, hpath, hkind ▸ hne.2, rfl, hkind⟩
  · obtain ⟨rfl, hu⟩ := hP
    exact hk c hlevel (hu ▸ hc)

/-- Both consume a token of a kind, or say that it should stand there. -/
theorem require_bind {kind : Token.Kind} {what : Expected} {k : Token → Reader γ}
    {l : Token → Counting δ} (hs : s.Sound rs) (hat : s.At rs o [])
    (hne : kind ≠ .eof ∧ kind ≠ .beginWord)
    (hk : ∀ u c, s.Level rs (s.step c) → (s.step c).At rs (o.past kind) (o.announced kind) →
      FollowsAt rs (s.step c) (k u) (l u) R) :
    FollowsAt rs s (require kind what >>= k) (liftM (require kind what) >>= l) R := by
  obtain ⟨v, -, howes⟩ := id hat
  refine .consume_bind (P := fun u _ => u.kind = kind) hs hat (isStep_require kind what)
    (fun u d hrequire => ?_) fun u a c hu hlevel hc => hk a c hlevel (hu ▸ hc)
  obtain ⟨hu, hpath⟩ := path_of_require howes.onStream hrequire hne.1
  exact ⟨u, hpath, hu ▸ hne.2, hu⟩

/-- Both consume a name, or say that it should stand there. -/
theorem name_bind {what : Expected} {k : String × Span → Reader γ}
    {l : String × Span → Counting δ} (hs : s.Sound rs) (hat : s.At rs o [])
    (hk : ∀ n c, s.Level rs (s.step c) → (s.step c).At rs (endOperand o.openers) [] →
      FollowsAt rs (s.step c) (k n) (l n) R) :
    FollowsAt rs s (name what >>= k) (liftM (name what) >>= l) R := by
  obtain ⟨v, -, howes⟩ := id hat
  refine .consume_bind (P := fun u _ => u.kind = .identifier) hs hat (isStep_name what)
    (fun n d hname => ?_) fun u n c hu hlevel hc => hk n c hlevel ?_
  · obtain ⟨u, hpath, hu, -⟩ := path_of_name howes.onStream hname
    exact ⟨u, hpath, by rw [hu]; exact nofun, hu⟩
  · rw [hu] at hc
    exact hc

/-- Both consume the name of a type, or say that it should stand there. -/
theorem typeName_bind {k : TypeName × Span → Reader γ} {l : TypeName × Span → Counting δ}
    (hs : s.Sound rs) (hat : s.At rs o [])
    (hk : ∀ n c, s.Level rs (s.step c) → (s.step c).At rs ⟨o.openers, false⟩ [] →
      FollowsAt rs (s.step c) (k n) (l n) R) :
    FollowsAt rs s (typeName >>= k) (liftM typeName >>= l) R := by
  obtain ⟨v, -, howes⟩ := id hat
  refine .consume_bind (P := fun u n => TypeName.ofKind? u.kind = some n.1) hs hat
    isStep_typeName (fun n d htype => ?_) fun u n c hu hlevel hc => hk n c hlevel ?_
  · obtain ⟨_, hpath, u, rfl, hu, -⟩ := typeName_reads _ howes.onStream n d htype
    refine ⟨u, hpath, fun hbegin => ?_, hu⟩
    rw [hbegin] at hu
    cases hu
  · rwa [(past_of_typeName hu).1, (past_of_typeName hu).2] at hc

/-- Both go on where they stand. -/
theorem stay_bind {P : α → Prop} (hs : s.Sound rs) (hat : s.At rs o []) (hm : m.IsStep)
    (hok : ∀ a d, m s.tally.cursor = .ok a d → d = s.tally.cursor ∧ P a)
    (hk : ∀ a c, P a → s.Level rs (s.step c) → (s.step c).At rs o [] →
      FollowsAt rs (s.step c) (k a) (l a) R) : FollowsAt rs s (m >>= k) (liftM m >>= l) R := by
  refine .lift_bind hs (fun e c h => hat.told_step hm h) fun a c h hlevel => ?_
  obtain ⟨rfl, hP⟩ := hok a c h
  exact hk a _ hP hlevel (hat.moved rfl)

/-- A stretch ends with the token consumed last. -/
theorem spanFrom_bind {start : Span} {k : Span → Reader γ} {l : Span → Counting δ}
    (hs : s.Sound rs) (hat : s.At rs o [])
    (hk : ∀ span c, s.Level rs (s.step c) → (s.step c).At rs o [] →
      FollowsAt rs (s.step c) (k span) (l span) R) :
    FollowsAt rs s (spanFrom start >>= k) (liftM (spanFrom start) >>= l) R :=
  .stay_bind (P := fun _ => True) hs hat (isStep_spanFrom start)
    (fun _ _ h => ⟨(spanFrom_eq_ok h).1, trivial⟩) fun span c _ => hk span c

/-- A height is above another, or too high. -/
theorem heightAbove_bind {child : Nat} {k : Nat → Reader γ} {l : Nat → Counting δ}
    (hs : s.Sound rs) (hat : s.At rs o [])
    (hk : ∀ c, s.Level rs (s.step c) → (s.step c).At rs o [] →
      FollowsAt rs (s.step c) (k (child + 1)) (l (child + 1)) R) :
    FollowsAt rs s (heightAbove child >>= k) (liftM (heightAbove child) >>= l) R := by
  refine .stay_bind (P := fun n => n = child + 1) hs hat (isStep_heightAbove child)
    (fun n d habove => ?_) fun n c hn hlevel hc => ?_
  · obtain ⟨-, hn, hd⟩ := heightAbove_eq_ok habove
    exact ⟨hd, hn⟩
  · rw [hn]
    exact hk c hlevel hc

/-! ### Loops -/

section Loops

variable {test : Token.Kind → Option γ} {step : γ → α → Reader α} {step' : γ → α → Counting α}
  {I : Counted → Prop}

/-- A loop follows if each round does, and keeps what each round keeps of the state. -/
theorem iterate (hsound : ∀ s, I s → s.Sound rs)
    (hstep : ∀ s a x, I s → test s.tally.cursor.current.kind = some x →
      FollowsAt rs s (step x a) (step' x a) fun b b' t => b' = b ∧ I t) (rounds : Nat) :
    ∀ s a, I s → FollowsAt rs s (Reader.iterate test step rounds a)
      (Counting.iterate test step' rounds a) fun b b' t => b' = b ∧ I t := by
  induction rounds with
  | zero => exact fun s a hI => .value (hsound s hI) ⟨rfl, hI⟩
  | succ rounds ih =>
      intro s a hI
      rw [Reader.iterate, Counting.iterate]
      refine .peek_bind ?_
      cases htest : test s.tally.cursor.current.kind with
      | none => exact .value (hsound s hI) ⟨rfl, hI⟩
      | some x =>
          refine (hstep s a x hI htest).bind fun b b' t _ _ hQ => ?_
          obtain ⟨rfl, hI⟩ := hQ
          exact ih t b' hI

/-- Loops follow each other with an invariant that their steps keep. -/
theorem whileAt (hsound : ∀ s, I s → s.Sound rs)
    (hstep : ∀ s a x, I s → test s.tally.cursor.current.kind = some x →
      FollowsAt rs s (step x a) (step' x a) fun b b' t => b' = b ∧ I t) {a : α} (hs : I s) :
    FollowsAt rs s (Reader.whileAt test step a) (Counting.whileAt test step' a)
      fun b b' t => b' = b ∧ I t := by
  have h := iterate hsound hstep (s.tally.cursor.rest.length + 1) s a hs
  exact .tally_bind ⟨h.ok, h.error⟩

/-- A list with separators follows if what is listed does: `J` holds where the next thing may begin,
and `I` behind it. -/
theorem separated {separator : Token.Kind} {one : Reader α} {one' : Counting α}
    {I J : Counted → Prop} (hne : separator ≠ .eof ∧ separator ≠ .beginWord)
    (hsound : ∀ s, I s → s.Sound rs)
    (hone : ∀ s, J s → FollowsAt rs s one one' fun a b t => b = a ∧ I t)
    (hnext : ∀ s, I s → s.tally.cursor.current.kind = separator → ∃ o, s.At rs o [] ∧
      ∀ c, s.Level rs (s.step c) →
        (s.step c).At rs (o.past separator) (o.announced separator) → J (s.step c)) (hs : J s) :
    FollowsAt rs s (Reader.separated separator one) (Counting.separated separator one')
      fun as bs t => bs = as ∧ I t := by
  have hstep : ∀ s as (x : Unit), I s → only separator s.tally.cursor.current.kind = some x →
      FollowsAt rs s (Reader.separatedStep one x as)
        (do
          let _ ← take
          return as.push (← one')) fun bs bs' t => bs' = bs ∧ I t := by
    intro s as x hI htest
    obtain ⟨o, hat, hJ⟩ := hnext s hI (eq_of_only htest)
    refine .take_bind (hsound s hI) hat (eq_of_only htest) hne fun c hlevel hc => ?_
    refine (hone _ (hJ c hlevel hc)).bind fun a b t _ hlevel' hQ => ?_
    obtain ⟨rfl, ht⟩ := hQ
    exact .value hlevel'.sound ⟨rfl, ht⟩
  refine (hone s hs).bind fun a b t _ _ hQ => ?_
  obtain ⟨rfl, ht⟩ := hQ
  exact .whileAt hsound hstep ht

end Loops

end FollowsAt

end MiniPascal
