import MiniPascal.Proofs.Json.Text

/-!
# Proofs — Json — Reading

A reader of JSON texts.  A text is first taken apart into its pieces (`pieces?`).  These are then
shifted onto a stack from the last to the first; where a bracket opens, all up to the bracket that
closes becomes one value again (`shift`).  Main statements: of every text of a value that value is
read (`read?_of_isText`), and so of all that is rendered (`read?_render`).
-/

namespace MiniPascal

namespace Json

/-! ### Strings -/

/-- The characters of a string up to its closing quote, and the text behind it. -/
def unquote : List Char → Option (List Char × List Char)
  | '"' :: text                             => some ([], text)
  | '\\' :: 'u' :: a :: b :: c :: d :: text =>
      (ofCode? a b c d).bind fun e => (unquote text).map (Prod.map (e :: ·) id)
  | '\\' :: e :: text                       =>
      (shortEscapes.lookup e).bind fun c => (unquote text).map (Prod.map (c :: ·) id)
  | c :: text                               =>
      if c.toNat < 0x20 ∨ c = '\\' then none else (unquote text).map (Prod.map (c :: ·) id)
  | []                                      => none
termination_by structural text => text

/-- The short escapes are told apart by their letters, and none of them is the letter of the long
ones. -/
theorem lookup_shortEscapes :
    ∀ p ∈ shortEscapes, shortEscapes.lookup p.1 = some p.2 ∧ p.1 ≠ 'u' := by
  decide

/-- What is escaped is read back up to the closing quotation mark. -/
theorem unquote_of_isEscaped {body s : List Char} (h : IsEscaped body s) (text : List Char) :
    unquote (body ++ '"' :: text) = some (s, text) := by
  induction h with
  | nil => rfl
  | plain hcode hquote hbackslash _ ih =>
      rw [List.cons_append, unquote, if_neg (not_or.2 ⟨Nat.not_lt_of_le hcode, hbackslash⟩), ih]
      · rfl
      · exact hquote
      · exact fun _ _ _ _ _ h _ => hbackslash h
      · exact fun _ _ h _ => hbackslash h
  | short he _ ih =>
      obtain ⟨hlookup, hne⟩ := lookup_shortEscapes _ he
      rw [List.cons_append, List.cons_append, unquote, hlookup, ih]
      · rfl
      · exact fun _ _ _ _ _ h _ => hne h
  | code he _ ih =>
      simp only [List.cons_append, unquote, he, ih]
      rfl

/-- The closing quote at least is taken. -/
theorem length_unquote {text : List Char} :
    ∀ {s rest : List Char}, unquote text = some (s, rest) → rest.length < text.length := by
  fun_induction unquote text with
  | case1 text =>
      rintro _ _ ⟨⟩
      exact Nat.lt_succ_self _
  | case2 a b c d text ih =>
      intro _ _ h
      obtain ⟨_, -, h⟩ := Option.bind_eq_some_iff.1 h
      obtain ⟨⟨s, rest⟩, hrest, ⟨⟩⟩ := Option.map_eq_some_iff.1 h
      exact (ih hrest).trans (Nat.lt_add_of_pos_right (n := text.length) (k := 6) (by decide))
  | case3 e text _ ih =>
      intro _ _ h
      obtain ⟨_, -, h⟩ := Option.bind_eq_some_iff.1 h
      obtain ⟨⟨s, rest⟩, hrest, ⟨⟩⟩ := Option.map_eq_some_iff.1 h
      exact (ih hrest).trans (Nat.lt_add_of_pos_right (n := text.length) (k := 2) (by decide))
  | case4 => nofun
  | case5 c text _ _ _ _ ih =>
      intro _ _ h
      obtain ⟨⟨s, rest⟩, hrest, ⟨⟩⟩ := Option.map_eq_some_iff.1 h
      exact (ih hrest).trans (Nat.lt_succ_self _)
  | case6 => nofun

/-! ### Words and numbers -/

/-- The value of a word or a number. -/
def bare? (word : List Char) : Option Json :=
  (number? word).or <|
    if word = ['n', 'u', 'l', 'l'] then some .null
    else if word = ['t', 'r', 'u', 'e'] then some (.bool true)
    else if word = ['f', 'a', 'l', 's', 'e'] then some (.bool false)
    else none

/-- A word that stands for a value is read as this value. -/
theorem bare?_of_isBare {j : Json} {word : List Char} (h : IsBare j word) :
    bare? word = some j := by
  cases h with
  | null => rfl
  | true => rfl
  | false => rfl
  | number _ hj => rw [bare?, hj, Option.some_or]

/-- The characters of numbers. -/
def isNumberChar (c : Char) : Bool := c.isDigit || c ∈ ['-', '+', '.', 'e']

/-- No character of a number ends a word. -/
theorem endsWord_of_isNumberChar {c : Char} (h : isNumberChar c = true) : endsWord c = false := by
  rw [Bool.eq_false_iff]
  intro hend
  rw [endsWord, Bool.or_eq_true, Bool.or_eq_true] at hend
  rcases hend with (hblank | hmark) | hquote
  · rw [isBlank, decide_eq_true_eq] at hblank
    rcases hblank with rfl | rfl | rfl | rfl <;> cases h
  · obtain ⟨m, hm⟩ := Option.isSome_iff_exists.1 hmark
    obtain rfl : m.char = c := by simpa using List.find?_some hm
    cases m <;> cases h
  · obtain rfl := of_decide_eq_true hquote
    cases h

theorem isNumberChar_of_isUnsigned {word : List Char} (h : IsUnsigned word) :
    ∀ c ∈ word, isNumberChar c = true := by
  have hdigits : ∀ {ds : List Char}, AllDigits ds → ∀ c ∈ ds, isNumberChar c = true :=
    fun hds c hc => by rw [isNumberChar, hds c hc, Bool.true_or]
  obtain ⟨whole, fraction, power, rfl, ⟨-, hwhole, -⟩, hfraction, hpower⟩ := h
  rw [List.forall_mem_append, List.forall_mem_append]
  refine ⟨hdigits hwhole, ?_, ?_⟩
  · rcases hfraction with rfl | ⟨ds, rfl, -, hds⟩
    · nofun
    · exact List.forall_mem_cons.2 ⟨rfl, hdigits hds⟩
  · rcases hpower with rfl | ⟨sign, ds, rfl, hsign, -, hds⟩
    · nofun
    · rw [List.forall_mem_cons, List.forall_mem_append]
      refine ⟨rfl, ?_, hdigits hds⟩
      rcases hsign with rfl | rfl | rfl
      · nofun
      · exact List.forall_mem_singleton.2 rfl
      · exact List.forall_mem_singleton.2 rfl

/-- A number consists of characters of numbers. -/
theorem isNumberChar_of_isNumber {word : List Char} (h : IsNumber word) :
    ∀ c ∈ word, isNumberChar c = true := by
  rcases h with hunsigned | ⟨unsigned, rfl, hunsigned⟩
  · exact isNumberChar_of_isUnsigned hunsigned
  · exact List.forall_mem_cons.2 ⟨rfl, isNumberChar_of_isUnsigned hunsigned⟩

theorem IsNumber.ne_nil {word : List Char} (h : IsNumber word) : word ≠ [] := by
  rcases h with hunsigned | ⟨unsigned, rfl, -⟩
  · obtain ⟨c, cs, rfl, -⟩ := beginsWithDigit_of_isUnsigned hunsigned
    exact List.cons_ne_nil _ _
  · exact List.cons_ne_nil _ _

/-- A word or a number does not end within. -/
theorem endsWord_of_isBare {j : Json} {word : List Char} (h : IsBare j word) :
    word ≠ [] ∧ ∀ c ∈ word, endsWord c = false := by
  have hall : ∀ {cs : List Char}, cs.all (!endsWord ·) = true → ∀ c ∈ cs, endsWord c = false :=
    fun h c hc => by simpa using List.all_eq_true.1 h c hc
  cases h with
  | null => exact ⟨List.cons_ne_nil _ _, hall rfl⟩
  | true => exact ⟨List.cons_ne_nil _ _, hall rfl⟩
  | false => exact ⟨List.cons_ne_nil _ _, hall rfl⟩
  | number hword _ =>
      exact ⟨hword.ne_nil,
        fun c hc => endsWord_of_isNumberChar (isNumberChar_of_isNumber hword c hc)⟩

/-! ### Pieces -/

/-- The pieces of a text. -/
def pieces? : List Char → Option (List Piece)
  | []        => some []
  | c :: text =>
      if isBlank c then pieces? text
      else
        match Mark.ofChar? c with
        | some m => (pieces? text).map (.mark m :: ·)
        | none   =>
            if c = '"' then
              match h : unquote text with
              | none           => none
              | some (s, rest) =>
                  have := length_unquote h
                  (pieces? rest).map (.value (.str (.ofList s)) :: ·)
            else
              have := List.length_dropWhile_le (!endsWord ·) text
              (bare? (c :: text.takeWhile (!endsWord ·))).bind fun j =>
                (pieces? (text.dropWhile (!endsWord ·))).map (.value j :: ·)
termination_by text => text.length

section Steps

variable {c : Char} {text : List Char}

theorem pieces?_blank (hc : isBlank c = true) : pieces? (c :: text) = pieces? text := by
  rw [pieces?, if_pos hc]

theorem pieces?_mark (m : Mark) :
    pieces? (m.char :: text) = (pieces? text).map (.mark m :: ·) := by
  rw [pieces?, m.isBlank_char, if_neg Bool.false_ne_true, m.ofChar?_char]

/-- A string is one piece. -/
theorem pieces?_string {s rest : List Char} (h : unquote text = some (s, rest)) :
    pieces? ('"' :: text) = (pieces? rest).map (.value (.str (.ofList s)) :: ·) := by
  have hblank : isBlank '"' = false := rfl
  have hmark : Mark.ofChar? '"' = none := rfl
  rw [pieces?, hblank, if_neg Bool.false_ne_true, hmark]
  dsimp only
  rw [if_pos rfl]
  split
  · next hnone =>
      rw [h] at hnone
      cases hnone
  · next hsome =>
      rw [h] at hsome
      cases hsome
      rfl

/-- A word is one piece, if what follows ends it. -/
theorem pieces?_bare {j : Json} {word : List Char} (h : IsBare j word) (hend : EndsWord text) :
    pieces? (word ++ text) = (pieces? text).map (.value j :: ·) := by
  obtain ⟨hne, hword⟩ := endsWord_of_isBare h
  have hbare := bare?_of_isBare h
  obtain ⟨c, word, rfl⟩ := List.exists_cons_of_ne_nil hne
  obtain ⟨hc, hword⟩ := List.forall_mem_cons.1 hword
  rw [endsWord, Bool.or_eq_false_iff, Bool.or_eq_false_iff, decide_eq_false_iff_not,
    Option.isSome_eq_false_iff, Option.isNone_iff_eq_none] at hc
  obtain ⟨⟨hblank, hmark⟩, hquote⟩ := hc
  have hrun : ∀ c ∈ word, (!endsWord c) = true := fun c hc => by rw [hword c hc, Bool.not_false]
  have hstop : ∀ c ∈ text.head?, (!endsWord c) = false := fun c hc => by
    rw [hend c hc, Bool.not_true]
  rw [List.cons_append, pieces?, hblank, if_neg Bool.false_ne_true, hmark]
  simp only [if_neg hquote, takeWhile_append_of_stop hrun hstop,
    dropWhile_append_of_stop hrun hstop, hbare, Option.bind_some]

end Steps

/-- **A text is taken apart into the pieces that it is a layout of.** -/
theorem pieces?_of_laidOut {ps : List Piece} {text : List Char} (h : LaidOut ps text) :
    pieces? text = some ps := by
  induction h with
  | nil => rw [pieces?]
  | blank hc _ ih => rw [pieces?_blank hc, ih]
  | mark m _ ih => rw [pieces?_mark, ih, Option.map_some]
  | string hs _ ih => rw [pieces?_string (unquote_of_isEscaped hs _), ih, Option.map_some]
  | bare hj hend _ ih => rw [pieces?_bare hj hend, ih, Option.map_some]

/-! ### Values -/

def Piece.isMark (m : Mark) : Piece → Bool
  | .mark n  => n = m
  | .value _ => false

/-- Pieces taken apart at the commas. -/
def parts (ps : List Piece) : List (List Piece) :=
  if ps.isEmpty then [] else ps.splitOnP (·.isMark .comma)

/-- The parts that stand in front of the next closing bracket, and the pieces behind it. -/
def group? {α : Type} (closing : Mark) (part? : List Piece → Option α) (ps : List Piece) :
    Option (List α × List Piece) :=
  match ps.dropWhile (!·.isMark closing) with
  | []        => none
  | _ :: rest => ((parts (ps.takeWhile (!·.isMark closing))).mapM part?).map (·, rest)

/-- An element of an array that has been read. -/
def element? : List Piece → Option Json
  | [.value x] => some x
  | _          => none

/-- A field of an object that has been read. -/
def field? : List Piece → Option (String × Json)
  | [.value (.str k), .mark .colon, .value v] => some (k, v)
  | _                                         => none

/-- Puts a piece in front of others; a bracket that opens makes one value of all up to the one that
closes. -/
def shift : Piece → List Piece → Option (List Piece)
  | .mark .openArray, ps  =>
      (group? .closeArray element? ps).map fun g => .value (.arr g.1) :: g.2
  | .mark .openObject, ps =>
      (group? .closeObject field? ps).map fun g => .value (.obj g.1) :: g.2
  | p, ps                 => some (p :: ps)

/-- The value that a text is a text of. -/
def read? (text : String) : Option Json :=
  match (pieces? text.toList).bind fun ps => ps.foldrM shift [] with
  | some [.value j] => some j
  | _               => none

section Lists

variable {α : Type} {sep : α} {groups : List (List α)}

/-- What stands in a row with separators is a separator or stands in one of the groups. -/
theorem mem_intercalate {a : α} (h : a ∈ [sep].intercalate groups) :
    a = sep ∨ ∃ group ∈ groups, a ∈ group := by
  induction groups with
  | nil => cases h
  | cons group groups ih =>
      cases groups with
      | nil =>
          rw [List.intercalate_singleton] at h
          exact .inr ⟨group, .head _, h⟩
      | cons group' groups =>
          rw [List.intercalate_cons_cons, List.append_assoc, List.mem_append, List.singleton_append,
            List.mem_cons] at h
          rcases h with hgroup | rfl | hmore
          · exact .inr ⟨group, .head _, hgroup⟩
          · exact .inl rfl
          · exact (ih hmore).imp_right fun ⟨other, hother, ha⟩ => ⟨other, .tail _ hother, ha⟩

theorem intercalate_cons_ne_nil {group : List α} (h : group ≠ []) :
    [sep].intercalate (group :: groups) ≠ [] := by
  cases groups with
  | nil => rwa [List.intercalate_singleton]
  | cons _ _ => simp [List.intercalate_cons_cons, h]

/-- Splitting at the separators undoes putting them in, if no group has one of them inside. -/
theorem splitOnP_intercalate {p : α → Bool} (hsep : p sep = true)
    (h : ∀ group ∈ groups, ∀ a ∈ group, p a = false) (hne : groups ≠ []) :
    ([sep].intercalate groups).splitOnP p = groups := by
  induction groups with
  | nil => exact absurd rfl hne
  | cons group groups ih =>
      obtain ⟨hgroup, hgroups⟩ := List.forall_mem_cons.1 h
      cases groups with
      | nil => rw [List.intercalate_singleton, List.splitOnP_eq_singleton hgroup]
      | cons group' groups =>
          rw [List.intercalate_cons_cons, List.append_assoc, List.singleton_append,
            List.splitOnP_append_cons _ _ hsep, List.splitOnP_eq_singleton hgroup,
            ih hgroups (List.cons_ne_nil _ _), List.singleton_append]

end Lists

section Parts

/-- How a part of a value stands among the pieces once it has been read. -/
structure IsPart {α : Type} (part? : List Piece → Option α) (item : α → List Piece) : Prop where
  part?_item : ∀ a, part? (item a) = some a
  ne_nil     : ∀ a, item a ≠ []
  colon      : ∀ a m, .mark m ∈ item a → m = .colon

theorem isPart_element : IsPart element? fun x => [.value x] :=
  ⟨fun _ => rfl, fun _ => List.cons_ne_nil _ _, fun _ _ h => by simp at h⟩

/-- A field is a part of three pieces. -/
theorem isPart_field : IsPart field? fun f => [.value (.str f.1), .mark .colon, .value f.2] :=
  ⟨fun _ => rfl, fun _ => List.cons_ne_nil _ _, fun _ _ h => by simpa using h⟩

variable {α : Type} {part? : List Piece → Option α} {item : α → List Piece}

/-- Among parts there are no other marks than colons. -/
theorem IsPart.isMark_eq_false (h : IsPart part? item) {m : Mark} (hm : m ≠ .colon) {xs : List α} :
    ∀ group ∈ xs.map item, ∀ p ∈ group, p.isMark m = false := by
  rw [List.forall_mem_map]
  intro x _ p hp
  cases p with
  | value j => rfl
  | mark n => exact decide_eq_false fun hn => hm (hn ▸ h.colon x n hp)

theorem IsPart.mapM (h : IsPart part? item) (xs : List α) :
    (xs.map item).mapM part? = some xs := by
  induction xs with
  | nil => rfl
  | cons x xs ih =>
      rw [List.map_cons, List.mapM_cons, h.part?_item, ih]
      rfl

/-- Parts with commas between them are split where the commas stand. -/
theorem IsPart.parts_intercalate (h : IsPart part? item) (xs : List α) :
    parts ([.mark .comma].intercalate (xs.map item)) = xs.map item := by
  cases xs with
  | nil => rfl
  | cons x xs =>
      have hempty : ([Piece.mark .comma].intercalate ((x :: xs).map item)).isEmpty ≠ true :=
        fun hempty => intercalate_cons_ne_nil (h.ne_nil x) (List.isEmpty_iff.1 hempty)
      rw [parts, if_neg hempty]
      exact splitOnP_intercalate rfl (h.isMark_eq_false (by decide)) (List.cons_ne_nil _ _)

/-- Parts with commas between them, and a closing bracket behind, are a group of these parts. -/
theorem group?_intercalate (h : IsPart part? item) {closing : Mark} (hcolon : closing ≠ .colon)
    (hcomma : closing ≠ .comma) (xs : List α) (ps : List Piece) :
    group? closing part? ([.mark .comma].intercalate (xs.map item) ++ .mark closing :: ps) =
      some (xs, ps) := by
  have hrun : ∀ p ∈ [Piece.mark .comma].intercalate (xs.map item),
      (!p.isMark closing) = true := by
    intro p hp
    rcases mem_intercalate hp with rfl | ⟨group, hgroup, hp⟩
    · simpa [Piece.isMark] using hcomma.symm
    · rw [h.isMark_eq_false hcolon group hgroup p hp, Bool.not_false]
  have hstop : ¬ (!(Piece.mark closing).isMark closing) = true := by simp [Piece.isMark]
  rw [group?, List.takeWhile_append_of_pos hrun, List.dropWhile_append_of_pos hrun,
    List.takeWhile_cons_of_neg (p := fun q : Piece => !q.isMark closing) hstop,
    List.dropWhile_cons_of_neg (p := fun q : Piece => !q.isMark closing) hstop, List.append_nil,
    h.parts_intercalate, h.mapM]
  rfl

/-- Groups of pieces, each of which is read as a part, are read as parts with commas between
them. -/
theorem foldrM_intercalate {groups : List (List Piece)} {xs : List α}
    (h : List.Forall₂ (fun group x => ∀ ps, group.foldrM shift ps = some (item x ++ ps)) groups xs)
    (ps : List Piece) :
    ([.mark .comma].intercalate groups).foldrM shift ps =
      some ([.mark .comma].intercalate (xs.map item) ++ ps) := by
  induction h with
  | nil => rfl
  | cons hgroup hgroups ih =>
      cases hgroups with
      | nil =>
          rw [List.intercalate_singleton, List.map_singleton, List.intercalate_singleton]
          exact hgroup ps
      | cons _ _ =>
          rw [List.intercalate_cons_cons, List.append_assoc, List.foldrM_append,
            List.foldrM_append, ih]
          refine (hgroup _).trans ?_
          rw [List.map_cons, List.map_cons, List.map_cons, List.intercalate_cons_cons,
            List.append_assoc, List.append_assoc]
          rfl

/-- Groups of pieces between brackets are read as a group. -/
theorem foldrM_bracketed (h : IsPart part? item) {groups : List (List Piece)} {xs : List α}
    (hgroups : List.Forall₂
      (fun group x => ∀ ps, group.foldrM shift ps = some (item x ++ ps)) groups xs)
    {opening closing : Mark} {value : List α → Json} (hcolon : closing ≠ .colon)
    (hcomma : closing ≠ .comma)
    (hopening : ∀ ps, shift (.mark opening) ps =
      (group? closing part? ps).map fun g => .value (value g.1) :: g.2)
    (hclosing : ∀ ps, shift (.mark closing) ps = some (.mark closing :: ps)) (ps : List Piece) :
    (bracketedPieces opening closing groups).foldrM shift ps =
      some (.value (value xs) :: ps) := by
  have hclose : [Piece.mark closing].foldrM shift ps = some (.mark closing :: ps) := by
    rw [List.foldrM_cons, List.foldrM_nil, Option.pure_def, Option.bind_eq_bind, Option.bind_some,
      hclosing]
  rw [bracketedPieces, List.foldrM_cons, List.foldrM_append, hclose, Option.bind_eq_bind,
    Option.bind_some, foldrM_intercalate hgroups, Option.bind_some, hopening,
    group?_intercalate h hcolon hcomma, Option.map_some]

end Parts

mutual

/-- **The pieces of a value are read as that value**, whatever stands behind them. -/
theorem foldrM_pieces : ∀ (j : Json) (ps : List Piece),
    j.pieces.foldrM shift ps = some (.value j :: ps)
  | .null, _      => by rw [pieces]; rfl
  | .bool _, _    => by rw [pieces]; rfl
  | .int _, _     => by rw [pieces]; rfl
  | .real _, _    => by rw [pieces]; rfl
  | .str _, _     => by rw [pieces]; rfl
  | .arr xs, ps   => by
      rw [pieces]
      exact foldrM_bracketed isPart_element (foldrM_elementPieces xs) (by decide) (by decide)
        (fun _ => rfl) (fun _ => rfl) ps
  | .obj fields, ps => by
      rw [pieces]
      exact foldrM_bracketed isPart_field (foldrM_fieldPieces fields) (by decide) (by decide)
        (fun _ => rfl) (fun _ => rfl) ps

/-- The pieces of each element come down to one value. -/
theorem foldrM_elementPieces : ∀ xs : List Json,
    List.Forall₂ (fun group x => ∀ ps, group.foldrM shift ps = some (.value x :: ps))
      (elementPieces xs) xs
  | []      => by
      rw [elementPieces]
      exact .nil
  | x :: xs => by
      rw [elementPieces]
      exact .cons (foldrM_pieces x) (foldrM_elementPieces xs)

theorem foldrM_fieldPieces : ∀ fields : List (String × Json),
    List.Forall₂ (fun group (f : String × Json) => ∀ ps, group.foldrM shift ps =
      some (.value (.str f.1) :: .mark .colon :: .value f.2 :: ps)) (fieldPieces fields) fields
  | []             => by
      rw [fieldPieces]
      exact .nil
  | (k, v) :: rest => by
      rw [fieldPieces]
      refine .cons (fun ps => ?_) (foldrM_fieldPieces rest)
      rw [List.foldrM_cons, List.foldrM_cons, foldrM_pieces v ps]
      rfl

end

/-! ### Main statements -/

/-- **A value is read from every text of it.** -/
theorem read?_of_isText {j : Json} {text : String} (h : IsText j text) : read? text = some j := by
  rw [read?, pieces?_of_laidOut h, Option.bind_some, foldrM_pieces]

/-- **What is rendered is read back.** -/
theorem read?_render {style : Style} (hstyle : style.IsBlank) {j : Json} (h : j.AllFinite)
    (depth : Nat) : read? (j.render style depth) = some j :=
  read?_of_isText (isText_render hstyle h depth)

end Json

end MiniPascal
