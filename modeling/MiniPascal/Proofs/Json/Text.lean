import MiniPascal.Proofs.Json.Numeral
import MiniPascal.Proofs.Lexing.Spelling

/-!
# Proofs — Json — Text

The grammar of JSON texts.  A value is a row of pieces: brackets, commas and colons, and between
them the values that have no parts (`Json.pieces`).  A text of it is a layout of these pieces, with
blanks anywhere between them (`LaidOut`); strings stand in quotes, with escapes for what cannot
stand for itself (`IsEscaped`), and words and numbers are kept from running into each other.  Main
statement: a value whose reals are finite is written as a text of it, in every style that adds
nothing but blanks (`isText_render`).
-/

namespace MiniPascal

namespace Json

/-! ### Characters -/

/-- The characters that give a text its structure. -/
inductive Mark where
  | openArray
  | closeArray
  | openObject
  | closeObject
  | comma
  | colon
deriving DecidableEq, Repr

namespace Mark

def char : Mark → Char
  | .openArray   => '['
  | .closeArray  => ']'
  | .openObject  => '\x7b'
  | .closeObject => '\x7d'
  | .comma       => ','
  | .colon       => ':'

/-- The mark that a character is, if it is one. -/
def ofChar? (c : Char) : Option Mark :=
  [openArray, closeArray, openObject, closeObject, comma, colon].find? (·.char = c)

theorem ofChar?_char (m : Mark) : ofChar? m.char = some m := by cases m <;> rfl

end Mark

def isBlank (c : Char) : Bool := c = ' ' ∨ c = '\t' ∨ c = '\n' ∨ c = '\r'

/-- Whether a word or a number ends in front of a character. -/
def endsWord (c : Char) : Bool := isBlank c || (Mark.ofChar? c).isSome || c = '"'

/-- Whether a word or a number that stands in front of a text ends there. -/
def EndsWord (text : List Char) : Prop := ∀ c ∈ text.head?, endsWord c = true

def Blanks (text : List Char) : Prop := ∀ c ∈ text, isBlank c = true

theorem Mark.isBlank_char (m : Mark) : isBlank m.char = false := by cases m <;> rfl

/-- A mark ends the word in front of it. -/
theorem Mark.endsWord_char (m : Mark) : endsWord m.char = true := by cases m <;> rfl

/-! ### Strings -/

/-- The characters that a letter or a mark behind a backslash can stand for. -/
def shortEscapes : List (Char × Char) :=
  [('"', '"'), ('\\', '\\'), ('/', '/'), ('b', '\x08'), ('f', '\x0c'), ('n', '\n'), ('r', '\r'),
    ('t', '\t')]

/-- The value of a hexadecimal digit of either case. -/
def hexValue? (c : Char) : Option Nat := "0123456789abcdef".toList.idxOf? c.toLower

/-- The character with a code of four hexadecimal digits, unless the code is one half of a pair. -/
def ofCode? (a b c d : Char) : Option Char := do
  let n := (((← hexValue? a) * 16 + (← hexValue? b)) * 16 + (← hexValue? c)) * 16 + (← hexValue? d)
  if n.isValidChar then some (.ofNat n) else none

/-- What stands between the quotes of a string.  Characters beyond four hexadecimal digits stand for
themselves. -/
inductive IsEscaped : List Char → List Char → Prop
  | nil : IsEscaped [] []
  | plain {c : Char} {body s : List Char} (hcode : 0x20 ≤ c.toNat) (hquote : c ≠ '"')
      (hbackslash : c ≠ '\\') (h : IsEscaped body s) : IsEscaped (c :: body) (c :: s)
  | short {e c : Char} {body s : List Char} (he : (e, c) ∈ shortEscapes) (h : IsEscaped body s) :
      IsEscaped ('\\' :: e :: body) (c :: s)
  | code {a b c d e : Char} {body s : List Char} (he : ofCode? a b c d = some e)
      (h : IsEscaped body s) : IsEscaped ('\\' :: 'u' :: a :: b :: c :: d :: body) (e :: s)

/-- The code of a control character is read back. -/
theorem ofCode?_hexDigit : ∀ n < 0x20,
    ofCode? '0' '0' (hexDigit (n / 16)) (hexDigit (n % 16)) = some (.ofNat n) := by
  decide

/-- Each character is escaped in a way that is read back. -/
theorem IsEscaped.escapeChar {body s : List Char} (h : IsEscaped body s) (c : Char) :
    IsEscaped (escapeChar c ++ body) (c :: s) := by
  have hshort : ∀ {e}, (e, c) ∈ shortEscapes → IsEscaped (['\\', e] ++ body) (c :: s) :=
    fun he => .short he h
  unfold Json.escapeChar
  split_ifs with hquote hbackslash hb hf hn hr ht hcode
  · exact hshort (by rw [hquote]; decide)
  · exact hshort (by rw [hbackslash]; decide)
  · exact hshort (by rw [hb]; decide)
  · exact hshort (by rw [hf]; decide)
  · exact hshort (by rw [hn]; decide)
  · exact hshort (by rw [hr]; decide)
  · exact hshort (by rw [ht]; decide)
  · have hchar := ofCode?_hexDigit c.toNat hcode
    rw [Char.ofNat_toNat] at hchar
    exact .code hchar h
  · exact .plain (Nat.le_of_not_lt hcode) hquote hbackslash h

/-- A string is escaped character by character. -/
theorem isEscaped_flatMap (s : List Char) : IsEscaped (s.flatMap escapeChar) s := by
  induction s with
  | nil => exact .nil
  | cons c s ih =>
      rw [List.flatMap_cons]
      exact ih.escapeChar c

/-! ### Texts -/

/-- A mark, or a value without parts. -/
inductive Piece where
  | mark (m : Mark)
  | value (j : Json)

/-- Groups of pieces between two brackets, with commas between them. -/
def bracketedPieces (opening closing : Mark) (groups : List (List Piece)) : List Piece :=
  .mark opening :: ([.mark .comma].intercalate groups ++ [.mark closing])

mutual

/-- The pieces of a value in order. -/
def pieces : Json → List Piece
  | .arr xs     => bracketedPieces .openArray .closeArray (elementPieces xs)
  | .obj fields => bracketedPieces .openObject .closeObject (fieldPieces fields)
  | .null       => [.value .null]
  | .bool b     => [.value (.bool b)]
  | .int i      => [.value (.int i)]
  | .real x     => [.value (.real x)]
  | .str s      => [.value (.str s)]

/-- The pieces of each element of an array. -/
def elementPieces : List Json → List (List Piece)
  | []      => []
  | x :: xs => x.pieces :: elementPieces xs

/-- The pieces of each field of an object. -/
def fieldPieces : List (String × Json) → List (List Piece)
  | []             => []
  | (k, v) :: rest => (.value (.str k) :: .mark .colon :: v.pieces) :: fieldPieces rest

end

/-- The words and numbers of a text. -/
inductive IsBare : Json → List Char → Prop
  | null : IsBare .null ['n', 'u', 'l', 'l']
  | true : IsBare (.bool .true) ['t', 'r', 'u', 'e']
  | false : IsBare (.bool .false) ['f', 'a', 'l', 's', 'e']
  | number {j : Json} {word : List Char} (hword : IsNumber word) (hj : number? word = some j) :
      IsBare j word

/-- Pieces that are written one after the other, with blanks before, between and behind them. -/
inductive LaidOut : List Piece → List Char → Prop
  | nil : LaidOut [] []
  | blank {ps : List Piece} {c : Char} {text : List Char} (hc : isBlank c = true)
      (h : LaidOut ps text) : LaidOut ps (c :: text)
  | mark {ps : List Piece} {text : List Char} (m : Mark) (h : LaidOut ps text) :
      LaidOut (.mark m :: ps) (m.char :: text)
  | string {ps : List Piece} {body s text : List Char} (hs : IsEscaped body s)
      (h : LaidOut ps text) :
      LaidOut (.value (.str (.ofList s)) :: ps) ('"' :: (body ++ '"' :: text))
  | bare {ps : List Piece} {j : Json} {word text : List Char} (hj : IsBare j word)
      (hend : EndsWord text) (h : LaidOut ps text) : LaidOut (.value j :: ps) (word ++ text)

/-- **A JSON text of a value.** -/
def IsText (j : Json) (text : String) : Prop := LaidOut j.pieces text.toList

/-! ### Blanks and marks -/

section Layout

variable {ps : List Piece} {text gap : List Char}

/-- Blanks may stand in front of what is laid out. -/
theorem LaidOut.blanks (h : LaidOut ps text) (hgap : Blanks gap) : LaidOut ps (gap ++ text) := by
  induction gap with
  | nil => exact h
  | cons c gap ih => exact .blank (hgap c (.head _)) (ih fun c hc => hgap c (.tail _ hc))

theorem EndsWord.mark (m : Mark) (text : List Char) : EndsWord (m.char :: text) := by
  rintro _ ⟨⟩
  exact m.endsWord_char

theorem EndsWord.blanks (h : EndsWord text) (hgap : Blanks gap) : EndsWord (gap ++ text) := by
  cases gap with
  | nil => exact h
  | cons c gap =>
      rintro _ ⟨⟩
      rw [endsWord, hgap c (.head _)]
      rfl

end Layout

/-! ### Rendering -/

/-- A style that adds nothing but blanks. -/
structure Style.IsBlank (style : Style) : Prop where
  line  : ∀ depth, Blanks (style.line depth).toList
  colon : ∃ before after, style.colon.toList = before ++ ':' :: after ∧ Blanks before ∧
    Blanks after

theorem Style.isBlank_compact : compact.IsBlank :=
  ⟨fun _ => nofun, [], [], rfl, nofun, nofun⟩

theorem Style.isBlank_indented : indented.IsBlank := by
  refine ⟨fun depth => ?_, [], [' '], rfl, nofun, List.forall_mem_singleton.2 rfl⟩
  intro c hc
  rw [indented, String.toList_append, List.mem_append] at hc
  rcases hc with hline | hindent
  · rw [List.mem_singleton.1 hline]
    rfl
  · rw [String.toList_ofList] at hindent
    rw [List.eq_of_mem_replicate hindent]
    rfl

/-- Writing a text in front of any other lays pieces out in front of those of the other. -/
def Lays (ps : List Piece) (written : String) : Prop :=
  ∀ more text, LaidOut more text → EndsWord text → LaidOut (ps ++ more) (written.toList ++ text)

/-- A string lays out one piece. -/
theorem lays_quoted (s : String) : Lays [.value (.str s)] (quoted s) := by
  intro more text h hend
  have hstring := LaidOut.string (isEscaped_flatMap s.toList) h
  rw [String.ofList_toList] at hstring
  rw [quoted, String.toList_ofList, List.singleton_append, List.cons_append, List.append_assoc]
  exact hstring

theorem lays_bare {j : Json} {word : String} (h : IsBare j word.toList) :
    Lays [.value j] word :=
  fun _ _ hmore hend => .bare h hend hmore

section Styles

variable {style : Style}

/-- A key, the colon and a value. -/
theorem lays_field (hstyle : style.IsBlank) {ps : List Piece} {written : String}
    (h : Lays ps written) (k : String) :
    Lays (.value (.str k) :: .mark .colon :: ps) (quoted k ++ style.colon ++ written) := by
  intro more text hmore hend
  obtain ⟨before, after, hcolon, hbefore, hafter⟩ := hstyle.colon
  rw [String.toList_append, String.toList_append, hcolon, List.append_assoc, List.append_assoc,
    List.append_assoc, List.cons_append]
  refine lays_quoted k _ _ (.blanks (.mark .colon (.blanks (h more text hmore hend) hafter))
    hbefore) (.blanks (.mark .colon _) hbefore)

/-- Groups of pieces with commas between them, in front of some more. -/
theorem laidOut_intercalate {line : String} (hline : Blanks line.toList)
    {groups : List (List Piece)} {parts : List String} (h : List.Forall₂ Lays groups parts)
    (hne : parts ≠ []) {more : List Piece} {text : List Char} (hmore : LaidOut more text)
    (hend : EndsWord text) :
    LaidOut ([.mark .comma].intercalate groups ++ more)
      ((String.intercalate ("," ++ line) parts).toList ++ text) := by
  induction h with
  | nil => exact absurd rfl hne
  | @cons group part groups parts hpart hparts ih =>
      cases hparts with
      | nil =>
          rw [List.intercalate_singleton, String.intercalate_singleton]
          exact hpart more text hmore hend
      | @cons group' part' groups parts hpart' hparts =>
          rw [List.intercalate_cons_cons, String.intercalate_cons_of_ne_nil (List.cons_ne_nil _ _),
            String.toList_append, String.toList_append, String.toList_append, List.append_assoc,
            List.append_assoc, List.append_assoc, List.append_assoc, List.append_assoc]
          have hrest := LaidOut.mark .comma ((ih (List.cons_ne_nil _ _)).blanks hline)
          exact hpart _ _ hrest (.mark .comma _)

/-- Groups of pieces between brackets. -/
theorem lays_bracketed (hstyle : style.IsBlank) (depth : Nat) {opening closing : Mark}
    {groups : List (List Piece)} {parts : List String} (h : List.Forall₂ Lays groups parts) :
    Lays (bracketedPieces opening closing groups)
      (bracketed style depth (.singleton opening.char) (.singleton closing.char) parts) := by
  intro more text hmore hend
  rw [bracketedPieces, bracketed]
  split
  · next hempty =>
      obtain rfl := List.isEmpty_iff.1 hempty
      cases h
      rw [String.toList_append, String.toList_singleton, String.toList_singleton]
      exact .mark opening (.mark closing hmore)
  · next hempty =>
      have hne : parts ≠ [] := fun hnil => hempty (List.isEmpty_iff.2 hnil)
      simp only [String.toList_append, String.toList_singleton, List.append_assoc,
        List.cons_append, List.nil_append]
      refine .mark opening (.blanks ?_ (hstyle.line (depth + 1)))
      exact laidOut_intercalate (hstyle.line (depth + 1)) h hne
        (.blanks (.mark closing hmore) (hstyle.line depth))
        (.blanks (.mark closing text) (hstyle.line depth))

end Styles

/-! ### Main statement -/

mutual

/-- All reals in a value are finite. -/
@[simp]
def AllFinite : Json → Prop
  | .real x     => x.isFinite = true
  | .arr xs     => ElementsFinite xs
  | .obj fields => FieldsFinite fields
  | _           => True

/-- All reals in the elements of an array are finite. -/
@[simp]
def ElementsFinite : List Json → Prop
  | []      => True
  | x :: xs => x.AllFinite ∧ ElementsFinite xs

/-- All reals in the fields of an object are finite. -/
@[simp]
def FieldsFinite : List (String × Json) → Prop
  | []             => True
  | (_, v) :: rest => v.AllFinite ∧ FieldsFinite rest

end

mutual

/-- **A value lays out its pieces**, in whatever style with blanks alone between them, by recursion
on the value. -/
theorem lays_render {style : Style} (hstyle : style.IsBlank) :
    ∀ (j : Json) (depth : Nat), j.AllFinite → Lays j.pieces (j.render style depth)
  | .null, _, _ => by
      rw [pieces, render]
      exact lays_bare .null
  | .bool b, _, _ => by
      rw [pieces, render]
      cases b with
      | true => exact lays_bare .true
      | false => exact lays_bare .false
  | .int i, _, _ => by
      rw [pieces, render]
      exact lays_bare (.number (isNumber_intText i) (number?_intText i))
  | .real x, _, h => by
      rw [AllFinite] at h
      rw [pieces, render]
      exact lays_bare (.number (isNumber_realText h) (number?_realText h))
  | .str s, _, _ => by
      rw [pieces, render]
      exact lays_quoted s
  | .arr xs, depth, h => by
      rw [AllFinite] at h
      rw [pieces, render]
      exact lays_bracketed hstyle depth (lays_renderElements hstyle xs (depth + 1) h)
  | .obj fields, depth, h => by
      rw [AllFinite] at h
      rw [pieces, render]
      exact lays_bracketed hstyle depth (lays_renderFields hstyle fields (depth + 1) h)

/-- Each element lays out its own pieces. -/
theorem lays_renderElements {style : Style} (hstyle : style.IsBlank) :
    ∀ (xs : List Json) (depth : Nat), ElementsFinite xs →
      List.Forall₂ Lays (elementPieces xs) (renderElements style depth xs)
  | [], _, _ => by
      rw [elementPieces, renderElements]
      exact .nil
  | x :: xs, depth, h => by
      rw [ElementsFinite] at h
      rw [elementPieces, renderElements]
      exact .cons (lays_render hstyle x depth h.1) (lays_renderElements hstyle xs depth h.2)

theorem lays_renderFields {style : Style} (hstyle : style.IsBlank) :
    ∀ (fields : List (String × Json)) (depth : Nat), FieldsFinite fields →
      List.Forall₂ Lays (fieldPieces fields) (renderFields style depth fields)
  | [], _, _ => by
      rw [fieldPieces, renderFields]
      exact .nil
  | (k, v) :: rest, depth, h => by
      rw [FieldsFinite] at h
      rw [fieldPieces, renderFields]
      exact .cons (lays_field hstyle (lays_render hstyle v depth h.1) k)
        (lays_renderFields hstyle rest depth h.2)

end

/-- **What is rendered is a text of the value.** -/
theorem isText_render {style : Style} (hstyle : style.IsBlank) {j : Json} (h : j.AllFinite)
    (depth : Nat) : IsText j (j.render style depth) := by
  have hlaid := lays_render hstyle j depth h [] [] .nil nofun
  rwa [List.append_nil, List.append_nil] at hlaid

end Json

end MiniPascal
