import MiniPascal.Proofs.Lexing.Boundary
import MiniPascal.Proofs.Names.Uses
import MiniPascal.Proofs.Reading.Lazy
import MiniPascal.Proofs.Report
import MiniPascal.Proofs.Tree.Spans

/-!
# Proofs — Run — Blame

Where a text is at fault.  Whatever is reported of a text by scanning, reading or running it comes
from one of its results, from a name in its tree, or from the node of its tree at which the run
fails (`Report.IsOf.origin`), and all of these stand at real places in the text.  Main statement
(`Report.IsOf.placed`): a report covers some characters, or blames the end of the text, where a
token was expected; one of a bad character stands at that character; and one of the run at the node
that fails, with the line of the first character of the node.
-/

namespace MiniPascal

/-! ### Nodes that fail -/

/-- The run of a text fails at a node: the assignments in front of its own are made, but the node,
which is evaluated next, has no value, though there is one for each of its operands. -/
inductive Run.FailsAt (s : String) (node : Expression) (fault : Located RuntimeFault) : Prop where
  | intro {p : Program} {done rest : List Assignment} {a : Assignment} {store : Store}
      (hread : Program.read s = .ok p) (hassignments : p.assignments = done ++ a :: rest)
      (hdone : done.foldlM Store.assign .empty = .ok store)
      (hvalue : a.value.eval store = .error fault) (hpart : node.IsPart a.value)
      (hfails : node.FailsAt store fault) : FailsAt s node fault

section Places

variable {s : String}

/-- All spans of a tree that is read cover characters. -/
theorem Program.covers_of_read {p : Program} (h : read s = .ok p) :
    ∀ span ∈ p.spans, span.Covers s := by
  obtain ⟨w, n, depth, hscan, hderives, -⟩ := exists_of_read h
  refine hderives.forall_spans (fun _ _ => Span.Covers.through) fun t ht => ?_
  have hresult : (.ok t : Pulled) ∈ (Input.ofString s).results := by
    rw [results_of_scan hscan]
    exact List.mem_map_of_mem (List.mem_append_left _ ht)
  refine (Input.sits_of_mem_results hresult).resolve_right ?_
  rintro rfl
  exact (wellSpelled_before_eof hscan _ ht).kind_ne_eof rfl

namespace Run

variable {fault : Located RuntimeFault}

/-- A fault of the run is that of a node of the program. -/
theorem exists_failsAt (h : (ofSource s).result = .error (fault.map .runtime)) :
    ∃ node, FailsAt s node fault := by
  obtain ⟨p, scope, store, hread, -, hfolds⟩ := folds_of_runtime h
  cases hfolds with
  | toFault hassignments hdone hvalue =>
      obtain ⟨node, hpart, hfails⟩ := Expression.exists_failing_node hvalue
      exact ⟨node, .intro hread hassignments hdone hvalue hpart hfails⟩

/-- A fault of the run is told at the span of its node. -/
theorem FailsAt.span_eq {node : Expression} (h : FailsAt s node fault) : fault.span = node.span :=
  match h with
  | .intro _ _ _ _ _ hfails => hfails.span_eq

/-- The node at which the run fails covers characters of the text. -/
theorem FailsAt.covers {node : Expression} (h : FailsAt s node fault) : node.span.Covers s := by
  obtain ⟨hread, hassignments, -, -, hpart, -⟩ := h
  refine Program.covers_of_read hread _ (Program.mem_spans_of_isPart ?_ hpart)
  rw [hassignments]
  exact List.mem_append_right _ (.head _)

end Run

/-! ### Where reports come from -/

namespace Report

/-- What is reported of a text by one of the passes over it. -/
inductive IsOf (s : String) : Report → Prop where
  | scanning {fault : Located LexicalFault} (h : scan s = .error fault) :
      IsOf s (fault.map ReadingFault.lexical).readingReport
  | reading {fault : Located ReadingFault} (h : Program.read s = .error fault) :
      IsOf s fault.readingReport
  | running {fault : Located Fault} (h : (Run.ofSource s).result = .error fault) :
      IsOf s fault.report

/-- What a report of a text blames: what the text yields at some place, a token that should be
another, a name in the body of the program, or a node of one of its expressions. -/
inductive Origin (s : String) : Report → Prop where
  | fault {fault : Located LexicalFault} (h : .error fault ∈ (Input.ofString s).results) :
      Origin s (fault.map ReadingFault.lexical).readingReport
  | token {t : Token} {text : String} (h : .ok t ∈ (Input.ofString s).results) :
      Origin s ⟨.grammar, text, ⟨t.span.offset, max t.span.len 1⟩⟩
  | name {p : Program} {o : Occurrence} {text : String} (hread : Program.read s = .ok p)
      (ho : o ∈ p.occurrences) : Origin s ⟨.naming, text, o.span⟩
  | node {node : Expression} {fault : Located RuntimeFault} (h : Run.FailsAt s node fault) :
      Origin s fault.runtimeReport

/-- A fault in reading is blamed on a lexical fault or on a token of the text. -/
theorem Origin.ofReading {fault : Located ReadingFault} (h : Program.read s = .error fault) :
    Origin s fault.readingReport := by
  cases Program.stops (Input.ofString s).isStream_results h with
  | grammar hrs =>
      refine .token ?_
      rw [hrs]
      simp
  | lexical hrs =>
      refine .fault ?_
      rw [hrs]
      simp

variable {r : Report}

/-- Whatever is reported is blamed on something in the text. -/
theorem IsOf.origin (h : r.IsOf s) : Origin s r := by
  cases h with
  | scanning hscan => exact .fault (mem_of_allOk_eq_error hscan)
  | reading hread => exact .ofReading hread
  | @running fault hrun =>
      have hends := Run.ends_ofSource s
      rw [hrun] at hends
      generalize hresult : Except.error fault = result at hends
      cases hends with
      | unread hread =>
          cases hresult
          exact .ofReading hread
      | @misnamed p _ scope hread hcheck =>
          cases hresult
          rcases Program.check_of_read hread with ⟨-, hok⟩ | ⟨front, o, back, ho, -, -, herror⟩
          · rw [hok] at hcheck
            cases hcheck
          · rw [herror] at hcheck
            cases hcheck
            exact .name hread (ho ▸ List.mem_append_right _ (.head _))
      | stopped hread hcheck hfolds =>
          cases hresult
          obtain ⟨node, hfails⟩ := Run.exists_failsAt hrun
          exact .node hfails
      | finished hread hcheck hfolds => cases hresult

/-- A report covers characters of the text, or stands where a token was expected behind them. -/
theorem Origin.covers (h : Origin s r) :
    r.span.Covers s ∨ r.category = .grammar ∧ r.span = ⟨s.utf8ByteSize, 1⟩ := by
  cases h with
  | fault h => exact .inl (Input.sits_of_mem_results h).1
  | @token t text h =>
      rcases Input.sits_of_mem_results h with hcovers | rfl
      · refine .inl ?_
        rw [Nat.max_eq_left hcovers.pos]
        exact hcovers
      · exact .inr ⟨rfl, rfl⟩
  | name hread ho =>
      exact .inl (Program.covers_of_read hread _ (Program.mem_spans_of_mem_occurrences ho))
  | @node node fault h =>
      refine .inl ?_
      rw [fault.span_runtimeReport, h.span_eq]
      exact h.covers

/-- A report of a bad character stands at that character. -/
theorem Origin.at_character (h : Origin s r) (hcategory : r.category = .lexical) {c : Char}
    {position : Nat}
    (htext : r.text = "invalid character '" ++ c.toString ++ "' at position " ++ natText position) :
    ∃ front back, s.toList = front ++ c :: back ∧ front.length = position ∧
      r.span = ⟨byteLength front, c.utf8Size⟩ := by
  cases h with
  | fault h =>
      have hcause := LexicalFault.text_injective
        (show _ = (LexicalFault.invalidCharacter c position).text from htext)
      exact (Input.sits_of_mem_results h).2 c position hcause
  | token => cases hcategory
  | name => cases hcategory
  | @node node fault h =>
      have hruntime := fault.atRuntime_runtimeReport
      rw [hcategory] at hruntime
      cases hruntime

/-- A report of a run blames the node that fails, and names the line in which the node begins. -/
theorem Origin.names_line (h : Origin s r) (hruntime : r.category.atRuntime = true) :
    ∃ node fault front back, Run.FailsAt s node fault ∧ r = fault.runtimeReport ∧
      r.span = node.span ∧ s.toList = front ++ back ∧ byteLength front = node.span.offset ∧
      r.line? s =
        some ("Error: line " ++ natText (1 + front.count '\n') ++ ": " ++ r.message) := by
  cases h with
  | fault => cases hruntime
  | token => cases hruntime
  | name => cases hruntime
  | @node node fault h =>
      obtain ⟨front, back, hs, hoffset⟩ := isBoundary_iff.1 h.covers.starts
      have hspan : fault.runtimeReport.span = node.span :=
        fault.span_runtimeReport.trans h.span_eq
      refine ⟨node, fault, front, back, h, rfl, hspan, hs, hoffset, ?_⟩
      rw [line?, hspan, ← hoffset, lineNumber?_of_append hs, Option.map_some]

/-- **Every report stands at a real place.**  It begins at a character of the text or at its end,
and goes on to another such place, unless it is the end of the text where the grammar wants more.
A bad character is counted and measured as it stands in the text.  A report of the run is that of
the node that fails, and there is a line for it: one more than the line ends in front. -/
theorem IsOf.placed (h : r.IsOf s) :
    (1 ≤ r.span.len ∧ r.span.offset ≤ s.utf8ByteSize ∧ IsBoundary s r.span.offset ∧
      (r.span.stop ≤ s.utf8ByteSize ∧ IsBoundary s r.span.stop ∨
        r.category = .grammar ∧ r.span.offset = s.utf8ByteSize ∧ r.span.len = 1)) ∧
    (∀ c position, r.category = .lexical →
      r.text = "invalid character '" ++ c.toString ++ "' at position " ++ natText position →
      ∃ front back, s.toList = front ++ c :: back ∧ front.length = position ∧
        r.span = ⟨byteLength front, c.utf8Size⟩) ∧
    (r.category.atRuntime = true →
      ∃ node fault front back, Run.FailsAt s node fault ∧ r = fault.runtimeReport ∧
        r.span = node.span ∧ s.toList = front ++ back ∧ byteLength front = node.span.offset ∧
        r.line? s =
          some ("Error: line " ++ natText (1 + front.count '\n') ++ ": " ++ r.message)) := by
  have horigin := h.origin
  refine ⟨?_, fun _ _ hcategory htext => horigin.at_character hcategory htext, horigin.names_line⟩
  rcases horigin.covers with hcovers | ⟨hcategory, hspan⟩
  · exact ⟨hcovers.pos, hcovers.starts.le, hcovers.starts, .inl ⟨hcovers.stops.le, hcovers.stops⟩⟩
  · rw [hspan]
    exact ⟨Nat.le_refl 1, Nat.le_refl _, isBoundary_utf8ByteSize s, .inr ⟨hcategory, rfl, rfl⟩⟩

/-- A text of several lines, with characters of several bytes, whose run divides by zero. -/
def dividingSource : String := "PROGRAM t; {→}\nVAR é : REAL;\nBEGIN\n  é := 1 DIV 0 END."

theorem scan_dividingSource : scan dividingSource = .ok
    [⟨.programWord, "PROGRAM", ⟨0, 7⟩⟩, ⟨.identifier, "t", ⟨8, 1⟩⟩, ⟨.semicolon, ";", ⟨9, 1⟩⟩,
      ⟨.varWord, "VAR", ⟨17, 3⟩⟩, ⟨.identifier, "é", ⟨21, 2⟩⟩, ⟨.colon, ":", ⟨24, 1⟩⟩,
      ⟨.realWord, "REAL", ⟨26, 4⟩⟩, ⟨.semicolon, ";", ⟨30, 1⟩⟩, ⟨.beginWord, "BEGIN", ⟨32, 5⟩⟩,
      ⟨.identifier, "é", ⟨40, 2⟩⟩, ⟨.assign, ":=", ⟨43, 2⟩⟩, ⟨.integerConst, "1", ⟨46, 1⟩⟩,
      ⟨.divWord, "DIV", ⟨48, 3⟩⟩, ⟨.integerConst, "0", ⟨52, 1⟩⟩, ⟨.endWord, "END", ⟨54, 3⟩⟩,
      ⟨.dot, ".", ⟨57, 1⟩⟩, .eof 58] := by decide +kernel

set_option maxRecDepth 4000 in
theorem scan_arrow : scan "é →" = .error ⟨.invalidCharacter '→' 2, ⟨3, 3⟩⟩ := by decide +kernel

theorem placed_example :
    (∃ r : Report, r.IsOf dividingSource ∧ r.span = ⟨46, 7⟩ ∧
      IsBoundary dividingSource r.span.offset ∧
      ∃ front back, dividingSource.toList = front ++ back ∧ byteLength front = 46 ∧
        r.line? dividingSource = some ("Error: line " ++ natText (1 + front.count '\n') ++ ": " ++
          "arithmetic error: division by zero")) ∧
    ∃ r : Report, r.IsOf "é →" ∧ r.message = "lexical error: invalid character '→' at position 2" ∧
      ∃ front back, "é →".toList = front ++ '→' :: back ∧ front.length = 2 ∧
        r.span = ⟨byteLength front, 3⟩ := by
  have hrun : (Run.ofSource dividingSource).result =
      .error ⟨.runtime (.arithmetic .divisionByZero), ⟨46, 7⟩⟩ := by
    rw [Run.ofSource, Program.read, results_of_scan scan_dividingSource]
    rfl
  obtain ⟨⟨-, -, hstarts, -⟩, -, hline⟩ := (IsOf.running hrun).placed
  obtain ⟨node, fault, front, back, -, -, hspan, hs, hoffset, hline⟩ := hline rfl
  obtain ⟨-, hcharacter, -⟩ := (IsOf.scanning scan_arrow).placed
  refine ⟨⟨_, .running hrun, rfl, hstarts, front, back, hs, ?_, hline⟩,
    _, .scanning scan_arrow, by decide, hcharacter '→' 2 rfl rfl⟩
  rw [hoffset, ← hspan]
  rfl

end Report

end Places

end MiniPascal
