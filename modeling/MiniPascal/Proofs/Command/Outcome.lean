import MiniPascal.Proofs.Command.Arguments
import MiniPascal.Proofs.Run.Blame
import MiniPascal.Proofs.Run.Effect

/-!
# Proofs — Command — Outcome

The command line tells what the passes over a text come to (`Outcome.Reports`).  It checks and runs
a program in steps of its own, and prints the symbols in between; that it comes to what
`Run.ofSource` comes to is seen from the effect of the program, which both have
(`runProgram_reports`).  Main statement (`call_reports`): each action succeeds exactly if its pass
does, prints what the pass yields in the form asked for, and tells the fault of the pass otherwise;
and neither what the action does not use nor asking for more of a log changes anything.
-/

namespace MiniPascal

namespace Command

/-- The line of symbols, if it is asked for. -/
def Options.symbolLine (o : Options) (symbols : SymbolTable) : String :=
  if o.symbols then symbols.text ++ "\n" else ""

/-- Options that ask for the same action, and agree on what this action uses. -/
def Options.SameAction (o o' : Options) : Prop :=
  o.file = o'.file ∧ o.dumpTokens = o'.dumpTokens ∧
    (o.dumpTokens = false → o.dumpTree = o'.dumpTree ∧
      (o.dumpTree = true → o.treeFormat = o'.treeFormat) ∧
      (o.dumpTree = false → o.symbols = o'.symbols ∧ o.output = o'.output))

namespace Outcome

/-- The outcome of a command that fails with a report.  A report of the run comes behind its line,
and the symbols may have been printed before it; any other is told alone. -/
structure Tells (out : Outcome) (o : Options) (s : String) (r : Report) : Prop where
  exit    : out.exit = 1
  compile : r.category.atRuntime = false →
    out.stdout = "" ∧ out.errors = ["Error: " ++ r.category.heading]
  runtime : r.category.atRuntime = true →
    ∃ line p scope, r.line? s = some line ∧ Program.read s = .ok p ∧ p.check = .ok () scope ∧
      out.stdout = o.symbolLine scope.symbols ∧
      out.errors = [line, "Error: " ++ r.category.heading]

/-- The outcome of a command that succeeds exactly if a pass over the text does, prints what the
pass yields, and tells its faults. -/
structure Reports {ε α : Type} (out : Outcome) (o : Options) (s : String) (pass : Except ε α)
    (printed : α → String) (report : ε → Report) : Prop where
  exit_iff : out.exit = 0 ↔ ∃ a, pass = .ok a
  succeeds : ∀ a, pass = .ok a → out = ⟨0, printed a, []⟩
  fails    : ∀ e, pass = .error e → out.Tells o s (report e)

variable {o : Options} {s : String}

/-- A pass that succeeds is reported by what it yields. -/
theorem reports_ok {ε α : Type} (a : α) (printed : α → String) (report : ε → Report) :
    (success (printed a)).Reports o s (.ok a) printed report where
  exit_iff := ⟨fun _ => ⟨a, rfl⟩, fun _ => rfl⟩
  succeeds := fun _ h => Except.ok.inj h ▸ rfl
  fails    := nofun

/-- A pass that fails is reported by what is told of its fault. -/
theorem reports_error {ε α : Type} {out : Outcome} (e : ε) (printed : α → String)
    (report : ε → Report) (h : out.Tells o s (report e)) :
    out.Reports o s (.error e) printed report where
  exit_iff := ⟨fun hexit => absurd (h.exit.symm.trans hexit) Nat.one_ne_zero, nofun⟩
  succeeds := nofun
  fails    := fun _ he => Except.error.inj he ▸ h

/-- A fault that is not one of the run. -/
theorem tells_compile {r : Report} (hr : r.category.atRuntime = false) :
    (failure s "" r).Tells o s r where
  exit    := rfl
  compile := fun _ => ⟨rfl, by rw [failure, hr]; rfl⟩
  runtime := fun hruntime => nomatch hr.symm.trans hruntime

/-- A fault of the run has a line. -/
theorem tells_runtime {p : Program} {scope : Scope} {fault : Located RuntimeFault}
    (hread : Program.read s = .ok p) (hcheck : p.check = .ok () scope)
    (hrun : (Run.ofSource s).result = .error (fault.map .runtime)) :
    (failure s (o.symbolLine scope.symbols) fault.runtimeReport).Tells o s fault.runtimeReport where
  exit    := rfl
  compile := fun hcompile => nomatch hcompile.symm.trans fault.atRuntime_runtimeReport
  runtime := fun hruntime => by
    obtain ⟨node, hnode⟩ := Run.exists_failsAt hrun
    obtain ⟨_, _, _, _, _, _, _, _, _, hline⟩ := (Report.Origin.node hnode).names_line hruntime
    refine ⟨_, p, scope, hline, hread, hcheck, rfl, ?_⟩
    rw [failure, hruntime, hline]
    rfl

end Outcome

/-! ### Actions -/

variable {o o' : Options} {s : String} {p : Program}

/-- The tokens are listed exactly if the text falls into tokens. -/
theorem listTokens_reports (o : Options) (s : String) :
    (listTokens s).Reports o s (scan s) (fun ts => String.join (ts.map fun t => t.listing ++ "\n"))
      fun e => (e.map ReadingFault.lexical).readingReport := by
  unfold listTokens
  cases scan s with
  | error e =>
      exact Outcome.reports_error e _ _
        (Outcome.tells_compile (Located.atRuntime_readingReport (e.map ReadingFault.lexical)))
  | ok ts => exact Outcome.reports_ok ts (fun ts => String.join (ts.map _)) _

/-- A program that is checked and runs to its end leaves its store. -/
theorem runProgram_of_finished {scope : Scope} (hcheck : p.check = .ok () scope)
    (hfault : (p.effectOn .empty).fault = none) (o : Options) (s : String) :
    runProgram o s p = .success (o.symbolLine scope.symbols ++
      showStore o.output (Bindings.empty.putAll (p.effectOn .empty).puts)) := by
  rw [runProgram, hcheck]
  dsimp only
  rw [Session.runOn_eq, hfault, Options.symbolLine]

theorem runProgram_of_stopped {scope : Scope} {fault : Located RuntimeFault}
    (hcheck : p.check = .ok () scope) (hfault : (p.effectOn .empty).fault = some fault)
    (o : Options) (s : String) :
    runProgram o s p = .failure s (o.symbolLine scope.symbols) fault.runtimeReport := by
  rw [runProgram, hcheck]
  dsimp only
  rw [Session.runOn_eq, hfault, Options.symbolLine]

/-- A program that is checked and run in steps comes to what the run of its text comes to. -/
theorem runProgram_reports (o : Options) (hread : Program.read s = .ok p) :
    (runProgram o s p).Reports o s (Run.ofSource s).result
      (fun remains => o.symbolLine remains.symbols ++ showStore o.output remains.store)
      Located.report := by
  have hsource : Run.ofSource s = .ofProgram p := by rw [Run.ofSource, hread]
  have hresult := congrArg Run.result hsource
  cases hcheck : p.check with
  | error fault scope =>
      have hcategory : fault.namingReport.category.atRuntime = false := rfl
      rw [Run.ofProgram, hcheck] at hresult
      rw [hresult, runProgram, hcheck]
      exact Outcome.reports_error _ _ _ (Outcome.tells_compile hcategory)
  | ok _ scope =>
      rw [Run.ofProgram_eq hcheck] at hresult
      dsimp only at hresult
      cases hfault : (p.effectOn .empty).fault with
      | none =>
          rw [hfault] at hresult
          rw [hresult, runProgram_of_finished hcheck hfault]
          exact Outcome.reports_ok (Remains.mk scope.symbols _)
            (fun remains => o.symbolLine remains.symbols ++ showStore o.output remains.store) _
      | some fault =>
          rw [hfault] at hresult
          have htells := Outcome.tells_runtime (o := o) hread hcheck hresult
          rw [hresult, runProgram_of_stopped hcheck hfault]
          exact Outcome.reports_error _ _ _ htells

/-! ### Options -/

section Options

theorem executeOn_of_tokens (htokens : o.dumpTokens = true) (s : String) :
    executeOn o s = listTokens s := by
  rw [executeOn, if_pos htokens]

theorem executeOn_of_unread {fault : Located ReadingFault} (htokens : o.dumpTokens = false)
    (hread : Program.read s = .error fault) :
    executeOn o s = .failure s "" fault.readingReport := by
  rw [executeOn, htokens, hread]
  rfl

theorem executeOn_of_tree (htokens : o.dumpTokens = false) (htree : o.dumpTree = true)
    (hread : Program.read s = .ok p) : executeOn o s = .success (showTree o.treeFormat p) := by
  rw [executeOn, htokens, hread]
  exact if_pos htree

theorem executeOn_of_run (htokens : o.dumpTokens = false) (htree : o.dumpTree = false)
    (hread : Program.read s = .ok p) : executeOn o s = runProgram o s p := by
  rw [executeOn, htokens, hread]
  exact if_neg (htree ▸ Bool.false_ne_true)

/-- A text that is not read is told of by both actions that read it. -/
theorem executeOn_tells {fault : Located ReadingFault} (htokens : o.dumpTokens = false)
    (hread : Program.read s = .error fault) : (executeOn o s).Tells o s fault.readingReport := by
  rw [executeOn_of_unread htokens hread]
  exact Outcome.tells_compile (Located.atRuntime_readingReport _)

/-- The tree is shown exactly if the text is read. -/
theorem executeOn_reports_tree (htokens : o.dumpTokens = false) (htree : o.dumpTree = true)
    (s : String) :
    (executeOn o s).Reports o s (Program.read s) (showTree o.treeFormat) Located.readingReport := by
  cases hread : Program.read s with
  | error fault => exact Outcome.reports_error fault _ _ (executeOn_tells htokens hread)
  | ok p =>
      rw [executeOn_of_tree htokens htree hread]
      exact Outcome.reports_ok p _ _

theorem executeOn_reports_run (htokens : o.dumpTokens = false) (htree : o.dumpTree = false)
    (s : String) :
    (executeOn o s).Reports o s (Run.ofSource s).result
      (fun remains => o.symbolLine remains.symbols ++ showStore o.output remains.store)
      Located.report := by
  cases hread : Program.read s with
  | error fault =>
      have hresult : (Run.ofSource s).result = .error (fault.map .reading) := by
        rw [Run.ofSource, hread]
      rw [hresult]
      exact Outcome.reports_error _ _ _ (executeOn_tells htokens hread)
  | ok p =>
      rw [executeOn_of_run htokens htree hread]
      exact runProgram_reports o hread

/-- What an action does not use changes nothing. -/
theorem executeOn_of_sameAction (h : o.SameAction o') (s : String) :
    executeOn o' s = executeOn o s := by
  obtain ⟨-, htokens, h⟩ := h
  cases hdump : o.dumpTokens with
  | true => rw [executeOn_of_tokens hdump, executeOn_of_tokens (htokens ▸ hdump)]
  | false =>
      have hdump' : o'.dumpTokens = false := htokens ▸ hdump
      obtain ⟨htree, hformat, hrun⟩ := h hdump
      cases hread : Program.read s with
      | error fault => rw [executeOn_of_unread hdump hread, executeOn_of_unread hdump' hread]
      | ok p =>
          cases hdumpTree : o.dumpTree with
          | true =>
              rw [executeOn_of_tree hdump hdumpTree hread, hformat hdumpTree,
                executeOn_of_tree hdump' (htree ▸ hdumpTree) hread]
          | false =>
              obtain ⟨hsymbols, houtput⟩ := hrun hdumpTree
              rw [executeOn_of_run hdump hdumpTree hread,
                executeOn_of_run hdump' (htree ▸ hdumpTree) hread, runProgram, runProgram,
                hsymbols, houtput]

end Options

/-! ### Calls -/

section Calls

variable {args : List String} {contents : String → Option String}

/-- Arguments that are accepted do what their options ask for. -/
theorem call_of_options (ho : options? args = some o) (hs : contents o.file = some s) :
    call args contents = executeOn o s := by
  rw [call, ho]
  dsimp only
  rw [hs]
  rfl

/-- **The command line reports what the passes over a text compute.**  Listing tokens reports the
scan, by a line for each token; else showing the tree reports the reading, by the tree in the form
that is asked for; and else the run is reported, by the line of symbols if it is asked for, and the
final values in the form that is.  Each of them does so by its exit code, by what it prints, and by
the lines of its errors.  Other arguments lead to the same outcome if they agree on what the action
uses, and so does asking for more of a log once more. -/
theorem call_reports (ho : options? args = some o) (hs : contents o.file = some s) :
    (o.dumpTokens = true → (call args contents).Reports o s (scan s)
      (fun ts => String.join (ts.map fun t => t.listing ++ "\n"))
      (fun e => (e.map ReadingFault.lexical).readingReport)) ∧
    (o.dumpTokens = false → o.dumpTree = true →
      (o.treeFormat = .sexp → (call args contents).Reports o s (Program.read s)
        (fun p => p.sexp) Located.readingReport) ∧
      (o.treeFormat = .json → (call args contents).Reports o s (Program.read s)
        (fun p => p.toJson.indented ++ "\n") Located.readingReport) ∧
      (o.treeFormat = .pascal → (call args contents).Reports o s (Program.read s)
        (fun p => p.pascal) Located.readingReport)) ∧
    (o.dumpTokens = false → o.dumpTree = false →
      (o.output = .text → (call args contents).Reports o s (Run.ofSource s).result
        (fun remains => o.symbolLine remains.symbols ++ remains.store.text) Located.report) ∧
      (o.output = .json → (call args contents).Reports o s (Run.ofSource s).result
        (fun remains =>
          o.symbolLine remains.symbols ++ (remains.store.toJson.indented ++ "\n"))
        Located.report)) ∧
    (∀ args' o', options? args' = some o' → o.SameAction o' →
      call args' contents = call args contents) ∧
    ∀ pre arg post, args = pre ++ post → (Request.empty.withArguments pre).isSome = true →
      "--" ∉ pre → AsksForLog arg → call (pre ++ arg :: post) contents = call args contents := by
  refine ⟨?_, ?_, ?_, ?_, ?_⟩
  · intro htokens
    rw [call_of_options ho hs, executeOn_of_tokens htokens]
    exact listTokens_reports o s
  · intro htokens htree
    have htold := executeOn_reports_tree htokens htree s
    rw [call_of_options ho hs]
    refine ⟨?_, ?_, ?_⟩ <;>
    · intro hformat
      rw [hformat] at htold
      exact htold
  · intro htokens htree
    have htold := executeOn_reports_run htokens htree s
    rw [call_of_options ho hs]
    refine ⟨?_, ?_⟩ <;>
    · intro houtput
      rw [houtput] at htold
      exact htold
  · intro args' o' ho' hsame
    have hs' : contents o'.file = some s := hsame.1 ▸ hs
    rw [call_of_options ho hs, call_of_options ho' hs', executeOn_of_sameAction hsame]
  · rintro pre arg post rfl hpre hseparator harg
    rw [call, call, options?_log hpre hseparator harg]

/-- The program in the text whose run comes to its end. -/
def assignedProgram : Program :=
  ⟨"T", ⟨[.var "x" .real ⟨15, 8⟩],
    ⟨[.assign "x" ⟨31, 1⟩ (.num (.int 1) ⟨36, 1⟩) ⟨31, 6⟩], ⟨25, 16⟩⟩⟩, ⟨0, 42⟩⟩

/-- What its run leaves. -/
def assignedRemains : Remains :=
  ⟨SymbolTable.initial.define (.declared "x" .real), Bindings.empty.put "x" (.int 1)⟩

theorem read_assignedSource : Program.read Run.assignedSource = .ok assignedProgram := by
  rw [Program.read, results_of_scan Run.scan_assignedSource]
  rfl

theorem run_assignedSource : (Run.ofSource Run.assignedSource).result = .ok assignedRemains := by
  rw [Run.ofSource, read_assignedSource]
  rfl

theorem run_unassignedSource : (Run.ofSource Run.unassignedSource).result =
    .error ⟨.runtime (.uninitialized "x"), ⟨36, 1⟩⟩ := by
  rw [Run.ofSource, Program.read, results_of_scan Run.scan_unassignedSource]
  rfl

/-- Two files, of which the run of one comes to its end, and that of the other stops. -/
def twoFiles (path : String) : Option String :=
  if path = "s.pas" then some Run.assignedSource
  else if path = "t.pas" then some Run.unassignedSource
  else none

/-- Each action on the first file, in each of its forms, and a run of the second one. -/
theorem call_reports_example :
    call ["--dump-tokens", "--dump-ast", "s.pas"] twoFiles =
        ⟨0, "Program 'PROGRAM' @0\nIdentifier 'T' @8\nSemicolon ';' @9\nVar 'VAR' @11\n" ++
          "Identifier 'x' @15\nColon ':' @17\nReal 'REAL' @19\nSemicolon ';' @23\n" ++
          "Begin 'BEGIN' @25\nIdentifier 'x' @31\nAssign ':=' @33\nIntegerConst '1' @36\n" ++
          "End 'END' @38\nDot '.' @41\nEof '' @42\n", []⟩ ∧
      call ["--symbols", "s.pas"] twoFiles =
        ⟨0, "Symbols: [INTEGER, REAL, <x:REAL>]\nx = 1\n", []⟩ ∧
      call ["--output=json", "s.pas"] twoFiles = ⟨0, "\x7b\n  \"x\": 1\n\x7d\n", []⟩ ∧
      call ["--dump-ast", "s.pas"] twoFiles =
        ⟨0, "(program T (var x REAL) (begin (:= x 1)))\n", []⟩ ∧
      call ["--dump-ast", "--ast-format", "pascal", "s.pas"] twoFiles =
        ⟨0, "PROGRAM T;\nVAR\n    x : REAL;\nBEGIN\n    x := 1\nEND.\n", []⟩ ∧
      call ["--dump-ast", "--ast-format=json", "--symbols", "s.pas"] twoFiles =
        ⟨0, assignedProgram.toJson.indented ++ "\n", []⟩ ∧
      call ["--symbols", "t.pas"] twoFiles =
        ⟨1, "Symbols: [INTEGER, REAL, <x:REAL>]\n",
          ["Error: line 1: uninitialized variable 'x'", "Error: UninitializedError"]⟩ ∧
      call ["--symbols", "-vv", "t.pas"] twoFiles = call ["--symbols", "t.pas"] twoFiles := by
  have hs : twoFiles "s.pas" = some Run.assignedSource := rfl
  have ht : twoFiles "t.pas" = some Run.unassignedSource := rfl
  have hsymbols : options? ["--symbols", "t.pas"] =
      some ⟨"t.pas", false, false, .sexp, true, .text⟩ := by decide +kernel
  have hpre : (Request.empty.withArguments ["--symbols"]).isSome = true := by decide +kernel
  obtain ⟨-, -, hstopped, -, hlog⟩ := call_reports hsymbols ht
  have htells := ((hstopped rfl rfl).1 rfl).fails _ run_unassignedSource
  refine ⟨?_, ?_, ?_, ?_, ?_, ?_, ?_,
    hlog ["--symbols"] "-vv" ["t.pas"] rfl hpre (by decide) (.inr ⟨1, rfl⟩)⟩
  · have ho : options? ["--dump-tokens", "--dump-ast", "s.pas"] =
        some ⟨"s.pas", true, true, .sexp, false, .text⟩ := by decide +kernel
    obtain ⟨htokens, -, -, -, -⟩ := call_reports ho hs
    rw [(htokens rfl).succeeds _ Run.scan_assignedSource]
    decide +kernel
  · have ho : options? ["--symbols", "s.pas"] =
        some ⟨"s.pas", false, false, .sexp, true, .text⟩ := by decide +kernel
    obtain ⟨-, -, hrun, -, -⟩ := call_reports ho hs
    rw [((hrun rfl rfl).1 rfl).succeeds _ run_assignedSource]
    decide +kernel
  · have ho : options? ["--output=json", "s.pas"] =
        some ⟨"s.pas", false, false, .sexp, false, .json⟩ := by decide +kernel
    obtain ⟨-, -, hrun, -, -⟩ := call_reports ho hs
    rw [((hrun rfl rfl).2 rfl).succeeds _ run_assignedSource]
    decide +kernel
  · have ho : options? ["--dump-ast", "s.pas"] =
        some ⟨"s.pas", false, true, .sexp, false, .text⟩ := by decide +kernel
    obtain ⟨-, htree, -, -, -⟩ := call_reports ho hs
    rw [((htree rfl rfl).1 rfl).succeeds _ read_assignedSource]
    decide +kernel
  · have ho : options? ["--dump-ast", "--ast-format", "pascal", "s.pas"] =
        some ⟨"s.pas", false, true, .pascal, false, .text⟩ := by decide +kernel
    obtain ⟨-, htree, -, -, -⟩ := call_reports ho hs
    rw [((htree rfl rfl).2.2 rfl).succeeds _ read_assignedSource]
    decide +kernel
  · have ho : options? ["--dump-ast", "--ast-format=json", "--symbols", "s.pas"] =
        some ⟨"s.pas", false, true, .json, true, .text⟩ := by decide +kernel
    obtain ⟨-, htree, -, -, -⟩ := call_reports ho hs
    exact ((htree rfl rfl).2.1 rfl).succeeds _ read_assignedSource
  · obtain ⟨line, p, scope, hline, hread, hcheck, hstdout, herrors⟩ := htells.runtime rfl
    have hfirst : line = "Error: line 1: uninitialized variable 'x'" := by
      refine Option.some.inj (hline.symm.trans ?_)
      decide +kernel
    have htext : scope.symbols.text = "Symbols: [INTEGER, REAL, <x:REAL>]" := by
      rw [Program.read, results_of_scan Run.scan_unassignedSource] at hread
      cases hread
      cases hcheck
      decide +kernel
    rw [hfirst] at herrors
    rw [Options.symbolLine, htext] at hstdout
    exact Outcome.ext htells.exit (hstdout.trans (by decide)) herrors

end Calls

end Command

end MiniPascal
