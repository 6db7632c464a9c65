import MiniPascal.Report
import MiniPascal.Run
import MiniPascal.Tree.Json
import MiniPascal.Tree.Pascal
import MiniPascal.Tree.Sexp

/-!
# Command

The command line as a function from arguments and the text of a file to what is printed.
Arguments are first sorted into flags, options with a value and files; anything unknown, repeated
or left over is refused before the file is looked at.  Of the actions, listing the tokens comes
before showing the tree, and both before running the program; what an action does not use has no
effect on it.
-/

namespace MiniPascal

namespace Command

/-- The forms in which a tree is shown. -/
inductive TreeFormat where
  | sexp
  | json
  | pascal
deriving DecidableEq, Repr

/-- The forms in which final values are shown. -/
inductive OutputFormat where
  | text
  | json
deriving DecidableEq, Repr

/-- The form of a tree by name. -/
def TreeFormat.ofName? : String → Option TreeFormat
  | "sexp"   => some .sexp
  | "json"   => some .json
  | "pascal" => some .pascal
  | _        => none

/-- The form of values by name. -/
def OutputFormat.ofName? : String → Option OutputFormat
  | "text" => some .text
  | "json" => some .json
  | _      => none

/-- What the arguments ask for, as far as they have been read.  How often more of a log was asked
for is kept, and changes nothing else. -/
structure Request where
  files      : List String
  dumpTokens : Bool
  dumpTree   : Bool
  treeFormat : Option TreeFormat
  symbols    : Bool
  output     : Option OutputFormat
  verbosity  : Nat
deriving DecidableEq, Repr

/-- Nothing asked for yet. -/
def Request.empty : Request := ⟨[], false, false, none, false, none, 0⟩

/-- An argument by its outer form: the mark behind which everything is a file, a long option with
or without a value of its own, letters behind a single hyphen, or a file.  A lone hyphen is a
file. -/
inductive Argument where
  | separator
  | long (name : String) (value : Option String)
  | letters (letters : List Char)
  | file (path : String)
deriving DecidableEq, Repr

/-- The outer form of an argument. -/
def Argument.ofString (arg : String) : Argument :=
  match arg.toList with
  | ['-', '-']       => .separator
  | '-' :: '-' :: cs =>
      match cs.dropWhile (· ≠ '=') with
      | []         => .long (.ofList cs) none
      | _ :: value => .long (.ofList (cs.takeWhile (· ≠ '='))) (some (.ofList value))
  | '-' :: c :: cs   => .letters (c :: cs)
  | _                => .file arg

namespace Request

/-- A flag; all but the one that asks for more of a log are given at most once. -/
def withFlag (r : Request) : String → Option Request
  | "dump-tokens" => if r.dumpTokens then none else some { r with dumpTokens := true }
  | "dump-ast"    => if r.dumpTree then none else some { r with dumpTree := true }
  | "symbols"     => if r.symbols then none else some { r with symbols := true }
  | "verbose"     => some { r with verbosity := r.verbosity + 1 }
  | _             => none

/-- Whether a long option needs a value. -/
def needsValue (name : String) : Bool := name == "ast-format" || name == "output"

/-- An option with its value, given at most once. -/
def withOption (r : Request) (name value : String) : Option Request :=
  match name with
  | "ast-format" =>
      if r.treeFormat.isSome then none
      else (TreeFormat.ofName? value).map fun f => { r with treeFormat := some f }
  | "output"     =>
      if r.output.isSome then none
      else (OutputFormat.ofName? value).map fun f => { r with output := some f }
  | _            => none

/-- Letters behind a hyphen, each of which asks for more of a log. -/
def withLetters (r : Request) (letters : List Char) : Option Request :=
  if letters.all (· = 'v') then some { r with verbosity := r.verbosity + letters.length } else none

/-- All arguments in order.  The value of an option may be the argument behind it. -/
def withArguments (r : Request) : List String → Option Request
  | []          => some r
  | arg :: rest =>
      match Argument.ofString arg with
      | .separator              => some { r with files := r.files ++ rest }
      | .file path              => withArguments { r with files := r.files ++ [path] } rest
      | .letters cs             => do (← r.withLetters cs).withArguments rest
      | .long name (some value) => do (← r.withOption name value).withArguments rest
      | .long name none         =>
          if needsValue name then
            match rest with
            | value :: rest => do (← r.withOption name value).withArguments rest
            | []            => none
          else do (← r.withFlag name).withArguments rest

end Request

/-- What the program is to do with its one file. -/
structure Options where
  file       : String
  dumpTokens : Bool
  dumpTree   : Bool
  treeFormat : TreeFormat
  symbols    : Bool
  output     : OutputFormat
deriving DecidableEq, Repr

/-- The options that arguments stand for, unless they are refused. -/
def options? (args : List String) : Option Options := do
  let r ← Request.empty.withArguments args
  match r.files with
  | [file] =>
      some ⟨file, r.dumpTokens, r.dumpTree, r.treeFormat.getD .sexp, r.symbols,
        r.output.getD .text⟩
  | _      => none

/-- What the program leaves: its exit code, what it printed, and its lines of errors.  These are the
lines that it writes to the stream for errors with `Error: ` in front.  Whatever else is written
there is no part of the outcome: the picture of a fault in the text of the file, with the place
marked in it, which comes before the heading and which a library draws; the lines of the log; and
the usage, which arguments that are refused are answered with. -/
@[ext]
structure Outcome where
  exit   : Nat
  stdout : String
  errors : List String
deriving DecidableEq, Repr

namespace Outcome

/-- The end of a program that did what it was asked. -/
def success (stdout : String) : Outcome := ⟨0, stdout, []⟩

/-- The end of a program that met a fault: a fault of the run is told with its line, and the
heading comes last. -/
def failure (source stdout : String) (r : Report) : Outcome :=
  let told := if r.category.atRuntime then (r.line? source).toList else []
  ⟨1, stdout, told ++ ["Error: " ++ r.category.heading]⟩

end Outcome

/-- The tokens of a text, one to a line. -/
def listTokens (source : String) : Outcome :=
  match scan source with
  | .error e   => .failure source "" (e.map ReadingFault.lexical).readingReport
  | .ok tokens => .success (String.join (tokens.map fun t => t.listing ++ "\n"))

/-- A tree in one of its forms, with a line end. -/
def showTree (format : TreeFormat) (p : Program) : String :=
  match format with
  | .sexp   => p.sexp
  | .json   => p.toJson.indented ++ "\n"
  | .pascal => p.pascal

/-- The values of a store in one of their forms. -/
def showStore (format : OutputFormat) (s : Store) : String :=
  match format with
  | .text => s.text
  | .json => s.toJson.indented ++ "\n"

/-- Checks and runs a program.  The symbols are printed as soon as the check is done, whatever the
run comes to. -/
def runProgram (o : Options) (source : String) (p : Program) : Outcome :=
  match p.check with
  | .error e _  => .failure source "" e.namingReport
  | .ok _ scope =>
      let symbols := if o.symbols then scope.symbols.text ++ "\n" else ""
      match Session.runOn .empty p with
      | (some e, _)   => .failure source symbols e.runtimeReport
      | (none, store) => .success (symbols ++ showStore o.output store)

/-- What the options do to the text of their file. -/
def executeOn (o : Options) (source : String) : Outcome :=
  if o.dumpTokens then listTokens source
  else
    match Program.read source with
    | .error e => .failure source "" e.readingReport
    | .ok p    =>
        if o.dumpTree then .success (showTree o.treeFormat p) else runProgram o source p

/-- What the options do, given the text of their file if there is one. -/
def execute (o : Options) (source : Option String) : Outcome :=
  match source with
  | some text => executeOn o text
  | none      => ⟨1, "", ["Error: read source file '" ++ o.file ++ "'"]⟩

/-- The outcome for arguments that are refused. -/
def refused : Outcome := ⟨2, "", []⟩

/-- What the program does when called with arguments, where `contents` gives the text of a file. -/
def call (args : List String) (contents : String → Option String) : Outcome :=
  match options? args with
  | some o => execute o (contents o.file)
  | none   => refused

end Command

end MiniPascal
