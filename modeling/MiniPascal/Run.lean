import MiniPascal.Evaluation
import MiniPascal.Reading.Program
import MiniPascal.Scope

/-!
# Run

From program text to results: a text is read, its names are checked, and it runs on an empty
store.  The first stage that finds a fault is the last.  `Session` runs programs one after another
on a single store, without the check of names; a fault leaves the store as it was when the fault
arose.
-/

namespace MiniPascal

/-- What a run to the end leaves behind: the symbols of the check and the last store. -/
structure Remains where
  symbols : SymbolTable
  store   : Store

/-- The journal of a run, and what the run leaves behind or the fault that ended it. -/
structure Run where
  journal : List Event
  result  : Except (Located Fault) Remains

namespace Run

/-- Checks and runs a program on an empty store. -/
def ofProgram (p : Program) : Run :=
  match p.check with
  | .error e scope => ⟨scope.journal.toList, .error (e.map .naming)⟩
  | .ok _ scope    =>
      match p.exec ⟨.empty, scope.journal⟩ with
      | .error e machine => ⟨machine.journal.toList, .error (e.map .runtime)⟩
      | .ok _ machine    => ⟨machine.journal.toList, .ok ⟨scope.symbols, machine.store⟩⟩

/-- Reads, checks and runs a text. -/
def ofSource (source : String) : Run :=
  match Program.read source with
  | .error e => ⟨[], .error (e.map .reading)⟩
  | .ok p    => ofProgram p

end Run

namespace Session

/-- What became of one program of a session: it was not read, or it ran up to its end or to a
fault, and left the store. -/
inductive Step where
  | unread (fault : Located ReadingFault)
  | ran (fault : Option (Located RuntimeFault)) (store : Store)

/-- The fault that stops a program on a store, if one does, and the store it leaves. -/
def runOn (store : Store) (p : Program) : Option (Located RuntimeFault) × Store :=
  match p.exec ⟨store, #[]⟩ with
  | .ok _ m    => (none, m.store)
  | .error e m => (some e, m.store)

/-- Runs a text on a store, and yields the store after it. -/
def step (store : Store) (source : String) : Step × Store :=
  match Program.read source with
  | .error e => (.unread e, store)
  | .ok p    =>
      let (fault, after) := runOn store p
      (.ran fault after, after)

/-- Runs texts one after another, and yields the last store. -/
def run (store : Store) : List String → List Step × Store
  | []              => ([], store)
  | source :: texts =>
      let (one, after) := step store source
      let (more, last) := run after texts
      (one :: more, last)

end Session

end MiniPascal
