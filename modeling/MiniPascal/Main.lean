import MiniPascal.Command

/-!
# Main

The program around the command line: it reads the one file that the arguments name, prints what
the command yields, and exits with its code.
-/

namespace MiniPascal

/-- The text of a file, if it can be read. -/
def readSource (path : String) : IO (Option String) := do
  try
    return some (← IO.FS.readFile path)
  catch _ =>
    return none

/-- Does what the arguments ask for, and yields what is to be printed. -/
def perform (args : List String) : IO Command.Outcome := do
  match Command.options? args with
  | some o => return Command.execute o (← readSource o.file)
  | none   =>
      IO.eprintln "usage: minipascal [options] FILE"
      return Command.refused

end MiniPascal

/-- Runs the command line. -/
def main (args : List String) : IO UInt32 := do
  let outcome ← MiniPascal.perform args
  IO.print outcome.stdout
  for line in outcome.errors do
    IO.eprintln line
  return UInt32.ofNat outcome.exit
