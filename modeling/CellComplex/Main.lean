import CellComplex.Command.Run

/-!
# The program

Reads files and prints: everything else is decided by `Options.read?` and `Options.run`.
-/

namespace CellComplex.Program

/-- Printed first, unless the output is for a program or nobody wants it. -/
def banner : String :=
  "\n  cwstore v0.4.2\n  in-memory cell-complex knowledge store\n"

/-- Printed where the arguments make no command. -/
def usage : String :=
  "usage: cwstore [-v] [-q] [-k FILE] [-c FILE] [--json] [status | infer | resolve | rewrite] ..."

/-- What stands at a path. A file over the limit is not read. -/
def lookAt (limit : Nat) (path : String) : IO FileState := do
  try
    let real ← IO.FS.realPath path
    let data ← real.metadata
    match data.type with
    | .file =>
      let size := data.byteSize.toNat
      if limit < size then return .regular size .empty
      return .regular size (← IO.FS.readBinFile real)
    | _ => return .other
  catch _ => return .missing

/-- What stands at a path that may not have been given. -/
def lookAtOptional (limit : Nat) : Option String → IO FileState
  | none => return .missing
  | some path => lookAt limit path

/-- Reads the files of a command and prints its output. -/
def execute (o : Options) : IO UInt32 := do
  unless o.quiet || o.json do IO.println banner
  let config ← lookAtOptional configurationLimit o.config
  let knowledge ← lookAtOptional knowledgeLimit o.knowledge
  let find (path : String) : FileState := if o.config = some path then config else knowledge
  match o.run find with
  | .ok output =>
    IO.print output
    return 0
  | .error e =>
    IO.eprintln s!"Error: {e.message}"
    return 1

end CellComplex.Program

/-- Runs the command that the arguments make. -/
def main (args : List String) : IO UInt32 := do
  match CellComplex.Options.read? args with
  | some o => CellComplex.Program.execute o
  | none =>
    IO.eprintln CellComplex.Program.usage
    return 2
