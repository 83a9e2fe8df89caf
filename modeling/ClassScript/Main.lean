import ClassScript.Command
/-!
# The program

Reads the files that a command needs into a file system, runs the command on it, and carries out what
it leaves behind.
-/

namespace ClassScript.Main

/-- The fault that an error of the system stands for. -/
def faultOf : IO.Error → FileFault
  | .noFileOrDirectory .. => .missing
  | .inappropriateType _ code _ => if code == 20 then .notDirectory else .isDirectory
  | _ => .denied

/-- What is at a path, if anything is. -/
def probe (p : Path) : IO (Option FileEntry) := do
  try
    let bytes ← IO.FS.readBinFile p.text
    return some (.ofBytes bytes)
  catch e => match faultOf e with
    | .isDirectory => return some .directory
    | .denied => return some .locked
    | _ => return none

/-- Adds the pending files and all that they want to a file system. -/
partial def gather (o : Options) (files : FileSystem) (done : List Path) :
    List Path → IO FileSystem
  | [] => return files
  | p :: pending => do
    if done.contains p then return ← gather o files done pending
    let files ← match files.find p with
      | .ok _ => pure files
      | .error _ => do
        match ← probe p with
        | some e => pure (files.putAt p e)
        | none => pure files
    let more := match files.read p with
      | .ok text => Command.wanted o p text
      | .error _ => []
    gather o files (p :: done) (more ++ pending)

def write (p : Path) (text : String) : IO (Except FileFault Unit) := do
  try
    IO.FS.writeFile p.text text
    return .ok ()
  catch e => return .error (faultOf e)

def execute (c : Command) : IO Command.Outcome := do
  let directory := (Path.mk (toString (← IO.currentDir))).pieces.filter (!·.isEmpty)
  let files ← gather {} (.withLibrary directory []) [] c.config.toList
  let files ← match c.options files with
    | .ok o => gather (o.withEntry c.file) files [] [c.file]
    | .error _ => pure files
  c.deliver write (c.program files)

end ClassScript.Main

open ClassScript in
def main (args : List String) : IO UInt32 := do
  match Command.parse? args with
  | none =>
    IO.eprintln "usage: compile FILE [--config FILE] [--output FILE] [--no-verify] [--json-errors]"
    return 2
  | some c =>
    let outcome ← Main.execute c
    IO.print outcome.stdout
    IO.eprint outcome.stderr
    return outcome.code.toUInt32
