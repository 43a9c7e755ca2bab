/-
  SystemPage.Main — the program.

  It looks at the three files that the arguments name, lets `CommandLine.run` decide what becomes of
  them, and carries that out.  The image is written in place, without being created or cut off.  If
  it is refused only then, the run ends as if that had been known before.
-/
import SystemPage.CommandLine.Run

namespace SystemPage.Main

open CommandLine

/-! ## §1. The files of the system. -/

/-- A refusal of the system in terms of files. -/
def refusal : IO.Error → FileFault
  | .noFileOrDirectory .. => .missing
  | .inappropriateType _ code details => ofCode code details
  | .invalidArgument _ code details => ofCode code details
  | .resourceExhausted _ code details => ofCode code details
  | other => .other (toString other)
where
  /-- The refusal of a number, which some calls of the system give with a minus sign. -/
  ofCode (code : UInt32) (details : String) : FileFault :=
    if code = 20 ∨ code = 0 - 20 then .notDirectory
    else if code = 21 ∨ code = 0 - 21 then .isDirectory
    else if code = 28 ∨ code = 0 - 28 then .noSpace
    else if code = 36 ∨ code = 0 - 36 then .nameTooLong
    else .other details

/-- The device that a path from the top leads to.  Devices are known by their paths, since one of
them could not be read to its end. -/
def device? (path : String) : Option Node :=
  if path.toList.head? = some '/' then
    match (Workspace.mk []).place [] path with
    | .ok ["dev", name] => (Workspace.mk []).node? [] ["dev", name]
    | _ => none
  else none

/-- Does what the system may refuse. -/
def attempt {α : Type} (action : IO α) : IO (Except FileFault α) := do
  try
    return .ok (← action)
  catch error =>
    return .error (refusal error)

/-- What a path leads to, opened for what is done with it. -/
def nodeAt {access : Type} (opening reading : access) (path : String) (mode : IO.FS.Mode) :
    IO (Except (access × FileFault) Node) := do
  match device? path with
  | some node => return .ok node
  | none =>
    match ← attempt (IO.FS.Handle.mk path mode) with
    | .error cause => return .error (opening, cause)
    | .ok handle =>
      match ← attempt handle.readBinToEnd with
      | .error cause => return .error (reading, cause)
      | .ok bytes => return .ok (.file bytes.toList)

/-- The files that the arguments name. -/
def filesFor (arguments : List String) : IO Files := do
  match parse arguments with
  | .ok o =>
    let scripts ← [o.preinit, o.user].mapM fun path => do
      return (path, (← nodeAt ScriptAccess.opening .reading path .read) >>= Node.script)
    let image ← nodeAt ImageAccess.opening .opening o.image .readWrite
    return {
      script := fun path => (scripts.lookup path).getD (.error (.opening, .missing))
      image := fun _ _ _ => image >>= Node.image }
  | .error _ =>
    -- there is nothing to build, so that no file is looked at
    return {
      script := fun _ => .error (.opening, .missing)
      image := fun _ _ _ => .error (.opening, .missing) }

/-! ## §2. Carrying a run out. -/

/-- Writes the image, and answers what was refused of it. -/
def writeImage (path : String) (bytes : List UInt8) : IO (Option (ImageAccess × FileFault)) := do
  match ← attempt (IO.FS.Handle.mk path .readWrite) with
  | .error cause => return some (.opening, cause)
  | .ok handle =>
    match ← attempt (handle.write (ByteArray.mk bytes.toArray)) with
    | .error cause => return some (.writing, cause)
    | .ok _ =>
      match ← attempt handle.flush with
      | .error cause => return some (.flushing, cause)
      | .ok _ => return none

/-- Tells what a run comes to and answers its status. -/
def tellOutcome (outcome : Outcome) : IO UInt32 := do
  IO.print outcome.output
  IO.eprint outcome.errors
  return outcome.status.toUInt32

/-- Runs the program. -/
def start (arguments : List String) : IO UInt32 := do
  let files ← filesFor arguments
  let outcome := run parse arguments files
  match outcome.image with
  | none => tellOutcome outcome
  | some (path, bytes) =>
    match ← writeImage path bytes with
    | none => tellOutcome outcome
    | some refused =>
      tellOutcome (run parse arguments { files with image := fun _ _ _ => .error refused })

end SystemPage.Main

def main (arguments : List String) : IO UInt32 := SystemPage.Main.start arguments
