/-
  SystemPage.CommandLine.Build — a run of the program.

  A run builds a page from two scripts, the first one up to its end and then the second, audits the
  page, and puts it into the image.  The first fault ends the run and leaves the image as it was.

  `build` is an edit of the journal, so what a run had to tell before a fault is told.  `run`
  turns the result into what the user sees: a status, two texts, and the new bytes of the image.
  Who reads the arguments and where the files are kept is left open.
-/
import SystemPage.Audit
import SystemPage.CommandLine.Files
import SystemPage.CommandLine.Options
import SystemPage.Journal
import SystemPage.Report

namespace SystemPage.CommandLine

open Text

/-! ## §1. The build. -/

/-- What a build comes to. -/
structure Product where
  -- the session after the page was completed
  session : Session
  -- the new bytes of the image, unless they are not kept
  image : Option (List UInt8)

def tell (notes : List Note) : Edit (List Note) Unit := modify (· ++ notes)

def require {α : Type} (found : Except Fault α) : Edit (List Note) α := Edit.look fun _ => found

/-- Performs the script at a path. -/
def performScript (files : Files) (path : String) (s : Session) : Edit (List Note) Session := do
  let source ← require (readScript files path)
  tell (.running path :: Script.notes s source)
  let (result, after) := (Script.perform path source).outcome s
  require result
  return after

/-- Builds a page and puts it into the image. -/
def build (o : Options) (files : Files) : Edit (List Note) Product := do
  tell [.preinitScript o.preinit, .userScript o.user, .target o.image]
  let empty ← require (Session.create o.placement o.order)
  tell [.placed empty.memory.base o.placement.load o.placement.capacity]
  let prepared ← performScript files o.preinit empty
  tell [.passed "PREINIT"]
  let built ← performScript files o.user prepared
  tell [.passed "USER"]
  require built.audit
  let (result, final) := Session.complete.outcome built
  let page ← require result
  let image ← require (putIntoImage files o.image o.placement.offset.toNat page)
  tell [.written page.length o.placement.offset o.image]
  return ⟨final, image⟩

/-! ## §2. What the user sees. -/

/-- What a run leaves behind. -/
structure Outcome where
  -- the status: 0 if all went well, 1 after a fault, 2 if the arguments make no sense
  status : UInt8
  output : String
  -- the text for the user when something went wrong
  errors : String
  -- the path of the image and its new bytes, if it changes
  image : Option (String × List UInt8)
  deriving DecidableEq, Repr

def successText (o : Options) (s : Session) : String :=
  s!"Syspage is written to image: {o.image} at offset {hex o.placement.offset.toNat}\n"
    ++ s!"\n{s.report}\n"

/-- The outcome of a build.  The terminal is set back to no colour in the end if the run has used
one, which any fault does and any telling. -/
def outcomeOfBuild (o : Options) (files : Files) : Outcome :=
  match build o files [] with
  | .ok product notes =>
    { status := 0
      output := Note.lines o.verbosity notes ++ successText o product.session
        ++ (if o.verbosity = 0 then "" else Colour.plain)
      errors := ""
      image := product.image.map fun bytes => (o.image, bytes) }
  | .error fault notes =>
    { status := 1
      output := Note.lines o.verbosity notes ++ Colour.plain
      errors := fault.announcement ++ "\n"
      image := none }

/-- The outcome of a run with the given arguments. -/
def run (reader : Reader) (arguments : List String) (files : Files) : Outcome :=
  match reader arguments with
  | .ok o => outcomeOfBuild o files
  | .error (.told output) => ⟨0, output, "", none⟩
  | .error (.refused errors) => ⟨2, "", errors, none⟩

/-- A run on a storage, and the storage after it. -/
def Storage.run {ι : Type} [DecidableEq ι] (st : Storage ι) (reader : Reader)
    (arguments : List String) : Outcome × Storage ι :=
  let outcome := CommandLine.run reader arguments st.files
  match outcome.image with
  | some (path, bytes) => (outcome, st.put path bytes)
  | none => (outcome, st)

end SystemPage.CommandLine
