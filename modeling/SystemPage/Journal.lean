/-
  SystemPage.Journal — what a build tells about itself.

  A build can be followed at two levels of detail.  The brief notes name the files, the stages and
  the lines that were passed over; the detailed ones add the words of every line, every block and
  every record.

  What performing a script has to tell is worked out from the sessions before its lines.  It is no
  part of a session: the notes of a line are those of everything the line did before it failed, or
  of all of it.
-/
import SystemPage.Script.Source

namespace SystemPage

open Text

/-! ## §1. Notes. -/

/-- How much detail a note belongs to. -/
inductive Detail where
  -- told to all who ask
  | brief
  -- told to those who ask twice
  | full
  deriving DecidableEq, Repr

def Detail.level : Detail → Nat
  | .brief => 1
  | .full => 2

def Detail.label : Detail → String
  | .brief => "verbose:"
  | .full => "very-verbose:"

/-- A note of a build. -/
inductive Note where
  -- the script that is run first
  | preinitScript (path : String)
  -- the script that is run second
  | userScript (path : String)
  -- the image that the page goes into
  | target (path : String)
  -- where the page is
  | placed (base load capacity : UInt32)
  -- a script is about to be performed
  | running (path : String)
  -- a line is meant for the boot loader
  | ignored (command : String)
  -- a script has been performed
  | passed (stage : String)
  | written (length : Nat) (offset : UInt32) (path : String)
  | words (words : List String)
  | reserved (size : Nat) (address : UInt32)
  | payload (found : Alias)
  | map (added : AddressMap)
  -- a program was added, with its argument text as it was given
  | program (argv : String) (added : Program)
  deriving DecidableEq, Repr

namespace Note

def detail : Note → Detail
  | preinitScript _ | userScript _ | target _ | placed .. | running _ | ignored _ | passed _
  | written .. => .brief
  | words _ | reserved .. | payload _ | map _ | program .. => .full

def text : Note → String
  | preinitScript path => s!"preinit script: {path}"
  | userScript path => s!"user script: {path}"
  | target path => s!"image: {path}"
  | placed base load capacity =>
    s!"syspage at {hexWord base.toNat}, image at {hexWord load.toNat}, "
      ++ s!"{hex capacity.toNat} bytes max"
  | running path => s!"running script {path}"
  | ignored command => s!"ignoring command [ {command} ]"
  | passed stage => s!"passed checkpoint {stage}"
  | written length offset path =>
    s!"wrote {hex length} bytes at offset {hex offset.toNat} of {path}"
  | words found => s!"tokenized {quoteWords found}"
  | reserved size address => s!"allocated {hex size} bytes at {hexWord address.toNat}"
  | payload found =>
    s!"alias [ {found.name} ] -> {hexWord found.address.toNat} size {hex found.size.toNat}"
  | map added =>
    s!"map [ {added.name} ] id {added.id} {hexWord added.start.toNat}..{hexWord added.stop.toNat} "
      ++ s!"attr {hex added.access.toNat} at {hexWord added.address.toNat}"
  | program argv added =>
    s!"program [ {argv} ] {hexWord added.start.toNat}..{hexWord added.stop.toNat} "
      ++ s!"imaps {listBytes added.instructionMaps} dmaps {listBytes added.dataMaps} "
      ++ s!"at {hexWord added.address.toNat}"

def line (note : Note) : String :=
  let label := Colour.yellow.paint note.detail.label
  s!"syspagen: {label} {note.text}\n"

/-- The lines of the notes that someone who asked `verbosity` times is told. -/
def lines (verbosity : Nat) (notes : List Note) : String :=
  String.join ((notes.filter fun note => note.detail.level ≤ verbosity).map line)

end Note

/-! ## §2. Notes of scripts. -/

namespace Script

/-- The notes of blocks that are added one after the other, up to the first that does not fit. -/
def blockNotes (m : Memory) : List Nat → List Note
  | [] => []
  | size :: rest =>
    match Memory.reserve size m with
    | .ok address after => .reserved size address :: blockNotes after rest
    | .error _ _ => []

/-- The notes of a command. -/
def commandNotes (s : Session) : Command → List Note
  | .payload name place size =>
    match Session.insertAlias name place size s with
    | .ok _ after => (after.aliases.head?.map Note.payload).toList
    | .error _ _ => []
  | .map name start stop granted =>
    match s.freshMapId name start stop with
    | .error _ => []
    | .ok _ =>
      blockNotes s.memory (AddressMap.blockSizes name) ++
        match Session.insertMap name start stop granted s with
        | .ok added _ => [.map added]
        | .error _ _ => []
  | .program target instructionMaps dataMaps argv atOnce =>
    match s.planProgram target instructionMaps dataMaps argv atOnce with
    | .error _ => []
    | .ok plan =>
      blockNotes s.memory plan.blockSizes ++
        match Session.insertProgram target instructionMaps dataMaps argv atOnce s with
        | .ok added _ => [.program argv added]
        | .error _ _ => []
  | .console _ => []
  | .foreign name => [.ignored name]

def wordsNotes (s : Session) : List String → List Note
  | [] => []
  | name :: rest =>
    match Command.ofWords name rest with
    | .ok command => commandNotes s command
    | .error _ => []

def lineNotes (s : Session) (line : String) : List Note :=
  match words line with
  | .ok found => .words found :: wordsNotes s found
  | .error _ => []

/-- The notes of lines, up to the first that fails. -/
def linesNotes (s : Session) : List (List Char) → List Note
  | [] => []
  | line :: rest =>
    lineNotes s (String.ofList line) ++
      match performLine (String.ofList line) s with
      | .ok _ after => linesNotes after rest
      | .error _ _ => []

def notes (s : Session) (source : String) : List Note := linesNotes s (lines source.toList)

end Script
end SystemPage
