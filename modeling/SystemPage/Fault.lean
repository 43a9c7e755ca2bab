/-
  SystemPage.Fault — everything that can go wrong, by cause.

  A `Fault` names a cause and carries what the message about it shows.  `Fault.kind` sorts the
  causes into the kinds that a message begins with, `Fault.reason` words the rest of the message,
  and `Fault.announcement` is the whole of it as it goes to the terminal.

  A fault that arises while a script runs is wrapped in `located`: same kind, with the place and the
  offending line added to the reason.
-/
import SystemPage.Numeral
import SystemPage.Text.Colour
import SystemPage.Text.Column
import SystemPage.Text.Quoted

namespace SystemPage

open Text

/-! ## §1. Kinds. -/

/-- The kinds of fault. -/
inductive FaultKind where
  -- the page has no room left
  | allocationFailed
  | mapOverlap
  | duplicateMapName
  | aliasNotFound
  | mapNotFound
  -- a letter stands for no way of access
  | invalidAttribute
  -- a console is not a pair of numbers
  | invalidConsole
  | imageWriteError
  -- a word of a line is not what its place asks for
  | invalidArgument
  -- a line has too many or too few words for its command
  | invalidArgumentCount
  -- a line has more words than any command takes
  | tooManyArguments
  -- the words of a line do not fit the buffer of the boot loader
  | lineTooLong
  | invalidCharacter
  | nameTooLong
  -- all map ids are taken
  | tooManyMaps
  | invalidAddress
  -- the place asked for the page is impossible
  | invalidConfiguration
  | scriptReadError
  -- the records of the page contradict each other
  | corruptList
  deriving DecidableEq, Repr

def FaultKind.title : FaultKind → String
  | .allocationFailed => "AllocationFailed"
  | .mapOverlap => "MapOverlap"
  | .duplicateMapName => "DuplicateMapName"
  | .aliasNotFound => "AliasNotFound"
  | .mapNotFound => "MapNotFound"
  | .invalidAttribute => "InvalidAttribute"
  | .invalidConsole => "InvalidConsole"
  | .imageWriteError => "ImageWriteError"
  | .invalidArgument => "InvalidArgument"
  | .invalidArgumentCount => "InvalidArgumentCount"
  | .tooManyArguments => "TooManyArguments"
  | .lineTooLong => "LineTooLong"
  | .invalidCharacter => "InvalidCharacter"
  | .nameTooLong => "NameTooLong"
  | .tooManyMaps => "TooManyMaps"
  | .invalidAddress => "InvalidAddress"
  | .invalidConfiguration => "InvalidConfiguration"
  | .scriptReadError => "ScriptReadError"
  | .corruptList => "CorruptList"

/-! ## §2. The parts of a cause. -/

/-- The three numbers that place a page. -/
inductive PlacementField where
  | load
  | offset
  | capacity
  deriving DecidableEq, Repr

def PlacementField.title : PlacementField → String
  | .load => "physical image address"
  | .offset => "syspage offset"
  | .capacity => "syspage size"

/-- The two halves of a console token. -/
inductive ConsolePart where
  | major
  | minor
  deriving DecidableEq, Repr

def ConsolePart.title : ConsolePart → String
  | .major => "major"
  | .minor => "minor"

/-- Why the system refuses a file. -/
inductive FileFault where
  | missing
  -- the path goes through something that is no directory
  | notDirectory
  | isDirectory
  | nameTooLong
  -- the device holds no more bytes
  | noSpace
  -- what is read from a device never ends
  | endless
  -- the bytes are not UTF-8 text
  | notText
  -- any other refusal, in the words of the system
  | other (description : String)
  deriving DecidableEq, Repr

def FileFault.message : FileFault → String
  | .missing => "No such file or directory (os error 2)"
  | .notDirectory => "Not a directory (os error 20)"
  | .isDirectory => "Is a directory (os error 21)"
  | .nameTooLong => "File name too long (os error 36)"
  | .noSpace => "No space left on device (os error 28)"
  | .endless => "out of memory"
  | .notText => "stream did not contain valid UTF-8"
  | .other description => description

/-- What is done with a script. -/
inductive ScriptAccess where
  | opening
  | reading
  deriving DecidableEq, Repr

def ScriptAccess.verb : ScriptAccess → String
  | .opening => "open"
  | .reading => "read"

/-- What is done with the image. -/
inductive ImageAccess where
  | opening
  -- going to the place where the page starts
  | seeking
  | writing
  -- handing over what is still held back
  | flushing
  deriving DecidableEq, Repr

def ImageAccess.verb : ImageAccess → String
  | .opening => "open"
  | .seeking => "seek"
  | .writing => "write syspage into"
  | .flushing => "flush"

/-! ## §3. Causes. -/

/-- A cause, with what its message shows. -/
inductive Fault where
  -- a placement is not three fields
  | placementShape (text : String)
  -- a field of a placement is no numeral
  | placementField (field : PlacementField) (raw : String) (cause : NumeralFault)
  -- the page may not grow at all
  | zeroCapacity
  -- the page would start past the last address
  | startOutside (load offset : UInt32)
  -- the page could grow past the last address
  | endOutside (capacity : Nat) (base : UInt32)
  -- the page cannot hold its own header
  | headerTooLarge (capacity header : Nat)
  -- a block does not fit what is left of the page
  | noRoom (size used capacity : Nat)
  -- a range of addresses is not inside the used part of the page
  | outside (address : UInt32) (length : Nat) (base : UInt32) (used : Nat)
  | unterminated (address : UInt32)
  -- a ring does not come back to its head
  | endless (head : UInt32)
  -- the record after a record does not point back to it
  | brokenBackLink (next node : UInt32)
  -- the last record of a ring does not point to its head
  | openTail (tail head : UInt32)
  -- a letter stands for no way of access
  | unknownLetter (letter : Char) (text : String)
  -- a new map shares an address with one that is there
  | overlap (name : String) (start stop : UInt32) (other : String) (otherStart otherStop : UInt32)
  | duplicateMap (name : String)
  -- a new map finds all ids taken
  | tooManyMaps (name : String) (limit : Nat)
  | unknownMap (name : String)
  | misnumberedMap (name : String) (position : Nat) (id : UInt8) (entries : UInt32)
  -- a program refers to a map that is not there
  | danglingMapId (args : String) (id : UInt8)
  | aliasNameTooLong (name : String) (limit : Nat)
  -- an alias reaches past the last address
  | aliasOutside (name : String) (address size : UInt32)
  | unknownAlias (name : String)
  -- a half of a console token is missing or no numeral
  | console (part : ConsolePart) (token : String)
  | numeral (cause : NumeralFault)
  | character (c : Char)
  -- a line has more words than any command takes
  | tooManyWords (limit : Nat)
  -- the words of a line do not fit the buffer
  | lineTooLong (limit : Nat)
  -- a command has another number of words than it takes
  | wordCount (command : String) (expected given : Nat)
  -- a program is started with too few or too many words
  | programWordCount (given : Nat)
  -- a program is started with a flag that is none
  | programFlag (flag : String)
  -- a program does not have its two lists of maps
  | programLists
  -- a script is refused
  | script (access : ScriptAccess) (path : String) (cause : FileFault)
  -- the image is refused
  | image (access : ImageAccess) (path : String) (cause : FileFault)
  -- a fault in a line of a script, which is given as it is told
  | located (cause : Fault) (path : String) (number : Nat) (line : String)
  deriving DecidableEq, Repr

namespace Fault

def kind : Fault → FaultKind
  | placementShape .. | placementField .. | zeroCapacity | startOutside .. | endOutside ..
  | headerTooLarge .. => .invalidConfiguration
  | noRoom .. => .allocationFailed
  | outside .. | unterminated .. => .invalidAddress
  | endless .. | brokenBackLink .. | openTail .. | misnumberedMap .. | danglingMapId .. =>
    .corruptList
  | unknownLetter .. => .invalidAttribute
  | overlap .. => .mapOverlap
  | duplicateMap .. => .duplicateMapName
  | tooManyMaps .. => .tooManyMaps
  | unknownMap .. => .mapNotFound
  | aliasNameTooLong .. => .nameTooLong
  | aliasOutside .. | numeral .. | programFlag .. => .invalidArgument
  | unknownAlias .. => .aliasNotFound
  | console .. => .invalidConsole
  | character .. => .invalidCharacter
  | tooManyWords .. => .tooManyArguments
  | lineTooLong .. => .lineTooLong
  | wordCount .. | programWordCount .. | programLists => .invalidArgumentCount
  | script .. => .scriptReadError
  | image .. => .imageWriteError
  | located cause .. => cause.kind

/-! ## §4. Wording. -/

def reason : Fault → String
  | placementShape text => s!"[ {text} ] is not of the form pimg:offs:sz"
  | placementField field raw cause => s!"wrong {field.title} [ {raw} ] :: {cause.message}"
  | zeroCapacity => "syspage size must not be zero"
  | startOutside load offset =>
    s!"syspage address {hex load.toNat} + {hex offset.toNat} "
      ++ "does not fit the target address space"
  | endOutside capacity base =>
    s!"syspage of size {hex capacity} at {hex base.toNat} "
      ++ "does not fit the target address space"
  | headerTooLarge capacity header =>
    s!"syspage size {hex capacity} cannot hold the {hex header} byte header"
  | noRoom size used capacity =>
    s!"cannot allocate size {hex size}; current syspage size {hex used} of {hex capacity}"
  | outside address length base used =>
    s!"[ {hexWord address.toNat} ] with length {hex length} is outside of the syspage "
      ++ s!"[ {hexWord base.toNat} .. {hexWord (base.toNat + used)} ]"
  | unterminated address =>
    s!"string at [ {hexWord address.toNat} ] is not terminated inside the syspage"
  | endless head => s!"list at [ {hexWord head.toNat} ] never returns to its head"
  | brokenBackLink next node =>
    s!"entry [ {hexWord next.toNat} ] does not link back to [ {hexWord node.toNat} ]"
  | openTail tail head =>
    s!"tail [ {hexWord tail.toNat} ] does not link to head [ {hexWord head.toNat} ]"
  | unknownLetter letter text => s!"wrong attribute [ {letter} ] in [ {text} ]"
  | overlap name start stop other otherStart otherStop =>
    s!"map [ {name} ] {hex start.toNat}..{hex stop.toNat} overlaps "
      ++ s!"[ {other} ] {hex otherStart.toNat}..{hex otherStop.toNat}"
  | duplicateMap name => s!"map [ {name} ] is already defined"
  | tooManyMaps name limit => s!"cannot add map [ {name} ], all {limit} map ids are taken"
  | unknownMap name => s!"map [ {name} ] was never defined"
  | misnumberedMap name position id entries =>
    s!"map [ {name} ] at position {position} has id {id} and {entries} entries"
  | danglingMapId args id => s!"program [ {args} ] references unknown map id {id}"
  | aliasNameTooLong name limit => s!"alias name [ {name} ] is longer than {limit} bytes"
  | aliasOutside name address size =>
    s!"alias [ {name} ] at {hex address.toNat} of size {hex size.toNat} "
      ++ "does not fit the target address space"
  | unknownAlias name => s!"alias [ {name} ] was never defined"
  | console part token =>
    s!"wrong {part.title} value in [ {token} ], expected <major>.<minor>"
  | numeral cause => cause.message
  | character c => s!"unexpected character {quoteChar c}"
  | tooManyWords limit => s!"more than {limit} arguments in one line"
  | lineTooLong limit => s!"arguments exceed the {limit} byte command buffer"
  | wordCount command expected given =>
    s!"{command} takes {expected} arguments, [ {given} ] were given"
  | programWordCount given => s!"app takes 3 or 4 arguments, [ {given} ] were given"
  | programFlag flag => s!"unknown app flag [ {flag} ]"
  | programLists => "app expects exactly one instruction and one data map list"
  | script access path cause => s!"cannot {access.verb} script {path} :: {cause.message}"
  | image access path cause => s!"cannot {access.verb} image {path} :: {cause.message}"
  | located cause path number line =>
    s!"{cause.reason}\nat {path}:{number}:\n{Colour.yellow.paint line}"

/-- The whole message, as it goes to the terminal. -/
def announcement (fault : Fault) : String :=
  let label := Colour.red.paint "error:"
  let title := Colour.yellow.paint fault.kind.title
  s!"syspagen: {label} {title} :: {fault.reason}"

end Fault
end SystemPage
