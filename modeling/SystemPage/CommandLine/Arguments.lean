/-
  SystemPage.CommandLine.Arguments — reading the arguments.

  A value in an argument of its own does not begin with `-`, unless it is `-` alone.  `--` ends the
  options, and nothing may come after it.  Names are written out in full.

  **Arguments are read from left to right** and the first thing that settles the matter does: a
  fault, or a request for the version or the usage.  That an option is missing shows only at the
  end.
-/
import SystemPage.CommandLine.Options
import SystemPage.Text.Split

namespace SystemPage.CommandLine

/-! ## §1. Options with a value. -/

namespace Valued

def all : List Valued := [placement, preinit, user, image, order]

def ofLetter? (letter : Char) : Option Valued := all.find? fun option => option.letter = letter

def ofTitle? (title : String) : Option Valued := all.find? fun option => option.title = title

end Valued

/-- Why a command line asks for nothing. -/
inductive UsageFault where
  -- an argument that has no meaning
  | unexpected (argument : String)
  | missingValue (option : Valued)
  | repeated (option : Valued)
  -- a value that its option does not take
  | invalidValue (option : Valued) (value reason : String)
  -- a build without an option that it needs
  | missing (option : Valued)
  deriving DecidableEq, Repr

def UsageFault.message : UsageFault → String
  | unexpected argument => s!"unexpected argument [ {argument} ] found"
  | missingValue option => s!"a value is required for --{option.title} but none was supplied"
  | repeated option => s!"the argument --{option.title} cannot be used multiple times"
  | invalidValue option value reason =>
    s!"invalid value [ {value} ] for --{option.title}: {reason}"
  | missing option => s!"the required argument --{option.title} was not provided"

/-- Looks at a value before it is taken. -/
def checkValue (option : Valued) (value : String) : Except UsageFault Unit :=
  match option with
  | .placement =>
    match Placement.ofText value with
    | .ok _ => .ok ()
    | .error fault => .error (.invalidValue option value fault.reason)
  | .order =>
    match orderOfName? value with
    | some _ => .ok ()
    | none => .error (.invalidValue option value "expected little or big")
  | .preinit | .user | .image => .ok ()

/-! ## §2. Options read so far. -/

/-- The options read so far. -/
structure Draft where
  -- those with a value, each once
  given : List (Valued × String) := []
  -- how often the build was asked to tell about itself
  verbosity : Nat := 0
  deriving DecidableEq, Repr

namespace Draft

def value? (d : Draft) (option : Valued) : Option String :=
  (d.given.find? fun given => given.1 = option).map (·.2)

def set (d : Draft) (option : Valued) (value : String) : Except UsageFault Draft := do
  if (d.value? option).isSome then throw (.repeated option)
  checkValue option value
  return { d with given := d.given ++ [(option, value)] }

def raise (d : Draft) (flags : Nat) : Draft := { d with verbosity := d.verbosity + flags }

/-- The value of an option that a build needs. -/
def need (d : Draft) (option : Valued) : Except UsageFault String :=
  match d.value? option with
  | some value => .ok value
  | none => .error (.missing option)

/-- The options of a build, if all it needs are there. -/
def finish (d : Draft) : Except UsageFault Options := do
  let text ← d.need .placement
  let placement ← (Placement.ofText text).mapError fun fault =>
    .invalidValue .placement text fault.reason
  let preinit ← d.need .preinit
  let user ← d.need .user
  let image ← d.need .image
  let order := ((d.value? .order).bind orderOfName?).getD .little
  return ⟨placement, preinit, user, image, order, d.verbosity⟩

end Draft

/-! ## §3. Reading arguments. -/

/-- What a command line asks for. -/
inductive Request where
  -- to build a page and put it into an image
  | build (options : Options)
  | version
  | usage
  deriving DecidableEq, Repr

/-- What reading one argument leads to. -/
inductive Step where
  -- to the next argument
  | proceed (d : Draft)
  -- to an option whose value is the next argument
  | await (d : Draft) (option : Valued)
  -- to an answer, whatever the other arguments are
  | settle (request : Request)

/-- The value in the rest of an argument behind the letter of its option. -/
def attachedValue : List Char → String
  | '=' :: value => String.ofList value
  | value => String.ofList value

def readLetters (argument : String) (d : Draft) : List Char → Except UsageFault Step
  | [] => .ok (.proceed d)
  | 'v' :: rest => readLetters argument (d.raise 1) rest
  | 'V' :: _ => .ok (.settle .version)
  | 'h' :: _ => .ok (.settle .usage)
  | c :: rest =>
    match Valued.ofLetter? c with
    | none => .error (.unexpected argument)
    | some option =>
      if rest = [] then .ok (.await d option)
      else (d.set option (attachedValue rest)).map .proceed

/-- Reads a name, with the value in its argument if there is one. -/
def readName (argument : String) (d : Draft) (name : String) (value : Option String) :
    Except UsageFault Step :=
  match Valued.ofTitle? name, value with
  | some option, some value => (d.set option value).map .proceed
  | some option, none => .ok (.await d option)
  | none, some _ => .error (.unexpected argument)
  | none, none =>
    if name = "verbose" then .ok (.proceed (d.raise 1))
    else if name = "version" then .ok (.settle .version)
    else if name = "help" then .ok (.settle .usage)
    else .error (.unexpected argument)

/-- Reads an argument that is not the value of an option before it. -/
def readArgument (d : Draft) (argument : String) : Except UsageFault Step :=
  match argument.toList with
  | '-' :: '-' :: body =>
    let (name, value) := Text.cut '=' body
    readName argument d (String.ofList name) (value.map String.ofList)
  | '-' :: c :: rest => readLetters argument d (c :: rest)
  | _ => .error (.unexpected argument)

/-- Reads arguments, the first of which is the value of `pending` if that is an option. -/
def readArguments (d : Draft) : Option Valued → List String → Except UsageFault Request
  | none, [] => d.finish.map .build
  | some option, [] => .error (.missingValue option)
  | some option, argument :: rest =>
    if looksLikeOption argument then .error (.missingValue option)
    else
      match d.set option argument with
      | .ok d => readArguments d none rest
      | .error fault => .error fault
  | none, argument :: rest =>
    if argument = "--" then
      match rest with
      | [] => d.finish.map .build
      | extra :: _ => .error (.unexpected extra)
    else
      match readArgument d argument with
      | .ok (.proceed d) => readArguments d none rest
      | .ok (.await d option) => readArguments d (some option) rest
      | .ok (.settle request) => .ok request
      | .error fault => .error fault

/-! ## §4. The reader. -/

def versionText : String := "syspagen 0.1.0\n"

def usageText : String :=
  "Generates a syspage from plo scripts and writes it into the target image\n\n"
    ++ "Usage: syspagen [OPTIONS] --syspage <PIMG:OFFS:SZ> --preinit <PATH> --user <PATH> "
    ++ "--image <PATH>\n\n"
    ++ "Options:\n"
    ++ "  -s, --syspage <PIMG:OFFS:SZ>  Syspage properties: physical address of the target image, "
    ++ "syspage offset in the image and maximum syspage size\n"
    ++ "  -p, --preinit <PATH>          preinit script\n"
    ++ "  -u, --user <PATH>             user script\n"
    ++ "  -i, --image <PATH>            target image\n"
    ++ "  -e, --endian <ENDIAN>         byte order of the target [default: little] "
    ++ "[possible values: little, big]\n"
    ++ "  -v, --verbose...              verbose printing, repeat for more\n"
    ++ "  -h, --help                    Print help\n"
    ++ "  -V, --version                 Print version\n"

def usageFaultText (fault : UsageFault) : String :=
  s!"error: {fault.message}\n\nFor more information, try --help.\n"

/-- Reads the arguments of a command line. -/
def parse : Reader := fun arguments =>
  match readArguments {} none arguments with
  | .ok (.build o) => .ok o
  | .ok .version => .error (.told versionText)
  | .ok .usage => .error (.told usageText)
  | .error fault => .error (.refused (usageFaultText fault))

end SystemPage.CommandLine
