/-
  SystemPage.CommandLine.Options — what the command line asks for.

  Options have a letter and a name.  Those of a build take a value, which stands in one of five
  ways:

      -s VALUE   -sVALUE   -s=VALUE   --syspage VALUE   --syspage=VALUE

  The option that asks to be told more has none.  Its letter may be repeated and may stand in front
  of another one in the same argument.

  `--` may end the options, and nothing comes after it.

  **Who reads the arguments is left open.**  A `Reader` answers with the options of a build, or ends
  the run.  `Reader.Documented` is what is relied on: a build is read exactly where one is asked for
  in these ways, with the options that stand there.
-/
import SystemPage.Placement
import SystemPage.Word

namespace SystemPage.CommandLine

/-! ## §1. Options. -/

/-- The options that take a value. -/
inductive Valued where
  | placement
  -- the script that is run first
  | preinit
  -- the script that is run second
  | user
  | image
  | order
  deriving DecidableEq, Repr

def Valued.letter : Valued → Char
  | .placement => 's'
  | .preinit => 'p'
  | .user => 'u'
  | .image => 'i'
  | .order => 'e'

def Valued.title : Valued → String
  | .placement => "syspage"
  | .preinit => "preinit"
  | .user => "user"
  | .image => "image"
  | .order => "endian"

/-- The options of a build. -/
structure Options where
  placement : Placement
  -- the path of the script that is run first
  preinit : String
  -- the path of the script that is run second
  user : String
  image : String
  order : ByteOrder
  -- how often the build was asked to tell about itself
  verbosity : Nat
  deriving DecidableEq, Repr

/-- The order of bytes that a word names. -/
def orderOfName? : String → Option ByteOrder
  | "little" => some .little
  | "big" => some .big
  | _ => none

/-! ## §2. Readers. -/

/-- Why arguments lead to no build. -/
inductive Ending where
  -- they ask for a text, which is all there is to do
  | told (output : String)
  -- they make no sense
  | refused (errors : String)
  deriving DecidableEq, Repr

/-- Who reads the arguments. -/
abbrev Reader := List String → Except Ending Options

/-! ## §3. How options are written. -/

/-- Whether an argument cannot be the value of the option before it. -/
def looksLikeOption (argument : String) : Bool :=
  match argument.toList with
  | '-' :: _ :: _ => true
  | _ => false

/-- The ways in which an option is written with its value: behind its letter, which has a number of
flags `v` in front of it, or behind its name. -/
inductive Form where
  | letterNext (flags : Nat)
  | letterJoined (flags : Nat)
  | letterEquals (flags : Nat)
  | nameNext
  | nameEquals
  deriving DecidableEq, Repr

/-- An argument made of flags and what stands behind them. -/
def lettersArgument (flags : Nat) (tail : List Char) : String :=
  String.ofList ('-' :: (List.replicate flags 'v' ++ tail))

/-- An argument made of a name and what stands behind it. -/
def nameArgument (name : String) (tail : List Char) : String :=
  String.ofList ('-' :: '-' :: (name.toList ++ tail))

def Form.arguments (option : Valued) (value : String) : Form → List String
  | .letterNext flags => [lettersArgument flags [option.letter], value]
  | .letterJoined flags => [lettersArgument flags (option.letter :: value.toList)]
  | .letterEquals flags => [lettersArgument flags (option.letter :: '=' :: value.toList)]
  | .nameNext => [nameArgument option.title [], value]
  | .nameEquals => [nameArgument option.title ('=' :: value.toList)]

/-- The values that can be written in a way. -/
def Form.Takes (value : String) : Form → Prop
  | .letterNext _ | .nameNext => looksLikeOption value = false
  | .letterJoined _ => value ≠ "" ∧ value.toList.head? ≠ some '='
  | .letterEquals _ | .nameEquals => True

/-- What is written at once. -/
inductive Item where
  | valued (option : Valued) (value : String) (form : Form)
  -- one flag and so many more in an argument of their own
  | flags (more : Nat)
  | verbose
  deriving DecidableEq, Repr

def Item.arguments : Item → List String
  | .valued option value form => form.arguments option value
  | .flags more => [lettersArgument (more + 1) []]
  | .verbose => [nameArgument "verbose" []]

def Item.Proper : Item → Prop
  | .valued _ value form => form.Takes value
  | .flags _ | .verbose => True

/-- The arguments that items are written as. -/
def argumentsOf (items : List Item) : List String := items.flatMap Item.arguments

/-- An option with its value. -/
def Item.given? : Item → Option (Valued × String)
  | .valued option value _ => some (option, value)
  | .flags _ | .verbose => none

/-- The values of an option, in order. -/
def valuesOf (items : List Item) (option : Valued) : List String :=
  ((items.filterMap Item.given?).filter fun given => given.1 = option).map (·.2)

/-! ## §4. What is relied on. -/

/-- The options of a build that items ask for.  Four of them have to be there, and none may be there
twice.  Words are stored least significant byte first unless asked otherwise. -/
structure Asks (items : List Item) (o : Options) : Prop where
  placement : ∃ text, valuesOf items .placement = [text] ∧ Placement.ofText text = .ok o.placement
  preinit : valuesOf items .preinit = [o.preinit]
  user : valuesOf items .user = [o.user]
  image : valuesOf items .image = [o.image]
  order : (valuesOf items .order = [] ∧ o.order = .little)
    ∨ ∃ name, valuesOf items .order = [name] ∧ orderOfName? name = some o.order

/-- Arguments that ask for a build: they are written as items, and `--` may end them. -/
def AskedBy (arguments : List String) (o : Options) : Prop :=
  ∃ items, (∀ item ∈ items, Item.Proper item)
    ∧ (arguments = argumentsOf items ∨ arguments = argumentsOf items ++ ["--"]) ∧ Asks items o

/-- A reader that reads what is documented.  How much it makes of the flags is left open. -/
structure Reader.Documented (reader : Reader) : Prop where
  asked : ∀ arguments o, reader arguments = .ok o → AskedBy arguments o
  accepted : ∀ arguments o, AskedBy arguments o →
    ∃ verbosity, reader arguments = .ok { o with verbosity := verbosity }

end SystemPage.CommandLine
