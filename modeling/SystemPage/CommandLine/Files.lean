/-
  SystemPage.CommandLine.Files — scripts and images.

  A build reads two scripts and one image, and changes the image in place.  It deals with them only
  through `Files`: the bytes of a script, what an image holds before a page is put into it, or what
  the system refuses.

  A `Storage` is where files are kept.  **A path leads to a place and a place holds something**, so
  that two paths may lead to one file, and what paths are made of is left open.  Anything may be
  refused at any place, but a page is put into an image as a whole or not at all.
-/
import SystemPage.Fault
import SystemPage.Splice
import SystemPage.Text.Utf8

namespace SystemPage.CommandLine

/-! ## §1. Files. -/

/-- What a build asks of files. -/
structure Files where
  -- the bytes of a script
  script : String → Except (ScriptAccess × FileFault) (List UInt8)
  -- what an image holds before bytes are put into it from a position on, if it keeps them
  image : String → Nat → List UInt8 → Except (ImageAccess × FileFault) (Option (List UInt8))

/-- The text of a script. -/
def scriptText (path : String) (bytes : List UInt8) : Except Fault String :=
  match Text.Utf8.decode? bytes with
  | some cs => .ok (String.ofList cs)
  | none => .error (.script .reading path .notText)

def readScript (files : Files) (path : String) : Except Fault String :=
  match files.script path with
  | .error (access, cause) => .error (.script access path cause)
  | .ok bytes => scriptText path bytes

/-- What the image becomes with bytes put into it, if it keeps them. -/
def putIntoImage (files : Files) (path : String) (start : Nat) (bytes : List UInt8) :
    Except Fault (Option (List UInt8)) :=
  match files.image path start bytes with
  | .error (access, cause) => .error (.image access path cause)
  | .ok old => .ok (old.map fun held => splice held start bytes)

/-! ## §2. Storage. -/

/-- What a place can hold. -/
inductive Node where
  | file (bytes : List UInt8)
  | directory
  -- a device with nothing to read that takes everything and keeps nothing
  | null
  -- a device that can be read without end and takes nothing
  | full
  deriving DecidableEq, Repr

/-- What is read where no refusal is in the way. -/
def Node.script : Node → Except (ScriptAccess × FileFault) (List UInt8)
  | .file bytes => .ok bytes
  | .directory => .error (.reading, .isDirectory)
  | .null => .ok []
  | .full => .error (.reading, .endless)

/-- What is written over where no refusal is in the way, if what is written is kept. -/
def Node.image : Node → Except (ImageAccess × FileFault) (Option (List UInt8))
  | .file bytes => .ok (some bytes)
  | .directory => .error (.opening, .isDirectory)
  | .null => .ok none
  | .full => .error (.writing, .noSpace)

/-- Places, what they hold, and which paths lead to them. -/
structure Storage (ι : Type) where
  place : String → Except FileFault ι
  node : ι → Option Node
  -- why what a place holds is not read as a script, if it is not
  unread : ι → Option (ScriptAccess × FileFault)
  -- why bytes are not put there from a position on, if they are not
  unwritten : ι → Nat → List UInt8 → Option (ImageAccess × FileFault)

namespace Storage

variable {ι : Type}

def script (st : Storage ι) (path : String) : Except (ScriptAccess × FileFault) (List UInt8) :=
  match st.place path with
  | .error cause => .error (.opening, cause)
  | .ok there =>
    match st.node there, st.unread there with
    | none, _ => .error (.opening, .missing)
    | some _, some refusal => .error refusal
    | some node, none => node.script

def image (st : Storage ι) (path : String) (start : Nat) (bytes : List UInt8) :
    Except (ImageAccess × FileFault) (Option (List UInt8)) :=
  match st.place path with
  | .error cause => .error (.opening, cause)
  | .ok there =>
    match st.node there, st.unwritten there start bytes with
    | none, _ => .error (.opening, .missing)
    | some _, some refusal => .error refusal
    | some node, none => node.image

def files (st : Storage ι) : Files := ⟨st.script, st.image⟩

/-- The storage with new bytes in the file that a path leads to. -/
def put [DecidableEq ι] (st : Storage ι) (path : String) (bytes : List UInt8) : Storage ι :=
  match st.place path with
  | .error _ => st
  | .ok there => { st with node := fun i => if i = there then some (.file bytes) else st.node i }

end Storage
end SystemPage.CommandLine
