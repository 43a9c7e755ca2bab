/-
  SystemPage.CommandLine.Workspace — a directory to work in.

  The directory holds files and empty directories, and lies somewhere in a system with two devices,
  `/dev/null` and `/dev/full`.  Places are known by the names on the way to them from the top.  A
  path is followed name by name, from the top or from the directory, and only a directory can be
  followed further.
-/
import SystemPage.CommandLine.Files
import SystemPage.Text.Split

namespace SystemPage.CommandLine

/-- The names in a working directory and what they stand for. -/
structure Workspace where
  -- the names, each once, with what they stand for
  entries : List (String × Node)
  deriving DecidableEq, Repr

namespace Workspace

/-- The greatest number of bytes of a name. -/
def nameLimit : Nat := 255

/-- The number of bytes that a path may not reach. -/
def pathLimit : Nat := 4096

def entry? (w : Workspace) (name : String) : Option Node :=
  (w.entries.find? fun e => e.1 = name).map (·.2)

/-- What is found behind the given names, where those of `home` lead to the working directory. -/
def node? (home : List String) (w : Workspace) (names : List String) : Option Node :=
  if names.isPrefixOf home then some .directory
  else if names = ["dev"] then some .directory
  else if names = ["dev", "null"] then some .null
  else if names = ["dev", "full"] then some .full
  else if names.dropLast = home then names.getLast?.bind w.entry?
  else none

def follow (home : List String) (w : Workspace) (names : List String) (name : String) :
    Except FileFault (List String) :=
  if w.node? home names ≠ some .directory then .error .notDirectory
  else if name = "" ∨ name = "." then .ok names
  else if name = ".." then .ok names.dropLast
  else if nameLimit < (Text.Utf8.bytes name).length then .error .nameTooLong
  else if (w.node? home (names ++ [name])).isSome then .ok (names ++ [name])
  else .error .missing

/-- The place that a path leads to. -/
def place (home : List String) (w : Workspace) (path : String) :
    Except FileFault (List String) :=
  if path = "" then .error .missing
  else if pathLimit ≤ (Text.Utf8.bytes path).length then .error .nameTooLong
  else
    (Text.fieldTexts '/' path).foldlM (w.follow home)
      (if path.toList.head? = some '/' then [] else home)

/-- A storage in which nothing is refused. -/
def storage (home : List String) (w : Workspace) : Storage (List String) where
  place := w.place home
  node := w.node? home
  unread := fun _ => none
  unwritten := fun _ _ _ => none

/-- The working directory as a storage holds it. -/
def readBack (home : List String) (w : Workspace) (st : Storage (List String)) : Workspace :=
  ⟨w.entries.map fun e => (e.1, (st.node (home ++ [e.1])).getD e.2)⟩

end Workspace
end SystemPage.CommandLine
