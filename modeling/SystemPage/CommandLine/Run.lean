/-
  SystemPage.CommandLine.Run — the program in a working directory.

  Here the parts of a run that are left open elsewhere come together: arguments are read by `parse`
  and files lie in a `Workspace`.
-/
import SystemPage.CommandLine.Arguments
import SystemPage.CommandLine.Build
import SystemPage.CommandLine.Workspace

namespace SystemPage.CommandLine.Workspace

/-- The names on the way to the working directory. -/
def home : List String := ["work"]

/-- A run in a working directory, and the working directory after it. -/
def run (w : Workspace) (arguments : List String) : Outcome × Workspace :=
  let (outcome, after) := (w.storage home).run parse arguments
  (outcome, w.readBack home after)

end SystemPage.CommandLine.Workspace
