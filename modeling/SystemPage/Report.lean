/-
  SystemPage.Report — a page in words.

  The report lists the header, the maps and the programs, one line each.  Maps or programs that
  cannot be read back are reported as such, with the reason.
-/
import SystemPage.Program

namespace SystemPage
namespace Session

open Text

/-! ## §1. Lines. -/

def mapLine (map : AddressMap) : String :=
  let id := flushRight 3 ' ' (toString map.id)
  let name := flushLeft 12 ' ' map.name
  s!"\t\t{id} {name} {hexWord map.start.toNat}..{hexWord map.stop.toNat} "
    ++ s!"attr {hexByte map.access.toNat} at {hexWord map.address.toNat}"

def programLine (p : Program) : String :=
  s!"\t\t{Utf8.text p.argv} {hexWord p.start.toNat}..{hexWord p.stop.toNat} "
    ++ s!"at {hexWord p.address.toNat}"

/-- The lines of records, or one line that says why there are none. -/
def recordLines {α : Type} (line : α → String) : Except Fault (List α) → List String
  | .ok [] => ["\t\tnot defined"]
  | .ok records => records.map line
  | .error fault => [s!"\t\tunreadable :: {fault.reason}"]

/-! ## §2. The report. -/

def reportLines (s : Session) : List String :=
  let h := s.header
  ["\tSyspage:",
    s!"\tImage size: {hexWord h.imageSize.toNat}",
    s!"\tSyspage size: {hexWord h.size.toNat}",
    s!"\tKernel physical address: {hexWord h.load.toNat}",
    s!"\tConsole: {hexByte h.console.toNat}",
    "\tMaps:"]
  ++ recordLines mapLine s.maps
  ++ ["\tPrograms:"]
  ++ recordLines programLine s.programs

/-- The report, each line ended. -/
def report (s : Session) : String := String.join (s.reportLines.map (· ++ "\n"))

end Session
end SystemPage
