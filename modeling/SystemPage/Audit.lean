/-
  SystemPage.Audit — whether a page hangs together.

  Before a page goes into an image it is read back as the target will read it.  Both rings have to
  close in both directions, each map has to have the id of its position and no entries, and programs
  may refer only to maps that are there.  The first thing that is wrong is reported.
-/
import SystemPage.Program

namespace SystemPage
namespace Session

/-! ## §1. Records against their places. -/

/-- The first map, counted from `position` on, that does not have the id of its position or that
counts entries. -/
def misnumbered? : Nat → List AddressMap → Option Fault
  | _, [] => none
  | position, map :: rest =>
    if map.id.toNat ≠ position ∨ map.entries ≠ 0 then
      some (.misnumberedMap map.name position map.id map.entries)
    else misnumbered? (position + 1) rest

/-- The first map id of a program that no map has, its instruction maps looked at first. -/
def dangling? (mapCount : Nat) (p : Program) : Option Fault :=
  ((p.instructionMaps ++ p.dataMaps).find? fun id => mapCount ≤ id.toNat).map
    (.danglingMapId p.args ·)

/-! ## §2. The audit. -/

/-- Fails with the first thing that is wrong with a page. -/
def audit (s : Session) : Except Fault Unit := do
  let mapCount ← Ring.audit s.memory s.mapHead
  let _ ← Ring.audit s.memory s.programHead
  if let some fault := misnumbered? 0 (← s.maps) then throw fault
  if let some fault := (← s.programs).findSome? (dangling? mapCount) then throw fault

end Session
end SystemPage
