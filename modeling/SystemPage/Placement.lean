/-
  SystemPage.Placement — where a page goes.

  Three numbers place a page: the address at which the image is loaded, the distance of the page
  from the start of the image, and the number of bytes that the page may take.  They are written
  as three numerals parted by colons.
-/
import SystemPage.Fault
import SystemPage.Text.Split

namespace SystemPage

/-! ## §1. Places. -/

/-- The place of a page. -/
structure Placement where
  -- the address at which the image is loaded
  load : UInt32
  -- the distance of the page from the start of the image
  offset : UInt32
  -- the number of bytes that the page may take
  capacity : UInt32
  deriving DecidableEq, Repr

namespace Placement

/-! ## §2. Written places. -/

/-- The number that a field of a written placement denotes. -/
def readField (field : PlacementField) (raw : String) : Except Fault UInt32 :=
  (parseWord raw).mapError (.placementField field raw)

/-- The placement that a text denotes.  A page that may take no byte at all is refused here, one
that cannot hold its header only when it is built. -/
def ofText (text : String) : Except Fault Placement :=
  match Text.fieldTexts ':' text with
  | [load, offset, capacity] => do
    let load ← readField .load load
    let offset ← readField .offset offset
    let capacity ← readField .capacity capacity
    if capacity = 0 then throw .zeroCapacity
    return ⟨load, offset, capacity⟩
  | _ => .error (.placementShape text)

end Placement
end SystemPage
