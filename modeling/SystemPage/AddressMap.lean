/-
  SystemPage.AddressMap — the maps of a page.

  A map gives a range of addresses a name, an id and ways of access.  The addresses from `start`
  up to but not including `stop` belong to it.  A record of eight words stores it:

      offset   0  next        8  entries     16  stop       24  id (one byte)
               4  previous   12  start       20  access     28  address of the name

  The name lies in a block of its own behind the record, ended by a zero byte.

  **Adding a map** is first decided and then carried out.  Against each map that is there, from
  first to last, the new one may share no address with it and may not have its name.  Ids count up
  from 0 in the order of the ring and fit one byte.
-/
import SystemPage.Ring
import SystemPage.Session

namespace SystemPage

/-! ## §1. Records. -/

/-- A map, as its record tells it. -/
structure AddressMap where
  address : UInt32
  -- the number that programs know the map by
  id : UInt8
  name : String
  start : UInt32
  -- the address after the last of the range
  stop : UInt32
  -- the ways of access, one bit each
  access : UInt32
  -- a count kept for the target; it is 0 in every page that is built here
  entries : UInt32
  deriving DecidableEq, Repr

namespace AddressMap

def recordSize : Nat := 32

/-- There are as many ids as values of a byte. -/
def idLimit : Nat := 256

/-- Where a record keeps the count of entries, and the three words that follow it. -/
def entriesField : UInt32 := 8

def startField : UInt32 := 12

def stopField : UInt32 := 16

def accessField : UInt32 := 20

def idField : UInt32 := 24

def nameField : UInt32 := 28

/-- The map whose record is at an address. -/
def load (m : Memory) (address : UInt32) : Except Fault AddressMap := do
  let id ← m.read (address + idField) 1
  let name ← m.readText (← m.readWord (address + nameField))
  let start ← m.readWord (address + startField)
  let stop ← m.readWord (address + stopField)
  let access ← m.readWord (address + accessField)
  let entries ← m.readWord (address + entriesField)
  return ⟨address, id.headD 0, name, start, stop, access, entries⟩

/-- The sizes of the blocks that a map of a given name takes, in the order in which they are
added. -/
def blockSizes (name : String) : List Nat := [recordSize, (Text.Utf8.bytes name).length + 1]

/-- Puts a map into the page, its record first and its name behind it, and answers the address of
the record.  The links are left for the ring to set. -/
def put (id : UInt8) (name : String) (start stop access : UInt32) : Edit Memory UInt32 := do
  let address ← Memory.reserve recordSize
  let nameAddress ← Memory.store (Text.Utf8.bytes name ++ [0])
  Memory.writeWords (address + entriesField) [0, start, stop, access]
  Memory.write (address + idField) [id]
  Memory.writeWord (address + nameField) nameAddress
  return address

/-! ## §2. Conflicts. -/

/-- Whether the range of a map meets another range. -/
def meets (map : AddressMap) (start stop : UInt32) : Bool := map.start < stop && start < map.stop

/-- What forbids a new map beside one that is there. -/
def conflict? (name : String) (start stop : UInt32) (map : AddressMap) : Option Fault :=
  if map.meets start stop then some (.overlap name start stop map.name map.start map.stop)
  else if map.name = name then some (.duplicateMap name)
  else none

/-- The id that comes after the last of a list of maps. -/
def nextId (name : String) (maps : List AddressMap) : Except Fault UInt8 :=
  match maps.getLast? with
  | none => .ok 0
  | some last =>
    if idLimit ≤ maps.length then .error (.tooManyMaps name idLimit) else .ok (last.id + 1)

end AddressMap

/-! ## §3. The maps of a session. -/

namespace Session

def maps (s : Session) : Except Fault (List AddressMap) :=
  Ring.collect s.memory s.mapHead (AddressMap.load s.memory)

/-- The id of a new map, or what forbids it. -/
def freshMapId (s : Session) (name : String) (start stop : UInt32) : Except Fault UInt8 := do
  let maps ← s.maps
  match maps.findSome? (AddressMap.conflict? name start stop) with
  | some fault => throw fault
  | none => AddressMap.nextId name maps

/-- Adds a map as the last one. -/
def insertMap (name : String) (start stop access : UInt32) : Edit Session AddressMap := do
  let id ← Edit.look (·.freshMapId name start stop)
  let address ← onMemory (AddressMap.put id name start stop access)
  let head ← onMemory (Ring.append (← get).mapHead address)
  modify fun s => { s with mapHead := head }
  return ⟨address, id, name, start, stop, access, 0⟩

/-- The id of the first map of a name.  Maps behind it are not looked at. -/
def mapId (s : Session) (name : String) : Except Fault UInt8 := do
  let found ← Ring.find? s.memory s.mapHead fun node => do
    let map ← AddressMap.load s.memory node
    return if map.name = name then some map.id else none
  match found with
  | some id => return id
  | none => throw (.unknownMap name)

/-- The ids of the maps in a list of names parted by semicolons. -/
def mapIds (s : Session) (names : String) : Except Fault (List UInt8) :=
  (Text.fieldTexts ';' names).mapM s.mapId

end Session
end SystemPage
