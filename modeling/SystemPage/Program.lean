/-
  SystemPage.Program — the programs of a page.

  A program is a payload to start, with the maps its instructions and its data may go into.  A
  record of nine words stores it:

      offset   0  next        8  start        20  number of instruction maps
               4  previous   12  stop         24  address of their ids
                             16  address of   28  number of data maps
                                 arguments    32  address of their ids

  The ids are single bytes.  The argument text is ended by a zero byte; an `X` in front of it
  marks a program that is started at once.

  **Adding a program** is first planned and then carried out: the payload and every map have to be
  known before the page changes.
-/
import SystemPage.AddressMap

namespace SystemPage

/-! ## §1. Records. -/

/-- A program, as its record tells it. -/
structure Program where
  address : UInt32
  start : UInt32
  -- the address after the last byte of the payload
  stop : UInt32
  -- the bytes of the argument text, with the mark
  argv : List UInt8
  instructionMaps : List UInt8
  dataMaps : List UInt8
  deriving DecidableEq, Repr

namespace Program

def recordSize : Nat := 36

/-- The byte that marks a program to be started at once. -/
def startMark : UInt8 := 0x58

/-- Where a record keeps the address of the payload, and the words that follow it. -/
def startField : UInt32 := 8

def stopField : UInt32 := 12

def argvField : UInt32 := 16

def instructionCountField : UInt32 := 20

def instructionMapsField : UInt32 := 24

def dataCountField : UInt32 := 28

def dataMapsField : UInt32 := 32

/-- Whether the argument text begins with the mark of a program that is started at once. -/
def startsAtOnce (p : Program) : Bool := p.argv.head? == some startMark

/-- The argument text without the mark. -/
def args (p : Program) : String :=
  Text.Utf8.text (if p.startsAtOnce then p.argv.drop 1 else p.argv)

/-- The ids whose number and address a record keeps in two words. -/
def loadIds (m : Memory) (count list : UInt32) : Except Fault (List UInt8) := do
  let length ← m.readWord count
  m.read (← m.readWord list) length.toNat

/-- The program whose record is at an address.  Its argument text is taken as text: bytes that are
no UTF-8 are replaced. -/
def load (m : Memory) (address : UInt32) : Except Fault Program := do
  let start ← m.readWord (address + startField)
  let stop ← m.readWord (address + stopField)
  let argv ← m.readText (← m.readWord (address + argvField))
  let instructionMaps ← loadIds m (address + instructionCountField)
    (address + instructionMapsField)
  let dataMaps ← loadIds m (address + dataCountField) (address + dataMapsField)
  return ⟨address, start, stop, Text.Utf8.bytes argv, instructionMaps, dataMaps⟩

/-! ## §2. Plans. -/

/-- What is known of a program before it is put into the page. -/
structure Plan where
  payload : Alias
  instructionMaps : List UInt8
  dataMaps : List UInt8
  -- the bytes of the argument text, with the mark
  argv : List UInt8
  deriving DecidableEq, Repr

/-- The bytes of an argument text, with the mark if the program is to be started at once. -/
def markedArgv (argv : String) (atOnce : Bool) : List UInt8 :=
  (if atOnce then [startMark] else []) ++ Text.Utf8.bytes argv

/-- The sizes of the blocks that a planned program takes, in the order in which they are added. -/
def Plan.blockSizes (plan : Plan) : List Nat :=
  [recordSize, plan.dataMaps.length, plan.instructionMaps.length, plan.argv.length + 1]

/-- Puts a planned program into the page and answers the address of its record.  The links are left
for the ring to set. -/
def Plan.put (plan : Plan) : Edit Memory UInt32 := do
  let address ← Memory.reserve recordSize
  let dataMaps ← Memory.store plan.dataMaps
  let instructionMaps ← Memory.store plan.instructionMaps
  let argv ← Memory.store (plan.argv ++ [0])
  Memory.writeWords (address + startField)
    [plan.payload.address, plan.payload.stop, argv,
      UInt32.ofNat plan.instructionMaps.length, instructionMaps,
      UInt32.ofNat plan.dataMaps.length, dataMaps]
  return address

end Program

/-! ## §3. The programs of a session. -/

namespace Session

/-- The programs, from the first to the last. -/
def programs (s : Session) : Except Fault (List Program) :=
  Ring.collect s.memory s.programHead (Program.load s.memory)

/-- Looks up all that a new program refers to. -/
def planProgram (s : Session) (payload instructionMaps dataMaps argv : String) (atOnce : Bool) :
    Except Fault Program.Plan := do
  let payload ← s.alias? payload
  let instructionMaps ← s.mapIds instructionMaps
  let dataMaps ← s.mapIds dataMaps
  return ⟨payload, instructionMaps, dataMaps, Program.markedArgv argv atOnce⟩

/-- Adds a program as the last one. -/
def insertProgram (payload instructionMaps dataMaps argv : String) (atOnce : Bool) :
    Edit Session Program := do
  let plan ← Edit.look (·.planProgram payload instructionMaps dataMaps argv atOnce)
  let address ← onMemory plan.put
  let head ← onMemory (Ring.append (← get).programHead address)
  modify fun s => { s with programHead := head }
  return ⟨address, plan.payload.address, plan.payload.stop, plan.argv, plan.instructionMaps,
    plan.dataMaps⟩

end Session
end SystemPage
