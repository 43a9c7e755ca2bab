/-
  SystemPage.Proofs.Guarded — calls on a session with every sum checked.

  Sums of words and of bytes wrap around, a number that needs more than 32 bits loses some of them
  where it becomes a word, and a slice of bytes takes what there is.  Nothing of that may ever
  happen.  Here every call on a session is carried out a second time, with a check at each sum, at
  each number that becomes a word and at each slice of the room of a page.  A call in which a check
  fails has no result at all.

  What a call looks at and changes, in which order, and which faults stop it, is the same as without
  the checks; each field of a record is written on its own here, at an address of its own.  Choosing
  a console is left out, since it neither adds anything nor looks at the page.

  Main definitions:

      Look, Change     — calls that look something up and calls that change a state
      sum, byteSum, word, slice
                       — the checks
      create, insertAlias, alias?, insertMap, mapId, maps, insertProgram, programs, audit, report,
      complete         — the calls
-/
import SystemPage.Audit
import SystemPage.Report

namespace SystemPage
namespace Guarded

variable {σ α : Type}

/-! ## §1. Checks. -/

/-- What a call finds, or the fault that stops it.  There is neither if a check fails. -/
abbrev Look (α : Type) := ExceptT Fault Option α

/-- The same for a call that changes a state. -/
abbrev Change (σ α : Type) := ExceptT Fault (StateT σ Option) α

def stuck : Look α := ExceptT.mk none

/-- The sum of two words, which has to be a word. -/
def sum (a b : UInt32) : Look UInt32 :=
  if a.toNat + b.toNat < UInt32.size then pure (a + b) else stuck

/-- The sum of two bytes, which has to be a byte. -/
def byteSum (a b : UInt8) : Look UInt8 :=
  if a.toNat + b.toNat < UInt8.size then pure (a + b) else stuck

/-- A number as a word, of which no bit may be lost. -/
def word (n : Nat) : Look UInt32 := if n < UInt32.size then pure (UInt32.ofNat n) else stuck

/-- The bytes from one position up to another, which have to lie in the room of the page. -/
def slice (m : Memory) (start stop : Nat) : Look (List UInt8) :=
  if start ≤ stop ∧ stop ≤ m.capacity then pure (m.cells.slice start (stop - start)) else stuck

/-- The first byte of a slice, which has to have one. -/
def first : List UInt8 → Look UInt8
  | [] => stuck
  | b :: _ => pure b

/-- Looks something up in the state, which stays as it is. -/
def look (find : σ → Look α) : Change σ α :=
  ExceptT.mk fun s => (find s).run.map fun answer => (answer, s)

/-! ## §2. Pages. -/

def create (place : Placement) (order : ByteOrder) : Look Session :=
  let capacity := place.capacity.toNat
  let used := roundUp headerSize
  if addressSpace ≤ place.load.toNat + place.offset.toNat then
    throw (.startOutside place.load place.offset)
  else do
    let base ← sum place.load place.offset
    if addressSpace < base.toNat + capacity then throw (.endOutside capacity base)
    else if capacity < used then throw (.headerTooLarge capacity used)
    else return ⟨⟨base, capacity, order, used, .blank⟩, place.load, 0, 0, 0, 0, []⟩

def bytes (m : Memory) : Look (List UInt8) := slice m 0 m.size

def read (m : Memory) (address : UInt32) (length : Nat) : Look (List UInt8) := do
  let start ← m.offset address length
  slice m start (start + length)

def readWord (m : Memory) (address : UInt32) : Look UInt32 := do
  return m.order.decode (← read m address ByteOrder.wordSize)

/-- The word in a field of a record. -/
def readField (m : Memory) (address field : UInt32) : Look UInt32 := do
  readWord m (← sum address field)

/-- A text is looked for in the slice from its address to the end of the page. -/
def readText (m : Memory) (address : UInt32) : Look String := do
  let start ← m.offset address 0
  let _ ← slice m start m.size
  match m.cells.firstZero? m.size start with
  | some stop => return Text.Utf8.text (← slice m start stop)
  | none => throw (.unterminated address)

def reserve (size : Nat) : Change Memory UInt32 := do
  let address ← look fun m => do
    if m.sizeWith size < m.capacity then sum m.base (← word (roundUp m.size))
    else throw (.noRoom size m.size m.capacity)
  modify (·.grow size)
  return address

def write (address : UInt32) (new : List UInt8) : Change Memory Unit := do
  let start ← look fun m => do
    let start ← m.offset address new.length
    let _ ← slice m start (start + new.length)
    return start
  modify fun m => { m with cells := m.cells.overwrite start new }

def writeWord (address word : UInt32) : Change Memory Unit := do
  write address ((← get).order.encode word)

/-- Puts words into fields of a record, each at an address of its own. -/
def writeFields (address : UInt32) : List (UInt32 × UInt32) → Change Memory Unit
  | [] => pure ()
  | (field, word) :: rest => do
    writeWord (← look fun _ => sum address field) word
    writeFields address rest

def store (bytes : List UInt8) : Change Memory UInt32 := do
  let address ← reserve bytes.length
  write address bytes
  return address

/-- The bytes of a text first and the byte that ends it behind them, in a block of their own. -/
def storeText (text : List UInt8) : Change Memory UInt32 := do
  let address ← reserve (text.length + 1)
  write address text
  write (← look fun _ => do sum address (← word text.length)) [0]
  return address

/-! ## §3. Rings. -/

def next (m : Memory) (node : UInt32) : Look UInt32 := readWord m node

def previous (m : Memory) (node : UInt32) : Look UInt32 := readField m node Ring.previousField

def setNext (node target : UInt32) : Change Memory Unit := writeWord node target

def setPrevious (node target : UInt32) : Change Memory Unit := do
  writeWord (← look fun _ => sum node Ring.previousField) target

def append (head node : UInt32) : Change Memory UInt32 :=
  if head = 0 then do
    setNext node node
    setPrevious node node
    return node
  else do
    let tail ← look (previous · head)
    setPrevious node tail
    setNext tail node
    setNext node head
    setPrevious head node
    return head

def tail? (m : Memory) (head : UInt32) : Look (Option UInt32) :=
  if head = 0 then pure none else do return some (← previous m head)

def visitFrom (m : Memory) (head : UInt32) (act : α → UInt32 → Look (ForInStep α)) :
    Nat → UInt32 → α → Look α
  | 0, _, _ => throw (.endless head)
  | steps + 1, node, found => do
    let after ← next m node
    match ← act found node with
    | .done result => return result
    | .yield found => if after = head then return found else visitFrom m head act steps after found

def visit (m : Memory) (head : UInt32) (act : α → UInt32 → Look (ForInStep α)) (start : α) :
    Look α :=
  if head = 0 then pure start else visitFrom m head act (Ring.budget m) head start

def collect (m : Memory) (head : UInt32) (read : UInt32 → Look α) : Look (List α) := do
  let found ← visit m head (fun found node => do return .yield ((← read node) :: found)) []
  return found.reverse

def find? (m : Memory) (head : UInt32) (look : UInt32 → Look (Option α)) : Look (Option α) :=
  visit m head
    (fun _ node => do
      match ← look node with
      | some a => return .done (some a)
      | none => return .yield none) none

def auditRecord (m : Memory) (node : UInt32) : Look Unit := do
  let after ← next m node
  if (← previous m after) ≠ node then throw (.brokenBackLink after node)

def auditRing (m : Memory) (head : UInt32) : Look Nat := do
  let count ← visit m head
    (fun count node => do
      auditRecord m node
      return .yield (count + 1)) 0
  if let some tail ← tail? m head then
    if (← next m tail) ≠ head then throw (.openTail tail head)
  return count

/-! ## §4. Records. -/

def loadMap (m : Memory) (address : UInt32) : Look AddressMap := do
  let id ← first (← read m (← sum address AddressMap.idField) 1)
  let name ← readText m (← readField m address AddressMap.nameField)
  let start ← readField m address AddressMap.startField
  let stop ← readField m address AddressMap.stopField
  let access ← readField m address AddressMap.accessField
  let entries ← readField m address AddressMap.entriesField
  return ⟨address, id, name, start, stop, access, entries⟩

def putMap (id : UInt8) (name : String) (start stop access : UInt32) : Change Memory UInt32 := do
  let address ← reserve AddressMap.recordSize
  let nameAddress ← storeText (Text.Utf8.bytes name)
  writeFields address [(AddressMap.entriesField, 0), (AddressMap.startField, start),
    (AddressMap.stopField, stop), (AddressMap.accessField, access)]
  write (← look fun _ => sum address AddressMap.idField) [id]
  writeFields address [(AddressMap.nameField, nameAddress)]
  return address

def nextId (name : String) (maps : List AddressMap) : Look UInt8 :=
  match maps.getLast? with
  | none => pure 0
  | some last =>
    if AddressMap.idLimit ≤ maps.length then throw (.tooManyMaps name AddressMap.idLimit)
    else byteSum last.id 1

def loadIds (m : Memory) (address count list : UInt32) : Look (List UInt8) := do
  let length ← readField m address count
  read m (← readField m address list) length.toNat

def loadProgram (m : Memory) (address : UInt32) : Look Program := do
  let start ← readField m address Program.startField
  let stop ← readField m address Program.stopField
  let argv ← readText m (← readField m address Program.argvField)
  let instructionMaps ← loadIds m address Program.instructionCountField Program.instructionMapsField
  let dataMaps ← loadIds m address Program.dataCountField Program.dataMapsField
  return ⟨address, start, stop, Text.Utf8.bytes argv, instructionMaps, dataMaps⟩

def putProgram (plan : Program.Plan) : Change Memory UInt32 := do
  let address ← reserve Program.recordSize
  let dataMaps ← store plan.dataMaps
  let instructionMaps ← store plan.instructionMaps
  let argv ← store (plan.argv ++ [0])
  let instructionCount ← look fun _ => word plan.instructionMaps.length
  let dataCount ← look fun _ => word plan.dataMaps.length
  writeFields address [(Program.startField, plan.payload.address),
    (Program.stopField, plan.payload.stop), (Program.argvField, argv),
    (Program.instructionCountField, instructionCount),
    (Program.instructionMapsField, instructionMaps), (Program.dataCountField, dataCount),
    (Program.dataMapsField, dataMaps)]
  return address

/-! ## §5. Sessions. -/

/-- Changes the page of a session and nothing else. -/
def onMemory (change : Change Memory α) : Change Session α := ExceptT.mk fun s =>
  (change.run.run s.memory).map fun (answer, memory) => (answer, { s with memory := memory })

def header (s : Session) : Look Header := do
  return ⟨s.imageSize, ← word s.memory.size, s.load, s.mapHead, s.programHead, s.console⟩

/-- Where a new payload ends in the image and starts once the image is loaded, or what forbids the
payload. -/
def payloadEnds (s : Session) (name : String) (place size : UInt32) : Look (UInt32 × UInt32) :=
  if Session.aliasNameLimit < (Text.Utf8.bytes name).length then
    throw (.aliasNameTooLong name Session.aliasNameLimit)
  else
    match Session.payloadSums? s.load place size with
    | none => throw (.aliasOutside name place size)
    | some (reach, address, _) => return (reach, address)

def insertAlias (name : String) (place size : UInt32) : Change Session Unit := do
  let (imageStop, address) ← look (payloadEnds · name place size)
  modify fun s => { s with
    imageSize := max s.imageSize imageStop
    aliases := ⟨name, address, size⟩ :: s.aliases }

/-- The newest payload of a name, with the address after its last byte. -/
def alias? (s : Session) (name : String) : Look (Alias × UInt32) := do
  let found ← s.alias? name
  return (found, ← sum found.address found.size)

def maps (s : Session) : Look (List AddressMap) :=
  collect s.memory s.mapHead (loadMap s.memory)

def freshMapId (s : Session) (name : String) (start stop : UInt32) : Look UInt8 := do
  let maps ← maps s
  match maps.findSome? (AddressMap.conflict? name start stop) with
  | some fault => throw fault
  | none => nextId name maps

def insertMap (name : String) (start stop access : UInt32) : Change Session AddressMap := do
  let id ← look fun s => freshMapId s name start stop
  let address ← onMemory (putMap id name start stop access)
  let head ← onMemory (append (← get).mapHead address)
  modify fun s => { s with mapHead := head }
  return ⟨address, id, name, start, stop, access, 0⟩

def mapId (s : Session) (name : String) : Look UInt8 := do
  let found ← find? s.memory s.mapHead fun node => do
    let map ← loadMap s.memory node
    return if map.name = name then some map.id else none
  match found with
  | some id => return id
  | none => throw (.unknownMap name)

def mapIds (s : Session) (names : String) : Look (List UInt8) :=
  (Text.fieldTexts ';' names).mapM (mapId s)

def programs (s : Session) : Look (List Program) :=
  collect s.memory s.programHead (loadProgram s.memory)

def planProgram (s : Session) (payload instructionMaps dataMaps argv : String) (atOnce : Bool) :
    Look Program.Plan := do
  let (payload, _) ← alias? s payload
  let instructionMaps ← mapIds s instructionMaps
  let dataMaps ← mapIds s dataMaps
  return ⟨payload, instructionMaps, dataMaps, Program.markedArgv argv atOnce⟩

def insertProgram (payload instructionMaps dataMaps argv : String) (atOnce : Bool) :
    Change Session Program := do
  let plan ← look fun s => planProgram s payload instructionMaps dataMaps argv atOnce
  let address ← onMemory (putProgram plan)
  let head ← onMemory (append (← get).programHead address)
  modify fun s => { s with programHead := head }
  return ⟨address, plan.payload.address, plan.payload.stop, plan.argv, plan.instructionMaps,
    plan.dataMaps⟩

def audit (s : Session) : Look Unit := do
  let mapCount ← auditRing s.memory s.mapHead
  let _ ← auditRing s.memory s.programHead
  if let some fault := Session.misnumbered? 0 (← maps s) then throw fault
  if let some fault := (← programs s).findSome? (Session.dangling? mapCount) then throw fault

/-- The report looks up the header and the records, and tells where records cannot be read. -/
def report (s : Session) : Option String := do
  let _ ← (header s).run
  let _ ← (maps s).run
  let _ ← (programs s).run
  return s.report

def complete : Change Session (List UInt8) := do
  let h ← look header
  let s ← get
  onMemory (writeFields s.memory.base [(0, h.imageSize), (4, h.size), (8, h.load), (12, h.mapHead),
    (16, h.programHead), (20, h.console)])
  look fun s => bytes s.memory

end Guarded
end SystemPage
