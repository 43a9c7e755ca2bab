/-
  SystemPage.Session — a page while it is being built.

  A session holds the page itself, the fields of its header other than the size, and the aliases.
  The aliases name payloads that are in the image already; they guide the building and are not
  stored.

  Main definitions:

      Session.create       — the session at the start of a build
      Session.header       — the six words at the start of a page
      Session.insertAlias, Session.alias?
      Session.selectConsole
      Session.complete     — the bytes of the complete page
-/
import SystemPage.Memory
import SystemPage.Placement

namespace SystemPage

/-! ## §1. The header. -/

/-- The record at the start of every page. -/
structure Header where
  -- how many bytes of the image the payloads reach into
  imageSize : UInt32
  size : UInt32
  -- the address at which the image is loaded
  load : UInt32
  -- the head of the ring of maps
  mapHead : UInt32
  -- the head of the ring of programs
  programHead : UInt32
  console : UInt32
  deriving DecidableEq, Repr

/-- The words of a header in the order in which they are stored. -/
def Header.words (h : Header) : List UInt32 :=
  [h.imageSize, h.size, h.load, h.mapHead, h.programHead, h.console]

def headerSize : Nat := 24

/-! ## §2. Sessions. -/

/-- A payload in the image, under the name that scripts know it by. -/
structure Alias where
  name : String
  -- the address of the payload once the image is loaded
  address : UInt32
  size : UInt32
  deriving DecidableEq, Repr

/-- The address after the last byte of a payload. -/
def Alias.stop (a : Alias) : UInt32 := a.address + a.size

/-- A page that is being built. -/
structure Session where
  memory : Memory
  -- the address at which the image is loaded
  load : UInt32
  -- how many bytes of the image the payloads reach into
  imageSize : UInt32
  -- the head of the ring of maps
  mapHead : UInt32
  -- the head of the ring of programs
  programHead : UInt32
  console : UInt32
  -- the payloads, the newest first
  aliases : List Alias
  deriving DecidableEq, Repr

namespace Session

/-- The session at the start of a build. -/
def create (place : Placement) (order : ByteOrder) : Except Fault Session := do
  let memory ← Memory.create place.load place.offset place.capacity.toNat headerSize order
  return ⟨memory, place.load, 0, 0, 0, 0, []⟩

def header (s : Session) : Header :=
  ⟨s.imageSize, UInt32.ofNat s.memory.size, s.load, s.mapHead, s.programHead, s.console⟩

/-- Edits the page of a session and nothing else. -/
def onMemory {α : Type} (edit : Edit Memory α) : Edit Session α := fun s =>
  match edit s.memory with
  | .ok a memory => .ok a { s with memory := memory }
  | .error fault memory => .error fault { s with memory := memory }

/-! ## §3. Aliases. -/

/-- The greatest number of bytes of the name of an alias. -/
def aliasNameLimit : Nat := 31

/-- The place after the last byte of a payload and, once the image is loaded, its address and the
address after its last byte.  Each of them is looked at on its own. -/
def payloadSums? (load place size : UInt32) : Option (UInt32 × UInt32 × UInt32) := do
  let reach ← sum? place size
  let address ← sum? place load
  let stop ← sum? address size
  return (reach, address, stop)

/-- Names a payload by its place in the image.  The payload has to end inside the address space,
both as a part of the image and once the image is loaded. -/
def insertAlias (name : String) (place size : UInt32) : Edit Session Unit := fun s =>
  if aliasNameLimit < (Text.Utf8.bytes name).length then
    .error (.aliasNameTooLong name aliasNameLimit) s
  else
    match payloadSums? s.load place size with
    | none => .error (.aliasOutside name place size) s
    | some (reach, address, _) =>
      .ok () { s with
        imageSize := max s.imageSize reach
        aliases := ⟨name, address, size⟩ :: s.aliases }

/-- **The three sums are words exactly when the last one is.** -/
theorem payloadSums?_eq (load place size : UInt32) :
    payloadSums? load place size =
      if addressSpace ≤ place.toNat + load.toNat + size.toNat then none
      else some (place + size, place + load, place + load + size) := by
  unfold payloadSums?
  by_cases hfits : addressSpace ≤ place.toNat + load.toNat + size.toNat
  · rw [if_pos hfits]
    -- the last sum is no word, if the address is one at all
    by_cases hload : addressSpace ≤ place.toNat + load.toNat
    · rw [sum?_of_le hload]
      cases sum? place size <;> rfl
    · obtain ⟨haddress, hexact⟩ := sum?_of_lt (Nat.lt_of_not_le hload)
      have hstop : sum? (place + load) size = none := sum?_of_le (by omega)
      rw [haddress]
      show ((sum? place size).bind fun _ => (sum? (place + load) size).bind _) = none
      rw [hstop]
      cases sum? place size <;> rfl
  · rw [if_neg hfits]
    obtain ⟨hreach, -⟩ := sum?_of_lt (a := place) (b := size) (by omega)
    obtain ⟨haddress, hexact⟩ := sum?_of_lt (a := place) (b := load) (by omega)
    obtain ⟨hstop, -⟩ := sum?_of_lt (a := place + load) (b := size) (by omega)
    rw [hreach, haddress]
    show (sum? (place + load) size).bind _ = _
    rw [hstop]
    rfl

/-- Whether a payload is refused is decided by one exact sum. -/
theorem insertAlias_eq (name : String) (place size : UInt32) (s : Session) :
    insertAlias name place size s =
      if aliasNameLimit < (Text.Utf8.bytes name).length then
        .error (.aliasNameTooLong name aliasNameLimit) s
      else if addressSpace ≤ place.toNat + s.load.toNat + size.toNat then
        .error (.aliasOutside name place size) s
      else
        .ok () { s with
          imageSize := max s.imageSize (place + size)
          aliases := ⟨name, place + s.load, size⟩ :: s.aliases } := by
  unfold insertAlias
  rw [payloadSums?_eq]
  by_cases hfits : addressSpace ≤ place.toNat + s.load.toNat + size.toNat
  · rw [if_pos hfits, if_pos hfits]
  · rw [if_neg hfits, if_neg hfits]

/-- The newest payload of a name. -/
def alias? (s : Session) (name : String) : Except Fault Alias :=
  match s.aliases.find? fun a => a.name = name with
  | some found => .ok found
  | none => .error (.unknownAlias name)

/-! ## §4. The console. -/

/-- The number of the console that a token denotes.  The token is two numerals parted by a point;
the first of them only has to be there. -/
def consoleNumber (token : String) : Except Fault UInt32 := do
  match Text.cut '.' token.toList with
  | (_, none) => throw (.console .major token)
  | (major, some minor) =>
    discard <| (parseWord (String.ofList major)).mapError fun _ => .console .major token
    (parseWord (String.ofList minor)).mapError fun _ => .console .minor token

def selectConsole (token : String) : Edit Session Unit := do
  let number ← Edit.look fun _ => consoleNumber token
  modify fun s => { s with console := number }

/-! ## §5. Completing the page. -/

/-- Stores the header at the start of the page and answers the bytes of the page. -/
def complete : Edit Session (List UInt8) := do
  let s ← get
  onMemory (Memory.writeWords s.memory.base s.header.words)
  return (← get).memory.bytes

end Session
end SystemPage
