/-
  SystemPage.Memory — the bytes of a page and their addresses.

  A page will lie at a fixed place in the memory of the target.  Every address that is handed out or
  taken here is an address of the target; where a byte lies on the host never shows.

  **Room.** The page grows block by block from its start and never shrinks.  It always ends at a
  multiple of 8 from its base, a new block starts where the page ends, and growth stops short of
  the capacity: a block that would fill the page to the last byte is refused.

  **Access.** A range of addresses may be read and written as long as it lies in the part of the
  page that has been reserved.  So nothing was written where a new block starts, and its bytes are
  zero.
-/
import SystemPage.Cells
import SystemPage.Edit
import SystemPage.Text.Utf8
import SystemPage.Word

namespace SystemPage

/-! ## §1. Sizes. -/

/-- Blocks start and end at multiples of this number of bytes. -/
def alignment : Nat := 8

/-- The least multiple of the alignment that is not below `n`. -/
def roundUp (n : Nat) : Nat := (n + (alignment - 1)) / alignment * alignment

/-- The number of addresses of the target. -/
def addressSpace : Nat := UInt32.size

/-- The sum of two words, if it is one. -/
def sum? (a b : UInt32) : Option UInt32 :=
  if a.toNat + b.toNat < addressSpace then some (a + b) else none

theorem sum?_of_lt {a b : UInt32} (h : a.toNat + b.toNat < addressSpace) :
    sum? a b = some (a + b) ∧ (a + b).toNat = a.toNat + b.toNat := by
  have hspace : addressSpace = 2 ^ 32 := rfl
  refine ⟨if_pos h, ?_⟩
  rw [UInt32.toNat_add]
  omega

theorem sum?_of_le {a b : UInt32} (h : addressSpace ≤ a.toNat + b.toNat) : sum? a b = none :=
  if_neg (Nat.not_lt.2 h)

/-! ## §2. A page in memory. -/

/-- A page: where it starts, how large it may grow, and what it holds. -/
structure Memory where
  base : UInt32
  -- the number of bytes that growth has to stay below
  capacity : Nat
  order : ByteOrder
  -- the number of bytes reserved so far
  size : Nat
  cells : Cells
  deriving DecidableEq, Repr

namespace Memory

def bytes (m : Memory) : List UInt8 := m.cells.slice 0 m.size

/-- An empty page with room for a header of `header` bytes already reserved. -/
def create (load offset : UInt32) (capacity header : Nat) (order : ByteOrder) :
    Except Fault Memory :=
  let used := roundUp header
  if addressSpace ≤ load.toNat + offset.toNat then .error (.startOutside load offset)
  else if addressSpace < (load + offset).toNat + capacity then
    .error (.endOutside capacity (load + offset))
  else if capacity < used then .error (.headerTooLarge capacity used)
  else .ok ⟨load + offset, capacity, order, used, .blank⟩

/-- The number of bytes reserved after a block of `size` bytes is added. -/
def sizeWith (m : Memory) (size : Nat) : Nat := roundUp (roundUp m.size + size)

/-- The page after a block of `size` bytes is added to it. -/
def grow (m : Memory) (size : Nat) : Memory := { m with size := m.sizeWith size }

/-- Adds a block of zeros and answers its address. -/
def reserve (size : Nat) : Edit Memory UInt32 := fun m =>
  if m.sizeWith size < m.capacity then
    .ok (m.base + UInt32.ofNat (roundUp m.size)) (m.grow size)
  else .error (.noRoom size m.size m.capacity) m

/-! ## §3. Reading. -/

/-- Where a range of addresses starts in the bytes of the page, if it lies inside of them. -/
def offset (m : Memory) (address : UInt32) (length : Nat) : Except Fault Nat :=
  if m.base.toNat ≤ address.toNat ∧ address.toNat - m.base.toNat + length ≤ m.size then
    .ok (address.toNat - m.base.toNat)
  else .error (.outside address length m.base m.size)

/-- The bytes at a range of addresses. -/
def read (m : Memory) (address : UInt32) (length : Nat) : Except Fault (List UInt8) := do
  let start ← m.offset address length
  return m.cells.slice start length

def readWord (m : Memory) (address : UInt32) : Except Fault UInt32 := do
  return m.order.decode (← m.read address ByteOrder.wordSize)

/-- The bytes of the text at an address, without the zero byte that ends it. -/
def readBytes (m : Memory) (address : UInt32) : Except Fault (List UInt8) := do
  let start ← m.offset address 0
  match m.cells.firstZero? m.size start with
  | some stop => return m.cells.slice start (stop - start)
  | none => throw (.unterminated address)

def readText (m : Memory) (address : UInt32) : Except Fault String := do
  return Text.Utf8.text (← m.readBytes address)

/-! ## §4. Writing. -/

def write (address : UInt32) (new : List UInt8) : Edit Memory Unit := fun m =>
  match m.offset address new.length with
  | .ok start => .ok () { m with cells := m.cells.overwrite start new }
  | .error fault => .error fault m

/-- Puts words at an address, one after the other. -/
def writeWords (address : UInt32) (words : List UInt32) : Edit Memory Unit := fun m =>
  write address (words.flatMap m.order.encode) m

def writeWord (address word : UInt32) : Edit Memory Unit := writeWords address [word]

/-- Adds a block that holds the given bytes and answers its address. -/
def store (bytes : List UInt8) : Edit Memory UInt32 := do
  let address ← reserve bytes.length
  write address bytes
  return address

/-! ## §5. What access finds and leaves. -/

/-- A range of addresses lies inside of the page at the distance of its start from the base. -/
theorem offset_eq_ok_iff {m : Memory} {address : UInt32} {length start : Nat} :
    m.offset address length = .ok start
      ↔ address.toNat = m.base.toNat + start ∧ start + length ≤ m.size := by
  rw [offset]
  split
  · next h =>
    simp only [Except.ok.injEq]
    omega
  · next h =>
    simp only [reduceCtorEq, false_iff]
    omega

/-- Growth adds room and keeps what the page holds. -/
theorem le_size_grow (m : Memory) (size : Nat) : m.size ≤ (m.grow size).size := by
  simp only [grow, sizeWith, roundUp, alignment]
  omega

@[simp] theorem cells_grow (m : Memory) (size : Nat) : (m.grow size).cells = m.cells := rfl

@[simp] theorem length_bytes (m : Memory) : m.bytes.length = m.size := by
  simp [bytes]

/-- The bytes of a page are what it holds at the positions that have been reserved. -/
theorem getElem?_bytes (m : Memory) (i : Nat) :
    m.bytes[i]? = if i < m.size then some (m.cells.get i) else none := by
  rw [bytes, Cells.getElem?_slice, Nat.zero_add]

end Memory
end SystemPage
