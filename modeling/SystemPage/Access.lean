/-
  SystemPage.Access — what may be done with the memory of a map.

  A map grants access in six ways, each with a letter in scripts and a bit in the stored word.  A
  text of letters stands for the set of its letters: neither their order nor their repetition
  matters.
-/

namespace SystemPage

/-! ## §1. The six ways. -/

/-- A way of access. -/
inductive Access where
  | read
  | write
  -- instructions may be fetched from the memory
  | execute
  -- the memory may be shared between programs
  | share
  -- the memory may be cached
  | cache
  -- writes to the memory may be buffered
  | buffer
  deriving DecidableEq, Repr

namespace Access

/-- Every way of access, in the order of the bits. -/
def all : List Access := [.read, .write, .execute, .share, .cache, .buffer]

/-- The letter of a way of access. -/
def letter : Access → Char
  | .read => 'r'
  | .write => 'w'
  | .execute => 'x'
  | .share => 's'
  | .cache => 'c'
  | .buffer => 'b'

/-- The bit of a way of access. -/
def bit : Access → UInt32
  | .read => 0x01
  | .write => 0x02
  | .execute => 0x04
  | .share => 0x08
  | .cache => 0x10
  | .buffer => 0x20

/-- The way of access with a given letter. -/
def ofLetter? (c : Char) : Option Access := all.find? fun a => a.letter = c

/-- The word with the bits of every listed way of access. -/
def mask (accesses : List Access) : UInt32 :=
  accesses.foldl (fun word a => word ||| a.bit) 0

/-- The ways of access that a text of letters lists, or its first letter that is none. -/
def ofLetters : List Char → Except Char (List Access)
  | [] => .ok []
  | c :: cs =>
    match ofLetter? c with
    | none => .error c
    | some a => (ofLetters cs).map (a :: ·)

/-! ## §2. Letters and ways correspond. -/

/-- Every way of access is found by its letter. -/
theorem ofLetter?_letter (a : Access) : ofLetter? a.letter = some a := by
  cases a <;> decide

/-- A way of access that is found by a letter has that letter. -/
theorem letter_of_ofLetter? {c : Char} {a : Access} (h : ofLetter? c = some a) : a.letter = c := by
  simpa using List.find?_some h

end Access
end SystemPage
