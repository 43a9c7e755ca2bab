/-
  SystemPage.Text.Utf8 — text as bytes.

  A text is stored as its UTF-8 bytes.  Bytes are read back with a reader that never fails: what
  is no UTF-8 is shown by U+FFFD, one for each longest run of bytes that begins a character but
  does not finish it, and one for each byte that begins none.  The reader is an automaton that
  takes one byte at a time.

  The second byte of a character decides against overlong forms, surrogates and numbers past
  U+10FFFF, so `Pending` carries the range of the byte that may come next:

      C2..DF            then 80..BF
      E0                then A0..BF, 80..BF
      E1..EC, EE, EF    then 80..BF, 80..BF
      ED                then 80..9F, 80..BF
      F0                then 90..BF, 80..BF, 80..BF
      F1..F3            then 80..BF, 80..BF, 80..BF
      F4                then 80..8F, 80..BF, 80..BF

  Main results:

      decode_encode          — text that was written reads back as itself
      decode?_eq_some_iff    — bytes are UTF-8 exactly when they are the bytes of some characters
      zero_mem_bytes_iff     — a text without the character zero is bytes without zero
-/

namespace SystemPage.Text.Utf8

/-! ## §1. Writing. -/

/-- The UTF-8 bytes of a sequence of characters. -/
def encode (cs : List Char) : List UInt8 := cs.flatMap String.utf8EncodeChar

/-- The UTF-8 bytes of a text. -/
def bytes (s : String) : List UInt8 := encode s.toList

/-! ## §2. The automaton. -/

/-- A character that has begun and is not finished. -/
structure Pending where
  -- the least byte that may come next
  low : Nat
  -- the greatest byte that may come next
  high : Nat
  -- how many bytes are missing after the next one
  more : Nat
  -- the bits read so far
  bits : Nat
  deriving DecidableEq, Repr

/-- The mark for bytes that are no text. -/
def replacement : Char := Char.ofNat 0xFFFD

/-- What a byte means between two characters: characters to emit, and a character it begins. -/
def begin (b : Nat) : List Char × Option Pending :=
  if b < 0x80 then ([Char.ofNat b], none)
  else if b < 0xC2 then ([replacement], none)
  else if b < 0xE0 then ([], some ⟨0x80, 0xBF, 0, b - 0xC0⟩)
  else if b = 0xE0 then ([], some ⟨0xA0, 0xBF, 1, 0⟩)
  else if b = 0xED then ([], some ⟨0x80, 0x9F, 1, 0xD⟩)
  else if b < 0xF0 then ([], some ⟨0x80, 0xBF, 1, b - 0xE0⟩)
  else if b = 0xF0 then ([], some ⟨0x90, 0xBF, 2, 0⟩)
  else if b < 0xF4 then ([], some ⟨0x80, 0xBF, 2, b - 0xF0⟩)
  else if b = 0xF4 then ([], some ⟨0x80, 0x8F, 2, 4⟩)
  else ([replacement], none)

/-- What a byte means at any point.  A byte that does not continue the character begun before it
leaves that character unfinished and is read as if it came between two characters. -/
def feed : Option Pending → Nat → List Char × Option Pending
  | none, b => begin b
  | some p, b =>
    if p.low ≤ b ∧ b ≤ p.high then
      let bits := p.bits * 64 + (b - 0x80)
      match p.more with
      | 0 => ([Char.ofNat bits], none)
      | more + 1 => ([], some ⟨0x80, 0xBF, more, bits⟩)
    else (replacement :: (begin b).1, (begin b).2)

/-- Reads bytes from any point on. -/
def decodeFrom : Option Pending → List UInt8 → List Char
  | none, [] => []
  | some _, [] => [replacement]
  | state, b :: bs =>
    let step := feed state b.toNat
    step.1 ++ decodeFrom step.2 bs

/-! ## §3. Reading. -/

/-- The characters that bytes are shown as. -/
def decode (bs : List UInt8) : List Char := decodeFrom none bs

/-- The text that bytes are shown as. -/
def text (bs : List UInt8) : String := String.ofList (decode bs)

/-- The characters of bytes that are UTF-8, and `none` for any other bytes.  Bytes are UTF-8 exactly
when nothing is lost by reading them and writing them again. -/
def decode? (bs : List UInt8) : Option (List Char) :=
  let cs := decode bs
  if encode cs = bs then some cs else none

/-! ## §4. Writing and reading back. -/

/-- Reading goes byte by byte. -/
theorem decodeFrom_cons (state : Option Pending) {b : Nat} (hb : b < 256) (bs : List UInt8) :
    decodeFrom state (UInt8.ofNat b :: bs)
      = (feed state b).1 ++ decodeFrom (feed state b).2 bs := by
  have h : (UInt8.ofNat b).toNat = b := by
    simpa using hb
  cases state <;> rw [decodeFrom, h]

/-- A byte in the range that a pending character asks for is taken into it. -/
theorem feed_pending {low high more bits b : Nat} (h : low ≤ b ∧ b ≤ high) :
    feed (some ⟨low, high, more + 1, bits⟩) b
      = ([], some ⟨0x80, 0xBF, more, bits * 64 + (b - 0x80)⟩) := by
  simp [feed, h]

/-- The last byte of a pending character finishes it. -/
theorem feed_last {low high bits b : Nat} (h : low ≤ b ∧ b ≤ high) :
    feed (some ⟨low, high, 0, bits⟩) b = ([Char.ofNat (bits * 64 + (b - 0x80))], none) := by
  simp [feed, h]

/-- The bytes of a character are read back as that character. -/
theorem decodeFrom_encodeChar (c : Char) (bs : List UInt8) :
    decodeFrom none (String.utf8EncodeChar c ++ bs) = c :: decodeFrom none bs := by
  have hc : c.toNat < 0xD800 ∨ 0xDFFF < c.toNat ∧ c.toNat < 0x110000 := c.valid
  have he : Char.ofNat c.toNat = c := Char.ofNat_toNat c
  rw [String.utf8EncodeChar, show c.val.toNat = c.toNat from rfl]
  generalize c.toNat = n at *
  subst he
  split
  · next h =>
    rw [List.cons_append, decodeFrom_cons none (by omega)]
    simp [feed, begin, show n < 0x80 by omega]
  split
  · next h =>
    rw [List.cons_append, List.cons_append, decodeFrom_cons none (by omega)]
    have hs : begin (n / 64 % 0x20 + 0xc0) = ([], some ⟨0x80, 0xBF, 0, n / 64⟩) := by
      simp only [begin]
      rw [if_neg (by omega), if_neg (by omega), if_pos (by omega),
        show n / 64 % 0x20 + 0xc0 - 0xC0 = n / 64 by omega]
    rw [feed, hs, decodeFrom_cons _ (by omega), feed_last (by omega)]
    simp
    congr 1
    omega
  split
  · next h =>
    rw [List.cons_append, List.cons_append, List.cons_append, decodeFrom_cons none (by omega)]
    have hs : ∃ low high, begin (n / 4096 % 0x10 + 0xe0) = ([], some ⟨low, high, 1, n / 4096⟩)
        ∧ low ≤ n / 64 % 0x40 + 0x80 ∧ n / 64 % 0x40 + 0x80 ≤ high := by
      simp only [begin]
      rw [if_neg (by omega), if_neg (by omega), if_neg (by omega)]
      by_cases h0 : n / 4096 = 0
      · exact ⟨0xA0, 0xBF, by simp [h0], by omega, by omega⟩
      · rw [if_neg (by omega)]
        by_cases hd : n / 4096 = 0xD
        · exact ⟨0x80, 0x9F, by simp [hd], by omega, by omega⟩
        · rw [if_neg (by omega), if_pos (by omega),
            show n / 4096 % 0x10 + 0xe0 - 0xE0 = n / 4096 by omega]
          exact ⟨0x80, 0xBF, rfl, by omega, by omega⟩
    obtain ⟨low, high, hs, hr⟩ := hs
    rw [feed, hs, decodeFrom_cons _ (by omega), feed_pending hr, decodeFrom_cons _ (by omega),
      feed_last (by omega)]
    simp
    congr 1
    omega
  · next h1 h2 h3 =>
    rw [List.cons_append, List.cons_append, List.cons_append, List.cons_append,
      decodeFrom_cons none (by omega)]
    have hs : ∃ low high, begin (n / 262144 % 0x08 + 0xf0)
          = ([], some ⟨low, high, 2, n / 262144⟩)
        ∧ low ≤ n / 4096 % 0x40 + 0x80 ∧ n / 4096 % 0x40 + 0x80 ≤ high := by
      simp only [begin]
      rw [if_neg (by omega), if_neg (by omega), if_neg (by omega), if_neg (by omega),
        if_neg (by omega), if_neg (by omega)]
      by_cases h0 : n / 262144 = 0
      · exact ⟨0x90, 0xBF, by simp [h0], by omega, by omega⟩
      · rw [if_neg (by omega)]
        by_cases h4 : n / 262144 = 4
        · exact ⟨0x80, 0x8F, by simp [h4], by omega, by omega⟩
        · rw [if_pos (by omega),
            show n / 262144 % 0x08 + 0xf0 - 0xF0 = n / 262144 by omega]
          exact ⟨0x80, 0xBF, rfl, by omega, by omega⟩
    obtain ⟨low, high, hs, hr⟩ := hs
    rw [feed, hs, decodeFrom_cons _ (by omega), feed_pending hr, decodeFrom_cons _ (by omega),
      feed_pending (by omega), decodeFrom_cons _ (by omega), feed_last (by omega)]
    simp
    congr 1
    omega

/-- **Text that was written reads back as itself.** -/
theorem decode_encode (cs : List Char) : decode (encode cs) = cs := by
  induction cs with
  | nil => rfl
  | cons c cs ih =>
    rw [encode, List.flatMap_cons, decode, decodeFrom_encodeChar]
    exact congrArg (c :: ·) ih

/-- Bytes are UTF-8 exactly when they are the bytes of some characters. -/
theorem decode?_eq_some_iff {bs : List UInt8} {cs : List Char} :
    decode? bs = some cs ↔ bs = encode cs := by
  rw [decode?]
  constructor
  · intro h
    by_cases he : encode (decode bs) = bs
    · rw [if_pos he, Option.some.injEq] at h
      rw [← h, he]
    · rw [if_neg he] at h
      cases h
  · rintro rfl
    rw [decode_encode, if_pos rfl]

/-- A text reads back as itself. -/
@[simp] theorem text_bytes (s : String) : text (bytes s) = s := by
  rw [text, bytes, decode_encode, String.ofList_toList]

/-! ## §5. Zero bytes. -/

/-- A number below 256 that is not zero is no zero byte. -/
theorem zero_ne_ofNat {n : Nat} (hpos : 0 < n) (hlt : n < 256) : 0 ≠ UInt8.ofNat n := by
  intro hzero
  have hnumber := congrArg UInt8.toNat hzero
  rw [UInt8.toNat_ofNat'] at hnumber
  change 0 = n % 256 at hnumber
  omega

/-- The bytes of a character that is not zero are none of them zero.  In a character of several
bytes all of them are `80` or more. -/
theorem zero_not_mem_encodeChar {c : Char} (h : 0 < c.toNat) : 0 ∉ String.utf8EncodeChar c := by
  rw [String.utf8EncodeChar, show c.val.toNat = c.toNat from rfl]
  have hne := @zero_ne_ofNat
  split
  · rw [List.mem_singleton]
    exact hne h (by omega)
  split
  · simp only [List.mem_cons, List.not_mem_nil, or_false, not_or]
    exact ⟨hne (by omega) (by omega), hne (by omega) (by omega)⟩
  split
  · simp only [List.mem_cons, List.not_mem_nil, or_false, not_or]
    exact ⟨hne (by omega) (by omega), hne (by omega) (by omega), hne (by omega) (by omega)⟩
  · simp only [List.mem_cons, List.not_mem_nil, or_false, not_or]
    exact ⟨hne (by omega) (by omega), hne (by omega) (by omega), hne (by omega) (by omega),
      hne (by omega) (by omega)⟩

/-- The bytes of a text hold a zero exactly where the text holds the character zero. -/
theorem zero_mem_bytes_iff {s : String} : 0 ∈ bytes s ↔ Char.ofNat 0 ∈ s.toList := by
  unfold bytes encode
  rw [List.mem_flatMap]
  constructor
  · rintro ⟨c, hc, hzero⟩
    by_cases hpos : 0 < c.toNat
    · exact absurd hzero (zero_not_mem_encodeChar hpos)
    · have hnumber : c.toNat = 0 := by omega
      rwa [← hnumber, Char.ofNat_toNat]
  · intro h
    exact ⟨_, h, by decide⟩

end SystemPage.Text.Utf8
