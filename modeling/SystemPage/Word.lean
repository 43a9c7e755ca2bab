/-
  SystemPage.Word — how a 32-bit word lies in memory.

  Every number of a system page is an unsigned 32-bit word in four consecutive bytes.  The target
  fixes the order of the four: least significant first, or most significant first.

  Main results:

      decode_encode    — a stored word reads back as itself, in either order
      encode_decode    — four bytes are the stored form of the word they read as
      encode_big       — the two orders store the same bytes, one the reverse of the other
-/

namespace SystemPage

/-! ## §1. The two orders. -/

/-- The order of the four bytes of a stored word. -/
inductive ByteOrder where
  -- least significant byte first
  | little
  -- most significant byte first
  | big
  deriving DecidableEq, Repr, Inhabited

namespace ByteOrder

def wordSize : Nat := 4

/-- The `count` lowest digits of `n` in base 256, lowest first. -/
def digits : Nat → Nat → List UInt8
  | 0, _ => []
  | count + 1, n => UInt8.ofNat (n % 256) :: digits count (n / 256)

/-- The natural number with the given base-256 digits, lowest first. -/
def value : List UInt8 → Nat
  | [] => 0
  | b :: bs => b.toNat + 256 * value bs

/-- Between digits with the lowest first and the stored order, in both directions. -/
def arrange : ByteOrder → List UInt8 → List UInt8
  | .little, bs => bs
  | .big, bs => bs.reverse

/-- The four bytes that store a word. -/
def encode (order : ByteOrder) (word : UInt32) : List UInt8 :=
  order.arrange (digits wordSize word.toNat)

/-- The word that four bytes store. -/
def decode (order : ByteOrder) (bytes : List UInt8) : UInt32 :=
  UInt32.ofNat (value (order.arrange bytes))

/-! ## §2. Storing and reading back. -/

@[simp] theorem length_digits (count n : Nat) : (digits count n).length = count := by
  induction count generalizing n with
  | zero => rfl
  | succ count ih => simp [digits, ih]

theorem value_digits (count n : Nat) : value (digits count n) = n % Nat.pow 256 count := by
  show _ = n % 256 ^ count
  induction count generalizing n with
  | zero => simp [digits, value, Nat.mod_one]
  | succ count ih =>
    have hb : (UInt8.ofNat (n % 256)).toNat = n % 256 := by simp
    rw [digits, value, ih, hb, Nat.pow_succ, Nat.mul_comm (256 ^ count) 256, Nat.mod_mul]

theorem digits_value (bs : List UInt8) : digits bs.length (value bs) = bs := by
  induction bs with
  | nil => rfl
  | cons b bs ih =>
    have hb : b.toNat < 256 := b.toNat_lt
    have hmod : (b.toNat + 256 * value bs) % 256 = b.toNat := by omega
    have hdiv : (b.toNat + 256 * value bs) / 256 = value bs := by omega
    simp [digits, value, hmod, hdiv, ih]

theorem value_lt (bs : List UInt8) : value bs < Nat.pow 256 bs.length := by
  show _ < 256 ^ bs.length
  induction bs with
  | nil => simp [value]
  | cons b bs ih =>
    have hb : b.toNat < 256 := b.toNat_lt
    simp only [value, List.length_cons, Nat.pow_succ]
    omega

@[simp] theorem arrange_arrange (order : ByteOrder) (bs : List UInt8) :
    order.arrange (order.arrange bs) = bs := by
  cases order <;> simp [arrange]

@[simp] theorem length_arrange (order : ByteOrder) (bs : List UInt8) :
    (order.arrange bs).length = bs.length := by
  cases order <;> simp [arrange]

@[simp] theorem length_encode (order : ByteOrder) (word : UInt32) :
    (order.encode word).length = wordSize := by
  simp [encode]

/-- **A stored word reads back as itself.** -/
@[simp] theorem decode_encode (order : ByteOrder) (word : UInt32) :
    order.decode (order.encode word) = word := by
  have h : word.toNat % 256 ^ wordSize = word.toNat :=
    Nat.mod_eq_of_lt (by simpa [wordSize] using word.toNat_lt)
  simp [decode, encode, value_digits, h]

/-- **Four bytes are the stored form of the word they read as.** -/
theorem encode_decode (order : ByteOrder) (bytes : List UInt8) (h : bytes.length = wordSize) :
    order.encode (order.decode bytes) = bytes := by
  have hlen : (order.arrange bytes).length = wordSize := by simpa using h
  have hlt : value (order.arrange bytes) < 2 ^ 32 := by
    simpa [hlen, wordSize] using value_lt (order.arrange bytes)
  have hnat : (UInt32.ofNat (value (order.arrange bytes))).toNat
      = value (order.arrange bytes) := by
    simpa using Nat.mod_eq_of_lt hlt
  rw [encode, decode, hnat, ← hlen, digits_value, arrange_arrange]

/-- The two orders store the same bytes, one the reverse of the other. -/
theorem encode_big (word : UInt32) : encode .big word = (encode .little word).reverse := rfl

end ByteOrder
end SystemPage
