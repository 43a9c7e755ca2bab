/-
  SystemPage.Numeral — the whole numbers of scripts.

  A numeral is written in one of three notations: `0x` or `0X` and hexadecimal digits of either
  case, `0` and octal digits, or decimal digits.  The notation is chosen by the first characters
  alone, a lone `0` is decimal, and any number of zeros may lead.  The value has to fit a 32-bit
  word.

  Main definitions:

      splitRadix    — the radix that the first characters choose, and the digits
      digitsValue   — the value of a string of digits
      digitsBelow?  — the same, as long as it is below a bound
      parseWord     — the word that a numeral denotes, or why there is none

  Main result:

      digitsBelow?_eq   — a value is given up exactly when it reaches the bound
-/

namespace SystemPage

/-! ## §1. Digits. -/

/-- The value of a hexadecimal digit of either case. -/
def digitValue? (c : Char) : Option Nat :=
  let n := c.toNat
  if 0x30 ≤ n ∧ n ≤ 0x39 then some (n - 0x30)
  else if 0x61 ≤ n ∧ n ≤ 0x66 then some (n - 0x61 + 10)
  else if 0x41 ≤ n ∧ n ≤ 0x46 then some (n - 0x41 + 10)
  else none

/-- Whether a character is a digit of a radix up to sixteen. -/
def isDigitOf (radix : Nat) (c : Char) : Bool :=
  match digitValue? c with
  | some d => d < radix
  | none => false

/-- The value of digits, most significant first. -/
def digitsValue (radix : Nat) (digits : List Char) : Nat :=
  digits.foldl (fun acc c => acc * radix + (digitValue? c).getD 0) 0

/-- The value of digits, most significant first, if it is below a bound.  Digits behind the one that
reaches the bound are not looked at, so a numeral of any length is read in one go. -/
def digitsBelow? (bound radix : Nat) (digits : List Char) : Option Nat :=
  digits.foldlM (fun acc c =>
    let n := acc * radix + (digitValue? c).getD 0
    if n < bound then some n else none) 0

/-! ## §2. Notations. -/

/-- The radix that the first characters of a numeral choose, and the digits after them. -/
def splitRadix : List Char → Nat × List Char
  | '0' :: 'x' :: digits => (16, digits)
  | '0' :: 'X' :: digits => (16, digits)
  | '0' :: d :: digits => (8, d :: digits)
  | digits => (10, digits)

/-- Why a text denotes no word. -/
inductive NumeralFault where
  -- there is no digit, or a character that is no digit of the radix
  | malformed (text : String)
  -- the value does not fit a word
  | tooLarge (text : String)
  deriving DecidableEq, Repr

def NumeralFault.message : NumeralFault → String
  | .malformed text => s!"[ {text} ] is not a valid integer"
  | .tooLarge text =>
    s!"[ {text} ] is not a valid integer :: [ number too large to fit in target type ]"

/-! ## §3. Reading a numeral. -/

/-- The word that a numeral denotes. -/
def parseWord (text : String) : Except NumeralFault UInt32 :=
  let (radix, digits) := splitRadix text.toList
  if digits.isEmpty || !digits.all (isDigitOf radix) then .error (.malformed text)
  else
    match digitsBelow? UInt32.size radix digits with
    | some n => .ok (UInt32.ofNat n)
    | none => .error (.tooLarge text)

/-! ## §4. Values and bounds. -/

/-- More digits never make a value smaller. -/
theorem le_foldl_digits {radix : Nat} (hr : 0 < radix) (digits : List Char) (acc : Nat) :
    acc ≤ digits.foldl (fun acc c => acc * radix + (digitValue? c).getD 0) acc := by
  induction digits generalizing acc with
  | nil => exact Nat.le_refl acc
  | cons c cs ih =>
    refine Nat.le_trans ?_ (ih _)
    exact Nat.le_trans (Nat.le_mul_of_pos_right acc hr) (Nat.le_add_right _ _)

/-- **A value is given up exactly when it reaches the bound.** -/
theorem digitsBelow?_eq {bound radix : Nat} (hb : 0 < bound) (hr : 0 < radix) (digits : List Char) :
    digitsBelow? bound radix digits
      = if digitsValue radix digits < bound then some (digitsValue radix digits) else none := by
  have key : ∀ (cs : List Char) (acc : Nat), acc < bound →
      cs.foldlM (fun acc c =>
          let n := acc * radix + (digitValue? c).getD 0
          if n < bound then some n else none) acc
        = if cs.foldl (fun acc c => acc * radix + (digitValue? c).getD 0) acc < bound
          then some (cs.foldl (fun acc c => acc * radix + (digitValue? c).getD 0) acc)
          else none := by
    intro cs
    induction cs with
    | nil => intro acc h; simp [h]
    | cons c cs ih =>
      intro acc _
      rw [List.foldlM_cons, List.foldl_cons]
      by_cases hn : acc * radix + (digitValue? c).getD 0 < bound
      · simp only [hn, if_true, Option.bind_eq_bind, Option.bind_some]
        exact ih _ hn
      · have hle := le_foldl_digits hr cs (acc * radix + (digitValue? c).getD 0)
        simp only [hn, if_false, Option.bind_eq_bind, Option.bind_none]
        rw [if_neg (by omega)]
  exact key digits 0 hb

end SystemPage
