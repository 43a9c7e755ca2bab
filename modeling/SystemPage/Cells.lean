/-
  SystemPage.Cells — bytes by position, zero where nothing was written.

  A page can have room for a whole address space and hold a few records only, so the bytes lie in a
  tree that grows with what is written to it and not with the room.  The root holds position 0; of
  the other positions the odd ones lie in the left branch and the even ones in the right branch, in
  both of them by the same rule: position `2k + 1` is position `k` on the left, position `2k + 2` is
  position `k` on the right.

  Main results:

      get_set           — a written byte is found where it was put, and no other changes
      get_overwrite     — the same for bytes put one after the other
      firstZero?_eq_some_iff, firstZero?_eq_none_iff
                        — what a search for a zero byte finds
-/

namespace SystemPage

/-! ## §1. Single bytes. -/

/-- Bytes by position. -/
inductive Cells where
  -- nothing was written
  | blank
  -- the byte at position 0, and the bytes at the odd and at the even positions after it
  | node (byte : UInt8) (odd even : Cells)
  deriving DecidableEq, Repr

namespace Cells

def get : Cells → Nat → UInt8
  | blank, _ => 0
  | node byte _ _, 0 => byte
  | node _ odd even, n + 1 => if n % 2 = 0 then odd.get (n / 2) else even.get (n / 2)

/-- The bytes after one of them was written. -/
def set : Cells → Nat → UInt8 → Cells
  | blank, 0, b => node b blank blank
  | blank, n + 1, b =>
    if n % 2 = 0 then node 0 (blank.set (n / 2) b) blank else node 0 blank (blank.set (n / 2) b)
  | node _ odd even, 0, b => node b odd even
  | node byte odd even, n + 1, b =>
    if n % 2 = 0 then node byte (odd.set (n / 2) b) even else node byte odd (even.set (n / 2) b)
termination_by _ n => n

/-! ## §2. Runs of bytes. -/

def slice (cells : Cells) (start length : Nat) : List UInt8 :=
  (List.range' start length).map cells.get

/-- The bytes after others were written over them, from position `start` on. -/
def overwrite (cells : Cells) (start : Nat) : List UInt8 → Cells
  | [] => cells
  | b :: new => overwrite (cells.set start b) (start + 1) new

/-- The first position from `start` on, and before `stop`, that holds zero. -/
def firstZero? (cells : Cells) (stop start : Nat) : Option Nat :=
  if start < stop then
    if cells.get start = 0 then some start else firstZero? cells stop (start + 1)
  else none
termination_by stop - start

/-! ## §3. What is found. -/

@[simp] theorem get_blank (n : Nat) : blank.get n = 0 := by
  rw [get]

/-- **A written byte is found where it was put, and no other byte changes.** -/
theorem get_set (cells : Cells) (n : Nat) (b : UInt8) (k : Nat) :
    (cells.set n b).get k = if k = n then b else cells.get k := by
  fun_induction set cells n b generalizing k with
  | case1 b => cases k <;> simp [get]
  | case2 n b hn ih =>
    cases k with
    | zero => simp [get]
    | succ k => grind [get, get_blank]
  | case3 n b hn ih =>
    cases k with
    | zero => simp [get]
    | succ k => grind [get, get_blank]
  | case4 _ odd even b => cases k <;> simp [get]
  | case5 byte odd even n b hn ih =>
    cases k with
    | zero => simp [get]
    | succ k => grind [get]
  | case6 byte odd even n b hn ih =>
    cases k with
    | zero => simp [get]
    | succ k => grind [get]

@[simp] theorem length_slice (cells : Cells) (start length : Nat) :
    (cells.slice start length).length = length := by
  simp [slice]

/-- A slice holds the bytes from its start on, in order. -/
theorem getElem?_slice (cells : Cells) (start length i : Nat) :
    (cells.slice start length)[i]? = if i < length then some (cells.get (start + i)) else none := by
  by_cases h : i < length
  · simp [slice, h]
  · simp [slice, h]

/-- Bytes put one after the other are found where they were put, and no other byte changes. -/
theorem get_overwrite (cells : Cells) (start : Nat) (new : List UInt8) (k : Nat) :
    (cells.overwrite start new).get k
      = if k < start then cells.get k else (new[k - start]?).getD (cells.get k) := by
  induction new generalizing cells start with
  | nil => simp [overwrite]
  | cons b new ih =>
    rw [overwrite, ih, get_set]
    by_cases hk : k < start
    · simp [hk, Nat.lt_succ_of_lt hk, Nat.ne_of_lt hk]
    · by_cases he : k = start
      · simp [he]
      · rw [if_neg (by omega), if_neg he, if_neg hk,
          show k - start = (k - (start + 1)) + 1 by omega, List.getElem?_cons_succ]

/-- A search finds the first zero byte of its range. -/
theorem firstZero?_eq_some_iff {cells : Cells} {stop start n : Nat} :
    cells.firstZero? stop start = some n
      ↔ start ≤ n ∧ n < stop ∧ cells.get n = 0 ∧ ∀ k, start ≤ k → k < n → cells.get k ≠ 0 := by
  fun_induction firstZero? cells stop start with
  | case1 start h hz => grind
  | case2 start h hz ih =>
    rw [ih]
    constructor
    · rintro ⟨hle, hlt, hn, hall⟩
      refine ⟨by omega, hlt, hn, fun k hk hkn => ?_⟩
      rcases Nat.eq_or_lt_of_le hk with rfl | hk
      · exact hz
      · exact hall k hk hkn
    · rintro ⟨hle, hlt, hn, hall⟩
      have hne : start ≠ n := fun e => hz (e ▸ hn)
      exact ⟨by omega, hlt, hn, fun k hk hkn => hall k (by omega) hkn⟩
  | case3 start h => grind

/-- A search finds nothing exactly where no byte of its range is zero. -/
theorem firstZero?_eq_none_iff {cells : Cells} {stop start : Nat} :
    cells.firstZero? stop start = none ↔ ∀ k, start ≤ k → k < stop → cells.get k ≠ 0 := by
  fun_induction firstZero? cells stop start with
  | case1 start h hz => grind
  | case2 start h hz ih =>
    rw [ih]
    constructor
    · intro hall k hk hks
      rcases Nat.eq_or_lt_of_le hk with rfl | hk
      · exact hz
      · exact hall k hk hks
    · exact fun hall k hk hks => hall k (by omega) hks
  | case3 start h => grind

end Cells
end SystemPage
