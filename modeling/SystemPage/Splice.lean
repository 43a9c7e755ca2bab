/-
  SystemPage.Splice — the page as a part of the image.

  The bytes of a complete page replace what the image holds from a given distance on.  An image that
  is too short is filled up with zeros to that distance; bytes before and behind the page stay.

  Main results:

      length_splice           — the image grows only as far as the page reaches
      getElem?_splice_inside  — inside the page stand the bytes of the page
      getElem?_splice_outside — outside of it stand the old bytes, and zeros where there were none
-/

namespace SystemPage

/-! ## §1. Putting bytes into bytes. -/

/-- The old bytes with new ones put in from position `start` on. -/
def splice (old : List UInt8) (start : Nat) (new : List UInt8) : List UInt8 :=
  old.take start ++ List.replicate (start - old.length) 0 ++ new ++ old.drop (start + new.length)

/-! ## §2. What stands where. -/

/-- The image grows only as far as the page reaches. -/
theorem length_splice (old : List UInt8) (start : Nat) (new : List UInt8) :
    (splice old start new).length = max old.length (start + new.length) := by
  simp only [splice, List.length_append, List.length_take, List.length_replicate, List.length_drop]
  omega

private theorem length_before (old : List UInt8) (start : Nat) :
    (old.take start ++ List.replicate (start - old.length) (0 : UInt8)).length = start := by
  simp only [List.length_append, List.length_take, List.length_replicate]
  omega

/-- Inside the page stand the bytes of the page. -/
theorem getElem?_splice_inside (old : List UInt8) (start : Nat) (new : List UInt8) (i : Nat)
    (h : i < new.length) : (splice old start new)[start + i]? = new[i]? := by
  have hb := length_before old start
  rw [splice, List.append_assoc, List.getElem?_append_right (by omega), hb,
    Nat.add_sub_cancel_left, List.getElem?_append_left h]

/-- Outside of the page stand the old bytes, and zeros where there were none before it. -/
theorem getElem?_splice_outside (old : List UInt8) (start : Nat) (new : List UInt8) (i : Nat)
    (h : i < start ∨ start + new.length ≤ i) :
    (splice old start new)[i]?
      = if i < start then some (old[i]?.getD 0) else old[i]? := by
  have hb := length_before old start
  rw [splice, List.append_assoc]
  split
  · next hi =>
    rw [List.getElem?_append_left (by omega)]
    by_cases ho : i < old.length
    · rw [List.getElem?_append_left (by simp; omega), List.getElem?_take_of_lt hi]
      simp [ho]
    · rw [List.getElem?_append_right (by simp; omega), List.getElem?_replicate]
      simp [ho]
      omega
  · next hi =>
    rw [List.getElem?_append_right (by omega), hb, List.getElem?_append_right (by omega),
      List.getElem?_drop]
    congr 1
    omega

end SystemPage
