/-
  SystemPage.Proofs.Letters — what a word of letters grants.

  There are six letters, and the bit that a letter stands for is the one at its place among them.  A
  word of letters is read as the set of the letters in it, which two facts say in full:

      a word is read if all its letters are among the six, and
      a bit of what is read is set if its letter is in the word.

  Everything else about words of letters follows, since a number is known by its bits: what two
  words grant that are put together, and that neither order nor repetition matters.

  Main results:

      ofLetters_eq_error_iff — a word that is not read has a first letter that is none of the six
      testBit_mask           — the bits of a mask are the bits of the ways of access in it
      access_eq_ok_iff       — what a word of letters is read as
      access_exact           — the laws of words of letters
-/
import SystemPage.Proofs.Spelling

namespace SystemPage

/-! ## §1. The six letters. -/

namespace Access

/-- The letters of the ways of access, in the order of their bits. -/
def letters : List Char := "rwxscb".toList

theorem mem_letters_iff {c : Char} : c ∈ letters ↔ ∃ a : Access, a.letter = c := by
  have hletters : letters = all.map letter := by decide
  rw [hletters, List.mem_map]
  constructor
  · intro h
    obtain ⟨a, -, ha⟩ := h
    exact ⟨a, ha⟩
  · intro h
    obtain ⟨a, ha⟩ := h
    have hall : a ∈ all := by cases a <;> decide
    exact ⟨a, hall, ha⟩

theorem letter_mem_letters (a : Access) : a.letter ∈ letters := mem_letters_iff.2 ⟨a, rfl⟩

theorem ofLetter?_eq_none_iff {c : Char} : ofLetter? c = none ↔ c ∉ letters := by
  rw [mem_letters_iff]
  constructor
  · intro h hletter
    obtain ⟨a, rfl⟩ := hletter
    rw [ofLetter?_letter] at h
    cases h
  · intro h
    cases hway : ofLetter? c with
    | none => rfl
    | some a => exact absurd ⟨a, letter_of_ofLetter? hway⟩ h

/-! ## §2. Words of letters. -/

/-- A word of letters is read as the ways of access that it is spelled with. -/
theorem ofLetters_eq_ok_iff {cs : List Char} {ways : List Access} :
    ofLetters cs = .ok ways ↔ cs = ways.map letter := by
  constructor
  · intro h
    induction cs generalizing ways with
    | nil =>
      cases h
      rfl
    | cons c cs ih =>
      rw [ofLetters] at h
      cases hway : ofLetter? c with
      | none =>
        rw [hway] at h
        cases h
      | some a =>
        rw [hway] at h
        cases hrest : ofLetters cs with
        | error other =>
          rw [hrest] at h
          cases h
        | ok rest =>
          rw [hrest] at h
          cases h
          rw [List.map_cons, letter_of_ofLetter? hway, ← ih hrest]
  · intro h
    rw [h]
    exact ofLetters_map_letter ways

/-- Letters that are all among the six spell some ways of access. -/
theorem exists_ways_iff {cs : List Char} :
    (∃ ways : List Access, cs = ways.map letter) ↔ ∀ c ∈ cs, c ∈ letters := by
  constructor
  · intro h c hc
    obtain ⟨ways, rfl⟩ := h
    obtain ⟨a, -, rfl⟩ := List.mem_map.1 hc
    exact letter_mem_letters a
  · intro h
    induction cs with
    | nil => exact ⟨[], rfl⟩
    | cons c cs ih =>
      rw [List.forall_mem_cons] at h
      obtain ⟨a, rfl⟩ := mem_letters_iff.1 h.1
      obtain ⟨ways, rfl⟩ := ih h.2
      exact ⟨a :: ways, rfl⟩

/-- A letter is the first in a word that is none of the six. -/
def FirstForeign (c : Char) (cs : List Char) : Prop :=
  ∃ before behind, cs = before ++ c :: behind ∧ (∀ d ∈ before, d ∈ letters) ∧ c ∉ letters

/-- **A word that is not read has a first letter that is none of the six**, and it is that one that
is told. -/
theorem ofLetters_eq_error_iff {cs : List Char} {c : Char} :
    ofLetters cs = .error c ↔ FirstForeign c cs := by
  constructor
  · intro h
    induction cs with
    | nil => cases h
    | cons d cs ih =>
      rw [ofLetters] at h
      cases hway : ofLetter? d with
      | none =>
        rw [hway] at h
        cases h
        exact ⟨[], cs, rfl, by simp, ofLetter?_eq_none_iff.1 hway⟩
      | some a =>
        rw [hway] at h
        cases hrest : ofLetters cs with
        | ok ways =>
          rw [hrest] at h
          cases h
        | error other =>
          rw [hrest] at h
          cases h
          obtain ⟨before, behind, rfl, hbefore, hc⟩ := ih hrest
          have hd : d ∈ letters := mem_letters_iff.2 ⟨a, letter_of_ofLetter? hway⟩
          exact ⟨d :: before, behind, rfl, List.forall_mem_cons.2 ⟨hd, hbefore⟩, hc⟩
  · intro h
    obtain ⟨before, behind, rfl, hbefore, hc⟩ := h
    induction before with
    | nil =>
      rw [List.nil_append, ofLetters, ofLetter?_eq_none_iff.2 hc]
    | cons d before ih =>
      rw [List.forall_mem_cons] at hbefore
      obtain ⟨a, rfl⟩ := mem_letters_iff.1 hbefore.1
      rw [List.cons_append, ofLetters, ofLetter?_letter]
      show (ofLetters (before ++ c :: behind)).map (a :: ·) = _
      rw [ih hbefore.2]
      rfl

/-! ## §3. Bits. -/

/-- The bit of a way of access stands where its letter does. -/
theorem testBit_bit (a : Access) (i : Nat) :
    a.bit.toNat.testBit i = true ↔ letters[i]? = some a.letter := by
  by_cases hi : i < 6
  · have hsmall : ∀ i < 6, (a.bit.toNat.testBit i = true ↔ letters[i]? = some a.letter) := by
      cases a <;> decide
    exact hsmall i hi
  · -- behind the six letters there is none, and the bits are those of a number below 64
    have hbit : a.bit.toNat < 2 ^ 6 := by cases a <;> decide
    have hle : 2 ^ 6 ≤ 2 ^ i := Nat.pow_le_pow_right (by decide) (Nat.le_of_not_lt hi)
    have hnone : letters[i]? = none := List.getElem?_eq_none (Nat.le_of_not_lt hi)
    rw [hnone, Nat.testBit_lt_two_pow (by omega)]
    simp

/-- **The bits of a mask are the bits of the ways of access in it.** -/
theorem testBit_mask (ways : List Access) (i : Nat) :
    (mask ways).toNat.testBit i = true ↔ ∃ a ∈ ways, letters[i]? = some a.letter := by
  have key : ∀ word : UInt32,
      (ways.foldl (fun word a => word ||| a.bit) word).toNat.testBit i = true
        ↔ word.toNat.testBit i = true ∨ ∃ a ∈ ways, letters[i]? = some a.letter := by
    induction ways with
    | nil => simp
    | cons a ways ih =>
      intro word
      rw [List.foldl_cons, ih, UInt32.toNat_or, Nat.testBit_or, Bool.or_eq_true, testBit_bit,
        or_assoc]
      simp
  unfold mask
  rw [key 0]
  simp

end Access

/-- A word is known by its bits. -/
theorem eq_of_testBit {a b : UInt32}
    (h : ∀ i, a.toNat.testBit i = true ↔ b.toNat.testBit i = true) : a = b := by
  apply UInt32.toNat_inj.1
  apply Nat.eq_of_testBit_eq
  intro i
  exact Bool.eq_iff_iff.2 (h i)

/-! ## §4. What a word of letters is read as. -/

namespace Script

open Access

variable {text other : String} {word : UInt32} {fault : Fault}

/-- The bits of a word are the places of the letters in a text. -/
def MarksLetters (word : UInt32) (text : String) : Prop :=
  ∀ i, word.toNat.testBit i = true ↔ ∃ c ∈ text.toList, letters[i]? = some c

theorem MarksLetters.unique {first second : UInt32} (h : MarksLetters first text)
    (h' : MarksLetters second text) : first = second :=
  eq_of_testBit fun i => (h i).trans (h' i).symm

/-- **A text is read as the word that marks its letters, if it has no others.** -/
theorem access_eq_ok_iff :
    access text = .ok word ↔ (∀ c ∈ text.toList, c ∈ letters) ∧ MarksLetters word text := by
  have hmarks : ∀ ways : List Access, text.toList = ways.map letter →
      MarksLetters (mask ways) text := by
    intro ways hways i
    rw [testBit_mask, hways]
    simp
  constructor
  · intro h
    unfold access at h
    cases hletters : ofLetters text.toList with
    | error letter =>
      rw [hletters] at h
      cases h
    | ok ways =>
      rw [hletters] at h
      cases h
      have hways := ofLetters_eq_ok_iff.1 hletters
      exact ⟨exists_ways_iff.1 ⟨ways, hways⟩, hmarks ways hways⟩
  · intro h
    obtain ⟨ways, hways⟩ := exists_ways_iff.2 h.1
    rw [access_of_letters hways, (hmarks ways hways).unique h.2]

theorem exists_access_iff :
    (∃ word, access text = .ok word) ↔ ∀ c ∈ text.toList, c ∈ letters := by
  constructor
  · intro h
    obtain ⟨word, hword⟩ := h
    exact (access_eq_ok_iff.1 hword).1
  · intro h
    obtain ⟨ways, hways⟩ := exists_ways_iff.2 h
    exact ⟨_, access_of_letters hways⟩

/-- A text with another letter is refused, and the first such letter is told. -/
theorem access_eq_error_iff :
    access text = .error fault
      ↔ ∃ c, FirstForeign c text.toList ∧ fault = .unknownLetter c text := by
  unfold access
  cases hletters : ofLetters text.toList with
  | ok ways =>
    constructor
    · intro h
      cases h
    · intro h
      obtain ⟨c, hc, -⟩ := h
      rw [← ofLetters_eq_error_iff, hletters] at hc
      cases hc
  | error letter =>
    constructor
    · intro h
      cases h
      exact ⟨letter, ofLetters_eq_error_iff.1 hletters, rfl⟩
    · intro h
      obtain ⟨c, hc, rfl⟩ := h
      rw [← ofLetters_eq_error_iff, hletters] at hc
      cases hc
      rfl

/-! ## §5. Laws. -/

/-- Two texts together grant what either of them grants. -/
theorem access_append {a b : UInt32} (ha : access text = .ok a) (hb : access other = .ok b) :
    access (text ++ other) = .ok (a ||| b) := by
  obtain ⟨hknown, hmarks⟩ := access_eq_ok_iff.1 ha
  obtain ⟨hknown', hmarks'⟩ := access_eq_ok_iff.1 hb
  refine access_eq_ok_iff.2 ⟨?_, ?_⟩
  · intro c hc
    rw [String.toList_append, List.mem_append] at hc
    exact hc.elim (hknown c) (hknown' c)
  · intro i
    rw [UInt32.toNat_or, Nat.testBit_or, Bool.or_eq_true, hmarks i, hmarks' i, String.toList_append]
    simp only [List.mem_append, or_and_right, exists_or]

/-- What is wrong with one of two texts is wrong with both of them together. -/
theorem access_append_error
    (h : (∃ fault, access text = .error fault) ∨ ∃ fault, access other = .error fault) :
    ∃ fault, access (text ++ other) = .error fault := by
  cases htogether : access (text ++ other) with
  | error fault => exact ⟨fault, rfl⟩
  | ok word =>
    have hknown := exists_access_iff.1 ⟨word, htogether⟩
    rw [String.toList_append, List.forall_mem_append] at hknown
    obtain ⟨a, ha⟩ := exists_access_iff.2 hknown.1
    obtain ⟨b, hb⟩ := exists_access_iff.2 hknown.2
    rw [ha, hb] at h
    simp at h

/-- Texts with the same letters grant the same. -/
theorem access_congr (h : ∀ c, c ∈ text.toList ↔ c ∈ other.toList) :
    access text = .ok word ↔ access other = .ok word := by
  simp only [access_eq_ok_iff, MarksLetters, h]

/-- **A text of letters stands for the set of its letters.**  It is read if they are all among the
six, and each bit says whether its letter is there.  So two texts together grant what either of them
grants, and neither order nor repetition matters.  Any other text is refused, with its first letter
that is none of the six. -/
theorem access_exact (text other : String) :
    ((∃ word, access text = .ok word) ↔ ∀ c ∈ text.toList, c ∈ letters)
      ∧ (∀ word, access text = .ok word →
        ∀ i, word.toNat.testBit i = true ↔ ∃ c ∈ text.toList, letters[i]? = some c)
      ∧ (∀ a b, access text = .ok a → access other = .ok b →
        access (text ++ other) = .ok (a ||| b))
      ∧ ((∃ fault, access text = .error fault) ∨ (∃ fault, access other = .error fault) →
        ∃ fault, access (text ++ other) = .error fault)
      ∧ ((∀ c, c ∈ text.toList ↔ c ∈ other.toList) →
        ∀ word, access text = .ok word ↔ access other = .ok word)
      ∧ ∀ fault, access text = .error fault → fault.kind = .invalidAttribute
        ∧ ∃ c, FirstForeign c text.toList
          ∧ fault.reason = s!"wrong attribute [ {c} ] in [ {text} ]" := by
  refine ⟨exists_access_iff, fun word h => (access_eq_ok_iff.1 h).2, fun a b => access_append,
    access_append_error, fun h word => access_congr h, ?_⟩
  intro fault h
  obtain ⟨c, hc, rfl⟩ := access_eq_error_iff.1 h
  exact ⟨rfl, c, hc, rfl⟩

/-- Letters in another order and twice, and a great letter that is none of them. -/
theorem access_exact_great_letter :
    access "wxr" = .ok 7 ∧ access "bb" = .ok 0x20 ∧ access ("wxr" ++ "bb") = .ok (7 ||| 0x20)
      ∧ access "rwxxwr" = .ok 7 ∧ (∃ fault, access ("wxr" ++ "bR!") = .error fault)
      ∧ ∃ fault, access "bR!" = .error fault ∧ fault.kind = .invalidAttribute
        ∧ ∃ c, FirstForeign c "bR!".toList := by
  have hfirst : access "wxr" = .ok 7 := by decide
  have hsecond : access "bb" = .ok 0x20 := by decide
  have hletters : ∀ c, c ∈ "wxr".toList ↔ c ∈ "rwxxwr".toList := by
    intro c
    simp
    tauto
  have hforeign : access "bR!" = .error (.unknownLetter 'R' "bR!") := by decide
  obtain ⟨-, -, happend, -⟩ := access_exact "wxr" "bb"
  obtain ⟨-, -, -, -, hsame, -⟩ := access_exact "wxr" "rwxxwr"
  obtain ⟨-, -, -, hrefused, -⟩ := access_exact "wxr" "bR!"
  obtain ⟨-, -, -, -, -, htold⟩ := access_exact "bR!" ""
  obtain ⟨hkind, c, hc, -⟩ := htold _ hforeign
  exact ⟨hfirst, hsecond, happend 7 0x20 hfirst hsecond, (hsame hletters 7).1 hfirst,
    hrefused (.inr ⟨_, hforeign⟩), _, hforeign, hkind, c, hc⟩

end Script
end SystemPage
