/-
  SystemPage.Proofs.Numerals — the texts that are numbers, and which number each of them is.

  The other side is told without the reader: a figure stands in a table at the place of its value,
  figures of a radix are worth what `Nat.ofDigits` says, and a text spells a number in one of four
  forms.  The forms overlap in their first characters, so the radix that the reader chooses there
  has to be the one of the only form that the text can have.

  Main results:

      isFigure_iff     — the digits of the reader are the figures of the tables
      spells_iff       — a text spells what the digits behind its radix spell
      Spells.unique    — a text spells at most one number
      parseWord_cases  — a text that spells no number is malformed, one that spells a number beyond
                         a word is too large, and any other is read as what it spells
      denotes_iff      — the numerals that lines are put together from are all that there are
      number_exact     — a word of a script is a number exactly if it spells that number, and a
                         number is read back in each radix
-/
import SystemPage.Proofs.Spelling
import Mathlib.Data.Nat.Digits.Defs
import Mathlib.Data.List.Forall2
import Mathlib.Tactic.IntervalCases

namespace SystemPage

/-! ## §1. Figures.

Sixteen figures, of which a radix uses the first ones, and the letters among them in two cases. -/

def smallFigures : List Char := "0123456789abcdef".toList

def greatFigures : List Char := "0123456789ABCDEF".toList

/-- A character that stands for a number below sixteen. -/
def IsFigure (c : Char) (d : Nat) : Prop := smallFigures[d]? = some c ∨ greatFigures[d]? = some c

theorem IsFigure.lt {c : Char} {d : Nat} (h : IsFigure c d) : d < 16 := by
  rcases h with h | h
  · exact (List.getElem?_eq_some_iff.1 h).1
  · exact (List.getElem?_eq_some_iff.1 h).1

/-- Each figure is known to the reader. -/
theorem IsFigure.digitValue?_eq {c : Char} {d : Nat} (h : IsFigure c d) :
    digitValue? c = some d := by
  have hknown : ∀ d < 16, smallFigures[d]?.bind digitValue? = some d
      ∧ greatFigures[d]?.bind digitValue? = some d := by decide
  obtain ⟨hsmall, hgreat⟩ := hknown d h.lt
  rcases h with h | h
  · rwa [h] at hsmall
  · rwa [h] at hgreat

/-- **The digits of the reader are the figures of the tables.** -/
theorem isFigure_iff {c : Char} {d : Nat} : IsFigure c d ↔ digitValue? c = some d := by
  refine ⟨IsFigure.digitValue?_eq, fun h => ?_⟩
  -- a digit lies in one of three ranges of characters, and each range is gone through
  have hchar : Char.ofNat c.toNat = c := Char.ofNat_toNat c
  unfold digitValue? at h
  simp only at h
  generalize c.toNat = n at h hchar
  subst hchar
  split at h
  · next hrange =>
    cases h
    obtain ⟨hlow, hhigh⟩ := hrange
    interval_cases n <;> exact .inl rfl
  · split at h
    · next hrange =>
      cases h
      obtain ⟨hlow, hhigh⟩ := hrange
      interval_cases n <;> exact .inl rfl
    · split at h
      · next hrange =>
        cases h
        obtain ⟨hlow, hhigh⟩ := hrange
        interval_cases n <;> exact .inr rfl
      · cases h

theorem isFigure_digitChar {d : Nat} (h : d < 16) : IsFigure (Nat.digitChar d) d := by
  have hall : ∀ d < 16, smallFigures[d]? = some (Nat.digitChar d) := by decide
  exact .inl (hall d h)

/-! ## §2. Figures of a radix. -/

/-- Figures of a radix, at least one of them, and the number that they are worth. -/
structure Written (radix : Nat) (cs : List Char) (n : Nat) : Prop where
  ne_nil : cs ≠ []
  figures : ∃ ds, List.Forall₂ IsFigure cs ds ∧ (∀ d ∈ ds, d < radix)
    ∧ Nat.ofDigits radix ds.reverse = n

/-- What the reader makes of figures is what they are worth, behind anything read before. -/
theorem foldl_figures {cs : List Char} {ds : List Nat} (h : List.Forall₂ IsFigure cs ds)
    (radix acc : Nat) :
    cs.foldl (fun acc c => acc * radix + (digitValue? c).getD 0) acc
      = acc * radix ^ ds.length + Nat.ofDigits radix ds.reverse := by
  induction h generalizing acc with
  | nil => simp
  | @cons c d cs ds hfigure _ ih =>
    rw [List.foldl_cons, ih, hfigure.digitValue?_eq, Option.getD_some, Nat.ofDigits_reverse_cons,
      List.length_cons, Nat.pow_succ']
    ring

theorem digitsValue_of_figures {cs : List Char} {ds : List Nat} (h : List.Forall₂ IsFigure cs ds)
    (radix : Nat) : digitsValue radix cs = Nat.ofDigits radix ds.reverse := by
  rw [digitsValue, foldl_figures h, Nat.zero_mul, Nat.zero_add]

theorem isDigitOf_iff {radix : Nat} {c : Char} :
    isDigitOf radix c = true ↔ ∃ d, IsFigure c d ∧ d < radix := by
  rw [isDigitOf]
  cases hvalue : digitValue? c with
  | none => simp [isFigure_iff, hvalue]
  | some d => simp [isFigure_iff, hvalue]

/-- Digits of a radix are figures below it. -/
theorem figures_of_digits {radix : Nat} {cs : List Char} (h : ∀ c ∈ cs, isDigitOf radix c = true) :
    ∃ ds, List.Forall₂ IsFigure cs ds ∧ ∀ d ∈ ds, d < radix := by
  induction cs with
  | nil => exact ⟨[], .nil, by simp⟩
  | cons c cs ih =>
    obtain ⟨d, hfigure, hlt⟩ := isDigitOf_iff.1 (h c List.mem_cons_self)
    obtain ⟨ds, hfigures, hall⟩ := ih fun c hc => h c (List.mem_cons_of_mem _ hc)
    exact ⟨d :: ds, .cons hfigure hfigures, List.forall_mem_cons.2 ⟨hlt, hall⟩⟩

theorem digits_of_figures {radix : Nat} {cs : List Char} {ds : List Nat}
    (h : List.Forall₂ IsFigure cs ds) (hlt : ∀ d ∈ ds, d < radix) :
    ∀ c ∈ cs, isDigitOf radix c = true := by
  induction h with
  | nil => simp
  | @cons c d cs ds hfigure _ ih =>
    rw [List.forall_mem_cons] at hlt ⊢
    exact ⟨isDigitOf_iff.2 ⟨d, hfigure, hlt.1⟩, ih hlt.2⟩

/-- Figures of a radix are its digits, and are worth what the reader makes of them. -/
theorem written_iff {radix : Nat} {cs : List Char} {n : Nat} :
    Written radix cs n
      ↔ cs ≠ [] ∧ (∀ c ∈ cs, isDigitOf radix c = true) ∧ digitsValue radix cs = n := by
  constructor
  · rintro ⟨hne, ds, hfigures, hlt, hvalue⟩
    exact ⟨hne, digits_of_figures hfigures hlt, by rw [digitsValue_of_figures hfigures, hvalue]⟩
  · rintro ⟨hne, hall, hvalue⟩
    obtain ⟨ds, hfigures, hlt⟩ := figures_of_digits hall
    exact ⟨hne, ds, hfigures, hlt, by rw [← digitsValue_of_figures hfigures, hvalue]⟩

theorem Written.isDigitOf_head {radix : Nat} {c : Char} {cs : List Char} {n : Nat}
    (h : Written radix (c :: cs) n) : isDigitOf radix c = true :=
  (written_iff.1 h).2.1 c List.mem_cons_self

/-- A word is denoted by the digits of a radix that are worth it. -/
theorem digitsOf_iff {radix : Nat} {cs : List Char} {n : UInt32} :
    DigitsOf radix cs n ↔ Written radix cs n.toNat :=
  ⟨fun h => written_iff.2 ⟨h.ne_nil, h.all, h.value⟩, fun h =>
    have ⟨hne, hall, hvalue⟩ := written_iff.1 h
    ⟨hne, hall, hvalue⟩⟩

/-! ## §3. The four forms. -/

/-- A text that spells a number. -/
inductive Spells : List Char → Nat → Prop
  | hexadecimal {mark : Char} {cs : List Char} {n : Nat} (hmark : mark = 'x' ∨ mark = 'X')
    (h : Written 16 cs n) : Spells ('0' :: mark :: cs) n
  | octal {cs : List Char} {n : Nat} (h : Written 8 cs n) : Spells ('0' :: cs) n
  | zero : Spells ['0'] 0
  | decimal {c : Char} {cs : List Char} {n : Nat} (hlead : c ≠ '0') (h : Written 10 (c :: cs) n) :
    Spells (c :: cs) n

/-- The mark of hexadecimal figures is no octal figure. -/
theorem not_written_mark {mark : Char} {cs : List Char} {n : Nat} (h : mark = 'x' ∨ mark = 'X') :
    ¬ Written 8 (mark :: cs) n := by
  intro hw
  have hdigit := hw.isDigitOf_head
  rcases h with rfl | rfl
  · exact absurd hdigit (by decide)
  · exact absurd hdigit (by decide)

theorem written_zero : Written 10 ['0'] 0 :=
  written_iff.2 ⟨by decide, List.forall_mem_singleton.2 rfl, rfl⟩

theorem spells_hexadecimal_iff {mark : Char} {cs : List Char} {n : Nat}
    (hmark : mark = 'x' ∨ mark = 'X') : Spells ('0' :: mark :: cs) n ↔ Written 16 cs n := by
  refine ⟨fun h => ?_, .hexadecimal hmark⟩
  cases h with
  | hexadecimal _ h => exact h
  | octal h => exact absurd h (not_written_mark hmark)
  | decimal hlead => exact absurd rfl hlead

/-- **A text spells what the digits behind its radix spell.** -/
theorem spells_iff {cs : List Char} {n : Nat} :
    Spells cs n ↔ Written (splitRadix cs).1 (splitRadix cs).2 n := by
  unfold splitRadix
  split
  · exact spells_hexadecimal_iff (.inl rfl)
  · exact spells_hexadecimal_iff (.inr rfl)
  · next d cs hx hX =>
    refine ⟨fun h => ?_, .octal⟩
    cases h with
    | hexadecimal hmark =>
      rcases hmark with rfl | rfl
      · exact absurd rfl hx
      · exact absurd rfl hX
    | octal h => exact h
    | decimal hlead => exact absurd rfl hlead
  · next hlong =>
    cases cs with
    | nil => exact ⟨nofun, fun h => absurd rfl h.ne_nil⟩
    | cons c cs =>
      by_cases hc : c = '0'
      · subst hc
        cases cs with
        | cons d cs => exact absurd rfl (hlong d cs)
        | nil =>
          constructor
          · intro h
            cases h with
            | octal h => exact absurd rfl h.ne_nil
            | zero => exact written_zero
            | decimal hlead => exact absurd rfl hlead
          · intro h
            obtain ⟨-, -, hvalue⟩ := written_iff.1 h
            cases hvalue
            exact .zero
      · refine ⟨fun h => ?_, .decimal hc⟩
        cases h with
        | hexadecimal => exact absurd rfl hc
        | octal => exact absurd rfl hc
        | zero => exact absurd rfl hc
        | decimal _ h => exact h

/-- **A text spells at most one number.** -/
theorem Spells.unique {cs : List Char} {m n : Nat} (hm : Spells cs m) (hn : Spells cs n) :
    m = n := by
  obtain ⟨-, -, hm⟩ := written_iff.1 (spells_iff.1 hm)
  obtain ⟨-, -, hn⟩ := written_iff.1 (spells_iff.1 hn)
  rw [← hm, hn]

/-! ## §4. Reading. -/

theorem splitRadix_radix_pos (cs : List Char) : 0 < (splitRadix cs).1 := by
  unfold splitRadix
  split <;> exact Nat.succ_pos _

/-- Digits that spell a number are read as that number, if a word holds it. -/
theorem Spells.parseWord_eq {text : String} {n : Nat} (h : Spells text.toList n) :
    parseWord text
      = if n < UInt32.size then .ok (UInt32.ofNat n) else .error (.tooLarge text) := by
  obtain ⟨hne, hall, hvalue⟩ := written_iff.1 (spells_iff.1 h)
  have hempty : (splitRadix text.toList).2.isEmpty = false := by
    rwa [List.isEmpty_eq_false_iff]
  have hbelow : digitsBelow? UInt32.size (splitRadix text.toList).1 (splitRadix text.toList).2
      = if n < UInt32.size then some n else none := by
    rw [digitsBelow?_eq (by decide) (splitRadix_radix_pos text.toList), hvalue]
  simp only [parseWord, hempty, List.all_eq_true.2 hall, hbelow, Bool.not_true, Bool.or_self,
    Bool.false_eq_true, if_false]
  by_cases hn : n < UInt32.size
  · simp only [if_pos hn]
  · simp only [if_neg hn]

/-- A text that spells no number is refused. -/
theorem parseWord_malformed {text : String} (h : ∀ n, ¬ Spells text.toList n) :
    parseWord text = .error (.malformed text) := by
  have hbad : ((splitRadix text.toList).2.isEmpty
      || !(splitRadix text.toList).2.all (isDigitOf (splitRadix text.toList).1)) = true := by
    by_contra hgood
    simp only [Bool.or_eq_true, List.isEmpty_iff, Bool.not_eq_true', not_or,
      Bool.not_eq_false, List.all_eq_true] at hgood
    exact h _ (spells_iff.2 (written_iff.2 ⟨hgood.1, hgood.2, rfl⟩))
  simp only [parseWord, hbad, if_true]

/-- **A text that spells no number is malformed, one that spells a number beyond a word is too
large, and any other is read as what it spells.** -/
theorem parseWord_cases (text : String) :
    (∃ n : UInt32, Spells text.toList n.toNat ∧ parseWord text = .ok n)
      ∨ (∃ n, Spells text.toList n ∧ UInt32.size ≤ n ∧ parseWord text = .error (.tooLarge text))
      ∨ ((∀ n, ¬ Spells text.toList n) ∧ parseWord text = .error (.malformed text)) := by
  by_cases hspells : ∃ n, Spells text.toList n
  · obtain ⟨n, hn⟩ := hspells
    by_cases hsize : n < UInt32.size
    · refine .inl ⟨UInt32.ofNat n, ?_, by rw [hn.parseWord_eq, if_pos hsize]⟩
      rwa [UInt32.toNat_ofNat_of_lt' hsize]
    · exact .inr (.inl ⟨n, hn, Nat.le_of_not_lt hsize, by rw [hn.parseWord_eq, if_neg hsize]⟩)
  · rw [not_exists] at hspells
    exact .inr (.inr ⟨hspells, parseWord_malformed hspells⟩)

-- zeros may lead, and the first number past a word is refused in each radix
example : (parseWord "0x0000000000ffffffff", parseWord "037777777777", parseWord "4294967295")
    = (.ok 0xffffffff, .ok 0xffffffff, .ok 0xffffffff) := by decide

example : parseWord "0x100000000" = .error (.tooLarge "0x100000000")
    ∧ parseWord "040000000000" = .error (.tooLarge "040000000000")
    ∧ parseWord "4294967296" = .error (.tooLarge "4294967296") := by decide

theorem parseWord_eq_ok_iff {text : String} {n : UInt32} :
    parseWord text = .ok n ↔ Spells text.toList n.toNat := by
  constructor
  · intro h
    rcases parseWord_cases text with ⟨m, hm, hread⟩ | ⟨m, -, -, hread⟩ | ⟨-, hread⟩
    · cases h.symm.trans hread
      exact hm
    · cases h.symm.trans hread
    · cases h.symm.trans hread
  · intro h
    rw [h.parseWord_eq, if_pos n.toNat_lt_size, UInt32.ofNat_toNat]

/-- A text that no word is spelled by is refused. -/
theorem parseWord_eq_error_iff {text : String} :
    (∃ fault, parseWord text = .error fault) ↔ ∀ n : UInt32, ¬ Spells text.toList n.toNat := by
  simp only [← parseWord_eq_ok_iff]
  cases parseWord text with
  | ok n => simp
  | error fault => simp

/-- **The numerals that lines are put together from are all that there are.** -/
theorem denotes_iff {cs : List Char} {n : UInt32} : Denotes cs n ↔ Spells cs n.toNat := by
  constructor
  · intro h
    have htext : (String.ofList cs).toList = cs := String.toList_ofList
    have hread : parseWord (String.ofList cs) = .ok n := parseWord_of_denotes (by rwa [htext])
    rwa [parseWord_eq_ok_iff, htext] at hread
  · intro h
    generalize hn : n.toNat = value at h
    cases h with
    | hexadecimal hmark h => exact .hexadecimal hmark (digitsOf_iff.2 (hn ▸ h))
    | octal h => exact .octal (digitsOf_iff.2 (hn ▸ h))
    | zero => exact .decimal (digitsOf_iff.2 (hn ▸ written_zero)) fun _ => rfl
    | decimal hlead h =>
      refine .decimal (digitsOf_iff.2 (hn ▸ h)) fun hhead => ?_
      exact absurd (Option.some.inj hhead) hlead

section

variable {ε δ α : Type} {read : Except ε α} {f : ε → δ}

/-- A reason that is told in other words does not change what is read. -/
theorem mapError_eq_ok_iff {a : α} : read.mapError f = .ok a ↔ read = .ok a := by
  cases read with
  | ok b => simp [Except.mapError]
  | error cause => simp [Except.mapError]

theorem mapError_eq_error_iff {fault : δ} :
    read.mapError f = .error fault ↔ ∃ cause, read = .error cause ∧ f cause = fault := by
  cases read with
  | ok b => simp [Except.mapError]
  | error cause => simp [Except.mapError]

end

/-! ## §5. Numbers written out. -/

/-- One more figure at the end. -/
theorem Written.snoc {radix : Nat} {cs : List Char} {m d : Nat} (h : Written radix cs m)
    (hd : d < radix) (hradix : radix ≤ 16) :
    Written radix (cs ++ [Nat.digitChar d]) (m * radix + d) := by
  obtain ⟨-, ds, hfigures, hlt, rfl⟩ := h
  refine ⟨by simp, ds ++ [d], ?_, ?_, ?_⟩
  · exact List.rel_append hfigures (.cons (isFigure_digitChar (by omega)) .nil)
  · intro e he
    rcases List.mem_append.1 he with he | he
    · exact hlt e he
    · rw [List.mem_singleton.1 he]
      exact hd
  · rw [List.reverse_append, List.reverse_singleton, List.singleton_append, Nat.ofDigits_cons]
    ring

/-- The figures of a number are worth it. -/
theorem written_toDigits {radix : Nat} (hlow : 1 < radix) (hradix : radix ≤ 16) (n : Nat) :
    Written radix (Nat.toDigits radix n) n := by
  induction n using Nat.strongRecOn with
  | _ n ih =>
    by_cases hn : n < radix
    · rw [Nat.toDigits_of_lt_base hn]
      exact ⟨by simp, [n], .cons (isFigure_digitChar (by omega)) .nil, by simpa using hn, by simp⟩
    · have hle : radix ≤ n := Nat.le_of_not_lt hn
      have hbefore := ih (n / radix) (Nat.div_lt_self (by omega) hlow)
      have hafter := hbefore.snoc (Nat.mod_lt n (by omega)) hradix
      rw [Nat.toDigits_of_base_le hlow hle]
      rwa [Nat.mul_comm, Nat.div_add_mod] at hafter

/-- Only zero starts with a zero. -/
theorem head?_toDigits {radix : Nat} (hlow : 1 < radix) {n : Nat} (hn : n ≠ 0) :
    (Nat.toDigits radix n).head? ≠ some '0' := by
  induction n using Nat.strongRecOn with
  | _ n ih =>
    by_cases hlt : n < radix
    · rw [Nat.toDigits_of_lt_base hlt, List.head?_cons, ne_eq, Option.some_inj,
        Nat.digitChar_eq_zero]
      exact hn
    · have hle : radix ≤ n := Nat.le_of_not_lt hlt
      have hquot : n / radix ≠ 0 := (Nat.div_pos hle (by omega)).ne'
      rw [Nat.toDigits_of_base_le hlow hle, List.head?_append_of_ne_nil _ Nat.toDigits_ne_nil]
      exact ih (n / radix) (Nat.div_lt_self (by omega) hlow) hquot

theorem spells_decimal (n : Nat) : Spells (toString n).toList n := by
  rw [Nat.toString_eq_ofList_toDigits, String.toList_ofList]
  have hwritten : Written 10 (Nat.toDigits 10 n) n := written_toDigits (by decide) (by decide) n
  by_cases hn : n = 0
  · subst hn
    exact .zero
  · have hhead : (Nat.toDigits 10 n).head? ≠ some '0' := head?_toDigits (by decide) hn
    cases hcs : Nat.toDigits 10 n with
    | nil => exact absurd hcs Nat.toDigits_ne_nil
    | cons c cs =>
      rw [hcs] at hwritten hhead
      exact .decimal (by simpa using hhead) hwritten

/-- Zeros in front are worth nothing. -/
theorem Written.zeros {radix : Nat} {cs : List Char} {n : Nat} (h : Written radix cs n)
    (hradix : 0 < radix) (k : Nat) : Written radix (List.replicate k '0' ++ cs) n := by
  induction k with
  | zero => exact h
  | succ k ih =>
    obtain ⟨-, ds, hfigures, hlt, rfl⟩ := ih
    rw [List.replicate_succ, List.cons_append]
    refine ⟨by simp, 0 :: ds, .cons (.inl rfl) hfigures, ?_, ?_⟩
    · exact List.forall_mem_cons.2 ⟨hradix, hlt⟩
    · rw [Nat.ofDigits_reverse_cons, Nat.mul_zero, Nat.add_zero]

/-- A number in some radix, behind a mark and filled up with zeros. -/
def padded (mark : String) (radix zeros n : Nat) : String :=
  mark ++ String.ofList (List.replicate zeros '0' ++ Nat.toDigits radix n)

theorem toList_padded (mark : String) (radix zeros n : Nat) :
    (padded mark radix zeros n).toList
      = mark.toList ++ (List.replicate zeros '0' ++ Nat.toDigits radix n) := by
  rw [padded, String.toList_append]
  exact congrArg _ String.toList_ofList

theorem spells_hexadecimal (zeros n : Nat) : Spells (padded "0x" 16 zeros n).toList n := by
  have hdigits : Written 16 (Nat.toDigits 16 n) n := written_toDigits (by decide) (by decide) n
  rw [toList_padded]
  exact .hexadecimal (.inl rfl) (hdigits.zeros (by decide) zeros)

theorem spells_octal (zeros n : Nat) : Spells (padded "0" 8 zeros n).toList n := by
  have hdigits : Written 8 (Nat.toDigits 8 n) n := written_toDigits (by decide) (by decide) n
  rw [toList_padded]
  exact .octal (hdigits.zeros (by decide) zeros)

/-! ## §6. Words of a script. -/

namespace Script

theorem number_eq_ok_iff {text : String} {n : UInt32} :
    number text = .ok n ↔ Spells text.toList n.toNat := by
  rw [number, mapError_eq_ok_iff, parseWord_eq_ok_iff]

/-- What is no number is an invalid argument. -/
theorem number_invalid_iff {text : String} :
    (∃ fault, number text = .error fault ∧ fault.kind = .invalidArgument)
      ↔ ∀ n : UInt32, ¬ Spells text.toList n.toNat := by
  rw [← parseWord_eq_error_iff]
  constructor
  · intro h
    obtain ⟨fault, hfault, -⟩ := h
    obtain ⟨cause, hcause, -⟩ := mapError_eq_error_iff.1 hfault
    exact ⟨cause, hcause⟩
  · intro h
    obtain ⟨cause, hcause⟩ := h
    exact ⟨.numeral cause, mapError_eq_error_iff.2 ⟨cause, hcause, rfl⟩, rfl⟩

/-- **A word of a script is a number exactly if it spells that number; any other is an invalid
argument.  A number is read back whichever radix it is written in, behind a mark also with zeros
before it.** -/
theorem number_exact (text : String) :
    (∀ n : UInt32, number text = .ok n ↔ Spells text.toList n.toNat)
      ∧ ((∃ fault, number text = .error fault ∧ fault.kind = .invalidArgument)
          ↔ ∀ n : UInt32, ¬ Spells text.toList n.toNat)
      ∧ ∀ (n : UInt32) (zeros : Nat), number (toString n) = .ok n
          ∧ number (padded "0x" 16 zeros n.toNat) = .ok n
          ∧ number (padded "0" 8 zeros n.toNat) = .ok n := by
  refine ⟨fun n => number_eq_ok_iff, number_invalid_iff, fun n zeros => ⟨?_, ?_, ?_⟩⟩
  · exact number_eq_ok_iff.2 (spells_decimal n.toNat)
  · exact number_eq_ok_iff.2 (spells_hexadecimal zeros n.toNat)
  · exact number_eq_ok_iff.2 (spells_octal zeros n.toNat)

end Script
end SystemPage
