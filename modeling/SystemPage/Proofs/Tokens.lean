/-
  SystemPage.Proofs.Tokens — the words of every line, and the fault of every other.

  `Spelling` shows that lines that were put together from words are read as these words.  Here a
  line is any text.  What it holds is said without the reader: the part of it that is looked at, the
  runs of graphic characters in that part, and the positions at which something is wrong.

  A character that may not stand in a line is wrong where it stands.  A word is counted where it is
  closed, by the blank behind it or by the end of the part; so a limit is passed there, and not
  where the word begins.  No position is both, and of several the leftmost one decides what is told.

  The reader goes along the line once, with the words that it has counted and the one that it is in.
  The invariant is that the words counted are the runs of what lies before the word it is in, and
  that what lies before ends where no word goes on.

  Main results:

      runs_append_cons — a character that is not graphic parts the runs
      wordsFrom_eq_ok_iff
                       — the reader finishes with the runs of a line within the limits
      wordsFrom_error  — it fails at the leftmost position at which something is wrong
      words_exact      — both of it for whole lines
-/
import SystemPage.Proofs.Spelling

namespace SystemPage
namespace Script

open Text Edit

/-! ## §1. What is looked at. -/

/-- The part of a line before the white space that ends it. -/
def visible (line : List Char) : List Char := line.takeWhile fun c => !endsLine c

/-- The longest runs of graphic characters, in order. -/
def runs (part : List Char) : List (List Char) :=
  (part.splitOnP fun c => !isGraphic c).filter fun run => run ≠ []

/-- What words take, each with a byte to end it. -/
def cost (words : List (List Char)) : Nat := (words.map fun word => word.length + 1).sum

theorem cost_cons (word : List Char) (words : List (List Char)) :
    cost (word :: words) = word.length + 1 + cost words := by
  rw [cost, List.map_cons, List.sum_cons]
  rfl

theorem cost_append (first second : List (List Char)) :
    cost (first ++ second) = cost first + cost second := by
  rw [cost, List.map_append, List.sum_append]
  rfl

/-- **A character that is not graphic parts the runs.** -/
theorem runs_append_cons {c : Char} (hc : isGraphic c = false) (before behind : List Char) :
    runs (before ++ c :: behind) = runs before ++ runs behind := by
  rw [runs, List.splitOnP_append_cons before behind (by simp [hc]), List.filter_append]
  rfl

theorem runs_nil : runs [] = [] := by
  simp [runs]

/-- Graphic characters alone are one run. -/
theorem runs_of_graphic {word : List Char} (hword : ∀ c ∈ word, isGraphic c = true)
    (hne : word ≠ []) : runs word = [word] := by
  rw [runs, List.splitOnP_eq_singleton fun c hc => by simp [hword c hc]]
  simp [hne]

/-- The same for a word whose characters are given last one first. -/
theorem runs_reverse {word : List Char} (hword : ∀ c ∈ word, isGraphic c = true)
    (hne : word ≠ []) : runs word.reverse = [word.reverse] :=
  runs_of_graphic (by simpa using hword) (by simpa using hne)

/-- No graphic character stands at the end of a part. -/
def Parted (before : List Char) : Prop := ∀ c ∈ before.getLast?, isGraphic c = false

theorem parted_concat_iff {front : List Char} {c : Char} :
    Parted (front ++ [c]) ↔ isGraphic c = false := by
  simp [Parted]

/-- Behind a place where no word goes on the runs start anew. -/
theorem Parted.runs_append {before : List Char} (h : Parted before) (behind : List Char) :
    runs (before ++ behind) = runs before ++ runs behind := by
  rcases List.eq_nil_or_concat before with rfl | ⟨front, c, rfl⟩
  · rfl
  · rw [List.concat_eq_append] at h ⊢
    have hc := parted_concat_iff.1 h
    rw [List.append_assoc, List.singleton_append, runs_append_cons hc, runs_append_cons hc,
      runs_nil, List.append_nil]

/-! ## §2. The roles of characters. -/

theorem not_endsLine_of_isBlank {c : Char} (h : isBlank c = true) : endsLine c = false := by
  simp [endsLine, h]

theorem not_isGraphic_of_isBlank {c : Char} (h : isBlank c = true) : isGraphic c = false := by
  rw [Bool.eq_false_iff]
  intro hgraphic
  rw [not_isBlank_of_isGraphic hgraphic] at h
  cases h

theorem visible_cons_of_not {c : Char} (h : endsLine c = false) (rest : List Char) :
    visible (c :: rest) = c :: visible rest := by
  rw [visible, List.takeWhile_cons, h]
  rfl

theorem visible_cons_of_ends {c : Char} (h : endsLine c = true) (rest : List Char) :
    visible (c :: rest) = [] := by
  rw [visible, List.takeWhile_cons, h]
  rfl

/-- **What stands behind the part that is looked at does not matter.** -/
theorem wordsFrom_visible (t : Tally) (word line : List Char) :
    wordsFrom t word (visible line) = wordsFrom t word line := by
  induction line generalizing t word with
  | nil => rfl
  | cons c rest ih =>
    by_cases hends : endsLine c = true
    · have hblank : isBlank c = false := by
        rw [endsLine, Bool.and_eq_true, Bool.not_eq_true'] at hends
        exact hends.2
      rw [visible_cons_of_ends hends, wordsFrom, wordsFrom, if_neg (by simp [hblank]),
        if_pos hends]
    · have hsame := visible_cons_of_not (Bool.not_eq_true _ ▸ hends) rest
      rw [hsame, wordsFrom, wordsFrom]
      simp only [ih]

/-! ## §3. Lines that are read. -/

/-- Every character is a blank or graphic. -/
def Legal (part : List Char) : Prop := ∀ c ∈ part, isBlank c = true ∨ isGraphic c = true

/-- What counts as a word more: one that is within the limits. -/
theorem Tally.add_eq_ok_iff {t counted : Tally} {word : List Char} :
    t.add word = .ok counted
      ↔ t.words + 1 ≤ wordLimit ∧ t.bytes + word.length + 1 ≤ byteLimit
        ∧ counted = ⟨t.words + 1, t.bytes + word.length + 1⟩ := by
  unfold add
  by_cases hwords : wordLimit ≤ t.words
  · rw [if_pos hwords]
    simp only [reduceCtorEq, false_iff]
    omega
  · rw [if_neg hwords]
    by_cases hbytes : byteLimit < t.bytes + word.length + 1
    · rw [if_pos hbytes]
      simp only [reduceCtorEq, false_iff]
      omega
    · rw [if_neg hbytes, Except.ok.injEq, eq_comm]
      constructor
      · intro h
        exact ⟨by omega, by omega, h⟩
      · exact fun h => h.2.2

theorem map_eq_ok_iff {α β : Type} {read : Except Fault α} {f : α → β} {b : β} :
    read.map f = .ok b ↔ ∃ a, read = .ok a ∧ f a = b := by
  cases read with
  | ok a => simp [Except.map]
  | error fault => simp [Except.map]

/-- What has been counted is within the limits. -/
def Tally.Within (t : Tally) : Prop := t.words ≤ wordLimit ∧ t.bytes ≤ byteLimit

/-- Words are within what is left of the limits. -/
def Fits (t : Tally) (found : List (List Char)) : Prop :=
  t.words + found.length ≤ wordLimit ∧ t.bytes + cost found ≤ byteLimit

/-- The first of several words is counted, and the others behind it. -/
theorem fits_cons_iff {t : Tally} {word : List Char} {found : List (List Char)} :
    Fits t (word :: found)
      ↔ ∃ counted, t.add word = .ok counted ∧ Fits counted found := by
  unfold Fits
  rw [cost_cons, List.length_cons]
  constructor
  · rintro ⟨hwords, hbytes⟩
    refine ⟨⟨t.words + 1, t.bytes + word.length + 1⟩, Tally.add_eq_ok_iff.2 ⟨?_, ?_, rfl⟩, ?_, ?_⟩
    · omega
    · omega
    · show t.words + 1 + found.length ≤ wordLimit
      omega
    · show t.bytes + word.length + 1 + cost found ≤ byteLimit
      omega
  · rintro ⟨counted, hadd, hwords, hbytes⟩
    obtain ⟨-, -, rfl⟩ := Tally.add_eq_ok_iff.1 hadd
    simp only at hwords hbytes
    exact ⟨by omega, by omega⟩

theorem Tally.add_reverse {t : Tally} {word : List Char} : t.add word.reverse = t.add word := by
  rw [Tally.add, Tally.add, List.length_reverse]

/-- At the end of a line the word that it ends in is the last one. -/
theorem lastWord_eq_ok_iff {t : Tally} (ht : t.Within) {word : List Char}
    (hword : ∀ c ∈ word, isGraphic c = true) {found : List (List Char)} :
    lastWord t word = .ok found ↔ found = runs word.reverse ∧ Fits t found := by
  unfold lastWord
  by_cases hne : word = []
  · subst hne
    rw [if_pos rfl, List.reverse_nil, runs_nil, Except.ok.injEq]
    constructor
    · rintro rfl
      exact ⟨rfl, ht.1, ht.2⟩
    · rintro ⟨rfl, -⟩
      rfl
  · rw [if_neg hne, found_bind_eq_ok_iff, runs_reverse hword hne]
    constructor
    · rintro ⟨counted, hadd, hfound⟩
      cases hfound
      refine ⟨rfl, fits_cons_iff.2 ⟨counted, ?_, ?_⟩⟩
      · rw [Tally.add_reverse]
        exact hadd
      · obtain ⟨hwords, hbytes, rfl⟩ := Tally.add_eq_ok_iff.1 hadd
        exact ⟨hwords, hbytes⟩
    · rintro ⟨rfl, hfits⟩
      obtain ⟨counted, hadd, -⟩ := fits_cons_iff.1 hfits
      rw [Tally.add_reverse] at hadd
      exact ⟨counted, hadd, rfl⟩

/-- Of a character that is legal it depends on the others. -/
theorem legal_cons_iff {c : Char} (hc : isBlank c = true ∨ isGraphic c = true)
    (part : List Char) : Legal (c :: part) ↔ Legal part := by
  rw [Legal, List.forall_mem_cons, and_iff_right hc]
  rfl

/-- **The reader finishes with the runs of a line within the limits**, and only there. -/
theorem wordsFrom_eq_ok_iff {t : Tally} (ht : t.Within) {word : List Char}
    (hword : ∀ c ∈ word, isGraphic c = true) {line : List Char} {found : List (List Char)} :
    wordsFrom t word line = .ok found
      ↔ Legal (visible line) ∧ found = runs (word.reverse ++ visible line) ∧ Fits t found := by
  -- on the line, while words are counted and the one it is in grows
  induction line generalizing t word found with
  | nil =>
    show lastWord t word = .ok found ↔ Legal [] ∧ found = runs (word.reverse ++ []) ∧ Fits t found
    rw [List.append_nil, lastWord_eq_ok_iff ht hword]
    simp [Legal]
  | cons c rest ih =>
    by_cases hblank : isBlank c = true
    · have hc := not_isGraphic_of_isBlank hblank
      rw [wordsFrom, if_pos hblank, visible_cons_of_not (not_endsLine_of_isBlank hblank),
        runs_append_cons hc, legal_cons_iff (.inl hblank)]
      by_cases hne : word = []
      · subst hne
        rw [if_pos rfl, ih ht (by simp), List.reverse_nil, runs_nil]
        rfl
      · rw [if_neg hne, found_bind_eq_ok_iff, runs_reverse hword hne]
        constructor
        · rintro ⟨counted, hadd, h⟩
          obtain ⟨others, hothers, hfound⟩ := found_bind_eq_ok_iff.1 h
          cases hfound
          obtain ⟨hwords, hbytes, rfl⟩ := Tally.add_eq_ok_iff.1 hadd
          obtain ⟨hlegal, rfl, hfits⟩ := (ih ⟨hwords, hbytes⟩ (by simp)).1 hothers
          refine ⟨hlegal, rfl, fits_cons_iff.2 ⟨_, ?_, hfits⟩⟩
          rw [Tally.add_reverse]
          exact hadd
        · rintro ⟨hlegal, rfl, hfits⟩
          obtain ⟨counted, hadd, hothers⟩ := fits_cons_iff.1 hfits
          rw [Tally.add_reverse] at hadd
          obtain ⟨hwords, hbytes, rfl⟩ := Tally.add_eq_ok_iff.1 hadd
          refine ⟨_, hadd, ?_⟩
          rw [(ih ⟨hwords, hbytes⟩ (by simp)).2 ⟨hlegal, rfl, hothers⟩]
          rfl
    · by_cases hends : endsLine c = true
      · rw [wordsFrom, if_neg hblank, if_pos hends, visible_cons_of_ends hends, List.append_nil,
          lastWord_eq_ok_iff ht hword]
        simp [Legal]
      · rw [visible_cons_of_not (Bool.not_eq_true _ ▸ hends), wordsFrom, if_neg hblank,
          if_neg hends]
        by_cases hgraphic : isGraphic c = true
        · have hgrown : ∀ d ∈ c :: word, isGraphic d = true := by
            simpa [hgraphic] using hword
          rw [if_pos hgraphic, ih ht hgrown, legal_cons_iff (.inr hgraphic), List.reverse_cons,
            List.append_assoc]
          rfl
        · simp [Legal, hgraphic, hblank]

/-! ## §4. Positions at which something is wrong. -/

/-- A word ends right before a position, at a blank or at the end of the part. -/
def Closes (part : List Char) (i : Nat) : Prop :=
  (∃ before c, part.take i = before ++ [c] ∧ isGraphic c = true)
    ∧ (i = part.length ∨ ∃ c, part[i]? = some c ∧ isBlank c = true)

/-- What is wrong at a position of the part that is looked at. -/
inductive Offends (part : List Char) (i : Nat) : Fault → Prop
  -- a character that may not stand in a line
  | character {c : Char} (hc : part[i]? = some c) (hblank : isBlank c = false)
    (hgraphic : isGraphic c = false) : Offends part i (.character c)
  -- a word is closed that is one too many
  | tooMany (hcloses : Closes part i) (hcount : 10 < (runs (part.take i)).length) :
    Offends part i (.tooManyWords 10)
  -- a word is closed with which the words take too many bytes
  | tooLong (hcloses : Closes part i) (hcount : (runs (part.take i)).length ≤ 10)
    (hbytes : 181 < cost (runs (part.take i))) : Offends part i (.lineTooLong 181)

/-- No word is closed where a character stands that is neither a blank nor behind the part. -/
theorem not_closes {part : List Char} {i : Nat} {c : Char} (hc : part[i]? = some c)
    (hblank : isBlank c = false) : ¬ Closes part i := by
  rintro ⟨-, rfl | ⟨d, hd, hdblank⟩⟩
  · rw [List.getElem?_eq_none (Nat.le_refl _)] at hc
    cases hc
  · rw [hc] at hd
    cases hd
    rw [hblank] at hdblank
    cases hdblank

/-- Only one thing is wrong at a position. -/
theorem Offends.unique {part : List Char} {i : Nat} {fault other : Fault}
    (h : Offends part i fault) (h' : Offends part i other) : fault = other := by
  cases h with
  | character hc hblank hgraphic =>
    cases h' with
    | character hc' => rw [hc] at hc'; cases hc'; rfl
    | tooMany hcloses => exact absurd hcloses (not_closes hc hblank)
    | tooLong hcloses => exact absurd hcloses (not_closes hc hblank)
  | tooMany hcloses hcount =>
    cases h' with
    | character hc hblank => exact absurd hcloses (not_closes hc hblank)
    | tooMany => rfl
    | tooLong _ hcount' => omega
  | tooLong hcloses hcount =>
    cases h' with
    | character hc hblank => exact absurd hcloses (not_closes hc hblank)
    | tooMany _ hcount' => omega
    | tooLong => rfl

/-- Nothing is wrong in a line that is legal and within the limits. -/
theorem Offends.not_fits {part : List Char} {i : Nat} {fault : Fault} (h : Offends part i fault)
    (hlegal : Legal part) (hcount : (runs part).length ≤ 10) (hcost : cost (runs part) ≤ 181) :
    False := by
  -- the runs up to a place where a word is closed are some of all runs
  have hsome : Closes part i → ∃ others, runs part = runs (part.take i) ++ others := by
    rintro ⟨-, rfl | ⟨c, hc, hblank⟩⟩
    · exact ⟨[], by rw [List.take_length, List.append_nil]⟩
    · obtain ⟨hi, rfl⟩ := List.getElem?_eq_some_iff.1 hc
      refine ⟨runs (part.drop (i + 1)), ?_⟩
      rw [← runs_append_cons (not_isGraphic_of_isBlank hblank), ← List.drop_eq_getElem_cons hi,
        List.take_append_drop]
  cases h with
  | character hc hblank hgraphic =>
    rcases hlegal _ (List.mem_of_getElem? hc) with h | h
    · rw [hblank] at h
      cases h
    · rw [hgraphic] at h
      cases h
  | tooMany hcloses hmany =>
    obtain ⟨others, hruns⟩ := hsome hcloses
    rw [hruns, List.length_append] at hcount
    omega
  | tooLong hcloses _ hlong =>
    obtain ⟨others, hruns⟩ := hsome hcloses
    rw [hruns, cost_append] at hcost
    omega

/-! ## §5. Lines that are not read. -/

/-- The leftmost position, from one on, at which something is wrong, is wrong in this way. -/
def Leftmost (part : List Char) (start : Nat) (fault : Fault) : Prop :=
  ∃ i, start ≤ i ∧ Offends part i fault
    ∧ ∀ j, start ≤ j → j < i → ∀ other, ¬ Offends part j other

theorem Offends.leftmost {part : List Char} {i : Nat} {fault : Fault} (h : Offends part i fault) :
    Leftmost part i fault := by
  refine ⟨i, Nat.le_refl i, h, ?_⟩
  intro j hle hlt
  omega

/-- A position at which nothing is wrong is passed over. -/
theorem Leftmost.skip {part : List Char} {start : Nat} {fault : Fault}
    (h : Leftmost part (start + 1) fault) (hstart : ∀ other, ¬ Offends part start other) :
    Leftmost part start fault := by
  obtain ⟨i, hle, hi, hbefore⟩ := h
  refine ⟨i, by omega, hi, ?_⟩
  intro j hj hlt
  rcases Nat.eq_or_lt_of_le hj with rfl | hj
  · exact hstart
  · exact hbefore j hj hlt

/-- What has been counted where the runs of a part have been counted. -/
def Tally.of (before : List Char) : Tally := ⟨(runs before).length, cost (runs before)⟩

section

variable {before word behind : List Char} {fault : Fault}

theorem take_read : (before ++ (word.reverse ++ behind)).take (before.length + word.length)
    = before ++ word.reverse := by
  rw [← List.append_assoc, List.take_left' (by simp)]

theorem getElem?_read :
    (before ++ (word.reverse ++ behind))[before.length + word.length]? = behind.head? := by
  rw [← List.append_assoc, List.getElem?_append_right (by simp)]
  simp [List.head?_eq_getElem?]

/-- A word is closed where the reader is in one, if a blank or nothing comes next. -/
theorem closes_iff (hparted : Parted before) (hword : ∀ c ∈ word, isGraphic c = true) :
    Closes (before ++ (word.reverse ++ behind)) (before.length + word.length)
      ↔ word ≠ [] ∧ ∀ c ∈ behind.head?, isBlank c = true := by
  unfold Closes
  rw [take_read, getElem?_read]
  have hend : before.length + word.length = (before ++ (word.reverse ++ behind)).length
      ↔ behind = [] := by
    rw [List.length_append, List.length_append, List.length_reverse, ← List.length_eq_zero_iff]
    omega
  rw [hend]
  constructor
  · rintro ⟨⟨front, c, hfront, hc⟩, hnext⟩
    refine ⟨?_, ?_⟩
    · rintro rfl
      rw [List.reverse_nil, List.append_nil] at hfront
      rw [hfront, parted_concat_iff, hc] at hparted
      cases hparted
    · intro d hd
      rcases hnext with rfl | ⟨e, he, hblank⟩
      · cases hd
      · rw [he] at hd
        cases hd
        exact hblank
  · rintro ⟨hne, hnext⟩
    obtain ⟨c, rest, rfl⟩ := List.exists_cons_of_ne_nil hne
    refine ⟨⟨before ++ rest.reverse, c, by simp, hword c (by simp)⟩, ?_⟩
    cases behind with
    | nil => exact .inl rfl
    | cons d others => exact .inr ⟨d, rfl, hnext d rfl⟩

theorem Tally.add_eq_error_iff {t : Tally} :
    t.add word = .error fault
      ↔ (10 < t.words + 1 ∧ fault = .tooManyWords 10)
        ∨ (t.words + 1 ≤ 10 ∧ 181 < t.bytes + (word.length + 1) ∧ fault = .lineTooLong 181) := by
  unfold add wordLimit byteLimit
  by_cases hwords : 10 ≤ t.words
  · rw [if_pos hwords, Except.error.injEq]
    constructor
    · rintro rfl
      exact .inl ⟨by omega, rfl⟩
    · rintro (⟨-, rfl⟩ | ⟨hfew, -⟩)
      · rfl
      · omega
  · rw [if_neg hwords]
    by_cases hbytes : 181 < t.bytes + word.length + 1
    · rw [if_pos hbytes, Except.error.injEq]
      constructor
      · rintro rfl
        exact .inr ⟨by omega, by omega, rfl⟩
      · rintro (⟨hmany, -⟩ | ⟨-, -, rfl⟩)
        · omega
        · rfl
    · rw [if_neg hbytes]
      constructor
      · intro h
        cases h
      · rintro (⟨hmany, -⟩ | ⟨-, hlong, -⟩)
        · omega
        · omega

/-- **Where a word is closed, what is wrong is what counting it fails with.** -/
theorem offends_closing_iff (hparted : Parted before) (hword : ∀ c ∈ word, isGraphic c = true)
    (hne : word ≠ []) (hnext : ∀ c ∈ behind.head?, isBlank c = true) :
    Offends (before ++ (word.reverse ++ behind)) (before.length + word.length) fault
      ↔ (Tally.of before).add word = .error fault := by
  have hcloses : Closes (before ++ (word.reverse ++ behind)) (before.length + word.length) :=
    (closes_iff hparted hword).2 ⟨hne, hnext⟩
  have hruns : runs ((before ++ (word.reverse ++ behind)).take (before.length + word.length))
      = runs before ++ [word.reverse] := by
    rw [take_read, hparted.runs_append, runs_reverse hword hne]
  have hcount : (runs before ++ [word.reverse]).length = (Tally.of before).words + 1 := by
    rw [List.length_append]
    rfl
  have hcost : cost (runs before ++ [word.reverse])
      = (Tally.of before).bytes + (word.length + 1) := by
    rw [cost_append, cost_cons, List.length_reverse]
    rfl
  rw [Tally.add_eq_error_iff, ← hcount, ← hcost, ← hruns]
  constructor
  · intro h
    cases h with
    | character hc hblank =>
      rw [getElem?_read] at hc
      have hc' := hnext _ hc
      rw [hblank] at hc'
      cases hc'
    | tooMany _ hmany => exact .inl ⟨hmany, rfl⟩
    | tooLong _ hfew hlong => exact .inr ⟨hfew, hlong, rfl⟩
  · rintro (⟨hmany, rfl⟩ | ⟨hfew, hlong, rfl⟩)
    · exact .tooMany hcloses hmany
    · exact .tooLong hcloses hfew hlong

/-- Nothing is wrong with a blank that closes no word. -/
theorem not_offends_blank (hparted : Parted before) {c : Char} (hblank : isBlank c = true)
    (rest : List Char) : ¬ Offends (before ++ c :: rest) before.length fault := by
  have hcloses : ¬ Closes (before ++ c :: rest) before.length := by
    rintro ⟨⟨front, d, hfront, hd⟩, -⟩
    rw [List.take_left' rfl] at hfront
    rw [hfront, parted_concat_iff, hd] at hparted
    cases hparted
  intro h
  cases h with
  | character hc hno =>
    rw [List.getElem?_append_right (Nat.le_refl _), Nat.sub_self] at hc
    cases hc
    rw [hblank] at hno
    cases hno
  | tooMany h => exact hcloses h
  | tooLong h => exact hcloses h

/-- Nor with a graphic character. -/
theorem not_offends_graphic {part : List Char} {i : Nat} {c : Char} (hc : part[i]? = some c)
    (hgraphic : isGraphic c = true) : ¬ Offends part i fault := by
  have hcloses := not_closes hc (not_isBlank_of_isGraphic hgraphic)
  intro h
  cases h with
  | character hd _ hno =>
    rw [hc] at hd
    cases hd
    rw [hgraphic] at hno
    cases hno
  | tooMany h => exact hcloses h
  | tooLong h => exact hcloses h

/-- A blank, or the end of a line, is no part of the runs before it. -/
theorem Tally.of_blank {c : Char} (hblank : isBlank c = true) :
    Tally.of (before ++ [c]) = Tally.of before := by
  unfold Tally.of
  rw [runs_append_cons (not_isGraphic_of_isBlank hblank), runs_nil, List.append_nil]

theorem parted_blank {c : Char} (hblank : isBlank c = true) : Parted (before ++ [c]) :=
  parted_concat_iff.2 (not_isGraphic_of_isBlank hblank)

/-- A word that is counted joins the runs before it. -/
theorem Tally.of_word {counted : Tally} (hparted : Parted before)
    (hword : ∀ c ∈ word, isGraphic c = true) (hne : word ≠ [])
    (h : (Tally.of before).add word = .ok counted) :
    counted = Tally.of (before ++ word.reverse) := by
  obtain ⟨-, -, rfl⟩ := Tally.add_eq_ok_iff.1 h
  unfold Tally.of
  rw [hparted.runs_append, runs_reverse hword hne, List.length_append, cost_append, cost_cons,
    List.length_reverse]
  rfl

/-- At the end of a line the word that it ends in may be one too many, or too long. -/
theorem lastWord_error (hparted : Parted before) (hword : ∀ c ∈ word, isGraphic c = true)
    (h : lastWord (Tally.of before) word = .error fault) :
    Leftmost (before ++ (word.reverse ++ [])) (before.length + word.length) fault := by
  unfold lastWord at h
  by_cases hne : word = []
  · rw [if_pos hne] at h
    cases h
  · rw [if_neg hne] at h
    rcases found_bind_eq_error_iff.1 h with hadd | ⟨_, -, h⟩
    · exact ((offends_closing_iff hparted hword hne (by simp)).2 hadd).leftmost
    · cases h

end

/-- **The reader fails at the leftmost position at which something is wrong.**  It has counted the
runs of what lies before the word it is in, and what comes next is the rest of the line. -/
theorem wordsFrom_error {before word line : List Char} {fault : Fault} (hparted : Parted before)
    (hword : ∀ c ∈ word, isGraphic c = true)
    (h : wordsFrom (Tally.of before) word line = .error fault) :
    Leftmost (before ++ (word.reverse ++ visible line)) (before.length + word.length) fault := by
  -- on the line, while the reader moves along it
  induction line generalizing before word with
  | nil => exact lastWord_error hparted hword h
  | cons c rest ih =>
    by_cases hblank : isBlank c = true
    · rw [visible_cons_of_not (not_endsLine_of_isBlank hblank)]
      rw [wordsFrom, if_pos hblank] at h
      by_cases hne : word = []
      · subst hne
        rw [if_pos rfl, ← Tally.of_blank hblank] at h
        have hrest := ih (parted_blank hblank) hword h
        rw [List.append_assoc, List.length_append] at hrest
        exact hrest.skip fun other => not_offends_blank hparted hblank _
      · rw [if_neg hne] at h
        have hclosing : ∀ other, Offends (before ++ (word.reverse ++ c :: visible rest))
            (before.length + word.length) other ↔ (Tally.of before).add word = .error other :=
          fun other => offends_closing_iff hparted hword hne (by simpa using hblank)
        rcases found_bind_eq_error_iff.1 h with hadd | ⟨counted, hadd, h⟩
        · exact ((hclosing fault).2 hadd).leftmost
        · have hcounted := Tally.of_word hparted hword hne hadd
          rw [← Tally.of_blank hblank] at hcounted
          subst hcounted
          rcases found_bind_eq_error_iff.1 h with herror | ⟨_, -, h⟩
          · have hrest := ih (parted_blank hblank) (by simp) herror
            simp only [List.append_assoc, List.length_append, List.length_reverse] at hrest
            refine Leftmost.skip hrest fun other hother => ?_
            rw [hclosing, hadd] at hother
            cases hother
          · cases h
    · by_cases hends : endsLine c = true
      · rw [visible_cons_of_ends hends]
        rw [wordsFrom, if_neg hblank, if_pos hends] at h
        exact lastWord_error hparted hword h
      · rw [visible_cons_of_not (Bool.not_eq_true _ ▸ hends)]
        rw [wordsFrom, if_neg hblank, if_neg hends] at h
        have hc : (before ++ (word.reverse ++ c :: visible rest))[before.length + word.length]?
            = some c := getElem?_read
        by_cases hgraphic : isGraphic c = true
        · rw [if_pos hgraphic] at h
          have hgrown : ∀ d ∈ c :: word, isGraphic d = true := by
            simpa [hgraphic] using hword
          have hrest := ih hparted hgrown h
          rw [List.reverse_cons, List.append_assoc] at hrest
          exact Leftmost.skip hrest fun other => not_offends_graphic hc hgraphic
        · rw [if_neg hgraphic] at h
          cases h
          exact (Offends.character hc (Bool.not_eq_true _ ▸ hblank)
            (Bool.not_eq_true _ ▸ hgraphic)).leftmost

/-! ## §6. Whole lines. -/

/-- A reader at the start of a line has counted nothing. -/
theorem Tally.of_nil : Tally.of [] = ⟨0, 0⟩ := by
  rw [Tally.of, runs_nil]
  rfl

/-- What a line is read as depends on the part of it that is looked at. -/
theorem words_congr {line other : String} (h : visible line.toList = visible other.toList) :
    words line = words other := by
  unfold words
  rw [← wordsFrom_visible _ _ line.toList, h, wordsFrom_visible]

theorem visible_append {part : List Char} (h : ∀ c ∈ part, endsLine c = false)
    (behind : List Char) : visible (part ++ behind) = part ++ visible behind := by
  induction part with
  | nil => rfl
  | cons c rest ih =>
    rw [List.cons_append, visible_cons_of_not (h c (by simp)), ih fun d hd => h d (by simp [hd])]
    rfl

theorem not_endsLine_of_mem_visible {line : List Char} {c : Char} (hc : c ∈ visible line) :
    endsLine c = false := by
  simpa using List.mem_takeWhile_imp hc

theorem visible_visible (line : List Char) : visible (visible line) = visible line := by
  have hends : ∀ c ∈ visible line, endsLine c = false := fun c hc =>
    not_endsLine_of_mem_visible hc
  have hwhole := visible_append hends []
  rwa [List.append_nil, show visible [] = [] from rfl, List.append_nil] at hwhole

/-- A line is read as its runs if it is legal and within the limits. -/
theorem wordsFrom_start_eq_ok_iff {line : List Char} {found : List (List Char)} :
    wordsFrom ⟨0, 0⟩ [] line = .ok found
      ↔ Legal (visible line) ∧ found = runs (visible line) ∧ found.length ≤ 10
        ∧ cost found ≤ 181 := by
  rw [wordsFrom_eq_ok_iff ⟨Nat.zero_le _, Nat.zero_le _⟩ (by simp)]
  show _ ∧ _ ∧ 0 + found.length ≤ 10 ∧ 0 + cost found ≤ 181 ↔ _
  rw [Nat.zero_add, Nat.zero_add]
  rfl

/-- It is refused for what is wrong at the leftmost position at which anything is wrong. -/
theorem wordsFrom_start_eq_error_iff {line : List Char} {fault : Fault} :
    wordsFrom ⟨0, 0⟩ [] line = .error fault
      ↔ ∃ i, Offends (visible line) i fault
        ∧ ∀ j < i, ∀ other, ¬ Offends (visible line) j other := by
  have hfirst : ∀ {fault}, wordsFrom ⟨0, 0⟩ [] line = .error fault →
      ∃ i, Offends (visible line) i fault
        ∧ ∀ j < i, ∀ other, ¬ Offends (visible line) j other := by
    intro fault h
    rw [← Tally.of_nil] at h
    obtain ⟨i, -, hi, hbefore⟩ := wordsFrom_error (by simp [Parted]) (by simp) h
    exact ⟨i, hi, fun j hj => hbefore j (Nat.zero_le j) hj⟩
  refine ⟨hfirst, ?_⟩
  rintro ⟨i, hi, hbefore⟩
  cases hread : wordsFrom ⟨0, 0⟩ [] line with
  | ok found =>
    obtain ⟨hlegal, rfl, hcount, hcost⟩ := wordsFrom_start_eq_ok_iff.1 hread
    exact (hi.not_fits hlegal hcount hcost).elim
  | error other =>
    -- two leftmost positions are the same one, and only one thing is wrong there
    obtain ⟨k, hk, hbefore'⟩ := hfirst hread
    have hsame : k = i := by
      rcases Nat.lt_trichotomy k i with hlt | heq | hlt
      · exact absurd hk (hbefore k hlt other)
      · exact heq
      · exact absurd hi (hbefore' i hlt fault)
    subst hsame
    rw [hk.unique hi]

/-- Words as texts take as much as their characters do. -/
theorem sum_length_texts (found : List (List Char)) :
    ((found.map String.ofList).map fun word => word.length + 1).sum = cost found := by
  simp [cost, Function.comp_def]

/-- **A line is read as its runs if it is legal and within the limits.  Otherwise it is refused for
what is wrong at the leftmost position at which anything is wrong.**  White space that ends the
line, and what stands behind it, makes no difference. -/
theorem words_exact (line : String) :
    let part := visible line.toList
    (∀ found, words line = .ok found
      ↔ (∀ c ∈ part, isBlank c = true ∨ isGraphic c = true)
        ∧ found = (runs part).map String.ofList ∧ found.length ≤ 10
        ∧ (found.map fun word => word.length + 1).sum ≤ 181)
      ∧ (∀ fault, words line = .error fault
        ↔ ∃ i, Offends part i fault ∧ ∀ j < i, ∀ other, ¬ Offends part j other)
      ∧ words (String.ofList part) = words line
      ∧ ∀ c rest, endsLine c = true → words (String.ofList (part ++ c :: rest)) = words line := by
  intro part
  have hends : ∀ c ∈ part, endsLine c = false := fun c hc => not_endsLine_of_mem_visible hc
  refine ⟨?_, ?_, ?_, ?_⟩
  · intro found
    unfold words
    constructor
    · intro h
      obtain ⟨read, hread, rfl⟩ := map_eq_ok_iff.1 h
      obtain ⟨hlegal, rfl, hcount, hcost⟩ := wordsFrom_start_eq_ok_iff.1 hread
      exact ⟨hlegal, rfl, by rwa [List.length_map], by rwa [sum_length_texts]⟩
    · rintro ⟨hlegal, rfl, hcount, hcost⟩
      rw [List.length_map] at hcount
      rw [sum_length_texts] at hcost
      exact map_eq_ok_iff.2 ⟨_, wordsFrom_start_eq_ok_iff.2 ⟨hlegal, rfl, hcount, hcost⟩, rfl⟩
  · intro fault
    rw [← wordsFrom_start_eq_error_iff, words]
    cases wordsFrom ⟨0, 0⟩ [] line.toList <;> simp [Except.map]
  · refine words_congr ?_
    rw [String.toList_ofList, visible_visible]
  · intro c rest hc
    refine words_congr ?_
    rw [String.toList_ofList, visible_append hends, visible_cons_of_ends hc, List.append_nil]

/-- A line with a tab between its words, and the same line with a comment behind a line feed. -/
theorem words_exact_comment :
    words "map\tddr" = .ok ["map", "ddr"]
      ∧ words (String.ofList (visible "map\tddr".toList ++ '\n' :: ['é']))
        = .ok ["map", "ddr"] := by
  have hread : words "map\tddr" = .ok ["map", "ddr"] := by decide +kernel
  refine ⟨hread, ?_⟩
  rw [(words_exact "map\tddr").2.2.2 '\n' ['é'] (by decide), hread]

end Script
end SystemPage
