/-
  SystemPage.Proofs.Spelling — what a line asks for, however it is written.

  There are many ways to write a line.  Numbers come in three notations, the words stand any number
  of blanks apart, and a comment may follow.  None of this matters: a line that is short enough does
  to a session what the request does that its words spell out.

  Main results:

      parseWord_of_denotes
                       — a numeral in any notation is read as its value
      SpelledLine.words_eq
                       — the words of a line are found, whatever stands between and behind them
      Asks.ofWords     — words that spell out a request are read as that request
      perform_spelled  — a line does what its words spell out
-/
import SystemPage.Proofs.Composition

namespace SystemPage

open Text Script

/-! ## §1. Numerals and letters. -/

/-- Digits of a radix, at least one of them, and the word that is their value. -/
structure DigitsOf (radix : Nat) (digits : List Char) (n : UInt32) : Prop where
  ne_nil : digits ≠ []
  all : ∀ c ∈ digits, isDigitOf radix c = true
  value : digitsValue radix digits = n.toNat

/-- The numerals of a word. -/
inductive Denotes : List Char → UInt32 → Prop
  -- a zero leads only if it is the whole numeral
  | decimal {digits : List Char} {n : UInt32} (h : DigitsOf 10 digits n)
    (hlead : digits.head? = some '0' → digits = ['0']) : Denotes digits n
  | hexadecimal {mark : Char} {digits : List Char} {n : UInt32} (hmark : mark = 'x' ∨ mark = 'X')
    (h : DigitsOf 16 digits n) : Denotes ('0' :: mark :: digits) n
  | octal {digits : List Char} {n : UInt32} (h : DigitsOf 8 digits n) : Denotes ('0' :: digits) n

/-- Digits behind the mark of their radix are read as their value. -/
theorem DigitsOf.parseWord_eq {radix : Nat} {digits : List Char} {n : UInt32} {text : String}
    (h : DigitsOf radix digits n) (hradix : 0 < radix)
    (hsplit : splitRadix text.toList = (radix, digits)) : parseWord text = .ok n := by
  have hempty : digits.isEmpty = false := by
    cases digits with
    | nil => exact absurd rfl h.ne_nil
    | cons c cs => rfl
  have hall : digits.all (isDigitOf radix) = true := List.all_eq_true.2 h.all
  have hbelow : digitsBelow? UInt32.size radix digits = some n.toNat := by
    rw [digitsBelow?_eq (by decide) hradix, h.value, if_pos n.toNat_lt_size]
  unfold parseWord
  rw [hsplit]
  simp only [hempty, hall, hbelow, Bool.not_true, Bool.or_self, Bool.false_eq_true, if_false,
    UInt32.ofNat_toNat]

theorem splitRadix_of_ne_zero {c : Char} (h : c ≠ '0') (rest : List Char) :
    splitRadix (c :: rest) = (10, c :: rest) := by
  unfold splitRadix
  split
  · next heq => cases heq; exact absurd rfl h
  · next heq => cases heq; exact absurd rfl h
  · next heq => cases heq; exact absurd rfl h
  · rfl

/-- An octal digit is no mark of another radix. -/
theorem splitRadix_of_octal {d : Char} (h : isDigitOf 8 d = true) (rest : List Char) :
    splitRadix ('0' :: d :: rest) = (8, d :: rest) := by
  have hx : d ≠ 'x' := by
    rintro rfl
    exact absurd h (by decide)
  have hX : d ≠ 'X' := by
    rintro rfl
    exact absurd h (by decide)
  unfold splitRadix
  split
  · next heq => cases heq; exact absurd rfl hx
  · next heq => cases heq; exact absurd rfl hX
  · next heq => cases heq; rfl
  · next hno => exact absurd rfl (hno d rest)

/-- **A numeral in any notation is read as its value.** -/
theorem parseWord_of_denotes {text : String} {n : UInt32} (h : Denotes text.toList n) :
    parseWord text = .ok n := by
  generalize htext : text.toList = cs at h
  cases h with
  | decimal h hlead =>
    refine h.parseWord_eq (by decide) ?_
    rw [htext]
    cases cs with
    | nil => rfl
    | cons c rest =>
      by_cases hc : c = '0'
      · subst hc
        cases hlead rfl
        rfl
      · exact splitRadix_of_ne_zero hc rest
  | hexadecimal hmark h =>
    refine h.parseWord_eq (by decide) ?_
    rw [htext]
    rcases hmark with rfl | rfl
    · rfl
    · rfl
  | @octal digits n h =>
    refine h.parseWord_eq (by decide) ?_
    rw [htext]
    cases digits with
    | nil => exact absurd rfl h.ne_nil
    | cons d rest =>
      exact splitRadix_of_octal (h.all d (by simp)) rest

/-- There is no point in a numeral. -/
theorem Denotes.point_not_mem {cs : List Char} {n : UInt32} (h : Denotes cs n) : '.' ∉ cs := by
  have hdigits : ∀ {radix : Nat} {digits : List Char}, DigitsOf radix digits n → '.' ∉ digits := by
    intro radix digits hd hmem
    have hpoint := hd.all '.' hmem
    exact absurd hpoint (by rw [isDigitOf, show digitValue? '.' = none by decide]; simp)
  cases h with
  | decimal h => exact hdigits h
  | hexadecimal hmark h =>
    simp only [List.mem_cons, not_or]
    refine ⟨by decide, ?_, hdigits h⟩
    rcases hmark with rfl | rfl
    · decide
    · decide
  | octal h =>
    simp only [List.mem_cons, not_or]
    exact ⟨by decide, hdigits h⟩

/-- The letters of ways of access are read as these ways. -/
theorem Access.ofLetters_map_letter (ways : List Access) :
    Access.ofLetters (ways.map Access.letter) = .ok ways := by
  induction ways with
  | nil => rfl
  | cons way rest ih =>
    rw [List.map_cons, Access.ofLetters, Access.ofLetter?_letter]
    show (Access.ofLetters (rest.map Access.letter)).map (way :: ·) = _
    rw [ih]
    rfl

/-! ## §2. Lines. -/

namespace Script

/-- A word of a line, with the blanks behind it. -/
structure SpelledWord where
  word : List Char
  gap : List Char
  word_ne_nil : word ≠ []
  word_graphic : ∀ c ∈ word, isGraphic c = true
  gap_blank : ∀ c ∈ gap, isBlank c = true

/-- A line: words between blanks, and what may stand behind them. -/
structure SpelledLine where
  lead : List Char
  items : List SpelledWord
  tail : List Char
  lead_blank : ∀ c ∈ lead, isBlank c = true
  -- a word that another one follows has blanks behind it
  parted : ∀ item ∈ items.dropLast, item.gap ≠ []
  -- what stands behind the words starts with white space that ends the line
  tail_ends : ∀ c ∈ tail.head?, endsLine c = true
  tail_single : '\n' ∉ tail

/-- A word as it is written, with the blanks behind it. -/
def SpelledWord.text (item : SpelledWord) : List Char := item.word ++ item.gap

namespace SpelledLine

/-- The line as it is written. -/
def text (line : SpelledLine) : List Char :=
  line.lead ++ (line.items.flatMap SpelledWord.text ++ line.tail)

def words (line : SpelledLine) : List String := line.items.map fun item => String.ofList item.word

/-- What the words take, each with a byte to end it. -/
def bytes (line : SpelledLine) : Nat := (line.items.map fun item => item.word.length + 1).sum

end SpelledLine

/-! What each character of a line does to the words. -/

theorem not_isWhite_of_isGraphic {c : Char} (h : isGraphic c = true) : isWhite c = false := by
  rw [Bool.eq_false_iff]
  intro hwhite
  simp only [isGraphic, isWhite, Bool.and_eq_true, Bool.or_eq_true, decide_eq_true_eq,
    beq_iff_eq] at h hwhite
  omega

theorem isWhite_of_isBlank {c : Char} (h : isBlank c = true) : isWhite c = true := by
  simp only [isBlank, Bool.or_eq_true, beq_iff_eq] at h
  rcases h with rfl | rfl
  · decide
  · decide

theorem not_isBlank_of_isGraphic {c : Char} (h : isGraphic c = true) : isBlank c = false := by
  by_contra hblank
  rw [Bool.not_eq_false] at hblank
  have hwhite := isWhite_of_isBlank hblank
  rw [not_isWhite_of_isGraphic h] at hwhite
  cases hwhite

theorem wordsFrom_blanks {gap : List Char} (hgap : ∀ c ∈ gap, isBlank c = true) (t : Tally)
    (rest : List Char) : wordsFrom t [] (gap ++ rest) = wordsFrom t [] rest := by
  induction gap with
  | nil => rfl
  | cons c cs ih =>
    rw [List.cons_append, wordsFrom, if_pos (hgap c (by simp)), if_pos rfl]
    exact ih fun d hd => hgap d (by simp [hd])

theorem wordsFrom_word {word : List Char} (hword : ∀ c ∈ word, isGraphic c = true) (t : Tally)
    (before rest : List Char) :
    wordsFrom t before (word ++ rest) = wordsFrom t (word.reverse ++ before) rest := by
  induction word generalizing before with
  | nil => rfl
  | cons c cs ih =>
    have hgraphic := hword c (by simp)
    have hends : endsLine c = false := by
      rw [endsLine, not_isWhite_of_isGraphic hgraphic, Bool.false_and]
    rw [List.cons_append, wordsFrom, if_neg (by simp [not_isBlank_of_isGraphic hgraphic]),
      if_neg (by simp [hends]), if_pos hgraphic, ih fun d hd => hword d (by simp [hd]),
      List.reverse_cons, List.append_assoc]
    rfl

theorem wordsFrom_tail {tail : List Char} (htail : ∀ c ∈ tail.head?, endsLine c = true) (t : Tally)
    (word : List Char) : wordsFrom t word tail = lastWord t word := by
  cases tail with
  | nil => rfl
  | cons c rest =>
    have hends := htail c rfl
    have hblank : isBlank c = false := by
      rw [endsLine, Bool.and_eq_true, Bool.not_eq_true'] at hends
      exact hends.2
    rw [wordsFrom, if_neg (by simp [hblank]), if_pos hends]

theorem Tally.add_eq {t : Tally} {word : List Char} (hwords : t.words < wordLimit)
    (hbytes : t.bytes + word.length + 1 ≤ byteLimit) :
    t.add word = .ok ⟨t.words + 1, t.bytes + word.length + 1⟩ := by
  rw [add, if_neg (Nat.not_le_of_lt hwords), if_neg (Nat.not_lt_of_le hbytes)]

/-- Words that are not too many and not too long are found one after the other. -/
theorem wordsFrom_items {tail : List Char} (htail : ∀ c ∈ tail.head?, endsLine c = true)
    (items : List SpelledWord) (hparted : ∀ item ∈ items.dropLast, item.gap ≠ []) (t : Tally)
    (hwords : t.words + items.length ≤ wordLimit)
    (hbytes : t.bytes + (items.map fun item => item.word.length + 1).sum ≤ byteLimit) :
    wordsFrom t [] (items.flatMap SpelledWord.text ++ tail)
      = .ok (items.map SpelledWord.word) := by
  induction items generalizing t with
  | nil =>
    show wordsFrom t [] tail = .ok []
    rw [wordsFrom_tail htail, lastWord, if_pos rfl]
  | cons item rest ih =>
    rw [List.map_cons, List.sum_cons] at hbytes
    rw [List.length_cons] at hwords
    have hadd : t.add item.word.reverse = .ok ⟨t.words + 1, t.bytes + item.word.length + 1⟩ := by
      rw [Tally.add_eq (by omega) (by rw [List.length_reverse]; omega), List.length_reverse]
    have hne : item.word.reverse ≠ [] := by simpa using item.word_ne_nil
    rw [List.flatMap_cons, SpelledWord.text, List.append_assoc, List.append_assoc,
      wordsFrom_word item.word_graphic, List.append_nil, List.map_cons]
    cases hgap : item.gap with
    | nil =>
      -- only the last word has no blanks behind it
      have hlast : rest = [] := by
        by_contra hrest
        refine hparted item ?_ hgap
        rw [List.dropLast_cons_of_ne_nil hrest]
        exact List.mem_cons_self
      subst hlast
      show wordsFrom t item.word.reverse tail = .ok [item.word]
      rw [wordsFrom_tail htail, lastWord, if_neg hne, hadd]
      show Except.ok [item.word.reverse.reverse] = _
      rw [List.reverse_reverse]
    | cons c cs =>
      have hblank : ∀ d ∈ c :: cs, isBlank d = true := hgap ▸ item.gap_blank
      have hrest : ∀ item ∈ rest.dropLast, item.gap ≠ [] := by
        intro other hother
        refine hparted other ?_
        rw [List.dropLast_cons_of_ne_nil fun hnil => by simp [hnil] at hother]
        exact List.mem_cons_of_mem _ hother
      have hfound := ih hrest ⟨t.words + 1, t.bytes + item.word.length + 1⟩
        (show t.words + 1 + rest.length ≤ wordLimit by omega)
        (show t.bytes + item.word.length + 1 + _ ≤ byteLimit by omega)
      rw [List.cons_append, wordsFrom, if_pos (hblank c (by simp)), if_neg hne, hadd]
      show (do return item.word.reverse.reverse :: (← wordsFrom _ [] (cs ++ _))) = _
      rw [wordsFrom_blanks fun d hd => hblank d (by simp [hd])]
      rw [hfound, List.reverse_reverse]
      rfl

/-- **The words of a line are found, whatever stands between and behind them.** -/
theorem SpelledLine.words_eq (line : SpelledLine) (hwords : line.items.length ≤ wordLimit)
    (hbytes : line.bytes ≤ byteLimit) :
    Script.words (String.ofList line.text) = .ok line.words := by
  have hfound := wordsFrom_items line.tail_ends line.items line.parted ⟨0, 0⟩
    (by rw [Nat.zero_add]; exact hwords) (by rw [Nat.zero_add]; exact hbytes)
  rw [Script.words, String.toList_ofList, SpelledLine.text, wordsFrom_blanks line.lead_blank,
    hfound]
  show Except.ok ((line.items.map SpelledWord.word).map String.ofList) = _
  rw [List.map_map]
  rfl

/-! ## §3. Requests. -/

/-- What the words of a line ask for, as an edit of a session.  The payload of a program is named by
its argument text up to the first semicolon. -/
inductive Asks : List String → Edit Session Unit → Prop
  | payload {name place size : String} {a n : UInt32} (hplace : Denotes place.toList a)
    (hsize : Denotes size.toList n) :
    Asks ["alias", name, place, size] (Session.insertAlias name a n)
  | map {name start stop letters : String} {a b : UInt32} {ways : List Access}
    (hstart : Denotes start.toList a) (hstop : Denotes stop.toList b)
    (hletters : letters.toList = ways.map Access.letter) :
    Asks ["map", name, start, stop, letters]
      (discard <| Session.insertMap name a b (Access.mask ways))
  | console {major minor : String} {a b : UInt32} (hmajor : Denotes major.toList a)
    (hminor : Denotes minor.toList b) :
    Asks ["console", major ++ "." ++ minor] (modify fun s => { s with console := b })
  | program {argv instructionMaps dataMaps : String}
    (hplain : instructionMaps.toList.head? ≠ some '-') :
    Asks ["app", argv, instructionMaps, dataMaps]
      (discard <| Session.insertProgram (String.ofList (argv.toList.takeWhile (· ≠ ';')))
        instructionMaps dataMaps argv false)
  | programAtOnce {argv flag instructionMaps dataMaps : String}
    (hflag : flag = "-x" ∨ flag = "-X") :
    Asks ["app", argv, flag, instructionMaps, dataMaps]
      (discard <| Session.insertProgram (String.ofList (argv.toList.takeWhile (· ≠ ';')))
        instructionMaps dataMaps argv true)

/-- No request is spelled out in more than five words. -/
theorem Asks.length_le {spelled : List String} {edit : Edit Session Unit}
    (h : Asks spelled edit) : spelled.length ≤ 5 := by
  cases h with
  | payload | map | console | program | programAtOnce => simp

theorem number_of_denotes {text : String} {n : UInt32} (h : Denotes text.toList n) :
    number text = .ok n := by
  rw [number, parseWord_of_denotes h]
  rfl

theorem access_of_letters {text : String} {ways : List Access}
    (h : text.toList = ways.map Access.letter) : access text = .ok (Access.mask ways) := by
  rw [access, h, Access.ofLetters_map_letter]

theorem toList_pointed (major minor : String) :
    (major ++ "." ++ minor).toList = major.toList ++ '.' :: minor.toList := by
  rw [String.toList_append, String.toList_append, List.append_assoc]
  rfl

/-- Of a token with points in it the part before the first one is read, then all that is behind
it. -/
theorem consoleNumber_pointed {major : String} (h : '.' ∉ major.toList) (minor : String) :
    Session.consoleNumber (major ++ "." ++ minor) = (do
      discard <| (parseWord major).mapError fun _ => .console .major (major ++ "." ++ minor)
      (parseWord minor).mapError fun _ => .console .minor (major ++ "." ++ minor)) := by
  unfold Session.consoleNumber
  rw [toList_pointed, cut_append h]
  show (do
    discard <| (parseWord (String.ofList major.toList)).mapError _
    (parseWord (String.ofList minor.toList)).mapError _) = _
  rw [String.ofList_toList, String.ofList_toList]

theorem consoleNumber_of_denotes {major minor : String} {a b : UInt32}
    (hmajor : Denotes major.toList a) (hminor : Denotes minor.toList b) :
    Session.consoleNumber (major ++ "." ++ minor) = .ok b := by
  rw [consoleNumber_pointed hmajor.point_not_mem, parseWord_of_denotes hmajor,
    parseWord_of_denotes hminor]
  rfl

/-- **Words that spell out a request are read as that request.** -/
theorem Asks.ofWords {spelled : List String} {edit : Edit Session Unit} (h : Asks spelled edit) :
    ∃ name rest command, spelled = name :: rest ∧ Command.ofWords name rest = .ok command
      ∧ command.perform = edit := by
  cases h with
  | @payload name place size a n hplace hsize =>
    refine ⟨_, _, .payload name a n, rfl, ?_, rfl⟩
    show (do
      let place ← number place
      let size ← number size
      return Command.payload name place size) = _
    rw [number_of_denotes hplace, number_of_denotes hsize]
    rfl
  | @map name start stop letters a b ways hstart hstop hletters =>
    refine ⟨_, _, .map name a b (Access.mask ways), rfl, ?_, rfl⟩
    show (do
      let start ← number start
      let stop ← number stop
      let granted ← access letters
      return Command.map name start stop granted) = _
    rw [number_of_denotes hstart, number_of_denotes hstop, access_of_letters hletters]
    rfl
  | @console major minor a b hmajor hminor =>
    refine ⟨_, _, .console (major ++ "." ++ minor), rfl, rfl, ?_⟩
    show Session.selectConsole _ = _
    rw [Session.selectConsole, consoleNumber_of_denotes hmajor hminor]
    rfl
  | @program argv instructionMaps dataMaps hplain =>
    refine ⟨_, _, programCommand argv instructionMaps dataMaps false, rfl, ?_, rfl⟩
    have hflag : looksLikeFlag instructionMaps = false := by
      rw [looksLikeFlag, beq_eq_false_iff_ne]
      exact hplain
    show programOfWords [argv, instructionMaps, dataMaps] = _
    rw [programOfWords, hflag]
    rfl
  | @programAtOnce argv flag instructionMaps dataMaps hflag =>
    refine ⟨_, _, programCommand argv instructionMaps dataMaps true, rfl, ?_, rfl⟩
    show programOfWords [argv, flag, instructionMaps, dataMaps] = _
    rcases hflag with rfl | rfl
    · rfl
    · rfl

/-! ## §4. Lines that ask. -/

/-- A text without line feeds is one line. -/
theorem lines_single {line : List Char} (hne : line ≠ []) (hsingle : '\n' ∉ line) :
    lines line = [line] := by
  rw [lines, fields_of_not_mem hsingle, linesOf, if_neg hne]

/-- There is no line feed in a line. -/
theorem SpelledLine.text_single (line : SpelledLine) : '\n' ∉ line.text := by
  have hblank : ∀ {cs : List Char}, (∀ c ∈ cs, isBlank c = true) → '\n' ∉ cs := by
    intro cs hcs hmem
    exact absurd (hcs _ hmem) (by decide)
  simp only [text, List.mem_append, List.mem_flatMap, not_or, not_exists, not_and]
  refine ⟨hblank line.lead_blank, ?_, line.tail_single⟩
  intro item _ hmem
  rcases List.mem_append.1 hmem with hword | hgap
  · exact absurd (item.word_graphic _ hword) (by decide)
  · exact hblank item.gap_blank hgap

/-- **A line does what its words spell out.** -/
theorem perform_spelled (line : SpelledLine) {edit : Edit Session Unit} (h : Asks line.words edit)
    (hbytes : line.bytes ≤ 181) (path : String) (s : Session) :
    Edit.verdict (perform path (String.ofList line.text)) s = Edit.verdict edit s := by
  obtain ⟨name, rest, command, hwords, hcommand, hperform⟩ := h.ofWords
  have hcount : line.items.length ≤ wordLimit := by
    have hlength := h.length_le
    rw [SpelledLine.words, List.length_map] at hlength
    exact Nat.le_trans hlength (by decide)
  have hne : line.text ≠ [] := by
    intro hnil
    have hnone := line.words_eq hcount hbytes
    rw [hnil, hwords] at hnone
    cases hnone
  have hlook : Edit.look (fun _ => Script.words (String.ofList line.text)) s
      = .ok (name :: rest) s :=
    Edit.look_of_ok (hwords ▸ line.words_eq hcount hbytes)
  have hlook' : Edit.look (fun _ => Command.ofWords name rest) s = .ok command s :=
    Edit.look_of_ok hcommand
  have hline : performLine (String.ofList line.text) s = edit s := by
    rw [performLine, Edit.bind_of_ok hlook, performWords, Edit.bind_of_ok hlook', hperform]
  rw [perform, String.toList_ofList, lines_single hne line.text_single]
  show Edit.verdict (do locating path 1 _ (performLine _); pure ()) s = _
  rw [show (do locating path 1 _ (performLine _); pure ()) = locating path 1 _ (performLine _) from
    bind_pure_unit, locating_verdict]
  rw [Edit.verdict, Edit.verdict, Edit.outcome, Edit.outcome, hline]

/-- A map whose numbers are written in two notations, with a comment behind it. -/
theorem perform_spelled_comment :
    ∃ line : SpelledLine, String.ofList line.text = " map\tddr  0X001f 0100 wr \r(see manual)"
      ∧ Asks line.words (discard <| Session.insertMap "ddr" 0x1f 0x40 3) ∧ line.bytes ≤ 181
      ∧ ∀ s, Edit.verdict (perform "user.plo" " map\tddr  0X001f 0100 wr \r(see manual)") s
        = Edit.verdict (discard <| Session.insertMap "ddr" 0x1f 0x40 3) s := by
  have hspelled : Asks ["map", "ddr", "0X001f", "0100", "wr"]
      (discard <| Session.insertMap "ddr" 0x1f 0x40 (Access.mask [.write, .read])) :=
    .map (.hexadecimal (.inr rfl) ⟨by decide, List.all_eq_true.1 rfl, by decide⟩)
      (.octal ⟨by decide, List.all_eq_true.1 rfl, by decide⟩) rfl
  let line : SpelledLine :=
    { lead := [' ']
      items := [⟨"map".toList, ['\t'], by decide, List.all_eq_true.1 rfl, List.all_eq_true.1 rfl⟩,
        ⟨"ddr".toList, [' ', ' '], by decide, List.all_eq_true.1 rfl, List.all_eq_true.1 rfl⟩,
        ⟨"0X001f".toList, [' '], by decide, List.all_eq_true.1 rfl, List.all_eq_true.1 rfl⟩,
        ⟨"0100".toList, [' '], by decide, List.all_eq_true.1 rfl, List.all_eq_true.1 rfl⟩,
        ⟨"wr".toList, [' '], by decide, List.all_eq_true.1 rfl, List.all_eq_true.1 rfl⟩]
      tail := "\r(see manual)".toList
      lead_blank := List.all_eq_true.1 rfl
      parted := by simp
      tail_ends := by
        intro c hc
        cases hc
        decide
      tail_single := by decide }
  exact ⟨line, rfl, hspelled, by decide, perform_spelled line hspelled (by decide) "user.plo"⟩

end Script
end SystemPage
