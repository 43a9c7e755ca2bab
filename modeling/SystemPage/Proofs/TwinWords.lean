/-
  SystemPage.Proofs.TwinWords — the words of two pages side by side.

  Two pages that were built alike may lie in different places and store their words in different
  orders.  At each place of a word both hold a word nevertheless.  Some of the words are addresses
  of what lies in the page itself, or 0 where there is nothing; these are as far apart as the pages.
  The others are the same in both.

  Main results:

      exists_neighbours
                       — every member of a closed chain has one before it and one after it
      Closed.bothPoint — the links of a ring are addresses in both pages
      Twins.words_abreast
                       — what two pages hold at the places of their words
-/
import SystemPage.Proofs.TwinSessions

namespace SystemPage

open Memory SystemPage.Ring

/-! ## §1. Words and addresses. -/

/-- Every member of a closed chain has one after it and one before it. -/
theorem exists_neighbours {α : Type} {R : α → α → Prop} {members : List α} {a : α}
    (h : (members ++ members.take 1).IsChain R) (ha : a ∈ members) :
    (∃ b ∈ members, R a b) ∧ ∃ c ∈ members, R c a := by
  cases members with
  | nil => simp at ha
  | cons first rest =>
    rw [List.take_succ_cons, List.take_zero] at h
    have hstep := List.isChain_iff_getElem.1 h
    obtain ⟨i, hi, hget⟩ := List.getElem_of_mem ha
    have hlength : (first :: rest ++ [first]).length = (first :: rest).length + 1 := by simp
    have hi' : i < (first :: rest ++ [first]).length := by omega
    have hat : (first :: rest ++ [first])[i] = a := by rw [List.getElem_append_left hi, hget]
    have hmember : ∀ (j : Nat) (hj : j < (first :: rest ++ [first]).length),
        (first :: rest ++ [first])[j] ∈ first :: rest := by
      intro j hj
      rcases List.mem_append.1 (List.getElem_mem hj) with hmem | hmem
      · exact hmem
      · rw [List.mem_singleton.1 hmem]
        exact List.mem_cons_self
    refine ⟨⟨_, hmember (i + 1) (by omega), hat ▸ hstep i (by omega)⟩, ?_⟩
    cases i with
    | succ i => exact ⟨_, hmember i (by omega), hat ▸ hstep i (by omega)⟩
    | zero =>
      -- the first member comes after the last one
      have hlast : (first :: rest).length < (first :: rest ++ [first]).length := by omega
      have hend : (first :: rest ++ [first])[(first :: rest).length] = a := by
        rw [List.getElem_append_right (Nat.le_refl _)]
        simpa using hget
      have hbefore : rest.length < (first :: rest ++ [first]).length := by
        rw [hlength, List.length_cons]
        omega
      exact ⟨_, hmember rest.length hbefore, hend ▸ hstep rest.length (by simp)⟩

/-- A word that is 0 in both of two pages, or an address in both that differs by a distance. -/
def Moved (shift word moved : UInt32) : Prop :=
  (word = 0 ∧ moved = 0) ∨ (word ≠ 0 ∧ moved ≠ 0 ∧ moved = word + shift)

namespace Memory

/-- A word at a place in both of two pages. -/
def BothHold (m t : Memory) (place : Nat) : Prop :=
  ∃ word, m.HoldsWord place word ∧ t.HoldsWord place word

/-- Addresses at a place in both of two pages, which are as far apart as the pages, or 0 in both. -/
def BothPoint (m t : Memory) (place : Nat) : Prop :=
  ∃ word moved, m.HoldsWord place word ∧ t.HoldsWord place moved
    ∧ Moved (t.base - m.base) word moved

theorem address_shift (m t : Memory) (place : Nat) :
    t.address place = m.address place + (t.base - m.base) := by
  rw [address, address, UInt32.add_comm (m.base + _), ← UInt32.add_assoc, UInt32.sub_add_cancel]

variable {m t : Memory} {place : Nat}

theorem BothPoint.bothHold (h : BothPoint m t place) (hbase : t.base = m.base) :
    BothHold m t place := by
  obtain ⟨word, moved, hword, hmoved, ⟨rfl, rfl⟩ | ⟨-, -, rfl⟩⟩ := h
  · exact ⟨0, hword, hmoved⟩
  · rw [hbase, UInt32.sub_self, UInt32.add_zero] at hmoved
    exact ⟨word, hword, hmoved⟩

/-- The addresses of the same place behind the header are as far apart as the pages. -/
theorem moved_address {held held' : List UInt8} (hplace : headerSize ≤ place)
    (h : m.Holds place held) (h' : t.Holds place held') :
    Moved (t.base - m.base) (m.address place) (t.address place) := by
  have hne : ∀ {p : Memory} {bytes : List UInt8}, p.Holds place bytes → p.address place ≠ 0 := by
    intro p bytes hp hzero
    have hnumber := toNat_address hp.addressed
    rw [hzero] at hnumber
    have hzero' : 0 = p.base.toNat + place := hnumber
    have hplace' : 24 ≤ place := hplace
    omega
  exact .inr ⟨hne h, hne h', address_shift m t place⟩

/-- A word that lies in both of two pages among words that they hold. -/
theorem Holds.bothHold {words words' : List UInt32} {word : UInt32} {i : Nat} (hm : m.Proper)
    (ht : t.Proper) (h : m.Holds place (words.flatMap m.order.encode))
    (h' : t.Holds place (words'.flatMap t.order.encode)) (hi : words[i]? = some word)
    (hi' : words'[i]? = some word) : BothHold m t (place + 4 * i) :=
  ⟨word, h.word hm hi, h'.word ht hi'⟩

/-- An address that lies in both of two pages among words that they hold. -/
theorem Holds.bothPoint {words words' : List UInt32} {word moved : UInt32} {i : Nat}
    (hm : m.Proper) (ht : t.Proper) (h : m.Holds place (words.flatMap m.order.encode))
    (h' : t.Holds place (words'.flatMap t.order.encode)) (hi : words[i]? = some word)
    (hi' : words'[i]? = some moved) (hmoved : Moved (t.base - m.base) word moved) :
    BothPoint m t (place + 4 * i) :=
  ⟨word, moved, h.word hm hi, h'.word ht hi', hmoved⟩

end Memory

/-- The links of a ring that closes in both of two pages, behind their headers. -/
theorem Ring.Closed.bothPoint {m t : Memory} {places : List Nat} (h : Closed m places)
    (h' : Closed t places) (hbehind : ∀ place ∈ places, headerSize ≤ place) {place : Nat}
    (hplace : place ∈ places) : BothPoint m t place ∧ BothPoint m t (place + 4) := by
  have hboth : (places ++ places.take 1).IsChain fun a b => Joined m a b ∧ Joined t a b :=
    List.isChain_iff_getElem.2 fun i hi =>
      ⟨List.isChain_iff_getElem.1 h i hi, List.isChain_iff_getElem.1 h' i hi⟩
  have hmoved : ∀ p ∈ places, Moved (t.base - m.base) (m.address p) (t.address p) := by
    intro p hp
    obtain ⟨⟨_, -, hj, hj'⟩, -⟩ := exists_neighbours hboth hp
    exact moved_address (hbehind p hp) hj.forward hj'.forward
  obtain ⟨⟨b, hb, hj, hj'⟩, c, hc, hj2, hj2'⟩ := exists_neighbours hboth hplace
  exact ⟨⟨_, _, hj.forward, hj'.forward, hmoved b hb⟩, ⟨_, _, hj2.back, hj2'.back, hmoved c hc⟩⟩

/-- The heads of such a ring. -/
theorem Ring.Closed.moved_headOf {m t : Memory} {places : List Nat} (h : Closed m places)
    (h' : Closed t places) (hbehind : ∀ place ∈ places, headerSize ≤ place) :
    Moved (t.base - m.base) (headOf m places) (headOf t places) := by
  cases places with
  | nil => exact .inl ⟨rfl, rfl⟩
  | cons first rest =>
    obtain ⟨_, -, hj⟩ := h.exists_next (a := first) (by simp)
    obtain ⟨_, -, hj'⟩ := h'.exists_next (a := first) (by simp)
    exact moved_address (hbehind first (by simp)) hj.forward hj'.forward

/-! ## §2. The words of records. -/

/-- The distances of the addresses of a map from the start of its record. -/
def AddressMap.pointerFields : List Nat := [0, 4, 28]

/-- The distances of the addresses of a program from the start of its record.  The addresses of its
payload are not among them, for the payload lies outside of the page. -/
def Program.pointerFields : List Nat := [0, 4, 16, 24, 32]

/-- The distances of the addresses of a header from the start of the page. -/
def Header.pointerFields : List Nat := [12, 16]

/-- The places of the addresses of a page, which are among those of its words. -/
def Inventory.pointerPlaces (inv : Inventory) : List Nat :=
  Header.pointerFields ++ inv.maps.flatMap (fun e => AddressMap.pointerFields.map (e.place + ·))
    ++ inv.programs.flatMap fun e => Program.pointerFields.map (e.place + ·)

/-- What two pages hold at the places of words: addresses at some, and the same at the others. -/
structure Memory.WordsAbreast (m t : Memory) (words pointers : List Nat) : Prop where
  point : ∀ place ∈ pointers, BothPoint m t place
  hold : ∀ place ∈ words, place ∉ pointers → BothHold m t place

namespace Memory.WordsAbreast

variable {m t : Memory} {words pointers : List Nat}

theorem append {more morePointers : List Nat} (h : WordsAbreast m t words pointers)
    (h' : WordsAbreast m t more morePointers) :
    WordsAbreast m t (words ++ more) (pointers ++ morePointers) := by
  refine ⟨?_, ?_⟩
  · intro place hplace
    exact (List.mem_append.1 hplace).elim (h.point place) (h'.point place)
  · intro place hplace hplain
    rw [List.mem_append, not_or] at hplain
    exact (List.mem_append.1 hplace).elim (fun hp => h.hold place hp hplain.1)
      fun hp => h'.hold place hp hplain.2

theorem flatMap {ι : Type} {records : List ι} {words pointers : ι → List Nat}
    (h : ∀ e ∈ records, WordsAbreast m t (words e) (pointers e)) :
    WordsAbreast m t (records.flatMap words) (records.flatMap pointers) := by
  refine ⟨?_, ?_⟩
  · intro place hplace
    obtain ⟨e, he, hp⟩ := List.mem_flatMap.1 hplace
    exact (h e he).point place hp
  · intro place hplace hplain
    obtain ⟨e, he, hp⟩ := List.mem_flatMap.1 hplace
    exact (h e he).hold place hp fun hpointer => hplain (List.mem_flatMap.2 ⟨e, he, hpointer⟩)

/-- Pages in the same place hold the same words. -/
theorem bothHold (h : WordsAbreast m t words pointers) (hbase : t.base = m.base) :
    ∀ place ∈ words, BothHold m t place := by
  intro place hplace
  by_cases hpointer : place ∈ pointers
  · exact (h.point place hpointer).bothHold hbase
  · exact h.hold place hplace hpointer

end Memory.WordsAbreast

namespace Session.Twins

variable {inv : Inventory} {s t : Session}

theorem map_words (h : Twins inv s t) {e : MapEntry} (he : e ∈ inv.maps) :
    WordsAbreast s.memory t.memory (AddressMap.wordFields.map (e.place + ·))
      (AddressMap.pointerFields.map (e.place + ·)) := by
  obtain ⟨hnext, hprevious⟩ := h.sound.arranged.closed.bothPoint h.soundTwin.arranged.closed
    (fun place hp => (h.sound.arranged.inside place (List.mem_append_left _ hp)).1)
    (List.mem_map_of_mem (f := MapEntry.place) he)
  have hbehind := h.sound.arranged.behind ⟨e.namePlace, Text.Utf8.bytes e.name ++ [0]⟩
    (List.mem_append_left _ (List.mem_flatMap.2 ⟨e, he, by simp [MapEntry.pieces]⟩))
  have hheld := h.sound.held_map he
  have hheld' := h.soundTwin.held_map he
  simp only [HoldsAll, MapEntry.pieces, List.forall_mem_cons] at hheld hheld'
  obtain ⟨hwords, -, hpointer, hname, -⟩ := hheld
  obtain ⟨hwords', -, hpointer', hname', -⟩ := hheld'
  constructor
  · simp only [AddressMap.pointerFields, List.map_cons, List.map_nil, List.forall_mem_cons,
      List.not_mem_nil, false_implies, implies_true, and_true]
    exact ⟨hnext, hprevious, ⟨_, _, hpointer, hpointer', moved_address hbehind hname hname'⟩⟩
  · have hfield : ∀ i < 4, BothHold s.memory t.memory (e.place + 8 + 4 * i) := fun i hi =>
      hwords.bothHold h.pages.proper h.pages.properTwin hwords' (List.getElem?_eq_getElem hi)
        (List.getElem?_eq_getElem hi)
    intro place hplace hplain
    simp only [AddressMap.wordFields, AddressMap.pointerFields, List.map_cons, List.map_nil,
      List.mem_cons, List.not_mem_nil, or_false] at hplace hplain
    obtain rfl | rfl | rfl | rfl : place = e.place + 8 ∨ place = e.place + 12
      ∨ place = e.place + 16 ∨ place = e.place + 20 := by omega
    exacts [hfield 0 (by omega), hfield 1 (by omega), hfield 2 (by omega), hfield 3 (by omega)]

theorem program_words (h : Twins inv s t) {e : ProgramEntry} (he : e ∈ inv.programs) :
    WordsAbreast s.memory t.memory (Program.wordFields.map (e.place + ·))
      (Program.pointerFields.map (e.place + ·)) := by
  obtain ⟨hnext, hprevious⟩ := h.sound.arranged.closedOther.bothPoint
    h.soundTwin.arranged.closedOther
    (fun place hp => (h.sound.arranged.inside place (List.mem_append_right _ hp)).1)
    (List.mem_map_of_mem (f := ProgramEntry.place) he)
  have hbehind : ∀ piece ∈ e.pieces s.memory, headerSize ≤ piece.place := fun piece hp =>
    h.sound.arranged.behind piece (List.mem_append_right _ (List.mem_flatMap.2 ⟨e, he, hp⟩))
  obtain ⟨hheld, -⟩ := h.sound.held_program he
  obtain ⟨hheld', -⟩ := h.soundTwin.held_program he
  simp only [HoldsAll, ProgramEntry.pieces, List.forall_mem_cons] at hheld hheld' hbehind
  obtain ⟨hwords, hdata, hinstructions, hargv, -⟩ := hheld
  obtain ⟨hwords', hdata', hinstructions', hargv', -⟩ := hheld'
  obtain ⟨-, hbehindData, hbehindInstructions, hbehindArgv, -⟩ := hbehind
  have hproper := h.pages.proper
  have hproper' := h.pages.properTwin
  constructor
  · simp only [Program.pointerFields, List.map_cons, List.map_nil, List.forall_mem_cons,
      List.not_mem_nil, false_implies, implies_true, and_true]
    exact ⟨hnext, hprevious,
      hwords.bothPoint (i := 2) hproper hproper' hwords' rfl rfl
        (moved_address hbehindArgv hargv hargv'),
      hwords.bothPoint (i := 4) hproper hproper' hwords' rfl rfl
        (moved_address hbehindInstructions hinstructions hinstructions'),
      hwords.bothPoint (i := 6) hproper hproper' hwords' rfl rfl
        (moved_address hbehindData hdata hdata')⟩
  · intro place hplace hplain
    simp only [Program.wordFields, Program.pointerFields, List.map_cons, List.map_nil,
      List.mem_cons, List.not_mem_nil, or_false] at hplace hplain
    obtain rfl | rfl | rfl | rfl : place = e.place + 8 ∨ place = e.place + 12
      ∨ place = e.place + 20 ∨ place = e.place + 28 := by omega
    exacts [hwords.bothHold (i := 0) hproper hproper' hwords' rfl rfl,
      hwords.bothHold (i := 1) hproper hproper' hwords' rfl rfl,
      hwords.bothHold (i := 3) hproper hproper' hwords' rfl rfl,
      hwords.bothHold (i := 5) hproper hproper' hwords' rfl rfl]

/-- The heads of both rings in both pages. -/
theorem moved_heads (h : Twins inv s t) :
    Moved (t.memory.base - s.memory.base) s.mapHead t.mapHead
      ∧ Moved (t.memory.base - s.memory.base) s.programHead t.programHead := by
  rw [h.sound.mapHead, h.sound.programHead, h.soundTwin.mapHead, h.soundTwin.programHead]
  exact ⟨h.sound.arranged.closed.moved_headOf h.soundTwin.arranged.closed
      fun place hp => (h.sound.arranged.inside place (List.mem_append_left _ hp)).1,
    h.sound.arranged.closedOther.moved_headOf h.soundTwin.arranged.closedOther
      fun place hp => (h.sound.arranged.inside place (List.mem_append_right _ hp)).1⟩

theorem header_words (h : Twins inv s t) (hstored : s.HoldsHeader) (hstored' : t.HoldsHeader) :
    WordsAbreast s.memory t.memory Header.wordFields Header.pointerFields := by
  obtain ⟨hmaps, hprograms⟩ := h.moved_heads
  have hproper := h.pages.proper
  have hproper' := h.pages.properTwin
  unfold HoldsHeader at hstored hstored'
  constructor
  · simp only [Header.pointerFields, List.forall_mem_cons, List.not_mem_nil, false_implies,
      implies_true, and_true]
    exact ⟨hstored.bothPoint (i := 3) hproper hproper' hstored' rfl rfl hmaps,
      hstored.bothPoint (i := 4) hproper hproper' hstored' rfl rfl hprograms⟩
  · intro place hplace hplain
    simp only [Header.wordFields, Header.pointerFields, List.mem_cons, List.not_mem_nil,
      or_false] at hplace hplain
    have hsize : t.header.size = s.header.size := congrArg UInt32.ofNat h.pages.size
    obtain rfl | rfl | rfl | rfl : place = 0 ∨ place = 4 ∨ place = 8 ∨ place = 20 := by omega
    exacts [hstored.bothHold (i := 0) hproper hproper' hstored' rfl (congrArg some h.imageSize),
      hstored.bothHold (i := 1) hproper hproper' hstored' rfl (congrArg some hsize),
      hstored.bothHold (i := 2) hproper hproper' hstored' rfl (congrArg some h.load),
      hstored.bothHold (i := 5) hproper hproper' hstored' rfl (congrArg some h.console)]

/-- **What two pages hold whose headers have been stored.** -/
theorem words_abreast (h : Twins inv s t) (hstored : s.HoldsHeader) (hstored' : t.HoldsHeader) :
    WordsAbreast s.memory t.memory inv.wordPlaces inv.pointerPlaces :=
  ((h.header_words hstored hstored').append (.flatMap fun _ he => h.map_words he)).append
    (.flatMap fun _ he => h.program_words he)

end Session.Twins
end SystemPage
