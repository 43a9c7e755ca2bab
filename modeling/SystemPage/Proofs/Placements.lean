/-
  SystemPage.Proofs.Placements — the texts that place a page.

  A placement goes through three hands.  The text is cut at its colons, each field is read as a
  number, and the numbers are judged, one of them as soon as it is read and all of them when the
  page is built.  Here a text is any text, and what it takes is said at once: three numbers with
  colons between them, a page that ends inside the address space, and room for the header.

  Main results:

      fields_eq_three_iff — a text has three fields if there are two separators in it
      ofText_eq_ok_iff    — a text is read as the placement that it spells
      create_cases        — a page is built wherever it fits
      Session.ofText_exact
                          — both of it: which texts give a session, and which session that is
-/
import SystemPage.Proofs.Numerals
import SystemPage.Proofs.Runs

namespace SystemPage

/-! ## §1. Three fields. -/

namespace Text

/-- **A text has three fields if there are two separators in it.** -/
theorem fields_eq_three_iff {separator : Char} {cs first second third : List Char} :
    fields separator cs = [first, second, third]
      ↔ cs = first ++ separator :: (second ++ separator :: third)
        ∧ separator ∉ first ∧ separator ∉ second ∧ separator ∉ third := by
  constructor
  · intro h
    have hjoined := intercalate_fields separator cs
    have hwhole := separator_not_mem_fields separator cs
    rw [h] at hjoined hwhole
    refine ⟨?_, hwhole first (by simp), hwhole second (by simp), hwhole third (by simp)⟩
    rw [← hjoined]
    simp [List.intercalate]
  · intro h
    obtain ⟨rfl, hfirst, hsecond, hthird⟩ := h
    rw [fields_append, fields_append, fields_of_not_mem hfirst, fields_of_not_mem hsecond,
      fields_of_not_mem hthird]
    rfl

theorem fieldTexts_eq_iff {separator : Char} {text : String} {parts : List String} :
    fieldTexts separator text = parts ↔ fields separator text.toList = parts.map String.toList := by
  rw [← toList_fieldTexts]
  exact (List.map_injective_iff.2 fun _ _ h => String.toList_injective h).eq_iff.symm

end Text

namespace Spells

variable {cs : List Char} {n : Nat}

/-- There are figures in a numeral, and the mark of a radix. -/
theorem mem_cases (h : Spells cs n) {c : Char} (hc : c ∈ cs) :
    isDigitOf 16 c = true ∨ c = 'x' ∨ c = 'X' := by
  have hfigures : ∀ {radix : Nat} {cs : List Char}, Written radix cs n → c ∈ cs →
      isDigitOf 16 c = true := by
    intro radix cs hwritten hmem
    obtain ⟨d, hfigure, -⟩ := isDigitOf_iff.1 ((written_iff.1 hwritten).2.1 c hmem)
    exact isDigitOf_iff.2 ⟨d, hfigure, hfigure.lt⟩
  have hzero : isDigitOf 16 '0' = true := by decide
  cases h with
  | hexadecimal hmark h =>
    rcases List.mem_cons.1 hc with rfl | hc
    · exact .inl hzero
    · rcases List.mem_cons.1 hc with rfl | hc
      · exact .inr hmark
      · exact .inl (hfigures h hc)
  | octal h =>
    rcases List.mem_cons.1 hc with rfl | hc
    · exact .inl hzero
    · exact .inl (hfigures h hc)
  | zero =>
    cases List.mem_singleton.1 hc
    exact .inl hzero
  | decimal _ h => exact .inl (hfigures h hc)

theorem colon_not_mem (h : Spells cs n) : ':' ∉ cs := by
  intro hmem
  have hcolon : ¬ (isDigitOf 16 ':' = true ∨ ':' = 'x' ∨ ':' = 'X') := by decide
  exact hcolon (h.mem_cases hmem)

end Spells

/-! ## §2. Reading a placement. -/

namespace Placement

variable {text load offset capacity : String} {place : Placement} {fault : Fault}

/-- A text that spells the numbers of a placement, with colons between them. -/
def SpelledBy (place : Placement) (text : String) : Prop :=
  ∃ load offset capacity : String, text = load ++ ":" ++ offset ++ ":" ++ capacity
    ∧ Spells load.toList place.load.toNat ∧ Spells offset.toList place.offset.toNat
    ∧ Spells capacity.toList place.capacity.toNat

theorem readField_eq_ok_iff {field : PlacementField} {raw : String} {n : UInt32} :
    readField field raw = .ok n ↔ Spells raw.toList n.toNat := by
  rw [readField, mapError_eq_ok_iff, parseWord_eq_ok_iff]

theorem kind_of_readField {field : PlacementField} {raw : String}
    (h : readField field raw = .error fault) : fault.kind = .invalidConfiguration := by
  obtain ⟨cause, -, rfl⟩ := mapError_eq_error_iff.1 h
  rfl

/-- The placement that three fields denote. -/
def ofFields (load offset capacity : String) : Except Fault Placement := do
  let load ← readField .load load
  let offset ← readField .offset offset
  let capacity ← readField .capacity capacity
  if capacity = 0 then throw .zeroCapacity
  return ⟨load, offset, capacity⟩

/-- A text is three fields or none. -/
theorem ofText_cases (text : String) :
    (∃ load offset capacity, Text.fieldTexts ':' text = [load, offset, capacity]
        ∧ ofText text = ofFields load offset capacity)
      ∨ ((∀ load offset capacity, Text.fieldTexts ':' text ≠ [load, offset, capacity])
        ∧ ofText text = .error (.placementShape text)) := by
  unfold ofText
  split
  · next load offset capacity hfields => exact .inl ⟨load, offset, capacity, hfields, rfl⟩
  · next hshape => exact .inr ⟨hshape, rfl⟩

theorem ofFields_eq_ok_iff :
    ofFields load offset capacity = .ok place
      ↔ Spells load.toList place.load.toNat ∧ Spells offset.toList place.offset.toNat
        ∧ Spells capacity.toList place.capacity.toNat ∧ place.capacity ≠ 0 := by
  simp only [ofFields, Edit.found_bind_eq_ok_iff, readField_eq_ok_iff]
  constructor
  · intro h
    obtain ⟨p, hp, o, ho, m, hm, h⟩ := h
    split at h
    · cases h
    · next hzero =>
      cases h
      exact ⟨hp, ho, hm, hzero⟩
  · intro h
    obtain ⟨hp, ho, hm, hzero⟩ := h
    refine ⟨_, hp, _, ho, _, hm, ?_⟩
    rw [if_neg hzero]
    rfl

theorem kind_of_ofFields (h : ofFields load offset capacity = .error fault) :
    fault.kind = .invalidConfiguration := by
  simp only [ofFields, Edit.found_bind_eq_error_iff] at h
  rcases h with h | ⟨p, -, h | ⟨o, -, h | ⟨m, -, h⟩⟩⟩
  · exact kind_of_readField h
  · exact kind_of_readField h
  · exact kind_of_readField h
  · split at h
    · cases h
      rfl
    · cases h

theorem fieldTexts_of_spelled (hload : ':' ∉ load.toList) (hoffset : ':' ∉ offset.toList)
    (hcapacity : ':' ∉ capacity.toList) :
    Text.fieldTexts ':' (load ++ ":" ++ offset ++ ":" ++ capacity) = [load, offset, capacity] := by
  rw [Text.fieldTexts_eq_iff]
  show _ = [load.toList, offset.toList, capacity.toList]
  rw [Text.fields_eq_three_iff]
  exact ⟨by simp, hload, hoffset, hcapacity⟩

theorem eq_of_fieldTexts (h : Text.fieldTexts ':' text = [load, offset, capacity]) :
    text = load ++ ":" ++ offset ++ ":" ++ capacity := by
  rw [Text.fieldTexts_eq_iff] at h
  rw [← String.toList_inj, (Text.fields_eq_three_iff.1 h).1]
  simp

/-- **A text is read as the placement that it spells**, if there is room for a byte. -/
theorem ofText_eq_ok_iff : ofText text = .ok place ↔ place.SpelledBy text ∧ place.capacity ≠ 0 := by
  constructor
  · intro h
    rcases ofText_cases text with ⟨load, offset, capacity, hfields, hread⟩ | ⟨-, hread⟩
    · rw [hread, ofFields_eq_ok_iff] at h
      obtain ⟨hload, hoffset, hcapacity, hzero⟩ := h
      exact ⟨⟨load, offset, capacity, eq_of_fieldTexts hfields, hload, hoffset, hcapacity⟩, hzero⟩
    · rw [hread] at h
      cases h
  · intro h
    obtain ⟨⟨load, offset, capacity, rfl, hload, hoffset, hcapacity⟩, hzero⟩ := h
    have hspelled := fieldTexts_of_spelled hload.colon_not_mem hoffset.colon_not_mem
      hcapacity.colon_not_mem
    rcases ofText_cases (load ++ ":" ++ offset ++ ":" ++ capacity) with
      ⟨p, o, m, hfields, hread⟩ | ⟨hshape, -⟩
    · rw [hspelled] at hfields
      cases hfields
      rw [hread, ofFields_eq_ok_iff]
      exact ⟨hload, hoffset, hcapacity, hzero⟩
    · exact absurd hspelled (hshape load offset capacity)

theorem kind_of_ofText (h : ofText text = .error fault) : fault.kind = .invalidConfiguration := by
  rcases ofText_cases text with ⟨load, offset, capacity, -, hread⟩ | ⟨-, hread⟩
  · rw [hread] at h
    exact kind_of_ofFields h
  · rw [hread] at h
    cases h
    rfl

/-! ## §3. Building the page. -/

/-- A page at this place ends inside the address space and can hold its header. -/
structure Fits (place : Placement) : Prop where
  start : place.load.toNat + place.offset.toNat < 2 ^ 32
  stop : place.load.toNat + place.offset.toNat + place.capacity.toNat ≤ 2 ^ 32
  header : 24 ≤ place.capacity.toNat

theorem Fits.capacity_ne_zero (h : place.Fits) : place.capacity ≠ 0 := by
  intro hzero
  have hheader := h.header
  rw [hzero] at hheader
  exact absurd hheader (by decide)

end Placement

namespace Session

variable {s : Session} {place : Placement} {order : ByteOrder}

/-- A session whose page lies at a place, and holds a header and nothing else. -/
structure Fresh (s : Session) (place : Placement) (order : ByteOrder) : Prop where
  base : s.memory.base.toNat = place.load.toNat + place.offset.toNat
  capacity : s.memory.capacity = place.capacity.toNat
  size : s.memory.size = 24
  order : s.memory.order = order
  header : s.header = ⟨0, 24, place.load, 0, 0, 0⟩
  maps : s.maps = .ok []
  programs : s.programs = .ok []
  aliases : s.aliases = []
  audit : s.audit = .ok ()

theorem create_fresh (h : create place order = .ok s) : s.Fresh place order := by
  have hsound := create_sound h
  obtain ⟨rfl, hbase, -⟩ := create_eq h
  exact ⟨hbase, rfl, rfl, rfl, rfl, hsound.maps_eq, hsound.programs_eq, rfl, hsound.audit_eq⟩

/-- **A page is built wherever it fits.** -/
theorem create_cases (place : Placement) (order : ByteOrder) :
    (place.Fits ∧ ∃ s, create place order = .ok s)
      ∨ (¬ place.Fits ∧ ∃ fault, create place order = .error fault
        ∧ fault.kind = .invalidConfiguration) := by
  have hused : roundUp headerSize = 24 := rfl
  unfold create Memory.create
  simp only [hused]
  split
  · next hstart =>
    have hstart' : 2 ^ 32 ≤ place.load.toNat + place.offset.toNat := hstart
    exact .inr ⟨fun hfits => absurd hfits.start (by omega), _, rfl, rfl⟩
  · next hstart =>
    have hstart' : ¬ 2 ^ 32 ≤ place.load.toNat + place.offset.toNat := hstart
    have hbase : (place.load + place.offset).toNat = place.load.toNat + place.offset.toNat := by
      rw [UInt32.toNat_add]
      omega
    rw [hbase]
    split
    · next hstop =>
      have hstop' : 2 ^ 32 < place.load.toNat + place.offset.toNat + place.capacity.toNat := hstop
      exact .inr ⟨fun hfits => absurd hfits.stop (by omega), _, rfl, rfl⟩
    · next hstop =>
      have hstop' : ¬ 2 ^ 32 < place.load.toNat + place.offset.toNat + place.capacity.toNat := hstop
      split
      · next hheader =>
        exact .inr ⟨fun hfits => absurd hfits.header (by omega), _, rfl, rfl⟩
      · next hheader => exact .inl ⟨⟨by omega, by omega, by omega⟩, _, rfl⟩

/-! ## §4. From the text to the session. -/

/-- The session at the start of a build whose placement is written. -/
def ofText (text : String) (order : ByteOrder) : Except Fault Session := do
  let place ← Placement.ofText text
  create place order

theorem ofText_of_placement {text : String} (h : Placement.ofText text = .ok place) :
    ofText text order = create place order := by
  unfold ofText
  rw [h]
  rfl

/-- What cannot be placed is refused as a whole. -/
theorem ofText_refused {text : String}
    (h : ∀ place : Placement, place.SpelledBy text → ¬ place.Fits) :
    ∃ fault, ofText text order = .error fault ∧ fault.kind = .invalidConfiguration := by
  cases hplace : Placement.ofText text with
  | error fault =>
    refine ⟨fault, ?_, Placement.kind_of_ofText hplace⟩
    unfold ofText
    rw [hplace]
    rfl
  | ok place =>
    obtain ⟨hspelled, -⟩ := Placement.ofText_eq_ok_iff.1 hplace
    rw [ofText_of_placement hplace]
    rcases create_cases place order with ⟨hfits, -⟩ | ⟨-, hfault⟩
    · exact absurd hfits (h place hspelled)
    · exact hfault

/-- **A text gives a session if it is three numbers that place a page, and no other text does.** -/
theorem ofText_exact (text : String) (order : ByteOrder) :
    ((∃ s, ofText text order = .ok s) ↔ ∃ place : Placement, place.SpelledBy text ∧ place.Fits)
      ∧ (∀ place : Placement, place.SpelledBy text → place.Fits →
        ∃ s, ofText text order = .ok s ∧ s.Fresh place order)
      ∧ ((∀ place : Placement, place.SpelledBy text → ¬ place.Fits) →
        ∃ fault, ofText text order = .error fault ∧ fault.kind = .invalidConfiguration) := by
  have hgives : ∀ place : Placement, place.SpelledBy text → place.Fits →
      ∃ s, ofText text order = .ok s ∧ s.Fresh place order := by
    intro place hspelled hfits
    have hplace := Placement.ofText_eq_ok_iff.2 ⟨hspelled, hfits.capacity_ne_zero⟩
    rcases create_cases place order with ⟨-, s, hcreate⟩ | ⟨hnot, -⟩
    · exact ⟨s, (ofText_of_placement hplace).trans hcreate, create_fresh hcreate⟩
    · exact absurd hfits hnot
  refine ⟨⟨?_, ?_⟩, hgives, ofText_refused⟩
  · intro h
    obtain ⟨s, hs⟩ := h
    by_contra hnone
    have hrefused : ∃ fault, ofText text order = .error fault
        ∧ fault.kind = .invalidConfiguration :=
      ofText_refused fun place hspelled hfits => hnone ⟨place, hspelled, hfits⟩
    obtain ⟨fault, hfault, -⟩ := hrefused
    rw [hs] at hfault
    cases hfault
  · intro h
    obtain ⟨place, hspelled, hfits⟩ := h
    obtain ⟨s, hs, -⟩ := hgives place hspelled hfits
    exact ⟨s, hs⟩

/-- A page that ends at the last address, written in three radices. -/
theorem ofText_exact_at_end :
    ∃ place : Placement, place.SpelledBy "0Xfffff000:04000:2048" ∧ place.Fits
      ∧ (∃ s, ofText "0Xfffff000:04000:2048" .big = .ok s ∧ s.Fresh place .big)
      ∧ ∃ fault, ofText "0xfffff000:04000:2048:" .big = .error fault
        ∧ fault.kind = .invalidConfiguration := by
  have hspelled : (⟨0xfffff000, 0x800, 2048⟩ : Placement).SpelledBy "0Xfffff000:04000:2048" :=
    ⟨"0Xfffff000", "04000", "2048", rfl, parseWord_eq_ok_iff.1 (by decide),
      parseWord_eq_ok_iff.1 (by decide), parseWord_eq_ok_iff.1 (by decide)⟩
  have hfits : (⟨0xfffff000, 0x800, 2048⟩ : Placement).Fits := ⟨by decide, by decide, by decide⟩
  refine ⟨_, hspelled, hfits, (ofText_exact _ .big).2.1 _ hspelled hfits, ?_⟩
  apply (ofText_exact _ .big).2.2
  intro place hplace _
  -- there are three colons in the text, and none in a number
  obtain ⟨load, offset, capacity, htext, hload, hoffset, hcapacity⟩ := hplace
  have hfields := Placement.fieldTexts_of_spelled hload.colon_not_mem hoffset.colon_not_mem
    hcapacity.colon_not_mem
  have hlength : (Text.fieldTexts ':' "0xfffff000:04000:2048:").length = 4 := by decide
  rw [htext, hfields] at hlength
  cases hlength

-- one byte more than there are addresses, and one byte less than the header takes
example : (ofText "0xfffff000:0x800:0x801" .little, ofText "0:0:23" .little)
    = (.error (.endOutside 0x801 0xfffff800), .error (.headerTooLarge 23 24)) := by decide

end Session
end SystemPage
