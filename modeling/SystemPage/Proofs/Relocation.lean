/-
  SystemPage.Proofs.Relocation — what the place of a page decides.

  A page is full of addresses of its own, and nobody adjusts them once it is built.  So whoever
  builds it further into the image gets another page, but only as far as these addresses go: those
  of the heads in the header, of the neighbours of a record and of what its fields lead to.  Each of
  them has moved as far as the page, unless it is 0 because there is nothing to lead to.  All that
  can be asked for and every other byte of the page is the same.

  Main results:

      Twins.relocates  — what of two pages shows that they lie apart
      create_twins     — pages that may grow as large and belong to images at the same place
      run_relocates    — a page in either place, after any number of requests
-/
import SystemPage.Proofs.Orders

namespace SystemPage

open Memory SystemPage.Ring

/-! ## §1. Relocated pages. -/

/-- The bytes of two pages that are the same apart from the words at some places.  These are 0 in
both or a distance apart. -/
structure Relocated (order : ByteOrder) (shift : UInt32) (pointers : List Nat)
    (bytes moved : List UInt8) : Prop where
  length : moved.length = bytes.length
  words : ∀ place ∈ pointers, ∃ word word', (bytes.drop place).take 4 = order.encode word
    ∧ (moved.drop place).take 4 = order.encode word' ∧ Moved shift word word'
  others : ∀ k, ¬ InWord pointers k → moved[k]? = bytes[k]?

/-- The same map in a page some distance away. -/
def AddressMap.relocate (shift : UInt32) (map : AddressMap) : AddressMap :=
  { map with address := map.address + shift }

/-- The same program in a page some distance away. -/
def Program.relocate (shift : UInt32) (p : Program) : Program :=
  { p with address := p.address + shift }

namespace Session

/-- The places of the addresses in the header and in the given records, in a page that starts at an
address. -/
def pointerPlaces (base : UInt32) (maps : List AddressMap) (programs : List Program) : List Nat :=
  Header.pointerFields
    ++ maps.flatMap (fun map =>
      AddressMap.pointerFields.map (map.address.toNat - base.toNat + ·))
    ++ programs.flatMap fun p => Program.pointerFields.map (p.address.toNat - base.toNat + ·)

/-- Two sessions with the same content, whose pages lie a distance apart. -/
structure Relocates (shift : UInt32) (s t : Session) : Prop where
  header : t.header = { s.header with mapHead := t.mapHead, programHead := t.programHead }
  mapHead : Moved shift s.mapHead t.mapHead
  programHead : Moved shift s.programHead t.programHead
  aliases : t.aliases = s.aliases
  maps : ∃ maps, s.maps = .ok maps ∧ t.maps = .ok (maps.map (AddressMap.relocate shift))
  programs : ∃ programs, s.programs = .ok programs
    ∧ t.programs = .ok (programs.map (Program.relocate shift))
  mapId : ∀ name, t.mapId name = s.mapId name
  perform : ∀ op, (Edit.outcome (Operation.perform op) t).1
    = (Edit.outcome (Operation.perform op) s).1
  performWords : ∀ words, (Edit.outcome (Script.performWords words) t).1
    = (Edit.outcome (Script.performWords words) s).1
  insertMap : ∀ name start stop access,
    (Edit.outcome (insertMap name start stop access) t).1
      = (Edit.outcome (insertMap name start stop access) s).1.map (AddressMap.relocate shift)
  insertProgram : ∀ payload instructionMaps dataMaps argv atOnce,
    (Edit.outcome (insertProgram payload instructionMaps dataMaps argv atOnce) t).1
      = (Edit.outcome (insertProgram payload instructionMaps dataMaps argv atOnce) s).1.map
        (Program.relocate shift)
  page : ∃ maps programs bytes moved, s.maps = .ok maps ∧ s.programs = .ok programs
    ∧ (Edit.outcome complete s).1 = .ok bytes ∧ (Edit.outcome complete t).1 = .ok moved
    ∧ Relocated s.memory.order shift (pointerPlaces s.memory.base maps programs) bytes moved

end Session

/-! ## §2. Edits with answers that have moved. -/

/-- Edits that finish with answers in step come to what is in step. -/
theorem Edit.Abreast.outcome_map {σ τ α β : Type} {edit : Edit σ α} {edit' : Edit τ β} {s : σ}
    {t : τ} {stopped : σ → τ → Prop} {finished : α → σ → β → τ → Prop} (f : α → β)
    (h : Edit.Abreast stopped finished (edit s) (edit' t))
    (hanswer : ∀ a after b after', finished a after b after' → b = f a) :
    (Edit.outcome edit' t).1 = (Edit.outcome edit s).1.map f := by
  rcases h.cases with ⟨a, after, b, after', hs, ht, hfinished⟩ | ⟨fault, after, after', hs, ht, -⟩
  · rw [Edit.outcome, Edit.outcome, hs, ht, hanswer a after b after' hfinished]
    rfl
  · rw [Edit.outcome, Edit.outcome, hs, ht]
    rfl

/-! ## §3. Pages in different places. -/

/-- What a page holds at a place is what its bytes are there. -/
theorem Memory.HoldsWord.take_drop {m : Memory} {place : Nat} {word : UInt32}
    (h : m.HoldsWord place word) : (m.bytes.drop place).take 4 = m.order.encode word := by
  obtain ⟨behind, hdrop⟩ := Memory.Holds.exists_drop h
  rw [hdrop]
  exact List.take_left' (ByteOrder.length_encode m.order word)

/-- A word that two pages in the same order hold consists of the same bytes. -/
theorem Memory.BothHold.getElem?_eq {m t : Memory} {place k : Nat} (h : BothHold m t place)
    (horder : t.order = m.order) (hk : InRange place 4 k) : t.bytes[k]? = m.bytes[k]? := by
  obtain ⟨word, hword, hword'⟩ := h
  have hat : ∀ p : Memory, p.bytes[k]? = ((p.bytes.drop place).take 4)[k - place]? := by
    intro p
    have hk' := hk.1
    have hlt : k - place < 4 := by
      have := hk.2
      omega
    rw [List.getElem?_take, if_pos hlt, List.getElem?_drop, Nat.add_sub_cancel' hk']
  rw [hat t, hat m, HoldsWord.take_drop hword, HoldsWord.take_drop hword', horder]

/-- **Completed pages that differ in words are relocated**, as soon as their orders agree. -/
theorem Memory.Twin.relocated {m t : Memory} {words pointers : List Nat}
    (h : Twin (InWord words) m t) (hwords : WordsAbreast m t words pointers)
    (horder : t.order = m.order) :
    Relocated m.order (t.base - m.base) pointers m.bytes t.bytes := by
  refine ⟨?_, ?_, ?_⟩
  · rw [length_bytes, length_bytes]
    exact h.size
  · intro place hplace
    obtain ⟨word, word', hword, hword', hmoved⟩ := hwords.point place hplace
    exact ⟨word, word', HoldsWord.take_drop hword,
      horder ▸ HoldsWord.take_drop hword', hmoved⟩
  · intro k hk
    by_cases hin : InWord words k
    · -- the word is none of the addresses, so both pages hold it
      obtain ⟨place, hplace, hk'⟩ := hin
      have hplain : place ∉ pointers := fun hp => hk ⟨place, hp, hk'⟩
      exact (hwords.hold place hplace hplain).getElem?_eq horder hk'
    · rw [getElem?_bytes, getElem?_bytes, h.size, h.same k hin]

namespace Session

/-- The records that are read back tell where the addresses of a page are. -/
theorem Sound.pointerPlaces_eq {s : Session} {inv : Inventory} (h : s.Sound inv) :
    pointerPlaces s.memory.base (inv.maps.map (MapEntry.map s.memory))
      (inv.programs.map (ProgramEntry.program s.memory)) = inv.pointerPlaces := by
  obtain ⟨hmaps, hprograms⟩ := h.fieldPlaces_eq AddressMap.pointerFields Program.pointerFields
  rw [pointerPlaces, hmaps, hprograms, Inventory.pointerPlaces]

namespace Twins

variable {inv : Inventory} {s t : Session}

/-- What is read back has moved as far as the page. -/
theorem records_relocate (h : Twins inv s t) :
    (∃ maps, s.maps = .ok maps
      ∧ t.maps = .ok (maps.map (AddressMap.relocate (t.memory.base - s.memory.base))))
    ∧ ∃ programs, s.programs = .ok programs
      ∧ t.programs = .ok (programs.map (Program.relocate (t.memory.base - s.memory.base))) := by
  refine ⟨⟨_, h.sound.maps_eq, ?_⟩, ⟨_, h.sound.programs_eq, ?_⟩⟩
  · rw [h.soundTwin.maps_eq, List.map_map]
    congr 2
    funext e
    show MapEntry.map t.memory e = _
    rw [MapEntry.map, address_shift s.memory t.memory]
    rfl
  · rw [h.soundTwin.programs_eq, List.map_map]
    congr 2
    funext e
    show ProgramEntry.program t.memory e = _
    rw [ProgramEntry.program, address_shift s.memory t.memory]
    rfl

/-- **What of two pages shows that they lie apart.** -/
theorem relocates (h : Twins inv s t) (horder : t.memory.order = s.memory.order) :
    Relocates (t.memory.base - s.memory.base) s t where
  header := by
    simp only [Session.header, h.imageSize, h.pages.size, h.load, h.console]
  mapHead := h.moved_heads.1
  programHead := h.moved_heads.2
  aliases := h.aliases
  maps := h.records_relocate.1
  programs := h.records_relocate.2
  mapId := h.mapId_eq
  perform := fun op => (h.perform_abreast op).outcome_eq fun _ _ _ _ _ => rfl
  performWords := fun words => (h.performWords_abreast words).outcome_eq fun _ _ _ _ _ => rfl
  insertMap := fun name start stop access =>
    (h.insertMap_abreast name start stop access).outcome_map _ fun a _ b _ hanswer => by
      rw [hanswer.2.2, AddressMap.relocate, hanswer.2.1, ← address_shift]
  insertProgram := fun payload instructionMaps dataMaps argv atOnce =>
    (h.insertProgram_abreast payload instructionMaps dataMaps argv atOnce).outcome_map _
      fun a _ b _ hanswer => by
        rw [hanswer.2.2, Program.relocate, hanswer.2.1, ← address_shift]
  page := by
    obtain ⟨after, after', hcomplete, hcomplete', hplace, hplace', hheader, hheader', hafter⟩ :=
      h.complete_abreast
    refine ⟨_, _, after.memory.bytes, after'.memory.bytes, h.sound.maps_eq, h.sound.programs_eq,
      ?_, ?_, ?_⟩
    · rw [Edit.outcome, hcomplete]
    · rw [Edit.outcome, hcomplete']
    have horder' : after'.memory.order = after.memory.order := by
      rw [hplace.order, hplace'.order, horder]
    have hrelocated := hafter.pages.relocated (hafter.words_abreast hheader hheader') horder'
    rw [hplace.order, hplace.base, hplace'.base] at hrelocated
    rw [h.sound.pointerPlaces_eq]
    exact hrelocated

end Twins

/-- Pages that may grow as large, of images that are loaded at the same address, start alike. -/
theorem create_twins {place place' : Placement} {order order' : ByteOrder} {s t : Session}
    (h : Session.create place order = .ok s) (h' : Session.create place' order' = .ok t)
    (hload : place'.load = place.load) (hcapacity : place'.capacity = place.capacity) :
    Twins ⟨[], []⟩ s t := by
  have hsound := create_sound h
  have hsound' := create_sound h'
  obtain ⟨rfl, -, hproper⟩ := create_eq h
  obtain ⟨rfl, -, hproper'⟩ := create_eq h'
  exact ⟨hsound, hsound', ⟨hproper, hproper', rfl, congrArg UInt32.toNat hcapacity, fun _ _ => rfl⟩,
    hload, rfl, rfl, rfl⟩

/-- **A page in either place, after any number of requests.** -/
theorem run_relocates {load offset offset' capacity : UInt32} {order : ByteOrder} {s t : Session}
    (h : Session.create ⟨load, offset, capacity⟩ order = .ok s)
    (h' : Session.create ⟨load, offset', capacity⟩ order = .ok t) (ops : List Operation) :
    Relocates (offset' - offset) (s.run ops) (t.run ops) := by
  have hsound := create_sound h
  have hsound' := create_sound h'
  have hplace := hsound.run_samePlace ops
  have hplace' := hsound'.run_samePlace ops
  obtain ⟨inv, hrun⟩ := (create_twins h h' rfl rfl).run ops
  obtain ⟨rfl, -, -⟩ := create_eq h
  obtain ⟨rfl, -, -⟩ := create_eq h'
  have hrelocates := hrun.relocates (hplace'.order.trans hplace.order.symm)
  rw [hplace.base, hplace'.base] at hrelocates
  have hshift : load + offset' - (load + offset) = offset' - offset := by grind
  rw [hshift] at hrelocates
  exact hrelocates

/-- A page that is moved to a lower address, so that the distance wraps around.  Of its maps one is
refused, and there are a program and a line that is none. -/
theorem run_relocates_down :
    ∃ s t, Session.create ⟨0x1000, 0x800, 0x400⟩ .little = .ok s
      ∧ Session.create ⟨0x1000, 0x100, 0x400⟩ .little = .ok t
      ∧ Relocates 0xfffff900
        (s.run [.command (.payload "psh" 0x400 0x80), .command (.map "ddr" 0x100 0x200 3),
          .command (.map "tcm" 0x180 0x280 3), .command (.map "oct" 0x200 0x280 3),
          .command (.foreign "kernel"),
          .command (.program "psh" "ddr" "ddr;oct" "psh;-v" true)])
        (t.run [.command (.payload "psh" 0x400 0x80), .command (.map "ddr" 0x100 0x200 3),
          .command (.map "tcm" 0x180 0x280 3), .command (.map "oct" 0x200 0x280 3),
          .command (.foreign "kernel"),
          .command (.program "psh" "ddr" "ddr;oct" "psh;-v" true)]) := by
  have hs : Session.create ⟨0x1000, 0x800, 0x400⟩ .little
      = .ok ⟨⟨0x1800, 0x400, .little, 24, .blank⟩, 0x1000, 0, 0, 0, 0, []⟩ := rfl
  have ht : Session.create ⟨0x1000, 0x100, 0x400⟩ .little
      = .ok ⟨⟨0x1100, 0x400, .little, 24, .blank⟩, 0x1000, 0, 0, 0, 0, []⟩ := rfl
  have hshift : (0x100 : UInt32) - 0x800 = 0xfffff900 := by decide
  exact ⟨_, _, hs, ht, hshift ▸ run_relocates hs ht _⟩

end Session
end SystemPage
