/-
  SystemPage.Proofs.Alignment — the addresses that are handed out, modulo the alignment.

  Blocks are laid at multiples of the alignment, counted from the base of the page.  What the target
  sees is the base and the distance together.  Nothing asks of a placement that the base is such a
  multiple too; so all addresses of a page leave the same remainder as its base does.  They are
  multiples of the alignment in a page whose base is one, and none of them is in any other page.

  The addresses that a page stores are those of its records and of the blocks behind them.  The
  inventory of a session knows their places, and every request that is granted adds places at
  multiples of the alignment to it.

  Main results:

      blockNotes_mod   — the blocks of a command
      after_aligned    — the places of an inventory stay multiples of the alignment
      run_congruent    — all addresses of a page leave the remainder of its base
      run_not_aligned  — a page whose base is no multiple of the alignment
-/
import SystemPage.Journal
import SystemPage.Proofs.Allocation
import SystemPage.Proofs.Runs

namespace SystemPage

open Memory

/-! ## §1. Blocks. -/

namespace Memory

/-- An address at a multiple of the alignment from the base leaves the remainder of the base. -/
theorem address_mod {m : Memory} {place : Nat} (h : m.base.toNat + place < addressSpace)
    (hplace : place % alignment = 0) :
    (m.address place).toNat % alignment = m.base.toNat % alignment := by
  rw [toNat_address h, Nat.add_mod, hplace, Nat.add_zero, Nat.mod_mod]

theorem Allots.address_mod {m after : Memory} {blocks : List Block} (h : m.Allots blocks after)
    {b : Block} (hb : b ∈ blocks) :
    b.address.toNat % alignment = m.base.toNat % alignment := by
  have ha : (b.address.toNat - m.base.toNat) % 8 = 0 := h.aligned b hb
  have hle := h.start b hb
  show b.address.toNat % 8 = m.base.toNat % 8
  omega

end Memory

/-- The blocks that are told of when they are added one after the other. -/
theorem Script.blockNotes_mod {m : Memory} (hm : m.Proper) {sizes : List Nat} {size : Nat}
    {address : UInt32} (h : Note.reserved size address ∈ Script.blockNotes m sizes) :
    address.toNat % alignment = m.base.toNat % alignment := by
  induction sizes generalizing m with
  | nil => simp [Script.blockNotes] at h
  | cons first rest ih =>
    unfold Script.blockNotes at h
    by_cases hfit : m.size + roundUp first < m.capacity
    · rw [reserve_eq hm hfit] at h
      rcases List.mem_cons.1 h with heq | h
      · cases heq
        exact address_mod (hm.address_lt (by omega)) hm.aligned
      · have hrest := ih (hm.grow hfit) h
        exact hrest
    · rw [reserve_of_le hm (Nat.le_of_not_lt hfit)] at h
      cases h

/-- The blocks that a command adds, those before a failure too. -/
theorem Script.commandNotes_mod {s : Session} (hm : s.memory.Proper) {c : Script.Command}
    {size : Nat} {address : UInt32} (h : Note.reserved size address ∈ Script.commandNotes s c) :
    address.toNat % alignment = s.memory.base.toNat % alignment := by
  cases c with
  | payload name place length =>
    simp only [Script.commandNotes] at h
    split at h <;> simp at h
  | map name start stop access =>
    simp only [Script.commandNotes] at h
    split at h
    · cases h
    · rcases List.mem_append.1 h with h | h
      · exact blockNotes_mod hm h
      · split at h <;> simp at h
  | program payload instructionMaps dataMaps argv atOnce =>
    simp only [Script.commandNotes] at h
    split at h
    · cases h
    · rcases List.mem_append.1 h with h | h
      · exact blockNotes_mod hm h
      · split at h <;> simp at h
  | console token => cases h
  | foreign name => simp [Script.commandNotes] at h

/-! ## §2. The places of an inventory. -/

/-- A map whose record and name lie at multiples of the alignment. -/
structure MapEntry.Aligned (e : MapEntry) : Prop where
  place : e.place % alignment = 0
  namePlace : e.namePlace % alignment = 0

/-- A program whose record and blocks lie at multiples of the alignment. -/
structure ProgramEntry.Aligned (e : ProgramEntry) : Prop where
  place : e.place % alignment = 0
  dataPlace : e.dataPlace % alignment = 0
  instructionPlace : e.instructionPlace % alignment = 0
  argvPlace : e.argvPlace % alignment = 0

structure Inventory.Aligned (inv : Inventory) : Prop where
  maps : ∀ e ∈ inv.maps, e.Aligned
  programs : ∀ e ∈ inv.programs, e.Aligned

namespace Inventory.Aligned

variable {inv : Inventory}

theorem addMap (h : inv.Aligned) {e : MapEntry} (he : e.Aligned) :
    ({ inv with maps := inv.maps ++ [e] } : Inventory).Aligned where
  maps := by
    intro a ha
    rcases List.mem_append.1 ha with ha | ha
    · exact h.maps a ha
    · rw [List.mem_singleton.1 ha]
      exact he
  programs := h.programs

theorem addProgram (h : inv.Aligned) {e : ProgramEntry} (he : e.Aligned) :
    ({ inv with programs := inv.programs ++ [e] } : Inventory).Aligned where
  maps := h.maps
  programs := by
    intro a ha
    rcases List.mem_append.1 ha with ha | ha
    · exact h.programs a ha
    · rw [List.mem_singleton.1 ha]
      exact he

end Inventory.Aligned

theorem roundUp_mod (n : Nat) : roundUp n % alignment = 0 := Nat.mul_mod_left _ _

/-- A planned program lies at multiples of the alignment, in a page that ends at one. -/
theorem Program.Plan.entry_aligned {m : Memory} (hm : m.Proper) (plan : Plan) :
    (plan.entry m).Aligned := by
  have hsize : m.size % 8 = 0 := hm.aligned
  have hdata : roundUp plan.dataMaps.length % 8 = 0 := roundUp_mod _
  have hinstructions : roundUp plan.instructionMaps.length % 8 = 0 := roundUp_mod _
  refine ⟨hsize, ?_, ?_, ?_⟩
  · show (m.size + 40) % 8 = 0
    omega
  · show (m.size + 40 + roundUp plan.dataMaps.length) % 8 = 0
    omega
  · show (m.size + 40 + roundUp plan.dataMaps.length + roundUp plan.instructionMaps.length) % 8 = 0
    omega

namespace Session.Sound

variable {s : Session} {inv : Inventory}

/-- What a step keeps: its base, and that it holds an inventory of such places. -/
abbrev KeepsAligned (s after : Session) : Prop :=
  ∃ more, after.Sound more ∧ more.Aligned ∧ after.memory.base = s.memory.base

theorem insertMap_aligned (h : s.Sound inv) (hi : inv.Aligned) (name : String)
    (start stop access : UInt32) :
    s.Settles (insertMap name start stop access) fun _ after => KeepsAligned s after := by
  have hsize : s.memory.size % 8 = 0 := h.arranged.proper.aligned
  rcases h.freshMapId_cases name start stop with ⟨fault, hfresh, he⟩ | ⟨id, hfresh, hid, hfree⟩
  · exact .inl ⟨fault, s, insertMap_of_error hfresh access, .earned he⟩
  · by_cases hfit : s.memory.size + ((AddressMap.blockSizes name).map roundUp).sum
      < s.memory.capacity
    · obtain ⟨memory, head, hinsert, -, hframe, hsound⟩ :=
        h.insertMap_of_lt hfresh hid hfree access hfit
      refine .inr ⟨_, _, hinsert, _, hsound, hi.addMap ⟨hsize, ?_⟩, hframe.base⟩
      show (s.memory.size + 32) % 8 = 0
      omega
    · obtain ⟨fault, memory, hinsert, hkind, he, hmemory⟩ :=
        h.insertMap_of_le hfresh access (Nat.le_of_not_lt hfit)
      exact .inl ⟨fault, _, hinsert, .full hkind he hmemory⟩

theorem insertProgram_aligned (h : s.Sound inv) (hi : inv.Aligned)
    (payload instructionMaps dataMaps argv : String) (atOnce : Bool) :
    s.Settles (insertProgram payload instructionMaps dataMaps argv atOnce) fun _ after =>
      KeepsAligned s after := by
  rcases h.planProgram_cases payload instructionMaps dataMaps argv atOnce with
    ⟨fault, hplan, he⟩ | ⟨plan, hplan, -, hinstructions, hdata, -⟩
  · exact .inl ⟨fault, s, insertProgram_of_error hplan, .earned he⟩
  · by_cases hfit : s.memory.size + (plan.blockSizes.map roundUp).sum < s.memory.capacity
    · obtain ⟨memory, head, hinsert, -, hframe, hsound⟩ :=
        h.insertProgram_of_lt hplan hinstructions hdata hfit
      exact .inr ⟨_, _, hinsert, _, hsound, hi.addProgram (plan.entry_aligned h.arranged.proper),
        hframe.base⟩
    · obtain ⟨fault, memory, hinsert, hkind, he, hmemory⟩ :=
        h.insertProgram_of_le hplan (Nat.le_of_not_lt hfit)
      exact .inl ⟨fault, _, hinsert, .full hkind he hmemory⟩

/-- Only maps and programs add places to an inventory. -/
theorem perform_aligned (h : s.Sound inv) (hi : inv.Aligned) (op : Operation) :
    s.Settles op.perform fun _ after => KeepsAligned s after := by
  match op with
  | .command (.map name start stop access) =>
    exact (h.insertMap_aligned hi name start stop access).discard
  | .command (.program payload instructionMaps dataMaps argv atOnce) =>
    exact (h.insertProgram_aligned hi payload instructionMaps dataMaps argv atOnce).discard
  | .command (.payload ..) | .command (.console _) | .command (.foreign _) =>
    refine (h.perform_settles _).imp id ?_
    rintro ⟨a, after, he, more, hsound, hg⟩
    cases hg
    exact ⟨a, _, he, inv, hsound, hi, rfl⟩
  | .complete =>
    refine (h.perform_settles _).imp id ?_
    rintro ⟨a, after, he, more, hsound, hg⟩
    cases hg with
    | complete _ hframe => exact ⟨a, _, he, inv, hsound, hi, hframe.base⟩

/-- **The places of an inventory stay multiples of the alignment**, whether a request is granted or
not. -/
theorem after_aligned (h : s.Sound inv) (hi : inv.Aligned) (op : Operation) :
    KeepsAligned s (s.after op) := by
  rcases h.perform_aligned hi op with ⟨fault, after, he, hr⟩ | ⟨a, after, he, hkeeps⟩
  · rw [Session.after, Edit.outcome, he]
    refine ⟨inv, hr.sound h, hi, ?_⟩
    cases hr with
    | earned => rfl
    | full _ hextends => exact hextends.base
  · rw [Session.after, Edit.outcome, he]
    exact hkeeps

theorem run_aligned (h : s.Sound inv) (hi : inv.Aligned) (ops : List Operation) :
    KeepsAligned s (s.run ops) := by
  induction ops generalizing s inv with
  | nil => exact ⟨inv, h, hi, rfl⟩
  | cons op rest ih =>
    show KeepsAligned s ((s.after op).run rest)
    obtain ⟨more, hsound, haligned, hbase⟩ := h.after_aligned hi op
    obtain ⟨last, hlast, hlast', hbase'⟩ := ih hsound haligned
    exact ⟨last, hlast, hlast', hbase'.trans hbase⟩

end Session.Sound

/-! ## §3. Stored addresses. -/

/-- A word of a page that can be read, and is an address that leaves a given remainder. -/
def Memory.LeadsCongruent (m : Memory) (rest : Nat) (field : UInt32) : Prop :=
  ∃ target, m.readWord field = .ok target ∧ target.toNat % alignment = rest

namespace Session

/-- A session in which all addresses leave the same remainder: those of the blocks that were or
could be added, and those that are stored. -/
structure Congruent (s : Session) (rest : Nat) : Prop where
  -- whatever is asked for
  blocks : ∀ sizes, ∀ b ∈ s.memory.granted sizes, b.address.toNat % alignment = rest
  -- what a command adds
  notes : ∀ c size address, Note.reserved size address ∈ Script.commandNotes s c →
    address.toNat % alignment = rest
  maps : ∃ maps, s.maps = .ok maps ∧ ∀ map ∈ maps, map.address.toNat % alignment = rest
    ∧ s.memory.LeadsCongruent rest (map.address + AddressMap.nameField)
  programs : ∃ programs, s.programs = .ok programs
    ∧ ∀ p ∈ programs, p.address.toNat % alignment = rest
      ∧ ∀ field ∈ [Program.argvField, Program.instructionMapsField, Program.dataMapsField],
        s.memory.LeadsCongruent rest (p.address + field)

namespace Sound

variable {s : Session} {inv : Inventory}

theorem map_congruent (h : s.Sound inv) (hi : inv.Aligned) {e : MapEntry} (he : e ∈ inv.maps) :
    (e.map s.memory).address.toNat % alignment = s.memory.base.toNat % alignment
      ∧ s.memory.LeadsCongruent (s.memory.base.toNat % alignment)
        ((e.map s.memory).address + AddressMap.nameField) := by
  have hheld := h.held_map he
  simp only [HoldsAll, MapEntry.pieces, List.forall_mem_cons] at hheld
  obtain ⟨-, -, hpointer, hname, -⟩ := hheld
  have hplace : s.memory.base.toNat + e.place < addressSpace :=
    Nat.lt_of_le_of_lt (by omega) hpointer.addressed
  have hread := Holds.readWord hpointer
  refine ⟨address_mod hplace (hi.maps e he).place, s.memory.address e.namePlace, ?_,
    address_mod hname.addressed (hi.maps e he).namePlace⟩
  show s.memory.readWord (s.memory.address e.place + UInt32.ofNat 28) = _
  rw [address_add]
  exact hread

theorem program_congruent (h : s.Sound inv) (hi : inv.Aligned) {e : ProgramEntry}
    (he : e ∈ inv.programs) :
    (e.program s.memory).address.toNat % alignment = s.memory.base.toNat % alignment
      ∧ ∀ field ∈ [Program.argvField, Program.instructionMapsField, Program.dataMapsField],
        s.memory.LeadsCongruent (s.memory.base.toNat % alignment)
          ((e.program s.memory).address + field) := by
  have hm := h.arranged.proper
  obtain ⟨hheld, -, -⟩ := h.held_program he
  have haligned := hi.programs e he
  simp only [HoldsAll, ProgramEntry.pieces, List.forall_mem_cons] at hheld
  obtain ⟨hwords, hdata, hinstructions, hargv, -⟩ := hheld
  have hplace : s.memory.base.toNat + e.place < addressSpace :=
    Nat.lt_of_le_of_lt (by omega) hwords.addressed
  have hfield : ∀ i place, (e.words s.memory)[i]? = some (s.memory.address place) →
      s.memory.base.toNat + place < addressSpace → place % alignment = 0 →
      s.memory.LeadsCongruent (s.memory.base.toNat % alignment)
        (s.memory.address e.place + UInt32.ofNat (8 + 4 * i)) := by
    intro i place hi ha hp
    refine ⟨s.memory.address place, ?_, address_mod ha hp⟩
    rw [address_add, ← Nat.add_assoc]
    exact (hwords.word hm hi).readWord
  refine ⟨address_mod hplace haligned.place, ?_⟩
  intro field hmem
  simp only [List.mem_cons, List.not_mem_nil, or_false] at hmem
  rcases hmem with rfl | rfl | rfl
  · exact hfield 2 e.argvPlace rfl hargv.addressed haligned.argvPlace
  · exact hfield 4 e.instructionPlace rfl hinstructions.addressed haligned.instructionPlace
  · exact hfield 6 e.dataPlace rfl hdata.addressed haligned.dataPlace

/-- A sound session whose places are multiples of the alignment leaves the remainder of its base. -/
theorem congruent (h : s.Sound inv) (hi : inv.Aligned) :
    s.Congruent (s.memory.base.toNat % alignment) where
  blocks := fun sizes _ hb => (granted_spec h.arranged.proper sizes).address_mod hb
  notes := fun _ _ _ hnote => Script.commandNotes_mod h.arranged.proper hnote
  maps := by
    refine ⟨_, h.maps_eq, ?_⟩
    intro map hmap
    obtain ⟨e, he, rfl⟩ := List.mem_map.1 hmap
    exact h.map_congruent hi he
  programs := by
    refine ⟨_, h.programs_eq, ?_⟩
    intro p hp
    obtain ⟨e, he, rfl⟩ := List.mem_map.1 hp
    exact h.program_congruent hi he

end Sound

/-- **All addresses of a page leave the remainder of its base**: those of all blocks that the
commands of a run are granted, and all that are stored in the records.  In a page whose base is a
multiple of the alignment they are such multiples themselves. -/
theorem run_congruent {place : Placement} {order : ByteOrder} {start : Session}
    (h : Session.create place order = .ok start) (ops : List Operation) :
    (start.run ops).Congruent ((place.load.toNat + place.offset.toNat) % 8) := by
  obtain ⟨heq, hbase, -⟩ := create_eq h
  have hstart : start.memory.base = place.load + place.offset := by
    rw [heq]
  have hempty : (⟨[], []⟩ : Inventory).Aligned := ⟨by simp, by simp⟩
  obtain ⟨inv, hsound, haligned, hkept⟩ := (create_sound h).run_aligned hempty ops
  have hcongruent := hsound.congruent haligned
  rwa [hkept, hstart, hbase] at hcongruent

/-- A map and a program that refers to it, in a page at address 4. -/
theorem run_congruent_four :
    ∃ start, Session.create ⟨0, 4, 4096⟩ .little = .ok start
      ∧ (start.run [.command (.map "ddr" 0 0x1000 3), .command (.payload "psh" 0x1000 0x200),
        .command (.program "psh" "ddr" "ddr" "psh" true), .complete]).Congruent 4 := by
  have hstart : ∃ start, Session.create ⟨0, 4, 4096⟩ .little = .ok start := ⟨_, rfl⟩
  obtain ⟨start, hstart⟩ := hstart
  exact ⟨start, hstart, run_congruent hstart _⟩

/-- **Not every page that is accepted has its records at multiples of the alignment.**  In the page
at address 4 the record of the first map lies at address 28. -/
theorem run_not_aligned :
    ¬ ∀ (place : Placement) (order : ByteOrder) (start : Session) (ops : List Operation)
      (maps : List AddressMap), Session.create place order = .ok start →
      (start.run ops).maps = .ok maps → ∀ map ∈ maps, map.address.toNat % 8 = 0 := by
  intro h
  have hstart : Session.create ⟨0, 4, 4096⟩ .little
      = .ok ⟨⟨4, 4096, .little, 24, .blank⟩, 0, 0, 0, 0, 0, []⟩ := rfl
  have hmaps : (run ⟨⟨4, 4096, .little, 24, .blank⟩, 0, 0, 0, 0, 0, []⟩
      [.command (.map "ddr" 0 0x1000 3)]).maps = .ok [⟨28, 0, "ddr", 0, 0x1000, 3, 0⟩] := by
    decide +kernel
  have haddress := h _ _ _ _ _ hstart hmaps ⟨28, 0, "ddr", 0, 0x1000, 3, 0⟩ (by simp)
  revert haddress
  decide

end Session
end SystemPage
