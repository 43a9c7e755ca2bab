/-
  SystemPage.Proofs.Legible — which records can be read, whatever a page holds.

  `Records` shows that a record that was put into a page is read as it was put there.  Here a record
  may lie at any address and lead anywhere.  What matters then is where things lie and not how they
  are read: the record itself has to lie in the reserved part of the page, the texts it leads to
  have to end there, and the ids have to lie there, as many as the record says.

  The address of a field is the sum of two words.  A record that lies in the page has all its fields
  there.  The converse needs that no such sum wraps around, since a field of a record at the end of
  the address space could be read at its beginning.

  Main results:

      read_eq_ok_iff, exists_readText_iff
                     — bytes are read where they lie, texts where they end
      mapAt_iff      — a map can be read where its record lies and its name ends
      programAt_iff  — a program, where its argument text ends and its ids lie besides
-/
import SystemPage.Audit
import SystemPage.Proofs.Circles
import SystemPage.Proofs.Commands

namespace SystemPage

open Edit

/-! ## §1. Places in a page. -/

namespace Memory

/-- As many addresses, from one on, lie in the reserved part of the page. -/
def Covers (m : Memory) (address : UInt32) (length : Nat) : Prop :=
  m.base.toNat ≤ address.toNat ∧ address.toNat + length ≤ m.base.toNat + m.size

/-- Bytes lie at an address, all of them in the reserved part of the page. -/
def BytesAt (m : Memory) (address : UInt32) (bytes : List UInt8) : Prop :=
  m.base.toNat ≤ address.toNat ∧ m.Holds (address.toNat - m.base.toNat) bytes

/-- A zero byte ends the text at an address, before the page ends. -/
def Ended (m : Memory) (address : UInt32) : Prop :=
  m.base.toNat ≤ address.toNat
    ∧ ∃ stop, address.toNat ≤ m.base.toNat + stop ∧ stop < m.size ∧ m.cells.get stop = 0

variable {m : Memory} {address field word : UInt32} {length : Nat} {bytes : List UInt8}

theorem BytesAt.covers (h : m.BytesAt address bytes) : m.Covers address bytes.length := by
  have hbase := h.1
  have hin := h.2.inside
  exact ⟨hbase, by omega⟩

theorem WordAt.covers (h : m.WordAt address word) : m.Covers address 4 := by
  have hbytes : m.BytesAt address (m.order.encode word) := h
  have hcovers := hbytes.covers
  rwa [ByteOrder.length_encode] at hcovers

/-- Something lies wherever the page reaches. -/
theorem Covers.exists_bytesAt (h : m.Covers address length) :
    ∃ bytes, bytes.length = length ∧ m.BytesAt address bytes := by
  have hlt : address.toNat < 2 ^ 32 := address.toNat_lt
  obtain ⟨hbase, hin⟩ := h
  refine ⟨m.cells.slice (address.toNat - m.base.toNat) length, Cells.length_slice _ _ _, hbase,
    show _ < 2 ^ 32 by omega, ?_, ?_⟩
  · rw [Cells.length_slice]
    omega
  · rw [Cells.length_slice]

theorem Covers.exists_wordAt (h : m.Covers address 4) : ∃ word, m.WordAt address word := by
  obtain ⟨bytes, hlength, hbytes⟩ := h.exists_bytesAt
  refine ⟨m.order.decode bytes, ?_⟩
  unfold WordAt HoldsWord
  rw [ByteOrder.encode_decode _ _ hlength]
  exact hbytes

/-- A sum that is a word. -/
theorem toNat_add_field (h : address.toNat + field.toNat < addressSpace) :
    (address + field).toNat = address.toNat + field.toNat := by
  have h' : address.toNat + field.toNat < 2 ^ 32 := h
  rw [UInt32.toNat_add]
  omega

/-- A field lies in the page if its record does. -/
theorem Covers.part {size : Nat} (hm : m.Proper) (h : m.Covers address size)
    (hin : field.toNat + length ≤ size) (hlength : 0 < length) :
    m.Covers (address + field) length := by
  have hb := hm.bounded
  have ha := hm.addressed
  obtain ⟨hbase, hend⟩ := h
  have hwrap : address.toNat + field.toNat < addressSpace := by omega
  have hsum := toNat_add_field hwrap
  exact ⟨by omega, by omega⟩

/-- A record lies in the page if its first address and its last field do. -/
theorem Covers.of_last (hbase : m.base.toNat ≤ address.toNat)
    (h : m.Covers (address + field) length) (hwrap : address.toNat + field.toNat < addressSpace) :
    m.Covers address (field.toNat + length) := by
  have hend := h.2
  rw [toNat_add_field hwrap] at hend
  exact ⟨hbase, by omega⟩

/-! ## §2. Reading at addresses. -/

/-- **Bytes are read where they lie, and nowhere else.** -/
theorem read_eq_ok_iff :
    m.read address length = .ok bytes ↔ bytes.length = length ∧ m.BytesAt address bytes := by
  constructor
  · intro h
    obtain ⟨start, hstart, hslice⟩ := found_bind_eq_ok_iff.1 h
    cases hslice
    obtain ⟨haddress, hin⟩ := offset_eq_ok_iff.1 hstart
    have hplace : address.toNat - m.base.toNat = start := by omega
    have hlt : address.toNat < 2 ^ 32 := address.toNat_lt
    refine ⟨Cells.length_slice _ _ _, by omega, ?_⟩
    rw [hplace]
    refine ⟨show m.base.toNat + start < 2 ^ 32 by omega, ?_, ?_⟩
    · rw [Cells.length_slice]
      exact hin
    · rw [Cells.length_slice]
  · rintro ⟨rfl, hbase, hheld⟩
    rw [← address_sub hbase]
    exact hheld.read

/-- **A text can be read where it ends, and nowhere else.** -/
theorem exists_readText_iff : (∃ text, m.readText address = .ok text) ↔ m.Ended address := by
  constructor
  · rintro ⟨text, h⟩
    obtain ⟨bytes, hbytes, -⟩ := found_bind_eq_ok_iff.1 h
    obtain ⟨start, hstart, hfound⟩ := found_bind_eq_ok_iff.1 hbytes
    obtain ⟨haddress, hin⟩ := offset_eq_ok_iff.1 hstart
    cases hstop : m.cells.firstZero? m.size start with
    | none =>
      rw [hstop] at hfound
      cases hfound
    | some stop =>
      obtain ⟨hle, hlt, hzero, -⟩ := Cells.firstZero?_eq_some_iff.1 hstop
      exact ⟨by omega, stop, by omega, hlt, hzero⟩
  · rintro ⟨hbase, stop, hle, hlt, hzero⟩
    have hstart : m.offset address 0 = .ok (address.toNat - m.base.toNat) :=
      offset_eq_ok_iff.2 ⟨by omega, by omega⟩
    unfold readText readBytes
    rw [hstart]
    cases hstop : m.cells.firstZero? m.size (address.toNat - m.base.toNat) with
    | none => exact absurd hzero (Cells.firstZero?_eq_none_iff.1 hstop stop (by omega) hlt)
    | some found =>
      simp only [bind, Except.bind, hstop]
      exact ⟨_, rfl⟩

end Memory

open Memory

variable {m : Memory} {address : UInt32}

/-! ## §3. Maps. -/

/-- The record of a map that stands at a position of its ring. -/
structure MapAt (m : Memory) (position : Nat) (address : UInt32) : Prop where
  inside : m.Covers address 32
  name : ∃ pointer, m.WordAt (address + AddressMap.nameField) pointer ∧ m.Ended pointer
  numbered : ∃ id : UInt8, m.BytesAt (address + AddressMap.idField) [id] ∧ id.toNat = position
  entries : m.WordAt (address + AddressMap.entriesField) 0

/-- What reading a map finds, field by field. -/
theorem AddressMap.load_eq_ok_iff {map : AddressMap} :
    AddressMap.load m address = .ok map
      ↔ map.address = address ∧ m.BytesAt (address + idField) [map.id]
        ∧ (∃ pointer, m.WordAt (address + nameField) pointer
          ∧ m.readText pointer = .ok map.name)
        ∧ m.WordAt (address + startField) map.start ∧ m.WordAt (address + stopField) map.stop
        ∧ m.WordAt (address + accessField) map.access
        ∧ m.WordAt (address + entriesField) map.entries := by
  constructor
  · intro h
    obtain ⟨bytes, hbytes, h⟩ := found_bind_eq_ok_iff.1 h
    obtain ⟨pointer, hpointer, h⟩ := found_bind_eq_ok_iff.1 h
    obtain ⟨name, hname, h⟩ := found_bind_eq_ok_iff.1 h
    obtain ⟨start, hstart, h⟩ := found_bind_eq_ok_iff.1 h
    obtain ⟨stop, hstop, h⟩ := found_bind_eq_ok_iff.1 h
    obtain ⟨access, haccess, h⟩ := found_bind_eq_ok_iff.1 h
    obtain ⟨entries, hentries, h⟩ := found_bind_eq_ok_iff.1 h
    cases h
    obtain ⟨hlength, hid⟩ := read_eq_ok_iff.1 hbytes
    obtain ⟨id, rfl⟩ := List.length_eq_one_iff.1 hlength
    exact ⟨rfl, hid, ⟨pointer, readWord_eq_ok_iff.1 hpointer, hname⟩,
      readWord_eq_ok_iff.1 hstart, readWord_eq_ok_iff.1 hstop, readWord_eq_ok_iff.1 haccess,
      readWord_eq_ok_iff.1 hentries⟩
  · rintro ⟨rfl, hid, ⟨pointer, hpointer, hname⟩, hstart, hstop, haccess, hentries⟩
    have hbytes := read_eq_ok_iff.2 ⟨rfl, hid⟩
    unfold load
    simp only [show m.read (map.address + idField) 1 = .ok [map.id] from hbytes,
      readWord_eq_ok_iff.2 hpointer, hname, readWord_eq_ok_iff.2 hstart,
      readWord_eq_ok_iff.2 hstop, readWord_eq_ok_iff.2 haccess, readWord_eq_ok_iff.2 hentries,
      bind, Except.bind]
    rfl

/-- **A map can be read where its record lies and its name ends**, and then tells its id and its
entries. -/
theorem mapAt_iff (hm : m.Proper) (hbase : m.base.toNat ≤ address.toNat)
    (hwrap : address.toNat + 28 < addressSpace) {position : Nat} :
    MapAt m position address
      ↔ ∃ map, AddressMap.load m address = .ok map ∧ map.id.toNat = position
        ∧ map.entries = 0 := by
  constructor
  · rintro ⟨hinside, ⟨pointer, hpointer, hended⟩, ⟨id, hid, hposition⟩, hentries⟩
    have hword : ∀ field : UInt32, field.toNat + 4 ≤ 32 →
        ∃ word, m.WordAt (address + field) word := fun field hfield =>
      (hinside.part hm hfield (by decide)).exists_wordAt
    obtain ⟨name, hname⟩ := exists_readText_iff.2 hended
    obtain ⟨start, hstart⟩ := hword AddressMap.startField (by decide)
    obtain ⟨stop, hstop⟩ := hword AddressMap.stopField (by decide)
    obtain ⟨access, haccess⟩ := hword AddressMap.accessField (by decide)
    refine ⟨⟨address, id, name, start, stop, access, 0⟩, ?_, hposition, rfl⟩
    exact AddressMap.load_eq_ok_iff.2 ⟨rfl, hid, ⟨pointer, hpointer, hname⟩, hstart, hstop,
      haccess, hentries⟩
  · rintro ⟨map, hload, hposition, hentries⟩
    obtain ⟨-, hid, ⟨pointer, hpointer, hname⟩, -, -, -, hzero⟩ :=
      AddressMap.load_eq_ok_iff.1 hload
    rw [hentries] at hzero
    exact ⟨Covers.of_last hbase hpointer.covers hwrap,
      ⟨pointer, hpointer, exists_readText_iff.1 ⟨_, hname⟩⟩, ⟨map.id, hid, hposition⟩, hzero⟩

/-! ## §4. Programs. -/

/-- Ids lie where one word points, as many as another one says. -/
def IdsAt (m : Memory) (count list : UInt32) (ids : List UInt8) : Prop :=
  ∃ length pointer, m.WordAt count length ∧ m.WordAt list pointer ∧ ids.length = length.toNat
    ∧ m.BytesAt pointer ids

/-- The record of a program that refers to the first maps only, as many as are given. -/
structure ProgramAt (m : Memory) (mapCount : Nat) (address : UInt32) : Prop where
  inside : m.Covers address 36
  argv : ∃ pointer, m.WordAt (address + Program.argvField) pointer ∧ m.Ended pointer
  instructionMaps : ∃ ids, IdsAt m (address + Program.instructionCountField)
    (address + Program.instructionMapsField) ids ∧ ∀ id ∈ ids, id.toNat < mapCount
  dataMaps : ∃ ids, IdsAt m (address + Program.dataCountField) (address + Program.dataMapsField) ids
    ∧ ∀ id ∈ ids, id.toNat < mapCount

namespace Program

theorem loadIds_eq_ok_iff {count list : UInt32} {ids : List UInt8} :
    loadIds m count list = .ok ids ↔ IdsAt m count list ids := by
  constructor
  · intro h
    obtain ⟨length, hlength, h⟩ := found_bind_eq_ok_iff.1 h
    obtain ⟨pointer, hpointer, h⟩ := found_bind_eq_ok_iff.1 h
    obtain ⟨hcount, hids⟩ := read_eq_ok_iff.1 h
    exact ⟨length, pointer, readWord_eq_ok_iff.1 hlength, readWord_eq_ok_iff.1 hpointer, hcount,
      hids⟩
  · rintro ⟨length, pointer, hlength, hpointer, hcount, hids⟩
    unfold loadIds
    simp only [readWord_eq_ok_iff.2 hlength, readWord_eq_ok_iff.2 hpointer, bind, Except.bind]
    exact read_eq_ok_iff.2 ⟨hcount, hids⟩

/-- What reading a program finds, field by field. -/
theorem load_eq_ok_iff {p : Program} :
    Program.load m address = .ok p
      ↔ p.address = address ∧ m.WordAt (address + startField) p.start
        ∧ m.WordAt (address + stopField) p.stop
        ∧ (∃ pointer text, m.WordAt (address + argvField) pointer
          ∧ m.readText pointer = .ok text ∧ p.argv = Text.Utf8.bytes text)
        ∧ IdsAt m (address + instructionCountField) (address + instructionMapsField)
          p.instructionMaps
        ∧ IdsAt m (address + dataCountField) (address + dataMapsField) p.dataMaps := by
  constructor
  · intro h
    obtain ⟨start, hstart, h⟩ := found_bind_eq_ok_iff.1 h
    obtain ⟨stop, hstop, h⟩ := found_bind_eq_ok_iff.1 h
    obtain ⟨pointer, hpointer, h⟩ := found_bind_eq_ok_iff.1 h
    obtain ⟨text, htext, h⟩ := found_bind_eq_ok_iff.1 h
    obtain ⟨instructionMaps, hinstructions, h⟩ := found_bind_eq_ok_iff.1 h
    obtain ⟨dataMaps, hdata, h⟩ := found_bind_eq_ok_iff.1 h
    cases h
    exact ⟨rfl, readWord_eq_ok_iff.1 hstart, readWord_eq_ok_iff.1 hstop,
      ⟨pointer, text, readWord_eq_ok_iff.1 hpointer, htext, rfl⟩,
      loadIds_eq_ok_iff.1 hinstructions, loadIds_eq_ok_iff.1 hdata⟩
  · rintro ⟨rfl, hstart, hstop, ⟨pointer, text, hpointer, htext, hargv⟩, hinstructions, hdata⟩
    unfold load
    simp only [readWord_eq_ok_iff.2 hstart, readWord_eq_ok_iff.2 hstop,
      readWord_eq_ok_iff.2 hpointer, htext, loadIds_eq_ok_iff.2 hinstructions,
      loadIds_eq_ok_iff.2 hdata, bind, Except.bind, ← hargv]
    rfl

end Program

/-- No id of a program is too great exactly if the audit finds none. -/
theorem Session.dangling?_eq_none_iff {mapCount : Nat} {p : Program} :
    dangling? mapCount p = none
      ↔ (∀ id ∈ p.instructionMaps, id.toNat < mapCount)
        ∧ ∀ id ∈ p.dataMaps, id.toNat < mapCount := by
  unfold dangling?
  rw [Option.map_eq_none_iff, List.find?_eq_none]
  simp only [List.mem_append, decide_eq_true_eq, Nat.not_le]
  constructor
  · intro h
    exact ⟨fun id hid => h id (.inl hid), fun id hid => h id (.inr hid)⟩
  · rintro ⟨hinstructions, hdata⟩ id (hid | hid)
    · exact hinstructions id hid
    · exact hdata id hid

/-- **A program can be read where its record lies, its argument text ends and its ids lie.** -/
theorem programAt_iff (hm : m.Proper) (hbase : m.base.toNat ≤ address.toNat)
    (hwrap : address.toNat + 32 < addressSpace) {mapCount : Nat} :
    ProgramAt m mapCount address
      ↔ ∃ p, Program.load m address = .ok p ∧ Session.dangling? mapCount p = none := by
  constructor
  · rintro ⟨hinside, ⟨pointer, hpointer, hended⟩, ⟨instructionMaps, hinstructions, hknown⟩,
      ⟨dataMaps, hdata, hknown'⟩⟩
    have hword : ∀ field : UInt32, field.toNat + 4 ≤ 36 →
        ∃ word, m.WordAt (address + field) word := fun field hfield =>
      (hinside.part hm hfield (by decide)).exists_wordAt
    obtain ⟨text, htext⟩ := exists_readText_iff.2 hended
    obtain ⟨start, hstart⟩ := hword Program.startField (by decide)
    obtain ⟨stop, hstop⟩ := hword Program.stopField (by decide)
    refine ⟨⟨address, start, stop, Text.Utf8.bytes text, instructionMaps, dataMaps⟩, ?_,
      Session.dangling?_eq_none_iff.2 ⟨hknown, hknown'⟩⟩
    exact Program.load_eq_ok_iff.2 ⟨rfl, hstart, hstop, ⟨pointer, text, hpointer, htext, rfl⟩,
      hinstructions, hdata⟩
  · rintro ⟨p, hload, hdangling⟩
    obtain ⟨-, -, -, ⟨pointer, text, hpointer, htext, -⟩, hinstructions, hdata⟩ :=
      Program.load_eq_ok_iff.1 hload
    obtain ⟨hknown, hknown'⟩ := Session.dangling?_eq_none_iff.1 hdangling
    obtain ⟨_, list, -, hlist, -⟩ := id hdata
    exact ⟨Covers.of_last hbase hlist.covers hwrap,
      ⟨pointer, hpointer, exists_readText_iff.1 ⟨_, htext⟩⟩, ⟨_, hinstructions, hknown⟩,
      ⟨_, hdata, hknown'⟩⟩

end SystemPage
