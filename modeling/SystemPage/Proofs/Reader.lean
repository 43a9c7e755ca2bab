/-
  SystemPage.Proofs.Reader — a page read from its bytes alone.

  The target gets the bytes of a page, and all it knows besides is where they lie and how their
  words are stored.  `Reader.page?` follows the format from there: six words of header, and along
  the first words of the records from either head until the head comes back.  It counts in natural
  numbers and shares no definition with what lays a page out.

  Main results:

      Sound.page?_eq   — a reader of a completed page finds the inventory of its session
      Holds.word?_eq, Holds.text?_eq
                       — what a page holds, a reader of its bytes finds
      Closed.ring?_eq  — following a closed ring finds its records in order
      MapEntry.map?_eq, ProgramEntry.program?_eq
                       — a record is read as what was put there
-/
import SystemPage.Proofs.Inventory

namespace SystemPage

open Memory SystemPage.Ring

/-! ## §1. Reading. -/

/-- The bytes of a page, with the order of its words and the address of its first byte. -/
structure Reader where
  order : ByteOrder
  base : Nat
  bytes : List UInt8

/-- What the record of a map tells. -/
structure MapRecord where
  id : Nat
  name : List UInt8
  start : Nat
  stop : Nat
  access : Nat
  entries : Nat
  deriving DecidableEq, Repr

/-- What the record of a program tells. -/
structure ProgramRecord where
  start : Nat
  stop : Nat
  argv : List UInt8
  instructionMaps : List Nat
  dataMaps : List Nat
  deriving DecidableEq, Repr

/-- What a page tells. -/
structure PageRecord where
  imageSize : Nat
  size : Nat
  load : Nat
  console : Nat
  maps : List MapRecord
  programs : List ProgramRecord
  deriving DecidableEq, Repr

namespace Reader

/-- The bytes at a range of addresses. -/
def at? (r : Reader) (address length : Nat) : Option (List UInt8) :=
  if r.base ≤ address ∧ address - r.base + length ≤ r.bytes.length then
    some ((r.bytes.drop (address - r.base)).take length)
  else none

/-- The number that four bytes at an address stand for. -/
def word? (r : Reader) (address : Nat) : Option Nat :=
  match r.order, r.at? address 4 with
  | .little, some [a, b, c, d] =>
    some (a.toNat + 256 * b.toNat + 65536 * c.toNat + 16777216 * d.toNat)
  | .big, some [a, b, c, d] =>
    some (16777216 * a.toNat + 65536 * b.toNat + 256 * c.toNat + d.toNat)
  | _, _ => none

/-- The bytes from an address up to the first zero byte. -/
def text? (r : Reader) (address : Nat) : Option (List UInt8) :=
  let behind := r.bytes.drop (address - r.base)
  if r.base ≤ address ∧ 0 ∈ behind then some (behind.takeWhile (· ≠ 0)) else none

/-- As many ids as one word says, at the address that the next word says. -/
def ids? (r : Reader) (address : Nat) : Option (List Nat) := do
  let ids ← r.at? (← r.word? (address + 4)) (← r.word? address)
  return ids.map UInt8.toNat

/-- The addresses of the records from one on, until the next would be the head. -/
def follow (r : Reader) (head : Nat) : Nat → Nat → Option (List Nat)
  | 0, _ => none
  | steps + 1, address => do
    let after ← r.word? address
    if after = head then return [address]
    return address :: (← r.follow head steps after)

/-- The addresses of the records of a ring.  No more records than bytes are followed. -/
def ring? (r : Reader) (head : Nat) : Option (List Nat) :=
  if head = 0 then some [] else r.follow head r.bytes.length head

/-- The map at an address. -/
def map? (r : Reader) (address : Nat) : Option MapRecord := do
  let entries ← r.word? (address + 8)
  let start ← r.word? (address + 12)
  let stop ← r.word? (address + 16)
  let access ← r.word? (address + 20)
  let id ← r.at? (address + 24) 1
  let name ← r.text? (← r.word? (address + 28))
  return ⟨(id.headD 0).toNat, name, start, stop, access, entries⟩

/-- The program at an address. -/
def program? (r : Reader) (address : Nat) : Option ProgramRecord := do
  let start ← r.word? (address + 8)
  let stop ← r.word? (address + 12)
  let argv ← r.text? (← r.word? (address + 16))
  let instructionMaps ← r.ids? (address + 20)
  let dataMaps ← r.ids? (address + 28)
  return ⟨start, stop, argv, instructionMaps, dataMaps⟩

/-- The whole page. -/
def page? (r : Reader) : Option PageRecord := do
  let imageSize ← r.word? r.base
  let size ← r.word? (r.base + 4)
  let load ← r.word? (r.base + 8)
  let maps ← r.ring? (← r.word? (r.base + 12))
  let programs ← r.ring? (← r.word? (r.base + 16))
  let console ← r.word? (r.base + 20)
  return ⟨imageSize, size, load, console, ← maps.mapM r.map?, ← programs.mapM r.program?⟩

end Reader

/-! ## §2. What a reader finds. -/

/-- The reader of a page. -/
def Memory.reader (m : Memory) : Reader := ⟨m.order, m.base.toNat, m.bytes⟩

/-- The words of either order, told apart. -/
theorem ByteOrder.encode_little (word : UInt32) :
    encode .little word = [UInt8.ofNat (word.toNat % 256), UInt8.ofNat (word.toNat / 256 % 256),
      UInt8.ofNat (word.toNat / 256 / 256 % 256),
      UInt8.ofNat (word.toNat / 256 / 256 / 256 % 256)] := rfl

namespace Memory.Holds

variable {m : Memory} {place : Nat}

/-- From its place on a page is what it holds there and something behind it. -/
theorem exists_drop {bytes : List UInt8} (h : m.Holds place bytes) :
    ∃ behind, m.bytes.drop place = bytes ++ behind := by
  obtain ⟨rest, hrest⟩ := Nat.exists_eq_add_of_le h.inside
  refine ⟨m.cells.slice (place + bytes.length) rest, ?_⟩
  unfold Memory.bytes
  rw [hrest, Nat.add_assoc, Cells.slice_add, Nat.zero_add,
    List.drop_left' (Cells.length_slice ..), Cells.slice_add, h.content]

theorem at?_eq {bytes : List UInt8} (h : m.Holds place bytes) :
    m.reader.at? (m.base.toNat + place) bytes.length = some bytes := by
  obtain ⟨behind, hbehind⟩ := h.exists_drop
  have hin := h.inside
  have hlength := length_bytes m
  simp only [Reader.at?, reader, Nat.add_sub_cancel_left, hbehind, List.take_left]
  rw [if_pos (by omega)]

/-- **A word that a page holds is the number that a reader finds.** -/
theorem word?_eq {word : UInt32} (h : m.HoldsWord place word) :
    m.reader.word? (m.base.toNat + place) = some word.toNat := by
  have hat := Holds.at?_eq h
  rw [ByteOrder.length_encode] at hat
  change m.reader.at? _ 4 = _ at hat
  -- the four bytes are the digits of the word to the base 256
  have hlt := word.toNat_lt
  unfold Reader.word?
  rw [hat, show m.reader.order = m.order from rfl]
  cases m.order with
  | little =>
    simp only [ByteOrder.encode_little, UInt8.toNat_ofNat', Option.some.injEq]
    omega
  | big =>
    simp only [ByteOrder.encode_big, ByteOrder.encode_little, List.reverse_cons, List.reverse_nil,
      List.nil_append, List.cons_append, UInt8.toNat_ofNat', Option.some.injEq]
    omega

/-- **A text that a page holds is read up to its first zero byte.** -/
theorem text?_eq {bytes : List UInt8} (h : m.Holds place (bytes ++ [0])) :
    m.reader.text? (m.base.toNat + place) = some (upToZero bytes) := by
  obtain ⟨behind, hbehind⟩ := h.exists_drop
  obtain ⟨more, hmore⟩ := exists_upToZero_append bytes
  rw [hmore, List.append_assoc, List.cons_append] at hbehind
  simp only [Reader.text?, reader, Nat.add_sub_cancel_left, hbehind]
  rw [if_pos (by simp), List.takeWhile_append_of_pos]
  · simp
  · intro b hb
    simpa using fun he : b = 0 => zero_not_mem_upToZero bytes (he ▸ hb)

end Memory.Holds

/-! ## §3. Rings and records. -/

theorem Ring.Joined.word?_eq {m : Memory} {a b : Nat} (h : Joined m a b) :
    m.reader.word? (m.base.toNat + a) = some (m.base.toNat + b) := by
  have ha : m.base.toNat + (b + 4) < addressSpace := h.back.addressed
  rw [Holds.word?_eq h.forward, toNat_address (by omega)]

/-- The rest of a closed ring is found with enough steps left. -/
theorem Reader.follow_eq {m : Memory} {first a : Nat} {rest : List Nat} {steps : Nat}
    (hne : first ∉ rest) (h : (a :: rest ++ [first]).IsChain (Joined m))
    (hs : rest.length < steps) :
    m.reader.follow (m.base.toNat + first) steps (m.base.toNat + a)
      = some ((a :: rest).map (m.base.toNat + ·)) := by
  induction rest generalizing a steps with
  | nil =>
    obtain ⟨left, rfl⟩ : ∃ left, steps = left + 1 := ⟨steps - 1, by simp at hs; omega⟩
    have hj : Joined m a first := List.isChain_pair.1 h
    simp [Reader.follow, hj.word?_eq]
  | cons b rest ih =>
    obtain ⟨left, rfl⟩ : ∃ left, steps = left + 1 := ⟨steps - 1, by simp at hs; omega⟩
    obtain ⟨hj, hrest⟩ := List.isChain_cons_cons.1 h
    have hb : b ≠ first := fun he => hne (he ▸ List.mem_cons_self)
    have hfollow := ih (fun hmem => hne (List.mem_cons_of_mem b hmem)) hrest
      (by simp at hs; omega)
    simp [Reader.follow, hj.word?_eq, hb, hfollow]

/-- **Following a closed ring finds its records in order.** -/
theorem Ring.Closed.ring?_eq {m : Memory} {places : List Nat} (h : Closed m places)
    (hs : Spaced m places) (hlength : places.length ≤ m.size) :
    m.reader.ring? (headOf m places).toNat = some (places.map (m.base.toNat + ·)) := by
  cases places with
  | nil => rfl
  | cons first rest =>
    obtain ⟨b, _, hj⟩ := h.exists_next (a := first) (by simp)
    have hfirst := toNat_address hj.forward.addressed
    have hnonzero : m.base.toNat + first ≠ 0 := by
      intro hz
      refine hs.nonzero first (by simp) (UInt32.toNat_inj.1 ?_)
      rw [hfirst, hz]
      rfl
    have hsteps : rest.length < m.reader.bytes.length := by
      rw [show m.reader.bytes.length = m.size from length_bytes m]
      exact hlength
    rw [headOf, hfirst, Reader.ring?, if_neg hnonzero]
    exact Reader.follow_eq (List.nodup_cons.1 hs.nodup).1 h hsteps

/-- What the record of a map is read as. -/
def MapEntry.record (e : MapEntry) : MapRecord :=
  ⟨e.id.toNat, Text.Utf8.bytes e.name, e.start.toNat, e.stop.toNat, e.access.toNat, 0⟩

/-- What the record of a program is read as. -/
def ProgramEntry.record (e : ProgramEntry) : ProgramRecord :=
  ⟨e.plan.payload.address.toNat, e.plan.payload.stop.toNat, e.plan.argv,
    e.plan.instructionMaps.map UInt8.toNat, e.plan.dataMaps.map UInt8.toNat⟩

/-- Words that lie one after the other are found at their distances. -/
theorem Memory.Holds.field?_eq {m : Memory} {place : Nat} {words : List UInt32} (hm : m.Proper)
    (h : m.Holds (place + 8) (words.flatMap m.order.encode)) (i : Nat) {word : UInt32}
    (hi : words[i]? = some word) :
    m.reader.word? (m.base.toNat + place + (8 + 4 * i)) = some word.toNat := by
  rw [Nat.add_assoc, ← Nat.add_assoc place]
  exact word?_eq (h.word hm hi)

/-- **The record of a map is read as what was put there.** -/
theorem MapEntry.map?_eq {m : Memory} {e : MapEntry} (hm : m.Proper) (h : m.HoldsAll (e.pieces m))
    (hzero : 0 ∉ Text.Utf8.bytes e.name) :
    m.reader.map? (m.base.toNat + e.place) = some e.record := by
  simp only [HoldsAll, pieces, List.forall_mem_cons] at h
  obtain ⟨hwords, hid, hpointer, hname, -⟩ := h
  have hentries : m.reader.word? (m.base.toNat + e.place + 8) = some 0 :=
    hwords.field?_eq hm 0 rfl
  have hstart : m.reader.word? (m.base.toNat + e.place + 12) = some e.start.toNat :=
    hwords.field?_eq hm 1 rfl
  have hstop : m.reader.word? (m.base.toNat + e.place + 16) = some e.stop.toNat :=
    hwords.field?_eq hm 2 rfl
  have haccess : m.reader.word? (m.base.toNat + e.place + 20) = some e.access.toNat :=
    hwords.field?_eq hm 3 rfl
  have hid' : m.reader.at? (m.base.toNat + e.place + 24) 1 = some [e.id] := by
    rw [Nat.add_assoc]
    exact hid.at?_eq
  have hpointer' : m.reader.word? (m.base.toNat + e.place + 28)
      = some (m.base.toNat + e.namePlace) := by
    rw [Nat.add_assoc, Holds.word?_eq hpointer, toNat_address hname.addressed]
  have hname' := hname.text?_eq
  rw [upToZero_eq_self hzero] at hname'
  simp [Reader.map?, hentries, hstart, hstop, haccess, hid', hpointer', hname', record]

/-- A list of ids is found where its number and its address are. -/
theorem Reader.ids?_eq {m : Memory} {address place : Nat} {ids : List UInt8}
    (hcount : m.reader.word? address = some ids.length)
    (hlist : m.reader.word? (address + 4) = some (m.base.toNat + place))
    (hids : m.Holds place ids) : m.reader.ids? address = some (ids.map UInt8.toNat) := by
  simp [Reader.ids?, hcount, hlist, hids.at?_eq]

/-- **The record of a program is read as what was put there.** -/
theorem ProgramEntry.program?_eq {m : Memory} {e : ProgramEntry} (hm : m.Proper)
    (h : m.HoldsAll (e.pieces m)) (hdata : 0 < e.dataPlace)
    (hinstructions : 0 < e.instructionPlace) (hzero : 0 ∉ e.plan.argv) :
    m.reader.program? (m.base.toNat + e.place) = some e.record := by
  simp only [HoldsAll, pieces, List.forall_mem_cons] at h
  obtain ⟨hwords, hdataMaps, hinstructionMaps, hargv, -⟩ := h
  have hstart : m.reader.word? (m.base.toNat + e.place + 8) = some e.plan.payload.address.toNat :=
    hwords.field?_eq hm 0 rfl
  have hstop : m.reader.word? (m.base.toNat + e.place + 12) = some e.plan.payload.stop.toNat :=
    hwords.field?_eq hm 1 rfl
  have hpointer : m.reader.word? (m.base.toNat + e.place + 16)
      = some (m.base.toNat + e.argvPlace) := by
    rw [← toNat_address hargv.addressed]
    exact hwords.field?_eq hm 2 rfl
  have hargv' := hargv.text?_eq
  rw [upToZero_eq_self hzero] at hargv'
  have hinstructions' : m.reader.ids? (m.base.toNat + e.place + 20)
      = some (e.plan.instructionMaps.map UInt8.toNat) := by
    refine Reader.ids?_eq ?_ ?_ hinstructionMaps
    · rw [← hinstructionMaps.toNat_length hm hinstructions]
      exact hwords.field?_eq hm 3 rfl
    · rw [← toNat_address hinstructionMaps.addressed]
      exact hwords.field?_eq hm 4 rfl
  have hdata' : m.reader.ids? (m.base.toNat + e.place + 28)
      = some (e.plan.dataMaps.map UInt8.toNat) := by
    refine Reader.ids?_eq ?_ ?_ hdataMaps
    · rw [← hdataMaps.toNat_length hm hdata]
      exact hwords.field?_eq hm 5 rfl
    · rw [← toNat_address hdataMaps.addressed]
      exact hwords.field?_eq hm 6 rfl
  simp [Reader.program?, hstart, hstop, hpointer, hargv', hinstructions', hdata', record]

/-! ## §4. Pages. -/

/-- **A reader of a page whose header is stored finds the inventory of its session.** -/
theorem Session.Sound.page?_eq {s : Session} {inv : Inventory} (h : s.Sound inv)
    (hstored : s.memory.Holds 0 (s.header.words.flatMap s.memory.order.encode))
    (hsize : s.memory.size < addressSpace)
    (hnames : ∀ e ∈ inv.maps, 0 ∉ Text.Utf8.bytes e.name)
    (hargvs : ∀ e ∈ inv.programs, 0 ∉ e.plan.argv) :
    s.memory.reader.page? = some ⟨s.imageSize.toNat, s.memory.size, s.load.toNat, s.console.toNat,
      inv.maps.map MapEntry.record, inv.programs.map ProgramEntry.record⟩ := by
  have hm := h.arranged.proper
  have hroom : 24 + 32 * (inv.mapPlaces.length + inv.programPlaces.length) ≤ s.memory.size :=
    h.arranged.room
  -- the header is six words one after the other
  have hword : ∀ i word, s.header.words[i]? = some word →
      s.memory.reader.word? (s.memory.base.toNat + 4 * i) = some word.toNat := by
    intro i word hi
    have hheld := hstored.word hm hi
    rw [Nat.zero_add] at hheld
    exact Holds.word?_eq hheld
  have hlength : (UInt32.ofNat s.memory.size).toNat = s.memory.size := by
    have hsize' : s.memory.size < 2 ^ 32 := hsize
    rw [UInt32.toNat_ofNat']
    omega
  have hmaps : s.memory.reader.ring? s.mapHead.toNat
      = some (inv.mapPlaces.map (s.memory.base.toNat + ·)) := by
    rw [h.mapHead]
    exact h.arranged.closed.ring?_eq h.arranged.spaced (by omega)
  have hprograms : s.memory.reader.ring? s.programHead.toNat
      = some (inv.programPlaces.map (s.memory.base.toNat + ·)) := by
    rw [h.programHead]
    exact h.arranged.closedOther.ring?_eq h.arranged.symm.spaced (by omega)
  have hmapRecords : (inv.mapPlaces.map (s.memory.base.toNat + ·)).mapM s.memory.reader.map?
      = some (inv.maps.map MapEntry.record) := by
    rw [Inventory.mapPlaces, List.map_map, List.mapM_map]
    exact mapM_eq_pure inv.maps fun e he => e.map?_eq hm (h.held_map he) (hnames e he)
  have hprogramRecords :
      (inv.programPlaces.map (s.memory.base.toNat + ·)).mapM s.memory.reader.program?
        = some (inv.programs.map ProgramEntry.record) := by
    rw [Inventory.programPlaces, List.map_map, List.mapM_map]
    apply mapM_eq_pure inv.programs
    intro e he
    obtain ⟨hheld, hdata, hinstructions⟩ := h.held_program he
    exact e.program?_eq hm hheld hdata hinstructions (hargvs e he)
  have himage : s.memory.reader.word? s.memory.reader.base = some s.imageSize.toNat :=
    hword 0 _ rfl
  have hsize' : s.memory.reader.word? (s.memory.reader.base + 4) = some s.memory.size := by
    rw [← hlength]
    exact hword 1 _ rfl
  have hload : s.memory.reader.word? (s.memory.reader.base + 8) = some s.load.toNat :=
    hword 2 _ rfl
  have hmapHead : s.memory.reader.word? (s.memory.reader.base + 12) = some s.mapHead.toNat :=
    hword 3 _ rfl
  have hprogramHead : s.memory.reader.word? (s.memory.reader.base + 16)
      = some s.programHead.toNat := hword 4 _ rfl
  have hconsole : s.memory.reader.word? (s.memory.reader.base + 20) = some s.console.toNat :=
    hword 5 _ rfl
  simp [Reader.page?, himage, hsize', hload, hmapHead, hprogramHead, hconsole, hmaps, hprograms,
    hmapRecords, hprogramRecords]

end SystemPage
