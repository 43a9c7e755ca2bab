/-
  SystemPage.Proofs.Records — records as pieces of a page.

  What a record consists of, apart from its two links, is a list of pieces: its fields and the
  blocks that the fields lead to, each with its place.  `AddressMap.put` and `Program.Plan.put` lay
  the pieces down, `AddressMap.load` and `Program.load` find them again.  A page that runs out of
  room half-way has only been added to.

  Main results:

      MapEntry.load_eq, ProgramEntry.load_eq
                       — a record whose pieces lie in a page is read as what was put there
      AddressMap.put_of_lt, Program.Plan.put_of_lt
                       — a record that fits is laid down behind everything else
      AddressMap.put_of_le, Program.Plan.put_of_le
                       — any other is refused
-/
import Mathlib.Algebra.Ring.Nat
import Mathlib.Data.List.TakeWhile
import SystemPage.Program
import SystemPage.Proofs.Store

namespace SystemPage

open Memory

/-! ## §1. Pieces. -/

/-- Bytes at a distance from the base of a page. -/
structure Piece where
  place : Nat
  bytes : List UInt8
  deriving DecidableEq, Repr

/-- Every piece of a list lies in the page. -/
def Memory.HoldsAll (m : Memory) (pieces : List Piece) : Prop :=
  ∀ piece ∈ pieces, m.Holds piece.place piece.bytes

theorem Memory.HoldsAll.frame {touched : Nat → Prop} {m after : Memory} {pieces : List Piece}
    (h : m.HoldsAll pieces) (hf : Frame touched m after)
    (hn : ∀ piece ∈ pieces, ∀ k, InRange piece.place piece.bytes.length k → ¬ touched k) :
    after.HoldsAll pieces := fun piece hp => (h piece hp).frame hf (hn piece hp)

/-- The bytes of a text as far as they are read back. -/
def upToZero (bytes : List UInt8) : List UInt8 := bytes.takeWhile (· ≠ 0)

theorem zero_not_mem_upToZero (bytes : List UInt8) : 0 ∉ upToZero bytes := by
  intro h
  have h' := List.mem_takeWhile_imp h
  simp at h'

theorem exists_upToZero_append (bytes : List UInt8) :
    ∃ behind, bytes ++ [0] = upToZero bytes ++ 0 :: behind := by
  induction bytes with
  | nil => exact ⟨[], rfl⟩
  | cons b rest ih =>
    by_cases hb : b = 0
    · exact ⟨rest ++ [0], by simp [upToZero, hb]⟩
    · obtain ⟨behind, hrest⟩ := ih
      exact ⟨behind, by simpa [upToZero, hb] using hrest⟩

theorem upToZero_eq_self {bytes : List UInt8} (h : 0 ∉ bytes) : upToZero bytes = bytes := by
  apply List.takeWhile_eq_self_iff.2
  intro b hb
  simpa using fun he : b = 0 => h (he ▸ hb)

theorem Memory.Holds.readBytes_upToZero {m : Memory} {place : Nat} {bytes : List UInt8}
    (h : m.Holds place (bytes ++ [0])) : m.readBytes (m.address place) = .ok (upToZero bytes) := by
  obtain ⟨behind, hb⟩ := exists_upToZero_append bytes
  rw [hb] at h
  exact h.readBytes (zero_not_mem_upToZero bytes)

/-! ## §2. Maps. -/

/-- A map that was put into a page: where its record and its name lie, and what it says. -/
structure MapEntry where
  place : Nat
  namePlace : Nat
  id : UInt8
  name : String
  start : UInt32
  stop : UInt32
  access : UInt32
  deriving DecidableEq, Repr

namespace MapEntry

/-- The fields of the record behind its links, and the name. -/
def pieces (m : Memory) (e : MapEntry) : List Piece :=
  [⟨e.place + 8, [0, e.start, e.stop, e.access].flatMap m.order.encode⟩,
    ⟨e.place + 24, [e.id]⟩,
    ⟨e.place + 28, m.order.encode (m.address e.namePlace)⟩,
    ⟨e.namePlace, Text.Utf8.bytes e.name ++ [0]⟩]

/-- The name as it is read back, which ends where a zero byte stands. -/
def title (e : MapEntry) : String := Text.Utf8.text (upToZero (Text.Utf8.bytes e.name))

/-- The map as it is read back. -/
def map (m : Memory) (e : MapEntry) : AddressMap :=
  ⟨m.address e.place, e.id, e.title, e.start, e.stop, e.access, 0⟩

theorem pieces_frame {touched : Nat → Prop} {m after : Memory} (hf : Frame touched m after)
    (e : MapEntry) : e.pieces after = e.pieces m := by
  simp only [pieces, hf.order, hf.address_eq]

theorem map_of_base {m t : Memory} (h : t.base = m.base) (e : MapEntry) : e.map t = e.map m := by
  simp only [map, address_of_base h]

theorem title_eq {e : MapEntry} (h : 0 ∉ Text.Utf8.bytes e.name) : e.title = e.name := by
  unfold title
  rw [upToZero_eq_self h, Text.Utf8.text_bytes]

/-- **A map whose pieces lie in a page is read as what was put there.** -/
theorem load_eq {m : Memory} {e : MapEntry} (hm : m.Proper) (h : m.HoldsAll (e.pieces m)) :
    AddressMap.load m (m.address e.place) = .ok (e.map m) := by
  simp only [HoldsAll, pieces, List.forall_mem_cons] at h
  obtain ⟨hwords, hid, hpointer, hname, -⟩ := h
  have hid' : m.read (m.address e.place + AddressMap.idField) 1 = .ok [e.id] := by
    rw [show AddressMap.idField = UInt32.ofNat 24 from rfl, address_add]
    exact hid.read
  have hpointer' : m.readWord (m.address e.place + AddressMap.nameField)
      = .ok (m.address e.namePlace) := by
    rw [show AddressMap.nameField = UInt32.ofNat 28 from rfl, address_add]
    exact Holds.readWord hpointer
  have hname' : m.readText (m.address e.namePlace) = .ok e.title := by
    simp only [readText, hname.readBytes_upToZero, bind, Except.bind, pure, Except.pure, title]
  have hfield : ∀ i word, [0, e.start, e.stop, e.access][i]? = some word →
      m.readWord (m.address e.place + UInt32.ofNat (8 + 4 * i)) = .ok word := by
    intro i word hi
    rw [address_add, ← Nat.add_assoc]
    exact (hwords.word hm hi).readWord
  have hentries : m.readWord (m.address e.place + AddressMap.entriesField) = .ok 0 :=
    hfield 0 0 rfl
  have hstart : m.readWord (m.address e.place + AddressMap.startField) = .ok e.start :=
    hfield 1 e.start rfl
  have hstop : m.readWord (m.address e.place + AddressMap.stopField) = .ok e.stop :=
    hfield 2 e.stop rfl
  have haccess : m.readWord (m.address e.place + AddressMap.accessField) = .ok e.access :=
    hfield 3 e.access rfl
  unfold AddressMap.load
  simp only [hid', hpointer', hname', hentries, hstart, hstop, haccess, bind, Except.bind, pure,
    Except.pure]
  rfl

end MapEntry

namespace AddressMap

theorem sum_blockSizes (name : String) :
    ((blockSizes name).map roundUp).sum = 32 + roundUp ((Text.Utf8.bytes name).length + 1) := by
  simp [blockSizes, recordSize, roundUp_eq]

/-- The three writes into the record of a map leave its fields. -/
theorem fill_spec {m : Memory} {place : Nat} (hm : m.Proper) (hin : place + 32 ≤ m.size)
    (id : UInt8) (start stop access pointer : UInt32) :
    ∃ m1 m2 after,
      Memory.writeWords (m.address place + entriesField) [0, start, stop, access] m = .ok () m1
      ∧ Memory.write (m.address place + idField) [id] m1 = .ok () m2
      ∧ Memory.writeWord (m.address place + nameField) pointer m2 = .ok () after
      ∧ after.size = m.size ∧ Frame (InRange (place + 8) 24) m after
      ∧ after.Holds (place + 8) ([0, start, stop, access].flatMap after.order.encode)
      ∧ after.Holds (place + 24) [id] ∧ after.HoldsWord (place + 28) pointer := by
  have hb := hm.bounded
  have hin1 : place + 8 + 4 * [0, start, stop, access].length ≤ m.size := by
    show place + 8 + 4 * 4 ≤ m.size
    omega
  obtain ⟨m1, hw1, hs1, hf1, hwords⟩ := writeWords_spec [0, start, stop, access]
    (hm.address_lt (by omega)) hin1
  have hm1 := hm.frame hf1 hs1
  have hin2 : place + 24 + [id].length ≤ m1.size := by
    show place + 24 + 1 ≤ m1.size
    omega
  obtain ⟨m2, hw2, hs2, hf2, hid⟩ := write_spec
    (hm1.address_lt (by rw [hf1.capacity]; omega)) hin2
  have hm2 := hm1.frame hf2 hs2
  have hin3 : place + 28 + 4 ≤ m2.size := by omega
  obtain ⟨after, hw3, hs3, hf3, hpointer⟩ := writeWord_spec pointer
    (hm2.address_lt (by rw [hf2.capacity, hf1.capacity]; omega)) hin3
  have hf23 := hf2.trans hf3
  have hf := hf1.trans hf23
  refine ⟨m1, m2, after, ?_, ?_, ?_, by omega, hf.mono ?_, ?_, ?_, hpointer⟩
  · rw [show entriesField = UInt32.ofNat 8 from rfl, address_add]
    exact hw1
  · rw [show idField = UInt32.ofNat 24 from rfl, address_add, ← hf1.address_eq]
    exact hw2
  · rw [show nameField = UInt32.ofNat 28 from rfl, address_add, ← hf1.address_eq, ← hf2.address_eq]
    exact hw3
  · intro k _ hk
    simp only [InRange, List.length_cons, List.length_nil] at hk ⊢
    omega
  -- no field is touched by the writes that come after its own
  · rw [hf.order]
    apply hwords.frame hf23
    intro k hk hk'
    simp only [InRange, length_words, List.length_cons, List.length_nil] at hk hk'
    omega
  · apply hid.frame hf3
    intro k hk hk'
    simp only [InRange, List.length_cons, List.length_nil] at hk hk'
    omega

/-- **A map that fits is laid down where the page ends.** -/
theorem put_of_lt {m : Memory} (hm : m.Proper) (id : UInt8) (name : String)
    (start stop access : UInt32)
    (h : m.size + ((blockSizes name).map roundUp).sum < m.capacity) :
    ∃ after, put id name start stop access m = .ok (m.address m.size) after
      ∧ after.size = m.size + ((blockSizes name).map roundUp).sum ∧ m.Extends after ∧ after.Proper
      ∧ after.HoldsAll
        (MapEntry.pieces after ⟨m.size, m.size + 32, id, name, start, stop, access⟩) := by
  rw [sum_blockSizes] at h ⊢
  have hround : roundUp recordSize = 32 := rfl
  have hlen : (Text.Utf8.bytes name ++ [0]).length = (Text.Utf8.bytes name).length + 1 := by simp
  have hfit1 : m.size + roundUp recordSize < m.capacity := by omega
  obtain ⟨m1, hr, hs1, he1, hm1⟩ := reserve_of_lt hm hfit1
  have hfit2 : m1.size + roundUp (Text.Utf8.bytes name ++ [0]).length < m1.capacity := by
    rw [he1.capacity, hlen]
    omega
  obtain ⟨m2, hst, hs2, he2, hm2, hname⟩ := store_of_lt hm1 hfit2
  have he12 := he1.extends_trans he2
  rw [hlen] at hs2
  rw [hs1, hround] at hname
  obtain ⟨m3, m4, after, hw1, hw2, hw3, hs, hf, hwords, hid, hpointer⟩ := fill_spec hm2
    (show m.size + 32 ≤ m2.size by omega) id start stop access (m1.address m1.size)
  rw [he12.address_eq] at hw1 hw2 hw3
  have he := he12.extends_of_fresh hf fun k hk => by
    simp only [InRange] at hk
    omega
  have hplace : m1.address m1.size = after.address (m.size + 32) := by
    rw [he.address_eq, he1.address_eq, hs1, hround]
  refine ⟨after, ?_, by omega, he, hm2.frame hf hs, ?_⟩
  · unfold put
    rw [Edit.bind_of_ok hr, Edit.bind_of_ok hst, Edit.bind_of_ok hw1, Edit.bind_of_ok hw2,
      Edit.bind_of_ok hw3]
    rfl
  · simp only [HoldsAll, MapEntry.pieces, List.forall_mem_cons, List.not_mem_nil, false_implies,
      implies_true, and_true]
    refine ⟨hwords, hid, hplace ▸ hpointer, ?_⟩
    -- the name lies behind the record
    apply hname.frame hf
    intro k hk hk'
    simp only [InRange] at hk hk'
    omega

/-- Any other map is refused, and the page has only been added to. -/
theorem put_of_le {m : Memory} (hm : m.Proper) (id : UInt8) (name : String)
    (start stop access : UInt32)
    (h : m.capacity ≤ m.size + ((blockSizes name).map roundUp).sum) :
    ∃ fault after, put id name start stop access m = .error fault after
      ∧ fault.kind = .allocationFailed ∧ m.Extends after ∧ after.Proper := by
  rw [sum_blockSizes] at h
  have hround : roundUp recordSize = 32 := rfl
  have hlen : (Text.Utf8.bytes name ++ [0]).length = (Text.Utf8.bytes name).length + 1 := by simp
  by_cases hfit : m.size + roundUp recordSize < m.capacity
  · obtain ⟨m1, hr, hs1, he1, hm1⟩ := reserve_of_lt hm hfit
    have hfull : m1.capacity ≤ m1.size + roundUp (Text.Utf8.bytes name ++ [0]).length := by
      rw [he1.capacity, hlen]
      omega
    refine ⟨.noRoom (Text.Utf8.bytes name ++ [0]).length m1.size m1.capacity, m1, ?_, rfl, he1, hm1⟩
    unfold put
    rw [Edit.bind_of_ok hr, Edit.bind_of_error (store_of_le hm1 hfull)]
  · refine ⟨.noRoom recordSize m.size m.capacity, m, ?_, rfl, .refl _ m, hm⟩
    unfold put
    rw [Edit.bind_of_error (reserve_of_le hm (Nat.le_of_not_lt hfit))]

end AddressMap

/-! ## §3. Programs. -/

/-- A program that was put into a page: where its record and the blocks of it lie, and what it
says. -/
structure ProgramEntry where
  place : Nat
  dataPlace : Nat
  instructionPlace : Nat
  argvPlace : Nat
  plan : Program.Plan
  deriving DecidableEq, Repr

namespace ProgramEntry

/-- The words of the record behind its links. -/
def words (m : Memory) (e : ProgramEntry) : List UInt32 :=
  [e.plan.payload.address, e.plan.payload.stop, m.address e.argvPlace,
    UInt32.ofNat e.plan.instructionMaps.length, m.address e.instructionPlace,
    UInt32.ofNat e.plan.dataMaps.length, m.address e.dataPlace]

/-- The words of the record, the ids and the argument text. -/
def pieces (m : Memory) (e : ProgramEntry) : List Piece :=
  [⟨e.place + 8, (e.words m).flatMap m.order.encode⟩, ⟨e.dataPlace, e.plan.dataMaps⟩,
    ⟨e.instructionPlace, e.plan.instructionMaps⟩, ⟨e.argvPlace, e.plan.argv ++ [0]⟩]

/-- The program as it is read back. -/
def program (m : Memory) (e : ProgramEntry) : Program :=
  ⟨m.address e.place, e.plan.payload.address, e.plan.payload.stop,
    Text.Utf8.bytes (Text.Utf8.text (upToZero e.plan.argv)), e.plan.instructionMaps,
    e.plan.dataMaps⟩

theorem program_of_base {m t : Memory} (h : t.base = m.base) (e : ProgramEntry) :
    e.program t = e.program m := by
  simp only [program, address_of_base h]

theorem pieces_frame {touched : Nat → Prop} {m after : Memory} (hf : Frame touched m after)
    (e : ProgramEntry) : e.pieces after = e.pieces m := by
  simp only [pieces, words, hf.order, hf.address_eq]

end ProgramEntry

/-- The number of bytes behind the first one of a page fits a word. -/
theorem Memory.Holds.toNat_length {m : Memory} {place : Nat} {bytes : List UInt8} (hm : m.Proper)
    (h : m.Holds place bytes) (hplace : 0 < place) :
    (UInt32.ofNat bytes.length).toNat = bytes.length := by
  have hin := h.inside
  have hb := hm.bounded
  have ha : m.base.toNat + m.capacity ≤ 2 ^ 32 := hm.addressed
  rw [UInt32.toNat_ofNat']
  omega

theorem Program.loadIds_eq {m : Memory} {count list : UInt32} {place : Nat} {ids : List UInt8}
    (hm : m.Proper) (hcount : m.readWord count = .ok (UInt32.ofNat ids.length))
    (hlist : m.readWord list = .ok (m.address place)) (hplace : 0 < place)
    (hids : m.Holds place ids) : Program.loadIds m count list = .ok ids := by
  simp only [Program.loadIds, hcount, hlist, bind, Except.bind, hids.toNat_length hm hplace]
  exact hids.read

namespace ProgramEntry

/-- **A program whose pieces lie in a page is read as what was put there.** -/
theorem load_eq {m : Memory} {e : ProgramEntry} (hm : m.Proper) (h : m.HoldsAll (e.pieces m))
    (hdata : 0 < e.dataPlace) (hinstructions : 0 < e.instructionPlace) :
    Program.load m (m.address e.place) = .ok (e.program m) := by
  simp only [HoldsAll, pieces, List.forall_mem_cons] at h
  obtain ⟨hwords, hdataMaps, hinstructionMaps, hargv, -⟩ := h
  have hfield : ∀ i word, (e.words m)[i]? = some word →
      m.readWord (m.address e.place + UInt32.ofNat (8 + 4 * i)) = .ok word := by
    intro i word hi
    rw [address_add, ← Nat.add_assoc]
    exact (hwords.word hm hi).readWord
  have hstart : m.readWord (m.address e.place + Program.startField) = .ok e.plan.payload.address :=
    hfield 0 _ rfl
  have hstop : m.readWord (m.address e.place + Program.stopField) = .ok e.plan.payload.stop :=
    hfield 1 _ rfl
  have hpointer : m.readWord (m.address e.place + Program.argvField)
      = .ok (m.address e.argvPlace) := hfield 2 _ rfl
  have hargv' : m.readText (m.address e.argvPlace)
      = .ok (Text.Utf8.text (upToZero e.plan.argv)) := by
    simp only [readText, hargv.readBytes_upToZero, bind, Except.bind, pure, Except.pure]
  have hinstructionMaps' := Program.loadIds_eq hm (hfield 3 _ rfl) (hfield 4 _ rfl) hinstructions
    hinstructionMaps
  have hdataMaps' := Program.loadIds_eq hm (hfield 5 _ rfl) (hfield 6 _ rfl) hdata hdataMaps
  change Program.loadIds m (m.address e.place + Program.instructionCountField)
    (m.address e.place + Program.instructionMapsField) = _ at hinstructionMaps'
  change Program.loadIds m (m.address e.place + Program.dataCountField)
    (m.address e.place + Program.dataMapsField) = _ at hdataMaps'
  unfold Program.load
  simp only [hstart, hstop, hpointer, hargv', hinstructionMaps', hdataMaps', bind, Except.bind,
    pure, Except.pure]
  rfl

end ProgramEntry

namespace Program.Plan

theorem sum_blockSizes (plan : Plan) :
    (plan.blockSizes.map roundUp).sum = 40 + roundUp plan.dataMaps.length
      + roundUp plan.instructionMaps.length + roundUp (plan.argv.length + 1) := by
  have hround : roundUp recordSize = 40 := rfl
  simp only [blockSizes, List.map_cons, List.map_nil, List.sum_cons, List.sum_nil, hround]
  omega

/-- What a planned program that fits becomes in a page. -/
def entry (m : Memory) (plan : Plan) : ProgramEntry where
  place := m.size
  dataPlace := m.size + 40
  instructionPlace := m.size + 40 + roundUp plan.dataMaps.length
  argvPlace := m.size + 40 + roundUp plan.dataMaps.length + roundUp plan.instructionMaps.length
  plan := plan

theorem entry_words (m : Memory) (plan : Plan) :
    (plan.entry m).words m = [plan.payload.address, plan.payload.stop,
      m.address (m.size + 40 + roundUp plan.dataMaps.length + roundUp plan.instructionMaps.length),
      UInt32.ofNat plan.instructionMaps.length,
      m.address (m.size + 40 + roundUp plan.dataMaps.length), UInt32.ofNat plan.dataMaps.length,
      m.address (m.size + 40)] := rfl

/-- **A planned program that fits is laid down where the page ends.** -/
theorem put_of_lt {m : Memory} (hm : m.Proper) (plan : Plan)
    (h : m.size + (plan.blockSizes.map roundUp).sum < m.capacity) :
    ∃ after, plan.put m = .ok (m.address m.size) after
      ∧ after.size = m.size + (plan.blockSizes.map roundUp).sum ∧ m.Extends after ∧ after.Proper
      ∧ after.HoldsAll ((plan.entry m).pieces after) := by
  rw [sum_blockSizes] at h ⊢
  have hround : roundUp recordSize = 40 := rfl
  have hlen : (plan.argv ++ [0]).length = plan.argv.length + 1 := by simp
  have hfit1 : m.size + roundUp recordSize < m.capacity := by omega
  obtain ⟨m1, hr, hs1, he1, hm1⟩ := reserve_of_lt hm hfit1
  rw [hround] at hs1
  have hfit2 : m1.size + (roundUp plan.dataMaps.length + roundUp plan.instructionMaps.length
      + roundUp (plan.argv ++ [0]).length) < m1.capacity := by
    rw [he1.capacity, hlen]
    omega
  obtain ⟨m2, m3, m4, hst2, hst3, hst4, hs4, he14, hm4, hdata, hinstructions, hargv⟩ :=
    store_three_of_lt hm1 hfit2
  rw [hlen] at hs4
  have he4 := he1.extends_trans he14
  have hb4 := hm4.bounded
  have hle := le_roundUp (plan.argv.length + 1)
  -- the one write into the record
  have hin : m.size + 8 + 4 * ((plan.entry m).words m).length ≤ m4.size := by
    show m.size + 8 + 4 * 7 ≤ m4.size
    omega
  obtain ⟨after, hw, hs, hf, hwords⟩ := writeWords_spec ((plan.entry m).words m)
    (hm4.address_lt (by omega)) hin
  replace hf : Frame (InRange (m.size + 8) 28) m4 after := hf
  have he := he4.extends_of_fresh hf fun k hk => Nat.le_trans (Nat.le_add_right _ _) hk.1
  refine ⟨after, ?_, by omega, he, hm4.frame hf hs, ?_⟩
  · rw [he4.address_eq, ← address_add, entry_words] at hw
    rw [he1.address_eq, hs1] at hst2 hst3 hst4
    change Memory.writeWords (m.address m.size + startField) _ m4 = _ at hw
    unfold put
    rw [Edit.bind_of_ok hr, Edit.bind_of_ok hst2, Edit.bind_of_ok hst3, Edit.bind_of_ok hst4,
      Edit.bind_of_ok hw]
    rfl
  · have hsame : (plan.entry m).words after = (plan.entry m).words m := by
      simp only [ProgramEntry.words, he.address_eq]
    simp only [HoldsAll, ProgramEntry.pieces, hsame, List.forall_mem_cons, List.not_mem_nil,
      false_implies, implies_true, and_true]
    rw [hs1] at hdata hinstructions hargv
    rw [hf.order]
    -- the blocks lie behind the record
    refine ⟨hwords, hdata.frame hf ?_, hinstructions.frame hf ?_, hargv.frame hf ?_⟩
    all_goals
      intro k hk hk'
      simp only [InRange] at hk hk'
      omega

/-- Any other planned program is refused, and the page has only been added to. -/
theorem put_of_le {m : Memory} (hm : m.Proper) (plan : Plan)
    (h : m.capacity ≤ m.size + (plan.blockSizes.map roundUp).sum) :
    ∃ fault after, plan.put m = .error fault after
      ∧ fault.kind = .allocationFailed ∧ m.Extends after ∧ after.Proper := by
  rw [sum_blockSizes] at h
  have hround : roundUp recordSize = 40 := rfl
  have hlen : (plan.argv ++ [0]).length = plan.argv.length + 1 := by simp
  by_cases hfit1 : m.size + roundUp recordSize < m.capacity
  case neg =>
    refine ⟨.noRoom recordSize m.size m.capacity, m, ?_, rfl, .refl _ m, hm⟩
    unfold put
    rw [Edit.bind_of_error (reserve_of_le hm (Nat.le_of_not_lt hfit1))]
  obtain ⟨m1, hr, hs1, he1, hm1⟩ := reserve_of_lt hm hfit1
  by_cases hfit2 : m1.size + roundUp plan.dataMaps.length < m1.capacity
  case neg =>
    refine ⟨.noRoom plan.dataMaps.length m1.size m1.capacity, m1, ?_, rfl, he1, hm1⟩
    unfold put
    rw [Edit.bind_of_ok hr, Edit.bind_of_error (store_of_le hm1 (Nat.le_of_not_lt hfit2))]
  obtain ⟨m2, hst2, hs2, he2, hm2, -⟩ := store_of_lt hm1 hfit2
  have he12 := he1.extends_trans he2
  by_cases hfit3 : m2.size + roundUp plan.instructionMaps.length < m2.capacity
  case neg =>
    refine ⟨.noRoom plan.instructionMaps.length m2.size m2.capacity, m2, ?_, rfl, he12, hm2⟩
    unfold put
    rw [Edit.bind_of_ok hr, Edit.bind_of_ok hst2,
      Edit.bind_of_error (store_of_le hm2 (Nat.le_of_not_lt hfit3))]
  obtain ⟨m3, hst3, hs3, he3, hm3, -⟩ := store_of_lt hm2 hfit3
  have he13 := he12.extends_trans he3
  have hfull : m3.capacity ≤ m3.size + roundUp (plan.argv ++ [0]).length := by
    rw [he13.capacity, hlen]
    omega
  refine ⟨.noRoom (plan.argv ++ [0]).length m3.size m3.capacity, m3, ?_, rfl, he13, hm3⟩
  unfold put
  rw [Edit.bind_of_ok hr, Edit.bind_of_ok hst2, Edit.bind_of_ok hst3,
    Edit.bind_of_error (store_of_le hm3 hfull)]

end Program.Plan
end SystemPage
