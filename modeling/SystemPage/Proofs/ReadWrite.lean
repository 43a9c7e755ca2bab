/-
  SystemPage.Proofs.ReadWrite — the laws of reading and writing at addresses.

  Every other module reads and writes where it knows something to lie.  Here an address is any word
  and a range has any length, so ranges may overlap, lie at odd addresses, or reach past the last
  address of the target.  Addresses and lengths are added as natural numbers: no range wraps around.

  Whether an access succeeds depends on where its range lies and on nothing else.  What a write
  leaves is told by `Written`: the range that was written reads as what was written to it, and any
  range apart from it reads as before, whether or not it can be read.

  Main results:

      read_reaches, readWord_reaches  — a range is read where the page covers it
      write_writes, writeWord_writes  — it is written there, and refused without a change elsewhere
      Written.readText                — a text that was written is read up to its end
      exists_readText_error_iff       — no text is read where none ends
      accesses_exact                  — the laws of one address
-/
import SystemPage.Proofs.Legible

namespace SystemPage
namespace Memory

open Text

variable {m after : Memory} {address : UInt32} {length : Nat} {new : List UInt8}

/-! ## §1. Ranges. -/

/-- An access to a range of addresses finds something if the page covers the range, and is refused
for its address if not. -/
def Reaches {α : Type} (m : Memory) (address : UInt32) (length : Nat) (found : Except Fault α) :
    Prop :=
  (m.Covers address length → ∃ a, found = .ok a)
    ∧ (¬ m.Covers address length → ∃ fault, found = .error fault ∧ fault.kind = .invalidAddress)

theorem offset_of_covers (h : m.Covers address length) :
    m.offset address length = .ok (address.toNat - m.base.toNat) := by
  have hbase := h.1
  have hend := h.2
  exact offset_eq_ok_iff.2 ⟨by omega, by omega⟩

theorem offset_of_not_covers (h : ¬ m.Covers address length) :
    m.offset address length = .error (.outside address length m.base m.size) := by
  unfold offset
  apply if_neg
  intro hin
  exact h ⟨hin.1, by omega⟩

/-- Where a range lies depends on the place and the size of the page only. -/
theorem offset_congr (hbase : after.base = m.base) (hsize : after.size = m.size) :
    after.offset address length = m.offset address length := by
  unfold offset
  rw [hbase, hsize]

/-! ## §2. Reading. -/

theorem read_of_not_covers (h : ¬ m.Covers address length) :
    m.read address length = .error (.outside address length m.base m.size) := by
  unfold read
  rw [offset_of_not_covers h]
  rfl

/-- **Bytes are read where the page covers them.** -/
theorem read_reaches (m : Memory) (address : UInt32) (length : Nat) :
    Reaches m address length (m.read address length) := by
  constructor
  · intro h
    obtain ⟨bytes, hlength, hbytes⟩ := h.exists_bytesAt
    exact ⟨bytes, read_eq_ok_iff.2 ⟨hlength, hbytes⟩⟩
  · intro h
    exact ⟨_, read_of_not_covers h, rfl⟩

/-- **A word is read where the page covers its four bytes.** -/
theorem readWord_reaches (m : Memory) (address : UInt32) :
    Reaches m address 4 (m.readWord address) := by
  constructor
  · intro h
    obtain ⟨word, hword⟩ := h.exists_wordAt
    exact ⟨word, readWord_eq_ok_iff.2 hword⟩
  · intro h
    have hread : m.read address ByteOrder.wordSize = .error (.outside address 4 m.base m.size) :=
      read_of_not_covers h
    refine ⟨.outside address 4 m.base m.size, ?_, rfl⟩
    unfold readWord
    rw [hread]
    rfl

/-- A word reads as its bytes do. -/
theorem readWord_congr (horder : after.order = m.order)
    (h : after.read address 4 = m.read address 4) :
    after.readWord address = m.readWord address := by
  unfold readWord
  rw [horder, show after.read address ByteOrder.wordSize = m.read address ByteOrder.wordSize from h]

/-- What is not touched reads as before. -/
theorem Frame.read_eq {touched : Nat → Prop} (h : Frame touched m after)
    (hsize : after.size = m.size)
    (hn : ∀ k, InRange address.toNat length (m.base.toNat + k) → ¬ touched k) :
    after.read address length = m.read address length := by
  unfold read
  rw [offset_congr h.base hsize]
  cases hstart : m.offset address length with
  | error fault => rfl
  | ok start =>
    obtain ⟨haddress, hin⟩ := offset_eq_ok_iff.1 hstart
    show Except.ok (after.cells.slice start length) = .ok (m.cells.slice start length)
    rw [Cells.slice_congr]
    intro k hle hlt
    exact h.kept k (by omega) (hn k ⟨by omega, by omega⟩)

/-! ## §3. Writing. -/

/-- What a page is after bytes were written to a range of its addresses. -/
structure Written (m : Memory) (address : UInt32) (new : List UInt8) (after : Memory) : Prop where
  base : after.base = m.base
  capacity : after.capacity = m.capacity
  order : after.order = m.order
  size : after.size = m.size
  -- the range reads as what was written to it
  found : after.read address new.length = .ok new
  -- and as a word, in the byte order of the page, if that is what was written
  foundWord : ∀ word, new = m.order.encode word → after.readWord address = .ok word
  -- a range apart from it reads as before
  apart : ∀ (other : UInt32) (length : Nat),
    (∀ k, InRange other.toNat length k → ¬ InRange address.toNat new.length k) →
      after.read other length = m.read other length
  -- and so does a word
  apartWord : ∀ other : UInt32,
    (∀ k, InRange other.toNat 4 k → ¬ InRange address.toNat new.length k) →
      after.readWord other = m.readWord other

/-- An edit that writes bytes to a range of addresses if the page covers the range, and is refused
for its address if not, which leaves the page as it is. -/
def Writes (m : Memory) (address : UInt32) (new : List UInt8) (edit : Edit Memory Unit) : Prop :=
  (m.Covers address new.length → ∃ after, edit m = .ok () after ∧ Written m address new after)
    ∧ (¬ m.Covers address new.length →
      ∃ fault, edit m = .error fault m ∧ fault.kind = .invalidAddress)

theorem write_of_covers (h : m.Covers address new.length) :
    ∃ after, Memory.write address new m = .ok () after ∧ Written m address new after := by
  have hlt : address.toNat < addressSpace := address.toNat_lt
  obtain ⟨hbase, hend⟩ := h
  have hplace : m.base.toNat + (address.toNat - m.base.toNat) < addressSpace := by omega
  have hin : address.toNat - m.base.toNat + new.length ≤ m.size := by omega
  have hspec := write_spec hplace hin
  rw [address_sub hbase] at hspec
  obtain ⟨after, hwrite, hsize, hframe, hholds⟩ := hspec
  have hbytes : after.BytesAt address new := by
    unfold BytesAt
    rw [hframe.base]
    exact ⟨hbase, hholds⟩
  have hapart : ∀ (other : UInt32) (length : Nat),
      (∀ k, InRange other.toNat length k → ¬ InRange address.toNat new.length k) →
        after.read other length = m.read other length := by
    intro other length hn
    apply hframe.read_eq hsize
    -- the write touched distances from the base, the two ranges are told apart by addresses
    intro k hk htouched
    have hle := htouched.1
    have hlt := htouched.2
    exact hn _ hk ⟨by omega, by omega⟩
  have hword : ∀ word, new = m.order.encode word → after.readWord address = .ok word := by
    intro word hnew
    rw [readWord_eq_ok_iff]
    show after.BytesAt address (after.order.encode word)
    rw [hframe.order, ← hnew]
    exact hbytes
  exact ⟨after, hwrite, hframe.base, hframe.capacity, hframe.order, hsize,
    read_eq_ok_iff.2 ⟨rfl, hbytes⟩, hword, hapart,
    fun other hn => readWord_congr hframe.order (hapart other 4 hn)⟩

/-- **Bytes are written where the page covers them.** -/
theorem write_writes (m : Memory) (address : UInt32) (new : List UInt8) :
    Writes m address new (Memory.write address new) := by
  constructor
  · exact write_of_covers
  · intro h
    refine ⟨.outside address new.length m.base m.size, ?_, rfl⟩
    unfold Memory.write
    rw [offset_of_not_covers h]

/-- A word is written as its bytes are. -/
theorem writeWord_eq (m : Memory) (address word : UInt32) :
    writeWord address word m = Memory.write address (m.order.encode word) m := by
  unfold writeWord writeWords
  rw [List.flatMap_singleton]

/-- **A word is written where the page covers its four bytes.** -/
theorem writeWord_writes (m : Memory) (address word : UInt32) :
    Writes m address (m.order.encode word) (writeWord address word) := by
  unfold Writes
  rw [writeWord_eq]
  exact write_writes m address _

/-- What finishes has written. -/
theorem Writes.of_ok {edit : Edit Memory Unit} (h : Writes m address new edit)
    (hedit : edit m = .ok () after) : Written m address new after := by
  by_cases hcovers : m.Covers address new.length
  · obtain ⟨found, hfound, hwritten⟩ := h.1 hcovers
    rw [hedit] at hfound
    cases hfound
    exact hwritten
  · obtain ⟨fault, hfault, -⟩ := h.2 hcovers
    rw [hedit] at hfault
    cases hfault

namespace Written

/-- What was written lies there. -/
theorem bytesAt (h : Written m address new after) : after.BytesAt address new :=
  (read_eq_ok_iff.1 h.found).2

/-- **A text that was written is read up to the zero byte that ends it**, whatever is behind. -/
theorem readText {text : String} {behind : List UInt8}
    (h : Written m address (Utf8.bytes text ++ 0 :: behind) after)
    (hzero : Char.ofNat 0 ∉ text.toList) : after.readText address = .ok text := by
  obtain ⟨hbase, hholds⟩ := h.bytesAt
  have hplain : 0 ∉ Utf8.bytes text := by
    rw [Utf8.zero_mem_bytes_iff]
    exact hzero
  have hread := hholds.readBytes hplain
  rw [address_sub hbase] at hread
  unfold Memory.readText
  rw [hread]
  show Except.ok (Utf8.text (Utf8.bytes text)) = .ok text
  rw [Utf8.text_bytes]

end Written

/-! ## §4. Texts. -/

/-- A text ends in the page if there is a zero among the bytes of the page from its address on. -/
theorem ended_iff :
    m.Ended address
      ↔ m.Covers address 0 ∧ 0 ∈ m.bytes.drop (address.toNat - m.base.toNat) := by
  constructor
  · intro h
    obtain ⟨hbase, stop, hle, hlt, hzero⟩ := h
    refine ⟨⟨hbase, by omega⟩, ?_⟩
    apply List.mem_of_getElem? (i := stop - (address.toNat - m.base.toNat))
    rw [List.getElem?_drop, getElem?_bytes, ← hzero,
      show address.toNat - m.base.toNat + (stop - (address.toNat - m.base.toNat)) = stop by omega,
      if_pos hlt]
  · intro h
    obtain ⟨⟨hbase, hend⟩, hmem⟩ := h
    obtain ⟨i, hi⟩ := List.mem_iff_getElem?.1 hmem
    rw [List.getElem?_drop, getElem?_bytes] at hi
    by_cases hlt : address.toNat - m.base.toNat + i < m.size
    · rw [if_pos hlt] at hi
      exact ⟨hbase, _, by omega, hlt, Option.some.inj hi⟩
    · rw [if_neg hlt] at hi
      cases hi

/-- A text that cannot be read is refused for its address. -/
theorem kind_of_readText_error {fault : Fault} (h : m.readText address = .error fault) :
    fault.kind = .invalidAddress := by
  unfold readText readBytes at h
  by_cases hcovers : m.Covers address 0
  · rw [offset_of_covers hcovers] at h
    cases hstop : m.cells.firstZero? m.size (address.toNat - m.base.toNat) with
    | some stop =>
      simp only [bind, Except.bind, hstop] at h
      cases h
    | none =>
      simp only [bind, Except.bind, hstop] at h
      cases h
      rfl
  · rw [offset_of_not_covers hcovers] at h
    cases h
    rfl

/-- **No text is read where none ends.** -/
theorem exists_readText_error_iff :
    (∃ fault, m.readText address = .error fault)
      ↔ ¬ m.Covers address 0 ∨ 0 ∉ m.bytes.drop (address.toNat - m.base.toNat) := by
  rw [← not_and_or, ← ended_iff, ← exists_readText_iff]
  cases m.readText address with
  | ok text => simp
  | error fault => simp

/-! ## §5. The laws of an address. -/

/-- **Reading and writing at an address, whatever the page holds.** -/
theorem accesses_exact (m : Memory) (address : UInt32) :
    (∀ length, Reaches m address length (m.read address length))
      ∧ Reaches m address 4 (m.readWord address)
      ∧ (∀ new, Writes m address new (Memory.write address new))
      ∧ (∀ word, Writes m address (m.order.encode word) (writeWord address word))
      ∧ (∀ (text : String) (behind : List UInt8) (after : Memory), Char.ofNat 0 ∉ text.toList →
        Memory.write address (Utf8.bytes text ++ 0 :: behind) m = .ok () after →
          after.readText address = .ok text)
      ∧ ((∃ fault, m.readText address = .error fault)
        ↔ ¬ m.Covers address 0 ∨ 0 ∉ m.bytes.drop (address.toNat - m.base.toNat))
      ∧ ∀ fault, m.readText address = .error fault → fault.kind = .invalidAddress := by
  refine ⟨read_reaches m address, readWord_reaches m address, write_writes m address,
    writeWord_writes m address, ?_, exists_readText_error_iff, ?_⟩
  · intro text behind after hzero hwrite
    exact ((write_writes m address _).of_ok hwrite).readText hzero
  · intro fault hfault
    exact kind_of_readText_error hfault

/-- A page that ends 8 addresses before the last one of the target: a word at an odd address, the
word before it, a word that reaches past the page by one byte, and a text with more behind it. -/
theorem accesses_exact_last_addresses :
    ∃ m, create 0xffffffe0 0 32 20 .big = .ok m
      ∧ (∃ after, writeWord 0xfffffff3 0x01020304 m = .ok () after
        ∧ after.readWord 0xfffffff3 = .ok 0x01020304
        ∧ after.readWord 0xffffffef = m.readWord 0xffffffef)
      ∧ (∃ fault, writeWord 0xfffffff5 0x01020304 m = .error fault m
        ∧ fault.kind = .invalidAddress)
      ∧ ∃ after, Memory.write 0xffffffe1 (Utf8.bytes "ö" ++ [0, 0x31]) m = .ok () after
        ∧ after.readText 0xffffffe1 = .ok "ö" := by
  refine ⟨⟨0xffffffe0, 32, .big, 24, .blank⟩, rfl, ?_, ?_, ?_⟩
  · obtain ⟨-, -, -, hword, -⟩ :=
      accesses_exact ⟨0xffffffe0, 32, .big, 24, .blank⟩ 0xfffffff3
    obtain ⟨after, hwrite, hwritten⟩ := (hword 0x01020304).1 (by unfold Covers; decide)
    refine ⟨after, hwrite, hwritten.foundWord 0x01020304 rfl, hwritten.apartWord 0xffffffef ?_⟩
    intro k hk hk'
    have hlt : k < 0xffffffef + 4 := hk.2
    have hle : 0xfffffff3 ≤ k := hk'.1
    omega
  · obtain ⟨-, -, -, hword, -⟩ :=
      accesses_exact ⟨0xffffffe0, 32, .big, 24, .blank⟩ 0xfffffff5
    exact (hword 0x01020304).2 (by unfold Covers; decide)
  · obtain ⟨-, -, hwrites, -, htext, -⟩ :=
      accesses_exact ⟨0xffffffe0, 32, .big, 24, .blank⟩ 0xffffffe1
    obtain ⟨after, hwrite, -⟩ :=
      (hwrites (Utf8.bytes "ö" ++ [0, 0x31])).1 (by unfold Covers; decide)
    exact ⟨after, hwrite, htext "ö" [0x31] after (by decide) hwrite⟩

end Memory
end SystemPage
