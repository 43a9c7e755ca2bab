/-
  SystemPage.Proofs.Store — what reads find after growth and writes.

  Two predicates carry every argument about the bytes of a page.  `Holds` says which bytes lie at
  a distance from its base, `Frame` says how the page may have changed between two moments.  What
  a page holds survives a change that does not touch it, so nothing later on looks at the cells.

  Main results:

      Holds.frame      — what is not touched stays
      Holds.read, Holds.readWord, Holds.readBytes
                       — what a page holds is what reading it finds
      write_spec       — a write inside the page touches its own range only
      reserve_of_lt, reserve_of_le, store_of_lt, store_of_le
                       — a block fits or is refused, by the size that the page would have
      write_eq, reserve_eq, store_eq
                       — the pages that edits leave
-/
import SystemPage.Memory

namespace SystemPage

/-! ## §1. Edits in sequence. -/

namespace Edit

/-- After an edit that finishes the next one starts where it stopped. -/
theorem bind_of_ok {σ α β : Type} {edit : Edit σ α} {rest : α → Edit σ β} {s after : σ} {a : α}
    (h : edit s = .ok a after) : (edit >>= rest) s = rest a after := by
  simp only [bind, EStateM.bind, h]

/-- After an edit that fails there is no next one. -/
theorem bind_of_error {σ α β : Type} {edit : Edit σ α} {rest : α → Edit σ β} {s after : σ}
    {fault : Fault} (h : edit s = .error fault after) :
    (edit >>= rest) s = .error fault after := by
  simp only [bind, EStateM.bind, h]

theorem get_eq {σ : Type} (s : σ) : (get : Edit σ σ) s = .ok s s := rfl

end Edit

namespace Memory

/-! ## §2. Sizes and addresses. -/

theorem roundUp_eq (n : Nat) : roundUp n = (n + 7) / 8 * 8 := rfl

theorem le_roundUp (n : Nat) : n ≤ roundUp n := by
  rw [roundUp_eq]
  omega

/-- A page as it is between two edits: it ends at a multiple of the alignment, within its capacity,
and all of its room has addresses. -/
structure Proper (m : Memory) : Prop where
  aligned : m.size % alignment = 0
  bounded : m.size ≤ m.capacity
  addressed : m.base.toNat + m.capacity ≤ addressSpace

/-- The address at a distance from the base. -/
def address (m : Memory) (place : Nat) : UInt32 := m.base + UInt32.ofNat place

theorem toNat_address {m : Memory} {place : Nat} (h : m.base.toNat + place < addressSpace) :
    (m.address place).toNat = m.base.toNat + place := by
  have h' : m.base.toNat + place < 2 ^ 32 := h
  rw [address, UInt32.toNat_add, UInt32.toNat_ofNat']
  omega

theorem address_add (m : Memory) (place distance : Nat) :
    m.address place + UInt32.ofNat distance = m.address (place + distance) := by
  rw [address, address, UInt32.ofNat_add, UInt32.add_assoc]

/-- Addresses depend on the place of a page only. -/
theorem address_of_base {m t : Memory} (h : t.base = m.base) (place : Nat) :
    t.address place = m.address place := by
  rw [address, address, h]

/-! ## §3. Frames. -/

/-- How a page may have changed: it did not shrink, and of what it had reserved only the positions
that are touched may hold other bytes. -/
structure Frame (touched : Nat → Prop) (m after : Memory) : Prop where
  base : after.base = m.base
  capacity : after.capacity = m.capacity
  order : after.order = m.order
  size : m.size ≤ after.size
  kept : ∀ k, k < m.size → ¬ touched k → after.cells.get k = m.cells.get k

/-- A page that has only been added to. -/
abbrev Extends (m after : Memory) : Prop := Frame (fun _ => False) m after

/-- The positions of a range. -/
def InRange (place length : Nat) (k : Nat) : Prop := place ≤ k ∧ k < place + length

namespace Frame

theorem refl (touched : Nat → Prop) (m : Memory) : Frame touched m m :=
  ⟨rfl, rfl, rfl, Nat.le_refl _, fun _ _ _ => rfl⟩

/-- A change of fewer positions, as far as the page reached before, is a change of more. -/
theorem mono {touched more : Nat → Prop} {m after : Memory} (h : Frame touched m after)
    (hle : ∀ k, k < m.size → touched k → more k) : Frame more m after :=
  ⟨h.base, h.capacity, h.order, h.size, fun k hk hn => h.kept k hk fun ht => hn (hle k hk ht)⟩

/-- Two changes in sequence touch what one of them touches. -/
theorem trans {first second : Nat → Prop} {m middle after : Memory} (h : Frame first m middle)
    (h' : Frame second middle after) : Frame (fun k => first k ∨ second k) m after := by
  refine ⟨h'.base.trans h.base, h'.capacity.trans h.capacity, h'.order.trans h.order,
    Nat.le_trans h.size h'.size, ?_⟩
  intro k hk hn
  rw [h'.kept k (Nat.lt_of_lt_of_le hk h.size) fun ht => hn (.inr ht)]
  exact h.kept k hk fun ht => hn (.inl ht)

/-- Changes of what was added later leave the page an extension of what it was. -/
theorem extends_of_fresh {touched : Nat → Prop} {m middle after : Memory} (h : m.Extends middle)
    (h' : Frame touched middle after) (hfresh : ∀ k, touched k → m.size ≤ k) :
    m.Extends after := by
  apply (h.trans h').mono
  intro k hk ht
  rcases ht with ht | ht
  · exact ht
  · exact absurd (hfresh k ht) (Nat.not_le_of_lt hk)

theorem extends_trans {m middle after : Memory} (h : m.Extends middle)
    (h' : middle.Extends after) : m.Extends after := h.extends_of_fresh h' fun _ hk => hk.elim

theorem address_eq {touched : Nat → Prop} {m after : Memory} (h : Frame touched m after)
    (place : Nat) : after.address place = m.address place := address_of_base h.base place

end Frame

/-! ## §4. What a page holds. -/

/-- The bytes lie at a distance from the base, in the part of the page that has been reserved. -/
structure Holds (m : Memory) (place : Nat) (bytes : List UInt8) : Prop where
  addressed : m.base.toNat + place < addressSpace
  inside : place + bytes.length ≤ m.size
  content : m.cells.slice place bytes.length = bytes

/-- A word lies at a distance from the base, in the byte order of the page. -/
abbrev HoldsWord (m : Memory) (place : Nat) (word : UInt32) : Prop :=
  m.Holds place (m.order.encode word)

end Memory

/-- Slices agree where the bytes do. -/
theorem Cells.slice_congr {cells other : Cells} {start length : Nat}
    (h : ∀ k, start ≤ k → k < start + length → other.get k = cells.get k) :
    other.slice start length = cells.slice start length := by
  apply List.map_congr_left
  intro k hk
  rw [List.mem_range'_1] at hk
  exact h k hk.1 hk.2

/-- Bytes written one after the other are bytes written at once. -/
theorem Cells.overwrite_append (cells : Cells) (start : Nat) (a b : List UInt8) :
    cells.overwrite start (a ++ b) = (cells.overwrite start a).overwrite (start + a.length) b := by
  induction a generalizing cells start with
  | nil => rfl
  | cons byte rest ih =>
    rw [List.cons_append, Cells.overwrite, ih, Cells.overwrite, List.length_cons,
      show start + 1 + rest.length = start + (rest.length + 1) by omega]

theorem Cells.slice_add (cells : Cells) (start first second : Nat) :
    cells.slice start (first + second)
      = cells.slice start first ++ cells.slice (start + first) second := by
  rw [slice, slice, slice, ← List.map_append, List.range'_append_1]

namespace Memory
namespace Holds

variable {m after : Memory} {place : Nat} {bytes : List UInt8}

/-- **What is not touched stays.** -/
theorem frame {touched : Nat → Prop} (h : m.Holds place bytes) (hf : Frame touched m after)
    (hn : ∀ k, InRange place bytes.length k → ¬ touched k) : after.Holds place bytes := by
  have hin := h.inside
  refine ⟨by rw [hf.base]; exact h.addressed, Nat.le_trans hin hf.size, ?_⟩
  rw [← Cells.slice_congr fun k hk hk' => (hf.kept k (by omega) (hn k ⟨hk, hk'⟩)).symm]
  exact h.content

theorem frameWord {touched : Nat → Prop} {word : UInt32} (h : m.HoldsWord place word)
    (hf : Frame touched m after) (hn : ∀ k, InRange place 4 k → ¬ touched k) :
    after.HoldsWord place word := by
  rw [HoldsWord, hf.order]
  exact h.frame hf (by rwa [ByteOrder.length_encode])

/-- Of two runs of bytes the first lies where both lie. -/
theorem left {first second : List UInt8} (h : m.Holds place (first ++ second)) :
    m.Holds place first := by
  have hin := h.inside
  have hc := h.content
  rw [List.length_append] at hin hc
  rw [Cells.slice_add] at hc
  refine ⟨h.addressed, by omega, ?_⟩
  exact (List.append_inj hc (by simp)).1

/-- Of two runs of bytes the second lies behind the first. -/
theorem right {first second : List UInt8} (hm : m.Proper) (h : m.Holds place (first ++ second))
    (hne : second ≠ []) : m.Holds (place + first.length) second := by
  have hin := h.inside
  have hc := h.content
  have hpos := List.length_pos_iff.2 hne
  have hb := hm.bounded
  have ha := hm.addressed
  rw [List.length_append] at hin hc
  rw [Cells.slice_add] at hc
  refine ⟨by omega, by omega, ?_⟩
  exact (List.append_inj hc (by simp)).2

/-- Of words that lie one after the other each lies at its distance. -/
theorem word {words : List UInt32} {word : UInt32} {i : Nat} (hm : m.Proper)
    (h : m.Holds place (words.flatMap m.order.encode)) (hi : words[i]? = some word) :
    m.HoldsWord (place + 4 * i) word := by
  induction words generalizing place i with
  | nil => simp at hi
  | cons first rest ih =>
    rw [List.flatMap_cons] at h
    cases i with
    | zero =>
      rw [List.getElem?_cons_zero, Option.some.injEq] at hi
      subst hi
      exact h.left
    | succ i =>
      rw [List.getElem?_cons_succ] at hi
      have hne : rest.flatMap m.order.encode ≠ [] := by
        intro hnil
        have hmem := List.flatMap_eq_nil_iff.1 hnil word (List.mem_of_getElem? hi)
        simpa [ByteOrder.wordSize] using congrArg List.length hmem
      have hrest := ih (h.right hm hne) hi
      rwa [ByteOrder.length_encode, ByteOrder.wordSize,
        show place + 4 + 4 * i = place + 4 * (i + 1) by omega] at hrest

theorem get {i : Nat} (h : m.Holds place bytes) (hi : i < bytes.length) :
    m.cells.get (place + i) = bytes[i] := by
  have hs := Cells.getElem?_slice m.cells place bytes.length i
  rw [h.content, if_pos hi, List.getElem?_eq_getElem hi, Option.some.injEq] at hs
  exact hs.symm

/-! ## §5. What reading finds. -/

theorem offset (h : m.Holds place bytes) {length : Nat} (hl : length ≤ bytes.length) :
    m.offset (m.address place) length = .ok place := by
  have hin := h.inside
  exact offset_eq_ok_iff.2 ⟨toNat_address h.addressed, by omega⟩

theorem read (h : m.Holds place bytes) : m.read (m.address place) bytes.length = .ok bytes := by
  simp only [Memory.read, h.offset (Nat.le_refl _), bind, Except.bind, pure, Except.pure,
    h.content]

theorem readWord {word : UInt32} (h : m.HoldsWord place word) :
    m.readWord (m.address place) = .ok word := by
  have hr := Holds.read h
  rw [ByteOrder.length_encode] at hr
  simp only [Memory.readWord, hr, bind, Except.bind, pure, Except.pure, ByteOrder.decode_encode]

/-- A text is read up to the first zero byte. -/
theorem readBytes {text behind : List UInt8} (h : m.Holds place (text ++ 0 :: behind))
    (hz : 0 ∉ text) : m.readBytes (m.address place) = .ok text := by
  have hin := h.inside
  have hlen : (text ++ 0 :: behind).length = text.length + (behind.length + 1) := by simp
  have hstop : m.cells.firstZero? m.size place = some (place + text.length) := by
    refine Cells.firstZero?_eq_some_iff.2 ⟨by omega, by omega, ?_, ?_⟩
    · rw [h.get (i := text.length) (by omega)]
      simp
    · intro k hk hk'
      have hi : k - place < text.length := by omega
      have hget := h.get (i := k - place) (by omega)
      rw [show place + (k - place) = k by omega, List.getElem_append_left hi] at hget
      rw [hget]
      exact fun he => hz (he ▸ List.getElem_mem hi)
  simp only [Memory.readBytes, h.offset (Nat.zero_le _), bind, Except.bind, hstop, pure,
    Except.pure, Nat.add_sub_cancel_left, h.left.content]

end Holds

theorem length_of_read {m : Memory} {address : UInt32} {length : Nat} {bytes : List UInt8}
    (h : m.read address length = .ok bytes) : bytes.length = length := by
  unfold Memory.read at h
  cases hstart : m.offset address length with
  | error fault =>
    rw [hstart] at h
    cases h
  | ok start =>
    rw [hstart] at h
    cases h
    exact Cells.length_slice _ _ _

/-! ## §6. What writing leaves. -/

/-- The page with bytes written over it. -/
def overwrite (m : Memory) (place : Nat) (new : List UInt8) : Memory :=
  { m with cells := m.cells.overwrite place new }

/-- The page with words written over it. -/
def overwriteWords (m : Memory) (place : Nat) (words : List UInt32) : Memory :=
  m.overwrite place (words.flatMap m.order.encode)

/-- A write inside the page puts its bytes over what was there. -/
theorem write_eq {m : Memory} {place : Nat} {new : List UInt8}
    (ha : m.base.toNat + place < addressSpace) (hin : place + new.length ≤ m.size) :
    Memory.write (m.address place) new m = .ok () (m.overwrite place new) := by
  have ho : m.offset (m.address place) new.length = .ok place :=
    offset_eq_ok_iff.2 ⟨toNat_address ha, hin⟩
  simp only [Memory.write, ho]
  rfl

/-- **A write inside the page finishes, touches its own range only, and is found there.** -/
theorem write_spec {m : Memory} {place : Nat} {new : List UInt8}
    (ha : m.base.toNat + place < addressSpace) (hin : place + new.length ≤ m.size) :
    ∃ after, Memory.write (m.address place) new m = .ok () after ∧ after.size = m.size
      ∧ Frame (InRange place new.length) m after ∧ after.Holds place new := by
  refine ⟨m.overwrite place new, write_eq ha hin, rfl, ?_, ha, hin, ?_⟩
  · refine ⟨rfl, rfl, rfl, Nat.le_refl _, ?_⟩
    intro k _ hn
    show (m.cells.overwrite place new).get k = _
    rw [Cells.get_overwrite]
    split
    · rfl
    · next hk =>
      have hlen : new.length ≤ k - place := by
        have hout : ¬ k < place + new.length := fun hlt => hn ⟨by omega, hlt⟩
        omega
      rw [List.getElem?_eq_none hlen, Option.getD_none]
  · show (m.cells.overwrite place new).slice place new.length = new
    apply List.ext_getElem?
    intro i
    rw [Cells.getElem?_slice, Cells.get_overwrite]
    split
    · next hi =>
      rw [if_neg (by omega), Nat.add_sub_cancel_left, List.getElem?_eq_getElem hi,
        Option.getD_some]
    · next hi => rw [List.getElem?_eq_none (by omega)]

theorem length_words (order : ByteOrder) (words : List UInt32) :
    (words.flatMap order.encode).length = 4 * words.length := by
  induction words with
  | nil => rfl
  | cons word rest ih =>
    rw [List.flatMap_cons, List.length_append, ih, ByteOrder.length_encode, ByteOrder.wordSize,
      List.length_cons]
    omega

theorem writeWords_spec {m : Memory} {place : Nat} (words : List UInt32)
    (ha : m.base.toNat + place < addressSpace) (hin : place + 4 * words.length ≤ m.size) :
    ∃ after, Memory.writeWords (m.address place) words m = .ok () after ∧ after.size = m.size
      ∧ Frame (InRange place (4 * words.length)) m after
      ∧ after.Holds place (words.flatMap m.order.encode) := by
  have hlen := length_words m.order words
  obtain ⟨after, hw, hs, hf, hh⟩ := write_spec ha
    (show place + (words.flatMap m.order.encode).length ≤ m.size by omega)
  rw [hlen] at hf
  exact ⟨after, hw, hs, hf, hh⟩

theorem writeWord_spec {m : Memory} {place : Nat} (word : UInt32)
    (ha : m.base.toNat + place < addressSpace) (hin : place + 4 ≤ m.size) :
    ∃ after, Memory.writeWord (m.address place) word m = .ok () after ∧ after.size = m.size
      ∧ Frame (InRange place 4) m after ∧ after.HoldsWord place word := by
  obtain ⟨after, hw, hs, hf, hh⟩ := writeWords_spec [word] ha hin
  refine ⟨after, hw, hs, hf, ?_⟩
  rw [List.flatMap_cons, List.flatMap_nil, List.append_nil, ← hf.order] at hh
  exact hh

/-! ## §7. What growth leaves. -/

namespace Proper

variable {m after : Memory}

/-- A page changed within its room is as proper as before. -/
theorem frame {touched : Nat → Prop} (hm : m.Proper) (hf : Frame touched m after)
    (hs : after.size = m.size) : after.Proper := by
  refine ⟨?_, ?_, ?_⟩
  · rw [hs]
    exact hm.aligned
  · rw [hs, hf.capacity]
    exact hm.bounded
  · rw [hf.base, hf.capacity]
    exact hm.addressed

theorem roundUp_size (hm : m.Proper) : roundUp m.size = m.size := by
  have ha : m.size % 8 = 0 := hm.aligned
  rw [roundUp_eq]
  omega

theorem sizeWith_eq (hm : m.Proper) (size : Nat) : m.sizeWith size = m.size + roundUp size := by
  have ha : m.size % 8 = 0 := hm.aligned
  unfold sizeWith
  rw [hm.roundUp_size, roundUp_eq, roundUp_eq]
  omega

/-- Every distance that the page reaches has an address, as long as the page is not full. -/
theorem address_lt (hm : m.Proper) {place : Nat} (h : place < m.capacity) :
    m.base.toNat + place < addressSpace := by
  have ha := hm.addressed
  omega

theorem overwrite (hm : m.Proper) (place : Nat) (new : List UInt8) :
    (m.overwrite place new).Proper :=
  ⟨hm.aligned, hm.bounded, hm.addressed⟩

theorem overwriteWords (hm : m.Proper) (place : Nat) (words : List UInt32) :
    (m.overwriteWords place words).Proper :=
  hm.overwrite place _

theorem grow (hm : m.Proper) {size : Nat} (h : m.size + roundUp size < m.capacity) :
    (m.grow size).Proper := by
  have ha : m.size % 8 = 0 := hm.aligned
  refine ⟨?_, ?_, hm.addressed⟩
  · show m.sizeWith size % 8 = 0
    rw [hm.sizeWith_eq, roundUp_eq]
    omega
  · show m.sizeWith size ≤ m.capacity
    rw [hm.sizeWith_eq]
    omega

end Proper

theorem writeWords_eq {m : Memory} (hm : m.Proper) (place : Nat) (words : List UInt32)
    (hne : 0 < words.length) (hin : place + 4 * words.length ≤ m.size) :
    Memory.writeWords (m.address place) words m = .ok () (m.overwriteWords place words) := by
  have hlen := length_words m.order words
  have hb := hm.bounded
  exact write_eq (hm.address_lt (by omega)) (by omega)

/-- A write leaves a page as proper as before, where it was and as large as it was. -/
theorem write_kept {m after : Memory} {address : UInt32} {new : List UInt8} {u : Unit}
    (hm : m.Proper) (h : Memory.write address new m = .ok u after) :
    after.Proper ∧ after.base = m.base ∧ after.size = m.size := by
  unfold Memory.write at h
  split at h
  · cases h
    exact ⟨hm.overwrite _ _, rfl, rfl⟩
  · cases h

theorem writeWords_kept {m after : Memory} {address : UInt32} {words : List UInt32} {u : Unit}
    (hm : m.Proper) (h : Memory.writeWords address words m = .ok u after) :
    after.Proper ∧ after.base = m.base ∧ after.size = m.size :=
  write_kept hm h

/-- Outside of the words a page keeps what it held. -/
theorem get_overwriteWords (m : Memory) {place k : Nat} {words : List UInt32}
    (hk : ¬ InRange place (4 * words.length) k) :
    (m.overwriteWords place words).cells.get k = m.cells.get k := by
  show (m.cells.overwrite place (words.flatMap m.order.encode)).get k = _
  rw [Cells.get_overwrite]
  split
  · rfl
  · next hlt =>
    have hout : 4 * words.length ≤ k - place := by
      have hnot : ¬ k < place + 4 * words.length := fun hin => hk ⟨by omega, hin⟩
      omega
    rw [List.getElem?_eq_none (by rw [length_words]; exact hout), Option.getD_none]

theorem overwriteWords_cons (m : Memory) (place : Nat) (word : UInt32) (rest : List UInt32) :
    m.overwriteWords place (word :: rest)
      = (m.overwriteWords place [word]).overwriteWords (place + 4) rest := by
  unfold Memory.overwriteWords Memory.overwrite
  rw [List.flatMap_cons, Cells.overwrite_append, ByteOrder.length_encode, List.flatMap_singleton]
  rfl

theorem reserve_eq {m : Memory} (hm : m.Proper) {size : Nat}
    (h : m.size + roundUp size < m.capacity) :
    Memory.reserve size m = .ok (m.address m.size) (m.grow size) := by
  unfold reserve
  rw [if_pos (by rw [hm.sizeWith_eq]; exact h), hm.roundUp_size]
  rfl

/-- A block that leaves the page below its capacity is added where the page ends. -/
theorem reserve_of_lt {m : Memory} (hm : m.Proper) {size : Nat}
    (h : m.size + roundUp size < m.capacity) :
    ∃ after, Memory.reserve size m = .ok (m.address m.size) after
      ∧ after.size = m.size + roundUp size ∧ m.Extends after ∧ after.Proper :=
  ⟨m.grow size, reserve_eq hm h, hm.sizeWith_eq size,
    ⟨rfl, rfl, rfl, le_size_grow m size, fun _ _ _ => rfl⟩, hm.grow h⟩

/-- Any other block is refused, and the page stays as it is. -/
theorem reserve_of_le {m : Memory} (hm : m.Proper) {size : Nat}
    (h : m.capacity ≤ m.size + roundUp size) :
    Memory.reserve size m = .error (.noRoom size m.size m.capacity) m := by
  unfold reserve
  rw [if_neg (by rw [hm.sizeWith_eq]; omega)]

/-- A block that was added fitted the page. -/
theorem reserve_ok {m after : Memory} {size : Nat} {address : UInt32} (hm : m.Proper)
    (h : Memory.reserve size m = .ok address after) :
    address = m.address m.size ∧ after = m.grow size ∧ m.size + roundUp size < m.capacity := by
  by_cases hfit : m.size + roundUp size < m.capacity
  · rw [reserve_eq hm hfit] at h
    cases h
    exact ⟨rfl, rfl, hfit⟩
  · rw [reserve_of_le hm (Nat.le_of_not_lt hfit)] at h
    cases h

/-- The page with a block of the given bytes behind it. -/
def stored (m : Memory) (bytes : List UInt8) : Memory :=
  (m.grow bytes.length).overwrite m.size bytes

theorem Proper.stored {m : Memory} (hm : m.Proper) {bytes : List UInt8}
    (h : m.size + roundUp bytes.length < m.capacity) : (m.stored bytes).Proper :=
  (hm.grow h).overwrite m.size bytes

theorem le_size_stored (m : Memory) (bytes : List UInt8) : m.size ≤ (m.stored bytes).size :=
  Memory.le_size_grow m bytes.length

theorem store_eq {m : Memory} (hm : m.Proper) {bytes : List UInt8}
    (h : m.size + roundUp bytes.length < m.capacity) :
    Memory.store bytes m = .ok (m.address m.size) (m.stored bytes) := by
  have hle := le_roundUp bytes.length
  have hin : m.size + bytes.length ≤ (m.grow bytes.length).size := by
    rw [show (m.grow bytes.length).size = m.sizeWith bytes.length from rfl, hm.sizeWith_eq]
    omega
  have ha : (m.grow bytes.length).base.toNat + m.size < addressSpace := hm.address_lt (by omega)
  have hw : Memory.write (m.address m.size) bytes (m.grow bytes.length)
      = .ok () (m.stored bytes) := write_eq ha hin
  unfold store
  rw [Edit.bind_of_ok (reserve_eq hm h), Edit.bind_of_ok hw]
  rfl

/-- A block that leaves the page below its capacity is added with its content. -/
theorem store_of_lt {m : Memory} (hm : m.Proper) {bytes : List UInt8}
    (h : m.size + roundUp bytes.length < m.capacity) :
    ∃ after, Memory.store bytes m = .ok (m.address m.size) after
      ∧ after.size = m.size + roundUp bytes.length ∧ m.Extends after ∧ after.Proper
      ∧ after.Holds m.size bytes := by
  obtain ⟨grown, hr, hs, he, hg⟩ := reserve_of_lt hm h
  have hle := le_roundUp bytes.length
  have haddr : grown.address m.size = m.address m.size := he.address_eq _
  have hplace : grown.base.toNat + m.size < addressSpace := by
    rw [he.base]
    exact hm.address_lt (by omega)
  obtain ⟨after, hw, hs', hf, hh⟩ := write_spec hplace
    (show m.size + bytes.length ≤ grown.size by omega)
  rw [haddr] at hw
  refine ⟨after, ?_, by omega, ?_, hg.frame hf hs', hh⟩
  · unfold store
    rw [Edit.bind_of_ok hr, Edit.bind_of_ok hw]
    rfl
  · exact he.extends_of_fresh hf fun k hk => hk.1

theorem store_of_le {m : Memory} (hm : m.Proper) {bytes : List UInt8}
    (h : m.capacity ≤ m.size + roundUp bytes.length) :
    Memory.store bytes m = .error (.noRoom bytes.length m.size m.capacity) m := by
  unfold store
  rw [Edit.bind_of_error (reserve_of_le hm h)]

theorem store_ok {m after : Memory} {bytes : List UInt8} {address : UInt32} (hm : m.Proper)
    (h : Memory.store bytes m = .ok address after) :
    address = m.address m.size ∧ after = m.stored bytes
      ∧ m.size + roundUp bytes.length < m.capacity := by
  by_cases hfit : m.size + roundUp bytes.length < m.capacity
  · rw [store_eq hm hfit] at h
    cases h
    exact ⟨rfl, rfl, hfit⟩
  · rw [store_of_le hm (Nat.le_of_not_lt hfit)] at h
    cases h

/-- Three blocks that fit lie one behind the other. -/
theorem store_three_of_lt {m : Memory} (hm : m.Proper) {first second third : List UInt8}
    (h : m.size + (roundUp first.length + roundUp second.length + roundUp third.length)
      < m.capacity) :
    ∃ m1 m2 after, Memory.store first m = .ok (m.address m.size) m1
      ∧ Memory.store second m1 = .ok (m.address (m.size + roundUp first.length)) m2
      ∧ Memory.store third m2
        = .ok (m.address (m.size + roundUp first.length + roundUp second.length)) after
      ∧ after.size
        = m.size + (roundUp first.length + roundUp second.length + roundUp third.length)
      ∧ m.Extends after ∧ after.Proper ∧ after.Holds m.size first
      ∧ after.Holds (m.size + roundUp first.length) second
      ∧ after.Holds (m.size + roundUp first.length + roundUp second.length) third := by
  obtain ⟨m1, hst1, hs1, he1, hm1, hh1⟩ := store_of_lt hm
    (show m.size + roundUp first.length < m.capacity by omega)
  have hfit2 : m1.size + roundUp second.length < m1.capacity := by
    rw [he1.capacity]
    omega
  obtain ⟨m2, hst2, hs2, he2, hm2, hh2⟩ := store_of_lt hm1 hfit2
  have he12 := he1.extends_trans he2
  have hfit3 : m2.size + roundUp third.length < m2.capacity := by
    rw [he12.capacity]
    omega
  obtain ⟨after, hst3, hs3, he3, hm3, hh3⟩ := store_of_lt hm2 hfit3
  rw [he1.address_eq, hs1] at hst2
  rw [he12.address_eq, hs2, hs1] at hst3
  rw [hs1] at hh2
  rw [hs2, hs1] at hh3
  refine ⟨m1, m2, after, hst1, hst2, hst3, by omega, he12.extends_trans he3, hm3, ?_, ?_, hh3⟩
  · exact hh1.frame (he2.extends_trans he3) fun _ _ hk => hk
  · exact hh2.frame he3 fun _ _ hk => hk

end Memory
end SystemPage
