/-
  SystemPage.Proofs.TwinPages — two pages edited side by side.

  Two pages of the same size and capacity may differ in the order of their bytes and in where they
  lie.  What such pages are edited with alike takes the same places in both, and leaves the same
  bytes in all that is no word of a record.

  Main results:

      Abreast.bind     — edits side by side can be put in sequence
      AddressMap.put_abreast, Program.Plan.put_abreast
                       — a record is put into both of two pages or into none
      append_eq        — what appending a record to a ring makes of a page
      twin_linked      — a record that joins its ring in both pages changes links only
-/
import SystemPage.Proofs.Inventory

namespace SystemPage

open Memory SystemPage.Ring

/-! ## §1. Edits side by side. -/

namespace Edit

/-- What two edits come to side by side: both finish, or both stop with the same fault. -/
def Abreast {σ τ α β : Type} (stopped : σ → τ → Prop) (finished : α → σ → β → τ → Prop) :
    EStateM.Result Fault σ α → EStateM.Result Fault τ β → Prop
  | .ok a s, .ok b t => finished a s b t
  | .error fault s, .error fault' t => fault' = fault ∧ stopped s t
  | _, _ => False

namespace Abreast

variable {σ τ α β γ δ : Type} {stopped : σ → τ → Prop} {finished : α → σ → β → τ → Prop}
  {edit : Edit σ α} {edit' : Edit τ β} {s : σ} {t : τ}

/-- Either both edits finish or both stop. -/
theorem cases (h : Abreast stopped finished (edit s) (edit' t)) :
    (∃ a after b after', edit s = .ok a after ∧ edit' t = .ok b after'
        ∧ finished a after b after')
      ∨ ∃ fault after after', edit s = .error fault after ∧ edit' t = .error fault after'
        ∧ stopped after after' := by
  cases hs : edit s with
  | ok a after =>
    cases ht : edit' t with
    | ok b after' =>
      rw [hs, ht] at h
      exact .inl ⟨a, after, b, after', rfl, rfl, h⟩
    | error fault after' =>
      rw [hs, ht] at h
      exact h.elim
  | error fault after =>
    cases ht : edit' t with
    | ok b after' =>
      rw [hs, ht] at h
      exact h.elim
    | error fault' after' =>
      rw [hs, ht] at h
      obtain ⟨rfl, hstopped⟩ := h
      exact .inr ⟨_, after, after', rfl, rfl, hstopped⟩

/-- **Edits side by side can be put in sequence.** -/
theorem bind {rest : α → Edit σ γ} {rest' : β → Edit τ δ} {done : γ → σ → δ → τ → Prop}
    (h : Abreast stopped finished (edit s) (edit' t))
    (hrest : ∀ a after b after', finished a after b after' →
      Abreast stopped done (rest a after) (rest' b after')) :
    Abreast stopped done ((edit >>= rest) s) ((edit' >>= rest') t) := by
  rcases h.cases with ⟨a, after, b, after', hs, ht, hfinished⟩ | ⟨fault, after, after', hs, ht, hst⟩
  · rw [bind_of_ok hs, bind_of_ok ht]
    exact hrest a after b after' hfinished
  · rw [bind_of_error hs, bind_of_error ht]
    exact ⟨rfl, hst⟩

/-- What was found in both is gone on with in both. -/
theorem look_bind {find : σ → Except Fault α} {find' : τ → Except Fault α} {rest : α → Edit σ γ}
    {rest' : α → Edit τ δ} {done : γ → σ → δ → τ → Prop} (hfind : find' t = find s)
    (hstopped : stopped s t)
    (hrest : ∀ a, find s = .ok a → Abreast stopped done (rest a s) (rest' a t)) :
    Abreast stopped done ((look find >>= rest) s) ((look find' >>= rest') t) := by
  cases hs : find s with
  | ok a =>
    rw [bind_of_ok (look_of_ok hs), bind_of_ok (look_of_ok (hfind.trans hs))]
    exact hrest a hs
  | error fault =>
    rw [bind_of_error (look_of_error hs), bind_of_error (look_of_error (hfind.trans hs))]
    exact ⟨rfl, hstopped⟩

theorem mono {done : α → σ → β → τ → Prop} (h : Abreast stopped finished (edit s) (edit' t))
    (hdone : ∀ a after b after', finished a after b after' → done a after b after') :
    Abreast stopped done (edit s) (edit' t) := by
  rcases h.cases with ⟨a, after, b, after', hs, ht, hfinished⟩ | ⟨fault, after, after', hs, ht, hst⟩
  · rw [hs, ht]
    exact hdone a after b after' hfinished
  · rw [hs, ht]
    exact ⟨rfl, hst⟩

/-- The answers of both can be left out. -/
theorem discard {done : σ → τ → Prop} (h : Abreast stopped finished (edit s) (edit' t))
    (hdone : ∀ a after b after', finished a after b after' → done after after') :
    Abreast stopped (fun _ after _ after' => done after after') (Functor.discard edit s)
      (Functor.discard edit' t) := by
  have hbind : Abreast stopped (fun _ after _ after' => done after after')
      ((edit >>= fun _ => pure ()) s) ((edit' >>= fun _ => pure ()) t) :=
    h.bind fun a after b after' hfinished => hdone a after b after' hfinished
  exact hbind

/-- Edits that finish with the same answer come to the same. -/
theorem outcome_eq {edit : Edit σ α} {edit' : Edit τ α} {finished : α → σ → α → τ → Prop}
    (h : Abreast stopped finished (edit s) (edit' t))
    (hanswer : ∀ a after b after', finished a after b after' → b = a) :
    (outcome edit' t).1 = (outcome edit s).1 := by
  rcases h.cases with ⟨a, after, b, after', hs, ht, hfinished⟩ | ⟨fault, after, after', hs, ht, -⟩
  · rw [outcome, outcome, hs, ht, hanswer a after b after' hfinished]
  · rw [outcome, outcome, hs, ht]

end Abreast
end Edit

/-! ## §2. Pages side by side. -/

namespace Memory

/-- Two pages of the same size and capacity, with other bytes in some positions only. -/
structure Twin (differ : Nat → Prop) (m t : Memory) : Prop where
  proper : m.Proper
  properTwin : t.Proper
  size : t.size = m.size
  capacity : t.capacity = m.capacity
  same : ∀ k, ¬ differ k → t.cells.get k = m.cells.get k

namespace Twin

variable {differ : Nat → Prop} {m t : Memory}

theorem mono {more : Nat → Prop} (h : Twin differ m t) (hle : ∀ k, differ k → more k) :
    Twin more m t :=
  { h with same := fun k hk => h.same k fun hd => hk (hle k hd) }

/-- The same bytes written over both pages. -/
theorem overwrite (h : Twin differ m t) (place : Nat) (new : List UInt8) :
    Twin differ (m.overwrite place new) (t.overwrite place new) := by
  refine ⟨h.proper.overwrite place new, h.properTwin.overwrite place new, h.size, h.capacity, ?_⟩
  intro k hk
  show (t.cells.overwrite place new).get k = (m.cells.overwrite place new).get k
  rw [Cells.get_overwrite, Cells.get_overwrite, h.same k hk]

theorem symm (h : Twin differ m t) : Twin differ t m :=
  ⟨h.properTwin, h.proper, h.size.symm, h.capacity.symm, fun k hk => (h.same k hk).symm⟩

/-- Words written over one of the pages, where the pages may differ. -/
theorem overwriteWords_left (h : Twin differ m t) (place : Nat) (words : List UInt32)
    (hdiffer : ∀ k, InRange place (4 * words.length) k → differ k) :
    Twin differ (m.overwriteWords place words) t :=
  { h with
    proper := h.proper.overwriteWords place words
    same := fun k hk => by
      rw [get_overwriteWords m fun hin => hk (hdiffer k hin)]
      exact h.same k hk }

/-- Words written over both pages, where the pages may differ. -/
theorem overwriteWords (h : Twin differ m t) (place n : Nat) {words words' : List UInt32}
    (hlen : words.length = n) (hlen' : words'.length = n)
    (hdiffer : ∀ k, InRange place (4 * n) k → differ k) :
    Twin differ (m.overwriteWords place words) (t.overwriteWords place words') := by
  have hleft := h.overwriteWords_left place words (by rwa [hlen])
  exact (hleft.symm.overwriteWords_left place words' (by rwa [hlen'])).symm

theorem grow (h : Twin differ m t) {size : Nat} (hfit : m.size + roundUp size < m.capacity) :
    Twin differ (m.grow size) (t.grow size) := by
  refine ⟨h.proper.grow hfit, h.properTwin.grow (by rwa [h.size, h.capacity]), ?_, h.capacity,
    h.same⟩
  show t.sizeWith size = m.sizeWith size
  unfold sizeWith
  rw [h.size]

theorem stored (h : Twin differ m t) {bytes : List UInt8}
    (hfit : m.size + roundUp bytes.length < m.capacity) :
    Twin differ (m.stored bytes) (t.stored bytes) := by
  unfold Memory.stored
  rw [h.size]
  exact (h.grow hfit).overwrite m.size bytes

end Twin

/-- Two pages that started from two others: they are where those were, and `room` bytes larger. -/
structure Onward (differ : Nat → Prop) (room : Nat) (m t after after' : Memory) : Prop where
  base : after.base = m.base
  baseTwin : after'.base = t.base
  size : after.size = m.size + room
  twin : Twin differ after after'

/-- Two pages to which a block was added, and its addresses. -/
def Added (differ : Nat → Prop) (room : Nat) (m t : Memory) (a : UInt32) (after : Memory)
    (b : UInt32) (after' : Memory) : Prop :=
  a = m.address m.size ∧ b = t.address t.size ∧ Onward differ room m t after after'

section

variable {differ : Nat → Prop} {m t after after' : Memory}

theorem Onward.trans {room more : Nat} {last last' : Memory}
    (h : Onward differ room m t after after') (h' : Onward differ more after after' last last') :
    Onward differ (room + more) m t last last' :=
  ⟨h'.base.trans h.base, h'.baseTwin.trans h.baseTwin, by rw [h'.size, h.size, Nat.add_assoc],
    h'.twin⟩

theorem Onward.mono {room : Nat} {more : Nat → Prop} (h : Onward differ room m t after after')
    (hle : ∀ k, differ k → more k) : Onward more room m t after after' :=
  { h with twin := h.twin.mono hle }

/-- A block is added to both pages or to none. -/
theorem Twin.reserve_abreast (h : Twin differ m t) (size : Nat) :
    Edit.Abreast (Twin differ) (Added differ (roundUp size) m t) (reserve size m)
      (reserve size t) := by
  by_cases hfit : m.size + roundUp size < m.capacity
  · rw [reserve_eq h.proper hfit, reserve_eq h.properTwin (by rwa [h.size, h.capacity])]
    exact ⟨rfl, rfl, rfl, rfl, h.proper.sizeWith_eq size, h.grow hfit⟩
  · rw [reserve_of_le h.proper (Nat.le_of_not_lt hfit),
      reserve_of_le h.properTwin (by rw [h.size, h.capacity]; exact Nat.le_of_not_lt hfit), h.size,
      h.capacity]
    exact ⟨rfl, h⟩

/-- A block is added with its content to both pages or to none. -/
theorem Twin.store_abreast (h : Twin differ m t) (bytes : List UInt8) :
    Edit.Abreast (Twin differ) (Added differ (roundUp bytes.length) m t) (store bytes m)
      (store bytes t) := by
  by_cases hfit : m.size + roundUp bytes.length < m.capacity
  · rw [store_eq h.proper hfit, store_eq h.properTwin (by rwa [h.size, h.capacity])]
    exact ⟨rfl, rfl, rfl, rfl, h.proper.sizeWith_eq bytes.length, h.stored hfit⟩
  · rw [store_of_le h.proper (Nat.le_of_not_lt hfit),
      store_of_le h.properTwin (by rw [h.size, h.capacity]; exact Nat.le_of_not_lt hfit), h.size,
      h.capacity]
    exact ⟨rfl, h⟩

/-- The same bytes are written into a field of a record in both pages. -/
theorem Onward.write_abreast {room : Nat} (h : Onward differ room m t after after')
    (stopped : Memory → Memory → Prop) (place distance : Nat) (new : List UInt8)
    (hne : 0 < new.length) (hin : place + distance + new.length ≤ after.size) :
    Edit.Abreast stopped (fun _ last _ last' => Onward differ room m t last last')
      (write (m.address place + UInt32.ofNat distance) new after)
      (write (t.address place + UInt32.ofNat distance) new after') := by
  have hb := h.twin.proper.bounded
  have hb' := h.twin.properTwin.bounded
  have hsize := h.twin.size
  have hw : write (after.address (place + distance)) new after = _ :=
    write_eq (h.twin.proper.address_lt (by omega)) hin
  have hw' : write (after'.address (place + distance)) new after' = _ :=
    write_eq (h.twin.properTwin.address_lt (by omega)) (by omega)
  rw [address_add, address_add, ← address_of_base h.base, ← address_of_base h.baseTwin, hw, hw']
  exact ⟨h.base, h.baseTwin, h.size, h.twin.overwrite _ _⟩

/-- Words are written into the fields of a record from one field on, where the pages may differ. -/
theorem Onward.writeWords_abreast {room : Nat} (h : Onward differ room m t after after')
    (stopped : Memory → Memory → Prop) (place distance n : Nat) {words words' : List UInt32}
    (hlen : words.length = n) (hlen' : words'.length = n) (hne : 0 < n)
    (hin : place + distance + 4 * n ≤ after.size)
    (hdiffer : ∀ k, InRange (place + distance) (4 * n) k → differ k) :
    Edit.Abreast stopped (fun _ last _ last' => Onward differ room m t last last')
      (writeWords (m.address place + UInt32.ofNat distance) words after)
      (writeWords (t.address place + UInt32.ofNat distance) words' after') := by
  have hsize := h.twin.size
  rw [address_add, address_add, ← address_of_base h.base, ← address_of_base h.baseTwin,
    writeWords_eq h.twin.proper _ words (by omega) (by omega),
    writeWords_eq h.twin.properTwin _ words' (by omega) (by omega)]
  exact ⟨h.base, h.baseTwin, h.size, h.twin.overwriteWords _ n hlen hlen' hdiffer⟩

end

end Memory

/-! ## §3. Records side by side. -/

/-- The positions of the words at given places. -/
def InWord (places : List Nat) (k : Nat) : Prop := ∃ place ∈ places, InRange place 4 k

/-- The distances of the words of a map from the start of its record. -/
def AddressMap.wordFields : List Nat := [0, 4, 8, 12, 16, 20, 28]

/-- The distances of the words of a program from the start of its record. -/
def Program.wordFields : List Nat := [0, 4, 8, 12, 16, 20, 24, 28, 32]

/-- The distances of the words of a header from the start of the page. -/
def Header.wordFields : List Nat := [0, 4, 8, 12, 16, 20]

theorem inWord_of_multiple {fields : List Nat} {place k : Nat} (hk : place ≤ k)
    (hmem : (k - place) / 4 * 4 ∈ fields) : InWord (fields.map (place + ·)) k := by
  refine ⟨_, List.mem_map_of_mem hmem, ?_⟩
  simp only [InRange]
  omega

theorem AddressMap.inWord {place k : Nat}
    (h : InRange place 24 k ∨ InRange (place + 28) 4 k) :
    InWord (wordFields.map (place + ·)) k := by
  simp only [InRange] at h
  apply inWord_of_multiple (by omega)
  simp only [wordFields, List.mem_cons, List.not_mem_nil, or_false]
  omega

theorem Program.inWord {place k : Nat} (h : InRange place 36 k) :
    InWord (wordFields.map (place + ·)) k := by
  simp only [InRange] at h
  apply inWord_of_multiple (by omega)
  simp only [wordFields, List.mem_cons, List.not_mem_nil, or_false]
  omega

section

variable {differ : Nat → Prop} {m t : Memory}

/-- **A map is put into both of two pages or into none.** -/
theorem AddressMap.put_abreast (h : Twin differ m t) (id : UInt8) (name : String)
    (start stop access : UInt32) :
    Edit.Abreast (Twin differ)
      (Added (fun k => differ k ∨ InWord (wordFields.map (m.size + ·)) k)
        ((blockSizes name).map roundUp).sum m t)
      (put id name start stop access m) (put id name start stop access t) := by
  have hround : roundUp recordSize = 32 := rfl
  have hsum : roundUp recordSize + roundUp (Text.Utf8.bytes name ++ [0]).length
      = ((blockSizes name).map roundUp).sum := by
    rw [sum_blockSizes, hround, List.length_append, List.length_singleton]
  refine (h.reserve_abreast recordSize).bind fun a m1 b t1 ⟨ha, hb, h1⟩ => ?_
  refine (h1.twin.store_abreast _).bind fun c m2 d t2 ⟨_, _, h2⟩ => ?_
  subst ha hb
  rw [h.size]
  have h12 := (h1.trans h2).mono (fun k hk => show differ k
    ∨ InWord (wordFields.map (m.size + ·)) k from .inl hk)
  rw [hsum] at h12
  have hsize := h12.size
  rw [sum_blockSizes] at hsize
  -- the fields of the record are words, apart from the id
  refine (h12.writeWords_abreast _ m.size 8 4 rfl rfl (by omega) (by omega)
    fun k hk => .inr (inWord (.inl ?_))).bind fun _ m3 _ t3 h3 => ?_
  · simp only [InRange] at hk ⊢
    omega
  have hsize3 := h3.size
  rw [sum_blockSizes] at hsize3
  refine (h3.write_abreast _ m.size 24 _ (by simp) (show _ + 1 ≤ _ by omega)).bind
    fun _ m4 _ t4 h4 => ?_
  have hsize4 := h4.size
  rw [sum_blockSizes] at hsize4
  refine (h4.writeWords_abreast _ m.size 28 1 rfl rfl (by omega) (by omega)
    fun k hk => .inr (inWord (.inr hk))).bind fun _ m5 _ t5 h5 => ?_
  exact ⟨rfl, by rw [h.size], h5⟩

/-- **A planned program is put into both of two pages or into none.** -/
theorem Program.Plan.put_abreast (h : Twin differ m t) (plan : Plan) :
    Edit.Abreast (Twin differ)
      (Added (fun k => differ k ∨ InWord (wordFields.map (m.size + ·)) k)
        (plan.blockSizes.map roundUp).sum m t) (plan.put m) (plan.put t) := by
  have hround : roundUp recordSize = 40 := rfl
  have hsum : roundUp recordSize + roundUp plan.dataMaps.length
      + roundUp plan.instructionMaps.length + roundUp (plan.argv ++ [0]).length
      = (plan.blockSizes.map roundUp).sum := by
    rw [sum_blockSizes, hround, List.length_append, List.length_singleton]
  refine (h.reserve_abreast recordSize).bind fun a m1 b t1 ⟨ha, hb, h1⟩ => ?_
  refine (h1.twin.store_abreast _).bind fun _ m2 _ t2 ⟨_, _, h2⟩ => ?_
  refine (h2.twin.store_abreast _).bind fun _ m3 _ t3 ⟨_, _, h3⟩ => ?_
  refine (h3.twin.store_abreast _).bind fun _ m4 _ t4 ⟨_, _, h4⟩ => ?_
  subst ha hb
  rw [h.size]
  have h14 := (((h1.trans h2).trans h3).trans h4).mono (fun k hk => show differ k
    ∨ InWord (wordFields.map (m.size + ·)) k from .inl hk)
  rw [hsum] at h14
  have hsize := h14.size
  rw [sum_blockSizes] at hsize
  -- all fields of the record are words
  refine (h14.writeWords_abreast _ m.size 8 7 rfl rfl (by omega) (by omega)
    fun k hk => .inr (inWord ?_)).bind fun _ m5 _ t5 h5 => ?_
  · simp only [InRange] at hk ⊢
    omega
  exact ⟨rfl, by rw [h.size], h5⟩

end

/-! ## §4. Rings side by side. -/

namespace Ring

/-- The page with a record appended to a ring. -/
def linked (m : Memory) : List Nat → Nat → Memory
  | [], place =>
    (m.overwriteWords place [m.address place]).overwriteWords (place + 4) [m.address place]
  | first :: rest, place =>
    let last := (first :: rest).getLast (List.cons_ne_nil first rest)
    (((m.overwriteWords (place + 4) [m.address last]).overwriteWords last
      [m.address place]).overwriteWords place [m.address first]).overwriteWords (first + 4)
        [m.address place]

theorem setNext_eq {m : Memory} (hm : m.Proper) {place : Nat} (hin : place + linkSize ≤ m.size)
    (target : UInt32) :
    setNext (m.address place) target m = .ok () (m.overwriteWords place [target]) := by
  have hin' : place + 8 ≤ m.size := hin
  exact writeWords_eq hm place [target] (by simp) (show place + 4 * 1 ≤ m.size by omega)

theorem setPrevious_eq {m : Memory} (hm : m.Proper) {place : Nat} (hin : place + linkSize ≤ m.size)
    (target : UInt32) :
    setPrevious (m.address place) target m = .ok () (m.overwriteWords (place + 4) [target]) := by
  have hin' : place + 8 ≤ m.size := hin
  unfold setPrevious
  rw [show previousField = UInt32.ofNat 4 from rfl, address_add]
  exact writeWords_eq hm (place + 4) [target] (by simp) (show place + 4 + 4 * 1 ≤ m.size by omega)

/-- What appending a record to a closed ring makes of a page. -/
theorem append_eq {m : Memory} (hm : m.Proper) {ring : List Nat} {place : Nat}
    (h : Closed m ring) (hs : Spaced m (ring ++ [place])) :
    append (headOf m ring) (m.address place) m
      = .ok (headOf m (ring ++ [place])) (linked m ring place) := by
  have hplace := hs.inside place (by simp)
  cases ring with
  | nil =>
    have hw1 := setNext_eq hm hplace (m.address place)
    have hw2 : setPrevious (m.address place) (m.address place)
        (m.overwriteWords place [m.address place]) = .ok () (linked m [] place) :=
      setPrevious_eq (hm.overwriteWords _ _) hplace _
    show append 0 (m.address place) m = _
    unfold append
    rw [if_pos rfl, Edit.bind_of_ok hw1, Edit.bind_of_ok hw2]
    rfl
  | cons first rest =>
    have hget := List.getLast?_eq_some_getLast (List.cons_ne_nil first rest)
    have hlast := hs.inside _ (List.mem_append_left _ (List.mem_of_getLast? hget))
    have hfirst := hs.inside first (by simp)
    have hlook : Edit.look (previous · (m.address first)) m = .ok (m.address _) m :=
      Edit.look_of_ok ((Closed.cons_iff.1 h).2 _ hget).previous_eq
    -- the four links, one after the other
    have hw1 := setPrevious_eq hm hplace (m.address ((first :: rest).getLast (by simp)))
    have hm1 := hm.overwriteWords (place + 4)
      [m.address ((first :: rest).getLast (by simp))]
    have hw2 : setNext (m.address ((first :: rest).getLast (by simp))) (m.address place) _ = _ :=
      setNext_eq hm1 hlast (m.address place)
    have hm2 := hm1.overwriteWords ((first :: rest).getLast (by simp)) [m.address place]
    have hw3 : setNext (m.address place) (m.address first) _ = _ :=
      setNext_eq hm2 hplace (m.address first)
    have hm3 := hm2.overwriteWords place [m.address first]
    have hw4 : setPrevious (m.address first) (m.address place) _ = _ :=
      setPrevious_eq hm3 hfirst (m.address place)
    show append (m.address first) (m.address place) m = _
    unfold append
    rw [if_neg (hs.nonzero first (by simp)), Edit.bind_of_ok hlook, Edit.bind_of_ok hw1,
      Edit.bind_of_ok hw2, Edit.bind_of_ok hw3, Edit.bind_of_ok hw4]
    rfl

/-- **A record that joins its ring in both of two pages leaves pages that differ in links only.** -/
theorem twin_linked {differ : Nat → Prop} {m t : Memory} (h : Twin differ m t) {ring : List Nat}
    {place : Nat}
    (hdiffer : ∀ a ∈ ring ++ [place], ∀ k, InRange a linkSize k → differ k) :
    Twin differ (linked m ring place) (linked t ring place) := by
  have hnext : ∀ a ∈ ring ++ [place], ∀ k, InRange a 4 k → differ k := fun a ha k hk =>
    hdiffer a ha k ⟨hk.1, Nat.lt_of_lt_of_le hk.2 (by simp [linkSize])⟩
  have hprevious : ∀ a ∈ ring ++ [place], ∀ k, InRange (a + 4) 4 k → differ k := fun a ha k hk =>
    hdiffer a ha k ⟨Nat.le_trans (Nat.le_add_right a 4) hk.1, hk.2⟩
  have hplace : place ∈ ring ++ [place] := by simp
  cases ring with
  | nil =>
    exact (h.overwriteWords place 1 rfl rfl (hnext place hplace)).overwriteWords (place + 4) 1 rfl
      rfl (hprevious place hplace)
  | cons first rest =>
    have hlast : (first :: rest).getLast (List.cons_ne_nil first rest) ∈ first :: rest ++ [place] :=
      List.mem_append_left _ (List.getLast_mem _)
    have hfirst : first ∈ first :: rest ++ [place] := by simp
    exact (((h.overwriteWords (place + 4) 1 rfl rfl (hprevious place hplace)).overwriteWords _ 1 rfl
      rfl (hnext _ hlast)).overwriteWords place 1 rfl rfl (hnext place hplace)).overwriteWords
        (first + 4) 1 rfl rfl (hprevious first hfirst)

end Ring

/-- What a record put behind all others makes of a page when it joins a ring. -/
theorem Arranged.append_eq {m grown : Memory} {ring other : List Nat} {pieces : List Piece}
    (h : Arranged m ring other pieces) (he : m.Extends grown) (hgrown : grown.Proper)
    (hsize : m.size + smallestRecord ≤ grown.size) :
    append (headOf m ring) (m.address m.size) grown
      = .ok (headOf m (ring ++ [m.size])) (linked grown ring m.size) := by
  obtain ⟨hclosed, hspaced⟩ := h.spaced_concat he hgrown hsize
  have happend := Ring.append_eq hgrown hclosed hspaced
  rwa [headOf_frame he, headOf_frame he, he.address_eq] at happend

end SystemPage
