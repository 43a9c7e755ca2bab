/-
  SystemPage.Proofs.Rings — rings that close.

  A ring is described by the list of the places of its records, from its head to its tail.  It is
  closed if each record is joined to the one after it, the last one to the first: the first word of
  the one leads to the other, whose second word leads back.

  Main results:

      walkFrom_eq_ok_iff
                       — which walks meet no fault
      Closed.walk_eq   — a walk along a closed ring meets its records and nothing else
      Closed.audit_eq  — a closed ring passes the audit
      append_closed    — appending keeps a ring closed and sets four words
-/
import Mathlib.Data.List.Chain
import SystemPage.Proofs.Store
import SystemPage.Ring

namespace SystemPage
namespace Ring

open Memory

/-! ## §1. Closed rings. -/

/-- The number of bytes of the two links at the start of a record. -/
def linkSize : Nat := 8

/-- A record is followed by another: its first word leads there, and the second word of the other
leads back. -/
structure Joined (m : Memory) (a b : Nat) : Prop where
  forward : m.HoldsWord a (m.address b)
  back : m.HoldsWord (b + 4) (m.address a)

/-- Each record is followed by the next one of the list, and the last one by the first. -/
def Closed (m : Memory) (places : List Nat) : Prop := (places ++ places.take 1).IsChain (Joined m)

/-- The head of a ring, which is 0 if the ring is empty. -/
def headOf (m : Memory) : List Nat → UInt32
  | [] => 0
  | place :: _ => m.address place

/-- The links of two records do not overlap. -/
def Apart (a b : Nat) : Prop := a + linkSize ≤ b ∨ b + linkSize ≤ a

/-- Records that can form a ring: their links lie in the page and do not overlap, and none of them
lies at address 0, which stands for the empty ring. -/
structure Spaced (m : Memory) (places : List Nat) : Prop where
  inside : ∀ place ∈ places, place + linkSize ≤ m.size
  nonzero : ∀ place ∈ places, m.address place ≠ 0
  apart : places.Pairwise Apart

theorem Apart.symm {a b : Nat} (h : Apart a b) : Apart b a := Or.symm h

instance : Std.Symm Apart := ⟨fun _ _ => Apart.symm⟩

instance (a b : Nat) : Decidable (Apart a b) :=
  inferInstanceAs (Decidable (a + linkSize ≤ b ∨ b + linkSize ≤ a))

theorem Apart.ne {a b : Nat} (h : Apart a b) : a ≠ b := by
  have h' : a + 8 ≤ b ∨ b + 8 ≤ a := h
  omega

theorem Apart.not_inRange {a b k : Nat} (h : Apart a b) (hk : InRange a linkSize k) :
    ¬ InRange b linkSize k := by
  simp only [Apart, InRange, linkSize] at *
  omega

theorem headOf_frame {touched : Nat → Prop} {m after : Memory} (hf : Frame touched m after)
    (places : List Nat) : headOf after places = headOf m places := by
  cases places with
  | nil => rfl
  | cons place rest => exact hf.address_eq place

theorem Spaced.nodup {m : Memory} {places : List Nat} (h : Spaced m places) : places.Nodup :=
  h.apart.imp Apart.ne

namespace Joined

variable {m after : Memory} {a b : Nat}

theorem next_eq (h : Joined m a b) : next m (m.address a) = .ok (m.address b) := h.forward.readWord

theorem previous_eq (h : Joined m a b) : previous m (m.address b) = .ok (m.address a) := by
  unfold previous
  rw [show previousField = UInt32.ofNat 4 from rfl, address_add]
  exact h.back.readWord

theorem frame {touched : Nat → Prop} (h : Joined m a b) (hf : Frame touched m after)
    (hforward : ∀ k, InRange a 4 k → ¬ touched k)
    (hback : ∀ k, InRange (b + 4) 4 k → ¬ touched k) : Joined after a b := by
  refine ⟨?_, ?_⟩
  · rw [hf.address_eq]
    exact h.forward.frameWord hf hforward
  · rw [hf.address_eq]
    exact h.back.frameWord hf hback

/-- Different places of records that follow others have different addresses. -/
theorem address_ne {c d : Nat} (h : Joined m a b) (h' : Joined m c d) (hne : a ≠ c) :
    m.address a ≠ m.address c := by
  intro he
  have hn := congrArg UInt32.toNat he
  rw [toNat_address h.forward.addressed, toNat_address h'.forward.addressed] at hn
  omega

end Joined

/-! ## §2. Links of a closed ring. -/

namespace Closed

variable {m after : Memory} {places : List Nat}

theorem nil (m : Memory) : Closed m [] := List.IsChain.nil

/-- The records of a ring in order, and the last one joined to the first. -/
theorem cons_iff {first : Nat} {rest : List Nat} :
    Closed m (first :: rest) ↔ (first :: rest).IsChain (Joined m)
      ∧ ∀ last ∈ (first :: rest).getLast?, Joined m last first := by
  unfold Closed
  rw [List.take_succ_cons, List.take_zero, List.isChain_append]
  simp

/-- Every record of a ring is followed by one of the ring. -/
theorem exists_next (h : Closed m places) {a : Nat} (ha : a ∈ places) :
    ∃ b ∈ places, Joined m a b := by
  cases places with
  | nil => simp at ha
  | cons first rest =>
    obtain ⟨i, hi, rfl⟩ := List.getElem_of_mem ha
    obtain ⟨hchain, hlast⟩ := cons_iff.1 h
    by_cases hend : i + 1 < (first :: rest).length
    · exact ⟨_, List.getElem_mem hend, List.isChain_iff_getElem.1 hchain i hend⟩
    · -- the last record leads back to the first
      have hi' : i = (first :: rest).length - 1 := by omega
      subst hi'
      refine ⟨first, by simp, hlast _ ?_⟩
      rw [List.getLast?_eq_getElem?, List.getElem?_eq_getElem hi, Option.mem_some]

/-- A ring of which no link is touched stays closed. -/
theorem frame {touched : Nat → Prop} (h : Closed m places) (hf : Frame touched m after)
    (hn : ∀ place ∈ places, ∀ k, InRange place linkSize k → ¬ touched k) : Closed after places := by
  refine List.IsChain.imp_of_mem_imp (fun a b ha hb hj => ?_) h
  have hmem : ∀ c ∈ places ++ places.take 1, c ∈ places := fun c hc =>
    (List.mem_append.1 hc).elim id fun hc => List.mem_of_mem_take hc
  refine hj.frame hf (fun k hk => hn a (hmem a ha) k ?_) fun k hk => hn b (hmem b hb) k ?_
  · exact ⟨hk.1, Nat.lt_of_lt_of_le hk.2 (by simp [linkSize])⟩
  · exact ⟨Nat.le_trans (by omega) hk.1, Nat.lt_of_lt_of_le hk.2 (by simp [linkSize])⟩

end Closed

/-! ## §3. Walking. -/

/-- A walk tells something of the record where it starts, and nothing else first. -/
theorem exists_walkFrom_eq (m : Memory) (head node : UInt32) (steps : Nat) :
    ∃ item items, walkFrom m head steps node = item :: items
      ∧ ∀ first, item = .ok first → first = node := by
  cases steps with
  | zero => exact ⟨_, _, rfl, by simp⟩
  | succ steps =>
    rw [walkFrom]
    cases next m node with
    | error fault => exact ⟨_, _, rfl, by simp⟩
    | ok after => exact ⟨_, _, rfl, by simp⟩

/-- **A walk meets no fault exactly if the ways forward lead from record to record, and from the
last one to the head, within as many steps as there are.** -/
theorem walkFrom_eq_ok_iff {m : Memory} {head node : UInt32} {rest : List UInt32}
    {steps : Nat} :
    walkFrom m head steps node = (node :: rest).map .ok
      ↔ rest.length < steps ∧ head ∉ rest
        ∧ (node :: rest ++ [head]).IsChain fun a b => next m a = .ok b := by
  induction rest generalizing node steps with
  | nil =>
    cases steps with
    | zero => simp [walkFrom]
    | succ steps =>
      rw [walkFrom]
      cases hnext : next m node with
      | error fault => simp [hnext]
      | ok after =>
        obtain ⟨item, items, hwalk, -⟩ := exists_walkFrom_eq m head after steps
        by_cases hend : after = head
        · simp [hend, hnext]
        · simp [hend, hnext, hwalk]
  | cons b rest ih =>
    cases steps with
    | zero => simp [walkFrom]
    | succ steps =>
      rw [walkFrom]
      cases hnext : next m node with
      | error fault => simp [hnext]
      | ok after =>
        by_cases hb : after = b
        · subst hb
          by_cases hend : after = head
          · simp [hend]
          · have hrest : walkFrom m head steps after = (after :: rest).map .ok ↔ _ := ih
            simp only [List.map_cons, List.cons_append] at hrest
            simp [hnext, hend, Ne.symm hend, hrest]
        · obtain ⟨item, items, hwalk, hitem⟩ := exists_walkFrom_eq m head after steps
          have hne : item ≠ .ok b := fun hi => hb (hitem b hi).symm
          by_cases hend : after = head
          · simp [hend, hnext, hend ▸ hb]
          · simp [hend, hnext, hb, hwalk, hne]

namespace Closed

variable {m : Memory} {places : List Nat}

/-- **A walk along a closed ring meets its records and nothing else.** -/
theorem walk_eq (h : Closed m places) (hs : Spaced m places) (hb : places.length ≤ budget m) :
    walk m (headOf m places) = places.map fun place => .ok (m.address place) := by
  cases places with
  | nil => simp [walk, headOf]
  | cons first rest =>
    have hnodes : ((first :: rest).map fun place => Except.ok (m.address place))
        = ((m.address first :: rest.map m.address).map .ok : List (Except Fault UInt32)) := by
      rw [List.map_cons, List.map_cons, List.map_map]
      rfl
    have hne : m.address first ∉ rest.map m.address := by
      intro hmem
      obtain ⟨place, hplace, heq⟩ := List.mem_map.1 hmem
      -- the head and another record follow others, so that they have different addresses
      obtain ⟨b, -, hfirst⟩ := h.exists_next (a := first) (by simp)
      obtain ⟨c, -, hother⟩ := h.exists_next (a := place) (by simp [hplace])
      have hplaces : place ≠ first := fun he => (List.nodup_cons.1 hs.nodup).1 (he ▸ hplace)
      exact hother.address_ne hfirst hplaces heq
    have hchain : (m.address first :: rest.map m.address ++ [m.address first]).IsChain
        fun a b => next m a = .ok b := by
      have hmoved : ((first :: rest ++ [first]).map m.address).IsChain
          fun a b => next m a = .ok b :=
        (List.isChain_map m.address).2 (h.imp fun a b hj => hj.next_eq)
      rw [List.map_append, List.map_cons] at hmoved
      exact hmoved
    rw [headOf, walk, if_neg (hs.nonzero first (by simp)), hnodes]
    apply walkFrom_eq_ok_iff.2
    refine ⟨?_, hne, hchain⟩
    rw [List.length_map]
    exact hb

end Closed

/-! ## §4. Visiting records that can be read. -/

/-- Reading each of a list of records finds what it finds at each. -/
theorem mapM_eq_pure {n : Type → Type} [Monad n] [LawfulMonad n] {α β : Type} {read : α → n β}
    {found : α → β} (items : List α) (h : ∀ a ∈ items, read a = pure (found a)) :
    items.mapM read = pure (items.map found) := by
  induction items with
  | nil => rw [List.mapM_nil, List.map_nil]
  | cons a rest ih =>
    rw [List.mapM_cons, h a (by simp), ih fun b hb => h b (by simp [hb])]
    simp

/-- The visit that an audit makes: it counts the records that pass. -/
def counting (m : Memory) : Visit Nat := fun count node =>
  (auditRecord m node).map fun _ => .yield (count + 1)

theorem visitItems_counting_cons {m : Memory} {node : UInt32}
    {items : List (Except Fault UInt32)} {count n : Nat} :
    visitItems (counting m) count (.ok node :: items) = .ok n
      ↔ auditRecord m node = .ok () ∧ visitItems (counting m) (count + 1) items = .ok n := by
  cases h : auditRecord m node with
  | error fault => simp [visitItems, counting, h, bind, Except.bind, Except.map]
  | ok u => simp [visitItems, counting, h, bind, Except.bind, Except.map]

/-- Counting finishes exactly if the walk meets no fault and every record on it passes. -/
theorem visitItems_counting_eq_ok_iff {m : Memory} {items : List (Except Fault UInt32)}
    {count n : Nat} :
    visitItems (counting m) count items = .ok n
      ↔ ∃ nodes : List UInt32, nodes.map .ok = items ∧ count + nodes.length = n
        ∧ ∀ node ∈ nodes, auditRecord m node = .ok () := by
  induction items generalizing count with
  | nil => simp [visitItems]
  | cons item rest ih =>
    cases item with
    | error fault => simp [visitItems, bind, Except.bind, List.map_eq_cons_iff]
    | ok node =>
      rw [visitItems_counting_cons, ih]
      constructor
      · rintro ⟨hnode, nodes, rfl, rfl, hall⟩
        exact ⟨node :: nodes, rfl, by rw [List.length_cons]; omega, by simpa [hnode] using hall⟩
      · rintro ⟨nodes, hnodes, rfl, hall⟩
        obtain ⟨first, others, rfl, hfirst, rfl⟩ := List.map_eq_cons_iff.1 hnodes
        cases hfirst
        exact ⟨hall _ (by simp), others, rfl, by rw [List.length_cons]; omega,
          fun a ha => hall a (by simp [ha])⟩

/-- A search stops at the first record at which it finds something. -/
theorem visitItems_find {α ι : Type} {items : List ι} {node : ι → UInt32}
    {look : UInt32 → Except Fault (Option α)} {found : ι → Option α}
    (h : ∀ item ∈ items, look (node item) = .ok (found item)) :
    visitItems (fun _ node => (look node).map fun
        | some a => .done (some a)
        | none => .yield none) none
      (items.map fun item => .ok (node item)) = .ok (items.findSome? found) := by
  induction items with
  | nil => rfl
  | cons item rest ih =>
    have hrest := ih fun p hp => h p (by simp [hp])
    simp only [List.map_cons, visitItems, bind, Except.bind, h item (by simp), Except.map]
    cases hf : found item with
    | none =>
      rw [List.findSome?_cons, hf]
      exact hrest
    | some a =>
      rw [List.findSome?_cons, hf]
      rfl

namespace Closed

variable {m : Memory} {places : List Nat}

/-- What is collected along a closed ring is what its records hold. -/
theorem collect_eq {α ι : Type} {items : List ι} {place : ι → Nat}
    {read : UInt32 → Except Fault α} {found : ι → α} (h : Closed m (items.map place))
    (hs : Spaced m (items.map place)) (hb : (items.map place).length ≤ budget m)
    (hread : ∀ item ∈ items, read (m.address (place item)) = .ok (found item)) :
    collect m (headOf m (items.map place)) read = .ok (items.map found) := by
  rw [collect_eq_mapM, h.walk_eq hs hb, List.map_map, List.mapM_map]
  exact mapM_eq_pure items hread

/-- What is searched along a closed ring is searched in its records. -/
theorem find?_eq {α ι : Type} {items : List ι} {place : ι → Nat}
    {look : UInt32 → Except Fault (Option α)} {found : ι → Option α}
    (h : Closed m (items.map place)) (hs : Spaced m (items.map place))
    (hb : (items.map place).length ≤ budget m)
    (hlook : ∀ item ∈ items, look (m.address (place item)) = .ok (found item)) :
    find? m (headOf m (items.map place)) look = .ok (items.findSome? found) := by
  unfold find?
  rw [visit_eq_visitItems, h.walk_eq hs hb, List.map_map]
  exact visitItems_find hlook

/-- **A closed ring passes the audit, which counts its records.** -/
theorem audit_eq (h : Closed m places) (hs : Spaced m places) (hb : places.length ≤ budget m) :
    audit m (headOf m places) = .ok places.length := by
  have hrecords : ∀ node ∈ places.map m.address, auditRecord m node = .ok () := by
    intro node hnode
    obtain ⟨place, hplace, rfl⟩ := List.mem_map.1 hnode
    obtain ⟨b, _, hj⟩ := h.exists_next hplace
    simp [auditRecord, hj.next_eq, hj.previous_eq, bind, Except.bind, pure, Except.pure]
  -- the first part of the audit counts the records, the second one looks at the tail
  have hcount : visit m (headOf m places) (counting m) 0 = .ok places.length := by
    rw [visit_eq_visitItems, h.walk_eq hs hb]
    refine visitItems_counting_eq_ok_iff.2 ⟨places.map m.address, ?_, ?_, hrecords⟩
    · rw [List.map_map]
      rfl
    · rw [List.length_map, Nat.zero_add]
  show (visit m (headOf m places) (counting m) 0 >>= _) = _
  rw [hcount]
  cases places with
  | nil => simp [headOf, tail?, bind, Except.bind, pure, Except.pure]
  | cons first rest =>
    have hlast := (cons_iff.1 h).2 _ (List.getLast?_eq_some_getLast (List.cons_ne_nil first rest))
    simp [headOf, tail?, hs.nonzero first (by simp), hlast.previous_eq, hlast.next_eq, bind,
      Except.bind, Except.map, pure, Except.pure]

end Closed

/-! ## §5. Appending. -/

/-- The positions of the links that appending a record sets: both links of the record, the way back
from the head and the way forward from the tail. -/
def Relinked (places : List Nat) (place : Nat) (k : Nat) : Prop :=
  InRange place linkSize k ∨ (∃ first ∈ places.head?, InRange (first + 4) 4 k)
    ∨ ∃ last ∈ places.getLast?, InRange last 4 k

theorem setNext_spec {m : Memory} {place : Nat} {node : UInt32} (hm : m.Proper)
    (hin : place + linkSize ≤ m.size) (hn : node = m.address place) (target : UInt32) :
    ∃ after, setNext node target m = .ok () after ∧ after.size = m.size
      ∧ Frame (InRange place 4) m after ∧ after.HoldsWord place target := by
  subst hn
  have hin' : place + 8 ≤ m.size := hin
  have hb := hm.bounded
  exact writeWord_spec target (hm.address_lt (by omega)) (by omega)

theorem setPrevious_spec {m : Memory} {place : Nat} {node : UInt32} (hm : m.Proper)
    (hin : place + linkSize ≤ m.size) (hn : node = m.address place) (target : UInt32) :
    ∃ after, setPrevious node target m = .ok () after ∧ after.size = m.size
      ∧ Frame (InRange (place + 4) 4) m after ∧ after.HoldsWord (place + 4) target := by
  subst hn
  have hin' : place + 8 ≤ m.size := hin
  have hb := hm.bounded
  unfold setPrevious
  rw [show previousField = UInt32.ofNat 4 from rfl, address_add]
  exact writeWord_spec target (hm.address_lt (by omega)) (by omega)

/-- The first record of a ring is linked with itself. -/
theorem append_nil_spec {m : Memory} {place : Nat} (hm : m.Proper)
    (hin : place + linkSize ≤ m.size) :
    ∃ after, append 0 (m.address place) m = .ok (m.address place) after ∧ after.size = m.size
      ∧ Frame (Relinked [] place) m after ∧ Closed after [place] := by
  obtain ⟨m1, hw1, hs1, hf1, hh1⟩ := setNext_spec hm hin rfl (m.address place)
  obtain ⟨m2, hw2, hs2, hf2, hh2⟩ := setPrevious_spec (hm.frame hf1 hs1) (by omega)
    (hf1.address_eq place).symm (m.address place)
  have hf := hf1.trans hf2
  refine ⟨m2, ?_, by omega, hf.mono fun k _ hk => .inl ?_, ?_⟩
  · unfold append
    rw [if_pos rfl, Edit.bind_of_ok hw1, Edit.bind_of_ok hw2]
    rfl
  · simp only [InRange, linkSize] at hk ⊢
    omega
  · have hj : Joined m2 place place := by
      refine ⟨?_, ?_⟩
      · rw [hf.address_eq]
        exact hh1.frameWord hf2 fun k hk hk' => by simp only [InRange] at hk hk'; omega
      · rw [hf.address_eq]
        exact hh2
    exact Closed.cons_iff.2 ⟨.singleton _, by simpa using hj⟩

/-- What follows a record of a ring keeps following it unless one of its two links is set. -/
theorem Joined.relinked {m after : Memory} {places : List Nat} {place a b : Nat} (h : Joined m a b)
    (hf : Frame (Relinked places place) m after) (ha : Apart a place) (hb : Apart b place)
    (hlast : ∀ last ∈ places.getLast?, Apart a last)
    (hfirst : ∀ first ∈ places.head?, Apart b first)
    (hforward : ∀ first ∈ places.head?, a = first ∨ Apart a first)
    (hback : ∀ last ∈ places.getLast?, b = last ∨ Apart b last) : Joined after a b := by
  apply h.frame hf
  · -- a way forward is only set in the new record and in the tail, which `a` is not
    intro k hk hk'
    rcases hk' with hk' | ⟨first, hmem, hk'⟩ | ⟨last, hmem, hk'⟩
    · simp only [InRange, Apart, linkSize] at *
      omega
    · have h1 := hforward first hmem
      simp only [InRange, Apart, linkSize] at hk hk' h1
      omega
    · have h1 := hlast last hmem
      simp only [InRange, Apart, linkSize] at hk hk' h1
      omega
  · -- and a way back only in the new record and in the head, which `b` is not
    intro k hk hk'
    rcases hk' with hk' | ⟨first, hmem, hk'⟩ | ⟨last, hmem, hk'⟩
    · simp only [InRange, Apart, linkSize] at *
      omega
    · have h1 := hfirst first hmem
      simp only [InRange, Apart, linkSize] at hk hk' h1
      omega
    · have h1 := hback last hmem
      simp only [InRange, Apart, linkSize] at hk hk' h1
      omega

/-- The four links of a record that is put between the tail of a ring and its head. -/
theorem append_cons_spec {m : Memory} {first last place : Nat} (hm : m.Proper)
    (hlast : Joined m last first) (hnonzero : m.address first ≠ 0)
    (hin : ∀ a ∈ [first, last, place], a + linkSize ≤ m.size)
    (hfirst_place : Apart first place) (hlast_place : Apart last place)
    (hold : last = first ∨ Apart last first) :
    ∃ after, append (m.address first) (m.address place) m = .ok (m.address first) after
      ∧ after.size = m.size
      ∧ Frame (fun k => InRange place linkSize k ∨ InRange (first + 4) 4 k ∨ InRange last 4 k) m
        after
      ∧ Joined after last place ∧ Joined after place first := by
  simp only [List.mem_cons, List.not_mem_nil, or_false, forall_eq_or_imp, forall_eq] at hin
  obtain ⟨hin_first, hin_last, hin_place⟩ := hin
  -- both links of the tail's side first, then both of the head's
  obtain ⟨m1, hw1, hs1, hf1, hh1⟩ := setPrevious_spec hm hin_place rfl (m.address last)
  have hm1 := hm.frame hf1 hs1
  obtain ⟨m2, hw2, hs2, hf2, hh2⟩ := setNext_spec hm1 (by rw [hs1]; exact hin_last)
    (hf1.address_eq last).symm (m.address place)
  have hf12 := hf1.trans hf2
  have hm2 := hm1.frame hf2 hs2
  obtain ⟨m3, hw3, hs3, hf3, hh3⟩ := setNext_spec hm2 (by rw [hs2, hs1]; exact hin_place)
    (hf12.address_eq place).symm (m.address first)
  have hf123 := hf12.trans hf3
  have hm3 := hm2.frame hf3 hs3
  obtain ⟨m4, hw4, hs4, hf4, hh4⟩ := setPrevious_spec hm3 (by rw [hs3, hs2, hs1]; exact hin_first)
    (hf123.address_eq first).symm (m.address place)
  have hf := hf123.trans hf4
  simp only [Apart, linkSize] at hfirst_place hlast_place hold
  refine ⟨m4, ?_, by omega, hf.mono fun k _ hk => ?_, ⟨?_, ?_⟩, ⟨?_, ?_⟩⟩
  · have hlook : Edit.look (previous · (m.address first)) m = .ok (m.address last) m :=
      Edit.look_of_ok hlast.previous_eq
    unfold append
    rw [if_neg hnonzero, Edit.bind_of_ok hlook, Edit.bind_of_ok hw1, Edit.bind_of_ok hw2,
      Edit.bind_of_ok hw3, Edit.bind_of_ok hw4]
    rfl
  · simp only [InRange, linkSize] at hk ⊢
    omega
  -- a link stays as it was set: the later ones lie elsewhere
  · rw [hf.address_eq]
    exact hh2.frameWord (hf3.trans hf4) fun k hk hk' => by simp only [InRange] at hk hk'; omega
  · rw [hf.address_eq]
    exact hh1.frameWord (hf2.trans (hf3.trans hf4)) fun k hk hk' => by
      simp only [InRange] at hk hk'; omega
  · rw [hf.address_eq]
    exact hh3.frameWord hf4 fun k hk hk' => by simp only [InRange] at hk hk'; omega
  · rw [hf.address_eq]
    exact hh4

theorem eq_or_apart {places : List Nat} (h : places.Pairwise Apart) {a b : Nat} (ha : a ∈ places)
    (hb : b ∈ places) : a = b ∨ Apart a b :=
  or_iff_not_imp_left.2 fun hne => h.forall ha hb hne

/-- What follows inside of a ring keeps following when a record is appended. -/
theorem isChain_relinked {m after : Memory} {places : List Nat} {place : Nat}
    (h : places.IsChain (Joined m)) (hpair : places.Pairwise Apart)
    (hnew : ∀ a ∈ places, Apart a place) (hf : Frame (Relinked places place) m after) :
    places.IsChain (Joined after) := by
  apply List.isChain_iff_getElem.2
  intro i hi
  have hj := List.isChain_iff_getElem.1 h i hi
  have hi' := List.getElem_mem (Nat.lt_of_succ_lt hi)
  have hi1 := List.getElem_mem hi
  apply hj.relinked hf (hnew _ hi') (hnew _ hi1)
  · -- a record before another is not the tail
    intro last hl
    rw [List.getLast?_eq_getElem?, List.getElem?_eq_getElem (by omega), Option.mem_some] at hl
    subst hl
    exact List.pairwise_iff_getElem.1 hpair _ _ _ _ (by omega)
  · -- a record behind another is not the head
    intro first hl
    rw [List.head?_eq_getElem?, List.getElem?_eq_getElem (by omega), Option.mem_some] at hl
    subst hl
    exact (List.pairwise_iff_getElem.1 hpair 0 (i + 1) (by omega) hi (by omega)).symm
  · intro first hl
    exact eq_or_apart hpair hi' (List.mem_of_mem_head? hl)
  · intro last hl
    exact eq_or_apart hpair hi1 (List.mem_of_getLast? hl)

/-- **Appending keeps a ring closed and sets four words.**  Only the head must not lie at address
0: a ring with another record there is as good as any. -/
theorem append_closed {m : Memory} {places : List Nat} {place : Nat} (hm : m.Proper)
    (h : Closed m places) (hinside : ∀ a ∈ places ++ [place], a + linkSize ≤ m.size)
    (hapart : (places ++ [place]).Pairwise Apart)
    (hnonzero : ∀ first ∈ places.head?, m.address first ≠ 0) :
    ∃ after, append (headOf m places) (m.address place) m = .ok (headOf m (places ++ [place])) after
      ∧ after.size = m.size ∧ Frame (Relinked places place) m after
      ∧ Closed after (places ++ [place]) := by
  cases places with
  | nil => exact append_nil_spec hm (hinside place (by simp))
  | cons first rest =>
    obtain ⟨hchain, hlast⟩ := Closed.cons_iff.1 h
    obtain ⟨last, hget⟩ : ∃ last, (first :: rest).getLast? = some last :=
      ⟨_, List.getLast?_eq_some_getLast (List.cons_ne_nil first rest)⟩
    have hmem := List.mem_of_getLast? hget
    replace hlast := hlast last hget
    obtain ⟨hpair, -, hnew⟩ := List.pairwise_append.1 hapart
    replace hnew : ∀ a ∈ first :: rest, Apart a place := fun a ha => hnew a ha place (by simp)
    have hin : ∀ a ∈ [first, last, place], a + linkSize ≤ m.size := by
      intro a ha
      simp only [List.mem_cons, List.not_mem_nil, or_false] at ha
      rcases ha with rfl | rfl | rfl
      · exact hinside a (by simp)
      · exact hinside a (List.mem_append_left _ hmem)
      · exact hinside a (by simp)
    obtain ⟨after, ha, hsize, hf, htail, hhead⟩ := append_cons_spec hm hlast
      (hnonzero first (by simp)) hin (hnew first (by simp)) (hnew last hmem)
      (eq_or_apart hpair hmem (by simp))
    replace hf : Frame (Relinked (first :: rest) place) m after := by
      apply hf.mono
      intro k _ hk
      simpa [Relinked, hget] using hk
    refine ⟨after, ha, hsize, hf, ?_⟩
    rw [List.cons_append, Closed.cons_iff, ← List.cons_append, List.isChain_append]
    refine ⟨⟨isChain_relinked hchain hpair hnew hf, .singleton _, ?_⟩, ?_⟩
    · simpa [hget] using htail
    · rw [List.getLast?_concat]
      simpa using hhead

/-- A record that joins others in a ring. -/
theorem append_spec {m : Memory} {places : List Nat} {place : Nat} (hm : m.Proper)
    (h : Closed m places) (hs : Spaced m (places ++ [place])) :
    ∃ after, append (headOf m places) (m.address place) m = .ok (headOf m (places ++ [place])) after
      ∧ after.size = m.size ∧ Frame (Relinked places place) m after
      ∧ Closed after (places ++ [place]) :=
  append_closed hm h hs.inside hs.apart fun first hfirst =>
    hs.nonzero first (List.mem_append_left _ (List.mem_of_mem_head? hfirst))

end Ring
end SystemPage
