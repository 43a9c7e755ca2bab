/-
  SystemPage.Proofs.CircleGrowth — circles that records are put into.

  `Rings` puts records into rings at multiples of the alignment, as a session does.  Here the
  records are given by their addresses and may lie anywhere in the page, aligned or not, as long as
  their links do not overlap.  The four links are set one by one, and in a circle of one record the
  head is the tail as well, so that two of the four are its own.

  Main results:

      append_confined   — appending sets bytes in the reserved part of a page only
      circular_iff_closed
                        — circles by addresses are closed rings by places
      Circular.append   — one record more
      Circular.foldlM_append
                        — any number of records more
      append_circular   — what appending makes of a circle, and appending again and again of none
-/
import SystemPage.Proofs.Circles
import SystemPage.Proofs.Commands

namespace SystemPage

/-! ## §1. Bytes behind a page. -/

namespace Memory

/-- An edit that finishes leaves the size of a page, and the bytes behind it, as they are. -/
def Confined {α : Type} (edit : Edit Memory α) : Prop :=
  ∀ m a after, edit m = .ok a after →
    after.size = m.size ∧ ∀ k, m.size ≤ k → after.cells.get k = m.cells.get k

theorem Confined.bind {α β : Type} {edit : Edit Memory α} {rest : α → Edit Memory β}
    (h : Confined edit) (hrest : ∀ a, Confined (rest a)) : Confined (edit >>= rest) := by
  intro m b after hb
  obtain ⟨a, middle, ha, hafter⟩ := Edit.bind_eq_ok_iff.1 hb
  obtain ⟨hsize, hkept⟩ := h m a middle ha
  obtain ⟨hsize', hkept'⟩ := hrest a middle b after hafter
  refine ⟨hsize'.trans hsize, fun k hk => ?_⟩
  rw [hkept' k (by rw [hsize]; exact hk), hkept k hk]

theorem Confined.pure {α : Type} (a : α) : Confined (Pure.pure a) := by
  intro m a after h
  cases h
  exact ⟨rfl, fun _ _ => rfl⟩

theorem write_confined (address : UInt32) (new : List UInt8) : Confined (write address new) := by
  intro m u after h
  unfold write at h
  split at h
  · next start hstart =>
    cases h
    have hin := (offset_eq_ok_iff.1 hstart).2
    refine ⟨rfl, fun k hk => ?_⟩
    show (m.cells.overwrite start new).get k = m.cells.get k
    rw [Cells.get_overwrite, List.getElem?_eq_none (by omega), Option.getD_none, ite_self]
  · cases h

theorem writeWords_confined (address : UInt32) (words : List UInt32) :
    Confined (writeWords address words) :=
  fun m => write_confined address (words.flatMap m.order.encode) m

end Memory

namespace Ring

open Memory

/-- **Appending sets bytes in the reserved part of a page only.** -/
theorem append_confined (head node : UInt32) : Confined (append head node) := by
  unfold append setNext setPrevious
  split
  · exact (writeWords_confined _ _).bind fun _ => (writeWords_confined _ _).bind fun _ => .pure node
  · have hlook : Confined (Edit.look (previous · head)) := by
      intro m tail after h
      obtain ⟨-, rfl⟩ := Edit.look_eq_ok_iff.1 h
      exact ⟨rfl, fun _ _ => rfl⟩
    exact hlook.bind fun tail => (writeWords_confined _ _).bind fun _ =>
      (writeWords_confined _ _).bind fun _ => (writeWords_confined _ _).bind fun _ =>
        (writeWords_confined _ _).bind fun _ => .pure head

/-! ## §2. Addresses and places. -/

/-- Records at these addresses have their links in the page, and none of them overlap. -/
structure Separate (m : Memory) (nodes : List UInt32) : Prop where
  inside : ∀ a ∈ nodes, m.base.toNat ≤ a.toNat ∧ a.toNat + linkSize ≤ m.base.toNat + m.size
  apart : nodes.Pairwise fun a b => Apart a.toNat b.toNat

/-- The distance of an address from the base. -/
def placeOf (m : Memory) (a : UInt32) : Nat := a.toNat - m.base.toNat

variable {m after : Memory} {nodes : List UInt32} {node : UInt32}

namespace Separate

/-- What lies apart in one page does so in any other of the same size and place. -/
theorem of_size (h : Separate m nodes) (hbase : after.base = m.base) (hsize : after.size = m.size) :
    Separate after nodes := by
  refine ⟨?_, h.apart⟩
  rw [hbase, hsize]
  exact h.inside

theorem left {more : List UInt32} (h : Separate m (nodes ++ more)) : Separate m nodes :=
  ⟨fun a ha => h.inside a (List.mem_append_left _ ha), (List.pairwise_append.1 h.apart).1⟩

/-- Every address is found again from its place. -/
theorem address_placeOf (h : Separate m nodes) {a : UInt32} (ha : a ∈ nodes) :
    m.address (placeOf m a) = a :=
  address_sub (h.inside a ha).1

theorem inside_places (h : Separate m nodes) :
    ∀ place ∈ nodes.map (placeOf m), place + linkSize ≤ m.size := by
  intro place hplace
  obtain ⟨a, ha, rfl⟩ := List.mem_map.1 hplace
  have hin := h.inside a ha
  unfold placeOf
  omega

theorem apart_places (h : Separate m nodes) : (nodes.map (placeOf m)).Pairwise Apart := by
  apply List.pairwise_map.2
  refine h.apart.imp_of_mem fun {a b} ha hb hab => ?_
  have hin_a := h.inside a ha
  have hin_b := h.inside b hb
  simp only [Apart, placeOf] at hab ⊢
  omega

theorem nodup (h : Separate m nodes) : nodes.Nodup := by
  refine h.apart.imp fun {a b} hab heq => ?_
  exact hab.ne (congrArg UInt32.toNat heq)

/-- Two records are paired by their addresses if they are joined by their places. -/
theorem paired_iff_joined (hm : m.Proper) (h : Separate m nodes) {a b : UInt32} (ha : a ∈ nodes)
    (hb : b ∈ nodes) : Paired m a b ↔ Joined m (placeOf m a) (placeOf m b) := by
  have hin_a := (h.inside a ha).1
  obtain ⟨hin_b, hend_b⟩ := h.inside b hb
  have hend : m.base.toNat + m.size ≤ 2 ^ 32 :=
    Nat.le_trans (Nat.add_le_add_left hm.bounded _) hm.addressed
  -- the second word lies in the page as well, so that its address does not wrap around
  have hsecond : (b + previousField).toNat = b.toNat + 4 := by
    have hfield : previousField.toNat = 4 := rfl
    simp only [linkSize] at hend_b
    rw [UInt32.toNat_add, hfield]
    omega
  have hplace : b.toNat + 4 - m.base.toNat = placeOf m b + 4 := by
    unfold placeOf
    omega
  constructor
  · rintro ⟨⟨-, hforward⟩, -, hback⟩
    rw [hsecond, hplace] at hback
    refine ⟨?_, ?_⟩
    · rw [h.address_placeOf hb]
      exact hforward
    · rw [h.address_placeOf ha]
      exact hback
  · rintro ⟨hforward, hback⟩
    rw [h.address_placeOf hb] at hforward
    rw [h.address_placeOf ha] at hback
    refine ⟨⟨hin_a, hforward⟩, ?_, ?_⟩
    · rw [hsecond]
      omega
    · rw [hsecond, hplace]
      exact hback

end Separate

/-- **Circles by addresses are closed rings by places.** -/
theorem circular_iff_closed (hm : m.Proper) (h : Separate m nodes) :
    Circular m nodes ↔ Closed m (nodes.map (placeOf m)) := by
  cases nodes with
  | nil =>
    refine ⟨fun _ => .nil m, fun _ i a b ha => ?_⟩
    simp at ha
  | cons first rest =>
    have hmem : ∀ a ∈ first :: rest ++ [first], a ∈ first :: rest := by
      simp [or_comm]
    have hpaired : ∀ a b, a ∈ first :: rest ++ [first] → b ∈ first :: rest ++ [first] →
        (Paired m a b ↔ Joined m (placeOf m a) (placeOf m b)) := fun a b ha hb =>
      h.paired_iff_joined hm (hmem a ha) (hmem b hb)
    have hclosed : Closed m ((first :: rest).map (placeOf m))
        ↔ (first :: rest ++ [first]).IsChain fun a b => Joined m (placeOf m a) (placeOf m b) := by
      rw [← List.isChain_map, List.map_append]
      rfl
    rw [circular_iff_isChain, hclosed]
    constructor
    · exact fun hchain => hchain.imp_of_mem_imp fun a b ha hb => (hpaired a b ha hb).1
    · exact fun hchain => hchain.imp_of_mem_imp fun a b ha hb => (hpaired a b ha hb).2

theorem headOf_map_placeOf (h : Separate m nodes) :
    headOf m (nodes.map (placeOf m)) = nodes.headD 0 := by
  cases nodes with
  | nil => rfl
  | cons first rest => exact h.address_placeOf List.mem_cons_self

/-- The links that appending a record sets are the same by addresses as by places. -/
theorem relinked_toNat (h : Separate m (nodes ++ [node])) {k : Nat}
    (hk : Relinked (nodes.map (placeOf m)) (placeOf m node) k) :
    Relinked (nodes.map UInt32.toNat) node.toNat (m.base.toNat + k) := by
  have hmove : ∀ a ∈ nodes ++ [node], ∀ distance length,
      InRange (placeOf m a + distance) length k →
        InRange (a.toNat + distance) length (m.base.toNat + k) := by
    intro a ha distance length hrange
    have hin := (h.inside a ha).1
    simp only [InRange, placeOf] at hrange ⊢
    omega
  rcases hk with hk | ⟨first, hfirst, hk⟩ | ⟨last, hlast, hk⟩
  · exact .inl (hmove node (by simp) 0 _ hk)
  · rw [List.head?_map, Option.mem_def, Option.map_eq_some_iff] at hfirst
    obtain ⟨a, ha, rfl⟩ := hfirst
    refine .inr (.inl ⟨a.toNat, ?_, hmove a ?_ 4 4 hk⟩)
    · rw [List.head?_map]
      exact Option.mem_map_of_mem _ ha
    · exact List.mem_append_left _ (List.mem_of_mem_head? ha)
  · rw [List.getLast?_map, Option.mem_def, Option.map_eq_some_iff] at hlast
    obtain ⟨a, ha, rfl⟩ := hlast
    refine .inr (.inr ⟨a.toNat, ?_, hmove a ?_ 0 4 hk⟩)
    · rw [List.getLast?_map]
      exact Option.mem_map_of_mem _ ha
    · exact List.mem_append_left _ (List.mem_of_getLast? ha)

/-! ## §3. Growth. -/

/-- **A circle with one record more is a circle.**  Only links have changed. -/
theorem Circular.append (hm : m.Proper) (h : Circular m nodes) (hs : Separate m (nodes ++ [node]))
    (hhead : nodes.head? ≠ some 0) :
    ∃ after, Ring.append (nodes.headD 0) node m = .ok (nodes.headD node) after
      ∧ after.size = m.size ∧ Circular after (nodes ++ [node])
      ∧ Frame (Relinked (nodes.map (placeOf m)) (placeOf m node)) m after := by
  have hconcat : (nodes ++ [node]).map (placeOf m) = nodes.map (placeOf m) ++ [placeOf m node] := by
    rw [List.map_append, List.map_singleton]
  have hinside := hs.inside_places
  have hapart := hs.apart_places
  rw [hconcat] at hinside hapart
  have hnonzero : ∀ first ∈ (nodes.map (placeOf m)).head?, m.address first ≠ 0 := by
    intro first hfirst
    rw [List.head?_map, Option.mem_def, Option.map_eq_some_iff] at hfirst
    obtain ⟨a, ha, rfl⟩ := hfirst
    rw [hs.left.address_placeOf (List.mem_of_mem_head? ha)]
    exact fun hzero => hhead (hzero ▸ ha)
  obtain ⟨after, happend, hsize, hframe, hclosed⟩ :=
    append_closed hm ((circular_iff_closed hm hs.left).1 h) hinside hapart hnonzero
  have hresult : headOf m (nodes.map (placeOf m) ++ [placeOf m node]) = nodes.headD node := by
    rw [← hconcat, headOf_map_placeOf hs]
    cases nodes <;> rfl
  rw [headOf_map_placeOf hs.left, hs.address_placeOf (by simp), hresult] at happend
  refine ⟨after, happend, hsize, ?_, hframe⟩
  have hplace : placeOf after = placeOf m := by
    unfold placeOf
    rw [hframe.base]
  apply (circular_iff_closed (hm.frame hframe hsize) (hs.of_size hframe.base hsize)).2
  rw [hplace, hconcat]
  exact hclosed

/-- **Records put one by one behind a circle make it a larger one.** -/
theorem Circular.foldlM_append {done rest : List UInt32} (hm : m.Proper) (h : Circular m done)
    (hs : Separate m (done ++ rest)) (hhead : (done ++ rest).head? ≠ some 0) :
    ∃ after, rest.foldlM Ring.append (done.headD 0) m = .ok ((done ++ rest).headD 0) after
      ∧ after.size = m.size ∧ Circular after (done ++ rest) := by
  induction rest generalizing m done with
  | nil =>
    rw [List.append_nil]
    exact ⟨m, rfl, rfl, h⟩
  | cons node rest ih =>
    have hsplit : done ++ node :: rest = (done ++ [node]) ++ rest := by simp
    rw [hsplit] at hs hhead ⊢
    have hdone : done.head? ≠ some 0 := by
      cases done with
      | nil => simp
      | cons first others => exact hhead
    obtain ⟨middle, happend, hsize, hcircular, hframe⟩ := h.append hm hs.left hdone
    obtain ⟨after, hrest, hsize', hafter⟩ := ih (hm.frame hframe hsize) hcircular
      (hs.of_size hframe.base hsize) hhead
    refine ⟨after, ?_, hsize'.trans hsize, hafter⟩
    have hfirst : done.headD node = (done ++ [node]).headD 0 := by cases done <;> rfl
    rw [List.foldlM_cons, Edit.bind_of_ok happend, hfirst]
    exact hrest

/-- **Appending a record to a circle makes it a circle with one record more, and sets the links of
the record, the way back from the head and the way forward from the tail.**  So records that are
put into the empty ring one by one are met in that order. -/
theorem append_circular (hm : m.Proper) :
    (∀ nodes node, Circular m nodes → Separate m (nodes ++ [node]) → nodes.head? ≠ some 0 →
      ∃ after, Ring.append (nodes.headD 0) node m = .ok (nodes.headD node) after
        ∧ Circular after (nodes ++ [node])
        ∧ after = { m with cells := after.cells }
        ∧ ∀ k, ¬ Relinked (nodes.map UInt32.toNat) node.toNat (m.base.toNat + k) →
          after.cells.get k = m.cells.get k)
    ∧ ∀ nodes, Separate m nodes → nodes.head? ≠ some 0 → nodes.length ≤ m.size / 32 + 1 →
      ∃ after, nodes.foldlM Ring.append 0 m = .ok (nodes.headD 0) after
        ∧ walk after (nodes.headD 0) = nodes.map .ok
        ∧ tail? after (nodes.headD 0) = .ok nodes.getLast?
        ∧ audit after (nodes.headD 0) = .ok nodes.length := by
  constructor
  · intro nodes node h hs hhead
    obtain ⟨after, happend, hsize, hcircular, hframe⟩ := h.append hm hs hhead
    refine ⟨after, happend, hcircular, ?_, fun k hk => ?_⟩
    · cases after
      cases hframe.base
      cases hframe.capacity
      cases hframe.order
      cases hsize
      rfl
    · by_cases hin : k < m.size
      · exact hframe.kept k hin fun htouched => hk (relinked_toNat hs htouched)
      · exact (append_confined _ _ _ _ _ happend).2 k (Nat.le_of_not_lt hin)
  · intro nodes hs hhead hlength
    have hempty : Circular m [] := (circular_iff_closed hm ⟨by simp, .nil⟩).2 (.nil m)
    obtain ⟨after, happend, hsize, hcircular⟩ := hempty.foldlM_append hm hs hhead
    refine ⟨after, happend, ?_⟩
    cases nodes with
    | nil => exact ⟨rfl, rfl, rfl⟩
    | cons first rest =>
      have hfirst : first ≠ 0 := fun hzero => hhead (hzero ▸ rfl)
      have hcircle : Circle after first (first :: rest) := ⟨rfl, hs.nodup, hcircular⟩
      have hbound : (first :: rest).length ≤ after.size / smallestRecord + 1 := by
        rw [hsize]
        exact hlength
      obtain ⟨hwalk, htail⟩ := hcircle.walk_eq hfirst hbound
      exact ⟨hwalk, htail, hcircle.audit_eq hfirst hbound⟩

/-- A third record, at an odd address, joins a circle of two, and the two fill an empty ring. -/
theorem append_circular_twoRecords :
    (∃ after, Ring.append 8 17 twoRecords = .ok 8 after ∧ Circular after [8, 0, 17]
      ∧ after.cells.get 8 = twoRecords.cells.get 8)
    ∧ ∃ after, [8, 0].foldlM Ring.append 0 twoRecords = .ok 8 after
      ∧ walk after 8 = [.ok 8, .ok 0] ∧ audit after 8 = .ok 2 := by
  have hm : twoRecords.Proper := ⟨by decide, by decide, by decide⟩
  have hpair : Paired twoRecords 8 0 ∧ Paired twoRecords 0 8 := by
    refine ⟨⟨?_, ?_⟩, ?_, ?_⟩ <;> exact readWord_eq_ok_iff.1 rfl
  have hcircular : Circular twoRecords [8, 0] := by
    rw [circular_iff_isChain]
    simpa using hpair
  have hs : Separate twoRecords ([8, 0] ++ [17]) := by
    refine ⟨?_, by decide⟩
    intro a ha
    have hcases : a = 8 ∨ a = 0 ∨ a = 17 := by simpa using ha
    rcases hcases with rfl | rfl | rfl <;> decide
  obtain ⟨hstep, hfill⟩ := append_circular hm
  constructor
  · obtain ⟨after, happend, hafter, -, hkept⟩ := hstep [8, 0] 17 hcircular hs (by simp)
    exact ⟨after, happend, hafter, hkept 8 (by simp [Relinked, InRange, linkSize, twoRecords])⟩
  · obtain ⟨after, happend, hwalk, -, haudit⟩ := hfill [8, 0] hs.left (by simp) (by decide)
    exact ⟨after, happend, hwalk, haudit⟩

end Ring
end SystemPage
