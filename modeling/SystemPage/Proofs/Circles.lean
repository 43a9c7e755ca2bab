/-
  SystemPage.Proofs.Circles — what the audit of a ring accepts.

  `Rings` shows that closed rings of records apart from each other pass the audit.  Nothing else
  does, and this module says so of pages that hold anything at all: the records that the links lead
  to may overlap, lie at odd addresses, or lie nowhere.

  No part of the audit compares records with each other.  That none of them is met twice follows
  from the back links: the record before a record is read from it, so two ways that meet have met
  at every step before, down to the head, and a walk ends where it would return to the head.

  Main results:

      readWord_eq_ok_iff    — a word is read where it lies, and nowhere else
      Circular.nodup        — back links tell records apart
      walk_eq_ok_iff        — which walks meet no fault
      audit_eq_ok_iff       — the audit accepts circles of distinct records and nothing else
-/
import SystemPage.Proofs.Rings

namespace SystemPage

/-! ## §1. Words at addresses. -/

namespace Memory

/-- A word lies at an address, all four bytes of it in the part of the page that has been
reserved. -/
def WordAt (m : Memory) (address word : UInt32) : Prop :=
  m.base.toNat ≤ address.toNat ∧ m.HoldsWord (address.toNat - m.base.toNat) word

variable {m : Memory} {address word : UInt32}

/-- An address that is not below the base lies at its distance from there. -/
theorem address_sub (h : m.base.toNat ≤ address.toNat) :
    m.address (address.toNat - m.base.toNat) = address := by
  have hlt : address.toNat < 2 ^ 32 := address.toNat_lt
  apply UInt32.toNat_inj.1
  rw [toNat_address (show m.base.toNat + (address.toNat - m.base.toNat) < 2 ^ 32 by omega)]
  omega

/-- **A word is read where it lies, and nowhere else.** -/
theorem readWord_eq_ok_iff : m.readWord address = .ok word ↔ m.WordAt address word := by
  constructor
  · intro h
    unfold readWord read at h
    cases hstart : m.offset address ByteOrder.wordSize with
    | error fault =>
      rw [hstart] at h
      cases h
    | ok start =>
      rw [hstart] at h
      have hword : m.order.decode (m.cells.slice start ByteOrder.wordSize) = word :=
        Except.ok.inj h
      obtain ⟨haddress, hin⟩ := offset_eq_ok_iff.1 hstart
      have hplace : address.toNat - m.base.toNat = start := by omega
      have hlt : address.toNat < 2 ^ 32 := address.toNat_lt
      refine ⟨by omega, ?_⟩
      rw [hplace]
      refine ⟨show m.base.toNat + start < 2 ^ 32 by omega, ?_, ?_⟩
      · rw [ByteOrder.length_encode]
        exact hin
      · rw [ByteOrder.length_encode, ← hword]
        exact (ByteOrder.encode_decode _ _ (Cells.length_slice _ _ _)).symm
  · rintro ⟨hbase, hheld⟩
    rw [← address_sub hbase]
    exact hheld.readWord

/-- No two words lie at one address. -/
theorem WordAt.unique {other : UInt32} (h : m.WordAt address word) (h' : m.WordAt address other) :
    word = other := by
  have hread := readWord_eq_ok_iff.2 h
  rw [readWord_eq_ok_iff.2 h'] at hread
  exact (Except.ok.inj hread).symm

end Memory

namespace Ring

open Memory

variable {m : Memory} {head node : UInt32} {nodes : List UInt32}

/-! ## §2. Circles. -/

/-- The first word of a record leads to another, and the second word of the other leads back. -/
def Paired (m : Memory) (a b : UInt32) : Prop := m.WordAt a b ∧ m.WordAt (b + previousField) a

/-- Each record of a list is paired with the next one, and the last one with the first. -/
def Circular (m : Memory) (nodes : List UInt32) : Prop :=
  ∀ (i : Nat) (a b : UInt32), nodes[i]? = some a → nodes[(i + 1) % nodes.length]? = some b →
    Paired m a b

/-- Distinct records in a circle, from its head on. -/
structure Circle (m : Memory) (head : UInt32) (nodes : List UInt32) : Prop where
  first : nodes.head? = some head
  distinct : nodes.Nodup
  circular : Circular m nodes

theorem Paired.next_eq {a b : UInt32} (h : Paired m a b) : next m a = .ok b :=
  readWord_eq_ok_iff.2 h.1

theorem Paired.previous_eq {a b : UInt32} (h : Paired m a b) : previous m b = .ok a :=
  readWord_eq_ok_iff.2 h.2

/-- A record passes the audit if the one after it leads back to it. -/
theorem auditRecord_eq_ok_iff : auditRecord m node = .ok () ↔ ∃ after, Paired m node after := by
  unfold auditRecord
  constructor
  · intro h
    cases hnext : next m node with
    | error fault =>
      rw [hnext] at h
      cases h
    | ok after =>
      rw [hnext] at h
      cases hprevious : previous m after with
      | error fault =>
        simp only [bind, Except.bind, hprevious] at h
        cases h
      | ok back =>
        by_cases hback : back = node
        · subst hback
          exact ⟨after, readWord_eq_ok_iff.1 hnext, readWord_eq_ok_iff.1 hprevious⟩
        · simp [bind, Except.bind, hprevious, hback, throw, throwThe, MonadExceptOf.throw] at h
  · rintro ⟨after, h⟩
    simp [h.next_eq, h.previous_eq, bind, Except.bind, pure, Except.pure]

/-- The records of a circle in order, and the first of them once more. -/
theorem circular_iff_isChain {first : UInt32} {rest : List UInt32} :
    Circular m (first :: rest) ↔ (first :: rest ++ [first]).IsChain (Paired m) := by
  rw [List.isChain_iff_getElem]
  have hlength : (first :: rest ++ [first]).length = (first :: rest).length + 1 := by simp
  constructor
  · intro h i hi
    have hi' : i < (first :: rest).length := by omega
    apply h i
    · rw [List.getElem_append_left hi', List.getElem?_eq_getElem hi']
    · by_cases hend : i + 1 < (first :: rest).length
      · rw [Nat.mod_eq_of_lt hend, List.getElem_append_left hend, List.getElem?_eq_getElem hend]
      · -- the last one leads back to the first
        have hlast : i + 1 = (first :: rest).length := by omega
        simp only [hlast, Nat.mod_self]
        simp
  · intro h i a b ha hb
    obtain ⟨hi, rfl⟩ := List.getElem?_eq_some_iff.1 ha
    have hstep := h i (by omega)
    rw [List.getElem_append_left hi] at hstep
    by_cases hend : i + 1 < (first :: rest).length
    · rw [Nat.mod_eq_of_lt hend, List.getElem?_eq_getElem hend] at hb
      cases hb
      rw [List.getElem_append_left hend] at hstep
      exact hstep
    · have hlast : i + 1 = (first :: rest).length := by omega
      simp only [hlast, Nat.mod_self] at hb hstep
      simp at hb hstep
      exact hb ▸ hstep

/-- **Back links tell records apart.**  A record that were met twice would lead back, step by step,
to the first one being met twice, and no later record is the first. -/
theorem Circular.nodup {first : UInt32} {rest : List UInt32} (h : Circular m (first :: rest))
    (hfirst : first ∉ rest) : (first :: rest).Nodup := by
  rw [circular_iff_isChain, List.isChain_append] at h
  have hchain := List.isChain_iff_getElem.1 h.1
  have hne : ∀ (i j : Nat) (hij : i < j) (hj : j < (first :: rest).length),
      (first :: rest)[i] ≠ (first :: rest)[j] := by
    intro i
    induction i with
    | zero =>
      intro j hij hj heq
      obtain ⟨k, rfl⟩ : ∃ k, j = k + 1 := ⟨j - 1, by omega⟩
      have hk : k < rest.length := Nat.lt_of_succ_lt_succ hj
      have hmem : first = rest[k] := heq
      exact hfirst (hmem ▸ List.getElem_mem hk)
    | succ i ih =>
      intro j hij hj heq
      obtain ⟨k, rfl⟩ : ∃ k, j = k + 1 := ⟨j - 1, by omega⟩
      have hback := (hchain i (by omega)).2
      rw [heq] at hback
      exact ih k (by omega) (by omega) (hback.unique (hchain k hj).2)
  exact List.pairwise_iff_getElem.2 fun i j _ hj hij => hne i j hij hj

/-! ## §3. Walks without a fault. -/

/-- A walk along a ring without a fault starts at its head. -/
theorem walk_eq_ok_iff (hhead : head ≠ 0) :
    walk m head = nodes.map .ok
      ↔ ∃ rest, nodes = head :: rest ∧ rest.length ≤ m.size / smallestRecord ∧ head ∉ rest
        ∧ (head :: rest ++ [head]).IsChain fun a b => next m a = .ok b := by
  rw [walk, if_neg hhead]
  constructor
  · intro h
    obtain ⟨item, items, hwalk, hitem⟩ := exists_walkFrom_eq m head head (budget m)
    cases nodes with
    | nil =>
      rw [h] at hwalk
      cases hwalk
    | cons first rest =>
      have hfirst : first = head := by
        rw [h, List.map_cons, List.cons.injEq] at hwalk
        exact hitem first hwalk.1.symm
      subst hfirst
      obtain ⟨hlength, hrest⟩ := walkFrom_eq_ok_iff.1 h
      exact ⟨rest, rfl, Nat.lt_succ_iff.1 hlength, hrest⟩
  · rintro ⟨rest, rfl, hlength, hrest⟩
    exact walkFrom_eq_ok_iff.2 ⟨Nat.lt_succ_iff.2 hlength, hrest⟩

/-! ## §4. Audits. -/

/-- What an audit that finishes has counted. -/
theorem audit_counts {n : Nat} (h : audit m head = .ok n) :
    visitItems (counting m) 0 (walk m head) = .ok n := by
  rw [← visit_eq_visitItems]
  change (visit m head (counting m) 0 >>= _) = _ at h
  cases hvisit : visit m head (counting m) 0 with
  | error fault =>
    rw [hvisit] at h
    cases h
  | ok count =>
    rw [hvisit] at h
    simp only [bind, Except.bind] at h
    split at h
    · cases h
    · split at h
      · split at h
        · cases h
        · split at h
          · cases h
          · exact h
      · exact h

namespace Circle

/-- Every record of a circle is paired with the one after it. -/
theorem exists_next (h : Circle m head nodes) {a : UInt32} (ha : a ∈ nodes) :
    ∃ b, Paired m a b := by
  obtain ⟨i, hi, rfl⟩ := List.getElem_of_mem ha
  have hpos : 0 < nodes.length := by omega
  have hnext := Nat.mod_lt (i + 1) hpos
  exact ⟨_, h.circular i _ _ (List.getElem?_eq_getElem hi) (List.getElem?_eq_getElem hnext)⟩

/-- The last record of a circle is paired with its head. -/
theorem exists_last (h : Circle m head nodes) :
    ∃ last, nodes.getLast? = some last ∧ Paired m last head := by
  obtain ⟨rest, rfl⟩ := List.head?_eq_some_iff.1 h.first
  obtain ⟨-, -, hlast⟩ := List.isChain_append.1 (circular_iff_isChain.1 h.circular)
  have hget := List.getLast?_eq_some_getLast (List.cons_ne_nil head rest)
  exact ⟨_, hget, hlast _ hget head (by simp)⟩

/-- **A walk along a circle meets its records, and the tail is the last of them.** -/
theorem walk_eq (h : Circle m head nodes) (hhead : head ≠ 0)
    (hlength : nodes.length ≤ m.size / smallestRecord + 1) :
    walk m head = nodes.map .ok ∧ tail? m head = .ok nodes.getLast? := by
  obtain ⟨last, hget, hlast⟩ := h.exists_last
  obtain ⟨rest, rfl⟩ := List.head?_eq_some_iff.1 h.first
  constructor
  · apply (walk_eq_ok_iff hhead).2
    refine ⟨rest, rfl, Nat.le_of_succ_le_succ hlength, (List.nodup_cons.1 h.distinct).1, ?_⟩
    exact (circular_iff_isChain.1 h.circular).imp fun a b hab => hab.next_eq
  · rw [tail?, if_neg hhead, hlast.previous_eq, hget]
    rfl

/-- **A circle passes the audit, which counts its records.** -/
theorem audit_eq (h : Circle m head nodes) (hhead : head ≠ 0)
    (hlength : nodes.length ≤ m.size / smallestRecord + 1) : audit m head = .ok nodes.length := by
  obtain ⟨hwalk, htail⟩ := h.walk_eq hhead hlength
  obtain ⟨last, hget, hlast⟩ := h.exists_last
  have hrecords : ∀ node ∈ nodes, auditRecord m node = .ok () := fun node hnode =>
    auditRecord_eq_ok_iff.2 (h.exists_next hnode)
  have hcount : visitItems (counting m) 0 (walk m head) = .ok nodes.length :=
    visitItems_counting_eq_ok_iff.2 ⟨nodes, hwalk.symm, Nat.zero_add _, hrecords⟩
  rw [hget] at htail
  rw [← visit_eq_visitItems] at hcount
  change (visit m head (counting m) 0 >>= _) = _
  rw [hcount]
  simp [htail, hlast.next_eq, bind, Except.bind, pure, Except.pure]

end Circle

/-- **What passes the audit is a circle**, of as many records as were counted. -/
theorem exists_circle_of_audit {n : Nat} (hhead : head ≠ 0) (h : audit m head = .ok n) :
    n ≤ m.size / smallestRecord + 1 ∧ ∃ nodes, nodes.length = n ∧ Circle m head nodes := by
  obtain ⟨nodes, hwalk, hcount, hall⟩ := visitItems_counting_eq_ok_iff.1 (audit_counts h)
  obtain ⟨rest, rfl, hlength, hnew, hchain⟩ := (walk_eq_ok_iff hhead).1 hwalk.symm
  rw [Nat.zero_add] at hcount
  subst hcount
  -- each way forward has its way back, since the record where it starts has passed
  have hcircular : Circular m (head :: rest) := by
    apply circular_iff_isChain.2
    refine List.IsChain.imp_of_mem_imp (fun a b ha _ hab => ?_) hchain
    have hmem : a ∈ head :: rest := by
      rcases List.mem_append.1 ha with ha | ha
      · exact ha
      · rw [List.mem_singleton.1 ha]
        exact List.mem_cons_self
    obtain ⟨after, hafter⟩ := auditRecord_eq_ok_iff.1 (hall a hmem)
    have hsame : Except.ok after = Except.ok b := hafter.next_eq.symm.trans hab
    cases hsame
    exact hafter
  exact ⟨Nat.succ_le_succ hlength, head :: rest, rfl, rfl, hcircular.nodup hnew, hcircular⟩

/-- **The audit accepts circles of distinct records and nothing else, whatever a page holds.**  It
counts the records, the walk meets them in order, and the tail is the last of them.  A head of 0
is the empty ring. -/
theorem audit_eq_ok_iff (m : Memory) :
    audit m 0 = .ok 0 ∧ ∀ head : UInt32, head ≠ 0 →
      (∀ n, audit m head = .ok n ↔ 1 ≤ n ∧ n ≤ m.size / 32 + 1
        ∧ ∃ nodes, nodes.length = n ∧ Circle m head nodes)
      ∧ ∀ nodes, Circle m head nodes → nodes.length ≤ m.size / 32 + 1 →
        walk m head = nodes.map .ok ∧ tail? m head = .ok nodes.getLast? := by
  refine ⟨rfl, fun head hhead => ⟨fun n => ⟨fun h => ?_, ?_⟩, fun nodes h => h.walk_eq hhead⟩⟩
  · obtain ⟨hlength, nodes, hcount, hcircle⟩ := exists_circle_of_audit hhead h
    refine ⟨?_, hlength, nodes, hcount, hcircle⟩
    rw [← hcount]
    exact List.length_pos_of_mem (List.mem_of_mem_head? hcircle.first)
  · rintro ⟨-, hlength, nodes, rfl, hcircle⟩
    exact hcircle.audit_eq hhead hlength

/-- A page that holds a ring of two records from address 8 on, the second one at address 0. -/
def twoRecords : Memory :=
  ⟨0, 64, .little, 32, .node 8 .blank (.node 0 (.node 8 .blank .blank) .blank)⟩

/-- The audit of the ring counts two records, so there is a circle of two. -/
theorem audit_eq_ok_iff_twoRecords :
    (8 : UInt32) ≠ 0 ∧ audit twoRecords 8 = .ok 2
      ∧ ∃ nodes, nodes.length = 2 ∧ Circle twoRecords 8 nodes
        ∧ walk twoRecords 8 = nodes.map .ok ∧ tail? twoRecords 8 = .ok nodes.getLast? := by
  have hhead : (8 : UInt32) ≠ 0 := by decide
  have haudit : audit twoRecords 8 = .ok 2 := by rfl
  obtain ⟨hcount, hmet⟩ := (audit_eq_ok_iff twoRecords).2 8 hhead
  obtain ⟨-, hlength, nodes, hnodes, hcircle⟩ := (hcount 2).1 haudit
  exact ⟨hhead, haudit, nodes, hnodes, hcircle, hmet nodes hcircle (by rw [hnodes]; exact hlength)⟩

end Ring
end SystemPage
