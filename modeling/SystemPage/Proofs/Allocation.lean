/-
  SystemPage.Proofs.Allocation — the blocks that requests are granted.

  A page is asked for blocks, one request after the other, and what it refuses leaves it as it is.
  Whether a request is granted is a question of the size that the page would have, rounded up: it
  has to stay below the capacity.

  The invariant of a run is that the page is proper.  A step either changes nothing, or adds a block
  that starts exactly where the page ended and lies inside of it afterwards; so every block lies
  behind all blocks that were there before, and none of them reaches into another.  A block of no
  bytes is granted like any other.  It takes no room, and the block behind it starts at its address.

  Main results:

      reserve_cases  — what one request does, by the size that the page would have
      granted_spec   — the blocks of a run lie one behind the other, inside of the page
      create_granted — the same for a page from its start on, with its header
-/
import SystemPage.Session
import SystemPage.Proofs.Store

namespace SystemPage

/-! ## §1. Blocks. -/

/-- A block that a request was granted. -/
structure Block where
  address : UInt32
  -- the number of bytes that were asked for
  length : Nat
  deriving DecidableEq, Repr

namespace Block

/-- The number behind the last address of a block; it may be the number of all addresses. -/
def stop (b : Block) : Nat := b.address.toNat + b.length

/-- An address belongs to a block. -/
def Has (b : Block) (x : Nat) : Prop := b.address.toNat ≤ x ∧ x < b.stop

/-- A block ends before another one starts. -/
def Before (a b : Block) : Prop := a.stop ≤ b.address.toNat

/-- Blocks one behind the other share no address. -/
theorem Before.disjoint {a b : Block} (h : a.Before b) (x : Nat) : ¬ (a.Has x ∧ b.Has x) := by
  intro ⟨ha, hb⟩
  have hlt : x < a.stop := ha.2
  have hle : b.address.toNat ≤ x := hb.1
  unfold Before at h
  omega

end Block

namespace Memory

/-- The block that a request is granted, if it is. -/
def granted? (m : Memory) (size : Nat) : Option Block :=
  match reserve size m with
  | .ok address _ => some ⟨address, size⟩
  | .error .. => none

/-- The page after a request, whether it was granted or not. -/
def afterRequest (m : Memory) (size : Nat) : Memory := (Edit.outcome (reserve size) m).2

/-- The page after requests, in order. -/
def afterRequests (m : Memory) (sizes : List Nat) : Memory := sizes.foldl afterRequest m

/-- The blocks that requests are granted, in order. -/
def granted : Memory → List Nat → List Block
  | _, [] => []
  | m, size :: rest =>
    match m.granted? size with
    | some b => b :: granted (m.afterRequest size) rest
    | none => granted (m.afterRequest size) rest

/-! ## §2. One request. -/

/-- In a proper page nothing is lost between the end of the page and a new block. -/
theorem Proper.roundUp_add {m : Memory} (hm : m.Proper) (size : Nat) :
    roundUp (m.size + size) = m.size + roundUp size := by
  have ha : m.size % 8 = 0 := hm.aligned
  rw [roundUp_eq, roundUp_eq]
  omega

/-- **A request is refused exactly where the page would reach its capacity**, and then the page
stays as it is. -/
theorem reserve_cases {m : Memory} (hm : m.Proper) (size : Nat) :
    (m.capacity ≤ roundUp (m.size + size)
        ∧ ∃ fault, reserve size m = .error fault m ∧ fault.kind = .allocationFailed)
      ∨ (roundUp (m.size + size) < m.capacity
        ∧ reserve size m = .ok (m.address m.size) { m with size := roundUp (m.size + size) }) := by
  rw [hm.roundUp_add]
  by_cases hfit : m.size + roundUp size < m.capacity
  · right
    refine ⟨hfit, ?_⟩
    rw [reserve_eq hm hfit, grow, hm.sizeWith_eq]
  · left
    have hfull := Nat.le_of_not_lt hfit
    exact ⟨hfull, .noRoom size m.size m.capacity, reserve_of_le hm hfull, rfl⟩

/-- The block of a request that is granted starts where the page ends, and the page ends behind it
afterwards. -/
theorem granted?_cases {m : Memory} (hm : m.Proper) (size : Nat) :
    (m.granted? size = none ∧ m.afterRequest size = m)
      ∨ (m.size + roundUp size < m.capacity ∧ m.granted? size = some ⟨m.address m.size, size⟩
        ∧ m.afterRequest size = m.grow size) := by
  unfold granted? afterRequest Edit.outcome
  by_cases hfit : m.size + roundUp size < m.capacity
  · right
    rw [reserve_eq hm hfit]
    exact ⟨hfit, rfl, rfl⟩
  · left
    rw [reserve_of_le hm (Nat.le_of_not_lt hfit)]
    exact ⟨rfl, rfl⟩

/-! ## §3. Requests in a row. -/

/-- Where the blocks of a run lie, and what it makes of the page. -/
structure Allots (m : Memory) (blocks : List Block) (after : Memory) : Prop where
  proper : after.Proper
  base : after.base = m.base
  capacity : after.capacity = m.capacity
  size : m.size ≤ after.size
  -- room is left as soon as anything was granted
  room : blocks = [] ∧ after = m ∨ after.size < m.capacity
  aligned : ∀ b ∈ blocks, (b.address.toNat - m.base.toNat) % alignment = 0
  start : ∀ b ∈ blocks, m.base.toNat + m.size ≤ b.address.toNat
  stop : ∀ b ∈ blocks, b.stop ≤ m.base.toNat + after.size
  ordered : blocks.Pairwise Block.Before

namespace Allots

theorem nil {m : Memory} (hm : m.Proper) : m.Allots [] m where
  proper := hm
  base := rfl
  capacity := rfl
  size := Nat.le_refl _
  room := .inl ⟨rfl, rfl⟩
  aligned := by simp
  start := by simp
  stop := by simp
  ordered := .nil

/-- A block in front of a run: the blocks of the run lie behind it. -/
theorem cons {m after : Memory} {blocks : List Block} {size : Nat} (hm : m.Proper)
    (hfit : m.size + roundUp size < m.capacity) (h : (m.grow size).Allots blocks after) :
    m.Allots (⟨m.address m.size, size⟩ :: blocks) after := by
  have hsize : (m.grow size).size = m.size + roundUp size := hm.sizeWith_eq size
  have hle := le_roundUp size
  have hplace : (m.address m.size).toNat = m.base.toNat + m.size :=
    toNat_address (hm.address_lt (by omega))
  have hgrown := h.size
  have hbehind : ∀ b ∈ blocks, m.base.toNat + (m.size + roundUp size) ≤ b.address.toNat := by
    intro b hb
    rw [← hsize]
    exact h.start b hb
  refine ⟨h.proper, h.base, h.capacity, by omega, ?_, ?_, ?_, ?_, ?_⟩
  · right
    rcases h.room with ⟨-, rfl⟩ | hroom
    · omega
    · exact hroom
  · intro b hb
    rcases List.mem_cons.1 hb with rfl | hb
    · have ha : m.size % 8 = 0 := hm.aligned
      show ((m.address m.size).toNat - m.base.toNat) % 8 = 0
      omega
    · exact h.aligned b hb
  · intro b hb
    rcases List.mem_cons.1 hb with rfl | hb
    · exact Nat.le_of_eq hplace.symm
    · have hb' := hbehind b hb
      omega
  · intro b hb
    rcases List.mem_cons.1 hb with rfl | hb
    · show (m.address m.size).toNat + size ≤ m.base.toNat + after.size
      omega
    · exact h.stop b hb
  · refine List.pairwise_cons.2 ⟨?_, h.ordered⟩
    intro b hb
    have hb' := hbehind b hb
    show (m.address m.size).toNat + size ≤ b.address.toNat
    omega

end Allots

/-- **The blocks of a run lie one behind the other, between the ends of the page.** -/
theorem granted_spec {m : Memory} (hm : m.Proper) (sizes : List Nat) :
    m.Allots (m.granted sizes) (m.afterRequests sizes) := by
  -- on the requests that are left, while the page grows
  induction sizes generalizing m with
  | nil => exact .nil hm
  | cons size rest ih =>
    show m.Allots (m.granted (size :: rest)) ((m.afterRequest size).afterRequests rest)
    rw [granted]
    rcases granted?_cases hm size with ⟨hnone, hsame⟩ | ⟨hfit, hsome, hgrown⟩
    · rw [hnone, hsame]
      exact ih hm
    · rw [hsome, hgrown]
      exact .cons hm hfit (ih (hm.grow hfit))

/-! ## §4. A page from its start on. -/

/-- A page that is accepted lies where it was asked for and ends behind its header. -/
theorem create_ok {load offset : UInt32} {capacity : Nat} {order : ByteOrder} {start : Memory}
    (h : Memory.create load offset capacity headerSize order = .ok start) :
    start.Proper ∧ start.base.toNat = load.toNat + offset.toNat ∧ start.capacity = capacity
      ∧ start.size = headerSize := by
  have hused : roundUp headerSize = headerSize := rfl
  unfold Memory.create at h
  simp only [hused] at h
  split at h
  · cases h
  next hstart =>
  split at h
  · cases h
  next hend =>
  split at h
  · cases h
  next hheader =>
  cases h
  have hstart' : ¬ 2 ^ 32 ≤ load.toNat + offset.toNat := hstart
  have hproper := Nat.le_of_not_lt hheader
  refine ⟨⟨show 24 % 8 = 0 by decide, hproper, Nat.le_of_not_lt hend⟩, ?_, rfl, rfl⟩
  rw [UInt32.toNat_add]
  omega

/-- **Whatever is asked of a page, its blocks lie behind the header and one behind the other.**  The
page ends at a multiple of the alignment, between its header and its capacity.  The last part is
about the request that comes next: it is refused exactly where the page would reach its capacity,
and changes nothing then. -/
theorem create_granted {load offset : UInt32} {capacity : Nat} {order : ByteOrder}
    {start : Memory} (h : Memory.create load offset capacity headerSize order = .ok start)
    (sizes : List Nat) :
    let page := start.afterRequests sizes
    let base := load.toNat + offset.toNat
    (page.base.toNat = base ∧ page.capacity = capacity)
      ∧ (page.size % 8 = 0 ∧ 24 ≤ page.size ∧ page.size ≤ capacity
        ∧ (start.granted sizes ≠ [] → page.size < capacity))
      ∧ (∀ b ∈ start.granted sizes, (b.address.toNat - base) % 8 = 0
        ∧ base + 24 ≤ b.address.toNat ∧ b.stop ≤ base + page.size)
      ∧ (start.granted sizes).Pairwise (fun a b => a.Before b ∧ ∀ x, ¬ (a.Has x ∧ b.Has x))
      ∧ ∀ size, (capacity ≤ roundUp (page.size + size)
          ∧ ∃ fault, reserve size page = .error fault page ∧ fault.kind = .allocationFailed)
        ∨ (roundUp (page.size + size) < capacity
          ∧ reserve size page
            = .ok (page.address page.size) { page with size := roundUp (page.size + size) }) := by
  obtain ⟨hproper, hbase, hcapacity, hsize⟩ := create_ok h
  have hrun := granted_spec hproper sizes
  intro page base
  have hroom : page.capacity = capacity := hrun.capacity.trans hcapacity
  refine ⟨⟨?_, hroom⟩, ⟨hrun.proper.aligned, ?_, ?_, ?_⟩, ?_, ?_, ?_⟩
  · show page.base.toNat = load.toNat + offset.toNat
    rw [← hbase, hrun.base]
  · have hle := hrun.size
    rwa [hsize] at hle
  · rw [← hroom]
    exact hrun.proper.bounded
  · intro hne
    rw [← hcapacity]
    rcases hrun.room with ⟨hnil, -⟩ | hlt
    · exact absurd hnil hne
    · exact hlt
  · intro b hb
    have ha := hrun.aligned b hb
    have hfirst := hrun.start b hb
    have hstop := hrun.stop b hb
    rw [hbase] at ha hfirst hstop
    rw [hsize] at hfirst
    exact ⟨ha, hfirst, hstop⟩
  · exact hrun.ordered.imp fun hab => ⟨hab, hab.disjoint⟩
  · intro size
    rw [← hroom]
    exact reserve_cases hrun.proper size

/-- A page of 60 bytes: requests of no bytes share an address, one that would reach the capacity is
refused, and a smaller one behind it is granted. -/
theorem create_granted_sixty :
    ∃ start, Memory.create 0x1000 4 60 headerSize .little = .ok start
      ∧ start.granted [5, 0, 0, 25, 24, 0]
        = [⟨0x101c, 5⟩, ⟨0x1024, 0⟩, ⟨0x1024, 0⟩, ⟨0x1024, 24⟩, ⟨0x103c, 0⟩]
      ∧ (start.afterRequests [5, 0, 0, 25, 24, 0]).size % 8 = 0
      ∧ (start.granted [5, 0, 0, 25, 24, 0]).Pairwise
        (fun a b => a.Before b ∧ ∀ x, ¬ (a.Has x ∧ b.Has x)) := by
  have hstart : ∃ start, Memory.create 0x1000 4 60 headerSize .little = .ok start := ⟨_, rfl⟩
  obtain ⟨start, hstart⟩ := hstart
  obtain ⟨-, ⟨haligned, -⟩, -, hordered, -⟩ := create_granted hstart [5, 0, 0, 25, 24, 0]
  refine ⟨start, hstart, ?_, haligned, hordered⟩
  cases hstart
  rfl

end Memory
end SystemPage
