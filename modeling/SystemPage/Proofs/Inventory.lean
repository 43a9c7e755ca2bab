/-
  SystemPage.Proofs.Inventory — what lies where in a page.

  A page is arranged if its two rings close, and if the links of the records and the pieces of what
  they say all lie behind the header and out of each other's way.  The inventory of a session lists
  the maps and the programs whose pieces lie in its page.  It is not stored anywhere; it is what
  the requests that were granted add up to.

  Main results:

      Arranged.frame   — an arranged page stays so when it is added to or its header is stored
      Arranged.add     — a record put behind all others can be appended to either ring
      Sound.maps_eq, Sound.programs_eq, Sound.mapId_eq
                       — what a sound session reads back is its inventory
      Sound.audit_eq   — a sound session passes the audit
-/
import SystemPage.Audit
import SystemPage.Proofs.Records
import SystemPage.Proofs.Rings

namespace SystemPage

open Memory SystemPage.Ring

/-! ## §1. Arranged pages. -/

/-- Two rings and the pieces of their records in a page. -/
structure Arranged (m : Memory) (ring other : List Nat) (pieces : List Piece) : Prop where
  proper : m.Proper
  room : headerSize + smallestRecord * (ring.length + other.length) ≤ m.size
  closed : Closed m ring
  closedOther : Closed m other
  inside : ∀ place ∈ ring ++ other, headerSize ≤ place ∧ place + linkSize ≤ m.size
  apart : (ring ++ other).Pairwise Apart
  held : m.HoldsAll pieces
  behind : ∀ piece ∈ pieces, headerSize ≤ piece.place
  clear : ∀ piece ∈ pieces, ∀ place ∈ ring ++ other, ∀ k,
    InRange piece.place piece.bytes.length k → ¬ InRange place linkSize k

/-- A record behind the header does not lie at address 0. -/
theorem Memory.Proper.address_ne_zero {m : Memory} (hm : m.Proper) {place : Nat}
    (hplace : headerSize ≤ place) (hin : place < m.size) : m.address place ≠ 0 := by
  intro hz
  have hb := hm.bounded
  have hn := congrArg UInt32.toNat hz
  rw [toNat_address (hm.address_lt (by omega))] at hn
  have hzero : m.base.toNat + place = 0 := hn
  have hplace' : 24 ≤ place := hplace
  omega

namespace Arranged

variable {m after : Memory} {ring other : List Nat} {pieces new : List Piece}

/-- Neither of the rings comes first. -/
theorem symm (h : Arranged m ring other pieces) : Arranged m other ring pieces where
  proper := h.proper
  room := by
    rw [Nat.add_comm other.length]
    exact h.room
  closed := h.closedOther
  closedOther := h.closed
  inside := fun place hp => h.inside place (List.perm_append_comm.mem_iff.1 hp)
  apart := (List.perm_append_comm.pairwise_iff Apart.symm).1 h.apart
  held := h.held
  behind := h.behind
  clear := fun piece hp place hq => h.clear piece hp place (List.perm_append_comm.mem_iff.1 hq)

/-- Pieces that nobody asks for any more can be left out. -/
theorem subset {fewer : List Piece} (h : Arranged m ring other pieces) (hsub : fewer ⊆ pieces) :
    Arranged m ring other fewer :=
  { h with
    held := fun piece hp => h.held piece (hsub hp)
    behind := fun piece hp => h.behind piece (hsub hp)
    clear := fun piece hp => h.clear piece (hsub hp) }

theorem spaced (h : Arranged m ring other pieces) : Spaced m ring := by
  refine ⟨fun place hp => (h.inside place (by simp [hp])).2, ?_,
    (List.pairwise_append.1 h.apart).1⟩
  intro place hp
  obtain ⟨hplace, hin⟩ := h.inside place (by simp [hp])
  exact h.proper.address_ne_zero hplace (Nat.lt_of_lt_of_le (by simp [linkSize]) hin)

/-- The records of a ring never exceed the budget of a walk. -/
theorem length_le (h : Arranged m ring other pieces) : ring.length ≤ budget m := by
  have hroom : 24 + 32 * (ring.length + other.length) ≤ m.size := h.room
  show ring.length ≤ m.size / 32 + 1
  omega

/-- **An arranged page stays so when it is added to or its header is stored.** -/
theorem frame (h : Arranged m ring other pieces) (hf : Frame (· < headerSize) m after)
    (hafter : after.Proper) : Arranged after ring other pieces where
  proper := hafter
  room := Nat.le_trans h.room hf.size
  closed := h.closed.frame hf fun place hp k hk hlt => by
    have := (h.inside place (by simp [hp])).1
    have := hk.1
    omega
  closedOther := h.closedOther.frame hf fun place hp k hk hlt => by
    have := (h.inside place (by simp [hp])).1
    have := hk.1
    omega
  inside := fun place hp => ⟨(h.inside place hp).1, Nat.le_trans (h.inside place hp).2 hf.size⟩
  apart := h.apart
  held := h.held.frame hf fun piece hp k hk hlt => by
    have := h.behind piece hp
    have := hk.1
    omega
  behind := h.behind
  clear := h.clear

/-- The links that appending sets are links of records. -/
theorem exists_link {place k : Nat} (hk : Relinked ring place k) :
    ∃ a ∈ ring ++ [place], InRange a linkSize k := by
  rcases hk with hk | ⟨first, hfirst, hk⟩ | ⟨last, hlast, hk⟩
  · exact ⟨place, by simp, hk⟩
  · refine ⟨first, List.mem_append_left _ (List.mem_of_mem_head? hfirst), ?_⟩
    simp only [InRange, linkSize] at hk ⊢
    omega
  · refine ⟨last, List.mem_append_left _ (List.mem_of_getLast? hlast), ?_⟩
    simp only [InRange, linkSize] at hk ⊢
    omega

/-! A record at the end of the page has nothing to do with what lies there already. -/

theorem perm_concat (ring other : List Nat) (place : Nat) :
    (ring ++ other ++ [place]).Perm (ring ++ [place] ++ other) := by
  rw [List.append_assoc, List.append_assoc]
  exact List.perm_append_comm.append_left ring

theorem inside_concat {size : Nat} (h : Arranged m ring other pieces)
    (hsize : m.size + linkSize ≤ size) :
    ∀ place ∈ ring ++ [m.size] ++ other, headerSize ≤ place ∧ place + linkSize ≤ size := by
  intro place hp
  rcases List.mem_append.1 ((perm_concat ring other m.size).mem_iff.2 hp) with hp | hp
  · obtain ⟨hplace, hin⟩ := h.inside place hp
    exact ⟨hplace, by omega⟩
  · rw [List.mem_singleton.1 hp]
    exact ⟨Nat.le_trans (Nat.le_add_right _ _) h.room, hsize⟩

theorem apart_concat (h : Arranged m ring other pieces) :
    (ring ++ [m.size] ++ other).Pairwise Apart := by
  refine ((perm_concat ring other m.size).pairwise_iff Apart.symm).1 ?_
  refine List.pairwise_append.2 ⟨h.apart, List.pairwise_singleton _ _, ?_⟩
  intro a ha b hb
  rw [List.mem_singleton.1 hb]
  exact .inl (h.inside a ha).2

theorem clear_concat (h : Arranged m ring other pieces)
    (hbehind : ∀ piece ∈ new, m.size + linkSize ≤ piece.place) :
    ∀ piece ∈ pieces ++ new, ∀ place ∈ ring ++ [m.size] ++ other, ∀ k,
      InRange piece.place piece.bytes.length k → ¬ InRange place linkSize k := by
  intro piece hp place hq k hk hk'
  have hplace : place ∈ ring ++ other ∨ place = m.size := by
    simpa using List.mem_append.1 ((perm_concat ring other m.size).mem_iff.2 hq)
  rcases List.mem_append.1 hp with hp | hp
  · rcases hplace with hplace | rfl
    · exact h.clear piece hp place hplace k hk hk'
    · -- an old piece ends before the new record starts
      have hin := (h.held piece hp).inside
      simp only [InRange] at hk hk'
      omega
  · -- a new piece starts behind the links of the new record, and those of the others
    have hle : place ≤ m.size := by
      rcases hplace with hplace | rfl
      · have hin := (h.inside place hplace).2
        omega
      · exact Nat.le_refl _
    have hstart := hbehind piece hp
    simp only [InRange] at hk hk'
    omega

/-- The records of a ring and a record behind all others can form a ring. -/
theorem spaced_concat {grown : Memory} (h : Arranged m ring other pieces) (he : m.Extends grown)
    (hgrown : grown.Proper) (hsize : m.size + smallestRecord ≤ grown.size) :
    Closed grown ring ∧ Spaced grown (ring ++ [m.size]) := by
  have hsize' : m.size + 32 ≤ grown.size := hsize
  have hinside := h.inside_concat (show m.size + 8 ≤ grown.size by omega)
  refine ⟨h.closed.frame he fun _ _ _ _ hk => hk, ?_, ?_, (List.pairwise_append.1 h.apart_concat).1⟩
  · exact fun place hp => (hinside place (List.mem_append_left _ hp)).2
  · intro place hp
    obtain ⟨hplace, hin⟩ := hinside place (List.mem_append_left _ hp)
    exact hgrown.address_ne_zero hplace (Nat.lt_of_lt_of_le (by simp [linkSize]) hin)

/-- **A record put behind all others can be appended to either ring.** -/
theorem add {grown : Memory} (h : Arranged m ring other pieces) (he : m.Extends grown)
    (hgrown : grown.Proper) (hsize : m.size + smallestRecord ≤ grown.size)
    (hnew : grown.HoldsAll new) (hbehind : ∀ piece ∈ new, m.size + linkSize ≤ piece.place) :
    ∃ after, append (headOf m ring) (m.address m.size) grown
        = .ok (headOf m (ring ++ [m.size])) after
      ∧ after.size = grown.size ∧ Frame (Relinked ring m.size) grown after
      ∧ Arranged after (ring ++ [m.size]) other (pieces ++ new) := by
  have hsize' : m.size + 32 ≤ grown.size := hsize
  have hroom : 24 + 32 * (ring.length + other.length) ≤ m.size := h.room
  have hinside := h.inside_concat (show m.size + 8 ≤ grown.size by omega)
  have hapart := h.apart_concat
  have hclear := h.clear_concat hbehind
  obtain ⟨hclosed, hspaced⟩ := h.spaced_concat he hgrown hsize
  obtain ⟨after, happend, hs, hf, hring⟩ := append_spec hgrown hclosed hspaced
  rw [headOf_frame he, headOf_frame he, he.address_eq] at happend
  refine ⟨after, happend, hs, hf, ?_⟩
  refine ⟨hgrown.frame hf hs, ?_, hring, ?_, hs ▸ hinside, hapart, ?_, ?_, hclear⟩
  · show 24 + 32 * ((ring ++ [m.size]).length + other.length) ≤ after.size
    rw [List.length_append, List.length_singleton]
    omega
  · -- the links of the other ring are none of those that were set
    apply (h.closedOther.frame he fun _ _ _ _ hk => hk).frame hf
    intro place hp k hk hk'
    obtain ⟨a, ha, hka⟩ := exists_link hk'
    exact ((List.pairwise_append.1 hapart).2.2 a ha place hp).not_inRange hka hk
  · -- nor is any piece among them
    intro piece hp
    have hheld : grown.Holds piece.place piece.bytes := by
      rcases List.mem_append.1 hp with hp | hp
      · exact (h.held piece hp).frame he fun _ _ hk => hk
      · exact hnew piece hp
    apply hheld.frame hf
    intro k hk hk'
    obtain ⟨a, ha, hka⟩ := exists_link hk'
    exact hclear piece hp a (List.mem_append_left _ ha) k hk hka
  · intro piece hp
    rcases List.mem_append.1 hp with hp | hp
    · exact h.behind piece hp
    · exact Nat.le_trans (show 24 ≤ m.size + 8 by omega) (hbehind piece hp)

end Arranged

/-! ## §2. Inventories. -/

/-- The maps and the programs of a session, each with its places in the page. -/
structure Inventory where
  maps : List MapEntry
  programs : List ProgramEntry
  deriving DecidableEq, Repr

namespace Inventory

def mapPlaces (inv : Inventory) : List Nat := inv.maps.map MapEntry.place

def programPlaces (inv : Inventory) : List Nat := inv.programs.map ProgramEntry.place

/-- All pieces of a page. -/
def pieces (m : Memory) (inv : Inventory) : List Piece :=
  inv.maps.flatMap (MapEntry.pieces m) ++ inv.programs.flatMap (ProgramEntry.pieces m)

/-- The id of the first map of a name. -/
def idOf? (inv : Inventory) (name : String) : Option UInt8 :=
  (inv.maps.find? fun e => e.title = name).map MapEntry.id

theorem pieces_frame {touched : Nat → Prop} {m after : Memory} (hf : Frame touched m after)
    (inv : Inventory) : inv.pieces after = inv.pieces m := by
  rw [pieces, pieces, funext (MapEntry.pieces_frame hf), funext (ProgramEntry.pieces_frame hf)]

end Inventory

/-- No address belongs to both of two maps, judged by the ends of their ranges. -/
def MapEntry.Parted (a b : MapEntry) : Prop := ¬ (a.start < b.stop ∧ b.start < a.stop)

/-- A session whose page holds what an inventory says. -/
structure Session.Sound (s : Session) (inv : Inventory) : Prop where
  arranged : Arranged s.memory inv.mapPlaces inv.programPlaces (inv.pieces s.memory)
  mapHead : s.mapHead = headOf s.memory inv.mapPlaces
  programHead : s.programHead = headOf s.memory inv.programPlaces
  numbered : ∀ i (e : MapEntry), inv.maps[i]? = some e → e.id.toNat = i
  parted : inv.maps.Pairwise MapEntry.Parted
  named : inv.maps.Pairwise fun a b => a.title ≠ b.name
  known : ∀ e ∈ inv.programs, ∀ id ∈ e.plan.instructionMaps ++ e.plan.dataMaps,
    id.toNat < inv.maps.length

namespace Session.Sound

variable {s : Session} {inv : Inventory}

/-! ## §3. What a sound session reads back. -/

theorem held_map (h : s.Sound inv) {e : MapEntry} (he : e ∈ inv.maps) :
    s.memory.HoldsAll (e.pieces s.memory) := fun piece hp =>
  h.arranged.held piece (List.mem_append_left _ (List.mem_flatMap.2 ⟨e, he, hp⟩))

theorem held_program (h : s.Sound inv) {e : ProgramEntry} (he : e ∈ inv.programs) :
    s.memory.HoldsAll (e.pieces s.memory) ∧ 0 < e.dataPlace ∧ 0 < e.instructionPlace := by
  have hmem : ∀ piece ∈ e.pieces s.memory, piece ∈ inv.pieces s.memory := fun piece hp =>
    List.mem_append_right _ (List.mem_flatMap.2 ⟨e, he, hp⟩)
  have hdata := h.arranged.behind _ (hmem ⟨e.dataPlace, e.plan.dataMaps⟩ (by
    simp [ProgramEntry.pieces]))
  have hinstructions := h.arranged.behind _
    (hmem ⟨e.instructionPlace, e.plan.instructionMaps⟩ (by simp [ProgramEntry.pieces]))
  have hheader : 0 < headerSize := by decide
  exact ⟨fun piece hp => h.arranged.held piece (hmem piece hp), Nat.lt_of_lt_of_le hheader hdata,
    Nat.lt_of_lt_of_le hheader hinstructions⟩

theorem map_load_eq (h : s.Sound inv) {e : MapEntry} (he : e ∈ inv.maps) :
    AddressMap.load s.memory (s.memory.address e.place) = .ok (e.map s.memory) :=
  e.load_eq h.arranged.proper (h.held_map he)

theorem program_load_eq (h : s.Sound inv) {e : ProgramEntry} (he : e ∈ inv.programs) :
    Program.load s.memory (s.memory.address e.place) = .ok (e.program s.memory) := by
  obtain ⟨hheld, hdata, hinstructions⟩ := h.held_program he
  exact e.load_eq h.arranged.proper hheld hdata hinstructions

/-- **The maps that are read back are those of the inventory.** -/
theorem maps_eq (h : s.Sound inv) : s.maps = .ok (inv.maps.map (MapEntry.map s.memory)) := by
  unfold maps
  rw [h.mapHead]
  exact h.arranged.closed.collect_eq h.arranged.spaced h.arranged.length_le
    fun e he => h.map_load_eq he

/-- **The programs that are read back are those of the inventory.** -/
theorem programs_eq (h : s.Sound inv) :
    s.programs = .ok (inv.programs.map (ProgramEntry.program s.memory)) := by
  unfold programs
  rw [h.programHead]
  exact h.arranged.closedOther.collect_eq h.arranged.symm.spaced h.arranged.symm.length_le
    fun e he => h.program_load_eq he

/-- **The id of a name is looked up in the inventory.** -/
theorem mapId_eq (h : s.Sound inv) (name : String) :
    s.mapId name = match inv.idOf? name with
      | some id => .ok id
      | none => .error (.unknownMap name) := by
  have hfind : Ring.find? s.memory s.mapHead (fun node => do
      let map ← AddressMap.load s.memory node
      return if map.name = name then some map.id else none) = .ok (inv.idOf? name) := by
    rw [h.mapHead, Inventory.idOf?, List.find?_eq_findSome?_guard, List.map_findSome?]
    apply h.arranged.closed.find?_eq h.arranged.spaced h.arranged.length_le
    intro e he
    by_cases hname : e.title = name
    · simp [h.map_load_eq he, MapEntry.map, Option.guard, hname, bind, Except.bind, pure,
        Except.pure]
    · simp [h.map_load_eq he, MapEntry.map, Option.guard, hname, bind, Except.bind, pure,
        Except.pure]
  unfold mapId
  rw [hfind]
  cases inv.idOf? name <;> rfl

/-- There are no more maps than ids. -/
theorem length_maps_le (h : s.Sound inv) : inv.maps.length ≤ AddressMap.idLimit := by
  show inv.maps.length ≤ 256
  -- the map at position 256 would have 256 as its id, which is one byte
  by_contra hlong
  have hlt : 256 < inv.maps.length := by omega
  have hid := h.numbered 256 _ (List.getElem?_eq_getElem hlt)
  have hbound := inv.maps[256].id.toNat_lt
  omega

theorem misnumbered?_eq_none {maps : List AddressMap} (position : Nat)
    (h : ∀ i map, maps[i]? = some map → map.id.toNat = position + i ∧ map.entries = 0) :
    misnumbered? position maps = none := by
  induction maps generalizing position with
  | nil => rfl
  | cons map rest ih =>
    have hmap := h 0 map rfl
    rw [misnumbered?, if_neg (by simpa using hmap)]
    apply ih (position + 1)
    intro i found hi
    have hfound := h (i + 1) found hi
    exact ⟨by omega, hfound.2⟩

/-- **A sound session passes the audit.** -/
theorem audit_eq (h : s.Sound inv) : s.audit = .ok () := by
  have hmaps := h.arranged.closed.audit_eq h.arranged.spaced h.arranged.length_le
  have hprograms := h.arranged.closedOther.audit_eq h.arranged.symm.spaced h.arranged.symm.length_le
  rw [← h.mapHead] at hmaps
  rw [← h.programHead] at hprograms
  have hnumbered : misnumbered? 0 (inv.maps.map (MapEntry.map s.memory)) = none := by
    apply misnumbered?_eq_none 0
    intro i map hi
    rw [List.getElem?_map, Option.map_eq_some_iff] at hi
    obtain ⟨e, he, rfl⟩ := hi
    exact ⟨by rw [Nat.zero_add]; exact h.numbered i e he, rfl⟩
  -- no program refers to an id from the number of maps on
  have hdangling : (inv.programs.map (ProgramEntry.program s.memory)).findSome?
      (dangling? inv.mapPlaces.length) = none := by
    apply List.findSome?_eq_none_iff.2
    intro p hp
    obtain ⟨e, he, rfl⟩ := List.mem_map.1 hp
    rw [dangling?, Option.map_eq_none_iff, List.find?_eq_none]
    intro id hid
    have hlt := h.known e he id hid
    simp [Inventory.mapPlaces, hlt]
  unfold audit
  simp only [hmaps, hprograms, h.maps_eq, h.programs_eq, hnumbered, hdangling, bind, Except.bind]
  rfl

end Session.Sound
end SystemPage
