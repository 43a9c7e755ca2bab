/-
  SystemPage.Proofs.AppendOnly — what a request leaves as it was.

  A page is only ever added to.  Whatever is asked for, and whether it is granted or not, the bytes
  that were there stay, with one exception: a record that joins a ring of others comes before its
  head and after its tail, so two words of records that were there are set to its address.  In a
  ring of one record both words belong to that record.

  So whatever was read back before is read back again, in front of what has been added, and a map
  keeps its id for as long as the page is built.

  Main results:

      Arranged.keeps_joined
                       — what a record that joins a ring leaves of a page
      Granted.grows    — an inventory only gets longer
      Sound.keeps      — what a command keeps of a sound session
      append_only      — what commands keep of a session, and what id a new map has from then on
-/
import SystemPage.Proofs.Commands

namespace SystemPage

open Memory SystemPage.Ring

/-! ## §1. Words that are set in records that were there. -/

namespace Ring

/-- The addresses of the words that are set in other records when a record joins a ring: the way
back from the head and the way on from the tail.  An empty ring has neither. -/
def seams (m : Memory) (head : UInt32) : List UInt32 :=
  match tail? m head with
  | .ok (some tail) => [head + previousField, tail]
  | _ => []

/-- The places of these words. -/
def seamPlaces : List Nat → List Nat
  | [] => []
  | first :: rest => [first + 4, (first :: rest).getLast (List.cons_ne_nil first rest)]

end Ring

/-- What a page keeps when the words at some addresses of it are set.  They lead to the place where
the page ended, and did not before. -/
structure Memory.KeptBut (words : List UInt32) (m after : Memory) : Prop where
  base : after.base = m.base
  size : m.size ≤ after.size
  bytes : ∀ k < m.size, (∀ a ∈ words, ¬ InRange a.toNat 4 (m.base.toNat + k)) →
    after.bytes[k]? = m.bytes[k]?
  set : ∀ a ∈ words, ∃ old, m.readWord a = .ok old ∧ old ≠ m.address m.size
    ∧ after.readWord a = .ok (m.address m.size)
  header : after.bytes.take headerSize = m.bytes.take headerSize

namespace Session

/-- The addresses of the words that a request sets in records that were there before. -/
def relinks (s : Session) (op : Operation) : List UInt32 :=
  if s.grants op then
    match op with
    | .command (.map ..) => seams s.memory s.mapHead
    | .command (.program ..) => seams s.memory s.programHead
    | _ => []
  else []

/-- What a request keeps of a session: the page, and all that was read back of it. -/
structure Keeps (s : Session) (op : Operation) (after : Session) : Prop where
  page : KeptBut (s.relinks op) s.memory after.memory
  maps : ∃ maps added, s.maps = .ok maps ∧ after.maps = .ok (maps ++ added)
  programs : ∃ programs added, s.programs = .ok programs
    ∧ after.programs = .ok (programs ++ added)

end Session

/-! ## §2. Pages that are added to. -/

namespace Ring

variable {m after : Memory} {ring : List Nat} {place : Nat}

/-- The seams of a closed ring are where its head and its tail are. -/
theorem Closed.seams_eq (h : Closed m ring) (hs : Spaced m ring) :
    seams m (headOf m ring) = (seamPlaces ring).map m.address := by
  cases ring with
  | nil => simp [seams, headOf, tail?, seamPlaces]
  | cons first rest =>
    have hlast := (Closed.cons_iff.1 h).2 _ (List.getLast?_eq_some_getLast (List.cons_ne_nil _ _))
    have htail := congrArg (Except.map some) hlast.previous_eq
    rw [headOf, seams, tail?, if_neg (hs.nonzero first (by simp)), htail]
    show [m.address first + UInt32.ofNat 4, _] = _
    rw [address_add]
    rfl

/-- At its seams a closed ring leads from its head to its tail and back. -/
theorem Closed.exists_seam (h : Closed m ring) {p : Nat} (hp : p ∈ seamPlaces ring) :
    ∃ a ∈ ring, m.HoldsWord p (m.address a) := by
  cases ring with
  | nil => simp [seamPlaces] at hp
  | cons first rest =>
    have hlast := (Closed.cons_iff.1 h).2 _ (List.getLast?_eq_some_getLast (List.cons_ne_nil _ _))
    simp only [seamPlaces, List.mem_cons, List.not_mem_nil, or_false] at hp
    rcases hp with rfl | rfl
    · exact ⟨_, List.getLast_mem _, hlast.back⟩
    · exact ⟨first, by simp, hlast.forward⟩

/-- Where the seams of a ring were, they lead to the record that was put between them. -/
theorem Closed.seam_concat (h : Closed m (ring ++ [place])) {p : Nat} (hp : p ∈ seamPlaces ring) :
    m.HoldsWord p (m.address place) := by
  cases ring with
  | nil => simp [seamPlaces] at hp
  | cons first rest =>
    rw [List.cons_append, Closed.cons_iff, ← List.cons_append, List.isChain_append] at h
    obtain ⟨⟨-, -, hin⟩, hout⟩ := h
    simp only [seamPlaces, List.mem_cons, List.not_mem_nil, or_false] at hp
    rcases hp with rfl | rfl
    · exact (hout place List.getLast?_concat).back
    · exact (hin _ (List.getLast?_eq_some_getLast (List.cons_ne_nil _ _)) place (by simp)).forward

/-- The seams of a ring are among the links of its records. -/
theorem exists_of_mem_seamPlaces {p : Nat} (hp : p ∈ seamPlaces ring) :
    ∃ a ∈ ring, a ≤ p ∧ p + 4 ≤ a + linkSize := by
  cases ring with
  | nil => simp [seamPlaces] at hp
  | cons first rest =>
    simp only [seamPlaces, List.mem_cons, List.not_mem_nil, or_false] at hp
    rcases hp with rfl | rfl
    · exact ⟨first, by simp, by omega, by simp [linkSize]⟩
    · exact ⟨_, List.getLast_mem _, Nat.le_refl _, by simp [linkSize]⟩

/-- The links that appending sets are those of the new record and those at the seams. -/
theorem seam_of_relinked {k : Nat} (hk : Relinked ring place k) :
    InRange place linkSize k ∨ ∃ p ∈ seamPlaces ring, InRange p 4 k := by
  cases ring with
  | nil => simpa [Relinked, seamPlaces] using hk
  | cons first rest =>
    have hlast := List.getLast?_eq_some_getLast (List.cons_ne_nil first rest)
    simpa [Relinked, seamPlaces, hlast] using hk

end Ring

namespace Memory.KeptBut

variable {m after : Memory}

/-- A page that has only been added to keeps everything. -/
theorem of_extends (he : m.Extends after) (hroom : headerSize ≤ m.size) : KeptBut [] m after := by
  have hbytes : ∀ k < m.size, after.bytes[k]? = m.bytes[k]? := by
    intro k hk
    rw [getElem?_bytes, getElem?_bytes, if_pos hk, if_pos (Nat.lt_of_lt_of_le hk he.size),
      he.kept k hk not_false]
  refine ⟨he.base, he.size, fun k hk _ => hbytes k hk, by simp, ?_⟩
  apply List.ext_getElem?
  intro k
  rw [List.getElem?_take, List.getElem?_take]
  split
  · next hk => exact hbytes k (Nat.lt_of_lt_of_le hk hroom)
  · rfl

end Memory.KeptBut

/-- **What a record that joins a ring leaves of a page.** -/
theorem Arranged.keeps_joined {m after : Memory} {ring other : List Nat} {pieces : List Piece}
    (h : Arranged m ring other pieces) (hf : Frame (Relinked ring m.size) m after)
    (hafter : Closed after (ring ++ [m.size])) : KeptBut (seams m (headOf m ring)) m after := by
  have hb := h.proper.bounded
  have hroom : headerSize ≤ m.size := Nat.le_trans (Nat.le_add_right _ _) h.room
  rw [h.closed.seams_eq h.spaced]
  -- the seams are words of records that were there, behind the header
  have hseam : ∀ p ∈ seamPlaces ring, headerSize ≤ p ∧ p + 4 ≤ m.size
      ∧ (m.address p).toNat = m.base.toNat + p := by
    intro p hp
    obtain ⟨a, ha, hle, hin⟩ := exists_of_mem_seamPlaces hp
    obtain ⟨hplace, hsize⟩ := h.inside a (List.mem_append_left _ ha)
    exact ⟨by omega, by omega, toNat_address (h.proper.address_lt (by omega))⟩
  have hkept : ∀ k < m.size, (∀ p ∈ seamPlaces ring, ¬ InRange p 4 k) →
      after.bytes[k]? = m.bytes[k]? := by
    intro k hk hout
    have hcell : after.cells.get k = m.cells.get k := by
      apply hf.kept k hk
      intro hlinked
      rcases seam_of_relinked hlinked with hnew | ⟨p, hp, hk'⟩
      · exact absurd hnew.1 (Nat.not_le_of_lt hk)
      · exact hout p hp hk'
    rw [getElem?_bytes, getElem?_bytes, if_pos hk, if_pos (Nat.lt_of_lt_of_le hk hf.size), hcell]
  refine ⟨hf.base, hf.size, ?_, ?_, ?_⟩
  · intro k hk hout
    apply hkept k hk
    intro p hp hk'
    apply hout _ (List.mem_map_of_mem hp)
    rw [(hseam p hp).2.2]
    simp only [InRange] at hk' ⊢
    omega
  · intro a ha
    obtain ⟨p, hp, rfl⟩ := List.mem_map.1 ha
    obtain ⟨q, hq, hold⟩ := h.closed.exists_seam hp
    have hnew := (hafter.seam_concat hp).readWord
    rw [hf.address_eq, hf.address_eq] at hnew
    refine ⟨_, hold.readWord, ?_, hnew⟩
    -- what was there before starts where the page had not ended yet
    intro hsame
    have hq' : q + 8 ≤ m.size := (h.inside q (List.mem_append_left _ hq)).2
    obtain ⟨_, -, hjoined⟩ := hafter.exists_next (a := m.size) (by simp)
    have haddressed := hjoined.forward.addressed
    rw [hf.base] at haddressed
    have hnumber := congrArg UInt32.toNat hsame
    rw [toNat_address (h.proper.address_lt (by omega)), toNat_address haddressed] at hnumber
    omega
  · apply List.ext_getElem?
    intro k
    rw [List.getElem?_take, List.getElem?_take]
    split
    · next hk =>
      apply hkept k (by omega)
      intro p hp hk'
      have hp' := (hseam p hp).1
      have hk'' := hk'.1
      omega
    · rfl

/-! ## §3. Sessions that are added to. -/

/-- A map behind others is found by its name if none of them has it. -/
theorem Inventory.idOf?_concat {inv : Inventory} {e : MapEntry} {name : String}
    (hname : e.title = name) (hfree : ∀ other ∈ inv.maps, other.title ≠ name) :
    ({ inv with maps := inv.maps ++ [e] } : Inventory).idOf? name = some e.id := by
  have hnone : inv.maps.find? (fun other => other.title = name) = none :=
    List.find?_eq_none.2 fun other hother => by simpa using hfree other hother
  have hfound : [e].find? (fun other => other.title = name) = some e := by simp [hname]
  rw [idOf?, List.find?_append, hnone, Option.none_or, hfound, Option.map_some]

namespace Session

variable {s after : Session} {inv more : Inventory} {op : Operation}

/-- **An inventory only gets longer.** -/
theorem Granted.grows (hg : s.Granted inv op after more) :
    ∃ maps programs, more.maps = inv.maps ++ maps ∧ more.programs = inv.programs ++ programs := by
  cases hg with
  | payload | console | foreign | complete => exact ⟨[], [], by simp, by simp⟩
  | map e => exact ⟨[e], [], rfl, by simp⟩
  | program e => exact ⟨[], [e], by simp, rfl⟩

/-- A name that has an id keeps it. -/
theorem Granted.idOf?_eq (hg : s.Granted inv op after more) {name : String} {id : UInt8}
    (hid : inv.idOf? name = some id) : more.idOf? name = some id := by
  obtain ⟨maps, -, hmaps, -⟩ := hg.grows
  obtain ⟨e, he, rfl⟩ := Option.map_eq_some_iff.1 hid
  rw [Inventory.idOf?, hmaps, List.find?_append, he]
  rfl

/-- What was read back is read back in front of what has been added. -/
theorem Sound.records_append (h : s.Sound inv) (hafter : after.Sound more)
    (hbase : after.memory.base = s.memory.base)
    (hgrows : ∃ maps programs, more.maps = inv.maps ++ maps
      ∧ more.programs = inv.programs ++ programs) :
    (∃ maps added, s.maps = .ok maps ∧ after.maps = .ok (maps ++ added))
      ∧ ∃ programs added, s.programs = .ok programs ∧ after.programs = .ok (programs ++ added) := by
  obtain ⟨maps, programs, hmaps, hprograms⟩ := hgrows
  have hmap := funext (MapEntry.map_of_base hbase)
  have hprogram := funext (ProgramEntry.program_of_base hbase)
  refine ⟨⟨_, maps.map (MapEntry.map s.memory), h.maps_eq, ?_⟩,
    ⟨_, programs.map (ProgramEntry.program s.memory), h.programs_eq, ?_⟩⟩
  · rw [hafter.maps_eq, hmaps, hmap, List.map_append]
  · rw [hafter.programs_eq, hprograms, hprogram, List.map_append]

/-- A granted command keeps the page apart from the words that it is known to set. -/
theorem Granted.keeps_page {c : Script.Command} (hg : s.Granted inv (.command c) after more)
    (h : s.Sound inv) (hafter : after.Sound more) (hgrants : s.grants (.command c) = true) :
    KeptBut (s.relinks (.command c)) s.memory after.memory := by
  have hroom : headerSize ≤ s.memory.size := Nat.le_trans (Nat.le_add_right _ _) h.arranged.room
  unfold relinks
  rw [if_pos hgrants]
  cases hg with
  | payload | console | foreign => exact .of_extends (.refl _ _) hroom
  | map e hplace _ _ hframe =>
    have hclosed := hafter.arranged.closed
    simp only [Inventory.mapPlaces, List.map_append, List.map_cons, List.map_nil, hplace] at hclosed
    rw [h.mapHead]
    exact h.arranged.keeps_joined hframe hclosed
  | program e _ _ _ _ hplace _ hframe =>
    have hclosed := hafter.arranged.closedOther
    simp only [Inventory.programPlaces, List.map_append, List.map_cons, List.map_nil, hplace]
      at hclosed
    rw [h.programHead]
    exact h.arranged.symm.keeps_joined hframe hclosed

/-- **What a command keeps of a sound session.** -/
theorem Sound.keeps (h : s.Sound inv) (c : Script.Command) :
    s.Keeps (.command c) (s.after (.command c)) := by
  rcases h.perform_settles (.command c) with
    ⟨fault, after, he, hr⟩ | ⟨_, after, he, more, hsound, hg⟩
  · have hafter : s.after (.command c) = after := by rw [Session.after, Edit.outcome, he]
    have hrelinks : s.relinks (.command c) = [] := by simp [relinks, grants, he]
    have hroom : headerSize ≤ s.memory.size := Nat.le_trans (Nat.le_add_right _ _) h.arranged.room
    have hextends : s.memory.Extends after.memory := by
      cases hr with
      | earned => exact .refl _ _
      | full _ hext => exact hext
    obtain ⟨hmaps, hprograms⟩ := h.records_append (hr.sound h) hextends.base ⟨[], [], by simp⟩
    rw [hafter]
    refine ⟨?_, hmaps, hprograms⟩
    rw [hrelinks]
    exact .of_extends hextends hroom
  · have hafter : s.after (.command c) = after := by rw [Session.after, Edit.outcome, he]
    have hgrants : s.grants (.command c) = true := by rw [grants, he]
    have hpage := hg.keeps_page h hsound hgrants
    obtain ⟨hmaps, hprograms⟩ := h.records_append hsound hpage.base hg.grows
    rw [hafter]
    exact ⟨hpage, hmaps, hprograms⟩

/-- A map that has been added is found by its name, whatever is asked for after that. -/
theorem Sound.mapId_run (h : s.Sound inv) {name : String} {id : UInt8}
    (hid : inv.idOf? name = some id) (ops : List Operation) :
    (s.run ops).mapId name = .ok id := by
  obtain ⟨more, hsound, hmore⟩ := h.run_keeps (fun _ _ inv => inv.idOf? name = some id) [] ops hid
    (fun _ _ _ _ _ _ hP _ => hP) fun _ _ _ _ _ _ _ _ hP hg => hg.idOf?_eq hP
  rw [hsound.mapId_eq, hmore]

/-- A map that was added is in the inventory under its name, if that has no zero byte. -/
theorem Sound.idOf?_insertMap (h : s.Sound inv) {name : String} {start stop access : UInt32}
    {map : AddressMap} (hinsert : insertMap name start stop access s = .ok map after)
    (hname : 0 ∉ Text.Utf8.bytes name) :
    ∃ more, after.Sound more ∧ more.idOf? name = some map.id := by
  obtain ⟨fault, hfresh, -⟩ | ⟨id, hfresh, hid, hfree⟩ := h.freshMapId_cases name start stop
  · rw [insertMap_of_error hfresh] at hinsert
    cases hinsert
  by_cases hfit : s.memory.size + ((AddressMap.blockSizes name).map roundUp).sum < s.memory.capacity
  · obtain ⟨memory, head, hinsert', -, -, hsound⟩ := h.insertMap_of_lt hfresh hid hfree access hfit
    rw [hinsert'] at hinsert
    cases hinsert
    have htitle : MapEntry.title ⟨s.memory.size, s.memory.size + 32, id, name, start, stop, access⟩
        = name := MapEntry.title_eq hname
    exact ⟨_, hsound, Inventory.idOf?_concat htitle fun e he => (hfree e he).2⟩
  · obtain ⟨fault, memory, hinsert', -⟩ := h.insertMap_of_le hfresh access (Nat.le_of_not_lt hfit)
    rw [hinsert'] at hinsert
    cases hinsert

/-- **What commands keep of a session, and what id a new map has from then on.** -/
theorem append_only {s : Session} (h : s.Reachable) :
    (∀ c : Script.Command, s.Keeps (.command c) (s.after (.command c)))
      ∧ ∀ (name : String) (start stop access : UInt32) (map : AddressMap) (after : Session),
        insertMap name start stop access s = .ok map after → 0 ∉ Text.Utf8.bytes name →
          ∀ ops : List Operation, (after.run ops).mapId name = .ok map.id := by
  obtain ⟨inv, hsound⟩ := h.sound
  refine ⟨hsound.keeps, ?_⟩
  intro name start stop access map after hinsert hname ops
  obtain ⟨more, hmore, hid⟩ := hsound.idOf?_insertMap hinsert hname
  exact hmore.mapId_run hid ops

/-- A map that meets requests for another of its name, for one beside it, and for the complete
page. -/
theorem append_only_first_map :
    ∃ start map after, Session.create ⟨0, 0, 0x400⟩ .big = .ok start
      ∧ insertMap "ddr" 0x100 0x200 3 start = .ok map after ∧ map.id = 0
      ∧ (after.run [.command (.map "ddr" 0x300 0x400 1), .complete,
          .command (.map "tcm" 0x200 0x300 3), .complete]).mapId "ddr" = .ok 0 := by
  have hstart : Session.create ⟨0, 0, 0x400⟩ .big
      = .ok ⟨⟨0, 0x400, .big, 24, .blank⟩, 0, 0, 0, 0, 0, []⟩ := rfl
  obtain ⟨map, after, hinsert, hid⟩ : ∃ map after, insertMap "ddr" 0x100 0x200 3
      ⟨⟨0, 0x400, .big, 24, .blank⟩, 0, 0, 0, 0, 0, []⟩ = .ok map after ∧ map.id = 0 :=
    ⟨_, _, rfl, rfl⟩
  have hkept := (append_only (.create hstart)).2 _ _ _ _ _ _ hinsert (by decide)
    [.command (.map "ddr" 0x300 0x400 1), .complete, .command (.map "tcm" 0x200 0x300 3), .complete]
  exact ⟨_, map, after, hstart, hinsert, hid, hkept.trans (congrArg Except.ok hid)⟩

end Session
end SystemPage
