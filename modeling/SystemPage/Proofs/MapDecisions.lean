/-
  SystemPage.Proofs.MapDecisions — which maps are accepted, and why the others are not.

  A new map is compared with the maps that are there, from first to last, and each of them is asked
  two questions: whether it shares addresses with the new one, and whether it has its name.  So of
  two maps that stand in the way the first one decides what is told, also where the second one gives
  a better reason.  Behind them come the number of ids and, at last, the room in the page.

  Whether ranges share addresses is judged by their ends.  For ranges that hold an address at all
  that is the same as to share one.

  Main results:

      meets_iff_exists  — ranges meet exactly if they share an address
      findSome?_of_isFirst
                        — a search ends at the first item that is looked for
      insertMap_decides — what becomes of a new map, in every session
-/
import SystemPage.Proofs.Runs

namespace SystemPage

open Memory SystemPage.Ring

/-! ## §1. First items and failures. -/

/-- The first item of a list of which something holds. -/
def IsFirst {α : Type} (P : α → Prop) (items : List α) (a : α) : Prop :=
  ∃ before behind, items = before ++ a :: behind ∧ P a ∧ ∀ b ∈ before, ¬ P b

section

variable {α β : Type} {P : α → Prop} {items : List α} {a : α}

/-- Where something holds of an item it holds of a first one. -/
theorem exists_isFirst (ha : a ∈ items) (hP : P a) : ∃ b, IsFirst P items b := by
  induction items with
  | nil => cases ha
  | cons c rest ih =>
    by_cases hc : P c
    · exact ⟨c, [], rest, rfl, hc, by simp⟩
    · have hrest : a ∈ rest := (List.mem_cons.1 ha).resolve_left fun heq => hc (heq ▸ hP)
      obtain ⟨b, before, behind, rfl, hb, hbefore⟩ := ih hrest
      refine ⟨b, c :: before, behind, rfl, hb, ?_⟩
      intro d hd
      rcases List.mem_cons.1 hd with rfl | hd
      · exact hc
      · exact hbefore d hd

/-- A search ends at the first item that is looked for. -/
theorem findSome?_of_isFirst {look : α → Option β} {found : β} (h : IsFirst P items a)
    (hlook : ∀ b ∈ items, ¬ P b → look b = none) (ha : look a = some found) :
    items.findSome? look = some found := by
  obtain ⟨before, behind, rfl, -, hbefore⟩ := h
  have hnone : before.findSome? look = none :=
    List.findSome?_eq_none_iff.2 fun b hb => hlook b (by simp [hb]) (hbefore b hb)
  rw [List.findSome?_append, hnone, Option.none_or, List.findSome?_cons, ha]

end

/-- An edit fails for a reason of some kind. -/
def Edit.Fails {σ α : Type} (edit : Edit σ α) (s : σ) (kind : FaultKind) : Prop :=
  ∃ fault after, edit s = .error fault after ∧ fault.kind = kind

theorem Edit.fails_iff_of_error {σ α : Type} {edit : Edit σ α} {s after : σ} {fault : Fault}
    (h : edit s = .error fault after) {kind : FaultKind} :
    Edit.Fails edit s kind ↔ fault.kind = kind := by
  unfold Fails
  rw [h]
  constructor
  · rintro ⟨_, _, heq, hkind⟩
    cases heq
    exact hkind
  · exact fun hkind => ⟨fault, after, rfl, hkind⟩

theorem Edit.not_fails_of_ok {σ α : Type} {edit : Edit σ α} {s after : σ} {a : α}
    (h : edit s = .ok a after) (kind : FaultKind) : ¬ Edit.Fails edit s kind := by
  rintro ⟨fault, other, herror, -⟩
  rw [h] at herror
  cases herror

/-! ## §2. Maps in the way. -/

namespace AddressMap

variable {name : String} {start stop : UInt32} {map : AddressMap}

/-- A map and a range meet, judged by their ends. -/
def Meets (start stop : UInt32) (map : AddressMap) : Prop := map.start < stop ∧ start < map.stop

/-- A map stands in the way of a new one. -/
def Bars (name : String) (start stop : UInt32) (map : AddressMap) : Prop :=
  map.Meets start stop ∨ map.name = name

/-- **Ranges that hold addresses meet exactly if they share one.** -/
theorem meets_iff_exists (hrange : start < stop) (hmap : map.start < map.stop) :
    map.Meets start stop ↔ ∃ x, map.Covers x ∧ start ≤ x ∧ x < stop := by
  constructor
  · rintro ⟨hbelow, habove⟩
    -- the greater one of the two starts belongs to both
    by_cases hle : map.start ≤ start
    · exact ⟨start, ⟨hle, habove⟩, UInt32.le_refl start, hrange⟩
    · exact ⟨map.start, ⟨UInt32.le_refl _, hmap⟩, UInt32.le_of_lt (UInt32.not_le.1 hle), hbelow⟩
  · rintro ⟨x, ⟨hfrom, hto⟩, hfirst, hlast⟩
    exact ⟨UInt32.lt_of_le_of_lt hfrom hlast, UInt32.lt_of_le_of_lt hfirst hto⟩

theorem meets_eq_true_iff : map.meets start stop = true ↔ map.Meets start stop := by
  unfold meets Meets
  rw [Bool.and_eq_true, decide_eq_true_iff, decide_eq_true_iff]

theorem conflict?_of_meets (h : map.Meets start stop) :
    conflict? name start stop map
      = some (.overlap name start stop map.name map.start map.stop) := by
  rw [conflict?, if_pos (meets_eq_true_iff.2 h)]

theorem conflict?_of_name (h : ¬ map.Meets start stop) (hname : map.name = name) :
    conflict? name start stop map = some (.duplicateMap name) := by
  rw [conflict?, if_neg (mt meets_eq_true_iff.1 h), if_pos hname]

theorem conflict?_of_not_bars (h : ¬ map.Bars name start stop) :
    conflict? name start stop map = none := by
  unfold Bars at h
  exact conflict?_eq_none_iff.2 (not_or.1 h)

end AddressMap

/-! ## §3. New maps. -/

namespace Session

variable {s : Session} {inv : Inventory} {maps : List AddressMap} {map : AddressMap}
  {name : String} {start stop : UInt32}

/-- What becomes of a new map beside the maps of a session. -/
structure DecidesMap (s : Session) (maps : List AddressMap) (name : String)
    (start stop access : UInt32) : Prop where
  -- the first map in the way is told, for its range rather than for its name
  overlap : ∀ map, IsFirst (AddressMap.Bars name start stop) maps map → map.Meets start stop →
    insertMap name start stop access s
      = .error (.overlap name start stop map.name map.start map.stop) s
  duplicate : ∀ map, IsFirst (AddressMap.Bars name start stop) maps map →
    ¬ map.Meets start stop → insertMap name start stop access s = .error (.duplicateMap name) s
  -- with no map in the way there may be no id left, and then no room
  tooMany : (∀ map ∈ maps, ¬ map.Bars name start stop) → maps.length = 256 →
    insertMap name start stop access s = .error (.tooManyMaps name 256) s
  noRoom : (∀ map ∈ maps, ¬ map.Bars name start stop) → maps.length ≠ 256 →
    (Edit.Fails (insertMap name start stop access) s .allocationFailed
      ↔ s.memory.capacity
        ≤ s.memory.size + 32 + roundUp ((Text.Utf8.bytes name).length + 1))
  added : (∀ map ∈ maps, ¬ map.Bars name start stop) → maps.length ≠ 256 →
    s.memory.size + 32 + roundUp ((Text.Utf8.bytes name).length + 1) < s.memory.capacity →
    ∃ address id after,
      insertMap name start stop access s = .ok ⟨address, id, name, start, stop, access, 0⟩ after
        ∧ id.toNat = maps.length
        ∧ after.maps = .ok (maps ++ [⟨address, id, name, start, stop, access, 0⟩])

theorem freshMapId_of_maps (hmaps : s.maps = .ok maps) :
    s.freshMapId name start stop
      = match maps.findSome? (AddressMap.conflict? name start stop) with
        | some fault => .error fault
        | none => AddressMap.nextId name maps := by
  unfold freshMapId
  rw [hmaps]
  rfl

/-- The first map in the way decides what is told. -/
theorem insertMap_of_bars (hmaps : s.maps = .ok maps)
    (hfirst : IsFirst (AddressMap.Bars name start stop) maps map) {fault : Fault}
    (hconflict : AddressMap.conflict? name start stop map = some fault) (access : UInt32) :
    insertMap name start stop access s = .error fault s := by
  have hfind : maps.findSome? (AddressMap.conflict? name start stop) = some fault :=
    findSome?_of_isFirst hfirst (fun _ _ hnot => AddressMap.conflict?_of_not_bars hnot) hconflict
  have hfresh : s.freshMapId name start stop = .error fault := by
    rw [freshMapId_of_maps hmaps, hfind]
  exact insertMap_of_error hfresh access

namespace Sound

/-- Where no map is in the way, the ids decide. -/
theorem freshMapId_of_free (h : s.Sound inv) (hmaps : s.maps = .ok maps)
    (hfree : ∀ map ∈ maps, ¬ map.Bars name start stop) :
    s.freshMapId name start stop = if AddressMap.idLimit ≤ maps.length
      then .error (.tooManyMaps name AddressMap.idLimit) else .ok (UInt8.ofNat maps.length) := by
  have hfind : maps.findSome? (AddressMap.conflict? name start stop) = none :=
    List.findSome?_eq_none_iff.2 fun map hmap => AddressMap.conflict?_of_not_bars (hfree map hmap)
  have hnumbered : ∀ i (map : AddressMap), maps[i]? = some map → map.id.toNat = i := by
    intro i map hi
    rw [h.maps_eq, Except.ok.injEq] at hmaps
    rw [← hmaps, List.getElem?_map, Option.map_eq_some_iff] at hi
    obtain ⟨e, he, rfl⟩ := hi
    exact h.numbered i e he
  rw [freshMapId_of_maps hmaps, hfind, AddressMap.nextId_eq hnumbered]

/-- **A map that nothing is in the way of is the last one then, if the page has room for it.** -/
theorem insertMap_appends (h : s.Sound inv) (hmaps : s.maps = .ok maps)
    (hname : 0 ∉ Text.Utf8.bytes name) (hfree : ∀ map ∈ maps, ¬ map.Bars name start stop)
    (hlimit : maps.length < 256) (access : UInt32)
    (hroom : s.memory.size + 32 + roundUp ((Text.Utf8.bytes name).length + 1)
      < s.memory.capacity) :
    ∃ address id after,
      insertMap name start stop access s = .ok ⟨address, id, name, start, stop, access, 0⟩ after
        ∧ id.toNat = maps.length
        ∧ after.maps = .ok (maps ++ [⟨address, id, name, start, stop, access, 0⟩]) := by
  have hentries := h.maps_eq
  rw [hmaps, Except.ok.injEq] at hentries
  have hid : (UInt8.ofNat maps.length).toNat = maps.length := by
    rw [UInt8.toNat_ofNat']
    omega
  have hfresh : s.freshMapId name start stop = .ok (UInt8.ofNat maps.length) := by
    rw [h.freshMapId_of_free hmaps hfree]
    exact if_neg (Nat.not_le_of_lt hlimit)
  have hunlike : ∀ e ∈ inv.maps, ¬ (e.start < stop ∧ start < e.stop) ∧ e.title ≠ name := by
    intro e he
    have hmap : e.map s.memory ∈ maps := hentries ▸ List.mem_map_of_mem he
    exact not_or.1 (hfree _ hmap)
  have hnumber : (UInt8.ofNat maps.length).toNat = inv.maps.length := by
    rw [hid, hentries, List.length_map]
  have hsum := AddressMap.sum_blockSizes name
  obtain ⟨memory, head, hinsert, -, hframe, hsound⟩ :=
    h.insertMap_of_lt hfresh hnumber hunlike access (by omega)
  refine ⟨_, _, _, hinsert, hid, ?_⟩
  -- the page was not moved, so that the other maps are read as before
  rw [hsound.maps_eq, List.map_append, funext (MapEntry.map_of_base hframe.base), ← hentries,
    List.map_singleton]
  unfold MapEntry.map
  rw [MapEntry.title_eq hname]

theorem decidesMap (h : s.Sound inv) (hmaps : s.maps = .ok maps)
    (hname : 0 ∉ Text.Utf8.bytes name) (start stop access : UInt32) :
    s.DecidesMap maps name start stop access := by
  have hlength : maps.length ≤ 256 := by
    have hentries := h.maps_eq
    rw [hmaps, Except.ok.injEq] at hentries
    rw [hentries, List.length_map]
    exact h.length_maps_le
  refine ⟨?_, ?_, ?_, ?_, ?_⟩
  · intro map hfirst hmeets
    exact insertMap_of_bars hmaps hfirst (AddressMap.conflict?_of_meets hmeets) access
  · intro map hfirst hnot
    obtain ⟨before, behind, -, hbars, -⟩ := id hfirst
    have hsame : map.name = name := hbars.resolve_left hnot
    exact insertMap_of_bars hmaps hfirst (AddressMap.conflict?_of_name hnot hsame) access
  · intro hfree hfull
    have hfresh : s.freshMapId name start stop = .error (.tooManyMaps name 256) := by
      rw [h.freshMapId_of_free hmaps hfree]
      exact if_pos (Nat.le_of_eq hfull.symm)
    exact insertMap_of_error hfresh access
  · intro hfree hlimit
    constructor
    · intro hfails
      by_contra hroom
      obtain ⟨_, _, _, hadded, -⟩ := h.insertMap_appends hmaps hname hfree
        (Nat.lt_of_le_of_ne hlength hlimit) access (Nat.lt_of_not_le hroom)
      exact Edit.not_fails_of_ok hadded _ hfails
    · intro hfull
      have hfresh : s.freshMapId name start stop = .ok (UInt8.ofNat maps.length) := by
        rw [h.freshMapId_of_free hmaps hfree]
        exact if_neg (Nat.not_le_of_lt (Nat.lt_of_le_of_ne hlength hlimit))
      have hsum := AddressMap.sum_blockSizes name
      obtain ⟨fault, memory, hinsert, hkind, -⟩ :=
        h.insertMap_of_le hfresh access (by omega)
      exact ⟨fault, _, hinsert, hkind⟩
  · intro hfree hlimit hroom
    exact h.insertMap_appends hmaps hname hfree (Nat.lt_of_le_of_ne hlength hlimit) access hroom

end Sound

/-- **What becomes of a new map, in every session.**  The first map in its way is told, because of
its range or else of its name.  If none is, the ids may all be taken, and then the page may lack the
room.  Otherwise the map is the last one from then on, and its id is the number of maps before it.
Ranges that hold addresses meet if they share one. -/
theorem insertMap_decides (h : s.Reachable) :
    ∃ maps, s.maps = .ok maps
      ∧ (∀ name start stop access, 0 ∉ Text.Utf8.bytes name →
        s.DecidesMap maps name start stop access)
      ∧ ∀ map ∈ maps, ∀ start stop, start < stop → map.start < map.stop →
        (map.Meets start stop ↔ ∃ x, map.Covers x ∧ start ≤ x ∧ x < stop) := by
  obtain ⟨inv, hs⟩ := h.sound
  refine ⟨_, hs.maps_eq, ?_, ?_⟩
  · intro name start stop access hname
    exact hs.decidesMap hs.maps_eq hname start stop access
  · intro map _ start stop hrange hmap
    exact AddressMap.meets_iff_exists hrange hmap

/-- A map in a page, and two new ones that it is in the way of: one by its range, one by its
name. -/
theorem insertMap_decides_barred :
    ∃ start address id after, Session.create ⟨0x1000, 0x100, 0x400⟩ .little = .ok start
      ∧ insertMap "ddr" 0x100 0x200 3 start
        = .ok ⟨address, id, "ddr", 0x100, 0x200, 3, 0⟩ after
      ∧ insertMap "tcm" 0x180 0x280 3 after
        = .error (.overlap "tcm" 0x180 0x280 "ddr" 0x100 0x200) after
      ∧ insertMap "ddr" 0x200 0x280 3 after = .error (.duplicateMap "ddr") after := by
  have hstart : ∃ start, Session.create ⟨0x1000, 0x100, 0x400⟩ .little = .ok start
      ∧ start.maps = .ok [] ∧ start.memory.size + 32 + roundUp 4 < start.memory.capacity :=
    ⟨_, rfl, rfl, by decide⟩
  obtain ⟨start, hstart, hnone, hroom⟩ := hstart
  have hreachable : start.Reachable := .create hstart
  obtain ⟨maps, hmaps, hdecides, -⟩ := insertMap_decides hreachable
  rw [hnone, Except.ok.injEq] at hmaps
  subst hmaps
  obtain ⟨address, id, after, hinsert, -, hafter⟩ :=
    (hdecides "ddr" 0x100 0x200 3 (by decide)).added (by simp) (by decide) hroom
  -- the session is the one after the request for the map
  have hnext : start.after (.command (.map "ddr" 0x100 0x200 3)) = after := by
    have hperform : Operation.perform (.command (.map "ddr" 0x100 0x200 3)) start = .ok () after :=
      Edit.bind_of_ok hinsert
    rw [Session.after, Edit.outcome, hperform]
  obtain ⟨maps, hmaps, hdecides, -⟩ :=
    insertMap_decides (hnext ▸ hreachable.after (.command (.map "ddr" 0x100 0x200 3)))
  rw [hafter, Except.ok.injEq] at hmaps
  subst hmaps
  have hmeets : (0x100 : UInt32) < 0x280 ∧ (0x180 : UInt32) < 0x200 := by decide
  have hapart : ¬ ((0x100 : UInt32) < 0x280 ∧ (0x200 : UInt32) < 0x200) := by decide
  refine ⟨start, address, id, after, hstart, hinsert, ?_, ?_⟩
  · exact (hdecides "tcm" 0x180 0x280 3 (by decide)).overlap _
      ⟨[], [], rfl, .inl hmeets, by simp⟩ hmeets
  · exact (hdecides "ddr" 0x200 0x280 3 (by decide)).duplicate _
      ⟨[], [], rfl, .inr rfl, by simp⟩ hapart

end Session
end SystemPage
