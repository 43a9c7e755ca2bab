/-
  SystemPage.Proofs.Audits — what the audit of a page accepts, whatever is written in it.

  `Runs` shows that pages that were built here pass the audit.  It is made for the others: a page
  may have been written over anywhere before it goes into an image.  Here the audit is compared with
  a description of what it looks for, in terms of where things lie: two circles of records, each
  record inside of the page, with texts that end and ids that are there, maps that are numbered by
  their places and programs that refer to these.  The ids are bytes, so there are no more maps than
  values of a byte.

  The audit reads back exactly what the description speaks of; it fails with one of two kinds of
  fault everywhere else, goes no further along a ring than there is room for records, and has every
  sum and every slice in bounds.

  Main results:

      exists_mapM_iff       — reading a list of records, with a property for each place
      audit_iff_consistent  — the audit accepts what is described, and nothing else
      audit_corrupt         — the kinds of the faults of an audit
      Guarded.inspect_eq    — an audit passes its checks
      audit_decides         — all of it, for pages that were written over
-/
import SystemPage.Proofs.Disturbed
import SystemPage.Proofs.Exact
import SystemPage.Proofs.Legible

namespace SystemPage

open Memory Edit

/-! ## §1. Rings. -/

namespace Ring

variable {m : Memory} {head : UInt32} {nodes : List UInt32}

/-- A head leads to a circle of records that fits the page, or is 0 and leads to nothing. -/
def Designates (m : Memory) (head : UInt32) (nodes : List UInt32) : Prop :=
  (head = 0 ∧ nodes = [])
    ∨ (head ≠ 0 ∧ nodes.length ≤ m.size / smallestRecord + 1 ∧ Circle m head nodes)

/-- The audit of a ring finishes where the head leads to a circle, and counts its records. -/
theorem audit_iff_designates {n : Nat} :
    audit m head = .ok n ↔ ∃ nodes, nodes.length = n ∧ Designates m head nodes := by
  by_cases hhead : head = 0
  · subst hhead
    constructor
    · intro h
      cases h
      exact ⟨[], rfl, .inl ⟨rfl, rfl⟩⟩
    · rintro ⟨nodes, rfl, ⟨-, rfl⟩ | ⟨hne, -⟩⟩
      · rfl
      · exact absurd rfl hne
  · constructor
    · intro h
      obtain ⟨hlength, nodes, hcount, hcircle⟩ := exists_circle_of_audit hhead h
      exact ⟨nodes, hcount, .inr ⟨hhead, by rwa [hcount], hcircle⟩⟩
    · rintro ⟨nodes, rfl, ⟨hzero, -⟩ | ⟨-, hlength, hcircle⟩⟩
      · exact absurd hzero hhead
      · exact hcircle.audit_eq hhead hlength

namespace Designates

theorem walk_eq (h : Designates m head nodes) : walk m head = nodes.map .ok := by
  rcases h with ⟨rfl, rfl⟩ | ⟨hhead, hlength, hcircle⟩
  · rfl
  · exact (hcircle.walk_eq hhead hlength).1

/-- The records of a ring do not lie below the page. -/
theorem base_le (h : Designates m head nodes) {a : UInt32} (ha : a ∈ nodes) :
    m.base.toNat ≤ a.toNat := by
  rcases h with ⟨-, rfl⟩ | ⟨-, -, hcircle⟩
  · cases ha
  · obtain ⟨b, hpaired⟩ := hcircle.exists_next ha
    exact hpaired.1.1

/-- Along a ring every record is read. -/
theorem collect_eq {α : Type} (h : Designates m head nodes) (read : UInt32 → Except Fault α) :
    collect m head read = nodes.mapM read := by
  rw [collect_eq_mapM, h.walk_eq, List.mapM_map]
  rfl

end Designates

/-- A walk is cut off behind as many records as fit the page. -/
theorem length_walk_le (m : Memory) (head : UInt32) : (walk m head).length ≤ m.size / 32 + 2 := by
  have key : ∀ (steps : Nat) (node : UInt32), (walkFrom m head steps node).length ≤ steps + 1 := by
    intro steps
    induction steps with
    | zero => intro node; exact Nat.le_refl 1
    | succ steps ih =>
      intro node
      rw [walkFrom]
      cases next m node with
      | error fault => exact Nat.le_add_left 1 _
      | ok after =>
        by_cases hend : after = head
        · simp [hend]
        · have hrest := ih after
          simp only [if_neg hend, List.length_cons]
          omega
  unfold walk
  by_cases hhead : head = 0
  · simp [hhead]
  · rw [if_neg hhead]
    exact key (budget m) head

end Ring

/-! ## §2. Records by their places. -/

/-- **Reading a list of records, with a property for each place**: it finishes with results that
have their properties exactly if every record can be read with a result that has its property. -/
theorem exists_mapM_iff {α β : Type} {find : α → Except Fault β} {P : Nat → β → Prop}
    {items : List α} :
    (∃ found, items.mapM find = .ok found ∧ ∀ (k : Nat) b, found[k]? = some b → P k b)
      ↔ ∀ (k : Nat) a, items[k]? = some a → ∃ b, find a = .ok b ∧ P k b := by
  -- on the items, while the properties move up by one place
  induction items generalizing P with
  | nil =>
    constructor
    · intro _ k a ha
      simp at ha
    · intro _
      exact ⟨[], rfl, by simp⟩
  | cons first rest ih =>
    constructor
    · rintro ⟨found, hfound, hP⟩ k a ha
      rw [List.mapM_cons] at hfound
      obtain ⟨b, hb, hrest⟩ := found_bind_eq_ok_iff.1 hfound
      obtain ⟨others, hothers, hcons⟩ := found_bind_eq_ok_iff.1 hrest
      cases hcons
      cases k with
      | zero =>
        cases ha
        exact ⟨b, hb, hP 0 b rfl⟩
      | succ k =>
        have hmoved : ∀ (k : Nat) b, others[k]? = some b → P (k + 1) b := fun k b hk =>
          hP (k + 1) b hk
        exact ih.1 ⟨others, hothers, hmoved⟩ k a ha
    · intro h
      obtain ⟨b, hb, hPb⟩ := h 0 first rfl
      obtain ⟨others, hothers, hP⟩ := (ih (P := fun k b => P (k + 1) b)).2 fun k a ha =>
        h (k + 1) a ha
      refine ⟨b :: others, ?_, ?_⟩
      · rw [List.mapM_cons, hb, hothers]
        rfl
      · intro k c hc
        cases k with
        | zero =>
          cases hc
          exact hPb
        | succ k => exact hP k c hc

namespace Session

/-- No map is misnumbered if each has the id of its place and no entries. -/
theorem misnumbered?_eq_none_iff {position : Nat} {maps : List AddressMap} :
    misnumbered? position maps = none
      ↔ ∀ (k : Nat) map, maps[k]? = some map →
        map.id.toNat = position + k ∧ map.entries = 0 := by
  induction maps generalizing position with
  | nil => simp [misnumbered?]
  | cons first rest ih =>
    unfold misnumbered?
    by_cases hfirst : first.id.toNat ≠ position ∨ first.entries ≠ 0
    · rw [if_pos hfirst]
      constructor
      · intro h
        cases h
      · intro h
        obtain ⟨hid, hentries⟩ := h 0 first rfl
        exact absurd hfirst (by simp [hid, hentries])
    · rw [if_neg hfirst, ih]
      have hgood : first.id.toNat = position ∧ first.entries = 0 := by
        simpa [not_or] using hfirst
      constructor
      · intro h k map hk
        cases k with
        | zero =>
          cases hk
          exact hgood
        | succ k =>
          obtain ⟨hid, hentries⟩ := h k map hk
          exact ⟨by omega, hentries⟩
      · intro h k map hk
        obtain ⟨hid, hentries⟩ := h (k + 1) map hk
        exact ⟨by omega, hentries⟩

/-! ## §3. Consistent sessions. -/

/-- What the audit looks for: two rings of records that lie in the page, maps with the ids of their
places and without entries, and programs that refer to these maps only. -/
structure Consistent (s : Session) (maps programs : List UInt32) : Prop where
  mapRing : Ring.Designates s.memory s.mapHead maps
  programRing : Ring.Designates s.memory s.programHead programs
  mapRecords : ∀ (k : Nat) a, maps[k]? = some a → MapAt s.memory k a
  programRecords : ∀ a ∈ programs, ProgramAt s.memory maps.length a

/-- No field of a record that a walk meets lies behind the last address. -/
structure FieldsFit (s : Session) : Prop where
  maps : ∀ a, .ok a ∈ Ring.walk s.memory s.mapHead → a.toNat + 28 < addressSpace
  programs : ∀ a, .ok a ∈ Ring.walk s.memory s.programHead → a.toNat + 32 < addressSpace

variable {s : Session}

/-- The steps of an audit that finishes. -/
theorem audit_eq_ok_iff_steps :
    s.audit = .ok ()
      ↔ ∃ mapCount programCount, Ring.audit s.memory s.mapHead = .ok mapCount
        ∧ Ring.audit s.memory s.programHead = .ok programCount
        ∧ (∃ maps, s.maps = .ok maps ∧ misnumbered? 0 maps = none)
        ∧ ∃ programs, s.programs = .ok programs
          ∧ programs.findSome? (dangling? mapCount) = none := by
  constructor
  · intro h
    obtain ⟨mapCount, hmapRing, h⟩ := found_bind_eq_ok_iff.1 h
    obtain ⟨programCount, hprogramRing, h⟩ := found_bind_eq_ok_iff.1 h
    obtain ⟨maps, hmaps, h⟩ := found_bind_eq_ok_iff.1 h
    refine ⟨mapCount, programCount, hmapRing, hprogramRing, ⟨maps, hmaps, ?_⟩, ?_⟩
    · cases hfault : misnumbered? 0 maps with
      | none => rfl
      | some fault =>
        rw [hfault] at h
        cases h
    · cases hfault : misnumbered? 0 maps with
      | some fault =>
        rw [hfault] at h
        cases h
      | none =>
        rw [hfault] at h
        obtain ⟨programs, hprograms, h⟩ := found_bind_eq_ok_iff.1 h
        refine ⟨programs, hprograms, ?_⟩
        cases hdangling : programs.findSome? (dangling? mapCount) with
        | none => rfl
        | some fault =>
          rw [hdangling] at h
          cases h
  · rintro ⟨mapCount, programCount, hmapRing, hprogramRing, ⟨maps, hmaps, hnumbered⟩, programs,
      hprograms, hdangling⟩
    unfold audit
    simp only [hmapRing, hprogramRing, hmaps, hnumbered, hprograms, hdangling, bind, Except.bind]
    rfl

/-- Maps are read and numbered by their places exactly where their records are as described. -/
theorem maps_iff (hm : s.memory.Proper) (hfit : s.FieldsFit) {nodes : List UInt32}
    (hring : Ring.Designates s.memory s.mapHead nodes) :
    (∃ maps, s.maps = .ok maps ∧ misnumbered? 0 maps = none)
      ↔ ∀ (k : Nat) a, nodes[k]? = some a → MapAt s.memory k a := by
  have hread : s.maps = nodes.mapM (AddressMap.load s.memory) := hring.collect_eq _
  have hrecord : ∀ (k : Nat) a, nodes[k]? = some a → (MapAt s.memory k a
      ↔ ∃ map, AddressMap.load s.memory a = .ok map ∧ map.id.toNat = k ∧ map.entries = 0) := by
    intro k a ha
    have hmem := List.mem_of_getElem? ha
    exact mapAt_iff hm (hring.base_le hmem) (hfit.maps a (by simp [hring.walk_eq, hmem]))
  simp only [hread, misnumbered?_eq_none_iff, Nat.zero_add]
  rw [exists_mapM_iff (P := fun k (map : AddressMap) => map.id.toNat = k ∧ map.entries = 0)]
  constructor
  · intro h k a ha
    exact (hrecord k a ha).2 (h k a ha)
  · intro h k a ha
    exact (hrecord k a ha).1 (h k a ha)

/-- Programs are read and refer to maps exactly where their records are as described. -/
theorem programs_iff (hm : s.memory.Proper) (hfit : s.FieldsFit) {nodes : List UInt32}
    (hring : Ring.Designates s.memory s.programHead nodes) {mapCount : Nat} :
    (∃ programs, s.programs = .ok programs ∧ programs.findSome? (dangling? mapCount) = none)
      ↔ ∀ a ∈ nodes, ProgramAt s.memory mapCount a := by
  have hread : s.programs = nodes.mapM (Program.load s.memory) := hring.collect_eq _
  have hrecord : ∀ a ∈ nodes, (ProgramAt s.memory mapCount a
      ↔ ∃ p, Program.load s.memory a = .ok p ∧ dangling? mapCount p = none) := by
    intro a ha
    exact programAt_iff hm (hring.base_le ha) (hfit.programs a (by simp [hring.walk_eq, ha]))
  have hplaces : ∀ programs : List Program, programs.findSome? (dangling? mapCount) = none
      ↔ ∀ (k : Nat) p, programs[k]? = some p → dangling? mapCount p = none := by
    intro programs
    rw [List.findSome?_eq_none_iff]
    constructor
    · intro h k p hk
      exact h p (List.mem_of_getElem? hk)
    · intro h p hp
      obtain ⟨k, hk⟩ := List.mem_iff_getElem?.1 hp
      exact h k p hk
  simp only [hread, hplaces]
  rw [exists_mapM_iff (P := fun _ p => dangling? mapCount p = none)]
  constructor
  · intro h a ha
    obtain ⟨k, hk⟩ := List.mem_iff_getElem?.1 ha
    exact (hrecord a ha).2 (h k a hk)
  · intro h k a ha
    have hmem := List.mem_of_getElem? ha
    exact (hrecord a hmem).1 (h a hmem)

/-- **The audit accepts what is described, and nothing else.** -/
theorem audit_iff_consistent (hm : s.memory.Proper) (hfit : s.FieldsFit) :
    s.audit = .ok () ↔ ∃ maps programs, s.Consistent maps programs := by
  rw [audit_eq_ok_iff_steps]
  constructor
  · rintro ⟨mapCount, programCount, hmapRing, hprogramRing, hmaps, hprograms⟩
    obtain ⟨maps, rfl, hring⟩ := Ring.audit_iff_designates.1 hmapRing
    obtain ⟨programs, -, hring'⟩ := Ring.audit_iff_designates.1 hprogramRing
    exact ⟨maps, programs, hring, hring', (maps_iff hm hfit hring).1 hmaps,
      (programs_iff hm hfit hring').1 hprograms⟩
  · rintro ⟨maps, programs, h⟩
    exact ⟨maps.length, programs.length, Ring.audit_iff_designates.2 ⟨maps, rfl, h.mapRing⟩,
      Ring.audit_iff_designates.2 ⟨programs, rfl, h.programRing⟩,
      (maps_iff hm hfit h.mapRing).2 h.mapRecords,
      (programs_iff hm hfit h.programRing).2 h.programRecords⟩

/-- What is read where each result tells where it was read. -/
theorem map_of_mapM {α β : Type} {find : α → Except Fault β} {label : β → α} {items : List α}
    {found : List β} (hlabel : ∀ a b, find a = .ok b → label b = a)
    (h : items.mapM find = .ok found) : found.map label = items := by
  induction items generalizing found with
  | nil =>
    cases h
    rfl
  | cons a rest ih =>
    rw [List.mapM_cons] at h
    obtain ⟨b, hb, hrest⟩ := found_bind_eq_ok_iff.1 h
    obtain ⟨others, hothers, hcons⟩ := found_bind_eq_ok_iff.1 hrest
    cases hcons
    rw [List.map_cons, hlabel a b hb, ih hothers]

namespace Consistent

variable {maps programs : List UInt32}

/-- The ids are bytes, and each one is the number of the maps before its own. -/
theorem length_maps_le (h : s.Consistent maps programs) :
    maps.length ≤ AddressMap.idLimit := by
  by_contra hlong
  have hk : AddressMap.idLimit < maps.length := Nat.lt_of_not_le hlong
  obtain ⟨id, -, hid⟩ := (h.mapRecords _ _ (List.getElem?_eq_getElem hk)).numbered
  have hbyte : id.toNat < 256 := id.toNat_lt
  rw [hid] at hbyte
  exact absurd hbyte (by decide)

/-- The maps of a consistent session are read at the records of its ring. -/
theorem maps_eq (h : s.Consistent maps programs) (hm : s.memory.Proper) (hfit : s.FieldsFit) :
    ∃ found, s.maps = .ok found ∧ found.map AddressMap.address = maps := by
  obtain ⟨found, hfound, -⟩ := (maps_iff hm hfit h.mapRing).2 h.mapRecords
  have hread : maps.mapM (AddressMap.load s.memory) = .ok found :=
    (h.mapRing.collect_eq _).symm.trans hfound
  exact ⟨found, hfound, map_of_mapM (fun _ _ hload => (AddressMap.load_eq_ok_iff.1 hload).1) hread⟩

theorem programs_eq (h : s.Consistent maps programs) (hm : s.memory.Proper) (hfit : s.FieldsFit) :
    ∃ found, s.programs = .ok found ∧ found.map Program.address = programs := by
  obtain ⟨found, hfound, -⟩ := (programs_iff hm hfit h.programRing).2 h.programRecords
  have hread : programs.mapM (Program.load s.memory) = .ok found :=
    (h.programRing.collect_eq _).symm.trans hfound
  exact ⟨found, hfound, map_of_mapM (fun _ _ hload => (Program.load_eq_ok_iff.1 hload).1) hread⟩

end Consistent
end Session

/-! ## §4. Faults. -/

/-- A fault that tells of a page that contradicts itself or leads out of itself. -/
def Fault.Corrupt (fault : Fault) : Prop :=
  fault.kind = .corruptList ∨ fault.kind = .invalidAddress

/-- A result that is no other fault than one of those. -/
def FailsCorrupt {α : Type} (result : Except Fault α) : Prop :=
  ∀ fault, result = .error fault → fault.Corrupt

namespace FailsCorrupt

variable {α β : Type}

theorem ok (a : α) : FailsCorrupt (.ok a : Except Fault α) := by
  intro fault h
  cases h

theorem error {fault : Fault} (h : fault.Corrupt) :
    FailsCorrupt (.error fault : Except Fault α) := by
  intro other he
  cases he
  exact h

theorem bind {result : Except Fault α} {rest : α → Except Fault β} (h : FailsCorrupt result)
    (hrest : ∀ a, FailsCorrupt (rest a)) : FailsCorrupt (result >>= rest) := by
  cases result with
  | ok a => exact hrest a
  | error fault => exact error (h fault rfl)

theorem map {result : Except Fault α} (h : FailsCorrupt result) (f : α → β) :
    FailsCorrupt (result.map f) := by
  cases result with
  | ok a => exact ok _
  | error fault => exact error (h fault rfl)

variable {m : Memory}

theorem offset (address : UInt32) (length : Nat) : FailsCorrupt (m.offset address length) := by
  unfold Memory.offset
  split
  · exact ok _
  · exact error (.inr rfl)

theorem read (address : UInt32) (length : Nat) : FailsCorrupt (m.read address length) :=
  (offset address length).bind fun _ => ok _

theorem readWord (address : UInt32) : FailsCorrupt (m.readWord address) :=
  (read address _).bind fun _ => ok _

theorem readText (address : UInt32) : FailsCorrupt (m.readText address) := by
  refine bind (bind (offset address 0) fun start => ?_) fun _ => ok _
  cases m.cells.firstZero? m.size start with
  | some stop => exact ok _
  | none => exact error (.inr rfl)

theorem visit {act : Ring.Visit α} (hact : ∀ found node, FailsCorrupt (act found node))
    (head : UInt32) (start : α) : FailsCorrupt (Ring.visit m head act start) := by
  have key : ∀ (steps : Nat) (node : UInt32) (found : α),
      FailsCorrupt (Ring.visitFrom m head act steps node found) := by
    intro steps
    induction steps with
    | zero => intro node found; exact error (.inl rfl)
    | succ steps ih =>
      intro node found
      unfold Ring.visitFrom
      have hnext : FailsCorrupt (Ring.next m node) := readWord node
      cases hn : Ring.next m node with
      | error fault => exact error (hnext fault hn)
      | ok after =>
        cases hf : act found node with
        | error fault => exact error (hact found node fault hf)
        | ok step =>
          cases step with
          | done result => exact ok _
          | yield found =>
            by_cases hend : after = head
            · simp only [if_pos hend]
              exact ok _
            · simp only [if_neg hend]
              exact ih after found
  unfold Ring.visit
  by_cases hhead : head = 0
  · rw [if_pos hhead]
    exact ok _
  · rw [if_neg hhead]
    exact key _ _ _

theorem collect {read : UInt32 → Except Fault α} (hread : ∀ a, FailsCorrupt (read a))
    (head : UInt32) : FailsCorrupt (Ring.collect m head read) :=
  (visit (fun _ node => (hread node).map _) head []).map _

theorem auditRing (head : UInt32) : FailsCorrupt (Ring.audit m head) := by
  have hrecord : ∀ node, FailsCorrupt (Ring.auditRecord m node) := by
    intro node
    refine bind (readWord node) fun after => bind (readWord _) fun back => ?_
    by_cases hback : back ≠ node
    · rw [if_pos hback]
      exact error (.inl rfl)
    · rw [if_neg hback]
      exact ok _
  have htail : FailsCorrupt (Ring.tail? m head) := by
    unfold Ring.tail?
    by_cases hhead : head = 0
    · rw [if_pos hhead]
      exact ok _
    · rw [if_neg hhead]
      exact (readWord _).map _
  refine bind (visit (fun _ node => (hrecord node).map _) head 0) fun count => ?_
  refine bind htail fun tail => ?_
  cases tail with
  | none => exact ok _
  | some tail =>
    refine bind (readWord tail) fun after => ?_
    by_cases hafter : after ≠ head
    · rw [if_pos hafter]
      exact error (.inl rfl)
    · rw [if_neg hafter]
      exact ok _

theorem loadMap (address : UInt32) : FailsCorrupt (AddressMap.load m address) := by
  refine bind (read _ 1) fun id => bind (readWord _) fun pointer => ?_
  refine bind (readText pointer) fun name => bind (readWord _) fun start => ?_
  refine bind (readWord _) fun stop => bind (readWord _) fun access => ?_
  exact bind (readWord _) fun entries => ok _

theorem loadProgram (address : UInt32) : FailsCorrupt (Program.load m address) := by
  have hids : ∀ count list, FailsCorrupt (Program.loadIds m count list) := fun count list =>
    bind (readWord count) fun _ => bind (readWord list) fun pointer => read pointer _
  refine bind (readWord _) fun start => bind (readWord _) fun stop => ?_
  refine bind (readWord _) fun pointer => bind (readText pointer) fun argv => ?_
  exact bind (hids _ _) fun instructionMaps => bind (hids _ _) fun dataMaps => ok _

end FailsCorrupt

/-- A map that does not have the id of its place is told of as what it is. -/
theorem Session.misnumbered?_corrupt {position : Nat} {maps : List AddressMap} {fault : Fault}
    (h : misnumbered? position maps = some fault) : fault.Corrupt := by
  induction maps generalizing position with
  | nil => cases h
  | cons first rest ih =>
    unfold misnumbered? at h
    split at h
    · cases h
      exact .inl rfl
    · exact ih h

theorem Session.dangling?_corrupt {mapCount : Nat} {p : Program} {fault : Fault}
    (h : dangling? mapCount p = some fault) : fault.Corrupt := by
  obtain ⟨id, -, rfl⟩ := Option.map_eq_some_iff.1 h
  exact .inl rfl

/-- **An audit fails with one of two kinds of fault.** -/
theorem Session.audit_corrupt (s : Session) : FailsCorrupt s.audit := by
  refine (FailsCorrupt.auditRing s.mapHead).bind fun mapCount => ?_
  refine (FailsCorrupt.auditRing s.programHead).bind fun _ => ?_
  refine (FailsCorrupt.collect FailsCorrupt.loadMap s.mapHead).bind fun maps => ?_
  cases hmaps : misnumbered? 0 maps with
  | some fault => exact .error (misnumbered?_corrupt hmaps)
  | none =>
    refine (FailsCorrupt.collect FailsCorrupt.loadProgram s.programHead).bind fun programs => ?_
    cases hprograms : programs.findSome? (dangling? mapCount) with
    | none => exact .ok _
    | some fault =>
      obtain ⟨p, -, hp⟩ := List.exists_of_findSome?_eq_some hprograms
      exact .error (dangling?_corrupt hp)

/-! ## §5. Checks. -/

namespace Guarded

/-- The way back of a record.  The next record of a record may be any word, so that this one sum
wraps around where it has to; nothing else of an audit does. -/
def back (m : Memory) (node : UInt32) : Look UInt32 := readWord m (node + Ring.previousField)

def inspectRecord (m : Memory) (node : UInt32) : Look Unit := do
  let after ← next m node
  if (← back m after) ≠ node then throw (.brokenBackLink after node)

def last? (m : Memory) (head : UInt32) : Look (Option UInt32) :=
  if head = 0 then pure none else do return some (← back m head)

def inspectRing (m : Memory) (head : UInt32) : Look Nat := do
  let count ← visit m head
    (fun count node => do
      inspectRecord m node
      return .yield (count + 1)) 0
  if let some tail ← last? m head then
    if (← next m tail) ≠ head then throw (.openTail tail head)
  return count

/-- An audit with every other sum and every slice checked. -/
def inspect (s : Session) : Look Unit := do
  let mapCount ← inspectRing s.memory s.mapHead
  let _ ← inspectRing s.memory s.programHead
  if let some fault := Session.misnumbered? 0 (← maps s) then throw fault
  if let some fault := (← programs s).findSome? (Session.dangling? mapCount) then throw fault

variable {m : Memory} {address : UInt32}

/-- The audit of a ring passes its checks, wherever the links lead. -/
theorem inspectRing_eq (hm : m.Proper) (head : UInt32) :
    inspectRing m head = plain (Ring.audit m head) := by
  have hrecord : ∀ node, inspectRecord m node = plain (Ring.auditRecord m node) := by
    intro node
    refine plain_bind (readWord_eq hm _) fun after _ => ?_
    refine plain_bind (readWord_eq hm _) fun before _ => ?_
    split <;> rfl
  have hvisit : visit m head (fun count node => do
        inspectRecord m node
        return .yield (count + 1)) 0
      = plain (Ring.visit m head
        (fun count node => (Ring.auditRecord m node).map fun _ => .yield (count + 1)) 0) :=
    visit_eq hm 0 fun a found _ => by
      rw [hrecord a]
      cases Ring.auditRecord m a <;> rfl
  have hlast : last? m head = plain (Ring.tail? m head) := by
    have hback : back m head = plain (Ring.previous m head) := readWord_eq hm _
    unfold last? Ring.tail?
    by_cases hhead : head = 0
    · rw [if_pos hhead, if_pos hhead]
      rfl
    · rw [if_neg hhead, if_neg hhead, hback]
      cases Ring.previous m head <;> rfl
  refine plain_bind hvisit fun count _ => ?_
  refine plain_bind hlast fun tail _ => ?_
  cases tail with
  | none => rfl
  | some tail =>
    have hnext : next m tail = plain (Ring.next m tail) := readWord_eq hm tail
    refine plain_bind hnext fun after _ => ?_
    split <;> rfl

/-- A field is read where its address does not wrap around. -/
theorem readField_of_lt (hm : m.Proper) {field : UInt32}
    (h : address.toNat + field.toNat < addressSpace) :
    readField m address field = plain (m.readWord (address + field)) := by
  unfold readField
  rw [sum_eq h]
  exact readWord_eq hm _

theorem loadMap_of_lt (hm : m.Proper) (h : address.toNat + 28 < addressSpace) :
    loadMap m address = plain (AddressMap.load m address) := by
  have hfield : ∀ field : UInt32, field.toNat ≤ 28 →
      readField m address field = plain (m.readWord (address + field)) := fun field hle =>
    readField_of_lt hm (by omega)
  unfold loadMap
  rw [sum_eq (show address.toNat + 24 < addressSpace by omega)]
  refine plain_bind (read_eq hm _ 1) fun bytes hbytes => ?_
  obtain ⟨id, rfl⟩ := List.length_eq_one_iff.1 (length_of_read hbytes)
  refine plain_bind (hfield AddressMap.nameField (by decide)) fun pointer _ => ?_
  refine plain_bind (readText_eq hm pointer) fun name _ => ?_
  refine plain_bind (hfield AddressMap.startField (by decide)) fun start _ => ?_
  refine plain_bind (hfield AddressMap.stopField (by decide)) fun stop _ => ?_
  refine plain_bind (hfield AddressMap.accessField (by decide)) fun access _ => ?_
  exact plain_bind (hfield AddressMap.entriesField (by decide)) fun entries _ => rfl

theorem loadProgram_of_lt (hm : m.Proper) (h : address.toNat + 32 < addressSpace) :
    loadProgram m address = plain (Program.load m address) := by
  have hfield : ∀ field : UInt32, field.toNat ≤ 32 →
      readField m address field = plain (m.readWord (address + field)) := fun field hle =>
    readField_of_lt hm (by omega)
  have hids : ∀ count list : UInt32, count.toNat ≤ 32 → list.toNat ≤ 32 →
      loadIds m address count list
        = plain (Program.loadIds m (address + count) (address + list)) := fun count list hc hl =>
    plain_bind (hfield count hc) fun _ _ =>
      plain_bind (hfield list hl) fun pointer _ => read_eq hm pointer _
  refine plain_bind (hfield Program.startField (by decide)) fun start _ => ?_
  refine plain_bind (hfield Program.stopField (by decide)) fun stop _ => ?_
  refine plain_bind (hfield Program.argvField (by decide)) fun pointer _ => ?_
  refine plain_bind (readText_eq hm pointer) fun argv _ => ?_
  refine plain_bind (hids _ _ (by decide) (by decide)) fun instructionMaps _ => ?_
  exact plain_bind (hids _ _ (by decide) (by decide)) fun dataMaps _ => rfl

/-- **An audit passes its checks**, as long as no field of a record lies behind the last address. -/
theorem inspect_eq {s : Session} (hm : s.memory.Proper) (hfit : s.FieldsFit) :
    inspect s = plain s.audit := by
  have hmaps : maps s = plain s.maps :=
    collect_eq hm fun a ha => loadMap_of_lt hm (hfit.maps a ha)
  have hprograms : programs s = plain s.programs :=
    collect_eq hm fun a ha => loadProgram_of_lt hm (hfit.programs a ha)
  refine plain_bind (inspectRing_eq hm _) fun mapCount _ => ?_
  refine plain_bind (inspectRing_eq hm _) fun _ _ => ?_
  refine plain_bind hmaps fun found _ => ?_
  cases Session.misnumbered? 0 found with
  | some fault => rfl
  | none =>
    refine plain_bind hprograms fun programs _ => ?_
    cases programs.findSome? (Session.dangling? mapCount) <;> rfl

end Guarded

/-! ## §6. Pages that were written over. -/

namespace Session

/-- **What the audit says of a page that was written over.**  It accepts exactly the consistent
sessions.  These have no more maps than there are ids, and their maps and programs can be read.  Any
other session is refused with one of two kinds of fault.  The audit passes its checks, and each of
its walks ends. -/
theorem audit_decides {s : Session} (h : s.Disturbed) (hfit : s.FieldsFit) :
    (s.audit = .ok () ↔ ∃ maps programs, s.Consistent maps programs)
      ∧ (∀ maps programs, s.Consistent maps programs → maps.length ≤ 256
        ∧ (∃ found, s.maps = .ok found ∧ found.map AddressMap.address = maps)
        ∧ ∃ found, s.programs = .ok found ∧ found.map Program.address = programs)
      ∧ (∀ fault, s.audit = .error fault →
        fault.kind = .corruptList ∨ fault.kind = .invalidAddress)
      ∧ Guarded.inspect s = Guarded.plain s.audit
      ∧ ∀ head, (Ring.walk s.memory head).length ≤ s.memory.size / 32 + 2 := by
  have hm := h.proper
  refine ⟨audit_iff_consistent hm hfit, ?_, s.audit_corrupt, Guarded.inspect_eq hm hfit,
    Ring.length_walk_le s.memory⟩
  intro maps programs hc
  exact ⟨hc.length_maps_le, hc.maps_eq hm hfit, hc.programs_eq hm hfit⟩

/-- A page with a map whose name was written over, and with one whose id was. -/
theorem audit_decides_renamed :
    ∃ s t : Session, s.Disturbed ∧ s.FieldsFit ∧ (∃ maps programs, s.Consistent maps programs)
      ∧ t.Disturbed ∧ t.FieldsFit ∧ ¬ ∃ maps programs, t.Consistent maps programs := by
  have hstart : Session.create ⟨0, 0x400, 0x1000⟩ .little
      = .ok ⟨⟨0x400, 0x1000, .little, 24, .blank⟩, 0, 0, 0, 0, 0, []⟩ := rfl
  have hmap := (Disturbed.create hstart).after (.command (.map "ddr" 0 0x1000 3))
  have hs := hmap.write 0x438 [0x78]
  have ht := hmap.write 0x430 [1]
  generalize hsame : (Edit.outcome (onMemory (Memory.write 0x438 [0x78])) _).2 = s at hs
  generalize hother : (Edit.outcome (onMemory (Memory.write 0x430 [1])) _).2 = t at ht
  have hwalks : Ring.walk s.memory s.mapHead = [.ok 0x418]
      ∧ Ring.walk s.memory s.programHead = [] ∧ s.audit = .ok () := by
    subst hsame
    decide +kernel
  have hwalks' : Ring.walk t.memory t.mapHead = [.ok 0x418]
      ∧ Ring.walk t.memory t.programHead = [] ∧ t.audit ≠ .ok () := by
    subst hother
    decide +kernel
  have hfit : s.FieldsFit := by
    refine ⟨?_, ?_⟩
    · rw [hwalks.1]
      simp [addressSpace, UInt32.size]
    · rw [hwalks.2.1]
      simp
  have hfit' : t.FieldsFit := by
    refine ⟨?_, ?_⟩
    · rw [hwalks'.1]
      simp [addressSpace, UInt32.size]
    · rw [hwalks'.2.1]
      simp
  have haccepted := (audit_decides hs hfit).1.1 hwalks.2.2
  refine ⟨s, t, hs, hfit, haccepted, ht, hfit', ?_⟩
  intro hconsistent
  exact hwalks'.2.2 ((audit_decides ht hfit').1.2 hconsistent)

end Session
end SystemPage
