/-
  SystemPage.Proofs.Steps — what one request does to a session.

  A request is granted or refused.  A refused one leaves the session as it was, unless it ran out
  of room: then the page may have been added to, and nothing else has changed.  A granted one leaves
  a sound session again, and `Granted` says all that it changed.

  Main results:

      Refused.sound    — a refused request leaves a session as sound as it was
      perform_settles  — every request is refused, or granted and what `Granted` says
-/
import SystemPage.Proofs.Inventory
import SystemPage.Script.Command

namespace SystemPage

open Memory SystemPage.Ring

/-! ## §1. Refusals. -/

/-- A fault that lies in what was asked for, and neither in a lack of room nor in the page. -/
def Fault.Earned (fault : Fault) : Prop :=
  fault.kind ≠ .allocationFailed ∧ fault.kind ≠ .corruptList ∧ fault.kind ≠ .invalidAddress

namespace Session

/-- How a refused request leaves a session: for lack of room with a page that has only been added
to, and otherwise as it was. -/
inductive Refused (s : Session) : Fault → Session → Prop
  | earned {fault : Fault} (h : fault.Earned) : Refused s fault s
  | full {fault : Fault} {memory : Memory} (h : fault.kind = .allocationFailed)
      (he : s.memory.Extends memory) (hm : memory.Proper) :
      Refused s fault { s with memory := memory }

/-- A request is refused, or it is granted and leaves what is said. -/
def Settles {α : Type} (s : Session) (edit : Edit Session α) (granted : α → Session → Prop) :
    Prop :=
  (∃ fault after, edit s = .error fault after ∧ s.Refused fault after)
    ∨ ∃ a after, edit s = .ok a after ∧ granted a after

/-- A session stays sound when its page is added to or its header is stored. -/
theorem Sound.frame {s after : Session} {inv : Inventory} (h : s.Sound inv)
    (hf : Frame (· < headerSize) s.memory after.memory) (hm : after.memory.Proper)
    (hmaps : after.mapHead = s.mapHead) (hprograms : after.programHead = s.programHead) :
    after.Sound inv where
  arranged := by
    rw [Inventory.pieces_frame hf]
    exact h.arranged.frame hf hm
  mapHead := by rw [hmaps, h.mapHead, headOf_frame hf]
  programHead := by rw [hprograms, h.programHead, headOf_frame hf]
  numbered := h.numbered
  parted := h.parted
  named := h.named
  known := h.known

/-- **A refused request leaves a session as sound as it was.** -/
theorem Refused.sound {s after : Session} {inv : Inventory} {fault : Fault}
    (hr : s.Refused fault after) (h : s.Sound inv) : after.Sound inv := by
  cases hr with
  | earned => exact h
  | full _ he hm => exact h.frame (he.mono fun _ _ hk => hk.elim) hm rfl rfl

end Session

/-! ## §2. Lookups. -/

namespace AddressMap

theorem conflict?_eq_none_iff {name : String} {start stop : UInt32} {map : AddressMap} :
    conflict? name start stop map = none
      ↔ ¬ (map.start < stop ∧ start < map.stop) ∧ map.name ≠ name := by
  unfold conflict? meets
  by_cases hmeets : map.start < stop ∧ start < map.stop
  · simp [hmeets]
  · by_cases hname : map.name = name
    · simp [hmeets, hname]
    · simp [hmeets, hname]

theorem conflict?_earned {name : String} {start stop : UInt32} {map : AddressMap} {fault : Fault}
    (h : conflict? name start stop map = some fault) : fault.Earned := by
  unfold conflict? at h
  split at h
  · cases h
    simp [Fault.Earned, Fault.kind]
  · split at h
    · cases h
      simp [Fault.Earned, Fault.kind]
    · cases h

/-- Behind maps that are numbered there is an id left, the number of maps, or there is none. -/
theorem nextId_eq {name : String} {maps : List AddressMap}
    (h : ∀ i (map : AddressMap), maps[i]? = some map → map.id.toNat = i) :
    nextId name maps = if idLimit ≤ maps.length then .error (.tooManyMaps name idLimit)
      else .ok (UInt8.ofNat maps.length) := by
  unfold nextId
  cases hlast : maps.getLast? with
  | none =>
    rw [List.getLast?_eq_none_iff] at hlast
    subst hlast
    rfl
  | some last =>
    have hlast' : maps[maps.length - 1]? = some last := by
      rw [← List.getLast?_eq_getElem?]
      exact hlast
    have hid := h _ last hlast'
    have hpos : 0 < maps.length := List.length_pos_of_mem (List.mem_of_getLast? hlast)
    have hnext : last.id + 1 = UInt8.ofNat maps.length := by
      rw [← UInt8.ofNat_toNat (x := last.id), hid]
      show UInt8.ofNat (maps.length - 1) + UInt8.ofNat 1 = _
      rw [← UInt8.ofNat_add, Nat.sub_add_cancel hpos]
    simp only [hnext]

end AddressMap

theorem Session.consoleNumber_earned {token : String} {fault : Fault}
    (h : consoleNumber token = .error fault) : fault.Earned := by
  have hkind : ∀ half, (Fault.console half token).Earned := fun half => by
    simp [Fault.Earned, Fault.kind]
  unfold consoleNumber at h
  split at h
  · cases h
    exact hkind _
  · next major minor _ =>
    cases hmajor : parseWord (String.ofList major) <;>
      cases hminor : parseWord (String.ofList minor) <;>
      simp [hmajor, hminor, Functor.discard, Except.mapError, bind, Except.bind, Functor.mapConst,
        Except.map] at h
    all_goals
      subst h
      exact hkind _

namespace Session.Sound

variable {s : Session} {inv : Inventory}

/-- A new map is refused for what it is, or it gets the number of maps that are there as its id. -/
theorem freshMapId_cases (h : s.Sound inv) (name : String) (start stop : UInt32) :
    (∃ fault, s.freshMapId name start stop = .error fault ∧ fault.Earned)
      ∨ ∃ id, s.freshMapId name start stop = .ok id ∧ id.toNat = inv.maps.length
        ∧ ∀ e ∈ inv.maps, ¬ (e.start < stop ∧ start < e.stop) ∧ e.title ≠ name := by
  simp only [freshMapId, h.maps_eq, bind, Except.bind]
  cases hconflict : (inv.maps.map (MapEntry.map s.memory)).findSome?
      (AddressMap.conflict? name start stop) with
  | some fault =>
    obtain ⟨map, _, hmap⟩ := List.exists_of_findSome?_eq_some hconflict
    exact .inl ⟨fault, rfl, AddressMap.conflict?_earned hmap⟩
  | none =>
    have hnumbered : ∀ i (map : AddressMap),
        (inv.maps.map (MapEntry.map s.memory))[i]? = some map → map.id.toNat = i := by
      intro i map hi
      rw [List.getElem?_map, Option.map_eq_some_iff] at hi
      obtain ⟨e, he, rfl⟩ := hi
      exact h.numbered i e he
    simp only [AddressMap.nextId_eq hnumbered, List.length_map]
    split
    · exact .inl ⟨_, rfl, by simp [Fault.Earned, Fault.kind]⟩
    · next hlimit =>
      have hlimit' : ¬ 256 ≤ inv.maps.length := hlimit
      refine .inr ⟨_, rfl, ?_, fun e he => ?_⟩
      · rw [UInt8.toNat_ofNat']
        omega
      · exact AddressMap.conflict?_eq_none_iff.1
          (List.findSome?_eq_none_iff.1 hconflict _ (List.mem_map_of_mem he))

/-- The names in a list are all known, or one of them is not. -/
theorem mapIds_cases (h : s.Sound inv) (names : String) :
    (∃ fault, s.mapIds names = .error fault ∧ fault.Earned)
      ∨ ∃ ids, s.mapIds names = .ok ids
        ∧ (Text.fieldTexts ';' names).mapM inv.idOf? = some ids := by
  unfold mapIds
  induction Text.fieldTexts ';' names with
  | nil => exact .inr ⟨[], rfl, rfl⟩
  | cons name rest ih =>
    rw [List.mapM_cons, List.mapM_cons, h.mapId_eq]
    cases hid : inv.idOf? name with
    | none => exact .inl ⟨.unknownMap name, rfl, by simp [Fault.Earned, Fault.kind]⟩
    | some id =>
      obtain ⟨fault, hrest, hearned⟩ | ⟨ids, hrest, hids⟩ := ih
      · exact .inl ⟨fault, by rw [hrest]; rfl, hearned⟩
      · exact .inr ⟨id :: ids, by rw [hrest]; rfl, by rw [hids]; rfl⟩

/-- Ids that were looked up are ids of maps. -/
theorem lt_of_mem_mapM (h : s.Sound inv) {names : List String} {ids : List UInt8} {id : UInt8}
    (hids : names.mapM inv.idOf? = some ids) (hid : id ∈ ids) : id.toNat < inv.maps.length := by
  induction names generalizing ids with
  | nil =>
    cases hids
    simp at hid
  | cons name rest ih =>
    rw [List.mapM_cons] at hids
    simp only [bind, Option.bind_eq_some_iff, pure, Option.some.injEq] at hids
    obtain ⟨first, hfirst, others, hothers, rfl⟩ := hids
    rcases List.mem_cons.1 hid with rfl | hid
    · obtain ⟨e, he, rfl⟩ := Option.map_eq_some_iff.1 hfirst
      obtain ⟨i, hi, hget⟩ := List.getElem_of_mem (List.mem_of_find?_eq_some he)
      have hnumber := h.numbered i e (by rw [List.getElem?_eq_getElem hi, hget])
      omega
    · exact ih hothers hid

/-- A planned program refers to what is known, or the plan is refused. -/
theorem planProgram_cases (h : s.Sound inv) (payload instructionMaps dataMaps argv : String)
    (atOnce : Bool) :
    (∃ fault, s.planProgram payload instructionMaps dataMaps argv atOnce = .error fault
        ∧ fault.Earned)
      ∨ ∃ plan, s.planProgram payload instructionMaps dataMaps argv atOnce = .ok plan
        ∧ s.aliases.find? (fun a => a.name = payload) = some plan.payload
        ∧ (Text.fieldTexts ';' instructionMaps).mapM inv.idOf? = some plan.instructionMaps
        ∧ (Text.fieldTexts ';' dataMaps).mapM inv.idOf? = some plan.dataMaps
        ∧ plan.argv = Program.markedArgv argv atOnce := by
  unfold planProgram alias?
  cases halias : s.aliases.find? fun a => a.name = payload with
  | none => exact .inl ⟨.unknownAlias payload, rfl, by simp [Fault.Earned, Fault.kind]⟩
  | some found =>
    obtain ⟨fault, hi, hearned⟩ | ⟨instructions, hi, hinstructions⟩ :=
      h.mapIds_cases instructionMaps
    · exact .inl ⟨fault, by rw [hi]; rfl, hearned⟩
    · obtain ⟨fault, hd, hearned⟩ | ⟨data, hd, hdata⟩ := h.mapIds_cases dataMaps
      · exact .inl ⟨fault, by rw [hi, hd]; rfl, hearned⟩
      · refine .inr ⟨⟨found, instructions, data, Program.markedArgv argv atOnce⟩, ?_⟩
        rw [hi, hd]
        exact ⟨rfl, rfl, hinstructions, hdata, rfl⟩

/-! ## §3. Records that join a ring. -/

/-- Appending a record to the ring of maps keeps a session sound. -/
theorem addMap (h : s.Sound inv) {grown : Memory} {e : MapEntry} (he : s.memory.Extends grown)
    (hgrown : grown.Proper) (hsize : s.memory.size + smallestRecord ≤ grown.size)
    (hplace : e.place = s.memory.size) (hheld : grown.HoldsAll (e.pieces grown))
    (hbehind : ∀ piece ∈ e.pieces grown, s.memory.size + linkSize ≤ piece.place)
    (hid : e.id.toNat = inv.maps.length) (hparted : ∀ a ∈ inv.maps, a.Parted e)
    (hnamed : ∀ a ∈ inv.maps, a.title ≠ e.name) :
    ∃ memory head, append s.mapHead (s.memory.address s.memory.size) grown = .ok head memory
      ∧ memory.size = grown.size ∧ Frame (Relinked inv.mapPlaces s.memory.size) grown memory
      ∧ { s with memory := memory, mapHead := head }.Sound
        { inv with maps := inv.maps ++ [e] } := by
  obtain ⟨memory, happend, hs, hf, harranged⟩ := h.arranged.add he hgrown hsize hheld hbehind
  rw [← h.mapHead] at happend
  refine ⟨memory, _, happend, hs, hf, ?_⟩
  have hf' := he.trans hf
  have hplaces : ({ inv with maps := inv.maps ++ [e] } : Inventory).mapPlaces
      = inv.mapPlaces ++ [s.memory.size] := by
    simp [Inventory.mapPlaces, hplace]
  refine ⟨?_, ?_, ?_, ?_, ?_, ?_, ?_⟩
  · -- the pieces of the new map stand behind those of the programs now
    rw [hplaces]
    apply harranged.subset
    intro piece hp
    rw [Inventory.pieces_frame hf', Inventory.pieces, List.flatMap_append] at hp
    rw [Inventory.pieces, MapEntry.pieces_frame he]
    simp only [List.flatMap_cons, List.flatMap_nil, List.append_nil, List.mem_append] at hp ⊢
    rcases hp with (hp | hp) | hp
    · exact .inl (.inl hp)
    · exact .inr hp
    · exact .inl (.inr hp)
  · rw [hplaces, headOf_frame hf']
  · rw [h.programHead, headOf_frame hf']
    rfl
  · intro i a hi
    -- the new map is the one behind the others, and its id is their number
    rcases Nat.lt_trichotomy i inv.maps.length with hlt | rfl | hlt
    · rw [List.getElem?_append_left hlt] at hi
      exact h.numbered i a hi
    · rw [List.getElem?_concat_length, Option.some.injEq] at hi
      rw [← hi, hid]
    · rw [List.getElem?_eq_none (by simp; omega)] at hi
      cases hi
  · refine List.pairwise_append.2 ⟨h.parted, List.pairwise_singleton _ _, ?_⟩
    intro a ha b hb
    rw [List.mem_singleton.1 hb]
    exact hparted a ha
  · refine List.pairwise_append.2 ⟨h.named, List.pairwise_singleton _ _, ?_⟩
    intro a ha b hb
    rw [List.mem_singleton.1 hb]
    exact hnamed a ha
  · intro p hp id hi
    have hlt := h.known p hp id hi
    rw [List.length_append]
    omega

/-- Appending a record to the ring of programs keeps a session sound. -/
theorem addProgram (h : s.Sound inv) {grown : Memory} {e : ProgramEntry}
    (he : s.memory.Extends grown) (hgrown : grown.Proper)
    (hsize : s.memory.size + smallestRecord ≤ grown.size) (hplace : e.place = s.memory.size)
    (hheld : grown.HoldsAll (e.pieces grown))
    (hbehind : ∀ piece ∈ e.pieces grown, s.memory.size + linkSize ≤ piece.place)
    (hknown : ∀ id ∈ e.plan.instructionMaps ++ e.plan.dataMaps, id.toNat < inv.maps.length) :
    ∃ memory head, append s.programHead (s.memory.address s.memory.size) grown = .ok head memory
      ∧ memory.size = grown.size ∧ Frame (Relinked inv.programPlaces s.memory.size) grown memory
      ∧ { s with memory := memory, programHead := head }.Sound
        { inv with programs := inv.programs ++ [e] } := by
  obtain ⟨memory, happend, hs, hf, harranged⟩ :=
    h.arranged.symm.add he hgrown hsize hheld hbehind
  rw [← h.programHead] at happend
  refine ⟨memory, _, happend, hs, hf, ?_⟩
  have hf' := he.trans hf
  have hplaces : ({ inv with programs := inv.programs ++ [e] } : Inventory).programPlaces
      = inv.programPlaces ++ [s.memory.size] := by
    simp [Inventory.programPlaces, hplace]
  refine ⟨?_, ?_, ?_, h.numbered, h.parted, h.named, ?_⟩
  · rw [hplaces]
    apply harranged.symm.subset
    intro piece hp
    rw [Inventory.pieces_frame hf', Inventory.pieces, List.flatMap_append] at hp
    rw [Inventory.pieces, ProgramEntry.pieces_frame he, List.append_assoc]
    simpa using hp
  · rw [h.mapHead, headOf_frame hf']
    rfl
  · rw [hplaces, headOf_frame hf']
  · intro p hp
    rcases List.mem_append.1 hp with hp | hp
    · exact h.known p hp
    · rw [List.mem_singleton.1 hp]
      exact hknown

end Session.Sound

/-! ## §4. Requests. -/

/-- What can be asked of a session while its page is being built. -/
inductive Operation where
  | command (c : Script.Command)
  | complete
  deriving DecidableEq, Repr

def Operation.perform : Operation → Edit Session Unit
  | .command c => c.perform
  | .complete => discard Session.complete

namespace Session

/-- What a session that holds an inventory grants: the session and the inventory after it. -/
inductive Granted (s : Session) (inv : Inventory) : Operation → Session → Inventory → Prop
  | payload {name : String} {place size : UInt32}
      (hname : (Text.Utf8.bytes name).length ≤ aliasNameLimit)
      (hplace : place.toNat + s.load.toNat + size.toNat < addressSpace) :
      Granted s inv (.command (.payload name place size))
        { s with
          imageSize := max s.imageSize (place + size)
          aliases := ⟨name, place + s.load, size⟩ :: s.aliases } inv
  | map (e : MapEntry) {memory : Memory} {head : UInt32} (hplace : e.place = s.memory.size)
      (hid : e.id.toNat = inv.maps.length)
      (hsize : memory.size = s.memory.size + ((AddressMap.blockSizes e.name).map roundUp).sum)
      (hframe : Frame (Relinked inv.mapPlaces s.memory.size) s.memory memory) :
      Granted s inv (.command (.map e.name e.start e.stop e.access))
        { s with memory := memory, mapHead := head } { inv with maps := inv.maps ++ [e] }
  | program (e : ProgramEntry) {payload instructionMaps dataMaps argv : String} {atOnce : Bool}
      {memory : Memory} {head : UInt32}
      (hpayload : s.aliases.find? (fun a => a.name = payload) = some e.plan.payload)
      (hinstructions : (Text.fieldTexts ';' instructionMaps).mapM inv.idOf?
        = some e.plan.instructionMaps)
      (hdata : (Text.fieldTexts ';' dataMaps).mapM inv.idOf? = some e.plan.dataMaps)
      (hargv : e.plan.argv = Program.markedArgv argv atOnce) (hplace : e.place = s.memory.size)
      (hsize : memory.size = s.memory.size + (e.plan.blockSizes.map roundUp).sum)
      (hframe : Frame (Relinked inv.programPlaces s.memory.size) s.memory memory) :
      Granted s inv (.command (.program payload instructionMaps dataMaps argv atOnce))
        { s with memory := memory, programHead := head }
        { inv with programs := inv.programs ++ [e] }
  | console {token : String} {number : UInt32} (hnumber : consoleNumber token = .ok number) :
      Granted s inv (.command (.console token)) { s with console := number } inv
  | foreign {name : String} : Granted s inv (.command (.foreign name)) s inv
  | complete {memory : Memory} (hsize : memory.size = s.memory.size)
      (hframe : Frame (· < headerSize) s.memory memory) :
      Granted s inv .complete { s with memory := memory } inv

theorem Settles.discard {α : Type} {s : Session} {edit : Edit Session α}
    {granted : Session → Prop} (h : s.Settles edit fun _ after => granted after) :
    s.Settles (Functor.discard edit) fun _ after => granted after := by
  rcases h with ⟨fault, after, he, hr⟩ | ⟨a, after, he, hg⟩
  · refine .inl ⟨fault, after, ?_, hr⟩
    exact Edit.bind_of_error he
  · refine .inr ⟨(), after, ?_, hg⟩
    exact Edit.bind_of_ok he

theorem onMemory_of_ok {α : Type} {s : Session} {edit : Edit Memory α} {a : α} {memory : Memory}
    (h : edit s.memory = .ok a memory) : onMemory edit s = .ok a { s with memory := memory } := by
  unfold onMemory
  rw [h]

theorem onMemory_of_error {α : Type} {s : Session} {edit : Edit Memory α} {fault : Fault}
    {memory : Memory} (h : edit s.memory = .error fault memory) :
    onMemory edit s = .error fault { s with memory := memory } := by
  unfold onMemory
  rw [h]

/-- A map that has no id is refused, and nothing changes. -/
theorem insertMap_of_error {s : Session} {name : String} {start stop : UInt32} {fault : Fault}
    (h : s.freshMapId name start stop = .error fault) (access : UInt32) :
    insertMap name start stop access s = .error fault s := by
  have hlook : Edit.look (·.freshMapId name start stop) s = .error fault s :=
    Edit.look_of_error h
  unfold insertMap
  rw [Edit.bind_of_error hlook]

/-- A program that cannot be planned is refused, and nothing changes. -/
theorem insertProgram_of_error {s : Session} {payload instructionMaps dataMaps argv : String}
    {atOnce : Bool} {fault : Fault}
    (h : s.planProgram payload instructionMaps dataMaps argv atOnce = .error fault) :
    insertProgram payload instructionMaps dataMaps argv atOnce s = .error fault s := by
  have hlook : Edit.look (·.planProgram payload instructionMaps dataMaps argv atOnce) s
      = .error fault s := Edit.look_of_error h
  unfold insertProgram
  rw [Edit.bind_of_error hlook]

namespace Sound

variable {s : Session} {inv : Inventory}

theorem insertAlias_settles (h : s.Sound inv) (name : String) (place size : UInt32) :
    s.Settles (insertAlias name place size) fun _ after =>
      ∃ more, after.Sound more
        ∧ s.Granted inv (.command (.payload name place size)) after more := by
  unfold Settles
  rw [insertAlias_eq]
  by_cases hname : aliasNameLimit < (Text.Utf8.bytes name).length
  · rw [if_pos hname]
    exact .inl ⟨_, s, rfl, .earned (by simp [Fault.Earned, Fault.kind])⟩
  · rw [if_neg hname]
    by_cases hplace : addressSpace ≤ place.toNat + s.load.toNat + size.toNat
    · rw [if_pos hplace]
      exact .inl ⟨_, s, rfl, .earned (by simp [Fault.Earned, Fault.kind])⟩
    · rw [if_neg hplace]
      refine .inr ⟨(), _, rfl, inv, ?_, ?_⟩
      · exact h.frame (.refl _ _) h.arranged.proper rfl rfl
      · exact .payload (Nat.le_of_not_lt hname) (Nat.lt_of_not_le hplace)

/-- A map that nothing forbids is added as the last one if the page has room for it. -/
theorem insertMap_of_lt (h : s.Sound inv) {name : String} {start stop : UInt32} {id : UInt8}
    (hfresh : s.freshMapId name start stop = .ok id) (hid : id.toNat = inv.maps.length)
    (hfree : ∀ e ∈ inv.maps, ¬ (e.start < stop ∧ start < e.stop) ∧ e.title ≠ name)
    (access : UInt32)
    (hfit : s.memory.size + ((AddressMap.blockSizes name).map roundUp).sum < s.memory.capacity) :
    ∃ (memory : Memory) (head : UInt32), insertMap name start stop access s
        = .ok ⟨s.memory.address s.memory.size, id, name, start, stop, access, 0⟩
          { s with memory := memory, mapHead := head }
      ∧ memory.size = s.memory.size + ((AddressMap.blockSizes name).map roundUp).sum
      ∧ Frame (Relinked inv.mapPlaces s.memory.size) s.memory memory
      ∧ { s with memory := memory, mapHead := head }.Sound { inv with maps := inv.maps
        ++ [(⟨s.memory.size, s.memory.size + 32, id, name, start, stop, access⟩ : MapEntry)] } := by
  have hlook : Edit.look (·.freshMapId name start stop) s = .ok id s := Edit.look_of_ok hfresh
  obtain ⟨grown, hput, hs, he, hgrown, hheld⟩ :=
    AddressMap.put_of_lt h.arranged.proper id name start stop access hfit
  have hsum := AddressMap.sum_blockSizes name
  obtain ⟨memory, head, happend, hs', hf, hsound⟩ := h.addMap he hgrown
    (show s.memory.size + 32 ≤ grown.size by omega) rfl hheld (fun piece hp => by
      simp only [MapEntry.pieces, List.mem_cons, List.not_mem_nil, or_false] at hp
      show s.memory.size + 8 ≤ piece.place
      rcases hp with rfl | rfl | rfl | rfl <;> simp) hid
    (fun a ha => (hfree a ha).1) fun a ha => (hfree a ha).2
  refine ⟨memory, head, ?_, hs'.trans hs,
    (he.trans hf).mono fun _ _ hk => hk.resolve_left not_false, hsound⟩
  unfold insertMap
  rw [Edit.bind_of_ok hlook, Edit.bind_of_ok (onMemory_of_ok hput),
    Edit.bind_of_ok (Edit.get_eq _), Edit.bind_of_ok (onMemory_of_ok happend)]
  rfl

/-- Without room it is refused. -/
theorem insertMap_of_le (h : s.Sound inv) {name : String} {start stop : UInt32} {id : UInt8}
    (hfresh : s.freshMapId name start stop = .ok id) (access : UInt32)
    (hfull : s.memory.capacity ≤ s.memory.size + ((AddressMap.blockSizes name).map roundUp).sum) :
    ∃ fault memory, insertMap name start stop access s = .error fault { s with memory := memory }
      ∧ fault.kind = .allocationFailed ∧ s.memory.Extends memory ∧ memory.Proper := by
  have hlook : Edit.look (·.freshMapId name start stop) s = .ok id s := Edit.look_of_ok hfresh
  obtain ⟨fault, memory, hput, hkind, he, hmemory⟩ :=
    AddressMap.put_of_le h.arranged.proper id name start stop access hfull
  refine ⟨fault, memory, ?_, hkind, he, hmemory⟩
  unfold insertMap
  rw [Edit.bind_of_ok hlook, Edit.bind_of_error (onMemory_of_error hput)]

/-- A map is added as the last one, or it is refused. -/
theorem insertMap_settles (h : s.Sound inv) (name : String) (start stop access : UInt32) :
    s.Settles (insertMap name start stop access) fun _ after =>
      ∃ more, after.Sound more
        ∧ s.Granted inv (.command (.map name start stop access)) after more := by
  obtain ⟨fault, hfresh, hearned⟩ | ⟨id, hfresh, hid, hfree⟩ := h.freshMapId_cases name start stop
  · exact .inl ⟨fault, s, insertMap_of_error hfresh access, .earned hearned⟩
  · -- only room can be lacking now
    by_cases hfit : s.memory.size + ((AddressMap.blockSizes name).map roundUp).sum
      < s.memory.capacity
    · obtain ⟨memory, head, hinsert, hsize, hframe, hsound⟩ :=
        h.insertMap_of_lt hfresh hid hfree access hfit
      exact .inr ⟨_, _, hinsert, _, hsound,
        .map ⟨s.memory.size, s.memory.size + 32, id, name, start, stop, access⟩ rfl hid hsize
          hframe⟩
    · obtain ⟨fault, memory, hinsert, hkind, he, hmemory⟩ :=
        h.insertMap_of_le hfresh access (Nat.le_of_not_lt hfit)
      exact .inl ⟨fault, _, hinsert, .full hkind he hmemory⟩

/-- A program that refers to what is known is added as the last one if the page has room for it. -/
theorem insertProgram_of_lt (h : s.Sound inv)
    {payload instructionMaps dataMaps argv : String} {atOnce : Bool} {plan : Program.Plan}
    (hplan : s.planProgram payload instructionMaps dataMaps argv atOnce = .ok plan)
    (hinstructions : (Text.fieldTexts ';' instructionMaps).mapM inv.idOf?
      = some plan.instructionMaps)
    (hdata : (Text.fieldTexts ';' dataMaps).mapM inv.idOf? = some plan.dataMaps)
    (hfit : s.memory.size + (plan.blockSizes.map roundUp).sum < s.memory.capacity) :
    ∃ (memory : Memory) (head : UInt32),
      insertProgram payload instructionMaps dataMaps argv atOnce s
        = .ok ⟨s.memory.address s.memory.size, plan.payload.address, plan.payload.stop,
            plan.argv, plan.instructionMaps, plan.dataMaps⟩
          { s with memory := memory, programHead := head }
      ∧ memory.size = s.memory.size + (plan.blockSizes.map roundUp).sum
      ∧ Frame (Relinked inv.programPlaces s.memory.size) s.memory memory
      ∧ { s with memory := memory, programHead := head }.Sound
        { inv with programs := inv.programs ++ [plan.entry s.memory] } := by
  have hlook : Edit.look (·.planProgram payload instructionMaps dataMaps argv atOnce) s
      = .ok plan s := Edit.look_of_ok hplan
  obtain ⟨grown, hput, hs, he, hgrown, hheld⟩ :=
    Program.Plan.put_of_lt h.arranged.proper plan hfit
  have hsum := plan.sum_blockSizes
  have hknown : ∀ id ∈ plan.instructionMaps ++ plan.dataMaps, id.toNat < inv.maps.length := by
    intro id hid
    rcases List.mem_append.1 hid with hid | hid
    · exact h.lt_of_mem_mapM hinstructions hid
    · exact h.lt_of_mem_mapM hdata hid
  obtain ⟨memory, head, happend, hs', hf, hsound⟩ := h.addProgram he hgrown
    (show s.memory.size + 32 ≤ grown.size by omega) rfl hheld (fun piece hp => by
      simp only [ProgramEntry.pieces, Program.Plan.entry, List.mem_cons, List.not_mem_nil,
        or_false] at hp
      show s.memory.size + 8 ≤ piece.place
      rcases hp with rfl | rfl | rfl | rfl <;> simp <;> omega) hknown
  refine ⟨memory, head, ?_, hs'.trans hs,
    (he.trans hf).mono fun _ _ hk => hk.resolve_left not_false, hsound⟩
  unfold insertProgram
  rw [Edit.bind_of_ok hlook, Edit.bind_of_ok (onMemory_of_ok hput),
    Edit.bind_of_ok (Edit.get_eq _), Edit.bind_of_ok (onMemory_of_ok happend)]
  rfl

/-- Without room it is refused. -/
theorem insertProgram_of_le (h : s.Sound inv)
    {payload instructionMaps dataMaps argv : String} {atOnce : Bool} {plan : Program.Plan}
    (hplan : s.planProgram payload instructionMaps dataMaps argv atOnce = .ok plan)
    (hfull : s.memory.capacity ≤ s.memory.size + (plan.blockSizes.map roundUp).sum) :
    ∃ fault memory, insertProgram payload instructionMaps dataMaps argv atOnce s
        = .error fault { s with memory := memory }
      ∧ fault.kind = .allocationFailed ∧ s.memory.Extends memory ∧ memory.Proper := by
  have hlook : Edit.look (·.planProgram payload instructionMaps dataMaps argv atOnce) s
      = .ok plan s := Edit.look_of_ok hplan
  obtain ⟨fault, memory, hput, hkind, he, hmemory⟩ :=
    Program.Plan.put_of_le h.arranged.proper plan hfull
  refine ⟨fault, memory, ?_, hkind, he, hmemory⟩
  unfold insertProgram
  rw [Edit.bind_of_ok hlook, Edit.bind_of_error (onMemory_of_error hput)]

/-- A program is added as the last one, or it is refused. -/
theorem insertProgram_settles (h : s.Sound inv) (payload instructionMaps dataMaps argv : String)
    (atOnce : Bool) :
    s.Settles (insertProgram payload instructionMaps dataMaps argv atOnce) fun _ after =>
      ∃ more, after.Sound more
        ∧ s.Granted inv (.command (.program payload instructionMaps dataMaps argv atOnce)) after
          more := by
  obtain ⟨fault, hplan, hearned⟩ | ⟨plan, hplan, hpayload, hinstructions, hdata, hargv⟩ :=
    h.planProgram_cases payload instructionMaps dataMaps argv atOnce
  · exact .inl ⟨fault, s, insertProgram_of_error hplan, .earned hearned⟩
  · -- all that the program refers to is there, so that only room can be lacking now
    by_cases hfit : s.memory.size + (plan.blockSizes.map roundUp).sum < s.memory.capacity
    · obtain ⟨memory, head, hinsert, hsize, hframe, hsound⟩ :=
        h.insertProgram_of_lt hplan hinstructions hdata hfit
      exact .inr ⟨_, _, hinsert, _, hsound,
        .program (plan.entry s.memory) hpayload hinstructions hdata hargv rfl hsize hframe⟩
    · obtain ⟨fault, memory, hinsert, hkind, he, hmemory⟩ :=
        h.insertProgram_of_le hplan (Nat.le_of_not_lt hfit)
      exact .inl ⟨fault, _, hinsert, .full hkind he hmemory⟩

theorem selectConsole_settles (h : s.Sound inv) (token : String) :
    s.Settles (selectConsole token) fun _ after =>
      ∃ more, after.Sound more ∧ s.Granted inv (.command (.console token)) after more := by
  cases hnumber : consoleNumber token with
  | error fault =>
    have hlook : Edit.look (fun _ => consoleNumber token) s = .error fault s :=
      Edit.look_of_error hnumber
    exact .inl ⟨fault, s, by rw [selectConsole, Edit.bind_of_error hlook],
      .earned (consoleNumber_earned hnumber)⟩
  | ok number =>
    have hlook : Edit.look (fun _ => consoleNumber token) s = .ok number s :=
      Edit.look_of_ok hnumber
    refine .inr ⟨(), { s with console := number }, ?_, inv, ?_, .console hnumber⟩
    · unfold selectConsole
      rw [Edit.bind_of_ok hlook]
      rfl
    · exact h.frame (.refl _ _) h.arranged.proper rfl rfl

/-- Completing a page stores its header in front of everything else. -/
theorem complete_eq (h : s.Sound inv) :
    ∃ memory, complete s = .ok memory.bytes { s with memory := memory }
      ∧ memory.size = s.memory.size ∧ Frame (· < headerSize) s.memory memory
      ∧ memory.Holds 0 (s.header.words.flatMap memory.order.encode)
      ∧ { s with memory := memory }.Sound inv := by
  have hroom : 24 ≤ s.memory.size := Nat.le_trans (Nat.le_add_right _ _) h.arranged.room
  have hm := h.arranged.proper
  have hb := hm.bounded
  have hin : 0 + 4 * s.header.words.length ≤ s.memory.size := by
    show 0 + 4 * 6 ≤ s.memory.size
    omega
  obtain ⟨memory, hw, hs, hf, hheld⟩ := writeWords_spec s.header.words
    (hm.address_lt (by omega)) hin
  have hbase : s.memory.address 0 = s.memory.base := UInt32.add_zero _
  rw [hbase] at hw
  have hf' : Frame (· < headerSize) s.memory memory := by
    apply hf.mono
    intro k _ hk
    have hk' : k < 0 + 4 * 6 := hk.2
    show k < 24
    omega
  refine ⟨memory, ?_, hs, hf', ?_, h.frame hf' (hm.frame hf hs) rfl rfl⟩
  · unfold complete
    rw [Edit.bind_of_ok (Edit.get_eq _), Edit.bind_of_ok (onMemory_of_ok hw)]
    rfl
  · rw [hf.order]
    exact hheld

/-- **Every request is refused, or it is granted and leaves a sound session.** -/
theorem perform_settles (h : s.Sound inv) (op : Operation) :
    s.Settles op.perform fun _ after => ∃ more, after.Sound more ∧ s.Granted inv op after more := by
  cases op with
  | command c =>
    cases c with
    | payload name place size => exact h.insertAlias_settles name place size
    | map name start stop access => exact (h.insertMap_settles name start stop access).discard
    | program target instructionMaps dataMaps argv atOnce =>
      exact (h.insertProgram_settles target instructionMaps dataMaps argv atOnce).discard
    | console token => exact h.selectConsole_settles token
    | foreign name => exact .inr ⟨(), s, rfl, inv, h, .foreign⟩
  | complete =>
    obtain ⟨memory, hc, hs, hf, -, hsound⟩ := h.complete_eq
    refine Settles.discard (.inr ⟨_, _, hc, inv, hsound, .complete hs hf⟩)

end Sound
end Session
end SystemPage
