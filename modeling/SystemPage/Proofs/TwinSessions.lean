/-
  SystemPage.Proofs.TwinSessions — two sessions that are asked for the same things.

  Whatever the order of its bytes and wherever its page lies, a session that is asked for the same
  things grants the same ones, refuses the others with the same faults and comes to the same
  inventory.  Its page differs from that of the other in words of records and of the header only.

  Main results:

      insertMap_abreast, insertProgram_abreast
                       — a record is added to both of two sessions or to none
      perform_abreast  — every request comes to the same in two sessions
      Twins.run        — so do any number of requests
-/
import SystemPage.Proofs.Commands
import SystemPage.Proofs.TwinPages

namespace SystemPage

open Memory SystemPage.Ring

/-! ## §1. The words of a page. -/

namespace Inventory

/-- The places of the words of a page: those of the header and those of its records. -/
def wordPlaces (inv : Inventory) : List Nat :=
  Header.wordFields ++ inv.maps.flatMap (fun e => AddressMap.wordFields.map (e.place + ·))
    ++ inv.programs.flatMap fun e => Program.wordFields.map (e.place + ·)

theorem inWord_concat_map (inv : Inventory) (e : MapEntry) {k : Nat}
    (h : InWord inv.wordPlaces k ∨ InWord (AddressMap.wordFields.map (e.place + ·)) k) :
    InWord ({ inv with maps := inv.maps ++ [e] } : Inventory).wordPlaces k := by
  simp only [InWord, wordPlaces, List.flatMap_append, List.mem_append, List.flatMap_cons,
    List.flatMap_nil, List.append_nil] at h ⊢
  rcases h with ⟨place, (hp | hp) | hp, hk⟩ | ⟨place, hp, hk⟩
  · exact ⟨place, .inl (.inl hp), hk⟩
  · exact ⟨place, .inl (.inr (.inl hp)), hk⟩
  · exact ⟨place, .inr hp, hk⟩
  · exact ⟨place, .inl (.inr (.inr hp)), hk⟩

theorem inWord_concat_program (inv : Inventory) (e : ProgramEntry) {k : Nat}
    (h : InWord inv.wordPlaces k ∨ InWord (Program.wordFields.map (e.place + ·)) k) :
    InWord ({ inv with programs := inv.programs ++ [e] } : Inventory).wordPlaces k := by
  simp only [InWord, wordPlaces, List.flatMap_append, List.mem_append, List.flatMap_cons,
    List.flatMap_nil, List.append_nil] at h ⊢
  rcases h with ⟨place, (hp | hp) | hp, hk⟩ | ⟨place, hp, hk⟩
  · exact ⟨place, .inl (.inl hp), hk⟩
  · exact ⟨place, .inl (.inr hp), hk⟩
  · exact ⟨place, .inr (.inl hp), hk⟩
  · exact ⟨place, .inr (.inr hp), hk⟩

/-- The header consists of words. -/
theorem inWord_of_lt (inv : Inventory) {k : Nat} (hk : k < headerSize) :
    InWord inv.wordPlaces k := by
  have hk' : k < 24 := hk
  refine ⟨k / 4 * 4, ?_, ?_⟩
  · apply List.mem_append_left
    apply List.mem_append_left
    simp only [Header.wordFields, List.mem_cons, List.not_mem_nil, or_false]
    omega
  · simp only [InRange]
    omega

/-- The links of records are words. -/
theorem inWord_of_link (inv : Inventory) {place k : Nat}
    (hplace : place ∈ inv.mapPlaces ++ inv.programPlaces) (hk : InRange place linkSize k) :
    InWord inv.wordPlaces k := by
  simp only [InRange, linkSize] at hk
  simp only [InWord, wordPlaces, List.mem_append, List.mem_flatMap]
  rcases List.mem_append.1 hplace with hp | hp
  · obtain ⟨e, he, rfl⟩ := List.mem_map.1 hp
    obtain ⟨p, hp, hin⟩ : InWord (AddressMap.wordFields.map (e.place + ·)) k :=
      AddressMap.inWord (.inl ⟨hk.1, by omega⟩)
    exact ⟨p, .inl (.inr ⟨e, he, hp⟩), hin⟩
  · obtain ⟨e, he, rfl⟩ := List.mem_map.1 hp
    obtain ⟨p, hp, hin⟩ : InWord (Program.wordFields.map (e.place + ·)) k :=
      Program.inWord ⟨hk.1, by omega⟩
    exact ⟨p, .inr ⟨e, he, hp⟩, hin⟩

end Inventory

namespace Session

/-! ## §2. Sessions side by side. -/

/-- The page of a session starts with its header. -/
def HoldsHeader (s : Session) : Prop :=
  s.memory.Holds 0 (s.header.words.flatMap s.memory.order.encode)

/-- Two sessions with the same inventory, and with pages that differ in words only. -/
structure Twins (inv : Inventory) (s t : Session) : Prop where
  sound : s.Sound inv
  soundTwin : t.Sound inv
  pages : Twin (InWord inv.wordPlaces) s.memory t.memory
  load : t.load = s.load
  imageSize : t.imageSize = s.imageSize
  console : t.console = s.console
  aliases : t.aliases = s.aliases

namespace Twins

variable {inv : Inventory} {s t : Session}

/-! What is looked up does not depend on where and how a page is stored. -/

theorem freshMapId_eq (h : Twins inv s t) (name : String) (start stop : UInt32) :
    t.freshMapId name start stop = s.freshMapId name start stop := by
  -- neither conflicts nor ids have to do with the addresses of records
  have hfind : ∀ m : Memory, (inv.maps.map (MapEntry.map m)).findSome?
      (AddressMap.conflict? name start stop)
      = inv.maps.findSome? fun e =>
        AddressMap.conflict? name start stop ⟨0, e.id, e.title, e.start, e.stop, e.access, 0⟩ := by
    intro m
    rw [List.findSome?_map]
    rfl
  have hnext : ∀ m : Memory, AddressMap.nextId name (inv.maps.map (MapEntry.map m))
      = match inv.maps.getLast? with
        | none => .ok 0
        | some last => if AddressMap.idLimit ≤ inv.maps.length
          then .error (.tooManyMaps name AddressMap.idLimit) else .ok (last.id + 1) := by
    intro m
    unfold AddressMap.nextId
    rw [List.getLast?_map, List.length_map]
    cases inv.maps.getLast? <;> rfl
  simp only [freshMapId, h.sound.maps_eq, h.soundTwin.maps_eq, bind, Except.bind, hfind, hnext]

theorem mapId_eq (h : Twins inv s t) (name : String) : t.mapId name = s.mapId name := by
  rw [h.sound.mapId_eq, h.soundTwin.mapId_eq]

theorem alias?_eq (h : Twins inv s t) (name : String) : t.alias? name = s.alias? name := by
  unfold alias?
  rw [h.aliases]

theorem planProgram_eq (h : Twins inv s t) (payload instructionMaps dataMaps argv : String)
    (atOnce : Bool) : t.planProgram payload instructionMaps dataMaps argv atOnce
      = s.planProgram payload instructionMaps dataMaps argv atOnce := by
  unfold planProgram mapIds
  rw [h.alias?_eq, funext h.mapId_eq]

/-- Pages that were added to differ in words only, as before. -/
theorem grown (h : Twins inv s t) {memory memory' : Memory} (he : s.memory.Extends memory)
    (he' : t.memory.Extends memory') (hpages : Twin (InWord inv.wordPlaces) memory memory') :
    Twins inv { s with memory := memory } { t with memory := memory' } :=
  { h with
    sound := h.sound.frame (he.mono fun _ _ hk => hk.elim) hpages.proper rfl rfl
    soundTwin := h.soundTwin.frame (he'.mono fun _ _ hk => hk.elim) hpages.properTwin rfl rfl
    pages := hpages }

/-- A record that cannot be put into either of two pages is not added to either of two sessions. -/
theorem refused (h : Twins inv s t) {α : Type} {put put' : Edit Memory UInt32}
    {rest rest' : UInt32 → Edit Session α} {more : Nat → Prop} {room : Nat} {fault fault' : Fault}
    {memory memory' : Memory} {done : α → Session → α → Session → Prop}
    (hput : Edit.Abreast (Twin (InWord inv.wordPlaces)) (Added more room s.memory t.memory)
      (put s.memory) (put' t.memory))
    (hs : put s.memory = .error fault memory) (he : s.memory.Extends memory)
    (ht : put' t.memory = .error fault' memory') (he' : t.memory.Extends memory') :
    Edit.Abreast (Twins inv) done ((onMemory put >>= rest) s) ((onMemory put' >>= rest') t) := by
  rw [hs, ht] at hput
  rw [Edit.bind_of_error (onMemory_of_error hs), Edit.bind_of_error (onMemory_of_error ht)]
  exact ⟨hput.1, h.grown he he' hput.2⟩

end Twins

/-! ## §3. Records. -/

namespace Sound

variable {s : Session} {inv : Inventory}

/-- A map that fits, and the session that it leaves. -/
theorem insertMap_eq (h : s.Sound inv) {name : String} {start stop : UInt32} {id : UInt8}
    (hfresh : s.freshMapId name start stop = .ok id) (hid : id.toNat = inv.maps.length)
    (hfree : ∀ e ∈ inv.maps, ¬ (e.start < stop ∧ start < e.stop) ∧ e.title ≠ name)
    (access : UInt32)
    (hfit : s.memory.size + ((AddressMap.blockSizes name).map roundUp).sum < s.memory.capacity) :
    ∃ grown after, AddressMap.put id name start stop access s.memory
        = .ok (s.memory.address s.memory.size) grown
      ∧ insertMap name start stop access s
        = .ok ⟨s.memory.address s.memory.size, id, name, start, stop, access, 0⟩ after
      ∧ after = { s with
        memory := linked grown inv.mapPlaces s.memory.size
        mapHead := headOf s.memory (inv.mapPlaces ++ [s.memory.size]) }
      ∧ after.Sound { inv with maps := inv.maps
        ++ [(⟨s.memory.size, s.memory.size + 32, id, name, start, stop, access⟩ : MapEntry)] } := by
  obtain ⟨memory, head, hinsert, -, -, hsound⟩ := h.insertMap_of_lt hfresh hid hfree access hfit
  obtain ⟨grown, hput, hs, he, hgrown, -⟩ :=
    AddressMap.put_of_lt h.arranged.proper id name start stop access hfit
  refine ⟨grown, { s with memory := memory, mapHead := head }, hput, hinsert, ?_, hsound⟩
  have hsum := AddressMap.sum_blockSizes name
  have happend := h.arranged.append_eq he hgrown
    (show s.memory.size + 32 ≤ grown.size by omega)
  rw [← h.mapHead] at happend
  have hlook : Edit.look (·.freshMapId name start stop) s = .ok id s := Edit.look_of_ok hfresh
  unfold insertMap at hinsert
  rw [Edit.bind_of_ok hlook, Edit.bind_of_ok (onMemory_of_ok hput),
    Edit.bind_of_ok (Edit.get_eq _), Edit.bind_of_ok (onMemory_of_ok happend)] at hinsert
  cases hinsert
  rfl

/-- A program that fits, and the session that it leaves. -/
theorem insertProgram_eq (h : s.Sound inv)
    {payload instructionMaps dataMaps argv : String} {atOnce : Bool} {plan : Program.Plan}
    (hplan : s.planProgram payload instructionMaps dataMaps argv atOnce = .ok plan)
    (hinstructions : (Text.fieldTexts ';' instructionMaps).mapM inv.idOf?
      = some plan.instructionMaps)
    (hdata : (Text.fieldTexts ';' dataMaps).mapM inv.idOf? = some plan.dataMaps)
    (hfit : s.memory.size + (plan.blockSizes.map roundUp).sum < s.memory.capacity) :
    ∃ grown after, plan.put s.memory = .ok (s.memory.address s.memory.size) grown
      ∧ insertProgram payload instructionMaps dataMaps argv atOnce s
        = .ok ⟨s.memory.address s.memory.size, plan.payload.address, plan.payload.stop,
          plan.argv, plan.instructionMaps, plan.dataMaps⟩ after
      ∧ after = { s with
        memory := linked grown inv.programPlaces s.memory.size
        programHead := headOf s.memory (inv.programPlaces ++ [s.memory.size]) }
      ∧ after.Sound { inv with programs := inv.programs ++ [plan.entry s.memory] } := by
  obtain ⟨memory, head, hinsert, -, -, hsound⟩ :=
    h.insertProgram_of_lt hplan hinstructions hdata hfit
  obtain ⟨grown, hput, hs, he, hgrown, -⟩ := Program.Plan.put_of_lt h.arranged.proper plan hfit
  refine ⟨grown, { s with memory := memory, programHead := head }, hput, hinsert, ?_, hsound⟩
  have hsum := plan.sum_blockSizes
  have happend := h.arranged.symm.append_eq he hgrown
    (show s.memory.size + 32 ≤ grown.size by omega)
  rw [← h.programHead] at happend
  have hlook : Edit.look (·.planProgram payload instructionMaps dataMaps argv atOnce) s
      = .ok plan s := Edit.look_of_ok hplan
  unfold insertProgram at hinsert
  rw [Edit.bind_of_ok hlook, Edit.bind_of_ok (onMemory_of_ok hput),
    Edit.bind_of_ok (Edit.get_eq _), Edit.bind_of_ok (onMemory_of_ok happend)] at hinsert
  cases hinsert
  rfl

/-- Completing a page writes its header over its start. -/
theorem complete_overwrites (h : s.Sound inv) :
    ∃ memory, complete s = .ok memory.bytes { s with memory := memory }
      ∧ s.SamePlace { s with memory := memory } ∧ { s with memory := memory }.HoldsHeader
      ∧ { s with memory := memory }.Sound inv
      ∧ memory = s.memory.overwriteWords 0 s.header.words := by
  obtain ⟨memory, hcomplete, hsize, hframe, hheld, hsound⟩ := h.complete_eq
  have hroom : 24 ≤ s.memory.size := Nat.le_trans (Nat.le_add_right _ _) h.arranged.room
  have hwrite := writeWords_eq h.arranged.proper 0 s.header.words (show 0 < 6 by decide)
    (show 0 + 4 * 6 ≤ s.memory.size by omega)
  rw [show s.memory.address 0 = s.memory.base from UInt32.add_zero _] at hwrite
  refine ⟨memory, hcomplete, .of_frame rfl hframe, ?_, hsound, ?_⟩
  · -- storing the header does not change what it says
    have hsame : { s with memory := memory }.header = s.header := by simp [header, hsize]
    rw [HoldsHeader, hsame]
    exact hheld
  · unfold complete at hcomplete
    rw [Edit.bind_of_ok (Edit.get_eq _), Edit.bind_of_ok (onMemory_of_ok hwrite)] at hcomplete
    exact congrArg (fun r => r.memory) (EStateM.Result.ok.inj hcomplete).2.symm

end Sound

namespace Twins

variable {inv : Inventory} {s t : Session}

/-- **A map is added to both of two sessions or to none**, and the answers differ in its address
only. -/
theorem insertMap_abreast (h : Twins inv s t) (name : String) (start stop access : UInt32) :
    Edit.Abreast (Twins inv)
      (fun a after b after' => (∃ more, Twins more after after')
        ∧ a.address = s.memory.address s.memory.size
        ∧ b = { a with address := t.memory.address s.memory.size })
      (insertMap name start stop access s) (insertMap name start stop access t) := by
  have hlooked := h.freshMapId_eq name start stop
  obtain ⟨fault, hfresh, -⟩ | ⟨id, hfresh, hid, hfree⟩ := h.sound.freshMapId_cases name start stop
  · exact Edit.Abreast.look_bind hlooked h fun a ha => by rw [hfresh] at ha; cases ha
  have hput := AddressMap.put_abreast h.pages id name start stop access
  by_cases hfit : s.memory.size + ((AddressMap.blockSizes name).map roundUp).sum
    < s.memory.capacity
  · obtain ⟨grown, after, hs, hinsert, hafter, hsound⟩ :=
      h.sound.insertMap_eq hfresh hid hfree access hfit
    obtain ⟨grown', after', ht, hinsert', hafter', hsound'⟩ :=
      h.soundTwin.insertMap_eq (hlooked.trans hfresh) hid hfree access
        (by rw [h.pages.size, h.pages.capacity]; exact hfit)
    rw [hs, ht] at hput
    rw [h.pages.size] at hafter' hsound' hinsert'
    rw [hinsert, hinsert']
    refine ⟨⟨_, hsound, hsound', ?_, ?_, ?_, ?_, ?_⟩, rfl, rfl⟩
    · rw [hafter, hafter']
      refine twin_linked (hput.2.2.twin.mono fun k hk => inv.inWord_concat_map _ hk) ?_
      intro a ha k hk
      refine Inventory.inWord_of_link _ (List.mem_append_left _ ?_) hk
      simpa [Inventory.mapPlaces] using ha
    all_goals rw [hafter, hafter']
    exacts [h.load, h.imageSize, h.console, h.aliases]
  · have hle := Nat.le_of_not_lt hfit
    refine Edit.Abreast.look_bind hlooked h fun a ha => ?_
    rw [hfresh] at ha
    cases ha
    obtain ⟨fault, memory, hs, -, he, -⟩ :=
      AddressMap.put_of_le h.sound.arranged.proper id name start stop access hle
    obtain ⟨fault', memory', ht, -, he', -⟩ :=
      AddressMap.put_of_le h.soundTwin.arranged.proper id name start stop access
        (by rw [h.pages.size, h.pages.capacity]; exact hle)
    exact h.refused hput hs he ht he'

/-- **A program is added to both of two sessions or to none**, and the answers differ in its address
only. -/
theorem insertProgram_abreast (h : Twins inv s t) (payload instructionMaps dataMaps argv : String)
    (atOnce : Bool) :
    Edit.Abreast (Twins inv)
      (fun a after b after' => (∃ more, Twins more after after')
        ∧ a.address = s.memory.address s.memory.size
        ∧ b = { a with address := t.memory.address s.memory.size })
      (insertProgram payload instructionMaps dataMaps argv atOnce s)
      (insertProgram payload instructionMaps dataMaps argv atOnce t) := by
  have hlooked := h.planProgram_eq payload instructionMaps dataMaps argv atOnce
  obtain ⟨fault, hplan, -⟩ | ⟨plan, hplan, -, hinstructions, hdata, -⟩ :=
    h.sound.planProgram_cases payload instructionMaps dataMaps argv atOnce
  · exact Edit.Abreast.look_bind hlooked h fun a ha => by rw [hplan] at ha; cases ha
  have hput := Program.Plan.put_abreast h.pages plan
  by_cases hfit : s.memory.size + (plan.blockSizes.map roundUp).sum < s.memory.capacity
  · obtain ⟨grown, after, hs, hinsert, hafter, hsound⟩ :=
      h.sound.insertProgram_eq hplan hinstructions hdata hfit
    obtain ⟨grown', after', ht, hinsert', hafter', hsound'⟩ :=
      h.soundTwin.insertProgram_eq (hlooked.trans hplan) hinstructions hdata
        (by rw [h.pages.size, h.pages.capacity]; exact hfit)
    have hentry : plan.entry t.memory = plan.entry s.memory := by
      unfold Program.Plan.entry
      rw [h.pages.size]
    rw [hs, ht] at hput
    rw [hentry] at hsound'
    rw [h.pages.size] at hafter' hinsert'
    rw [hinsert, hinsert']
    refine ⟨⟨_, hsound, hsound', ?_, ?_, ?_, ?_, ?_⟩, rfl, rfl⟩
    · rw [hafter, hafter']
      refine twin_linked (hput.2.2.twin.mono fun k hk =>
        inv.inWord_concat_program (plan.entry s.memory) hk) ?_
      intro a ha k hk
      refine Inventory.inWord_of_link _ (List.mem_append_right _ ?_) hk
      simpa [Inventory.programPlaces, Program.Plan.entry] using ha
    all_goals rw [hafter, hafter']
    exacts [h.load, h.imageSize, h.console, h.aliases]
  · have hle := Nat.le_of_not_lt hfit
    refine Edit.Abreast.look_bind hlooked h fun a ha => ?_
    rw [hplan] at ha
    cases ha
    obtain ⟨fault, memory, hs, -, he, -⟩ := Program.Plan.put_of_le h.sound.arranged.proper plan hle
    obtain ⟨fault', memory', ht, -, he', -⟩ :=
      Program.Plan.put_of_le h.soundTwin.arranged.proper plan
        (by rw [h.pages.size, h.pages.capacity]; exact hle)
    exact h.refused hput hs he ht he'

/-! ## §4. All requests. -/

theorem insertAlias_abreast (h : Twins inv s t) (name : String) (place size : UInt32) :
    Edit.Abreast (Twins inv) (fun _ after _ after' => Twins inv after after')
      (insertAlias name place size s) (insertAlias name place size t) := by
  rw [insertAlias_eq, insertAlias_eq, h.load]
  by_cases hname : aliasNameLimit < (Text.Utf8.bytes name).length
  · rw [if_pos hname, if_pos hname]
    exact ⟨rfl, h⟩
  rw [if_neg hname, if_neg hname]
  by_cases hplace : addressSpace ≤ place.toNat + s.load.toNat + size.toNat
  · rw [if_pos hplace, if_pos hplace]
    exact ⟨rfl, h⟩
  rw [if_neg hplace, if_neg hplace]
  exact { h with
    sound := h.sound.frame (.refl _ _) h.sound.arranged.proper rfl rfl
    soundTwin := h.soundTwin.frame (.refl _ _) h.soundTwin.arranged.proper rfl rfl
    load := rfl
    imageSize := by
      show max t.imageSize (place + size) = max s.imageSize (place + size)
      rw [h.imageSize]
    aliases := by
      show _ :: t.aliases = _ :: s.aliases
      rw [h.aliases] }

theorem selectConsole_abreast (h : Twins inv s t) (token : String) :
    Edit.Abreast (Twins inv) (fun _ after _ after' => Twins inv after after')
      (selectConsole token s) (selectConsole token t) := by
  refine Edit.Abreast.look_bind rfl h fun number _ => ?_
  exact { h with
    sound := h.sound.frame (.refl _ _) h.sound.arranged.proper rfl rfl
    soundTwin := h.soundTwin.frame (.refl _ _) h.soundTwin.arranged.proper rfl rfl
    console := rfl }

/-- Both pages are completed. -/
theorem complete_abreast (h : Twins inv s t) :
    ∃ after after', complete s = .ok after.memory.bytes after
      ∧ complete t = .ok after'.memory.bytes after' ∧ s.SamePlace after ∧ t.SamePlace after'
      ∧ after.HoldsHeader ∧ after'.HoldsHeader ∧ Twins inv after after' := by
  obtain ⟨memory, hs, hplace, hheld, hsound, hmemory⟩ := h.sound.complete_overwrites
  obtain ⟨memory', ht, hplace', hheld', hsound', hmemory'⟩ := h.soundTwin.complete_overwrites
  refine ⟨_, _, hs, ht, hplace, hplace', hheld, hheld',
    { h with sound := hsound, soundTwin := hsound', pages := ?_ }⟩
  have hpages : Twin (InWord inv.wordPlaces) (s.memory.overwriteWords 0 s.header.words)
      (t.memory.overwriteWords 0 t.header.words) :=
    h.pages.overwriteWords 0 6 rfl rfl fun k hk => inv.inWord_of_lt (by
      have hlt : k < 0 + 4 * 6 := hk.2
      exact hlt)
  rw [← hmemory, ← hmemory'] at hpages
  exact hpages

/-- **Every request comes to the same in two sessions.** -/
theorem perform_abreast (h : Twins inv s t) (op : Operation) :
    Edit.Abreast (Twins inv) (fun _ after _ after' => ∃ more, Twins more after after')
      (op.perform s) (op.perform t) := by
  cases op with
  | command c =>
    cases c with
    | payload name place size =>
      have hperform := h.insertAlias_abreast name place size
      exact hperform.mono fun _ _ _ _ hafter => ⟨inv, hafter⟩
    | map name start stop access =>
      exact (h.insertMap_abreast name start stop access).discard fun _ _ _ _ hafter => hafter.1
    | program target instructionMaps dataMaps argv atOnce =>
      exact (h.insertProgram_abreast target instructionMaps dataMaps argv atOnce).discard
        fun _ _ _ _ hafter => hafter.1
    | console token =>
      have hperform := h.selectConsole_abreast token
      exact hperform.mono fun _ _ _ _ hafter => ⟨inv, hafter⟩
    | foreign name => exact ⟨inv, h⟩
  | complete =>
    obtain ⟨_, _, hs, ht, -, -, -, -, hafter⟩ := h.complete_abreast
    have hperform : Edit.Abreast (Twins inv) (fun _ after _ after' => Twins inv after after')
        (complete s) (complete t) := by
      rw [hs, ht]
      exact hafter
    exact hperform.discard fun _ _ _ _ hafter => ⟨inv, hafter⟩

/-- Every line of a script comes to the same in two sessions. -/
theorem performWords_abreast (h : Twins inv s t) (words : List String) :
    Edit.Abreast (Twins inv) (fun _ _ _ _ => True) (Script.performWords words s)
      (Script.performWords words t) := by
  cases words with
  | nil => trivial
  | cons name rest =>
    exact Edit.Abreast.look_bind rfl h fun command _ =>
      (h.perform_abreast (.command command)).mono fun _ _ _ _ _ => trivial

/-- **So do any number of requests.** -/
theorem run (h : Twins inv s t) (ops : List Operation) :
    ∃ more, Twins more (s.run ops) (t.run ops) := by
  induction ops generalizing inv s t with
  | nil => exact ⟨inv, h⟩
  | cons op rest ih =>
    rcases (h.perform_abreast op).cases with
      ⟨_, after, _, after', hs, ht, more, hafter⟩ | ⟨_, after, after', hs, ht, hafter⟩
    all_goals
      have hstep : s.after op = after := by rw [Session.after, Edit.outcome, hs]
      have hstep' : t.after op = after' := by rw [Session.after, Edit.outcome, ht]
      have hrest := ih hafter
      rwa [← hstep, ← hstep'] at hrest

end Twins

/-- No number of requests moves a page. -/
theorem Sound.run_samePlace {s : Session} {inv : Inventory} (h : s.Sound inv)
    (ops : List Operation) : s.SamePlace (s.run ops) := by
  obtain ⟨_, -, hplace⟩ := h.run_keeps (fun _ t _ => s.SamePlace t) [] ops (.refl s)
    (fun _ _ _ _ _ _ hP hr => by
      cases hr with
      | earned => exact hP
      | full _ he => exact hP.trans (.of_frame rfl he))
    fun _ _ _ _ _ _ _ _ hP hg => hP.trans hg.samePlace
  exact hplace

end Session
end SystemPage
