/-
  SystemPage.Proofs.ProgramDecisions — which programs are accepted, and why the others are not.

  A new program names a payload and two lists of maps.  The payload is looked up first, then the
  maps for its instructions and then those for its data, name by name, so that what is told is the
  first name of all that is not known.  Behind the names comes the room in the page, which depends
  on how many names there are and not on what they stand for.

  The lists are parted at their semicolons and nowhere else.  A text with no semicolon is one name,
  also if it is empty.

  Main results:

      parted_fieldTexts    — what the parts of a text are
      mapM_eq_ok_iff_forall₂
                           — a list of names is found if each of them is
      insertProgram_of_unknownMap
                           — the first name that is not known is told
      insertProgram_decides
                           — what becomes of a new program, after any number of requests
-/
import Mathlib.Data.List.Forall2
import SystemPage.Proofs.ArgumentText
import SystemPage.Proofs.MapDecisions
import SystemPage.Proofs.Payloads

namespace SystemPage

open Memory SystemPage.Ring

/-! ## §1. Lists of names. -/

/-- The parts of a text between its separators. -/
structure Text.Parted (separator : Char) (text : String) (parts : List String) : Prop where
  joined : [separator].intercalate (parts.map String.toList) = text.toList
  whole : ∀ part ∈ parts, separator ∉ part.toList
  count : parts.length = text.toList.count separator + 1

theorem Text.parted_fieldTexts (separator : Char) (text : String) :
    Parted separator text (fieldTexts separator text) := by
  have htexts := toList_fieldTexts separator text
  refine ⟨?_, ?_, ?_⟩
  · rw [htexts]
    exact intercalate_fields separator text.toList
  · intro part hpart
    have hfield : part.toList ∈ fields separator text.toList := by
      rw [← htexts]
      exact List.mem_map_of_mem hpart
    exact separator_not_mem_fields separator text.toList part.toList hfield
  · unfold fieldTexts
    rw [List.length_map, length_fields]

/-- **A list of things is found if each of them is.** -/
theorem mapM_eq_ok_iff_forall₂ {α β : Type} {find : α → Except Fault β} {items : List α}
    {found : List β} :
    items.mapM find = .ok found ↔ List.Forall₂ (fun a b => find a = .ok b) items found := by
  induction items generalizing found with
  | nil =>
    rw [List.mapM_nil, List.forall₂_nil_left_iff]
    exact ⟨fun h => (Except.ok.inj h).symm, fun h => h ▸ rfl⟩
  | cons a rest ih =>
    rw [List.mapM_cons, Edit.found_bind_eq_ok_iff]
    constructor
    · rintro ⟨b, hb, hrest⟩
      obtain ⟨others, hothers, hfound⟩ := Edit.found_bind_eq_ok_iff.1 hrest
      cases hfound
      exact .cons hb (ih.1 hothers)
    · intro h
      cases h with
      | cons hb hothers =>
        refine ⟨_, hb, ?_⟩
        rw [ih.2 hothers]
        rfl

/-- Where things are looked up one after the other, the first one that is not found is told. -/
theorem mapM_of_isFirst {α β : Type} {P : α → Prop} {find : α → Except Fault β} {items : List α}
    {a : α} {fault : Fault} (h : IsFirst P items a)
    (hfound : ∀ b ∈ items, ¬ P b → ∃ c, find b = .ok c) (ha : find a = .error fault) :
    items.mapM find = .error fault := by
  obtain ⟨before, behind, rfl, -, hbefore⟩ := h
  induction before with
  | nil =>
    rw [List.nil_append, List.mapM_cons, ha]
    rfl
  | cons b rest ih =>
    obtain ⟨c, hc⟩ := hfound b (by simp) (hbefore b (by simp))
    have hrest := ih (fun d hd => hfound d (List.mem_cons_of_mem b hd))
      fun d hd => hbefore d (List.mem_cons_of_mem b hd)
    rw [List.cons_append, List.mapM_cons, hc, hrest]
    rfl

/-! ## §2. Names of maps. -/

/-- No map has the name. -/
def AddressMap.Unknown (maps : List AddressMap) (name : String) : Prop :=
  ∀ map ∈ maps, map.name ≠ name

theorem AddressMap.unknown_iff {maps : List AddressMap} {name : String} :
    Unknown maps name ↔ name ∉ maps.map AddressMap.name := by
  simp [Unknown]

namespace Session.Sound

variable {s : Session} {inv : Inventory} {maps : List AddressMap} {name : String}

/-- A name that no map has is not found, and the fault names it. -/
theorem mapId_of_unknown (h : s.Sound inv) (hmaps : s.maps = .ok maps)
    (hname : AddressMap.Unknown maps name) : s.mapId name = .error (.unknownMap name) := by
  rw [h.maps_eq, Except.ok.injEq] at hmaps
  have hnone : inv.maps.find? (fun e => e.title = name) = none := by
    apply List.find?_eq_none.2
    intro e he
    have hmap : e.map s.memory ∈ maps := hmaps ▸ List.mem_map_of_mem he
    have htitle : e.title ≠ name := hname _ hmap
    simpa using htitle
  rw [h.mapId_eq, Inventory.idOf?, hnone]
  rfl

/-- Any other name is. -/
theorem exists_mapId (h : s.Sound inv) (hmaps : s.maps = .ok maps)
    (hname : ¬ AddressMap.Unknown maps name) : ∃ id, s.mapId name = .ok id := by
  rw [h.maps_eq, Except.ok.injEq] at hmaps
  rw [h.mapId_eq, Inventory.idOf?]
  cases hfind : inv.maps.find? fun e => e.title = name with
  | some e => exact ⟨e.id, rfl⟩
  | none =>
    -- no map of the inventory has the name then, so that none that is read back has it
    refine absurd (fun map hmap => ?_) hname
    rw [← hmaps] at hmap
    obtain ⟨e, he, rfl⟩ := List.mem_map.1 hmap
    show e.title ≠ name
    simpa using List.find?_eq_none.1 hfind e he

theorem exists_mapM (h : s.Sound inv) (hmaps : s.maps = .ok maps) {names : List String}
    (hnames : ∀ name ∈ names, ¬ AddressMap.Unknown maps name) :
    ∃ ids, names.mapM s.mapId = .ok ids := by
  induction names with
  | nil => exact ⟨[], rfl⟩
  | cons name rest ih =>
    obtain ⟨id, hid⟩ := h.exists_mapId hmaps (hnames name List.mem_cons_self)
    obtain ⟨ids, hids⟩ := ih fun other hother => hnames other (List.mem_cons_of_mem name hother)
    refine ⟨id :: ids, ?_⟩
    rw [List.mapM_cons, hid, hids]
    rfl

end Session.Sound

/-! ## §3. New programs. -/

/-- What a new program asks for, its lists of maps parted into names. -/
structure ProgramRequest where
  payload : String
  instructionNames : List String
  dataNames : List String
  argv : String
  atOnce : Bool
  deriving DecidableEq, Repr

namespace ProgramRequest

/-- The names of maps, in the order in which they are looked up. -/
def names (r : ProgramRequest) : List String := r.instructionNames ++ r.dataNames

/-- How much of a page the program takes. -/
def room (r : ProgramRequest) : Nat :=
  40 + roundUp r.dataNames.length + roundUp r.instructionNames.length
    + roundUp ((Text.Utf8.bytes r.argv).length + 1 + if r.atOnce then 1 else 0)

/-- A payload of its name was accepted. -/
def Defined (defined : List Payload) (r : ProgramRequest) : Prop :=
  ∃ q ∈ defined, q.name = r.payload

/-- Every name it gives is the name of a map. -/
def Known (maps : List AddressMap) (r : ProgramRequest) : Prop :=
  ∀ name ∈ r.names, ¬ AddressMap.Unknown maps name

end ProgramRequest

namespace Session

/-- What a program that was added has become: it is the last one, with the newest payload of the
name, the argument text behind its mark, and the ids of the maps, name by name. -/
structure GivesProgram (s after : Session) (load : UInt32) (defined : List Payload)
    (r : ProgramRequest) (p : Program) : Prop where
  programs : ∃ programs, s.programs = .ok programs ∧ after.programs = .ok (programs ++ [p])
  -- the payload as the session knows it, and as it was named last
  found : ∃ found, s.alias? r.payload = .ok found ∧ p.start = found.address ∧ p.stop = found.stop
  newest : ∃ q, Payload.Newest defined q ∧ q.name = r.payload
    ∧ p.start.toNat = q.place.toNat + load.toNat ∧ p.stop.toNat = p.start.toNat + q.size.toNat
  argv : p.argv = (if r.atOnce then [0x58] else []) ++ Text.Utf8.bytes r.argv
  -- as many ids as names, each of them the id of its name
  instructionMaps :
    List.Forall₂ (fun name id => s.mapId name = .ok id) r.instructionNames p.instructionMaps
  dataMaps : List.Forall₂ (fun name id => s.mapId name = .ok id) r.dataNames p.dataMaps
  maps : after.maps = s.maps
  imageSize : after.header.imageSize = s.header.imageSize

/-- What becomes of a new program beside the payloads and the maps of a session. -/
structure DecidesProgram (s : Session) (load : UInt32) (defined : List Payload)
    (maps : List AddressMap) (r : ProgramRequest) (edit : Edit Session Program) : Prop where
  -- the payload comes before the maps, also where neither is known
  unknownAlias : Edit.Fails edit s .aliasNotFound ↔ ¬ r.Defined defined
  unknownMap : Edit.Fails edit s .mapNotFound ↔ r.Defined defined ∧ ¬ r.Known maps
  told : r.Defined defined → ∀ name, IsFirst (AddressMap.Unknown maps) r.names name →
    edit s = .error (.unknownMap name) s
  -- room is asked for when all names are known
  noRoom : Edit.Fails edit s .allocationFailed
    ↔ r.Defined defined ∧ r.Known maps ∧ s.memory.capacity ≤ s.memory.size + r.room
  added : r.Defined defined → r.Known maps → s.memory.size + r.room < s.memory.capacity →
    ∃ p after, edit s = .ok p after ∧ s.GivesProgram after load defined r p

/-- The four outcomes exclude each other, so that what leads to one of them is all that does. -/
theorem DecidesProgram.of_outcomes {s : Session} {load : UInt32} {defined : List Payload}
    {maps : List AddressMap} {r : ProgramRequest} {edit : Edit Session Program}
    (hunknown : ¬ r.Defined defined → edit s = .error (.unknownAlias r.payload) s)
    (htold : r.Defined defined → ∀ name, IsFirst (AddressMap.Unknown maps) r.names name →
      edit s = .error (.unknownMap name) s)
    (hfull : r.Defined defined → r.Known maps → s.memory.capacity ≤ s.memory.size + r.room →
      Edit.Fails edit s .allocationFailed)
    (hgives : r.Defined defined → r.Known maps → s.memory.size + r.room < s.memory.capacity →
      ∃ p after, edit s = .ok p after ∧ s.GivesProgram after load defined r p) :
    s.DecidesProgram load defined maps r edit := by
  by_cases hdefined : r.Defined defined
  case neg =>
    have hfails : ∀ kind, Edit.Fails edit s kind ↔ FaultKind.aliasNotFound = kind := fun kind =>
      Edit.fails_iff_of_error (hunknown hdefined)
    refine ⟨?_, ?_, htold, ?_, hgives⟩
    · exact iff_of_true ((hfails _).2 rfl) hdefined
    · exact iff_of_false (by simp [hfails]) fun hboth => hdefined hboth.1
    · exact iff_of_false (by simp [hfails]) fun hall => hdefined hall.1
  by_cases hknown : r.Known maps
  case neg =>
    obtain ⟨other, hother, hnone⟩ : ∃ name ∈ r.names, AddressMap.Unknown maps name := by
      simpa [ProgramRequest.Known] using hknown
    obtain ⟨name, hfirst⟩ := exists_isFirst hother hnone
    have hfails : ∀ kind, Edit.Fails edit s kind ↔ FaultKind.mapNotFound = kind := fun kind =>
      Edit.fails_iff_of_error (htold hdefined name hfirst)
    refine ⟨?_, ?_, htold, ?_, hgives⟩
    · exact iff_of_false (by simp [hfails]) (not_not_intro hdefined)
    · exact iff_of_true ((hfails _).2 rfl) ⟨hdefined, hknown⟩
    · exact iff_of_false (by simp [hfails]) fun hall => hknown hall.2.1
  by_cases hroom : s.memory.capacity ≤ s.memory.size + r.room
  · obtain ⟨fault, after, hrun, hkind⟩ := hfull hdefined hknown hroom
    have hfails : ∀ kind, Edit.Fails edit s kind ↔ FaultKind.allocationFailed = kind := by
      intro kind
      rw [Edit.fails_iff_of_error hrun, hkind]
    refine ⟨?_, ?_, htold, ?_, hgives⟩
    · exact iff_of_false (by simp [hfails]) (not_not_intro hdefined)
    · exact iff_of_false (by simp [hfails]) fun hboth => hboth.2 hknown
    · exact iff_of_true ((hfails _).2 rfl) ⟨hdefined, hknown, hroom⟩
  · obtain ⟨p, after, hrun, -⟩ := hgives hdefined hknown (Nat.lt_of_not_le hroom)
    have hfails := Edit.not_fails_of_ok hrun
    refine ⟨?_, ?_, htold, ?_, hgives⟩
    · exact iff_of_false (hfails _) (not_not_intro hdefined)
    · exact iff_of_false (hfails _) fun hboth => hboth.2 hknown
    · exact iff_of_false (hfails _) fun hall => hroom hall.2.2

variable {s : Session} {inv : Inventory} {load : UInt32} {defined : List Payload}
  {maps : List AddressMap} {payload instructionMaps dataMaps argv : String} {atOnce : Bool}

/-- What is asked for with these texts. -/
def programRequest (payload instructionMaps dataMaps argv : String) (atOnce : Bool) :
    ProgramRequest :=
  ⟨payload, Text.fieldTexts ';' instructionMaps, Text.fieldTexts ';' dataMaps, argv, atOnce⟩

theorem Lists.alias?_of_unknown (h : s.Lists load defined)
    (hname : ∀ q ∈ defined, q.name ≠ payload) :
    s.alias? payload = .error (.unknownAlias payload) := by
  have hnone : defined.reverse.find? (·.name = payload) = none := by simpa using hname
  rw [alias?, h.find?_eq, hnone]
  rfl

theorem Lists.exists_alias? (h : s.Lists load defined) (hname : ∃ q ∈ defined, q.name = payload) :
    ∃ q found, Payload.Newest defined q ∧ q.name = payload ∧ s.alias? payload = .ok found
      ∧ found.address.toNat = q.place.toNat + load.toNat
      ∧ found.stop.toNat = found.address.toNat + q.size.toNat := by
  obtain ⟨p, hp, rfl⟩ := hname
  obtain ⟨q, hnewest, hsame⟩ := Payload.exists_newest hp
  obtain ⟨found, hfound, -, -, haddress, hstop⟩ := h.knows.newest q hnewest
  rw [hsame] at hfound
  exact ⟨q, found, hnewest, hsame, hfound, haddress, hstop⟩

namespace Sound

/-- **The first name that is not known is told.** -/
theorem insertProgram_of_unknownMap (h : s.Sound inv) (hl : s.Lists load defined)
    (hmaps : s.maps = .ok maps) (hpayload : ∃ q ∈ defined, q.name = payload) {name : String}
    (hfirst : IsFirst (AddressMap.Unknown maps)
      (programRequest payload instructionMaps dataMaps argv atOnce).names name) :
    insertProgram payload instructionMaps dataMaps argv atOnce s
      = .error (.unknownMap name) s := by
  obtain ⟨_, found, -, -, hfound, -⟩ := hl.exists_alias? hpayload
  obtain ⟨before, behind, -, hunknown, -⟩ := id hfirst
  have hall : (Text.fieldTexts ';' instructionMaps ++ Text.fieldTexts ';' dataMaps).mapM s.mapId
      = .error (.unknownMap name) :=
    mapM_of_isFirst hfirst (fun _ _ hknown => h.exists_mapId hmaps hknown)
      (h.mapId_of_unknown hmaps hunknown)
  -- both lists are looked up as if they were one
  rw [List.mapM_append] at hall
  apply insertProgram_of_error
  unfold planProgram mapIds
  rw [hfound]
  cases hfirstList : (Text.fieldTexts ';' instructionMaps).mapM s.mapId with
  | error fault =>
    rw [hfirstList] at hall
    cases hall
    rfl
  | ok instructions =>
    cases hsecondList : (Text.fieldTexts ';' dataMaps).mapM s.mapId with
    | error fault =>
      rw [hfirstList, hsecondList] at hall
      cases hall
      rfl
    | ok data =>
      rw [hfirstList, hsecondList] at hall
      cases hall

/-- Where all names are known, the program is planned, and the plan takes the room that the request
says. -/
theorem exists_plan (h : s.Sound inv) (hl : s.Lists load defined) (hmaps : s.maps = .ok maps)
    (hpayload : ∃ q ∈ defined, q.name = payload)
    (hnames : ∀ name ∈ (programRequest payload instructionMaps dataMaps argv atOnce).names,
      ¬ AddressMap.Unknown maps name) :
    ∃ plan, s.planProgram payload instructionMaps dataMaps argv atOnce = .ok plan
      ∧ s.alias? payload = .ok plan.payload
      ∧ s.mapIds instructionMaps = .ok plan.instructionMaps
      ∧ s.mapIds dataMaps = .ok plan.dataMaps
      ∧ plan.argv = Program.markedArgv argv atOnce
      ∧ (plan.blockSizes.map roundUp).sum
        = (programRequest payload instructionMaps dataMaps argv atOnce).room := by
  obtain ⟨_, found, -, -, hfound, -⟩ := hl.exists_alias? hpayload
  obtain ⟨instructions, hinstructions⟩ : ∃ ids, s.mapIds instructionMaps = .ok ids :=
    h.exists_mapM hmaps fun name hname => hnames name (List.mem_append_left _ hname)
  obtain ⟨data, hdata⟩ : ∃ ids, s.mapIds dataMaps = .ok ids :=
    h.exists_mapM hmaps fun name hname => hnames name (List.mem_append_right _ hname)
  refine ⟨⟨found, instructions, data, Program.markedArgv argv atOnce⟩, ?_, hfound, hinstructions,
    hdata, rfl, ?_⟩
  · unfold planProgram
    rw [hfound, hinstructions, hdata]
    rfl
  · have hlength := Program.length_markedArgv argv atOnce
    rw [Program.Plan.sum_blockSizes]
    show 40 + roundUp data.length + roundUp instructions.length
        + roundUp ((Program.markedArgv argv atOnce).length + 1)
      = 40 + roundUp (Text.fieldTexts ';' dataMaps).length
        + roundUp (Text.fieldTexts ';' instructionMaps).length
        + roundUp ((Text.Utf8.bytes argv).length + 1 + if atOnce then 1 else 0)
    rw [(mapM_eq_ok_iff_forall₂.1 hinstructions).length_eq,
      (mapM_eq_ok_iff_forall₂.1 hdata).length_eq, hlength,
      Nat.add_right_comm (Text.Utf8.bytes argv).length]

/-- **A program of which all is known is the last one then, if the page has room for it.** -/
theorem insertProgram_gives (h : s.Sound inv) (hl : s.Lists load defined)
    (hmaps : s.maps = .ok maps) (hargv : 0 ∉ Text.Utf8.bytes argv)
    (hpayload : ∃ q ∈ defined, q.name = payload)
    (hnames : (programRequest payload instructionMaps dataMaps argv atOnce).Known maps)
    (hroom : s.memory.size + (programRequest payload instructionMaps dataMaps argv atOnce).room
      < s.memory.capacity) :
    ∃ p after, insertProgram payload instructionMaps dataMaps argv atOnce s = .ok p after
      ∧ s.GivesProgram after load defined
        (programRequest payload instructionMaps dataMaps argv atOnce) p := by
  obtain ⟨plan, hplan, hfound, hinstructions, hdata, hmarked, hsum⟩ :=
    h.exists_plan hl hmaps hpayload hnames
  obtain ⟨fault, hfault, -⟩ | ⟨planned, hplanned, -, hfirst, hsecond, -⟩ :=
    h.planProgram_cases payload instructionMaps dataMaps argv atOnce
  · rw [hplan] at hfault
    cases hfault
  rw [hplan] at hplanned
  cases hplanned
  obtain ⟨memory, head, hinsert, -, hframe, hsound⟩ :=
    h.insertProgram_of_lt hplan hfirst hsecond (by omega)
  obtain ⟨programs, _, hprograms, hafter, -⟩ := h.insertProgram_appends hinsert hargv
  obtain ⟨q, found, hnewest, hname, hfound', haddress, hstop⟩ := hl.exists_alias? hpayload
  rw [hfound] at hfound'
  cases hfound'
  have hsame : { s with memory := memory, programHead := head }.maps = s.maps := by
    rw [hsound.maps_eq, h.maps_eq, funext (MapEntry.map_of_base hframe.base)]
  refine ⟨_, _, hinsert, ⟨programs, hprograms, hafter⟩, ⟨plan.payload, hfound, rfl, rfl⟩,
    ⟨q, hnewest, hname, haddress, hstop⟩, hmarked, ?_, ?_, hsame, rfl⟩
  · exact mapM_eq_ok_iff_forall₂.1 hinstructions
  · exact mapM_eq_ok_iff_forall₂.1 hdata

/-- Without room it is refused. -/
theorem insertProgram_of_full (h : s.Sound inv) (hl : s.Lists load defined)
    (hmaps : s.maps = .ok maps) (hpayload : ∃ q ∈ defined, q.name = payload)
    (hnames : (programRequest payload instructionMaps dataMaps argv atOnce).Known maps)
    (hfull : s.memory.capacity
      ≤ s.memory.size + (programRequest payload instructionMaps dataMaps argv atOnce).room) :
    ∃ fault after, insertProgram payload instructionMaps dataMaps argv atOnce s
      = .error fault after ∧ fault.kind = .allocationFailed := by
  obtain ⟨plan, hplan, -, -, -, -, hsum⟩ := h.exists_plan hl hmaps hpayload hnames
  obtain ⟨fault, memory, hinsert, hkind, -⟩ := h.insertProgram_of_le hplan (by omega)
  exact ⟨fault, _, hinsert, hkind⟩

theorem decidesProgram (h : s.Sound inv) (hl : s.Lists load defined) (hmaps : s.maps = .ok maps)
    (hargv : 0 ∉ Text.Utf8.bytes argv) :
    s.DecidesProgram load defined maps
      (programRequest payload instructionMaps dataMaps argv atOnce)
      (insertProgram payload instructionMaps dataMaps argv atOnce) := by
  refine .of_outcomes ?_ ?_ ?_ ?_
  · intro hpayload
    have halias : s.alias? payload = .error (.unknownAlias payload) :=
      hl.alias?_of_unknown fun q hq hname => hpayload ⟨q, hq, hname⟩
    apply insertProgram_of_error
    unfold planProgram
    rw [halias]
    rfl
  · intro hpayload name hfirst
    exact h.insertProgram_of_unknownMap hl hmaps hpayload hfirst
  · intro hpayload hnames hfull
    exact h.insertProgram_of_full hl hmaps hpayload hnames hfull
  · intro hpayload hnames hroom
    exact h.insertProgram_gives hl hmaps hargv hpayload hnames hroom

end Sound

/-- **What becomes of a new program, after any number of requests.**  A payload that was never
accepted is told first, and then the first name of a map that is not known, those for its
instructions before those for its data.  If all is known the page may lack the room.  Otherwise the
program is the last one from then on, with what the newest payload and the maps stand for, and
neither the maps nor the size of the image change.  The lists of maps are parted at every
semicolon. -/
theorem insertProgram_decides {place : Placement} {order : ByteOrder} {start : Session}
    (h : Session.create place order = .ok start) (ops : List Operation) :
    (∀ text, Text.Parted ';' text (Text.fieldTexts ';' text))
      ∧ ∃ maps, (start.run ops).maps = .ok maps
        ∧ ∀ payload instructionMaps dataMaps argv atOnce, 0 ∉ Text.Utf8.bytes argv →
          (start.run ops).DecidesProgram place.load (payloadsOf (start.accepted ops)) maps
            (programRequest payload instructionMaps dataMaps argv atOnce)
            (insertProgram payload instructionMaps dataMaps argv atOnce) := by
  obtain ⟨inv, hs, hlists⟩ := (create_sound h).run_keeps
    (fun done t _ => t.Lists place.load (payloadsOf done)) [] ops (create_lists h)
    (fun _ _ _ _ _ _ hP hr => hr.lists hP)
    fun done t _ op after _ _ _ hP hg => by
      rw [payloadsOf_append]
      exact hg.lists hP
  refine ⟨Text.parted_fieldTexts ';', _, hs.maps_eq, ?_⟩
  intro payload instructionMaps dataMaps argv atOnce hargv
  exact hs.decidesProgram hlists hs.maps_eq hargv

/-- A list with a name twice in it, and one with an empty name between two semicolons. -/
theorem insertProgram_decides_lists :
    ∃ start ops, Session.create ⟨0x80000000, 0x100, 0x400⟩ .little = .ok start
      ∧ ops = [.command (.map "ddr" 0x100 0x200 3), .command (.map "tcm" 0x200 0x300 3),
        .command (.payload "psh" 0x4000 0x1000), .command (.payload "psh" 0x8000 0x200)]
      ∧ (∃ p after, insertProgram "psh" "ddr;tcm;ddr" "tcm" "psh" true (start.run ops) = .ok p after
        ∧ p.instructionMaps.length = 3 ∧ p.start.toNat = 0x80008000)
      ∧ insertProgram "psh" "ddr;;tcm" "boot" "psh" true (start.run ops)
        = .error (.unknownMap "") (start.run ops) := by
  have hstart : Session.create ⟨0x80000000, 0x100, 0x400⟩ .little
      = .ok ⟨⟨0x80000100, 0x400, .little, 24, .blank⟩, 0x80000000, 0, 0, 0, 0, []⟩ := rfl
  refine ⟨_, _, hstart, rfl, ?_⟩
  obtain ⟨-, maps, hmaps, hdecides⟩ := insertProgram_decides hstart
    [.command (.map "ddr" 0x100 0x200 3), .command (.map "tcm" 0x200 0x300 3),
      .command (.payload "psh" 0x4000 0x1000), .command (.payload "psh" 0x8000 0x200)]
  generalize hs : Session.run _ _ = s at hmaps hdecides ⊢
  generalize hdefined : payloadsOf _ = defined at hdecides
  have hlisted : defined = [⟨"psh", 0x4000, 0x1000⟩, ⟨"psh", 0x8000, 0x200⟩] := by
    subst hdefined
    decide +kernel
  have hnamed : maps.map AddressMap.name = ["ddr", "tcm"] := by
    have hread : s.maps.map (·.map AddressMap.name) = .ok ["ddr", "tcm"] := by
      subst hs
      decide +kernel
    rw [hmaps] at hread
    exact Except.ok.inj hread
  have hsize : s.memory.size + 64 < s.memory.capacity := by
    subst hs
    decide +kernel
  have hpayload : ∃ q ∈ defined, q.name = "psh" := by
    rw [hlisted]
    exact ⟨_, List.mem_cons_self, rfl⟩
  constructor
  · obtain ⟨p, after, hinsert, hgives⟩ :=
      (hdecides "psh" "ddr;tcm;ddr" "tcm" "psh" true (by decide)).added hpayload
        (by simp only [ProgramRequest.Known, AddressMap.unknown_iff, hnamed]; decide) hsize
    refine ⟨p, after, hinsert, hgives.instructionMaps.length_eq.symm, ?_⟩
    obtain ⟨q, hnewest, hname, hstart, -⟩ := hgives.newest
    have hfind := hnewest.find?_eq
    rw [hlisted, show q.name = "psh" from hname] at hfind
    have hq : (⟨"psh", 0x8000, 0x200⟩ : Payload) = q := Option.some.inj hfind
    rw [hstart, ← hq]
    rfl
  · apply (hdecides "psh" "ddr;;tcm" "boot" "psh" true (by decide)).told hpayload
    refine ⟨["ddr"], ["tcm", "boot"], by decide, ?_, ?_⟩
    · rw [AddressMap.unknown_iff, hnamed]
      decide
    · simp only [AddressMap.unknown_iff, hnamed]
      decide

end Session
end SystemPage
