/-
  SystemPage.Proofs.Naming — what the names in a line refer to.

  Lines name payloads and maps, and later lines refer to them.  A name means the same in both places
  if the line that refers to it takes the whole word for the name: the argument text of a program
  names its payload up to the first semicolon, a list of maps is parted at its semicolons, and a
  word that begins with a hyphen stands for a flag.

  Main results:

      feed_of_performScripts
                       — scripts that finish leave what their lines leave
      feed_eq_run      — lines do to a session what the requests in them do
      Granted.named    — names of maps that were accepted are in the inventory
      performLine_adds — what a line that adds a program refers to
      names_keep_meaning
                       — names of one piece keep their meaning
      names_lose_meaning
                       — a name with a semicolon in it does not
-/
import Mathlib.Data.List.Nodup
import SystemPage.Proofs.AppendOnly
import SystemPage.Proofs.ArgumentText
import SystemPage.Proofs.Commuting
import SystemPage.Proofs.Payloads
import SystemPage.Proofs.Spelling

namespace SystemPage

/-! ## §1. Lines in sequence. -/

namespace Script

/-- What a line asks of a session, if it can be read. -/
def request? (line : String) : Option Operation :=
  match lineCommand line.toList with
  | .ok c => some (.command c)
  | .error _ => none

/-- What lines ask of a session. -/
def requests (lines : List String) : List Operation := lines.filterMap request?

/-- The session after lines, whether they were accepted or not. -/
def feed (s : Session) (lines : List String) : Session :=
  lines.foldl (fun t line => (Edit.outcome (performLine line) t).2) s

/-- Lines of which one has the given words and is accepted where it comes up. -/
def Accepts (s : Session) (lines : List String) (found : List String) : Prop :=
  ∃ before line behind, lines = before ++ line :: behind ∧ words line = .ok found
    ∧ (Edit.outcome (performLine line) (feed s before)).1 = .ok ()

theorem lineCommand_of_words {line name : String} {rest : List String}
    (h : words line = .ok (name :: rest)) :
    lineCommand line.toList = Command.ofWords name rest := by
  unfold lineCommand
  rw [String.ofList_toList, h]
  rfl

/-- A script that finishes leaves what its lines leave. -/
theorem feed_of_perform {path source : String} {s after : Session}
    (h : perform path source s = .ok () after) :
    feed s ((lines source.toList).map String.ofList) = after := by
  have hperformed := performLines_eq_ok_iff.1 h
  clear h
  generalize lines source.toList = found at hperformed
  induction hperformed with
  | nil => rfl
  | @cons line rest found s middle after hwords hline hrest ih =>
    have hmiddle : (Edit.outcome (performLine (String.ofList line)) s).2 = middle := by
      rw [Edit.outcome, performLine_of_words hwords, hline]
    show feed (Edit.outcome (performLine (String.ofList line)) s).2 (rest.map String.ofList) = after
    rw [hmiddle]
    exact ih

/-- **Scripts that finish leave what their lines leave.** -/
theorem feed_of_performScripts {scripts : List (String × String)} {s after : Session}
    (h : performScripts scripts s = .ok () after) :
    feed s (scripts.flatMap fun script => (lines script.2.toList).map String.ofList) = after := by
  induction scripts generalizing s with
  | nil =>
    cases h
    rfl
  | cons script rest ih =>
    obtain ⟨middle, hfirst, hrest⟩ := Edit.then_eq_ok_iff.1 h
    rw [List.flatMap_cons, feed, List.foldl_append]
    show feed (feed s _) _ = after
    rw [feed_of_perform hfirst]
    exact ih hrest

/-- A line that cannot be read is refused, and any other line does what it asks for. -/
theorem performLine_cases (line : String) :
    (∃ fault, lineCommand line.toList = .error fault ∧ ∀ s, performLine line s = .error fault s)
      ∨ ∃ c, lineCommand line.toList = .ok c ∧ performLine line = c.perform := by
  have hline : String.ofList line.toList = line := String.ofList_toList
  cases hc : lineCommand line.toList with
  | error fault => exact .inl ⟨fault, rfl, fun s => hline ▸ performLine_of_error hc s⟩
  | ok c => exact .inr ⟨c, rfl, hline ▸ performLine_of_ok hc⟩

/-- **Lines do to a session what the requests in them do.** -/
theorem feed_eq_run (s : Session) (lines : List String) :
    feed s lines = s.run (requests lines) := by
  induction lines generalizing s with
  | nil => rfl
  | cons line rest ih =>
    show feed (Edit.outcome (performLine line) s).2 rest = _
    obtain ⟨fault, hc, hperform⟩ | ⟨c, hc, hperform⟩ := performLine_cases line
    · have hrequests : requests (line :: rest) = requests rest := by
        simp [requests, request?, hc]
      rw [Edit.outcome, hperform, hrequests]
      exact ih s
    · have hrequests : requests (line :: rest) = .command c :: requests rest := by
        simp [requests, request?, hc]
      rw [hperform, hrequests]
      exact ih (s.after (.command c))

end Script

/-- Of requests in two parts those are accepted that are accepted in their part. -/
theorem Session.accepted_append (s : Session) (first second : List Operation) :
    s.accepted (first ++ second) = s.accepted first ++ (s.run first).accepted second := by
  induction first generalizing s with
  | nil => rfl
  | cons op rest ih =>
    rw [List.cons_append, accepted, accepted, ih (s.after op)]
    split
    · rfl
    · rfl

namespace Script

/-- What an accepted line asks for is among the requests that are accepted. -/
theorem Accepts.mem_accepted {s : Session} {lines : List String} {name : String}
    {rest : List String} (h : Accepts s lines (name :: rest)) :
    ∃ c, Command.ofWords name rest = .ok c ∧ .command c ∈ s.accepted (requests lines) := by
  obtain ⟨before, line, behind, rfl, hwords, haccepted⟩ := h
  have hread := lineCommand_of_words hwords
  obtain ⟨fault, -, hperform⟩ | ⟨c, hc, hperform⟩ := performLine_cases line
  · rw [Edit.outcome, hperform] at haccepted
    cases haccepted
  have hrequests : requests (before ++ line :: behind)
      = requests before ++ .command c :: requests behind := by
    simp [requests, request?, hc]
  rw [hperform, feed_eq_run] at haccepted
  have hgrants : (s.run (requests before)).grants (.command c) = true :=
    Session.grants_eq_true_iff.2 (Edit.outcome_eq_ok_iff.1 haccepted)
  refine ⟨c, hread ▸ hc, ?_⟩
  rw [hrequests, Session.accepted_append, Session.accepted, if_pos hgrants]
  simp

/-- No text that lines ask for has a zero byte. -/
theorem requests_plain {lines : List String} {op : Operation} (h : op ∈ requests lines) :
    ∀ name ∈ op.mapName?, 0 ∉ Text.Utf8.bytes name := by
  obtain ⟨line, -, hline⟩ := List.mem_filterMap.1 h
  unfold request? at hline
  split at hline
  · next c hc =>
    cases hline
    intro name hname
    apply lineCommand_plain hc
    cases c with
    | map => simpa [Operation.mapName?, Command.texts, eq_comm] using hname
    | payload | program | console | foreign => cases hname
  · cases hline

end Script

/-! ## §2. What sessions know by name. -/

namespace Session

variable {s after : Session} {inv more : Inventory} {load : UInt32} {done : List Operation}

/-- A session that knows what was accepted by its name. -/
structure Named (load : UInt32) (done : List Operation) (s : Session) (inv : Inventory) : Prop where
  payloads : s.Lists load (payloadsOf done)
  maps : ∀ op ∈ done, ∀ name ∈ op.mapName?, ∃ e ∈ inv.maps, e.name = name
  plain : ∀ e ∈ inv.maps, 0 ∉ Text.Utf8.bytes e.name

/-- **Names of maps that were accepted are in the inventory.** -/
theorem Granted.named {op : Operation} (hg : s.Granted inv op after more)
    (hop : ∀ name ∈ op.mapName?, 0 ∉ Text.Utf8.bytes name) (h : s.Named load done inv) :
    after.Named load (done ++ [op]) more where
  payloads := by
    rw [payloadsOf_append]
    exact hg.lists h.payloads
  maps := by
    intro op' hop' name hname
    rcases List.mem_append.1 hop' with hold | hnew
    · obtain ⟨e, he, rfl⟩ := h.maps op' hold name hname
      obtain ⟨maps, -, hmaps, -⟩ := hg.grows
      exact ⟨e, by rw [hmaps]; exact List.mem_append_left _ he, rfl⟩
    · rw [List.mem_singleton.1 hnew] at hname
      cases hg with
      | map e =>
        cases hname
        exact ⟨e, by simp, rfl⟩
      | payload | program | console | foreign | complete => cases hname
  plain := hg.names hop h.plain

theorem Refused.named {fault : Fault} (hr : s.Refused fault after) (h : s.Named load done inv) :
    after.Named load done inv :=
  ⟨hr.lists h.payloads, h.maps, h.plain⟩

/-- A session that lines have built knows what it accepted by its name. -/
theorem feed_named {place : Placement} {order : ByteOrder} {start : Session}
    (h : Session.create place order = .ok start) (lines : List String) :
    ∃ inv, (Script.feed start lines).Sound inv
      ∧ (Script.feed start lines).Named place.load (start.accepted (Script.requests lines))
        inv := by
  rw [Script.feed_eq_run]
  exact (create_sound h).run_keeps (Named place.load) [] (Script.requests lines)
    ⟨create_lists h, by simp, by simp⟩ (fun _ _ _ _ _ _ hP hr => hr.named hP)
    fun _ _ _ _ _ _ hop _ hP hg => hg.named (Script.requests_plain hop) hP

/-- A map that was accepted is the only one of its name, and is found by it. -/
theorem Sound.exists_map (hs : s.Sound inv) (h : s.Named load done inv) {name : String}
    {start stop access : UInt32} (hop : .command (.map name start stop access) ∈ done) :
    ∃ maps m, s.maps = .ok maps ∧ m ∈ maps ∧ m.name = name
      ∧ (∀ other ∈ maps, other.name = name → other = m) ∧ s.mapId name = .ok m.id := by
  obtain ⟨e, he, hname⟩ := h.maps _ hop name rfl
  have htitle : e.title = name := (MapEntry.title_eq (h.plain e he)).trans hname
  obtain ⟨found, hfound⟩ : ∃ found, inv.maps.find? (fun e => e.title = name) = some found :=
    Option.isSome_iff_exists.1 (List.find?_isSome.2 ⟨e, he, by simpa using htitle⟩)
  have hmem : found.map s.memory ∈ inv.maps.map (MapEntry.map s.memory) :=
    List.mem_map_of_mem (List.mem_of_find?_eq_some hfound)
  have hsame : found.title = name := by simpa using List.find?_some hfound
  have hnodup := (hs.registered h.plain).named
  refine ⟨_, found.map s.memory, hs.maps_eq, hmem, hsame, ?_, ?_⟩
  · intro other hother hname
    exact List.inj_on_of_nodup_map hnodup hother hmem (hname.trans hsame.symm)
  · rw [hs.mapId_eq, Inventory.idOf?, hfound]
    rfl

end Session

/-! ## §3. Lines that add programs. -/

/-- A list of maps has one id more than it has semicolons. -/
theorem Session.Sound.length_mapIds {s : Session} {inv : Inventory} (hs : s.Sound inv)
    {names : String} {ids : List UInt8} (h : s.mapIds names = .ok ids) :
    ids.length = names.toList.count ';' + 1 := by
  obtain ⟨fault, hfault, -⟩ | ⟨found, hfound, hids⟩ := hs.mapIds_cases names
  · rw [h] at hfault
    cases hfault
  · rw [h] at hfound
    cases hfound
    rw [length_of_mapM hids, Text.fieldTexts, List.length_map, Text.length_fields]

/-- A program that was added with an argument text, and with a list of maps for its instructions and
its data.  The text names the payload up to its first semicolon, and the list is parted at each of
its semicolons. -/
structure Session.Adds (s after : Session) (argv mapNames : String) (p : Program) : Prop where
  last : ∃ programs, s.programs = .ok programs ∧ after.programs = .ok (programs ++ [p])
  payload : ∃ found, s.alias? (String.ofList (Text.cut ';' argv.toList).1) = .ok found
    ∧ p.start = found.address
  instructionMaps : s.mapIds mapNames = .ok p.instructionMaps
  dataMaps : s.mapIds mapNames = .ok p.dataMaps
  count : p.instructionMaps.length = mapNames.toList.count ';' + 1

namespace Script

variable {s after : Session} {inv : Inventory} {line name mapName : String}

/-- The line of a program whose payload and maps are each given by one word. -/
theorem lineCommand_app (h : words line = .ok ["app", name, mapName, mapName])
    (hflag : mapName.toList.head? ≠ some '-') :
    lineCommand line.toList = .ok (programCommand name mapName mapName false) := by
  have hlooks : looksLikeFlag mapName = false := by simpa [looksLikeFlag] using hflag
  rw [lineCommand_of_words h]
  show programOfWords [name, mapName, mapName] = _
  rw [programOfWords, hlooks]
  rfl

/-- A list of maps that looks like a flag is refused. -/
theorem lineCommand_app_flag (h : words line = .ok ["app", name, mapName, mapName])
    (hflag : mapName.toList.head? = some '-') :
    ∃ fault, lineCommand line.toList = .error fault := by
  have hlooks : looksLikeFlag mapName = true := by simpa [looksLikeFlag] using hflag
  rw [lineCommand_of_words h]
  show ∃ fault, programOfWords [name, mapName, mapName] = .error fault
  rw [programOfWords, hlooks]
  show ∃ fault, (if isStartFlag mapName = true then Except.error _ else .error _) = .error fault
  split
  · exact ⟨_, rfl⟩
  · exact ⟨_, rfl⟩

/-- **What a line that adds a program refers to.** -/
theorem performLine_adds (hs : s.Sound inv) (h : words line = .ok ["app", name, mapName, mapName])
    (hperform : performLine line s = .ok () after) :
    mapName.toList.head? ≠ some '-' ∧ ∃ p, s.Adds after name mapName p := by
  obtain ⟨fault, -, hrefused⟩ | ⟨c, hcommand, hrun⟩ := performLine_cases line
  · rw [hrefused] at hperform
    cases hperform
  have hflag : mapName.toList.head? ≠ some '-' := by
    intro hflag
    obtain ⟨fault, hfault⟩ := lineCommand_app_flag h hflag
    rw [hcommand] at hfault
    cases hfault
  obtain rfl : c = programCommand name mapName mapName false :=
    Except.ok.inj (hcommand.symm.trans (lineCommand_app h hflag))
  rw [hrun] at hperform
  obtain ⟨p, _, hinsert, hdone⟩ := Edit.bind_eq_ok_iff.1 hperform
  cases hdone
  have hplain := lineCommand_plain hcommand name (by simp [programCommand, Command.texts])
  obtain ⟨programs, found, hprograms, hafter, hfound, hstart, hinstructions, hdata, -⟩ :=
    hs.insertProgram_appends hinsert hplain
  exact ⟨hflag, p, ⟨programs, hprograms, hafter⟩, ⟨found, hfound, hstart⟩, hinstructions, hdata,
    hs.length_mapIds hinstructions⟩

/-- A line that adds a program is accepted if all that it refers to is known and the page has room
for it. -/
theorem performLine_app (hs : s.Sound inv) (h : words line = .ok ["app", name, mapName, mapName])
    (hflag : mapName.toList.head? ≠ some '-') {found : Alias} {id : UInt8}
    (hfound : s.alias? (String.ofList (Text.cut ';' name.toList).1) = .ok found)
    (hids : s.mapIds mapName = .ok [id])
    (hroom : s.memory.size + 56 + roundUp ((Text.Utf8.bytes name).length + 1) < s.memory.capacity) :
    ∃ after, performLine line s = .ok () after := by
  have hplan : s.planProgram (String.ofList (Text.cut ';' name.toList).1) mapName mapName name false
      = .ok ⟨found, [id], [id], Program.markedArgv name false⟩ := by
    unfold Session.planProgram
    rw [hfound, hids]
    rfl
  obtain ⟨fault, hfault, -⟩ | ⟨plan, hplan', -, hinstructions, hdata, -⟩ :=
    hs.planProgram_cases (String.ofList (Text.cut ';' name.toList).1) mapName mapName name false
  · rw [hplan] at hfault
    cases hfault
  rw [hplan] at hplan'
  cases hplan'
  have hsum : ((Program.Plan.blockSizes ⟨found, [id], [id], Program.markedArgv name false⟩).map
      roundUp).sum = 56 + roundUp ((Text.Utf8.bytes name).length + 1) := by
    have hone : roundUp 1 = 8 := rfl
    rw [Program.Plan.sum_blockSizes]
    show 40 + roundUp 1 + roundUp 1 + roundUp ((Text.Utf8.bytes name).length + 1) = _
    omega
  obtain ⟨memory, head, hinsert, -⟩ :=
    hs.insertProgram_of_lt hplan hinstructions hdata (by omega)
  have hcommand := lineCommand_app h hflag
  obtain ⟨fault, hfault, -⟩ | ⟨c, hc, hrun⟩ := performLine_cases line
  · rw [hcommand] at hfault
    cases hfault
  · obtain rfl := Except.ok.inj (hc.symm.trans hcommand)
    rw [hrun]
    exact ⟨_, Edit.bind_of_ok hinsert⟩

end Script

/-! ## §4. Names that keep their meaning. -/

namespace Session

open Script

/-- A program that is bound to the newest payload of one name and to the map of another. -/
structure Bound (load : UInt32) (defined : List Payload) (s : Session) (name mapName : String)
    (p : Program) : Prop where
  payload : ∃ q, Payload.Newest defined q ∧ q.name = name
    ∧ p.start.toNat = q.place.toNat + load.toNat
  map : ∃ maps m, s.maps = .ok maps ∧ m ∈ maps ∧ m.name = mapName
    ∧ (∀ other ∈ maps, other.name = mapName → other = m)
    ∧ p.instructionMaps = [m.id] ∧ p.dataMaps = [m.id]

/-- A list of maps without semicolons names one map. -/
theorem mapIds_single {s : Session} {name : String} (h : ';' ∉ name.toList) {id : UInt8}
    (hid : s.mapId name = .ok id) : s.mapIds name = .ok [id] := by
  have hfields : Text.fieldTexts ';' name = [name] := by
    rw [Text.fieldTexts, Text.fields_of_not_mem h, List.map_singleton, String.ofList_toList]
  rw [mapIds, hfields, List.mapM_cons, hid]
  rfl

variable {place : Placement} {order : ByteOrder} {start : Session} {lines : List String}
  {inv : Inventory}

/-- The map that an accepted line has named is the only one of its name, and is found by it. -/
theorem Named.map_of_accepts (hs : (feed start lines).Sound inv)
    (h : (feed start lines).Named place.load (start.accepted (requests lines)) inv)
    {name first last letters : String}
    (haccepts : Accepts start lines ["map", name, first, last, letters]) :
    ∃ maps m, (feed start lines).maps = .ok maps ∧ m ∈ maps ∧ m.name = name
      ∧ (∀ other ∈ maps, other.name = name → other = m)
      ∧ (feed start lines).mapId name = .ok m.id := by
  obtain ⟨c, hc, hdone⟩ := haccepts.mem_accepted
  obtain ⟨_, hhead, _, _, _, rfl⟩ := ofWords_map hc
  cases hhead
  exact hs.exists_map h hdone

/-- The payload that an accepted line has named, or a newer one of its name, is found by it. -/
theorem Named.payload_of_accepts
    (h : (feed start lines).Named place.load (start.accepted (requests lines)) inv)
    {name position size : String} (haccepts : Accepts start lines ["alias", name, position, size]) :
    ∃ q found, Payload.Newest (payloadsOf (start.accepted (requests lines))) q ∧ q.name = name
      ∧ (feed start lines).alias? name = .ok found
      ∧ found.address.toNat = q.place.toNat + place.load.toNat := by
  obtain ⟨c, hc, hdone⟩ := haccepts.mem_accepted
  obtain ⟨_, hhead, payloadPlace, payloadSize, rfl⟩ := ofWords_alias hc
  cases hhead
  have hdefined : (⟨name, payloadPlace, payloadSize⟩ : Payload)
      ∈ payloadsOf (start.accepted (requests lines)) :=
    List.mem_filterMap.2 ⟨_, hdone, rfl⟩
  obtain ⟨q, hnewest, rfl⟩ : ∃ q, Payload.Newest _ q ∧ q.name = name :=
    Payload.exists_newest hdefined
  obtain ⟨found, hfound, -, -, haddress, -⟩ := h.payloads.knows.newest q hnewest
  exact ⟨q, found, hnewest, rfl, hfound, haddress⟩

/-- **Names of one piece keep their meaning.**  Once lines have named a payload and a map, a later
line that adds a program is accepted as long as there is room for it, and binds the program to the
newest payload and to the one map of these names, provided that there is no semicolon in them and
that the name of the map does not begin with a hyphen.  Any other accepted line refers to the
payload whose name stands in front of the first semicolon, and to one map more than there are
semicolons in the list of maps; it never begins that list with a hyphen. -/
theorem names_keep_meaning (h : Session.create place order = .ok start) (lines : List String)
    {line name mapName : String} (hline : words line = .ok ["app", name, mapName, mapName]) :
    (∀ first last letters position size,
      Accepts start lines ["map", mapName, first, last, letters] →
      Accepts start lines ["alias", name, position, size] →
      ';' ∉ name.toList → ';' ∉ mapName.toList → mapName.toList.head? ≠ some '-' →
      (feed start lines).memory.size + 56 + roundUp ((Text.Utf8.bytes name).length + 1)
        < (feed start lines).memory.capacity →
      ∃ after p, performLine line (feed start lines) = .ok () after
        ∧ (feed start lines).Adds after name mapName p
        ∧ (feed start lines).Bound place.load (payloadsOf (start.accepted (requests lines))) name
          mapName p)
      ∧ ∀ after, performLine line (feed start lines) = .ok () after →
        mapName.toList.head? ≠ some '-' ∧ ∃ p, (feed start lines).Adds after name mapName p := by
  obtain ⟨inv, hs, hnamed⟩ := feed_named h lines
  refine ⟨?_, fun after hperform => performLine_adds hs hline hperform⟩
  intro first last letters position size hmap halias hname hmapName hflag hroom
  obtain ⟨maps, m, hmaps, hm, hmname, honly, hid⟩ := hnamed.map_of_accepts hs hmap
  obtain ⟨q, found, hnewest, hqname, hfound, haddress⟩ := hnamed.payload_of_accepts halias
  have hcut : String.ofList (Text.cut ';' name.toList).1 = name := by
    rw [Text.cut_of_not_mem hname, String.ofList_toList]
  have hids := mapIds_single hmapName hid
  obtain ⟨after, hperform⟩ := performLine_app hs hline hflag (hcut.symm ▸ hfound) hids hroom
  obtain ⟨-, p, hadds⟩ := performLine_adds hs hline hperform
  obtain ⟨target, htarget, hstart⟩ := hadds.payload
  rw [hcut, hfound] at htarget
  cases htarget
  refine ⟨after, p, hperform, hadds, ⟨q, hnewest, hqname, by rw [hstart, haddress]⟩,
    maps, m, hmaps, hm, hmname, honly, ?_, ?_⟩
  · exact Except.ok.inj (hadds.instructionMaps.symm.trans hids)
  · exact Except.ok.inj (hadds.dataMaps.symm.trans hids)

/-- A session of a map and of two payloads of which one is named like the beginning of the other. -/
theorem feed_prefixed :
    ∃ start lines, Session.create ⟨0, 0x400, 0x1000⟩ .little = .ok start
      ∧ Accepts start lines ["map", "ddr", "0", "0x1000", "rw"]
      ∧ Accepts start lines ["alias", "psh", "0x1000", "0x200"]
      ∧ Accepts start lines ["alias", "psh;v", "0x2000", "0x200"]
      ∧ payloadsOf (start.accepted (requests lines))
        = [⟨"psh", 0x1000, 0x200⟩, ⟨"psh;v", 0x2000, 0x200⟩]
      ∧ (feed start lines).alias? "psh" = .ok ⟨"psh", 0x1000, 0x200⟩
      ∧ (feed start lines).memory.size + 128 < (feed start lines).memory.capacity := by
  have hstart : Session.create ⟨0, 0x400, 0x1000⟩ .little
      = .ok ⟨⟨0x400, 0x1000, .little, 24, .blank⟩, 0, 0, 0, 0, 0, []⟩ := rfl
  refine ⟨_, ["map ddr 0 0x1000 rw", "alias psh 0x1000 0x200", "alias psh;v 0x2000 0x200"], hstart,
    ?_, ?_, ?_, ?_, ?_, ?_⟩
  · exact ⟨[], _, _, rfl, by decide +kernel, by decide +kernel⟩
  · exact ⟨["map ddr 0 0x1000 rw"], _, _, rfl, by decide +kernel, by decide +kernel⟩
  · exact ⟨["map ddr 0 0x1000 rw", "alias psh 0x1000 0x200"], _, _, rfl, by decide +kernel,
      by decide +kernel⟩
  all_goals decide +kernel

/-- A program of the payload with the shorter name. -/
theorem names_keep_meaning_prefixed :
    ∃ start lines after p, Session.create ⟨0, 0x400, 0x1000⟩ .little = .ok start
      ∧ words "app psh ddr ddr" = .ok ["app", "psh", "ddr", "ddr"]
      ∧ Accepts start lines ["map", "ddr", "0", "0x1000", "rw"]
      ∧ Accepts start lines ["alias", "psh", "0x1000", "0x200"]
      ∧ performLine "app psh ddr ddr" (feed start lines) = .ok () after
      ∧ (feed start lines).Adds after "psh" "ddr" p
      ∧ (feed start lines).Bound 0 (payloadsOf (start.accepted (requests lines))) "psh" "ddr"
        p := by
  obtain ⟨start, lines, hstart, hmap, halias, -, -, -, hroom⟩ := feed_prefixed
  have hwords : words "app psh ddr ddr" = .ok ["app", "psh", "ddr", "ddr"] := by decide +kernel
  have hneed : roundUp ((Text.Utf8.bytes "psh").length + 1) = 8 := by decide
  obtain ⟨after, p, hperform, hadds, hbound⟩ :=
    (names_keep_meaning hstart lines hwords).1 _ _ _ _ _ hmap halias (by decide) (by decide)
      (by decide) (by omega)
  exact ⟨start, lines, after, p, hstart, hwords, hmap, halias, hperform, hadds, hbound⟩

/-- **A name with a semicolon in it loses its meaning**: the program is bound to another payload,
whose name stands in front of the semicolon. -/
theorem names_lose_meaning :
    ¬ ∀ (place : Placement) (order : ByteOrder) (start : Session) (lines : List String)
        (line name mapName first last letters position size : String),
      Session.create place order = .ok start →
      words line = .ok ["app", name, mapName, mapName] →
      Accepts start lines ["map", mapName, first, last, letters] →
      Accepts start lines ["alias", name, position, size] →
      (feed start lines).memory.size + 56 + roundUp ((Text.Utf8.bytes name).length + 1)
        < (feed start lines).memory.capacity →
      ∃ after programs p, performLine line (feed start lines) = .ok () after
        ∧ (feed start lines).programs = .ok programs ∧ after.programs = .ok (programs ++ [p])
        ∧ (feed start lines).Bound place.load (payloadsOf (start.accepted (requests lines))) name
          mapName p := by
  intro hall
  obtain ⟨start, lines, hstart, hmap, -, halias, hdefined, hfound, hroom⟩ := feed_prefixed
  have hwords : words "app psh;v ddr ddr" = .ok ["app", "psh;v", "ddr", "ddr"] := by decide +kernel
  have hneed : roundUp ((Text.Utf8.bytes "psh;v").length + 1) = 8 := by decide
  obtain ⟨after, programs, p, hperform, hprograms, hafter, hbound⟩ :=
    hall _ _ _ _ _ _ _ _ _ _ _ _ hstart hwords hmap halias (by omega)
  -- the payload that was named by the whole word
  obtain ⟨q, ⟨older, newer, hsplit, -⟩, hname, hplace⟩ := hbound.payload
  have hq : q ∈ [(⟨"psh", 0x1000, 0x200⟩ : Payload), ⟨"psh;v", 0x2000, 0x200⟩] := by
    rw [← hdefined, hsplit]
    simp
  have hlonger : q.place = 0x2000 := by
    rcases List.mem_pair.1 hq with rfl | rfl
    · exact absurd hname (by decide)
    · rfl
  -- the payload that the program is bound to
  obtain ⟨inv, hs, -⟩ := feed_named hstart lines
  obtain ⟨-, last, hadds⟩ := performLine_adds hs hwords hperform
  obtain ⟨found, htarget, hstart⟩ := hadds.payload
  have hcut : String.ofList (Text.cut ';' "psh;v".toList).1 = "psh" := by decide
  rw [hcut, hfound] at htarget
  cases htarget
  obtain ⟨others, hothers, hlast⟩ := hadds.last
  rw [hprograms] at hothers
  cases hothers
  rw [hafter] at hlast
  have hsame : p = last := by simpa using Except.ok.inj hlast
  rw [hsame, hstart, hlonger] at hplace
  exact absurd hplace (by decide)

end Session
end SystemPage
