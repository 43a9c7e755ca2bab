/-
  SystemPage.Proofs.ExactSessions — every call passes its checks.

  The bounds come from different places.  A page is placed where all of its room has addresses, and
  stays smaller than its room; a payload is only accepted if it ends inside the address space; maps
  are numbered from 0 and there are no more of them than ids.  All of it holds in every session of a
  build, so that none of the calls on it is ever stuck at a check.  This covers pages that end with
  the address space and payloads that end at its last address.

  Main results:

      Sound.insertMap_follows, Sound.insertProgram_follows, Sound.complete_follows
                       — additions and completions pass their checks
      Sound.audit_exact, Sound.report_exact
                       — so do the audit and the report
      run_exact        — every call on every session of a build passes its checks
-/
import SystemPage.Proofs.Exact

namespace SystemPage

open Memory SystemPage.Ring Guarded

/-! ## §1. What is looked up. -/

namespace Guarded

/-- Things that are looked up one after the other pass their checks if each of them does. -/
theorem mapM_eq {α β : Type} {look : α → Look β} {find : α → Except Fault β} (items : List α)
    (h : ∀ a ∈ items, look a = plain (find a)) : items.mapM look = plain (items.mapM find) := by
  induction items with
  | nil => rfl
  | cons a rest ih =>
    rw [List.mapM_cons, List.mapM_cons]
    refine plain_bind (h a (by simp)) fun b _ => ?_
    exact plain_bind (ih fun c hc => h c (by simp [hc])) fun _ _ => rfl

/-- Behind numbered maps the next id is a byte. -/
theorem nextId_eq {name : String} {maps : List AddressMap}
    (h : ∀ i (map : AddressMap), maps[i]? = some map → map.id.toNat = i) :
    nextId name maps = plain (AddressMap.nextId name maps) := by
  unfold nextId AddressMap.nextId
  cases hlast : maps.getLast? with
  | none => rfl
  | some last =>
    have hid := h (maps.length - 1) last (by rw [← List.getLast?_eq_getElem?, hlast])
    show (if 256 ≤ maps.length then _ else _) = plain (if 256 ≤ maps.length then _ else _)
    by_cases hlimit : 256 ≤ maps.length
    · rw [if_pos hlimit, if_pos hlimit]
      rfl
    · rw [if_neg hlimit, if_neg hlimit]
      exact if_pos (show last.id.toNat + 1 < 256 by omega)

end Guarded

namespace Session

/-- The numbers that a session keeps outside of its page fit words: payloads end inside the address
space, and so many bytes as the page has room for can be counted. -/
structure Fitting (s : Session) : Prop where
  room : s.memory.capacity < UInt32.size
  payloads : ∀ a ∈ s.aliases, a.address.toNat + a.size.toNat < UInt32.size

namespace Sound

variable {s : Session} {inv : Inventory}

theorem loadMap_exact (h : s.Sound inv) {a : UInt32} (ha : .ok a ∈ walk s.memory s.mapHead) :
    Guarded.loadMap s.memory a = plain (AddressMap.load s.memory a) := by
  rw [h.mapHead, h.arranged.closed.walk_eq h.arranged.spaced h.arranged.length_le] at ha
  obtain ⟨place, hplace, he⟩ := List.mem_map.1 ha
  cases he
  obtain ⟨e, he, rfl⟩ := List.mem_map.1 hplace
  have hheld := h.held_map he
  simp only [HoldsAll, MapEntry.pieces, List.forall_mem_cons] at hheld
  obtain ⟨-, -, hpointer, -⟩ := hheld
  have hin : e.place + 28 + _ ≤ s.memory.size := hpointer.inside
  rw [ByteOrder.length_encode, ByteOrder.wordSize] at hin
  exact loadMap_eq h.arranged.proper e.place (by omega)

theorem loadProgram_exact (h : s.Sound inv) {a : UInt32}
    (ha : .ok a ∈ walk s.memory s.programHead) :
    Guarded.loadProgram s.memory a = plain (Program.load s.memory a) := by
  rw [h.programHead, h.arranged.closedOther.walk_eq h.arranged.symm.spaced
    h.arranged.symm.length_le] at ha
  obtain ⟨place, hplace, he⟩ := List.mem_map.1 ha
  cases he
  obtain ⟨e, he, rfl⟩ := List.mem_map.1 hplace
  have hwords := (h.held_program he).1 ⟨e.place + 8, _⟩ (List.mem_cons_self ..)
  have hin := hwords.inside
  rw [length_words] at hin
  have hin' : e.place + 8 + 4 * 7 ≤ s.memory.size := hin
  exact loadProgram_eq h.arranged.proper e.place (by omega)

theorem maps_exact (h : s.Sound inv) : Guarded.maps s = plain s.maps :=
  Guarded.collect_eq h.arranged.proper fun _ => h.loadMap_exact

theorem programs_exact (h : s.Sound inv) : Guarded.programs s = plain s.programs :=
  Guarded.collect_eq h.arranged.proper fun _ => h.loadProgram_exact

theorem freshMapId_exact (h : s.Sound inv) (name : String) (start stop : UInt32) :
    Guarded.freshMapId s name start stop = plain (s.freshMapId name start stop) := by
  refine plain_bind h.maps_exact fun maps hmaps => ?_
  cases maps.findSome? (AddressMap.conflict? name start stop) with
  | some fault => rfl
  | none =>
    refine Guarded.nextId_eq fun i map hi => ?_
    obtain rfl := Except.ok.inj (h.maps_eq.symm.trans hmaps)
    rw [List.getElem?_map, Option.map_eq_some_iff] at hi
    obtain ⟨e, he, rfl⟩ := hi
    exact h.numbered i e he

theorem mapId_exact (h : s.Sound inv) (name : String) :
    Guarded.mapId s name = plain (s.mapId name) := by
  refine plain_bind (Guarded.find?_eq h.arranged.proper fun node hnode => ?_) fun found _ => ?_
  · exact plain_bind (h.loadMap_exact hnode) fun map _ => rfl
  · cases found <;> rfl

theorem mapIds_exact (h : s.Sound inv) (names : String) :
    Guarded.mapIds s names = plain (s.mapIds names) :=
  Guarded.mapM_eq _ fun name _ => h.mapId_exact name

end Sound

/-- The address after a payload is one. -/
theorem Fitting.alias?_exact {s : Session} (h : s.Fitting) (name : String) :
    Guarded.alias? s name = plain ((s.alias? name).map fun a => (a, a.stop)) := by
  unfold Guarded.alias? Session.alias?
  cases hfound : s.aliases.find? fun a => a.name = name with
  | none => rfl
  | some found =>
    have hsum := sum_eq (h.payloads found (List.mem_of_find?_eq_some hfound))
    show (sum found.address found.size >>= _) = _
    rw [hsum]
    rfl

theorem Fitting.header_exact {s : Session} {inv : Inventory} (hf : s.Fitting) (h : s.Sound inv) :
    Guarded.header s = plain (.ok s.header) := by
  have hb := h.arranged.proper.bounded
  have hroom : s.memory.capacity < 2 ^ 32 := hf.room
  unfold Guarded.header
  rw [word_eq (show _ < 2 ^ 32 by omega)]
  rfl

namespace Sound

variable {s : Session} {inv : Inventory}

theorem planProgram_exact (h : s.Sound inv) (hf : s.Fitting)
    (payload instructionMaps dataMaps argv : String) (atOnce : Bool) :
    Guarded.planProgram s payload instructionMaps dataMaps argv atOnce
      = plain (s.planProgram payload instructionMaps dataMaps argv atOnce) := by
  have hplan : s.planProgram payload instructionMaps dataMaps argv atOnce = (do
      let found ← (s.alias? payload).map fun a => (a, a.stop)
      let instructionMaps ← s.mapIds instructionMaps
      let dataMaps ← s.mapIds dataMaps
      return ⟨found.1, instructionMaps, dataMaps, Program.markedArgv argv atOnce⟩) := by
    unfold Session.planProgram
    cases s.alias? payload <;> rfl
  rw [hplan]
  refine plain_bind (hf.alias?_exact payload) fun found _ => ?_
  refine plain_bind (h.mapIds_exact instructionMaps) fun instructions _ => ?_
  exact plain_bind (h.mapIds_exact dataMaps) fun data _ => rfl

/-- **The audit passes its checks.** -/
theorem audit_exact (h : s.Sound inv) : Guarded.audit s = plain s.audit := by
  have hmaps := auditRing_eq h.arranged.proper h.arranged.closed h.arranged.spaced
    h.arranged.length_le
  have hprograms := auditRing_eq h.arranged.proper h.arranged.closedOther h.arranged.symm.spaced
    h.arranged.symm.length_le
  rw [← h.mapHead] at hmaps
  rw [← h.programHead] at hprograms
  refine plain_bind hmaps fun mapCount _ => ?_
  refine plain_bind hprograms fun _ _ => ?_
  refine plain_bind h.maps_exact fun maps _ => ?_
  cases misnumbered? 0 maps with
  | some fault => rfl
  | none =>
    refine plain_bind h.programs_exact fun programs _ => ?_
    cases programs.findSome? (dangling? mapCount) <;> rfl

/-- **So does the report.** -/
theorem report_exact (h : s.Sound inv) (hf : s.Fitting) : Guarded.report s = some s.report := by
  unfold Guarded.report
  rw [hf.header_exact h, h.maps_exact, h.programs_exact]
  rfl

end Sound

/-! ## §2. What is changed. -/

/-- A payload passes its checks in any session: it is refused where one of its sums is no word. -/
theorem insertAlias_follows (s : Session) (name : String) (place size : UInt32) :
    Follows (Guarded.insertAlias name place size) (insertAlias name place size) s := by
  by_cases hname : aliasNameLimit < (Text.Utf8.bytes name).length
  · have hends : payloadEnds s name place size
        = plain (.error (.aliasNameTooLong name aliasNameLimit)) := if_pos hname
    refine Follows.of_look hends (fun _ hok => by cases hok) fun fault hfault => ?_
    cases hfault
    exact if_pos hname
  cases hsums : payloadSums? s.load place size with
  | none =>
    have hends : payloadEnds s name place size
        = plain (.error (.aliasOutside name place size)) := by
      unfold payloadEnds
      rw [if_neg hname, hsums]
      rfl
    refine Follows.of_look hends (fun _ hok => by cases hok) fun fault hfault => ?_
    cases hfault
    unfold insertAlias
    rw [if_neg hname, hsums]
  | some sums =>
    obtain ⟨reach, address, stop⟩ := sums
    have hends : payloadEnds s name place size = plain (.ok (reach, address)) := by
      unfold payloadEnds
      rw [if_neg hname, hsums]
      rfl
    have hplain : insertAlias name place size s = .ok () { s with
        imageSize := max s.imageSize reach
        aliases := ⟨name, address, size⟩ :: s.aliases } := by
      unfold insertAlias
      rw [if_neg hname, hsums]
    refine Follows.of_look hends (fun ends hok => ?_) fun _ hfault => by cases hfault
    cases hok
    rw [Follows, Edit.outcome, hplain]
    rfl

/-- A record that an edit puts into a page lies behind all others. -/
def PutBehind (m : Memory) (put : Edit Memory UInt32) : Prop :=
  ∀ a grown, put m = .ok a grown → a = m.address m.size ∧ m.Extends grown ∧ grown.Proper
    ∧ m.size + smallestRecord ≤ grown.size

theorem map_putBehind {m : Memory} (hm : m.Proper) (id : UInt8) (name : String)
    (start stop access : UInt32) : PutBehind m (AddressMap.put id name start stop access) := by
  intro a after h
  by_cases hfit : m.size + ((AddressMap.blockSizes name).map roundUp).sum < m.capacity
  · obtain ⟨grown, hput, hs, he, hgrown, -⟩ :=
      AddressMap.put_of_lt hm id name start stop access hfit
    have hsum := AddressMap.sum_blockSizes name
    rw [hput] at h
    cases h
    exact ⟨rfl, he, hgrown, show m.size + 32 ≤ _ by omega⟩
  · obtain ⟨fault, full, hput, -⟩ :=
      AddressMap.put_of_le hm id name start stop access (Nat.le_of_not_lt hfit)
    rw [hput] at h
    cases h

theorem program_putBehind {m : Memory} (hm : m.Proper) (plan : Program.Plan) :
    PutBehind m plan.put := by
  intro a after h
  by_cases hfit : m.size + (plan.blockSizes.map roundUp).sum < m.capacity
  · obtain ⟨grown, hput, hs, he, hgrown, -⟩ := Program.Plan.put_of_lt hm plan hfit
    have hsum := plan.sum_blockSizes
    rw [hput] at h
    cases h
    exact ⟨rfl, he, hgrown, show m.size + 32 ≤ _ by omega⟩
  · obtain ⟨fault, full, hput, -⟩ := Program.Plan.put_of_le hm plan (Nat.le_of_not_lt hfit)
    rw [hput] at h
    cases h

/-- **A record that is put behind all others and appended to its ring passes its checks.** -/
theorem join_follows {α : Type} {s : Session} {ring other : List Nat} {pieces : List Piece}
    {put : Change Memory UInt32} {put' : Edit Memory UInt32} {part : Session → UInt32}
    (set : UInt32 → Session → Session) (answer : UInt32 → α)
    (h : Arranged s.memory ring other pieces) (hput : Follows put put' s.memory)
    (hbehind : PutBehind s.memory put')
    (hpart : ∀ memory, part { s with memory := memory } = headOf s.memory ring) :
    Follows
      (do
        let address ← Guarded.onMemory put
        let head ← Guarded.onMemory (Guarded.append (part (← get)) address)
        modify (set head)
        return answer address)
      (do
        let address ← onMemory put'
        let head ← onMemory (Ring.append (part (← get)) address)
        modify (set head)
        return answer address) s := by
  refine (Follows.onMemory hput).bind fun address s1 h1 => ?_
  obtain ⟨grown, hgrown, rfl⟩ := onMemory_eq_ok_iff.1 h1
  obtain ⟨rfl, he, hproper, hsize⟩ := hbehind address grown hgrown
  refine (Follows.get _).bind fun s2 s3 h2 => ?_
  cases h2
  obtain ⟨-, hspaced⟩ := h.spaced_concat he hproper hsize
  have happend := append_follows hproper hspaced
  rw [headOf_frame he, he.address_eq, ← hpart grown] at happend
  refine (Follows.onMemory happend).bind fun head s4 _ => ?_
  exact (Follows.modify (set head) s4).bind fun _ s5 _ => .pure _ s5

namespace Sound

variable {s : Session} {inv : Inventory}

/-- **Adding a map passes its checks.** -/
theorem insertMap_follows (h : s.Sound inv) (name : String) (start stop access : UInt32) :
    Follows (Guarded.insertMap name start stop access) (insertMap name start stop access) s := by
  have hlook : Follows (Guarded.look (Guarded.freshMapId · name start stop))
      (Edit.look (·.freshMapId name start stop)) s :=
    Follows.look (h.freshMapId_exact name start stop)
  refine hlook.bind fun id s1 h1 => ?_
  obtain ⟨-, rfl⟩ := Edit.look_eq_ok_iff.1 h1
  have hm := h.arranged.proper
  exact join_follows (fun head s => { s with mapHead := head })
    (fun address => (⟨address, id, name, start, stop, access, 0⟩ : AddressMap)) h.arranged
    (putMap_follows hm id name start stop access) (map_putBehind hm id name start stop access)
    fun _ => h.mapHead

/-- **Adding a program passes its checks.** -/
theorem insertProgram_follows (h : s.Sound inv) (hf : s.Fitting)
    (payload instructionMaps dataMaps argv : String) (atOnce : Bool) :
    Follows (Guarded.insertProgram payload instructionMaps dataMaps argv atOnce)
      (insertProgram payload instructionMaps dataMaps argv atOnce) s := by
  have hlook : Follows
      (Guarded.look (Guarded.planProgram · payload instructionMaps dataMaps argv atOnce))
      (Edit.look (·.planProgram payload instructionMaps dataMaps argv atOnce)) s :=
    Follows.look (h.planProgram_exact hf payload instructionMaps dataMaps argv atOnce)
  refine hlook.bind fun plan s1 h1 => ?_
  obtain ⟨-, rfl⟩ := Edit.look_eq_ok_iff.1 h1
  have hm := h.arranged.proper
  exact join_follows (fun head s => { s with programHead := head })
    (fun address => (⟨address, plan.payload.address, plan.payload.stop, plan.argv,
      plan.instructionMaps, plan.dataMaps⟩ : Program)) h.arranged.symm
    (putProgram_follows hm plan) (program_putBehind hm plan) fun _ => h.programHead

/-- **Completing a page passes its checks.** -/
theorem complete_follows (h : s.Sound inv) (hf : s.Fitting) :
    Follows Guarded.complete complete s := by
  have hm := h.arranged.proper
  have hroom : 24 ≤ s.memory.size := Nat.le_trans (Nat.le_add_right _ _) h.arranged.room
  have hbase : s.memory.base = s.memory.address 0 := (UInt32.add_zero _).symm
  refine Follows.of_look (hf.header_exact h) (fun words hwords => ?_) fun _ hfault => by
    cases hfault
  cases hwords
  refine (Follows.get s).bind fun s1 s2 h1 => ?_
  cases h1
  have hwrite := writeFields_follows hm 0 0 s.header.words hbase (by simp [Header.words])
    (show 0 + 0 + 4 * 6 ≤ s.memory.size by omega)
  rw [show UInt32.ofNat 0 = 0 from rfl, UInt32.add_zero] at hwrite
  refine (Follows.onMemory hwrite).bind fun _ s3 h3 => ?_
  obtain ⟨memory, hmemory, rfl⟩ := onMemory_eq_ok_iff.1 h3
  have hproper := (writeWords_kept hm hmemory).1
  have hbytes : Guarded.bytes memory = plain (.ok memory.bytes) := bytes_eq hproper
  show (Guarded.bytes memory).run.map _ = _
  rw [hbytes]
  rfl

end Sound

/-! ## §3. Runs. -/

/-- The session at the start of a build is found without a sum that wraps around, wherever the page
is to be placed. -/
theorem create_exact (place : Placement) (order : ByteOrder) :
    Guarded.create place order = plain (Session.create place order) := by
  unfold Guarded.create Session.create Memory.create
  by_cases hstart : addressSpace ≤ place.load.toNat + place.offset.toNat
  · rw [if_pos hstart, if_pos hstart]
    rfl
  rw [if_neg hstart, if_neg hstart, sum_eq (Nat.lt_of_not_le hstart)]
  by_cases hend : addressSpace < (place.load + place.offset).toNat + place.capacity.toNat
  · rw [if_pos hend]
    exact if_pos hend
  rw [if_neg hend]
  refine (if_neg hend).trans ?_
  by_cases hheader : place.capacity.toNat < roundUp headerSize
  · rw [if_pos hheader, if_pos hheader]
    rfl
  · rw [if_neg hheader, if_neg hheader]
    rfl

/-- A granted request leaves numbers that fit words. -/
theorem Granted.fitting {s after : Session} {inv more : Inventory} {op : Operation}
    (hg : s.Granted inv op after more) (h : s.Fitting) : after.Fitting := by
  refine ⟨?_, ?_⟩
  · rw [hg.samePlace.capacity]
    exact h.room
  · cases hg with
    | @payload name place size hname hplace =>
      have hplace' : place.toNat + s.load.toNat + size.toNat < 2 ^ 32 := hplace
      intro a ha
      rcases List.mem_cons.1 ha with rfl | ha
      · show (place + s.load).toNat + size.toNat < 2 ^ 32
        rw [UInt32.toNat_add]
        omega
      · exact h.payloads a ha
    | map => exact h.payloads
    | program => exact h.payloads
    | console => exact h.payloads
    | foreign => exact h.payloads
    | complete => exact h.payloads

theorem Refused.fitting {s after : Session} {fault : Fault} (hr : s.Refused fault after)
    (h : s.Fitting) : after.Fitting := by
  cases hr with
  | earned => exact h
  | full _ he => exact ⟨by rw [he.capacity]; exact h.room, h.payloads⟩

/-- A session on which every call passes its checks, whatever it is asked for. -/
structure Exact (s : Session) : Prop where
  header : Guarded.header s = plain (.ok s.header)
  alias? : ∀ name, Guarded.alias? s name = plain ((s.alias? name).map fun a => (a, a.stop))
  maps : Guarded.maps s = plain s.maps
  mapId : ∀ name, Guarded.mapId s name = plain (s.mapId name)
  programs : Guarded.programs s = plain s.programs
  audit : Guarded.audit s = plain s.audit
  report : Guarded.report s = some s.report
  insertAlias : ∀ name place size,
    Follows (Guarded.insertAlias name place size) (Session.insertAlias name place size) s
  insertMap : ∀ name start stop access,
    Follows (Guarded.insertMap name start stop access) (Session.insertMap name start stop access) s
  insertProgram : ∀ payload instructionMaps dataMaps argv atOnce,
    Follows (Guarded.insertProgram payload instructionMaps dataMaps argv atOnce)
      (Session.insertProgram payload instructionMaps dataMaps argv atOnce) s
  complete : Follows Guarded.complete Session.complete s

theorem Sound.exact_of_fitting {s : Session} {inv : Inventory} (h : s.Sound inv) (hf : s.Fitting) :
    s.Exact where
  header := hf.header_exact h
  alias? := hf.alias?_exact
  maps := h.maps_exact
  mapId := h.mapId_exact
  programs := h.programs_exact
  audit := h.audit_exact
  report := h.report_exact hf
  insertAlias := insertAlias_follows s
  insertMap := h.insertMap_follows
  insertProgram := h.insertProgram_follows hf
  complete := h.complete_follows hf

/-- **Every call on every session of a build passes its checks**, the one that creates the session
first of all. -/
theorem run_exact {place : Placement} {order : ByteOrder} {start : Session}
    (h : Session.create place order = .ok start) (ops : List Operation) :
    Guarded.create place order = plain (.ok start) ∧ (start.run ops).Exact := by
  have hfitting : start.Fitting := by
    obtain ⟨rfl, -, -⟩ := create_eq h
    exact ⟨place.capacity.toNat_lt, fun _ ha => by simp at ha⟩
  obtain ⟨inv, hsound, hrun⟩ := (create_sound h).run_keeps (fun _ s _ => s.Fitting) [] ops hfitting
    (fun _ _ _ _ _ _ hf hr => hr.fitting hf) fun _ _ _ _ _ _ _ _ hf hg => hg.fitting hf
  exact ⟨h ▸ create_exact place order, hsound.exact_of_fitting hrun⟩

/-- A page that ends with the address space, and a payload that ends at the last address. -/
theorem run_exact_last_address :
    ∃ start, Session.create ⟨0xffffff00, 0, 0x100⟩ .little = .ok start
      ∧ Guarded.create ⟨0xffffff00, 0, 0x100⟩ .little = plain (.ok start)
      ∧ (start.run [.command (.payload "psh" 0 0xff), .command (.map "ddr" 0 0xffffffff 3),
        .command (.program "psh" "ddr" "ddr" "psh;-v" true), .complete]).Exact := by
  have hstart : ∃ start, Session.create ⟨0xffffff00, 0, 0x100⟩ .little = .ok start := ⟨_, rfl⟩
  obtain ⟨start, hstart⟩ := hstart
  exact ⟨start, hstart, run_exact hstart _⟩

end Session
end SystemPage
