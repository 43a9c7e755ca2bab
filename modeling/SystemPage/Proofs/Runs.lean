/-
  SystemPage.Proofs.Runs — what holds after any number of requests.

  A run performs requests one after the other, and goes on when one of them is refused.  The
  inventory that the first session holds is empty, every granted request keeps it in step with the
  page, so that the session after a run holds an inventory as well.  All that is said here of runs
  is read off that inventory.

  Main results:

      create_sound     — a session is sound at the start of a build
      Sound.run        — what every step keeps, a run keeps
      run_intact       — a page that was built here never contradicts itself
      run_registry     — no two maps share an address or a name, and programs refer to maps
      performWords_error
                       — what a line that fails leaves
-/
import SystemPage.Proofs.Steps

namespace SystemPage

open Memory SystemPage.Ring

/-! ## §1. Runs. -/

namespace Session

/-- The session after a request, whether it was granted or not. -/
def after (s : Session) (op : Operation) : Session := (Edit.outcome op.perform s).2

/-- The session after requests, in order. -/
def run (s : Session) (ops : List Operation) : Session := ops.foldl after s

/-- Whether a request is granted. -/
def grants (s : Session) (op : Operation) : Bool :=
  match op.perform s with
  | .ok .. => true
  | .error .. => false

theorem grants_eq_true_iff {s : Session} {op : Operation} :
    s.grants op = true ↔ ∃ after, op.perform s = .ok () after := by
  unfold grants
  cases op.perform s with
  | ok u after => simp
  | error fault after => simp

/-- Those of the requests of a run that are granted. -/
def accepted : Session → List Operation → List Operation
  | _, [] => []
  | s, op :: rest =>
    if s.grants op then op :: accepted (s.after op) rest else accepted (s.after op) rest

/-- The sessions that come up while a page is being built. -/
inductive Reachable : Session → Prop
  | create {place : Placement} {order : ByteOrder} {s : Session}
      (h : Session.create place order = .ok s) : Reachable s
  | after {s : Session} (h : Reachable s) (op : Operation) : Reachable (s.after op)

/-- The session at the start of a build holds a header and nothing else, and its page lies where it
was asked for. -/
theorem create_eq {place : Placement} {order : ByteOrder} {s : Session}
    (h : Session.create place order = .ok s) :
    s = ⟨⟨place.load + place.offset, place.capacity.toNat, order, headerSize, .blank⟩, place.load,
        0, 0, 0, 0, []⟩
      ∧ (place.load + place.offset).toNat = place.load.toNat + place.offset.toNat
      ∧ s.memory.Proper := by
  unfold Session.create Memory.create at h
  have hused : roundUp headerSize = headerSize := rfl
  simp only [hused] at h
  split at h
  · cases h
  · next hstart =>
    split at h
    · cases h
    · next hend =>
      split at h
      · cases h
      · next hheader =>
        cases h
        have hstart' : ¬ 2 ^ 32 ≤ place.load.toNat + place.offset.toNat := hstart
        refine ⟨rfl, ?_, ⟨show 24 % 8 = 0 by decide, Nat.le_of_not_lt hheader,
          Nat.le_of_not_lt hend⟩⟩
        rw [UInt32.toNat_add]
        omega

/-- A session is sound at the start of a build. -/
theorem create_sound {place : Placement} {order : ByteOrder} {s : Session}
    (h : Session.create place order = .ok s) : s.Sound ⟨[], []⟩ := by
  obtain ⟨rfl, -, hproper⟩ := create_eq h
  refine ⟨⟨hproper, Nat.le_refl 24, .nil _, .nil _, ?_, .nil, ?_, ?_, ?_⟩, rfl, rfl, ?_, .nil,
    .nil, ?_⟩
  all_goals simp [Inventory.mapPlaces, Inventory.programPlaces, Inventory.pieces, HoldsAll]

/-- **What every step keeps, a run keeps.**  The step says what it keeps of the requests that have
been granted so far, of the session and of its inventory. -/
theorem Sound.run_keeps (P : List Operation → Session → Inventory → Prop) {s : Session}
    {inv : Inventory} (done ops : List Operation) (h : s.Sound inv) (hP : P done s inv)
    (hrefused : ∀ done (t : Session) inv fault after, t.Sound inv → P done t inv →
      t.Refused fault after → P done after inv)
    (hgranted : ∀ done (t : Session) inv op after more, op ∈ ops → t.Sound inv → P done t inv →
      t.Granted inv op after more → P (done ++ [op]) after more) :
    ∃ more, (s.run ops).Sound more ∧ P (done ++ s.accepted ops) (s.run ops) more := by
  -- on the requests that are left, while those that were granted grow
  induction ops generalizing done s inv with
  | nil =>
    unfold accepted
    rw [List.append_nil]
    exact ⟨inv, h, hP⟩
  | cons op rest ih =>
    have hgranted' := fun done t inv op' after more (hop : op' ∈ rest) =>
      hgranted done t inv op' after more (List.mem_cons_of_mem op hop)
    rcases h.perform_settles op with ⟨fault, after, he, hr⟩ | ⟨u, after, he, more, hsound, hg⟩
    · have hafter : s.after op = after := by rw [Session.after, Edit.outcome, he]
      have hgrants : s.grants op = false := by rw [grants, he]
      have hrest := ih _ (hr.sound h) (hrefused _ _ _ _ _ h hP hr) hgranted'
      rw [← hafter] at hrest
      unfold accepted
      rw [if_neg (by simp [hgrants])]
      exact hrest
    · have hafter : s.after op = after := by rw [Session.after, Edit.outcome, he]
      have hgrants : s.grants op = true := by rw [grants, he]
      have hrest := ih _ hsound (hgranted _ _ _ _ _ _ (by simp) h hP hg) hgranted'
      rw [← hafter, List.append_assoc] at hrest
      unfold accepted
      rw [if_pos hgrants]
      exact hrest

theorem Sound.run {s : Session} {inv : Inventory} (h : s.Sound inv) (ops : List Operation) :
    ∃ more, (s.run ops).Sound more := by
  obtain ⟨more, hsound, -⟩ := h.run_keeps (fun _ _ _ => True) [] ops trivial
    (fun _ _ _ _ _ _ _ _ => trivial) fun _ _ _ _ _ _ _ _ _ _ => trivial
  exact ⟨more, hsound⟩

theorem Reachable.sound {s : Session} (h : s.Reachable) : ∃ inv, s.Sound inv := by
  induction h with
  | create h => exact ⟨_, create_sound h⟩
  | @after s _ op ih =>
    obtain ⟨inv, hs⟩ := ih
    rcases hs.perform_settles op with ⟨fault, after, he, hr⟩ | ⟨u, after, he, more, hsound, -⟩
    · exact ⟨inv, by rw [Session.after, Edit.outcome, he]; exact hr.sound hs⟩
    · exact ⟨more, by rw [Session.after, Edit.outcome, he]; exact hsound⟩

/-! ## §2. Pages that never contradict themselves. -/

/-- A session whose page can be read back, and on which no request trips over the page. -/
structure Intact (s : Session) : Prop where
  audit : s.audit = .ok ()
  maps : ∃ maps, s.maps = .ok maps ∧ Ring.walk s.memory s.mapHead = maps.map (.ok ·.address)
  programs : ∃ programs, s.programs = .ok programs
    ∧ Ring.walk s.memory s.programHead = programs.map (.ok ·.address)
  mapId : ∀ name fault, s.mapId name = .error fault → fault.kind = .mapNotFound
  perform : ∀ op fault after, Operation.perform op s = .error fault after →
    fault.kind ≠ .corruptList ∧ fault.kind ≠ .invalidAddress

theorem Refused.kind_ne {s after : Session} {fault : Fault} (h : s.Refused fault after) :
    fault.kind ≠ .corruptList ∧ fault.kind ≠ .invalidAddress := by
  cases h with
  | earned h => exact h.2
  | full h => simp [h]

theorem Sound.intact {s : Session} {inv : Inventory} (h : s.Sound inv) : s.Intact where
  audit := h.audit_eq
  maps := by
    refine ⟨_, h.maps_eq, ?_⟩
    rw [h.mapHead, h.arranged.closed.walk_eq h.arranged.spaced h.arranged.length_le]
    simp [Inventory.mapPlaces, MapEntry.map]
  programs := by
    have hother := h.arranged.symm
    refine ⟨_, h.programs_eq, ?_⟩
    rw [h.programHead, hother.closed.walk_eq hother.spaced hother.length_le]
    simp [Inventory.programPlaces, ProgramEntry.program]
  mapId := by
    intro name fault hf
    rw [h.mapId_eq] at hf
    cases hid : inv.idOf? name with
    | none =>
      rw [hid] at hf
      cases hf
      rfl
    | some id =>
      rw [hid] at hf
      cases hf
  perform := by
    intro op fault after hf
    rcases h.perform_settles op with ⟨fault', after', he, hr⟩ | ⟨u, after', he, -⟩
    · rw [he] at hf
      cases hf
      exact hr.kind_ne
    · rw [he] at hf
      cases hf

/-- **A page that was built here never contradicts itself, whatever was asked for.** -/
theorem run_intact {place : Placement} {order : ByteOrder} {start : Session}
    (h : Session.create place order = .ok start) (ops : List Operation) :
    (start.run ops).Intact := by
  obtain ⟨inv, hsound⟩ := (create_sound h).run ops
  exact hsound.intact

/-- A run with a map that is refused, and with a request after the page was completed. -/
theorem run_intact_refused :
    ∃ start, Session.create ⟨0x1000, 0x100, 0x400⟩ .big = .ok start
      ∧ (start.run [.command (.payload "psh" 0x400 0x80), .command (.map "ddr" 0x100 0x200 3),
        .complete, .command (.map "tcm" 0x1ff 0x280 3),
        .command (.program "psh" "ddr" "ddr;ddr" "psh;-v" true), .complete]).Intact := by
  have hstart : ∃ start, Session.create ⟨0x1000, 0x100, 0x400⟩ .big = .ok start := ⟨_, rfl⟩
  obtain ⟨start, hstart⟩ := hstart
  exact ⟨start, hstart, run_intact hstart _⟩

end Session

/-! ## §3. The registry of maps. -/

/-- The name that a request gives to a new map. -/
def Operation.mapName? : Operation → Option String
  | .command (.map name ..) => some name
  | _ => none

/-- Whether an address belongs to a map. -/
def AddressMap.Covers (map : AddressMap) (x : UInt32) : Prop := map.start ≤ x ∧ x < map.stop

/-- Maps that can be told apart by their addresses, names and ids, and programs that refer to no
others. -/
structure Registered (maps : List AddressMap) (programs : List Program) : Prop where
  parted : maps.Pairwise fun a b => ∀ x, ¬ (a.Covers x ∧ b.Covers x)
  named : (maps.map AddressMap.name).Nodup
  limited : maps.length ≤ 256
  numbered : ∀ k (map : AddressMap), maps[k]? = some map → map.id.toNat = k
  known : ∀ p ∈ programs, ∀ id ∈ p.instructionMaps ++ p.dataMaps, id.toNat < maps.length

namespace Session

/-- The maps of an inventory are told apart as they are read back, if their names are. -/
theorem Sound.registered {s : Session} {inv : Inventory} (h : s.Sound inv)
    (hnames : ∀ e ∈ inv.maps, 0 ∉ Text.Utf8.bytes e.name) :
    Registered (inv.maps.map (MapEntry.map s.memory))
      (inv.programs.map (ProgramEntry.program s.memory)) where
  parted := by
    refine List.pairwise_map.2 (h.parted.imp fun {a b} hab x hx => hab ?_)
    obtain ⟨⟨ha, ha'⟩, ⟨hb, hb'⟩⟩ := hx
    exact ⟨UInt32.lt_of_le_of_lt ha hb', UInt32.lt_of_le_of_lt hb ha'⟩
  named := by
    rw [List.map_map]
    refine List.pairwise_map.2 (List.Pairwise.imp_of_mem (fun {a b} ha hb hab => ?_) h.named)
    show a.title ≠ b.title
    rw [MapEntry.title_eq (hnames b hb)]
    exact hab
  limited := by
    rw [List.length_map]
    exact h.length_maps_le
  numbered := by
    intro k map hk
    rw [List.getElem?_map, Option.map_eq_some_iff] at hk
    obtain ⟨e, he, rfl⟩ := hk
    exact h.numbered k e he
  known := by
    intro p hp id hid
    obtain ⟨e, he, rfl⟩ := List.mem_map.1 hp
    rw [List.length_map]
    exact h.known e he id hid

/-- The names in an inventory are names that were asked for. -/
theorem Granted.names {s after : Session} {inv more : Inventory} {op : Operation}
    (hg : s.Granted inv op after more) (hop : ∀ name ∈ op.mapName?, 0 ∉ Text.Utf8.bytes name)
    (h : ∀ e ∈ inv.maps, 0 ∉ Text.Utf8.bytes e.name) :
    ∀ e ∈ more.maps, 0 ∉ Text.Utf8.bytes e.name := by
  cases hg with
  | map e =>
    intro a ha
    rcases List.mem_append.1 ha with ha | ha
    · exact h a ha
    · rw [List.mem_singleton.1 ha]
      exact hop e.name rfl
  | payload | program | console | foreign | complete => exact h

/-- **No two maps share an address or a name, and programs refer to maps.** -/
theorem run_registry {place : Placement} {order : ByteOrder} {start : Session}
    (h : Session.create place order = .ok start) (ops : List Operation)
    (hnames : ∀ op ∈ ops, ∀ name ∈ op.mapName?, 0 ∉ Text.Utf8.bytes name) :
    ∃ maps programs, (start.run ops).maps = .ok maps ∧ (start.run ops).programs = .ok programs
      ∧ Registered maps programs := by
  obtain ⟨inv, hsound, hplain⟩ := (create_sound h).run_keeps
    (fun _ _ inv => ∀ e ∈ inv.maps, 0 ∉ Text.Utf8.bytes e.name) [] ops (by simp)
    (fun _ _ _ _ _ _ hP _ => hP)
    fun _ _ _ op _ _ hop _ hP hg => hg.names (hnames op hop) hP
  exact ⟨_, _, hsound.maps_eq, hsound.programs_eq, hsound.registered hplain⟩

/-- Two maps side by side, one that meets both, an empty one, and a program with the first two. -/
theorem run_registry_side_by_side :
    ∃ start maps programs, Session.create ⟨0x1000, 0x100, 0x400⟩ .little = .ok start
      ∧ (start.run [.command (.payload "psh" 0x4000 0x1000), .command (.map "ddr" 0x100 0x200 3),
        .command (.map "tcm" 0x200 0x280 3), .command (.map "both" 0x180 0x240 3),
        .command (.map "none" 0x280 0x280 3),
        .command (.program "psh" "ddr;tcm" "tcm" "psh;-c" true)]).maps = .ok maps
      ∧ maps.map AddressMap.name = ["ddr", "tcm", "none"]
      ∧ programs.map (fun p => (p.instructionMaps, p.dataMaps)) = [([0, 1], [1])]
      ∧ Registered maps programs := by
  have hnames : ∀ op ∈ [Operation.command (.payload "psh" 0x4000 0x1000),
      .command (.map "ddr" 0x100 0x200 3), .command (.map "tcm" 0x200 0x280 3),
      .command (.map "both" 0x180 0x240 3), .command (.map "none" 0x280 0x280 3),
      .command (.program "psh" "ddr;tcm" "tcm" "psh;-c" true)],
      ∀ name ∈ op.mapName?, 0 ∉ Text.Utf8.bytes name := by decide
  obtain ⟨start, hstart⟩ :
      ∃ start, Session.create ⟨0x1000, 0x100, 0x400⟩ .little = .ok start := ⟨_, rfl⟩
  obtain ⟨maps, programs, hmaps, hprograms, hregistered⟩ := run_registry hstart _ hnames
  have hread := congrArg (Except.map (List.map AddressMap.name)) hmaps
  have hread' := congrArg (Except.map (List.map fun p : Program =>
    (p.instructionMaps, p.dataMaps))) hprograms
  refine ⟨start, maps, programs, hstart, hmaps, ?_, ?_, hregistered⟩
  · cases hstart
    exact Except.ok.inj (hread.symm.trans (by decide +kernel))
  · cases hstart
    exact Except.ok.inj (hread'.symm.trans (by decide +kernel))

/-! ## §4. Lines that fail. -/

/-- What running out of room leaves of a session: all of it, with a page that has only been added
to and still passes the audit. -/
structure OnlyGrown (s after : Session) : Prop where
  imageSize : after.imageSize = s.imageSize
  load : after.load = s.load
  mapHead : after.mapHead = s.mapHead
  programHead : after.programHead = s.programHead
  console : after.console = s.console
  aliases : after.aliases = s.aliases
  maps : after.maps = s.maps
  programs : after.programs = s.programs
  alias? : ∀ name, after.alias? name = s.alias? name
  mapId : ∀ name, after.mapId name = s.mapId name
  bytes : after.memory.bytes.take s.memory.size = s.memory.bytes
  size : s.memory.size ≤ after.memory.size
  bounded : after.memory.size ≤ after.memory.capacity
  capacity : after.memory.capacity = s.memory.capacity
  audit : after.audit = .ok ()

theorem Sound.onlyGrown {s : Session} {inv : Inventory} {memory : Memory} (h : s.Sound inv)
    (he : s.memory.Extends memory) (hm : memory.Proper) :
    s.OnlyGrown { s with memory := memory } := by
  -- the page that was added to holds the same inventory, so that it reads back the same
  have hafter : { s with memory := memory }.Sound inv :=
    h.frame (he.mono fun _ _ hk => hk.elim) hm rfl rfl
  refine ⟨rfl, rfl, rfl, rfl, rfl, rfl, ?_, ?_, fun _ => rfl, ?_, ?_, he.size,
    hm.bounded, he.capacity, hafter.audit_eq⟩
  · have hmap : MapEntry.map memory = MapEntry.map s.memory := by
      funext e
      simp only [MapEntry.map, he.address_eq]
    rw [hafter.maps_eq, h.maps_eq, hmap]
  · have hprogram : ProgramEntry.program memory = ProgramEntry.program s.memory := by
      funext e
      simp only [ProgramEntry.program, he.address_eq]
    rw [hafter.programs_eq, h.programs_eq, hprogram]
  · intro name
    rw [hafter.mapId_eq, h.mapId_eq]
  · apply List.ext_getElem?
    intro i
    rw [List.getElem?_take, getElem?_bytes, getElem?_bytes]
    split
    · next hi => rw [if_pos (Nat.lt_of_lt_of_le hi he.size), he.kept i hi not_false]
    · rfl

/-- **What a line that fails leaves.** -/
theorem performWords_error {s after : Session} (h : s.Reachable) {words : List String}
    {fault : Fault} (hfault : Script.performWords words s = .error fault after) :
    (fault.kind ≠ .allocationFailed → after = s)
      ∧ (fault.kind = .allocationFailed → s.OnlyGrown after) := by
  obtain ⟨inv, hs⟩ := h.sound
  have hsame : s.OnlyGrown s := hs.onlyGrown (.refl _ _) hs.arranged.proper
  -- words that are no command fail before the session is looked at
  cases words with
  | nil => cases hfault
  | cons name rest =>
    cases hcommand : Script.Command.ofWords name rest with
    | error fault' =>
      have hlook : Edit.look (fun _ => Script.Command.ofWords name rest) s = .error fault' s :=
        Edit.look_of_error hcommand
      rw [Script.performWords, Edit.bind_of_error hlook] at hfault
      cases hfault
      exact ⟨fun _ => rfl, fun _ => hsame⟩
    | ok command =>
      have hlook : Edit.look (fun _ => Script.Command.ofWords name rest) s = .ok command s :=
        Edit.look_of_ok hcommand
      rw [Script.performWords, Edit.bind_of_ok hlook] at hfault
      rcases hs.perform_settles (.command command) with ⟨_, _, he, hr⟩ | ⟨_, _, he, -⟩
      · change command.perform s = _ at he
        rw [he] at hfault
        cases hfault
        cases hr with
        | earned hearned => exact ⟨fun _ => rfl, fun hkind => absurd hkind hearned.1⟩
        | full hkind hext hm => exact ⟨fun hne => absurd hkind hne, fun _ => hs.onlyGrown hext hm⟩
      · change command.perform s = _ at he
        rw [he] at hfault
        cases hfault

/-- A map whose record still fits where its name does not. -/
theorem performWords_error_half_way :
    OnlyGrown ⟨⟨0x1100, 64, .little, 24, .blank⟩, 0x1000, 0, 0, 0, 0, []⟩
      ⟨⟨0x1100, 64, .little, 56, .blank⟩, 0x1000, 0, 0, 0, 0, []⟩ := by
  have hcreate : Session.create ⟨0x1000, 0x100, 64⟩ .little
      = .ok ⟨⟨0x1100, 64, .little, 24, .blank⟩, 0x1000, 0, 0, 0, 0, []⟩ := rfl
  have hfault : Script.performWords ["map", "ddr", "0x10", "0x20", "rw"]
        ⟨⟨0x1100, 64, .little, 24, .blank⟩, 0x1000, 0, 0, 0, 0, []⟩
      = .error (.noRoom 4 56 64) ⟨⟨0x1100, 64, .little, 56, .blank⟩, 0x1000, 0, 0, 0, 0, []⟩ := rfl
  exact (performWords_error (.create hcreate) hfault).2 rfl

end Session
end SystemPage
