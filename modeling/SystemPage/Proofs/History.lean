/-
  SystemPage.Proofs.History — a completed page tells what was granted.

  The ledger of a build knows nothing of pages.  It enters one granted request after the other: the
  newest payload of a name, the maps in order with their positions as ids, the programs in order
  with what their names stood for at that moment.  The inventory of a session keeps in step with
  the ledger of its run, and a reader of the completed page finds the one, hence the other.

  Main results:

      Granted.enter_eq — a granted request is entered as the session carried it out
      complete_page_eq — a reader of the bytes of a page finds the ledger of its run
-/
import SystemPage.Proofs.Reader
import SystemPage.Proofs.Runs

namespace SystemPage

open Memory SystemPage.Ring

/-! ## §1. Ledgers. -/

/-- What the granted requests of a build add up to.  A payload is known by its name, its first
address and the address after its last; the newest comes first. -/
structure Ledger where
  payloads : List (String × Nat × Nat)
  maps : List MapRecord
  programs : List ProgramRecord
  deriving DecidableEq, Repr

namespace Ledger

/-- The position of the first map of a name. -/
def mapId? (l : Ledger) (name : String) : Option Nat :=
  l.maps.findIdx? fun map => map.name = Text.Utf8.bytes name

/-- Enters a granted request, where the image is loaded at an address. -/
def enter (load : Nat) (l : Ledger) : Operation → Option Ledger
  | .command (.payload name place size) =>
    let start := place.toNat + load
    some { l with payloads := (name, start, start + size.toNat) :: l.payloads }
  | .command (.map name start stop access) =>
    let map : MapRecord :=
      ⟨l.maps.length, Text.Utf8.bytes name, start.toNat, stop.toNat, access.toNat, 0⟩
    some { l with maps := l.maps ++ [map] }
  | .command (.program payload instructionMaps dataMaps argv atOnce) => do
    let (_, start, stop) ← l.payloads.find? (·.1 = payload)
    let instructionMaps ← (Text.fieldTexts ';' instructionMaps).mapM l.mapId?
    let dataMaps ← (Text.fieldTexts ';' dataMaps).mapM l.mapId?
    let argv := (if atOnce then [0x58] else []) ++ Text.Utf8.bytes argv
    return { l with programs := l.programs ++ [⟨start, stop, argv, instructionMaps, dataMaps⟩] }
  | .command (.console _) | .command (.foreign _) | .complete => some l

/-- Enters granted requests in order. -/
def replay (load : Nat) (ops : List Operation) : Option Ledger :=
  ops.foldlM (enter load) ⟨[], [], []⟩

theorem replay_concat (load : Nat) (ops : List Operation) (op : Operation) :
    replay load (ops ++ [op]) = (replay load ops).bind fun l => l.enter load op := by
  unfold replay
  rw [List.foldlM_append]
  simp

end Ledger

/-- The argument text of a request for a new program. -/
def Operation.argv? : Operation → Option String
  | .command (.program _ _ _ argv _) => some argv
  | _ => none

namespace Session

/-- The ledger that a session and its inventory amount to. -/
def ledger (s : Session) (inv : Inventory) : Ledger where
  payloads := s.aliases.map fun a => (a.name, a.address.toNat, a.stop.toNat)
  maps := inv.maps.map MapEntry.record
  programs := inv.programs.map ProgramEntry.record

variable {s after : Session} {inv more : Inventory} {op : Operation}

/-- The id of a name is the position of its map. -/
theorem Sound.mapId?_eq (h : s.Sound inv) (hnames : ∀ e ∈ inv.maps, 0 ∉ Text.Utf8.bytes e.name)
    {name : String} {id : UInt8} (hid : inv.idOf? name = some id) :
    (s.ledger inv).mapId? name = some id.toNat := by
  obtain ⟨e, he, rfl⟩ := Option.map_eq_some_iff.1 hid
  obtain ⟨htitle, i, hi, hget, hbefore⟩ := List.find?_eq_some_iff_getElem.1 he
  -- the ledger compares the bytes of names, the session the names it reads back
  have hplain : ∀ a ∈ inv.maps, (a.record.name = Text.Utf8.bytes name ↔ a.title = name) := by
    intro a ha
    rw [MapEntry.title_eq (hnames a ha)]
    refine ⟨fun heq => ?_, fun heq => by rw [← heq]; rfl⟩
    have htext := congrArg Text.Utf8.text heq
    simpa [MapEntry.record] using htext
  have hnumber := h.numbered i e (by rw [List.getElem?_eq_getElem hi, hget])
  rw [hnumber]
  unfold Ledger.mapId? ledger
  rw [List.findIdx?_map, List.findIdx?_eq_some_iff_getElem]
  refine ⟨hi, ?_, ?_⟩
  · rw [hget]
    exact decide_eq_true ((hplain e (hget ▸ List.getElem_mem hi)).2 (of_decide_eq_true htitle))
  · intro j hj hj'
    have hother := (hplain _ (List.getElem_mem _)).1 (of_decide_eq_true hj')
    have hnot := hbefore j hj
    simp [hother] at hnot

/-- The ids of names are the positions of their maps. -/
theorem Sound.mapIds?_eq (h : s.Sound inv) (hnames : ∀ e ∈ inv.maps, 0 ∉ Text.Utf8.bytes e.name)
    {names : List String} {ids : List UInt8} (hids : names.mapM inv.idOf? = some ids) :
    names.mapM (s.ledger inv).mapId? = some (ids.map UInt8.toNat) := by
  induction names generalizing ids with
  | nil =>
    cases hids
    rfl
  | cons name rest ih =>
    rw [List.mapM_cons] at hids
    simp only [bind, Option.bind_eq_some_iff, pure, Option.some.injEq] at hids
    obtain ⟨first, hfirst, others, hothers, rfl⟩ := hids
    rw [List.mapM_cons, h.mapId?_eq hnames hfirst, ih hothers]
    rfl

/-! ## §2. Sessions in step with ledgers. -/

/-- **A granted request is entered as the session carried it out.** -/
theorem Granted.enter_eq (hg : s.Granted inv op after more) (h : s.Sound inv)
    (hnames : ∀ e ∈ inv.maps, 0 ∉ Text.Utf8.bytes e.name) :
    (s.ledger inv).enter s.load.toNat op = some (after.ledger more) := by
  cases hg with
  | @payload name place size hname hplace =>
    have hplace' : place.toNat + s.load.toNat + size.toNat < 2 ^ 32 := hplace
    have hstart : (place + s.load).toNat = place.toNat + s.load.toNat := by
      rw [UInt32.toNat_add]
      omega
    have hstop : (place + s.load + size).toNat = place.toNat + s.load.toNat + size.toNat := by
      rw [UInt32.toNat_add, hstart]
      omega
    simp only [Ledger.enter, ledger, List.map_cons, Alias.stop, hstart, hstop]
  | map e hplace hid =>
    simp [Ledger.enter, ledger, MapEntry.record, hid]
  | @program e payload instructionMaps dataMaps argv atOnce memory head hpayload hinstructions hdata
      hargv =>
    have htarget : (s.ledger inv).payloads.find? (·.1 = payload) = some (e.plan.payload.name,
        e.plan.payload.address.toNat, e.plan.payload.stop.toNat) := by
      simp only [ledger, List.find?_map, Function.comp_def, hpayload, Option.map_some]
    have hmark : e.plan.argv = (if atOnce then [0x58] else []) ++ Text.Utf8.bytes argv := hargv
    simp only [Ledger.enter, htarget, h.mapIds?_eq hnames hinstructions, h.mapIds?_eq hnames hdata,
      ← hmark]
    simp [ledger, ProgramEntry.record]
  | console | foreign | complete => rfl

/-- Where a session of a run stands: its page is where it was, no text in its inventory ends early,
and its ledger is that of the requests granted so far. -/
structure InStep (start : Session) (done : List Operation) (s : Session) (inv : Inventory) :
    Prop where
  load : s.load = start.load
  base : s.memory.base = start.memory.base
  order : s.memory.order = start.memory.order
  capacity : s.memory.capacity = start.memory.capacity
  names : ∀ e ∈ inv.maps, 0 ∉ Text.Utf8.bytes e.name
  argvs : ∀ e ∈ inv.programs, 0 ∉ e.plan.argv
  history : Ledger.replay start.load.toNat done = some (s.ledger inv)

/-- A refusal leaves a session in step. -/
theorem Refused.inStep {start : Session} {done : List Operation} {fault : Fault}
    (hr : s.Refused fault after) (h : InStep start done s inv) : InStep start done after inv := by
  cases hr with
  | earned => exact h
  | full _ he => exact { h with
      base := he.base.trans h.base
      order := he.order.trans h.order
      capacity := he.capacity.trans h.capacity }

theorem zero_not_mem_markedArgv {argv : String} (h : 0 ∉ Text.Utf8.bytes argv) (atOnce : Bool) :
    0 ∉ Program.markedArgv argv atOnce := by
  cases atOnce
  · exact h
  · simpa [Program.markedArgv, Program.startMark] using h

/-- So does a granted request, if its texts have no zero byte. -/
theorem Granted.inStep {start : Session} {done : List Operation} (hg : s.Granted inv op after more)
    (hs : s.Sound inv) (h : InStep start done s inv)
    (hname : ∀ name ∈ op.mapName?, 0 ∉ Text.Utf8.bytes name)
    (hargv : ∀ argv ∈ op.argv?, 0 ∉ Text.Utf8.bytes argv) :
    InStep start (done ++ [op]) after more := by
  have hnames := hg.names hname h.names
  have hhistory : Ledger.replay start.load.toNat (done ++ [op]) = some (after.ledger more) := by
    rw [Ledger.replay_concat, h.history, ← h.load]
    exact hg.enter_eq hs h.names
  cases hg with
  | payload => exact { h with history := hhistory }
  | map e _ _ _ hframe =>
    exact ⟨h.load, hframe.base.trans h.base, hframe.order.trans h.order,
      hframe.capacity.trans h.capacity, hnames, h.argvs, hhistory⟩
  | program e _ _ _ hmark _ _ hframe =>
    refine ⟨h.load, hframe.base.trans h.base, hframe.order.trans h.order,
      hframe.capacity.trans h.capacity, hnames, ?_, hhistory⟩
    intro p hp
    rcases List.mem_append.1 hp with hp | hp
    · exact h.argvs p hp
    · rw [List.mem_singleton.1 hp, hmark]
      exact zero_not_mem_markedArgv (hargv _ rfl) _
  | console => exact { h with history := hhistory }
  | foreign => exact { h with history := hhistory }
  | complete _ hframe =>
    exact ⟨h.load, hframe.base.trans h.base, hframe.order.trans h.order,
      hframe.capacity.trans h.capacity, hnames, h.argvs, hhistory⟩

/-- **A reader of the bytes of a page finds the ledger of its run.** -/
theorem complete_page_eq {place : Placement} {order : ByteOrder} {start : Session}
    (h : Session.create place order = .ok start) (ops : List Operation)
    (hnames : ∀ op ∈ ops, ∀ name ∈ op.mapName?, 0 ∉ Text.Utf8.bytes name)
    (hargvs : ∀ op ∈ ops, ∀ argv ∈ op.argv?, 0 ∉ Text.Utf8.bytes argv) :
    ∃ bytes after ledger, Session.complete (start.run ops) = .ok bytes after
      ∧ Ledger.replay place.load.toNat (start.accepted ops) = some ledger
      ∧ Reader.page? ⟨order, place.load.toNat + place.offset.toNat, bytes⟩
        = some ⟨(start.run ops).imageSize.toNat, bytes.length, place.load.toNat,
            (start.run ops).console.toNat, ledger.maps, ledger.programs⟩ := by
  obtain ⟨hstart, hbase, -⟩ := create_eq h
  have hempty : InStep start [] start ⟨[], []⟩ := by
    refine ⟨rfl, rfl, rfl, rfl, by simp, by simp, ?_⟩
    rw [hstart]
    rfl
  obtain ⟨inv, hsound, hstep⟩ := (create_sound h).run_keeps (InStep start) [] ops hempty
    (fun _ _ _ _ _ _ hP hr => hr.inStep hP)
    fun _ _ _ op _ _ hop hs hP hg => hg.inStep hs hP (hnames op hop) (hargvs op hop)
  obtain ⟨memory, hcomplete, hsize, hframe, hheader, hafter⟩ := hsound.complete_eq
  rw [List.nil_append] at hstep
  have hload : start.load = place.load := by rw [hstart]
  have hreader : memory.reader = ⟨order, place.load.toNat + place.offset.toNat, memory.bytes⟩ := by
    unfold reader
    rw [hframe.order, hstep.order, hframe.base, hstep.base, hstart, hbase]
  -- the size is stored in a word, and it never exceeds the capacity, which is one
  have hlt : memory.size < addressSpace := by
    have hbounded := hafter.arranged.proper.bounded
    have hcapacity : memory.capacity = place.capacity.toNat := by
      rw [hframe.capacity, hstep.capacity, hstart]
    have hword : place.capacity.toNat < 2 ^ 32 := place.capacity.toNat_lt
    exact Nat.lt_of_le_of_lt hbounded (hcapacity ▸ hword)
  -- storing the header does not change what it says
  have hsame : { start.run ops with memory := memory }.header = (start.run ops).header := by
    simp [header, hsize]
  have hpage := hafter.page?_eq (by rw [hsame]; exact hheader) hlt hstep.names hstep.argvs
  refine ⟨memory.bytes, _, _, hcomplete, hload ▸ hstep.history, ?_⟩
  rw [← hreader, length_bytes]
  rw [hstep.load, hload] at hpage
  exact hpage

/-- A page with a payload, a map, a map that is refused, and a program that is started at once. -/
theorem complete_page_eq_refused :
    ∃ start bytes after, Session.create ⟨0x1000, 0x100, 0x400⟩ .big = .ok start
      ∧ Session.complete (start.run [.command (.payload "psh" 0x400 0x80),
        .command (.map "ddr" 0x100 0x200 3), .command (.map "tcm" 0x180 0x280 3),
        .command (.program "psh" "ddr" "ddr;ddr" "psh;-v" true)]) = .ok bytes after
      ∧ (Reader.page? ⟨.big, 0x1100, bytes⟩).map (fun page => (page.maps, page.programs))
        = some ([⟨0, Text.Utf8.bytes "ddr", 0x100, 0x200, 3, 0⟩],
          [⟨0x1400, 0x1480, Text.Utf8.bytes "Xpsh;-v", [0], [0, 0]⟩]) := by
  have hstart : Session.create ⟨0x1000, 0x100, 0x400⟩ .big
      = .ok ⟨⟨0x1100, 0x400, .big, 24, .blank⟩, 0x1000, 0, 0, 0, 0, []⟩ := rfl
  obtain ⟨bytes, after, ledger, hcomplete, hreplay, hpage⟩ := complete_page_eq hstart
    [.command (.payload "psh" 0x400 0x80), .command (.map "ddr" 0x100 0x200 3),
      .command (.map "tcm" 0x180 0x280 3),
      .command (.program "psh" "ddr" "ddr;ddr" "psh;-v" true)] (by decide) (by decide)
  have hledger : some ledger = some ⟨[("psh", 0x1400, 0x1480)],
      [⟨0, Text.Utf8.bytes "ddr", 0x100, 0x200, 3, 0⟩],
      [⟨0x1400, 0x1480, Text.Utf8.bytes "Xpsh;-v", [0], [0, 0]⟩]⟩ := by
    rw [← hreplay]
    decide +kernel
  refine ⟨_, bytes, after, hstart, hcomplete, ?_⟩
  change Reader.page? ⟨.big, 0x1100, bytes⟩ = _ at hpage
  cases hledger
  rw [hpage]
  rfl

end Session
end SystemPage
