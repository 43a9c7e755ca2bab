/-
  SystemPage.Proofs.Completion — a page that is completed more than once.

  Completing a page stores its header and leaves all else as it is.  Nothing that is asked for
  later reads the header back, for the session knows what is in it; so a page may be completed at
  any time, and whoever goes on building it cannot tell.

  Two runs are looked at side by side, one with completions between its calls and one without.  They
  stay level: their sessions hold the same inventory, at the same place and in the same order, and
  their pages differ in words only.  A completion is a step of the first run that the other one does
  not take.  In the end both are completed, and then the words are the same as well.

  Main results:

      Level.complete_left   — a completion on one side leaves two sessions level
      Level.perform         — a call comes to the same in level sessions and leaves them level
      Level.complete_eq     — pages of level sessions have the same bytes once they are completed
      Sound.complete_stores — what completing a page writes and what it leaves
      completions_unseen    — all of it for any run, wherever the completions are put
-/
import SystemPage.Proofs.Commuting
import SystemPage.Proofs.Relocation
import SystemPage.Report

namespace SystemPage

open Memory SystemPage.Ring

/-! ## §1. Calls. -/

/-- What can be looked up in a session. -/
inductive Lookup where
  | payload (name : String)
  | mapId (name : String)
  | maps
  | programs
  | header
  | audit
  | report
  deriving DecidableEq

/-- What is called for while a page is being built. -/
inductive Call where
  -- a command, with its answer
  | command (c : Script.Command)
  -- the words of a line
  | line (words : List String)
  | lookup (l : Lookup)
  deriving DecidableEq

/-- What a call that is granted comes to. -/
inductive Reply where
  | answer (a : Script.Answer)
  | done
  | payload (found : Alias)
  | mapId (id : UInt8)
  | maps (maps : List AddressMap)
  | programs (programs : List Program)
  | header (header : Header)
  | report (text : String)
  deriving DecidableEq

/-- What is found in a session. -/
def Lookup.find (s : Session) : Lookup → Except Fault Reply
  | .payload name => (s.alias? name).map .payload
  | .mapId name => (s.mapId name).map .mapId
  | .maps => s.maps.map .maps
  | .programs => s.programs.map .programs
  | .header => .ok (.header s.header)
  | .audit => s.audit.map fun _ => .done
  | .report => .ok (.report s.report)

def Call.perform : Call → Edit Session Reply
  | .command c => Reply.answer <$> c.answer
  | .line words => (fun _ => .done) <$> Script.performWords words
  | .lookup l => Edit.look l.find

/-- One step of a run. -/
inductive Move where
  | call (c : Call)
  -- the page is completed, and its bytes are put aside
  | complete
  deriving DecidableEq

/-- The calls of a run. -/
def Move.calls : List Move → List Call
  | [] => []
  | .call c :: rest => c :: calls rest
  | .complete :: rest => calls rest

/-- Edits that are answered alike are so in whatever way the answer is told. -/
theorem Edit.answer_map {σ α β : Type} {f : α → β} {edit : Edit σ α} {s t : σ}
    (h : (Edit.outcome edit t).1 = (Edit.outcome edit s).1) :
    (Edit.outcome (f <$> edit) t).1 = (Edit.outcome (f <$> edit) s).1 := by
  rw [Edit.outcome_map, Edit.outcome_map, h]

theorem Edit.outcome_look {σ α : Type} (find : σ → Except Fault α) (s : σ) :
    Edit.outcome (Edit.look find) s = (find s, s) := by
  unfold Edit.outcome Edit.look
  cases find s with
  | ok a => rfl
  | error fault => rfl

namespace Session

/-- The session after a step. -/
def move (s : Session) : Move → Session
  | .call c => (Edit.outcome c.perform s).2
  | .complete => (Edit.outcome complete s).2

/-- What the calls of a run come to, in order. -/
def replies : Session → List Move → List (Except Fault Reply)
  | _, [] => []
  | s, .call c :: rest => (Edit.outcome c.perform s).1 :: replies (s.move (.call c)) rest
  | s, .complete :: rest => replies (s.move .complete) rest

/-- The bytes of the page that is completed behind a run. -/
def image (s : Session) (moves : List Move) : Except Fault (List UInt8) :=
  (Edit.outcome complete (moves.foldl move s)).1

/-! ## §2. Level sessions. -/

variable {inv : Inventory} {s t : Session}

theorem move_complete {bytes : List UInt8} (h : complete s = .ok bytes t) :
    s.move .complete = t := by
  rw [move, Edit.outcome, h]

/-- Two sessions with the same inventory, at the same place and in the same order, whose pages
differ in words only. -/
structure Level (inv : Inventory) (s t : Session) : Prop where
  twins : Twins inv s t
  base : t.memory.base = s.memory.base
  order : t.memory.order = s.memory.order

namespace Level

theorem refl (h : s.Sound inv) : Level inv s s :=
  ⟨⟨h, h, ⟨h.arranged.proper, h.arranged.proper, rfl, rfl, fun _ _ => rfl⟩, rfl, rfl, rfl, rfl⟩,
    rfl, rfl⟩

/-- Nothing that is done to two sessions moves their pages apart. -/
theorem of_samePlace {more : Inventory} {after after' : Session} (h : Level inv s t)
    (htwins : Twins more after after') (hs : s.SamePlace after) (ht : t.SamePlace after') :
    Level more after after' :=
  ⟨htwins, by rw [ht.base, hs.base, h.base], by rw [ht.order, hs.order, h.order]⟩

/-- **A completion on one side leaves two sessions level.** -/
theorem complete_left (h : Level inv s t) : Level inv (s.move .complete) t := by
  obtain ⟨memory, hcomplete, hplace, -, hsound, hmemory⟩ := h.twins.sound.complete_overwrites
  have hpages : Twin (InWord inv.wordPlaces) memory t.memory := by
    rw [hmemory]
    refine h.twins.pages.overwriteWords_left 0 s.header.words fun k hk => inv.inWord_of_lt ?_
    have hlt : k < 0 + 4 * 6 := hk.2
    exact hlt
  rw [move_complete hcomplete]
  exact h.of_samePlace { h.twins with sound := hsound, pages := hpages } hplace (.refl t)

/-- A request leaves two sessions level. -/
theorem after (h : Level inv s t) (op : Operation) :
    ∃ more, Level more (s.after op) (t.after op) := by
  obtain ⟨more, htwins⟩ := h.twins.run [op]
  exact ⟨more, h.of_samePlace htwins (h.twins.sound.run_samePlace [op])
    (h.twins.soundTwin.run_samePlace [op])⟩

/-- A command is answered alike in level sessions. -/
theorem answer_eq (h : Level inv s t) (c : Script.Command) :
    (Edit.outcome c.answer t).1 = (Edit.outcome c.answer s).1 := by
  cases c with
  | payload name place size =>
    exact Edit.answer_map ((h.twins.insertAlias_abreast name place size).outcome_eq
      fun _ _ _ _ _ => rfl)
  | map name start stop access =>
    exact Edit.answer_map (h.twins.insertMap_eq h.base name start stop access)
  | program target instructionMaps dataMaps argv atOnce =>
    exact Edit.answer_map
      (h.twins.insertProgram_eq h.base target instructionMaps dataMaps argv atOnce)
  | console token =>
    exact Edit.answer_map ((h.twins.selectConsole_abreast token).outcome_eq fun _ _ _ _ _ => rfl)
  | foreign name => rfl

/-- What is looked up is found alike in level sessions. -/
theorem find_eq (h : Level inv s t) (l : Lookup) : l.find t = l.find s := by
  have hheader := h.twins.header_eq h.base
  obtain ⟨hmaps, hprograms⟩ := h.twins.records_eq h.base
  cases l with
  | payload name => rw [Lookup.find, Lookup.find, h.twins.alias?_eq]
  | mapId name => rw [Lookup.find, Lookup.find, h.twins.mapId_eq]
  | maps => rw [Lookup.find, Lookup.find, hmaps]
  | programs => rw [Lookup.find, Lookup.find, hprograms]
  | header => rw [Lookup.find, Lookup.find, hheader]
  | audit => rw [Lookup.find, Lookup.find, h.twins.sound.audit_eq, h.twins.soundTwin.audit_eq]
  | report =>
    rw [Lookup.find, Lookup.find]
    unfold report reportLines
    rw [hheader, hmaps, hprograms]

/-- The words of a line leave two sessions level. -/
theorem line (h : Level inv s t) (words : List String) :
    ∃ more, Level more (Edit.outcome (Script.performWords words) s).2
      (Edit.outcome (Script.performWords words) t).2 := by
  cases words with
  | nil => exact ⟨inv, h⟩
  | cons name rest =>
    cases hread : Script.Command.ofWords name rest with
    | error fault =>
      rw [Edit.outcome, Edit.outcome, Script.performWords_of_error hread,
        Script.performWords_of_error hread]
      exact ⟨inv, h⟩
    | ok c =>
      rw [Script.performWords_of_ok hread]
      exact h.after (.command c)

/-- **A call comes to the same in level sessions and leaves them level.** -/
theorem perform (h : Level inv s t) (c : Call) :
    (Edit.outcome c.perform t).1 = (Edit.outcome c.perform s).1
      ∧ ∃ more, Level more (s.move (.call c)) (t.move (.call c)) := by
  cases c with
  | command c =>
    constructor
    · exact Edit.answer_map (h.answer_eq c)
    · have hmoved : ∀ p : Session, p.move (.call (.command c)) = p.after (.command c) := by
        intro p
        show (Edit.outcome (Reply.answer <$> c.answer) p).2 = _
        rw [Edit.outcome_map, outcome_answer]
      rw [hmoved, hmoved]
      exact h.after (.command c)
  | line words =>
    constructor
    · exact Edit.answer_map ((h.twins.performWords_abreast words).outcome_eq
        fun _ _ _ _ _ => rfl)
    · have hmoved : ∀ p : Session, p.move (.call (.line words))
          = (Edit.outcome (Script.performWords words) p).2 := by
        intro p
        show (Edit.outcome ((fun _ => Reply.done) <$> Script.performWords words) p).2 = _
        rw [Edit.outcome_map]
      rw [hmoved, hmoved]
      exact h.line words
  | lookup l =>
    have hlook : ∀ p : Session, Edit.outcome (Call.lookup l).perform p = (l.find p, p) :=
      Edit.outcome_look l.find
    constructor
    · rw [hlook, hlook, h.find_eq]
    · rw [move, move, hlook, hlook]
      exact ⟨inv, h⟩

/-- **Pages of level sessions have the same bytes once they are completed.** -/
theorem complete_eq (h : Level inv s t) :
    (Edit.outcome complete t).1 = (Edit.outcome complete s).1 := by
  obtain ⟨after, after', hs, ht, hplace, hplace', hheader, hheader', htwins⟩ :=
    h.twins.complete_abreast
  have hlevel := h.of_samePlace htwins hplace hplace'
  have hwords := (htwins.words_abreast hheader hheader').bothHold hlevel.base
  have hbytes : after'.memory.bytes = after.memory.bytes := by
    apply List.ext_getElem?
    intro k
    by_cases hk : InWord inv.wordPlaces k
    · obtain ⟨place, hplace, hin⟩ := hk
      exact (hwords place hplace).getElem?_eq hlevel.order hin
    · rw [getElem?_bytes, getElem?_bytes, htwins.pages.size, htwins.pages.same k hk]
  rw [Edit.outcome, Edit.outcome, hs, ht, hbytes]

end Level

/-! ## §3. What completing a page stores. -/

/-- The bytes of a page hold its header, and otherwise what the page held before. -/
structure Stores (s after : Session) (bytes : List UInt8) : Prop where
  -- a reader finds the header at the start of the page
  header : ∀ i < 6, (Reader.mk s.memory.order s.memory.base.toNat bytes).word?
    (s.memory.base.toNat + 4 * i) = s.header.words[i]?.map UInt32.toNat
  rest : bytes.drop headerSize = s.memory.bytes.drop headerSize
  length : bytes.length = s.memory.bytes.length
  unchanged : after = { s with memory := after.memory }
  headerAgain : after.header = s.header
  -- completing the page once more comes to the same bytes
  again : ∃ last, complete after = .ok bytes last

/-- **What completing a page writes and what it leaves.** -/
theorem Sound.complete_stores (h : s.Sound inv) :
    ∃ bytes after, complete s = .ok bytes after ∧ s.Stores after bytes := by
  obtain ⟨memory, hcomplete, hplace, hheld, hsound, hmemory⟩ := h.complete_overwrites
  have hsize : memory.size = s.memory.size := by
    rw [hmemory]
    rfl
  have hheader : ({ s with memory := memory } : Session).header = s.header := by
    simp only [Session.header, hsize]
  rw [HoldsHeader, hheader] at hheld
  refine ⟨memory.bytes, _, hcomplete, ?_, ?_, ?_, rfl, hheader, ?_⟩
  · intro i hi
    have hword := hheld.word hsound.arranged.proper (List.getElem?_eq_getElem hi)
    have hread := Holds.word?_eq hword
    rw [Nat.zero_add] at hread
    rw [List.getElem?_eq_getElem hi, ← hplace.base, ← hplace.order]
    exact hread
  · apply List.ext_getElem?
    intro k
    have hbehind : ¬ InRange 0 (4 * s.header.words.length) (headerSize + k) := by
      intro hin
      have hlt : 24 + k < 0 + 4 * 6 := hin.2
      omega
    rw [List.getElem?_drop, List.getElem?_drop, getElem?_bytes, getElem?_bytes, hsize, hmemory,
      get_overwriteWords s.memory hbehind]
  · rw [length_bytes, length_bytes, hsize]
  · -- the session after a completion is level with the one before it
    have hlevel := (Level.refl h).complete_left.complete_eq
    obtain ⟨memory', hagain, -⟩ := hsound.complete_overwrites
    rw [move_complete hcomplete, Edit.outcome, Edit.outcome, hcomplete, hagain] at hlevel
    rw [Except.ok.inj hlevel]
    exact ⟨_, hagain⟩

/-! ## §4. Runs with completions and without. -/

/-- **A run with completions comes to what it comes to without them.** -/
theorem Level.run (h : Level inv s t) (moves : List Move) :
    s.replies moves = t.replies ((Move.calls moves).map .call)
      ∧ ∃ more, Level more (moves.foldl move s)
        (((Move.calls moves).map Move.call).foldl move t) := by
  induction moves generalizing inv s t with
  | nil => exact ⟨rfl, inv, h⟩
  | cons m rest ih =>
    cases m with
    | call c =>
      obtain ⟨hreply, more, hlevel⟩ := h.perform c
      obtain ⟨hreplies, hend⟩ := ih hlevel
      refine ⟨?_, hend⟩
      show _ :: _ = _ :: _
      rw [hreply, hreplies]
    | complete => exact ih h.complete_left

/-- **Completing a page stores its header and nothing else, and goes unseen in every run.** -/
theorem completions_unseen (h : s.Reachable) (moves : List Move) :
    (∃ bytes after, complete s = .ok bytes after ∧ s.Stores after bytes)
      ∧ s.replies moves = s.replies ((Move.calls moves).map .call)
      ∧ s.image moves = s.image ((Move.calls moves).map .call) := by
  obtain ⟨inv, hsound⟩ := h.sound
  obtain ⟨hreplies, more, hlevel⟩ := (Level.refl hsound).run moves
  exact ⟨hsound.complete_stores, hreplies, hlevel.complete_eq.symm⟩

/-- A page at the first address, with completions before, between and behind the calls.  One of the
maps is in the way of another. -/
theorem completions_unseen_first_address :
    ∃ s moves calls, Session.create ⟨0, 0, 0x400⟩ .big = .ok s
      ∧ moves = [.complete, .call (.command (.map "ddr" 0x100 0x200 3)), .complete, .complete,
        .call (.line ["map", "tcm", "0x180", "0x280", "rw"]), .call (.lookup (.mapId "ddr")),
        .complete]
      ∧ calls = [.call (.command (.map "ddr" 0x100 0x200 3)),
        .call (.line ["map", "tcm", "0x180", "0x280", "rw"]), .call (.lookup (.mapId "ddr"))]
      ∧ (∃ bytes after, complete s = .ok bytes after ∧ s.Stores after bytes)
      ∧ s.replies moves = [.ok (.answer (.map ⟨24, 0, "ddr", 0x100, 0x200, 3, 0⟩)),
        .error (.overlap "tcm" 0x180 0x280 "ddr" 0x100 0x200), .ok (.mapId 0)]
      ∧ s.image moves = s.image calls := by
  have hstart : ∃ s, Session.create ⟨0, 0, 0x400⟩ .big = .ok s
      ∧ s.replies [.call (.command (.map "ddr" 0x100 0x200 3)),
          .call (.line ["map", "tcm", "0x180", "0x280", "rw"]), .call (.lookup (.mapId "ddr"))]
        = [.ok (.answer (.map ⟨24, 0, "ddr", 0x100, 0x200, 3, 0⟩)),
          .error (.overlap "tcm" 0x180 0x280 "ddr" 0x100 0x200), .ok (.mapId 0)] :=
    ⟨_, rfl, by decide +kernel⟩
  obtain ⟨s, hcreate, hreplies⟩ := hstart
  obtain ⟨hstores, hsame, himage⟩ := completions_unseen (.create hcreate)
    [.complete, .call (.command (.map "ddr" 0x100 0x200 3)), .complete, .complete,
      .call (.line ["map", "tcm", "0x180", "0x280", "rw"]), .call (.lookup (.mapId "ddr")),
      .complete]
  exact ⟨s, _, _, hcreate, rfl, rfl, hstores, hsame.trans hreplies, himage⟩

end Session
end SystemPage
