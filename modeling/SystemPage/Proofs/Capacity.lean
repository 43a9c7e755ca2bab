/-
  SystemPage.Proofs.Capacity — what the capacity of a page decides.

  Only growth looks at the capacity, and all it asks is whether the page would stay below it.  So a
  build that finishes does the same thing, byte by byte, in a page of any other capacity that stays
  above the size it comes to; and since sizes never shrink, the size at the end tells whether it
  finishes at all.  That size is a sum over what was added.

  Main results:

      Scales.bind          — edits that do not depend on the capacity can be put in sequence
      performAll_scales    — commands that finish finish alike in any page that is large enough
      performAll_room      — after a command that adds something the page is below its capacity
      performAll_size      — how large the page is after commands
      performScripts_capacity
                           — the capacity decides whether scripts finish and nothing else
-/
import SystemPage.Proofs.Commands

namespace SystemPage

/-! ## §1. Pages and sessions of another capacity. -/

/-- The same page with another capacity. -/
def Memory.withCapacity (m : Memory) (n : Nat) : Memory := { m with capacity := n }

/-- The same session in a page of another capacity. -/
def Session.withCapacity (s : Session) (n : Nat) : Session :=
  { s with memory := s.memory.withCapacity n }

namespace Ring

/-- A visit does not look at the capacity. -/
theorem visit_withCapacity {α : Type} (m : Memory) (n : Nat) (head : UInt32) (act : Visit α)
    (start : α) : visit (m.withCapacity n) head act start = visit m head act start := by
  have key : ∀ (steps : Nat) (node : UInt32) (found : α),
      visitFrom (m.withCapacity n) head act steps node found
        = visitFrom m head act steps node found := by
    intro steps
    induction steps with
    | zero => intro node found; rfl
    | succ steps ih =>
      intro node found
      rw [visitFrom, visitFrom, show next (m.withCapacity n) node = next m node from rfl]
      simp only [ih]
  unfold visit
  rw [key]
  rfl

theorem collect_withCapacity {α : Type} (m : Memory) (n : Nat) (head : UInt32)
    (read : UInt32 → Except Fault α) :
    collect (m.withCapacity n) head read = collect m head read := by
  unfold collect
  rw [visit_withCapacity]

theorem find?_withCapacity {α : Type} (m : Memory) (n : Nat) (head : UInt32)
    (look : UInt32 → Except Fault (Option α)) :
    find? (m.withCapacity n) head look = find? m head look := by
  unfold find?
  rw [visit_withCapacity]

end Ring

namespace Session

variable (s : Session) (n : Nat)

theorem maps_withCapacity : (s.withCapacity n).maps = s.maps :=
  Ring.collect_withCapacity s.memory n s.mapHead (AddressMap.load s.memory)

theorem freshMapId_withCapacity (name : String) (start stop : UInt32) :
    (s.withCapacity n).freshMapId name start stop = s.freshMapId name start stop := by
  unfold freshMapId
  rw [maps_withCapacity]

theorem mapId_withCapacity (name : String) : (s.withCapacity n).mapId name = s.mapId name := by
  unfold mapId
  exact congrArg (· >>= _) (Ring.find?_withCapacity s.memory n s.mapHead _)

theorem planProgram_withCapacity (payload instructionMaps dataMaps argv : String)
    (atOnce : Bool) :
    (s.withCapacity n).planProgram payload instructionMaps dataMaps argv atOnce
      = s.planProgram payload instructionMaps dataMaps argv atOnce := by
  unfold planProgram mapIds
  rw [funext (s.mapId_withCapacity n)]
  rfl

end Session

/-! ## §2. Edits that do not depend on the capacity. -/

/-- An edit that never shrinks the page, and that finishes in the same way in a page of any other
capacity above the size it leaves. -/
structure Edit.Scales {σ α : Type} (size : σ → Nat) (resize : σ → Nat → σ) (edit : Edit σ α) :
    Prop where
  grows : ∀ s a after, edit s = .ok a after → size s ≤ size after
  again : ∀ s a after n, edit s = .ok a after → size after < n →
    edit (resize s n) = .ok a (resize after n)

namespace Edit.Scales

variable {σ α β : Type} {size : σ → Nat} {resize : σ → Nat → σ}

/-- **Edits that do not depend on the capacity can be put in sequence.** -/
theorem bind {edit : Edit σ α} {rest : α → Edit σ β} (h : edit.Scales size resize)
    (hrest : ∀ a, (rest a).Scales size resize) : (edit >>= rest).Scales size resize := by
  refine ⟨?_, ?_⟩
  · intro s b after hb
    obtain ⟨a, middle, ha, hafter⟩ := Edit.bind_eq_ok_iff.1 hb
    exact Nat.le_trans (h.grows s a middle ha) ((hrest a).grows middle b after hafter)
  · intro s b after n hb hn
    obtain ⟨a, middle, ha, hafter⟩ := Edit.bind_eq_ok_iff.1 hb
    -- the first edit leaves a page that is no larger than the one in the end
    have hmiddle : size middle < n := Nat.lt_of_le_of_lt ((hrest a).grows middle b after hafter) hn
    rw [Edit.bind_of_ok (h.again s a middle n ha hmiddle)]
    exact (hrest a).again middle b after n hafter hn

/-- An edit that keeps the size and has no use for the capacity. -/
theorem of_total {edit : Edit σ α} (hsize : ∀ s a after, edit s = .ok a after → size s = size after)
    (hsame : ∀ s a after n, edit s = .ok a after → edit (resize s n) = .ok a (resize after n)) :
    edit.Scales size resize :=
  ⟨fun s a after h => Nat.le_of_eq (hsize s a after h), fun s a after n h _ => hsame s a after n h⟩

theorem pure (a : α) : (Pure.pure a : Edit σ α).Scales size resize := by
  apply of_total
  · intro s b after h
    cases h
    rfl
  · intro s b after n h
    cases h
    rfl

theorem look {find : σ → Except Fault α} (hfind : ∀ s n, find (resize s n) = find s) :
    (Edit.look find).Scales size resize := by
  apply of_total
  · intro s a after h
    rw [(Edit.look_eq_ok_iff.1 h).2]
  · intro s a after n h
    obtain ⟨hfound, rfl⟩ := Edit.look_eq_ok_iff.1 h
    exact Edit.look_of_ok ((hfind s n).trans hfound)

end Edit.Scales

namespace Memory

/-- Edits of a page that do not depend on its capacity. -/
abbrev Scales {α : Type} (edit : Edit Memory α) : Prop :=
  edit.Scales Memory.size Memory.withCapacity

/-- Writing has no use for the capacity at all. -/
theorem write_again {address : UInt32} {new : List UInt8} {m after : Memory} {u : Unit}
    (h : write address new m = .ok u after) :
    m.size = after.size
      ∧ ∀ n, write address new (m.withCapacity n) = .ok u (after.withCapacity n) := by
  unfold write at h ⊢
  split at h
  · next start hstart =>
    cases h
    refine ⟨rfl, fun n => ?_⟩
    have hstart' : (m.withCapacity n).offset address new.length = .ok start := hstart
    rw [hstart']
    rfl
  · cases h

theorem write_scales (address : UInt32) (new : List UInt8) : Scales (write address new) :=
  .of_total (fun _ _ _ h => (write_again h).1) fun _ _ _ n h => (write_again h).2 n

theorem writeWords_again {address : UInt32} {words : List UInt32} {m after : Memory} {u : Unit}
    (h : writeWords address words m = .ok u after) :
    m.size = after.size
      ∧ ∀ n, writeWords address words (m.withCapacity n) = .ok u (after.withCapacity n) :=
  write_again h

theorem writeWords_scales (address : UInt32) (words : List UInt32) :
    Scales (writeWords address words) :=
  .of_total (fun _ _ _ h => (writeWords_again h).1) fun _ _ _ n h => (writeWords_again h).2 n

/-- Growth asks for nothing but that the page stays below its capacity. -/
theorem reserve_scales (size : Nat) : Scales (reserve size) := by
  refine ⟨?_, ?_⟩
  · intro m address after h
    unfold reserve at h
    split at h
    · cases h
      exact le_size_grow m size
    · cases h
  · intro m address after n h hn
    unfold reserve at h ⊢
    split at h
    · cases h
      have hlt : (m.withCapacity n).sizeWith size < (m.withCapacity n).capacity := hn
      rw [if_pos hlt]
      rfl
    · cases h

theorem store_scales (bytes : List UInt8) : Scales (store bytes) :=
  (reserve_scales bytes.length).bind fun address =>
    (write_scales address bytes).bind fun _ => .pure address

end Memory

theorem AddressMap.put_scales (id : UInt8) (name : String) (start stop access : UInt32) :
    Memory.Scales (put id name start stop access) :=
  (Memory.reserve_scales recordSize).bind fun address =>
    (Memory.store_scales _).bind fun _ =>
      (Memory.writeWords_scales _ _).bind fun _ =>
        (Memory.write_scales _ _).bind fun _ =>
          (Memory.writeWords_scales _ _).bind fun _ => .pure address

theorem Program.Plan.put_scales (plan : Plan) : Memory.Scales plan.put :=
  (Memory.reserve_scales recordSize).bind fun address =>
    (Memory.store_scales _).bind fun _ =>
      (Memory.store_scales _).bind fun _ =>
        (Memory.store_scales _).bind fun _ =>
          (Memory.writeWords_scales _ _).bind fun _ => .pure address

theorem Ring.append_scales (head node : UInt32) : Memory.Scales (append head node) := by
  unfold append setNext setPrevious
  split
  · exact (Memory.writeWords_scales _ _).bind fun _ =>
      (Memory.writeWords_scales _ _).bind fun _ => .pure node
  · have hlook : Memory.Scales (Edit.look (previous · head)) := .look fun _ _ => rfl
    exact hlook.bind fun tail => (Memory.writeWords_scales _ _).bind fun _ =>
      (Memory.writeWords_scales _ _).bind fun _ => (Memory.writeWords_scales _ _).bind fun _ =>
        (Memory.writeWords_scales _ _).bind fun _ => .pure head

/-! ## §3. Commands. -/

namespace Session

/-- Edits of a session that do not depend on the capacity of its page. -/
abbrev Scales {α : Type} (edit : Edit Session α) : Prop :=
  edit.Scales (fun s => s.memory.size) Session.withCapacity

theorem onMemory_scales {α : Type} {edit : Edit Memory α} (h : Memory.Scales edit) :
    Scales (onMemory edit) := by
  refine ⟨?_, ?_⟩
  · intro s a after ha
    obtain ⟨memory, hmemory, rfl⟩ := onMemory_eq_ok_iff.1 ha
    exact h.grows _ _ _ hmemory
  · intro s a after n ha hn
    obtain ⟨memory, hmemory, rfl⟩ := onMemory_eq_ok_iff.1 ha
    exact onMemory_eq_ok_iff.2 ⟨_, h.again _ _ _ n hmemory hn, rfl⟩

/-- An edit of the other parts of a session. -/
theorem modify_scales {f : Session → Session} (hsize : ∀ s, (f s).memory = s.memory)
    (hsame : ∀ s n, f (s.withCapacity n) = (f s).withCapacity n) :
    Scales (modify f : Edit Session PUnit) := by
  refine .of_total ?_ ?_
  · intro s a after h
    cases h
    exact congrArg Memory.size (hsize s).symm
  · intro s a after n h
    cases h
    show EStateM.Result.ok _ (f (s.withCapacity n)) = _
    rw [hsame]

/-- The last steps of adding a record: it joins its ring, and the head of the ring is set. -/
theorem join_scales {α : Type} (part : Session → UInt32) (set : UInt32 → Session → Session)
    (hpart : ∀ s n, part (s.withCapacity n) = part s)
    (hset : ∀ head s, (set head s).memory = s.memory)
    (hsame : ∀ head s n, set head (s.withCapacity n) = (set head s).withCapacity n)
    (address : UInt32) (answer : α) :
    Scales (do
      let head ← onMemory (Ring.append (part (← get)) address)
      modify (set head)
      return answer) := by
  have hlook : Scales (Edit.look fun s => .ok (part s)) :=
    .look fun s n => congrArg Except.ok (hpart s n)
  have hrest : ∀ head, Scales (do
      let head ← onMemory (Ring.append head address)
      modify (set head)
      return answer) := fun head =>
    (onMemory_scales (Ring.append_scales head address)).bind fun head =>
      (modify_scales (hset head) (hsame head)).bind fun _ => .pure answer
  -- of the session before, nothing but the head of the ring is used
  have hall := hlook.bind hrest
  exact hall

theorem insertMap_scales (name : String) (start stop access : UInt32) :
    Scales (insertMap name start stop access) := by
  unfold insertMap
  refine Edit.Scales.bind (.look fun s n => s.freshMapId_withCapacity n name start stop)
    fun id => ?_
  refine (onMemory_scales (AddressMap.put_scales ..)).bind fun address => ?_
  exact join_scales Session.mapHead (fun head s => { s with mapHead := head }) (fun _ _ => rfl)
    (fun _ _ => rfl) (fun _ _ _ => rfl) address _

theorem insertProgram_scales (payload instructionMaps dataMaps argv : String) (atOnce : Bool) :
    Scales (insertProgram payload instructionMaps dataMaps argv atOnce) := by
  unfold insertProgram
  refine Edit.Scales.bind (.look fun s n => s.planProgram_withCapacity n payload instructionMaps
    dataMaps argv atOnce) fun plan => ?_
  refine (onMemory_scales plan.put_scales).bind fun address => ?_
  exact join_scales Session.programHead (fun head s => { s with programHead := head })
    (fun _ _ => rfl) (fun _ _ => rfl) (fun _ _ _ => rfl) address _

/-- The bytes of a complete page do not depend on its capacity. -/
theorem complete_again {s after : Session} {bytes : List UInt8}
    (h : complete s = .ok bytes after) (n : Nat) :
    complete (s.withCapacity n) = .ok bytes (after.withCapacity n) := by
  unfold complete at h ⊢
  rw [Edit.bind_of_ok (Edit.get_eq _)] at h ⊢
  obtain ⟨u, middle, hwrite, hbytes⟩ := Edit.bind_eq_ok_iff.1 h
  cases hbytes
  obtain ⟨memory, hmemory, rfl⟩ := onMemory_eq_ok_iff.1 hwrite
  have hagain := (Memory.writeWords_again hmemory).2 n
  rw [Edit.bind_of_ok (onMemory_eq_ok_iff.2 ⟨_, hagain, rfl⟩)]
  rfl

end Session

namespace Script

/-- Whether a command adds a map or a program. -/
def Command.adds : Command → Bool
  | .map .. | .program .. => true
  | .payload .. | .console _ | .foreign _ => false

/-- A command that adds nothing leaves the page alone, and so its capacity does not matter at
all. -/
theorem Command.perform_of_not_adds {command : Command} (hadds : command.adds = false)
    {s after : Session} (h : command.perform s = .ok () after) :
    after.memory = s.memory
      ∧ ∀ n, command.perform (s.withCapacity n) = .ok () (after.withCapacity n) := by
  cases command with
  | map | program => cases hadds
  | payload name place size =>
    change Session.insertAlias name place size s = _ at h
    show _ ∧ ∀ n, Session.insertAlias name place size (s.withCapacity n) = _
    rw [Session.insertAlias_eq] at h
    simp only [Session.insertAlias_eq]
    split at h
    · cases h
    · split at h
      · cases h
      · next hname hplace =>
        cases h
        refine ⟨rfl, fun n => ?_⟩
        have hplace' : ¬ addressSpace ≤ place.toNat + (s.withCapacity n).load.toNat + size.toNat :=
          hplace
        rw [if_neg hname, if_neg hplace']
        rfl
  | console token =>
    obtain ⟨number, _, hlook, hset⟩ := Edit.bind_eq_ok_iff.1 h
    obtain ⟨hnumber, rfl⟩ := Edit.look_eq_ok_iff.1 hlook
    cases hset
    refine ⟨rfl, fun n => Edit.bind_eq_ok_iff.2 ⟨number, _, Edit.look_of_ok hnumber, rfl⟩⟩
  | foreign name =>
    cases h
    exact ⟨rfl, fun n => rfl⟩

theorem Command.perform_scales (command : Command) : Session.Scales command.perform := by
  cases command with
  | map name start stop access =>
    exact Edit.Scales.bind (Session.insertMap_scales ..) fun _ => .pure ()
  | program payload instructionMaps dataMaps argv atOnce =>
    exact Edit.Scales.bind (Session.insertProgram_scales ..) fun _ => .pure ()
  | payload | console | foreign =>
    refine .of_total ?_ ?_
    · intro s u after h
      exact congrArg Memory.size (perform_of_not_adds rfl h).1.symm
    · intro s u after n h
      exact (perform_of_not_adds rfl h).2 n

/-- **Commands that finish finish alike in any page that is large enough.** -/
theorem performAll_scales (commands : List Command) : Session.Scales (performAll commands) := by
  induction commands with
  | nil => exact .pure ()
  | cons command rest ih => exact command.perform_scales.bind fun _ => ih

end Script

/-! ## §4. Room. -/

namespace Session.Sound

variable {s after : Session} {inv : Inventory}

/-- After a command that adds something the page is below its capacity. -/
theorem perform_room (h : s.Sound inv) {command : Script.Command} (hadds : command.adds = true)
    (hperform : command.perform s = .ok () after) :
    after.memory.size < after.memory.capacity := by
  cases command with
  | payload | console | foreign => cases hadds
  | map name start stop access =>
    obtain ⟨map, _, hinsert, hdone⟩ := Edit.bind_eq_ok_iff.1 hperform
    cases hdone
    obtain ⟨fault, hfresh, -⟩ | ⟨id, hfresh, hid, hfree⟩ := h.freshMapId_cases name start stop
    · rw [insertMap_of_error hfresh] at hinsert
      cases hinsert
    · by_cases hfit : s.memory.size + ((AddressMap.blockSizes name).map roundUp).sum
        < s.memory.capacity
      · obtain ⟨memory, head, hinsert', hsize, hframe, -⟩ :=
          h.insertMap_of_lt hfresh hid hfree access hfit
        rw [hinsert'] at hinsert
        cases hinsert
        show memory.size < memory.capacity
        rw [hsize, hframe.capacity]
        exact hfit
      · obtain ⟨fault, memory, hinsert', -⟩ :=
          h.insertMap_of_le hfresh access (Nat.le_of_not_lt hfit)
        rw [hinsert'] at hinsert
        cases hinsert
  | program payload instructionMaps dataMaps argv atOnce =>
    obtain ⟨program, _, hinsert, hdone⟩ := Edit.bind_eq_ok_iff.1 hperform
    cases hdone
    obtain ⟨fault, hplan, -⟩ | ⟨plan, hplan, -, hinstructions, hdata, -⟩ :=
      h.planProgram_cases payload instructionMaps dataMaps argv atOnce
    · rw [insertProgram_of_error hplan] at hinsert
      cases hinsert
    · by_cases hfit : s.memory.size + (plan.blockSizes.map roundUp).sum < s.memory.capacity
      · obtain ⟨memory, head, hinsert', hsize, hframe, -⟩ :=
          h.insertProgram_of_lt hplan hinstructions hdata hfit
        rw [hinsert'] at hinsert
        cases hinsert
        show memory.size < memory.capacity
        rw [hsize, hframe.capacity]
        exact hfit
      · obtain ⟨fault, memory, hinsert', -⟩ := h.insertProgram_of_le hplan (Nat.le_of_not_lt hfit)
        rw [hinsert'] at hinsert
        cases hinsert

end Session.Sound

namespace Script

/-- Commands that add nothing leave the page alone, and so its capacity does not matter at all. -/
theorem performAll_of_not_adds {commands : List Command}
    (hadds : ∀ command ∈ commands, command.adds = false) {s after : Session}
    (h : performAll commands s = .ok () after) :
    after.memory = s.memory
      ∧ ∀ n, performAll commands (s.withCapacity n) = .ok () (after.withCapacity n) := by
  induction commands generalizing s with
  | nil =>
    cases h
    exact ⟨rfl, fun n => rfl⟩
  | cons command rest ih =>
    obtain ⟨middle, hfirst, hrest⟩ := performAll_cons_eq_ok_iff.1 h
    obtain ⟨hmiddle, hfirst'⟩ := Command.perform_of_not_adds (hadds command (by simp)) hfirst
    obtain ⟨hafter, hrest'⟩ := ih (fun command hmem => hadds command (by simp [hmem])) hrest
    refine ⟨hafter.trans hmiddle, fun n => performAll_cons_eq_ok_iff.2 ⟨_, hfirst' n, hrest' n⟩⟩

/-- **After commands that add something the page is below its capacity.** -/
theorem performAll_room {commands : List Command} {s after : Session} {inv : Inventory}
    (h : s.Sound inv) (hperform : performAll commands s = .ok () after) :
    (∀ command ∈ commands, command.adds = false) ∨ after.memory.size < after.memory.capacity := by
  induction commands generalizing s inv with
  | nil => exact .inl (by simp)
  | cons command rest ih =>
    obtain ⟨middle, hfirst, hrest⟩ := performAll_cons_eq_ok_iff.1 hperform
    have hone : performAll [command] s = .ok () middle :=
      performAll_cons_eq_ok_iff.2 ⟨middle, hfirst, rfl⟩
    obtain ⟨more, hmiddle, -⟩ := h.performAll hone
    rcases ih hmiddle hrest with hplain | hroom
    · by_cases hadds : command.adds = true
      · -- nothing is added after the command, so the page is as the command left it
        rw [(performAll_of_not_adds hplain hrest).1]
        exact .inr (h.perform_room hadds hfirst)
      · refine .inl fun other hother => ?_
        rcases List.mem_cons.1 hother with rfl | hother
        · exact Bool.eq_false_iff.2 hadds
        · exact hplain other hother
    · exact .inr hroom

end Script

/-! ## §5. Sizes. -/

/-- How much a command adds to a page when it is granted. -/
def Script.Command.footprint : Script.Command → Nat
  | .map name .. => 32 + roundUp ((Text.Utf8.bytes name).length + 1)
  | .program _ instructionMaps dataMaps argv atOnce =>
    40 + roundUp (Text.fieldTexts ';' dataMaps).length
      + roundUp (Text.fieldTexts ';' instructionMaps).length
      + roundUp ((Text.Utf8.bytes argv).length + 1 + if atOnce then 1 else 0)
  | .payload .. | .console _ | .foreign _ => 0

/-- How much of a page a map takes. -/
def AddressMap.footprint (map : AddressMap) : Nat :=
  32 + roundUp ((Text.Utf8.bytes map.name).length + 1)

/-- How much of a page a program takes.  Its argument text has the mark with it. -/
def Program.footprint (p : Program) : Nat :=
  40 + roundUp p.dataMaps.length + roundUp p.instructionMaps.length + roundUp (p.argv.length + 1)

/-- Where the size of a page stands after commands that were all granted: it is a sum over the
commands, and a sum over what they have added. -/
structure Session.Sized (done : List Script.Command) (s : Session) (inv : Inventory) : Prop where
  names : ∀ e ∈ inv.maps, 0 ∉ Text.Utf8.bytes e.name
  argvs : ∀ e ∈ inv.programs, 0 ∉ e.plan.argv ∧ ∃ text, e.plan.argv = Text.Utf8.bytes text
  commands : s.memory.size = headerSize + (done.map Script.Command.footprint).sum
  entries : s.memory.size = headerSize
    + (inv.maps.map fun e => ((AddressMap.blockSizes e.name).map roundUp).sum).sum
    + (inv.programs.map fun e => (e.plan.blockSizes.map roundUp).sum).sum

/-- An argument text with its mark is a text. -/
theorem Program.markedArgv_eq (argv : String) (atOnce : Bool) :
    markedArgv argv atOnce = Text.Utf8.bytes ((if atOnce then "X" else "") ++ argv) := by
  have hmark : Text.Utf8.encode ['X'] = [startMark] := by decide
  cases atOnce with
  | false => simp [markedArgv]
  | true =>
    show [startMark] ++ Text.Utf8.bytes argv = Text.Utf8.encode ("X" ++ argv).toList
    rw [String.toList_append, Text.Utf8.encode, List.flatMap_append, ← hmark]
    rfl

theorem Program.length_markedArgv (argv : String) (atOnce : Bool) :
    (markedArgv argv atOnce).length
      = (Text.Utf8.bytes argv).length + if atOnce then 1 else 0 := by
  cases atOnce with
  | false => rfl
  | true =>
    show (startMark :: Text.Utf8.bytes argv).length = _
    rw [List.length_cons, if_pos rfl]

/-- As many things are found as were looked for. -/
theorem length_of_mapM {α β : Type} {find : α → Option β} {items : List α} {found : List β}
    (h : items.mapM find = some found) : found.length = items.length := by
  induction items generalizing found with
  | nil =>
    cases h
    rfl
  | cons a rest ih =>
    rw [List.mapM_cons] at h
    simp only [bind, Option.bind_eq_some_iff, pure, Option.some.injEq] at h
    obtain ⟨b, -, others, hothers, rfl⟩ := h
    rw [List.length_cons, List.length_cons, ih hothers]

theorem Session.Granted.sized {done : List Script.Command} {command : Script.Command}
    {s after : Session} {inv more : Inventory} (hg : s.Granted inv (.command command) after more)
    (hplain : ∀ text ∈ command.texts, 0 ∉ Text.Utf8.bytes text) (h : s.Sized done inv) :
    after.Sized (done ++ [command]) more := by
  have hcommands := h.commands
  have hentries := h.entries
  cases hg with
  | map e hplace hid hsize hframe =>
    have hsum := AddressMap.sum_blockSizes e.name
    refine ⟨?_, h.argvs, ?_, ?_⟩
    · intro a ha
      rcases List.mem_append.1 ha with ha | ha
      · exact h.names a ha
      · rw [List.mem_singleton.1 ha]
        exact hplain e.name (by simp [Script.Command.texts])
    · simp only [List.map_append, List.map_cons, List.map_nil, List.sum_append, List.sum_cons,
        List.sum_nil, Script.Command.footprint]
      omega
    · simp only [List.map_append, List.map_cons, List.map_nil, List.sum_append, List.sum_cons,
        List.sum_nil]
      omega
  | program e hpayload hinstructions hdata hargv hplace hsize hframe =>
    rename_i payload instructionMaps dataMaps argv atOnce memory head
    have hsum := e.plan.sum_blockSizes
    have hlength := Program.length_markedArgv argv atOnce
    rw [← hargv] at hlength
    refine ⟨h.names, ?_, ?_, ?_⟩
    · intro p hp
      rcases List.mem_append.1 hp with hp | hp
      · exact h.argvs p hp
      · rw [List.mem_singleton.1 hp, hargv]
        exact ⟨zero_not_mem_markedArgv (hplain argv (by simp [Script.Command.texts])) atOnce, _,
          Program.markedArgv_eq argv atOnce⟩
    · have hfootprint : (Script.Command.program payload instructionMaps dataMaps argv
          atOnce).footprint = (e.plan.blockSizes.map roundUp).sum := by
        rw [Script.Command.footprint, ← length_of_mapM hinstructions, ← length_of_mapM hdata, hsum,
          hlength, Nat.add_right_comm (Text.Utf8.bytes argv).length]
      simp only [List.map_append, List.map_cons, List.map_nil, List.sum_append, List.sum_cons,
        List.sum_nil, hfootprint]
      omega
    · simp only [List.map_append, List.map_cons, List.map_nil, List.sum_append, List.sum_cons,
        List.sum_nil]
      omega
  | payload | console | foreign =>
    exact { h with commands := by simpa [Script.Command.footprint] using hcommands }

/-- **How large a page is after commands that were all granted.** -/
theorem Session.performAll_size {place : Placement} {order : ByteOrder}
    {start after : Session} {commands : List Script.Command}
    (h : Session.create place order = .ok start)
    (hplain : ∀ command ∈ commands, ∀ text ∈ command.texts, 0 ∉ Text.Utf8.bytes text)
    (hperform : Script.performAll commands start = .ok () after) :
    ∃ maps programs, after.maps = .ok maps ∧ after.programs = .ok programs
      ∧ after.memory.size = headerSize + (commands.map Script.Command.footprint).sum
      ∧ after.memory.size = headerSize + (maps.map AddressMap.footprint).sum
        + (programs.map Program.footprint).sum := by
  have hstart : start.Sized [] ⟨[], []⟩ := by
    rw [(create_eq h).1]
    exact ⟨by simp, by simp, rfl, rfl⟩
  obtain ⟨inv, hsound, hsized⟩ := (create_sound h).performAll_keeps Session.Sized [] commands hstart
    hperform fun done t inv command after more hmem _ hP hg => hg.sized (hplain command hmem) hP
  have hmaps : inv.maps.map (fun e => ((AddressMap.blockSizes e.name).map roundUp).sum)
      = (inv.maps.map (MapEntry.map after.memory)).map AddressMap.footprint := by
    rw [List.map_map]
    refine List.map_congr_left fun e he => ?_
    show ((AddressMap.blockSizes e.name).map roundUp).sum = 32 + roundUp (_ + 1)
    rw [AddressMap.sum_blockSizes, ← MapEntry.title_eq (hsized.names e he)]
    rfl
  have hprograms : inv.programs.map (fun e => (e.plan.blockSizes.map roundUp).sum)
      = (inv.programs.map (ProgramEntry.program after.memory)).map Program.footprint := by
    rw [List.map_map]
    refine List.map_congr_left fun e he => ?_
    obtain ⟨hzero, text, htext⟩ := hsized.argvs e he
    have hargv : Text.Utf8.bytes (Text.Utf8.text (upToZero e.plan.argv)) = e.plan.argv := by
      rw [upToZero_eq_self hzero, htext, Text.Utf8.text_bytes]
    show (e.plan.blockSizes.map roundUp).sum = 40 + roundUp _ + roundUp _
      + roundUp ((Text.Utf8.bytes (Text.Utf8.text (upToZero e.plan.argv))).length + 1)
    rw [hargv]
    exact e.plan.sum_blockSizes
  refine ⟨_, _, hsound.maps_eq, hsound.programs_eq, hsized.commands, ?_⟩
  rw [← hmaps, ← hprograms]
  exact hsized.entries

/-! ## §6. Two capacities. -/

namespace Script

/-- Two sessions that start at the same place differ in the capacity of their pages alone. -/
theorem create_withCapacity {place : Placement} {capacity : UInt32} {order : ByteOrder}
    {small large : Session} (hsmall : Session.create place order = .ok small)
    (hlarge : Session.create { place with capacity := capacity } order = .ok large) :
    large = small.withCapacity capacity.toNat ∧ small = large.withCapacity place.capacity.toNat
      ∧ small.memory.capacity = place.capacity.toNat := by
  rw [(Session.create_eq hsmall).1, (Session.create_eq hlarge).1]
  exact ⟨rfl, rfl, rfl⟩

/-- Commands that finish do the same thing in a page of a larger capacity. -/
theorem performAll_larger {commands : List Command} {s after : Session} {inv : Inventory} {n : Nat}
    (h : s.Sound inv) (hperform : performAll commands s = .ok () after)
    (hle : s.memory.capacity ≤ n) :
    performAll commands (s.withCapacity n) = .ok () (after.withCapacity n) := by
  obtain ⟨more, -, hplace⟩ := h.performAll hperform
  rcases performAll_room h hperform with hplain | hroom
  · exact (performAll_of_not_adds hplain hperform).2 n
  · have hlt : after.memory.size < n := by
      rw [hplace.capacity] at hroom
      exact Nat.lt_of_lt_of_le hroom hle
    exact (performAll_scales commands).again s () after n hperform hlt

theorem Command.adds_eq_false {command : Command} (h : command.footprint = 0) :
    command.adds = false := by
  cases command with
  | payload | console | foreign => rfl
  | map | program =>
    simp only [footprint] at h
    omega

theorem eq_nil_of_sum_eq_zero {α : Type} {weight : α → Nat} (hpos : ∀ a, 0 < weight a)
    {items : List α} (h : (items.map weight).sum = 0) : items = [] := by
  cases items with
  | nil => rfl
  | cons a rest =>
    have hfirst := hpos a
    rw [List.map_cons, List.sum_cons] at h
    omega

/-- Commands that finish have added nothing exactly when none of them is of a kind that adds. -/
theorem performAll_empty_iff {place : Placement} {order : ByteOrder} {start after : Session}
    {commands : List Command} (h : Session.create place order = .ok start)
    (hplain : ∀ command ∈ commands, ∀ text ∈ command.texts, 0 ∉ Text.Utf8.bytes text)
    (hperform : performAll commands start = .ok () after) :
    after.maps = .ok [] ∧ after.programs = .ok []
      ↔ ∀ command ∈ commands, command.adds = false := by
  obtain ⟨maps, programs, hmaps, hprograms, hcommands, hentries⟩ :=
    Session.performAll_size h hplain hperform
  rw [hmaps, hprograms]
  constructor
  · rintro ⟨hnil, hnil'⟩ command hmem
    cases hnil
    cases hnil'
    have hsum : (commands.map Command.footprint).sum = 0 := by
      simp only [List.map_nil, List.sum_nil] at hentries
      omega
    apply Command.adds_eq_false
    exact List.sum_eq_zero_iff_forall_eq_nat.1 hsum _ (List.mem_map_of_mem hmem)
  · intro hadds
    have hsum : after.memory.size = headerSize := by
      rw [(performAll_of_not_adds hadds hperform).1, (Session.create_eq h).1]
    rw [hsum] at hentries
    have hmap : ∀ map : AddressMap, 0 < map.footprint := fun map => by
      unfold AddressMap.footprint
      omega
    have hprogram : ∀ p : Program, 0 < p.footprint := fun p => by
      unfold Program.footprint
      omega
    have hnil : maps = [] := eq_nil_of_sum_eq_zero hmap (by omega)
    have hnil' : programs = [] := eq_nil_of_sum_eq_zero hprogram (by omega)
    rw [hnil, hnil']
    exact ⟨rfl, rfl⟩

/-- **The capacity of a page decides whether scripts finish, and nothing else.** -/
theorem performScripts_capacity {place : Placement} {capacity : UInt32} {order : ByteOrder}
    {small large : Session} (hle : place.capacity ≤ capacity)
    (hsmall : Session.create place order = .ok small)
    (hlarge : Session.create { place with capacity := capacity } order = .ok large)
    (scripts : List (String × String)) :
    (∀ s, performScripts scripts small = .ok () s → ∃ t bytes s' t',
        performScripts scripts large = .ok () t ∧ Session.complete s = .ok bytes s'
          ∧ Session.complete t = .ok bytes t')
      ∧ (∀ t, performScripts scripts large = .ok () t →
        ((∃ s, performScripts scripts small = .ok () s)
          ↔ t.maps = .ok [] ∧ t.programs = .ok [] ∨ t.memory.size < place.capacity.toNat))
      ∧ ∀ s, performScripts scripts small = .ok () s → ∃ commands maps programs,
        commandsOfAll scripts = .ok commands ∧ s.maps = .ok maps ∧ s.programs = .ok programs
          ∧ s.memory.size = 24 + (commands.map Command.footprint).sum
          ∧ s.memory.size = 24 + (maps.map AddressMap.footprint).sum
            + (programs.map Program.footprint).sum := by
  obtain ⟨hgrown, hshrunk, hcapacity⟩ := create_withCapacity hsmall hlarge
  have hle' : small.memory.capacity ≤ capacity.toNat := hcapacity ▸ UInt32.le_iff_toNat_le.1 hle
  have hsound := Session.create_sound hsmall
  simp only [performScripts_eq_ok_iff]
  refine ⟨?_, ?_, ?_⟩
  · rintro s ⟨commands, hcommands, hperform⟩
    have hlarger := performAll_larger hsound hperform hle'
    rw [← hgrown] at hlarger
    obtain ⟨inv, hafter, -⟩ := hsound.performAll hperform
    obtain ⟨memory, hcomplete, -⟩ := hafter.complete_eq
    exact ⟨_, _, _, _, ⟨commands, hcommands, hlarger⟩, hcomplete,
      Session.complete_again hcomplete capacity.toNat⟩
  · rintro t ⟨commands, hcommands, hperform⟩
    have hempty := performAll_empty_iff hlarge (commandsOfAll_plain hcommands) hperform
    rw [hempty]
    constructor
    · rintro ⟨s, commands', hcommands', hperform'⟩
      rw [hcommands] at hcommands'
      cases hcommands'
      -- the larger page comes to the same size
      have hlarger := performAll_larger hsound hperform' hle'
      rw [← hgrown, hperform] at hlarger
      cases hlarger
      obtain ⟨more, -, hplace⟩ := hsound.performAll hperform'
      refine (performAll_room hsound hperform').imp_right fun hroom => ?_
      rw [hplace.capacity, hcapacity] at hroom
      exact hroom
    · rintro (hplain | hroom)
      · have hagain := (performAll_of_not_adds hplain hperform).2 place.capacity.toNat
        rw [← hshrunk] at hagain
        exact ⟨_, commands, hcommands, hagain⟩
      · have hagain := (performAll_scales commands).again large () t _ hperform hroom
        rw [← hshrunk] at hagain
        exact ⟨_, commands, hcommands, hagain⟩
  · rintro s ⟨commands, hcommands, hperform⟩
    obtain ⟨maps, programs, hmaps, hprograms, hsizes⟩ :=
      Session.performAll_size hsmall (commandsOfAll_plain hcommands) hperform
    exact ⟨commands, maps, programs, hcommands, hmaps, hprograms, hsizes⟩

/-- A script with a map that fits 128 bytes but not 64, since its page comes to 64 bytes. -/
theorem performScripts_capacity_reached :
    ∃ small large t, Session.create ⟨0x1000, 0x100, 64⟩ .little = .ok small
      ∧ Session.create ⟨0x1000, 0x100, 128⟩ .little = .ok large
      ∧ performScripts [("p", "map ddr 0x100 0x200 r\n")] large = .ok () t
      ∧ t.memory.size = 64
      ∧ ¬ ∃ s, performScripts [("p", "map ddr 0x100 0x200 r\n")] small = .ok () s := by
  have hsmall : Session.create ⟨0x1000, 0x100, 64⟩ .little
      = .ok ⟨⟨0x1100, 64, .little, 24, .blank⟩, 0x1000, 0, 0, 0, 0, []⟩ := rfl
  have hlarge : Session.create ⟨0x1000, 0x100, 128⟩ .little
      = .ok ⟨⟨0x1100, 128, .little, 24, .blank⟩, 0x1000, 0, 0, 0, 0, []⟩ := rfl
  have hle : (64 : UInt32) ≤ 128 := by decide
  obtain ⟨found, hfound⟩ : ∃ found, Edit.outcome (performScripts [("p", "map ddr 0x100 0x200 r\n")])
      ⟨⟨0x1100, 128, .little, 24, .blank⟩, 0x1000, 0, 0, 0, 0, []⟩ = found := ⟨_, rfl⟩
  have hfinish : found.1 = .ok () ∧ found.2.memory.size = 64 ∧ found.2.maps ≠ .ok [] := by
    subst hfound
    decide +kernel
  obtain ⟨hok, hsize, hmaps⟩ := hfinish
  rw [← hfound] at hok
  obtain ⟨t, hperform⟩ := Edit.outcome_eq_ok_iff.1 hok
  obtain rfl : found.2 = t := by rw [← hfound, Edit.outcome, hperform]
  refine ⟨_, _, _, hsmall, hlarge, hperform, hsize, fun hfits => ?_⟩
  rcases ((performScripts_capacity hle hsmall hlarge _).2.1 _ hperform).1 hfits with hnil | hlt
  · exact hmaps hnil.1
  · rw [hsize] at hlt
    exact absurd hlt (by decide)

end Script
end SystemPage
