/-
  SystemPage.Proofs.Commands — scripts as sequences of commands.

  What a line asks for can be read off the line alone, whatever the session is.  So scripts finish
  exactly when each of their lines asks for something and each request is granted, and what they
  leave is what the requests leave, one after the other.

  Main results:

      performScripts_eq_ok_iff
                       — scripts that finish have performed the commands of their lines
      Sound.performAll_keeps
                       — what every granted command keeps, commands that are all granted keep
      commandsOfAll_plain
                       — no text that a script asks for has a zero byte
-/
import SystemPage.Proofs.History
import SystemPage.Script.Source

namespace SystemPage

/-! ## §1. Edits that finish. -/

namespace Edit

variable {σ α β : Type}

/-- Two edits finish one after the other exactly when the second finishes where the first stops. -/
theorem bind_eq_ok_iff {edit : Edit σ α} {rest : α → Edit σ β} {s after : σ} {b : β} :
    (edit >>= rest) s = .ok b after
      ↔ ∃ a middle, edit s = .ok a middle ∧ rest a middle = .ok b after := by
  cases h : edit s with
  | ok a middle => simp [bind_of_ok h]
  | error fault middle => simp [bind_of_error h]

theorem then_eq_ok_iff {edit : Edit σ Unit} {rest : Edit σ β} {s after : σ} {b : β} :
    (edit >>= fun _ => rest) s = .ok b after
      ↔ ∃ middle, edit s = .ok () middle ∧ rest middle = .ok b after := by
  rw [bind_eq_ok_iff]
  exact ⟨fun ⟨_, h⟩ => h, fun h => ⟨(), h⟩⟩

theorem look_eq_ok_iff {find : σ → Except Fault α} {a : α} {s after : σ} :
    look find s = .ok a after ↔ find s = .ok a ∧ s = after := by
  cases h : find s with
  | ok b => simp [look_of_ok h]
  | error fault => simp [look_of_error h]

theorem outcome_eq_ok_iff {edit : Edit σ α} {s : σ} {a : α} :
    (outcome edit s).1 = .ok a ↔ ∃ after, edit s = .ok a after := by
  unfold outcome
  cases edit s with
  | ok b after => simp
  | error fault after => simp

/-- The same for things that are found one after the other. -/
theorem found_bind_eq_ok_iff {ε : Type} {found : Except ε α} {rest : α → Except ε β} {b : β} :
    (found >>= rest) = .ok b ↔ ∃ a, found = .ok a ∧ rest a = .ok b := by
  cases found with
  | ok a => simp [bind, Except.bind]
  | error fault => simp [bind, Except.bind]

/-- They fail where one of them is not found. -/
theorem found_bind_eq_error_iff {found : Except Fault α} {rest : α → Except Fault β}
    {fault : Fault} :
    (found >>= rest) = .error fault
      ↔ found = .error fault ∨ ∃ a, found = .ok a ∧ rest a = .error fault := by
  cases found with
  | ok a => simp [bind, Except.bind]
  | error cause => simp [bind, Except.bind]

end Edit

theorem Session.onMemory_eq_ok_iff {α : Type} {edit : Edit Memory α} {s after : Session} {a : α} :
    onMemory edit s = .ok a after
      ↔ ∃ memory, edit s.memory = .ok a memory ∧ after = { s with memory := memory } := by
  unfold onMemory
  cases h : edit s.memory with
  | ok b memory => simp [eq_comm]
  | error fault memory => simp

namespace Script

/-! ## §2. What lines ask for. -/

/-- What a line asks for.  A line without words asks for nothing. -/
def lineCommand (line : List Char) : Except Fault Command := do
  match ← words (String.ofList line) with
  | [] => return .foreign ""
  | name :: rest => Command.ofWords name rest

/-- What the lines of a script ask for. -/
def commandsOf (source : String) : Except Fault (List Command) :=
  (lines source.toList).mapM lineCommand

/-- Performs commands one after the other, up to the first that fails. -/
def performAll : List Command → Edit Session Unit
  | [] => pure ()
  | command :: rest => do
    command.perform
    performAll rest

/-- Performs scripts one after the other, each with its path, up to the first that fails. -/
def performScripts : List (String × String) → Edit Session Unit
  | [] => pure ()
  | (path, source) :: rest => do
    perform path source
    performScripts rest

/-- What the lines of scripts ask for, one script after the other. -/
def commandsOfAll (scripts : List (String × String)) : Except Fault (List Command) := do
  return (← scripts.mapM fun script => commandsOf script.2).flatten

/-- A line is read, and then what it asks for is performed. -/
theorem performLine_eq (line : List Char) :
    performLine (String.ofList line) = (do
      let command ← Edit.look fun _ => lineCommand line
      command.perform) := by
  funext s
  unfold performLine lineCommand
  cases words (String.ofList line) with
  | error fault => rfl
  | ok found =>
    cases found with
    | nil => rfl
    | cons name rest => rfl

/-- A line that cannot be read changes nothing. -/
theorem performLine_of_error {line : List Char} {fault : Fault}
    (h : lineCommand line = .error fault) (s : Session) :
    performLine (String.ofList line) s = .error fault s := by
  have hlook : Edit.look (fun _ => lineCommand line) s = .error fault s := Edit.look_of_error h
  rw [performLine_eq, Edit.bind_of_error hlook]

/-- A line that can be read does to a session what it asks for. -/
theorem performLine_of_ok {line : List Char} {command : Command}
    (h : lineCommand line = .ok command) : performLine (String.ofList line) = command.perform := by
  funext s
  have hlook : Edit.look (fun _ => lineCommand line) s = .ok command s := Edit.look_of_ok h
  rw [performLine_eq, Edit.bind_of_ok hlook]

theorem performLine_eq_ok_iff {line : List Char} {s after : Session} :
    performLine (String.ofList line) s = .ok () after
      ↔ ∃ command, lineCommand line = .ok command ∧ command.perform s = .ok () after := by
  cases hline : lineCommand line with
  | error fault => simp [performLine_of_error hline]
  | ok command => simp [performLine_of_ok hline]

theorem locating_eq_ok_iff {path line : String} {number : Nat} {edit : Edit Session Unit}
    {s after : Session} :
    locating path number line edit s = .ok () after ↔ edit s = .ok () after := by
  unfold locating
  cases edit s <;> simp

/-- Commands finish exactly when the first does and the others do where it stops. -/
theorem performAll_cons_eq_ok_iff {command : Command} {rest : List Command} {s after : Session} :
    performAll (command :: rest) s = .ok () after
      ↔ ∃ middle, command.perform s = .ok () middle ∧ performAll rest middle = .ok () after :=
  Edit.then_eq_ok_iff

theorem performAll_append_eq_ok_iff {first second : List Command} {s after : Session} :
    performAll (first ++ second) s = .ok () after
      ↔ ∃ middle, performAll first s = .ok () middle ∧ performAll second middle = .ok () after := by
  induction first generalizing s with
  | nil =>
    show _ ↔ ∃ middle, (pure () : Edit Session Unit) s = .ok () middle ∧ _
    simp [pure, EStateM.pure]
  | cons command rest ih =>
    rw [List.cons_append, performAll_cons_eq_ok_iff]
    simp only [ih, performAll_cons_eq_ok_iff]
    constructor
    · rintro ⟨a, ha, b, hb, hafter⟩
      exact ⟨b, ⟨a, ha, hb⟩, hafter⟩
    · rintro ⟨b, ⟨a, ha, hb⟩, hafter⟩
      exact ⟨a, ha, b, hb, hafter⟩

/-- **A script that finishes has performed the commands of its lines.** -/
theorem perform_eq_ok_iff {path source : String} {s after : Session} :
    perform path source s = .ok () after
      ↔ ∃ commands, commandsOf source = .ok commands ∧ performAll commands s = .ok () after := by
  unfold perform commandsOf
  -- on the lines that are left, whatever the number of the first of them
  generalize 1 = number
  induction lines source.toList generalizing number s with
  | nil =>
    show (pure () : Edit Session Unit) s = .ok () after ↔ _
    simp [performAll, pure, Except.pure]
  | cons line rest ih =>
    rw [performLines, Edit.then_eq_ok_iff, List.mapM_cons]
    simp only [locating_eq_ok_iff, performLine_eq_ok_iff, ih, Edit.found_bind_eq_ok_iff]
    constructor
    · rintro ⟨middle, ⟨command, hcommand, hperform⟩, others, hothers, hrest⟩
      exact ⟨_, ⟨command, hcommand, others, hothers, rfl⟩,
        performAll_cons_eq_ok_iff.2 ⟨middle, hperform, hrest⟩⟩
    · rintro ⟨_, ⟨command, hcommand, others, hothers, hcons⟩, hperform⟩
      cases hcons
      obtain ⟨middle, hfirst, hrest⟩ := performAll_cons_eq_ok_iff.1 hperform
      exact ⟨middle, ⟨command, hcommand, hfirst⟩, others, hothers, hrest⟩

/-- **Scripts that finish have performed the commands of their lines.** -/
theorem performScripts_eq_ok_iff {scripts : List (String × String)} {s after : Session} :
    performScripts scripts s = .ok () after
      ↔ ∃ commands, commandsOfAll scripts = .ok commands
        ∧ performAll commands s = .ok () after := by
  unfold commandsOfAll
  simp only [Edit.found_bind_eq_ok_iff]
  induction scripts generalizing s with
  | nil =>
    show (pure () : Edit Session Unit) s = .ok () after ↔ _
    simp [performAll, pure, Except.pure]
  | cons script rest ih =>
    obtain ⟨path, source⟩ := script
    rw [performScripts, Edit.then_eq_ok_iff, List.mapM_cons]
    simp only [perform_eq_ok_iff, ih, Edit.found_bind_eq_ok_iff]
    constructor
    · rintro ⟨middle, ⟨first, hfirst, hperform⟩, _, ⟨others, hothers, hflatten⟩, hrest⟩
      cases hflatten
      exact ⟨_, ⟨_, ⟨first, hfirst, others, hothers, rfl⟩, rfl⟩,
        performAll_append_eq_ok_iff.2 ⟨middle, hperform, hrest⟩⟩
    · rintro ⟨_, ⟨_, ⟨first, hfirst, others, hothers, hcons⟩, hflatten⟩, hperform⟩
      cases hcons
      cases hflatten
      obtain ⟨middle, hmiddle, hrest⟩ := performAll_append_eq_ok_iff.1 hperform
      exact ⟨middle, ⟨first, hfirst, hmiddle⟩, _, ⟨others, hothers, rfl⟩, hrest⟩

end Script

/-! ## §3. What commands keep. -/

/-- **What every granted command keeps, commands that are all granted keep.**  The step says what it
keeps of the commands so far, of the session and of its inventory. -/
theorem Session.Sound.performAll_keeps (P : List Script.Command → Session → Inventory → Prop)
    {s after : Session} {inv : Inventory} (done commands : List Script.Command) (h : s.Sound inv)
    (hP : P done s inv) (hperform : Script.performAll commands s = .ok () after)
    (hgranted : ∀ done (t : Session) inv command after more, command ∈ commands → t.Sound inv →
      P done t inv → t.Granted inv (.command command) after more →
        P (done ++ [command]) after more) :
    ∃ more, after.Sound more ∧ P (done ++ commands) after more := by
  -- on the commands that are left, while those that were performed grow
  induction commands generalizing done s inv with
  | nil =>
    cases hperform
    rw [List.append_nil]
    exact ⟨inv, h, hP⟩
  | cons command rest ih =>
    obtain ⟨middle, hfirst, hrest⟩ := Script.performAll_cons_eq_ok_iff.1 hperform
    rcases h.perform_settles (.command command) with ⟨fault, _, he, -⟩ | ⟨_, _, he, more, hs, hg⟩
    · change command.perform s = _ at he
      rw [he] at hfirst
      cases hfirst
    · change command.perform s = _ at he
      rw [he] at hfirst
      cases hfirst
      have hstep := hgranted _ _ _ _ _ _ (by simp) h hP hg
      have hafter := ih _ hs hstep hrest fun done t inv command' after more hmem =>
        hgranted done t inv command' after more (List.mem_cons_of_mem _ hmem)
      rwa [List.append_assoc] at hafter

/-- Two moments of a session, with its page at the same place. -/
structure Session.SamePlace (s after : Session) : Prop where
  load : after.load = s.load
  base : after.memory.base = s.memory.base
  order : after.memory.order = s.memory.order
  capacity : after.memory.capacity = s.memory.capacity

namespace Session.SamePlace

theorem refl (s : Session) : s.SamePlace s := ⟨rfl, rfl, rfl, rfl⟩

theorem trans {s middle after : Session} (h : s.SamePlace middle) (h' : middle.SamePlace after) :
    s.SamePlace after :=
  ⟨h'.load.trans h.load, h'.base.trans h.base, h'.order.trans h.order,
    h'.capacity.trans h.capacity⟩

theorem of_frame {touched : Nat → Prop} {s after : Session} (hload : after.load = s.load)
    (hf : Memory.Frame touched s.memory after.memory) : s.SamePlace after :=
  ⟨hload, hf.base, hf.order, hf.capacity⟩

end Session.SamePlace

/-- No request moves the page. -/
theorem Session.Granted.samePlace {s after : Session} {inv more : Inventory} {op : Operation}
    (hg : s.Granted inv op after more) : s.SamePlace after := by
  cases hg with
  | payload | console | foreign => exact ⟨rfl, rfl, rfl, rfl⟩
  | map _ _ _ _ hframe => exact .of_frame rfl hframe
  | program _ _ _ _ _ _ _ hframe => exact .of_frame rfl hframe
  | complete _ hframe => exact .of_frame rfl hframe

theorem Session.Sound.performAll {s after : Session} {inv : Inventory} (h : s.Sound inv)
    {commands : List Script.Command} (hperform : Script.performAll commands s = .ok () after) :
    ∃ more, after.Sound more ∧ s.SamePlace after :=
  h.performAll_keeps (fun _ t _ => s.SamePlace t) [] commands (.refl s) hperform
    fun _ _ _ _ _ _ _ _ hP hg => hP.trans hg.samePlace

/-! ## §4. Texts of commands. -/

namespace Script

open Text

/-- The bytes of graphic characters are none of them zero. -/
theorem zero_not_mem_bytes {s : String} (h : ∀ c ∈ s.toList, isGraphic c = true) :
    0 ∉ Utf8.bytes s := by
  rw [Utf8.zero_mem_bytes_iff]
  intro hzero
  exact absurd (h _ hzero) (by decide)

theorem lastWord_graphic {t : Tally} {word : List Char} {found : List (List Char)}
    (hword : ∀ c ∈ word, isGraphic c = true) (h : lastWord t word = .ok found) :
    ∀ w ∈ found, ∀ c ∈ w, isGraphic c = true := by
  unfold lastWord at h
  split at h
  · cases h
    simp
  · obtain ⟨_, -, hlast⟩ := Edit.found_bind_eq_ok_iff.1 h
    cases hlast
    simpa using hword

/-- Words are made of graphic characters. -/
theorem wordsFrom_graphic {t : Tally} {word cs : List Char} {found : List (List Char)}
    (hword : ∀ c ∈ word, isGraphic c = true) (h : wordsFrom t word cs = .ok found) :
    ∀ w ∈ found, ∀ c ∈ w, isGraphic c = true := by
  induction cs generalizing t word found with
  | nil => exact lastWord_graphic hword h
  | cons c cs ih =>
    rw [wordsFrom] at h
    split at h
    · split at h
      · exact ih (by simp) h
      · obtain ⟨counted, -, hrest⟩ := Edit.found_bind_eq_ok_iff.1 h
        obtain ⟨others, hothers, hcons⟩ := Edit.found_bind_eq_ok_iff.1 hrest
        cases hcons
        have hrest := ih (by simp) hothers
        simpa using ⟨hword, hrest⟩
    · split at h
      · exact lastWord_graphic hword h
      · split at h
        · next hgraphic => exact ih (by simpa using ⟨hgraphic, hword⟩) h
        · cases h

/-- The texts that a command brings into a page: the name of a map, the arguments of a program. -/
def Command.texts : Command → List String
  | .map name .. => [name]
  | .program _ _ _ argv _ => [argv]
  | .payload .. | .console _ | .foreign _ => []

/-- A command takes its texts from its words. -/
theorem Command.texts_subset {name : String} {rest : List String} {command : Command}
    (h : ofWords name rest = .ok command) : command.texts ⊆ rest := by
  unfold ofWords at h
  split at h
  · split at h
    · obtain ⟨_, -, h⟩ := Edit.found_bind_eq_ok_iff.1 h
      obtain ⟨_, -, h⟩ := Edit.found_bind_eq_ok_iff.1 h
      cases h
      simp [texts]
    · cases h
  split at h
  · split at h
    · obtain ⟨_, -, h⟩ := Edit.found_bind_eq_ok_iff.1 h
      obtain ⟨_, -, h⟩ := Edit.found_bind_eq_ok_iff.1 h
      obtain ⟨_, -, h⟩ := Edit.found_bind_eq_ok_iff.1 h
      cases h
      simp [texts]
    · cases h
  split at h
  · -- the argument text is the first of the words, with a flag behind it or without
    unfold programOfWords at h
    split at h <;> (repeat' split at h) <;> cases h <;> simp [texts, programCommand]
  split at h
  · split at h <;> cases h
    simp [texts]
  · cases h
    simp [texts]

theorem lineCommand_plain {line : List Char} {command : Command}
    (h : lineCommand line = .ok command) : ∀ text ∈ command.texts, 0 ∉ Utf8.bytes text := by
  unfold lineCommand at h
  obtain ⟨found, hfound, hcommand⟩ := Edit.found_bind_eq_ok_iff.1 h
  cases found with
  | nil =>
    cases hcommand
    simp [Command.texts]
  | cons name rest =>
    intro text htext
    have hmem : text ∈ name :: rest :=
      List.mem_cons_of_mem _ (Command.texts_subset hcommand htext)
    unfold words at hfound
    cases hwords : wordsFrom ⟨0, 0⟩ [] (String.ofList line).toList with
    | error fault => rw [hwords] at hfound; cases hfound
    | ok chars =>
      have heq : chars.map String.ofList = name :: rest := by
        rw [hwords] at hfound
        exact Except.ok.inj hfound
      rw [← heq] at hmem
      obtain ⟨w, hw, rfl⟩ := List.mem_map.1 hmem
      apply zero_not_mem_bytes
      rw [String.toList_ofList]
      exact wordsFrom_graphic (by simp) hwords w hw

/-- What is found in a list is found at one of its members. -/
theorem exists_of_mem_mapM {α β : Type} {find : α → Except Fault β} {items : List α}
    {found : List β} (h : items.mapM find = .ok found) {b : β} (hb : b ∈ found) :
    ∃ a ∈ items, find a = .ok b := by
  induction items generalizing found with
  | nil =>
    cases h
    simp at hb
  | cons a rest ih =>
    rw [List.mapM_cons] at h
    simp only [Edit.found_bind_eq_ok_iff] at h
    obtain ⟨first, hfirst, others, hothers, hcons⟩ := h
    cases hcons
    rcases List.mem_cons.1 hb with rfl | hb
    · exact ⟨a, by simp, hfirst⟩
    · obtain ⟨a', ha', hfind⟩ := ih hothers hb
      exact ⟨a', by simp [ha'], hfind⟩

/-- **No text that scripts ask for has a zero byte.** -/
theorem commandsOfAll_plain {scripts : List (String × String)} {commands : List Command}
    (h : commandsOfAll scripts = .ok commands) :
    ∀ command ∈ commands, ∀ text ∈ command.texts, 0 ∉ Utf8.bytes text := by
  obtain ⟨found, hfound, hflatten⟩ := Edit.found_bind_eq_ok_iff.1 h
  cases hflatten
  intro command hmem
  obtain ⟨part, hpart, hcommand⟩ := List.mem_flatten.1 hmem
  obtain ⟨script, -, hscript⟩ := exists_of_mem_mapM hfound hpart
  obtain ⟨line, -, hline⟩ := exists_of_mem_mapM hscript hcommand
  exact lineCommand_plain hline

end Script
end SystemPage
