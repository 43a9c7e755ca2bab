/-
  SystemPage.Proofs.Commuting — commands that can be performed in either order.

  Only programs look at payloads, nobody looks at the console, and neither payloads nor the console
  have to do with the page.  So two commands that meet in no part of a session come to the same in
  either order, also where one of them is refused or runs out of room half-way.  What may differ at
  the end is the order in which the session lists its payloads, which nobody looks at.

  Main results:

      Reordered.alike  — sessions that list their payloads in another order cannot be told apart
      Apart.reordered  — commands that meet in no part of a session can be exchanged
      Independent.reordered
                       — so can lines that ask for such commands
      commands_commute — both of it, for the sessions that come up while a page is being built
-/
import SystemPage.Proofs.Overlooking
import SystemPage.Proofs.TwinSessions

namespace SystemPage

namespace Session

/-! ## §1. Sessions that nobody can tell apart. -/

/-- Sessions that are the same to everyone who looks at them. -/
structure Alike (s t : Session) : Prop where
  image : ∃ bytes after after', complete s = .ok bytes after ∧ complete t = .ok bytes after'
  header : t.header = s.header
  maps : ∃ found, s.maps = .ok found ∧ t.maps = .ok found
  programs : ∃ found, s.programs = .ok found ∧ t.programs = .ok found
  aliases : ∀ name, t.alias? name = s.alias? name

/-- Sessions that may list their payloads in another order, but find the same under each name. -/
structure Reordered (s t : Session) : Prop where
  rest : t = s.withAliases t.aliases
  found : ∀ name, t.alias? name = s.alias? name

theorem Reordered.refl (s : Session) : s.Reordered s := ⟨rfl, fun _ => rfl⟩

theorem Reordered.symm {s t : Session} (h : s.Reordered t) : t.Reordered s := by
  refine ⟨?_, fun name => (h.found name).symm⟩
  rw [h.rest]
  rfl

/-- The order of the payloads makes no difference to anyone. -/
theorem Reordered.alike {s t : Session} {inv : Inventory} (h : s.Reordered t) (hs : s.Sound inv) :
    s.Alike t := by
  obtain ⟨memory, hcomplete, -⟩ := hs.complete_eq
  have himage := complete_overlooks t.aliases s
  rw [← h.rest, hcomplete] at himage
  refine ⟨⟨_, _, _, hcomplete, himage⟩, ?_, ⟨_, hs.maps_eq, ?_⟩, ⟨_, hs.programs_eq, ?_⟩, h.found⟩
  · rw [h.rest]
    rfl
  · rw [h.rest, ← hs.maps_eq]
    rfl
  · rw [h.rest, ← hs.programs_eq]
    rfl

end Session

/-! ## §2. Commands that meet in no part of a session. -/

namespace Script

open Session

/-- What a command that is granted answers. -/
inductive Answer where
  | done
  | map (added : AddressMap)
  | program (added : Program)
  deriving DecidableEq

/-- Does to a session what a command asks for, and tells what came of it. -/
def Command.answer : Command → Edit Session Answer
  | .payload name place size => (fun _ => .done) <$> Session.insertAlias name place size
  | .map name start stop access => Answer.map <$> Session.insertMap name start stop access
  | .program target instructionMaps dataMaps argv atOnce =>
    Answer.program <$> Session.insertProgram target instructionMaps dataMaps argv atOnce
  | .console token => (fun _ => .done) <$> Session.selectConsole token
  | .foreign _ => pure .done

theorem Command.perform_eq_answer (c : Command) : c.perform = (fun _ => ()) <$> c.answer := by
  cases c with
  | payload | console =>
    rw [answer, Functor.map_map]
    exact (id_map _).symm
  | map | program =>
    rw [answer, Functor.map_map]
    rfl
  | foreign name => rfl

/-- Commands that meet in no part of a session: neither looks at what the other one changes, and two
of them that name payloads do it under different names. -/
inductive Command.Apart : Command → Command → Prop
  | console_payload {token name : String} {place size : UInt32} :
      Apart (.console token) (.payload name place size)
  | console_map {token name : String} {start stop access : UInt32} :
      Apart (.console token) (.map name start stop access)
  | console_program {token payload instructionMaps dataMaps argv : String} {atOnce : Bool} :
      Apart (.console token) (.program payload instructionMaps dataMaps argv atOnce)
  | payload_map {name other : String} {place size start stop access : UInt32} :
      Apart (.payload name place size) (.map other start stop access)
  | payload_payload {name other : String} {place size place' size' : UInt32} (h : name ≠ other) :
      Apart (.payload name place size) (.payload other place' size')
  | payload_program {name payload instructionMaps dataMaps argv : String} {place size : UInt32}
      {atOnce : Bool} (h : name ≠ payload) :
      Apart (.payload name place size) (.program payload instructionMaps dataMaps argv atOnce)

end Script

namespace Session

/-- A new payload is found under its name. -/
theorem alias?_withPayload_self (name : String) (place size : UInt32) (s : Session) :
    (withPayload name place size s).alias? name = .ok ⟨name, place + s.load, size⟩ := by
  unfold alias? withPayload
  rw [List.find?_cons_of_pos (by simp)]

/-- It is not found under another one. -/
theorem alias?_withPayload {name other : String} (h : name ≠ other) (place size : UInt32)
    (s : Session) : (withPayload name place size s).alias? other = s.alias? other := by
  unfold alias? withPayload
  rw [List.find?_cons_of_neg (by simpa using h)]

/-- Payloads of different names can come in either order. -/
theorem reordered_payloads {name other : String} (h : name ≠ other)
    (place size place' size' : UInt32) (s : Session) :
    Reordered (withPayload other place' size' (withPayload name place size s))
      (withPayload name place size (withPayload other place' size' s)) := by
  constructor
  · have hmax : max (max s.imageSize (place' + size')) (place + size)
        = max (max s.imageSize (place + size)) (place' + size') := by
      simp only [Max.max]
      grind
    unfold withPayload withAliases
    simp only [hmax]
  · intro found
    by_cases hfound : name = found
    · subst hfound
      rw [alias?_withPayload h.symm, alias?_withPayload_self, alias?_withPayload_self]
      rfl
    · rw [alias?_withPayload hfound]
      by_cases hother : other = found
      · subst hother
        rw [alias?_withPayload_self, alias?_withPayload_self]
        rfl
      · rw [alias?_withPayload hother, alias?_withPayload hother, alias?_withPayload hfound]

/-- A payload is judged by the address at which the image is loaded, and by nothing else of the
session. -/
theorem admitPayload_eq {s t : Session} (h : t.load = s.load) (name : String)
    (place size : UInt32) : admitPayload name place size t = admitPayload name place size s := by
  unfold admitPayload
  rw [h]

variable {s : Session} {inv : Inventory}

theorem insertAlias_commute {name other : String} (h : name ≠ other)
    (place size place' size' : UInt32) :
    Edit.Commute Reordered s (insertAlias name place size) (insertAlias other place' size') := by
  rw [insertAlias_eq_settle, insertAlias_eq_settle]
  exact Edit.settle_commute (fun _ => admitPayload_eq rfl ..) (fun _ => admitPayload_eq rfl ..)
    Reordered.refl fun _ _ => reordered_payloads h ..

/-- The console can be selected before or after whatever overlooks it. -/
theorem selectConsole_commute {α : Type} {edit : Edit Session α}
    (h : ∀ number, edit.Overlooks (withConsole number)) (token : String) :
    Edit.Commute Reordered s (selectConsole token) edit := by
  rw [selectConsole_eq_settle]
  have hcommute : Edit.Commute Eq s edit
      (Edit.settle (fun _ => consoleNumber token) withConsole) := Edit.Overlooks.commute h rfl
  exact (hcommute.symm fun _ _ => Eq.symm).coarsen fun t ht => ht ▸ .refl _

/-- A payload can be named before or after whatever overlooks it and leaves the image where it
is. -/
theorem insertAlias_commute_of_overlooks {α : Type} {edit : Edit Session α} {name : String}
    {place size : UInt32} (h : edit.Overlooks (withPayload name place size))
    (hload : (Edit.outcome edit s).2.load = s.load) :
    Edit.Commute Reordered s (insertAlias name place size) edit := by
  rw [insertAlias_eq_settle]
  have hcommute := Edit.Overlooks.commute (fun _ => h) (admitPayload_eq hload name place size)
  exact (hcommute.symm fun _ _ => Eq.symm).coarsen fun t ht => ht ▸ .refl _

theorem insertAlias_overlooks (name : String) (place size number : UInt32) :
    (insertAlias name place size).Overlooks (withConsole number) := by
  rw [insertAlias_eq_settle]
  exact Edit.Overlooks.settle (fun _ => admitPayload_eq rfl ..) fun _ _ => rfl

/-- What a command leaves, whether it was granted or not. -/
theorem outcome_answer (c : Script.Command) :
    (Edit.outcome c.answer s).2 = s.after (.command c) := by
  show _ = (Edit.outcome c.perform s).2
  rw [c.perform_eq_answer, Edit.outcome_map]

theorem Sound.after (h : s.Sound inv) (op : Operation) : ∃ more, (s.after op).Sound more :=
  h.run [op]

end Session

namespace Script

open Session

variable {s : Session} {inv : Inventory}

/-- **Commands that meet in no part of a session can be exchanged.** -/
theorem Command.Apart.reordered {c d : Command} (h : c.Apart d) (hs : s.Sound inv) :
    Edit.Commute Reordered s c.answer d.answer := by
  have hload : ∀ e : Command, (Edit.outcome e.answer s).2.load = s.load := by
    intro e
    rw [outcome_answer]
    exact (hs.run_samePlace [.command e]).load
  cases h with
  | console_payload =>
    exact (selectConsole_commute (fun number => insertAlias_overlooks _ _ _ number) _).map _ _
  | console_map =>
    exact (selectConsole_commute (fun number =>
      insertMap_overlooks (beside_console number) _ _ _ _) _).map _ _
  | console_program =>
    exact (selectConsole_commute (fun number =>
      insertProgram_overlooks (beside_console number) (fun _ => rfl) _ _ _ _) _).map _ _
  | @payload_map name other place size start stop access =>
    have hmap := hload (.map other start stop access)
    rw [answer, Edit.outcome_map] at hmap
    exact (insertAlias_commute_of_overlooks
      (insertMap_overlooks (beside_payload ..) _ _ _ _) hmap).map _ _
  | payload_payload hne => exact (insertAlias_commute hne _ _ _ _).map _ _
  | @payload_program name payload instructionMaps dataMaps argv place size atOnce hne =>
    have hprogram := hload (.program payload instructionMaps dataMaps argv atOnce)
    rw [answer, Edit.outcome_map] at hprogram
    exact (insertAlias_commute_of_overlooks
      (insertProgram_overlooks (beside_payload ..) (alias?_withPayload hne place size) _ _ _ _)
      hprogram).map _ _

/-! ## §3. Lines. -/

/-- The words of lines that ask for commands that meet in no part of a session, if for any. -/
inductive Independent : List String → List String → Prop
  | console {name : String} {rest others : List String} (h : name ∈ ["alias", "map", "app"]) :
      Independent ("console" :: rest) (name :: others)
  | alias_map {rest others : List String} : Independent ("alias" :: rest) ("map" :: others)
  | alias_alias {rest others : List String} (h : ∀ name ∈ rest.head?, name ∉ others.head?) :
      Independent ("alias" :: rest) ("alias" :: others)
  | alias_app {rest others : List String} (h : ∀ name ∈ rest.head?, ∀ argv ∈ others.head?,
      name ≠ String.ofList (Text.cut ';' argv.toList).1) :
      Independent ("alias" :: rest) ("app" :: others)

theorem ofWords_alias {rest : List String} {c : Command}
    (h : Command.ofWords "alias" rest = .ok c) :
    ∃ name ∈ rest.head?, ∃ place size, c = .payload name place size := by
  unfold Command.ofWords at h
  rw [if_pos rfl] at h
  split at h
  · obtain ⟨place, -, h⟩ := Edit.found_bind_eq_ok_iff.1 h
    obtain ⟨size, -, h⟩ := Edit.found_bind_eq_ok_iff.1 h
    cases h
    exact ⟨_, rfl, place, size, rfl⟩
  · cases h

theorem ofWords_map {rest : List String} {c : Command} (h : Command.ofWords "map" rest = .ok c) :
    ∃ name ∈ rest.head?, ∃ start stop access, c = .map name start stop access := by
  unfold Command.ofWords at h
  rw [if_neg (by decide), if_pos rfl] at h
  split at h
  · obtain ⟨start, -, h⟩ := Edit.found_bind_eq_ok_iff.1 h
    obtain ⟨stop, -, h⟩ := Edit.found_bind_eq_ok_iff.1 h
    obtain ⟨access, -, h⟩ := Edit.found_bind_eq_ok_iff.1 h
    cases h
    exact ⟨_, rfl, start, stop, access, rfl⟩
  · cases h

theorem ofWords_app {rest : List String} {c : Command} (h : Command.ofWords "app" rest = .ok c) :
    ∃ argv ∈ rest.head?, ∃ instructionMaps dataMaps atOnce,
      c = programCommand argv instructionMaps dataMaps atOnce := by
  unfold Command.ofWords at h
  rw [if_neg (by decide), if_neg (by decide), if_pos rfl] at h
  unfold programOfWords at h
  split at h <;> (repeat' split at h) <;> cases h <;> exact ⟨_, rfl, _, _, _, rfl⟩

theorem ofWords_console {rest : List String} {c : Command}
    (h : Command.ofWords "console" rest = .ok c) : ∃ token, c = .console token := by
  unfold Command.ofWords at h
  rw [if_neg (by decide), if_neg (by decide), if_neg (by decide), if_pos rfl] at h
  split at h
  · cases h
    exact ⟨_, rfl⟩
  · cases h

/-- What independent lines ask for meets in no part of a session. -/
theorem Independent.apart {name other : String} {rest others : List String} {c d : Command}
    (h : Independent (name :: rest) (other :: others)) (hc : Command.ofWords name rest = .ok c)
    (hd : Command.ofWords other others = .ok d) : c.Apart d := by
  cases h with
  | console hother =>
    obtain ⟨token, rfl⟩ := ofWords_console hc
    simp only [List.mem_cons, List.not_mem_nil, or_false] at hother
    rcases hother with rfl | rfl | rfl
    · obtain ⟨_, -, _, _, rfl⟩ := ofWords_alias hd
      exact .console_payload
    · obtain ⟨_, -, _, _, _, rfl⟩ := ofWords_map hd
      exact .console_map
    · obtain ⟨_, -, _, _, _, rfl⟩ := ofWords_app hd
      exact .console_program
  | alias_map =>
    obtain ⟨_, -, _, _, rfl⟩ := ofWords_alias hc
    obtain ⟨_, -, _, _, _, rfl⟩ := ofWords_map hd
    exact .payload_map
  | alias_alias hne =>
    obtain ⟨first, hfirst, _, _, rfl⟩ := ofWords_alias hc
    obtain ⟨second, hsecond, _, _, rfl⟩ := ofWords_alias hd
    exact .payload_payload fun heq => hne first hfirst (heq ▸ hsecond)
  | alias_app hne =>
    obtain ⟨first, hfirst, _, _, rfl⟩ := ofWords_alias hc
    obtain ⟨argv, hargv, _, _, _, rfl⟩ := ofWords_app hd
    exact .payload_program (hne first hfirst argv hargv)

theorem performWords_of_ok {name : String} {rest : List String} {c : Command}
    (h : Command.ofWords name rest = .ok c) : performWords (name :: rest) = c.perform := by
  funext s
  have hlook : Edit.look (fun _ => Command.ofWords name rest) s = .ok c s := Edit.look_of_ok h
  rw [performWords, Edit.bind_of_ok hlook]

theorem performWords_of_error {name : String} {rest : List String} {fault : Fault}
    (h : Command.ofWords name rest = .error fault) (s : Session) :
    performWords (name :: rest) s = .error fault s := by
  have hlook : Edit.look (fun _ => Command.ofWords name rest) s = .error fault s :=
    Edit.look_of_error h
  rw [performWords, Edit.bind_of_error hlook]

/-- **Independent lines can be exchanged**, also those that ask for nothing that there is. -/
theorem Independent.reordered {first second : List String} (h : Independent first second)
    (hs : s.Sound inv) : Edit.Commute Reordered s (performWords first) (performWords second) := by
  obtain ⟨name, rest, rfl⟩ : ∃ name rest, first = name :: rest := by
    cases h <;> exact ⟨_, _, rfl⟩
  obtain ⟨other, others, rfl⟩ : ∃ other others, second = other :: others := by
    cases h <;> exact ⟨_, _, rfl⟩
  cases hc : Command.ofWords name rest with
  | error fault => exact .of_error (performWords_of_error hc) .refl
  | ok c =>
    cases hd : Command.ofWords other others with
    | error fault =>
      have hcommute : Edit.Commute Reordered s (performWords (other :: others))
          (performWords (name :: rest)) := .of_error (performWords_of_error hd) .refl
      exact hcommute.symm fun _ _ => Reordered.symm
    | ok d =>
      rw [performWords_of_ok hc, performWords_of_ok hd, c.perform_eq_answer, d.perform_eq_answer]
      exact ((h.apart hc hd).reordered hs).map _ _

theorem performWords_sound (hs : s.Sound inv) (found : List String) :
    ∃ more, (Edit.outcome (performWords found) s).2.Sound more := by
  cases found with
  | nil => exact ⟨inv, hs⟩
  | cons name rest =>
    cases hc : Command.ofWords name rest with
    | error fault =>
      rw [Edit.outcome, performWords_of_error hc]
      exact ⟨inv, hs⟩
    | ok c =>
      rw [performWords_of_ok hc]
      exact hs.after (.command c)

end Script

namespace Session

open Script

/-- **Commands that meet in no part of a session can be performed in either order.**  Each of them
answers the same or fails in the same way, and nobody can tell apart the sessions at the end: what
the commands ask for may come out of the words of lines as well. -/
theorem commands_commute {s : Session} (h : s.Reachable) :
    (∀ c d : Command, c.Apart d → Edit.Commute Alike s c.answer d.answer)
      ∧ ∀ first second, Independent first second →
        Edit.Commute Alike s (performWords first) (performWords second) := by
  obtain ⟨inv, hs⟩ := h.sound
  -- no order of the payloads makes a difference in the session at the end, which is a sound one
  constructor
  · intro c d hapart
    refine (hapart.reordered hs).coarsen fun t ht => ?_
    rw [outcome_answer, outcome_answer] at ht ⊢
    obtain ⟨_, hmiddle⟩ := hs.after (.command c)
    obtain ⟨_, hlast⟩ := hmiddle.after (.command d)
    exact ht.alike hlast
  · intro first second hindependent
    refine (hindependent.reordered hs).coarsen fun t ht => ?_
    obtain ⟨_, hmiddle⟩ := performWords_sound hs first
    obtain ⟨_, hlast⟩ := performWords_sound hmiddle second
    exact ht.alike hlast

/-- A payload is named before and after a map that runs out of room half-way, and before and after a
program that refers to another payload. -/
theorem commands_commute_half_way :
    ∃ s : Session, s.Reachable
      ∧ (Edit.outcome (performWords ["map", "ddr", "0x10", "0x20", "rw"]) s).1
        = .error (.noRoom 4 56 64)
      ∧ Edit.Commute Alike s (performWords ["alias", "psh", "0x400", "0x80"])
        (performWords ["map", "ddr", "0x10", "0x20", "rw"])
      ∧ Edit.Commute Alike s (Command.payload "psh" 0x400 0x80).answer
        (Command.program "uart" "ddr" "ddr" "uart;-v" true).answer := by
  have hcreate : Session.create ⟨0x1000, 0x100, 64⟩ .little
      = .ok ⟨⟨0x1100, 64, .little, 24, .blank⟩, 0x1000, 0, 0, 0, 0, []⟩ := rfl
  have hreachable := Reachable.create hcreate
  exact ⟨_, hreachable, rfl, (commands_commute hreachable).2 _ _ .alias_map,
    (commands_commute hreachable).1 _ _ (.payload_program (by decide))⟩

end Session
end SystemPage
