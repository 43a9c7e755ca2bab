/-
  SystemPage.Proofs.ArgumentText — the last program as it is read back.

  A program that has been added is the last one of its page, and it is read back as it was answered.
  Its record has no field of its own for whether it is started at once: an `X` in front of the
  argument text says so.  A text that begins with that letter by itself cannot be told from one
  behind a mark.  So what was asked for is read back with the mark, and without it exactly if the
  text does not begin with an `X`.

  Main results:

      Sound.insertProgram_appends
                       — what has been added is the last of the programs
      Program.startsAtOnce_eq, Program.args_eq
                       — what is read off an argument text
      insertProgram_reads_back
                       — when the last program is what was asked for
      insertProgram_misread
                       — an argument text of which the first letter is taken for the mark
-/
import SystemPage.Proofs.Capacity

namespace SystemPage

/-! ## §1. The last program. -/

/-- **What has been added is the last of the programs**, with the payload and the maps that were
found. -/
theorem Session.Sound.insertProgram_appends {s after : Session} {inv : Inventory} (h : s.Sound inv)
    {payload instructionMaps dataMaps argv : String} {atOnce : Bool} {p : Program}
    (hinsert : insertProgram payload instructionMaps dataMaps argv atOnce s = .ok p after)
    (hargv : 0 ∉ Text.Utf8.bytes argv) :
    ∃ programs found, s.programs = .ok programs ∧ after.programs = .ok (programs ++ [p])
      ∧ s.alias? payload = .ok found ∧ p.start = found.address
      ∧ s.mapIds instructionMaps = .ok p.instructionMaps ∧ s.mapIds dataMaps = .ok p.dataMaps
      ∧ p.argv = Program.markedArgv argv atOnce := by
  obtain ⟨fault, hplan, -⟩ | ⟨plan, hplan, -, hinstructions, hdata, hmarked⟩ :=
    h.planProgram_cases payload instructionMaps dataMaps argv atOnce
  · rw [insertProgram_of_error hplan] at hinsert
    cases hinsert
  by_cases hfit : s.memory.size + (plan.blockSizes.map roundUp).sum < s.memory.capacity
  · obtain ⟨memory, head, hinsert', -, hframe, hsound⟩ :=
      h.insertProgram_of_lt hplan hinstructions hdata hfit
    rw [hinsert'] at hinsert
    cases hinsert
    -- the text ends in front of the first zero byte, and there is none in it
    have hread : Text.Utf8.bytes (Text.Utf8.text (upToZero plan.argv)) = plan.argv := by
      rw [hmarked, upToZero_eq_self (zero_not_mem_markedArgv hargv atOnce),
        Program.markedArgv_eq, Text.Utf8.text_bytes]
    have hprogram : ProgramEntry.program memory = ProgramEntry.program s.memory :=
      funext (ProgramEntry.program_of_base hframe.base)
    have hlast : ProgramEntry.program s.memory (plan.entry s.memory)
        = ⟨s.memory.address s.memory.size, plan.payload.address, plan.payload.stop, plan.argv,
          plan.instructionMaps, plan.dataMaps⟩ := by
      show (⟨_, _, _, Text.Utf8.bytes (Text.Utf8.text (upToZero plan.argv)), _, _⟩ : Program) = _
      rw [hread]
      rfl
    unfold planProgram at hplan
    obtain ⟨found, hfound, hplan⟩ := Edit.found_bind_eq_ok_iff.1 hplan
    obtain ⟨first, hfirst, hplan⟩ := Edit.found_bind_eq_ok_iff.1 hplan
    obtain ⟨second, hsecond, hplan⟩ := Edit.found_bind_eq_ok_iff.1 hplan
    cases hplan
    refine ⟨_, found, h.programs_eq, ?_, hfound, rfl, hfirst, hsecond, rfl⟩
    rw [hsound.programs_eq, hprogram]
    show Except.ok ((inv.programs ++ [_]).map (ProgramEntry.program s.memory)) = _
    rw [List.map_append, List.map_singleton, hlast]
  · obtain ⟨fault, memory, hinsert', -⟩ := h.insertProgram_of_le hplan (Nat.le_of_not_lt hfit)
    rw [hinsert'] at hinsert
    cases hinsert

/-! ## §2. What is read off an argument text. -/

/-- A text whose bytes begin with the mark begins with an `X`, and the other bytes are those of the
text behind it. -/
theorem Text.Utf8.toList_of_mark {text : String} {rest : List UInt8}
    (h : bytes text = Program.startMark :: rest) : text.toList = 'X' :: decode rest := by
  have hdecode : decode (bytes text) = text.toList := decode_encode text.toList
  rw [← hdecode, h]
  exact decodeFrom_cons none (show 0x58 < 256 by decide) rest

theorem Text.Utf8.bytes_of_mark {text : String} {rest : List Char} (h : text.toList = 'X' :: rest) :
    bytes text = Program.startMark :: encode rest := by
  have hmark : String.utf8EncodeChar 'X' = [Program.startMark] := by decide
  show encode text.toList = _
  rw [h, encode, List.flatMap_cons, hmark]
  rfl

namespace Program

variable {p : Program} {text : String}

/-- **A program seems to be started at once if its argument text begins with an `X`.** -/
theorem startsAtOnce_eq (h : p.argv = Text.Utf8.bytes text) :
    p.startsAtOnce = true ↔ text.toList.head? = some 'X' := by
  unfold startsAtOnce
  rw [h, beq_iff_eq]
  constructor
  · intro hhead
    obtain ⟨rest, hrest⟩ := List.head?_eq_some_iff.1 hhead
    rw [Text.Utf8.toList_of_mark hrest]
    rfl
  · intro hhead
    obtain ⟨rest, hrest⟩ := List.head?_eq_some_iff.1 hhead
    rw [Text.Utf8.bytes_of_mark hrest]
    rfl

/-- **That letter is left out of its arguments.** -/
theorem args_eq (h : p.argv = Text.Utf8.bytes text) :
    p.args = if text.toList.head? = some 'X' then String.ofList text.toList.tail else text := by
  have hstarts := startsAtOnce_eq h
  unfold args
  by_cases hhead : text.toList.head? = some 'X'
  · obtain ⟨rest, hrest⟩ := List.head?_eq_some_iff.1 hhead
    have hbytes := Text.Utf8.bytes_of_mark hrest
    rw [if_pos (hstarts.2 hhead), if_pos hhead, h, hbytes, hrest]
    show String.ofList (Text.Utf8.decode (Text.Utf8.encode rest)) = _
    rw [Text.Utf8.decode_encode]
    rfl
  · rw [if_neg (fun hone => hhead (hstarts.1 hone)), if_neg hhead, h, Text.Utf8.text_bytes]

end Program

/-! ## §3. Reading back what was asked for. -/

namespace Session

/-- A program whose argument text begins with an `X` can be added, with the mark and without it. -/
theorem exists_insertProgram_xorg (atOnce : Bool) :
    ∃ s after p, s.Reachable ∧ s.programs = .ok []
      ∧ insertProgram "Xorg" "ddr" "ddr" "Xorg" atOnce s = .ok p after := by
  have hstart : Session.create ⟨0, 0x400, 0x1000⟩ .little
      = .ok ⟨⟨0x400, 0x1000, .little, 24, .blank⟩, 0, 0, 0, 0, 0, []⟩ := rfl
  have hreachable := ((Reachable.create hstart).after
    (.command (.map "ddr" 0 0x1000 3))).after (.command (.payload "Xorg" 0x1000 0x200))
  generalize hs : Session.after _ _ = s at hreachable
  have hfinish : s.programs = .ok []
      ∧ s.grants (.command (.program "Xorg" "ddr" "ddr" "Xorg" atOnce)) = true := by
    subst hs
    cases atOnce <;> decide +kernel
  obtain ⟨after, hperform⟩ := grants_eq_true_iff.1 hfinish.2
  obtain ⟨p, _, hinsert, hdone⟩ := Edit.bind_eq_ok_iff.1 hperform
  exact ⟨s, _, p, hreachable, hfinish.1, hinsert⟩

/-- **When the last program is what was asked for.**  What has been added is the last of the
programs.  It is started at once if that was asked for or its text begins with an `X`, which is left
out in the latter case; so that it is what was asked for exactly if it was to be started at once or
its text does not begin with that letter. -/
theorem insertProgram_reads_back {s after : Session} (h : s.Reachable)
    {payload instructionMaps dataMaps argv : String} {atOnce : Bool} {p : Program}
    (hinsert : insertProgram payload instructionMaps dataMaps argv atOnce s = .ok p after)
    (hargv : 0 ∉ Text.Utf8.bytes argv) :
    ∃ programs, s.programs = .ok programs ∧ after.programs = .ok (programs ++ [p])
      ∧ (p.startsAtOnce = true ↔ atOnce = true ∨ argv.toList.head? = some 'X')
      ∧ p.args = (if atOnce = false ∧ argv.toList.head? = some 'X'
        then String.ofList argv.toList.tail else argv)
      ∧ ((p.startsAtOnce = atOnce ∧ p.args = argv)
        ↔ (atOnce = true ∨ argv.toList.head? ≠ some 'X')) := by
  obtain ⟨inv, hs⟩ := h.sound
  obtain ⟨programs, -, hprograms, hafter, -, -, -, -, hmarked⟩ :=
    hs.insertProgram_appends hinsert hargv
  rw [Program.markedArgv_eq] at hmarked
  have hstarts := Program.startsAtOnce_eq hmarked
  have hargs := Program.args_eq hmarked
  refine ⟨programs, hprograms, hafter, ?_⟩
  cases atOnce with
  | true =>
    -- the first letter of the text is the mark
    have htext : ((if true = true then "X" else "") ++ argv).toList = 'X' :: argv.toList := by
      rw [if_pos rfl, String.toList_append]
      rfl
    rw [htext] at hstarts hargs
    have hone : p.startsAtOnce = true := hstarts.2 rfl
    have hsame : p.args = argv := by simpa using hargs
    simp [hone, hsame]
  | false =>
    have htext : (if false = true then "X" else "") ++ argv = argv := by simp
    rw [htext] at hstarts hargs
    refine ⟨by simpa using hstarts, by simpa using hargs, ?_⟩
    by_cases hhead : argv.toList.head? = some 'X'
    · have hone : p.startsAtOnce = true := hstarts.2 hhead
      simp [hone, hhead]
    · have hnone : p.startsAtOnce = false := Bool.eq_false_iff.2 fun hone => hhead (hstarts.1 hone)
      have hsame : p.args = argv := by rw [hargs, if_neg hhead]
      simp [hnone, hsame, hhead]

/-- A program that is to be started at once, with a text that begins with an `X` itself. -/
theorem insertProgram_reads_back_marked :
    ∃ s after p, s.Reachable ∧ 0 ∉ Text.Utf8.bytes "Xorg"
      ∧ insertProgram "Xorg" "ddr" "ddr" "Xorg" true s = .ok p after
      ∧ after.programs = .ok [p] ∧ p.startsAtOnce = true ∧ p.args = "Xorg" := by
  obtain ⟨s, after, p, hreachable, hnone, hinsert⟩ := exists_insertProgram_xorg true
  have hplain : 0 ∉ Text.Utf8.bytes "Xorg" := by decide
  obtain ⟨programs, hprograms, hafter, -, -, hround⟩ :=
    insertProgram_reads_back hreachable hinsert hplain
  obtain ⟨hstarts, hargs⟩ := hround.2 (.inl rfl)
  rw [hnone] at hprograms
  cases hprograms
  exact ⟨s, after, p, hreachable, hplain, hinsert, hafter, hstarts, hargs⟩

/-- **An argument text of which the first letter is taken for the mark**: not every program comes
back as it was asked for. -/
theorem insertProgram_misread :
    ¬ ∀ (s after : Session) (payload instructionMaps dataMaps argv : String) (atOnce : Bool)
        (p : Program), s.Reachable → 0 ∉ Text.Utf8.bytes argv →
      insertProgram payload instructionMaps dataMaps argv atOnce s = .ok p after →
      ∃ programs last, after.programs = .ok (programs ++ [last])
        ∧ last.startsAtOnce = atOnce ∧ last.args = argv := by
  intro hall
  obtain ⟨s, after, p, hreachable, -, hinsert⟩ := exists_insertProgram_xorg false
  have hplain : 0 ∉ Text.Utf8.bytes "Xorg" := by decide
  obtain ⟨inv, hs⟩ := hreachable.sound
  obtain ⟨programs, _, -, hafter, -, -, -, -, hmarked⟩ := hs.insertProgram_appends hinsert hplain
  obtain ⟨others, last, hlast, -, hargs⟩ := hall _ _ _ _ _ _ _ _ hreachable hplain hinsert
  rw [hafter] at hlast
  have hsame : p = last := by
    have hlists := congrArg List.getLast? (Except.ok.inj hlast)
    simpa using hlists
  have hbytes : last.argv = Text.Utf8.bytes "Xorg" := by
    rw [← hsame, hmarked]
    rfl
  rw [Program.args_eq hbytes] at hargs
  exact absurd hargs (by decide)

end Session
end SystemPage
