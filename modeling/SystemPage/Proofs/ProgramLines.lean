/-
  SystemPage.Proofs.ProgramLines — every list of words that begins with `app`.

  A flag may stand between the argument text of a program and its two lists of maps, and moves the
  lists one word on.  Four words are too few for a flag, five are too many without one, and a list
  of maps that begins with a hyphen is taken for a flag.  Here the words are any list, and it is
  said by position which of them are the lists, when a flag is unknown, and that all else is
  refused for the number of words.

  Main results:

      TakesLists.programOfWords_eq, UnknownFlag.programOfWords_eq, programOfWords_otherwise
                       — what the words behind `app` ask for, in all the ways they can come
      performWords_app — what every line of words for a program does to every session
-/
import SystemPage.Proofs.Commuting

namespace SystemPage
namespace Script

/-! ## §1. Forms of a line. -/

/-- A word that begins with a hyphen. -/
def Dashed (word : String) : Prop := ∃ rest, word.toList = '-' :: rest

/-- The flag of a program that is started at once, in either case. -/
def IsStart (word : String) : Prop := word = "-x" ∨ word = "-X"

/-- The words hold two lists of maps from some position on, and a program that is started at once
or not. -/
inductive TakesLists : List String → Nat → Bool → Prop
  | plain {args : List String} (hlength : args.length = 4)
      (hword : ∀ word ∈ args[2]?, ¬ Dashed word) : TakesLists args 2 false
  | atOnce {args : List String} (hlength : args.length = 5)
      (hflag : ∃ flag ∈ args[2]?, IsStart flag) : TakesLists args 3 true

/-- There is a flag where one may stand, and it is none that there is. -/
def UnknownFlag (args : List String) : Prop :=
  (args.length = 4 ∨ args.length = 5) ∧ ∃ flag ∈ args[2]?, Dashed flag ∧ ¬ IsStart flag

/-- Adds a program that an argument text names. -/
def addition (argv instructionMaps dataMaps : String) (atOnce : Bool) : Edit Session Unit :=
  discard <| Session.insertProgram (String.ofList (argv.toList.takeWhile (· ≠ ';')))
    instructionMaps dataMaps argv atOnce

/-- Words that are refused for a reason of some kind leave the session as it is. -/
def Rejected (args : List String) (s : Session) (kind : FaultKind) : Prop :=
  ∃ fault, performWords args s = .error fault s ∧ fault.kind = kind

/-! ## §2. Reading. -/

theorem looksLikeFlag_iff {word : String} : looksLikeFlag word = true ↔ Dashed word := by
  rw [looksLikeFlag, beq_iff_eq, Dashed]
  cases word.toList with
  | nil => simp
  | cons c rest => simp

theorem isStartFlag_iff {word : String} : isStartFlag word = true ↔ IsStart word := by
  rw [isStartFlag, Bool.or_eq_true, beq_iff_eq, beq_iff_eq, IsStart]

theorem IsStart.dashed {word : String} (h : IsStart word) : Dashed word := by
  rcases h with rfl | rfl
  · exact ⟨['x'], rfl⟩
  · exact ⟨['X'], rfl⟩

variable {rest : List String}

/-- Words that hold two lists of maps ask for a program. -/
theorem TakesLists.programOfWords_eq {m : Nat} {atOnce : Bool}
    (h : TakesLists ("app" :: rest) m atOnce) :
    ∃ argv instructionMaps dataMaps, ("app" :: rest)[1]? = some argv
      ∧ ("app" :: rest)[m]? = some instructionMaps ∧ ("app" :: rest)[m + 1]? = some dataMaps
      ∧ programOfWords rest = .ok (programCommand argv instructionMaps dataMaps atOnce) := by
  cases h with
  | plain hlength hword =>
    obtain ⟨argv, instructionMaps, dataMaps, rfl⟩ := List.length_eq_three.1 (Nat.succ.inj hlength)
    have hlooks : looksLikeFlag instructionMaps = false := by
      rw [← Bool.not_eq_true, looksLikeFlag_iff]
      exact hword instructionMaps rfl
    refine ⟨argv, instructionMaps, dataMaps, rfl, rfl, rfl, ?_⟩
    simp only [programOfWords, hlooks, Bool.not_false, if_true]
  | atOnce hlength hflag =>
    obtain ⟨argv, flag, instructionMaps, dataMaps, rfl⟩ :
        ∃ argv flag instructionMaps dataMaps, rest = [argv, flag, instructionMaps, dataMaps] := by
      match rest, hlength with
      | [argv, flag, instructionMaps, dataMaps], _ => exact ⟨_, _, _, _, rfl⟩
    obtain ⟨_, hword, hstart⟩ := hflag
    cases hword
    refine ⟨argv, instructionMaps, dataMaps, rfl, rfl, rfl, ?_⟩
    simp only [programOfWords, looksLikeFlag_iff.2 hstart.dashed, isStartFlag_iff.2 hstart,
      Bool.not_true, Bool.false_eq_true, if_false, if_true]

/-- An unknown flag is refused as such. -/
theorem UnknownFlag.programOfWords_eq (h : UnknownFlag ("app" :: rest)) :
    ∃ flag, programOfWords rest = .error (.programFlag flag) := by
  obtain ⟨hlength, flag, hword, hdashed, hstart⟩ := h
  have hlooks := looksLikeFlag_iff.2 hdashed
  rw [← isStartFlag_iff, Bool.not_eq_true] at hstart
  refine ⟨flag, ?_⟩
  match rest, hlength with
  | [_, _, _], _ =>
    cases hword
    simp only [programOfWords, hlooks, hstart, Bool.not_true, Bool.false_eq_true, if_false]
  | [_, _, _, _], _ =>
    cases hword
    simp only [programOfWords, hlooks, hstart, Bool.not_true, Bool.false_eq_true, if_false]

/-- All else is refused for the number of words. -/
theorem programOfWords_otherwise (hlists : ∀ m atOnce, ¬ TakesLists ("app" :: rest) m atOnce)
    (hknown : ¬ UnknownFlag ("app" :: rest)) :
    ∃ fault, programOfWords rest = .error fault ∧ fault.kind = .invalidArgumentCount := by
  unfold programOfWords
  split
  · next argv word dataMaps =>
    by_cases hdashed : Dashed word
    · have hstart : IsStart word := by
        by_contra hstart
        exact hknown ⟨.inl rfl, word, rfl, hdashed, hstart⟩
      simp only [looksLikeFlag_iff.2 hdashed, isStartFlag_iff.2 hstart, Bool.not_true,
        Bool.false_eq_true, if_false, if_true]
      exact ⟨_, rfl, rfl⟩
    · refine absurd (TakesLists.plain rfl ?_) (hlists 2 false)
      rintro _ ⟨⟩
      exact hdashed
  · next argv word instructionMaps dataMaps =>
    have hstart : ¬ IsStart word := fun hstart =>
      hlists 3 true (.atOnce rfl ⟨word, rfl, hstart⟩)
    have hdashed : ¬ Dashed word := fun hdashed =>
      hknown ⟨.inr rfl, word, rfl, hdashed, hstart⟩
    rw [← looksLikeFlag_iff, Bool.not_eq_true] at hdashed
    simp only [hdashed, Bool.not_false, if_true]
    exact ⟨_, rfl, rfl⟩
  · exact ⟨_, rfl, rfl⟩

/-! ## §3. What lines do. -/

theorem rejected_of_error {name : String} {fault : Fault} {kind : FaultKind}
    (h : Command.ofWords name rest = .error fault) (hkind : fault.kind = kind) (s : Session) :
    Rejected (name :: rest) s kind :=
  ⟨fault, performWords_of_error h s, hkind⟩

/-- **What every line of words for a program does to every session.**  With two lists of maps it
adds a program; with an unknown flag it is refused as such; and all else is refused for the number
of words.  Words that are refused leave the session as it is. -/
theorem performWords_app (args : List String) (happ : args.head? = some "app") (s : Session) :
    (∀ m atOnce, TakesLists args m atOnce →
      ∃ argv instructionMaps dataMaps, args[1]? = some argv ∧ args[m]? = some instructionMaps
        ∧ args[m + 1]? = some dataMaps
        ∧ performWords args s = addition argv instructionMaps dataMaps atOnce s)
      ∧ (UnknownFlag args → Rejected args s .invalidArgument)
      ∧ ((∀ m atOnce, ¬ TakesLists args m atOnce) → ¬ UnknownFlag args →
        Rejected args s .invalidArgumentCount) := by
  obtain ⟨rest, rfl⟩ : ∃ rest, args = "app" :: rest := List.head?_eq_some_iff.1 happ
  -- the other commands go by other names
  have hread : Command.ofWords "app" rest = programOfWords rest := rfl
  refine ⟨fun m atOnce htakes => ?_, fun hunknown => ?_, fun hlists hknown => ?_⟩
  · obtain ⟨argv, instructionMaps, dataMaps, hargv, hfirst, hsecond, hcommand⟩ :=
      htakes.programOfWords_eq
    refine ⟨argv, instructionMaps, dataMaps, hargv, hfirst, hsecond, ?_⟩
    rw [performWords_of_ok (hread.trans hcommand)]
    rfl
  · obtain ⟨flag, hfault⟩ := hunknown.programOfWords_eq
    exact rejected_of_error (hread.trans hfault) rfl s
  · obtain ⟨fault, hfault, hkind⟩ := programOfWords_otherwise hlists hknown
    exact rejected_of_error (hread.trans hfault) hkind s

/-- A program that is started at once, an unknown flag, and a flag with only one list behind it. -/
theorem performWords_app_flags :
    ∃ s t : Session, Session.create ⟨0x1000, 0x100, 0x400⟩ .little = .ok t
      ∧ s = t.run [.command (.map "ddr" 0x100 0x200 3), .command (.payload "psh" 0x400 0x80)]
      ∧ performWords ["app", "psh;-v", "-X", "ddr", "ddr"] s
        = addition "psh;-v" "ddr" "ddr" true s
      ∧ (Edit.outcome (addition "psh;-v" "ddr" "ddr" true) s).1 = .ok ()
      ∧ Rejected ["app", "psh", "-y", "ddr"] s .invalidArgument
      ∧ Rejected ["app", "psh", "-x", "ddr"] s .invalidArgumentCount := by
  have hdashed : Dashed "-y" ∧ Dashed "-x" := ⟨⟨['y'], rfl⟩, ⟨['x'], rfl⟩⟩
  have hstart : IsStart "-X" ∧ ¬ IsStart "-y" ∧ IsStart "-x" := by
    unfold IsStart
    decide
  refine ⟨_, _, rfl, rfl, ?_, by decide +kernel, ?_, ?_⟩
  · obtain ⟨argv, first, second, hargv, hfirst, hsecond, hperform⟩ :=
      (performWords_app ["app", "psh;-v", "-X", "ddr", "ddr"] rfl _).1 3 true
        (.atOnce rfl ⟨"-X", rfl, hstart.1⟩)
    cases hargv
    cases hfirst
    cases hsecond
    exact hperform
  · exact (performWords_app ["app", "psh", "-y", "ddr"] rfl _).2.1
      ⟨.inl rfl, "-y", rfl, hdashed.1, hstart.2.1⟩
  · refine (performWords_app ["app", "psh", "-x", "ddr"] rfl _).2.2 ?_ ?_
    · rintro m atOnce (⟨-, hword⟩ | ⟨hlength, -⟩)
      · exact hword "-x" rfl hdashed.2
      · cases hlength
    · rintro ⟨-, flag, hword, -, hflag⟩
      cases hword
      exact hflag hstart.2.2

end Script
end SystemPage
