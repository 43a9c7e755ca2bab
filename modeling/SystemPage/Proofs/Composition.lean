/-
  SystemPage.Proofs.Composition — scripts one behind the other.

  A script is its lines, and performing it is performing them in order up to the first that fails.
  So two scripts joined by a line feed are performed like the one and, if that finishes, the other,
  whatever lines meet where they are joined.  Only the place that a fault is told with differs: a
  line of the second script stands further down by the line feeds of the first and the one between
  them.

  The last line of a script keeps a carriage return that it ends with, and loses it when another
  script is joined to it.  Neither the words of a line nor what is shown of it depend on that.

  Main results:

      lines_join       — the lines of two texts joined by a line feed
      performLines_withoutReturn
                       — a carriage return at the end of a line makes no difference
      perform_join     — two scripts joined by a line feed are performed one after the other
      perform_eq_error_iff
                       — a script that fails does so at the first line that does
      perform_idle     — a line that asks for nothing can be put anywhere among the lines
      skipped_of_idle  — and anywhere into the text, with the line feeds that part it
      perform_composition
                       — scripts that are joined, scripts that fail, and lines that ask for nothing
-/
import SystemPage.Proofs.Image

namespace SystemPage

open Script

/-! ## §1. What edits come to. -/

namespace Edit

/-- What an edit comes to apart from the wording of its fault: the answer or the kind of the fault,
and the state that it leaves. -/
def verdict {σ α : Type} (edit : Edit σ α) (s : σ) : Except FaultKind α × σ :=
  ((outcome edit s).1.mapError Fault.kind, (outcome edit s).2)

variable {σ α β : Type} {s after : σ}

theorem verdict_of_ok {edit : Edit σ α} {a : α} (h : edit s = .ok a after) :
    verdict edit s = (.ok a, after) := by
  rw [verdict, outcome, h]
  rfl

theorem verdict_of_error {edit : Edit σ α} {fault : Fault} (h : edit s = .error fault after) :
    verdict edit s = (.error fault.kind, after) := by
  rw [verdict, outcome, h]
  rfl

theorem verdict_eq_ok_iff {edit : Edit σ α} {a : α} :
    verdict edit s = (.ok a, after) ↔ edit s = .ok a after := by
  cases h : edit s with
  | ok b t => simp [verdict_of_ok h]
  | error fault t => simp [verdict_of_error h]

/-- Two edits in sequence fail where one of them does. -/
theorem bind_eq_error_iff {edit : Edit σ α} {rest : α → Edit σ β} {fault : Fault} :
    (edit >>= rest) s = .error fault after
      ↔ edit s = .error fault after
        ∨ ∃ a middle, edit s = .ok a middle ∧ rest a middle = .error fault after := by
  cases h : edit s with
  | ok a middle => simp [bind_of_ok h]
  | error cause middle => simp [bind_of_error h]

/-- Edits in sequence come to the same as edits that come to the same. -/
theorem verdict_bind {edit edit' : Edit σ α} {rest rest' : α → Edit σ β}
    (h : verdict edit s = verdict edit' s)
    (hrest : ∀ a t, verdict (rest a) t = verdict (rest' a) t) :
    verdict (edit >>= rest) s = verdict (edit' >>= rest') s := by
  cases hs : edit s with
  | ok a t =>
    rw [verdict_of_ok hs] at h
    have hs' := verdict_eq_ok_iff.1 h.symm
    have hstep : verdict (edit >>= rest) s = verdict (rest a) t := by
      rw [verdict, verdict, outcome, outcome, bind_of_ok hs]
    have hstep' : verdict (edit' >>= rest') s = verdict (rest' a) t := by
      rw [verdict, verdict, outcome, outcome, bind_of_ok hs']
    rw [hstep, hstep', hrest a t]
  | error fault t =>
    rw [verdict_of_error hs] at h
    cases hs' : edit' s with
    | ok b t' =>
      rw [verdict_of_ok hs'] at h
      cases h
    | error fault' t' =>
      obtain ⟨hkind, rfl⟩ : fault.kind = fault'.kind ∧ t = t' := by
        simpa [verdict_of_error hs'] using h
      rw [verdict_of_error (bind_of_error hs), verdict_of_error (bind_of_error hs'), hkind]

end Edit

namespace Script

/-! ## §2. Lines of joined texts. -/

/-- Pieces in front of others are lines, each ended by a line feed. -/
theorem linesOf_append (first : List (List Char)) {second : List (List Char)}
    (hne : second ≠ []) :
    linesOf (first ++ second) = first.map withoutReturn ++ linesOf second := by
  induction first with
  | nil => rfl
  | cons piece rest ih =>
    obtain ⟨next, others, hrest⟩ := List.exists_cons_of_ne_nil (List.append_ne_nil_of_right_ne_nil
      rest hne)
    rw [List.cons_append, hrest, linesOf, ← hrest, ih]
    rfl

/-- **The lines of two texts joined by a line feed.**  Where the first one ends there is a line of
its own, even if no text is left for it, and the line feed takes a carriage return along. -/
theorem lines_join (first second : List Char) :
    lines (first ++ '\n' :: second)
      = (Text.fields '\n' first).map withoutReturn ++ lines second := by
  unfold lines
  rw [Text.fields_append, linesOf_append _ (Text.fields_ne_nil '\n' second)]

example : lines "map\r\n\r\nx\r".toList = ["map".toList, [], "x\r".toList] := rfl

/-! ### A carriage return at the end of a line. -/

/-- A line is what it is without a carriage return, or that and a carriage return. -/
theorem withoutReturn_cases (line : List Char) :
    line = withoutReturn line ∨ line = withoutReturn line ++ ['\r'] := by
  unfold withoutReturn
  split
  case isTrue hlast => exact .inr (List.dropLast_append_getLast? _ hlast).symm
  case isFalse => exact .inl rfl

/-- The end of a line may as well be a carriage return. -/
theorem wordsFrom_return (t : Tally) (word line : List Char) :
    wordsFrom t word (line ++ ['\r']) = wordsFrom t word line := by
  induction line generalizing t word with
  | nil => rfl
  | cons c cs ih =>
    rw [List.cons_append, wordsFrom, wordsFrom]
    simp only [ih]

theorem words_withoutReturn (line : List Char) :
    words (String.ofList (withoutReturn line)) = words (String.ofList line) := by
  rcases withoutReturn_cases line with h | h
  · rw [← h]
  · rw [words, words, String.toList_ofList, String.toList_ofList]
    nth_rewrite 2 [h]
    rw [wordsFrom_return]

/-- No carriage return is shown at the end of a line. -/
theorem shown_withoutReturn (line : List Char) :
    shown (String.ofList (withoutReturn line)) = shown (String.ofList line) := by
  rcases withoutReturn_cases line with h | h
  · rw [← h]
  · rw [shown, shown, String.toList_ofList, String.toList_ofList]
    nth_rewrite 2 [h]
    have hwhite : Text.isWhite '\r' = true := by decide
    rw [Text.trimEnd, Text.trimEnd, List.reverse_append, List.reverse_singleton,
      List.singleton_append, List.dropWhile_cons_of_pos hwhite]

/-! ## §3. Lines in sequence. -/

/-- Performing lines is performing some of them and then the others. -/
theorem performLines_append (path : String) (number : Nat) (first second : List (List Char)) :
    performLines path number (first ++ second) = (do
      performLines path number first
      performLines path (number + first.length) second) := by
  induction first generalizing number with
  | nil => rfl
  | cons line rest ih =>
    rw [List.cons_append, performLines, performLines, ih, bind_assoc, List.length_cons,
      show number + 1 + rest.length = number + (rest.length + 1) by omega]

theorem locating_of_error {path line : String} {number : Nat} {edit : Edit Session Unit}
    {s after : Session} {fault : Fault} (h : edit s = .error fault after) :
    locating path number line edit s = .error (.located fault path number (shown line)) after := by
  rw [locating, h]

/-- What an edit comes to does not depend on the place that its fault is told with. -/
theorem locating_verdict (path line : String) (number : Nat) (edit : Edit Session Unit)
    (s : Session) : Edit.verdict (locating path number line edit) s = Edit.verdict edit s := by
  cases h : edit s with
  | ok u after =>
    rw [Edit.verdict_of_ok (locating_eq_ok_iff.2 h), Edit.verdict_of_ok h]
  | error fault after =>
    rw [Edit.verdict_of_error (locating_of_error h), Edit.verdict_of_error h]
    rfl

/-- What lines come to depends neither on the path of their script nor on their numbers. -/
theorem performLines_verdict (path path' : String) (number number' : Nat)
    (found : List (List Char)) (s : Session) :
    Edit.verdict (performLines path number found) s
      = Edit.verdict (performLines path' number' found) s := by
  induction found generalizing number number' s with
  | nil => rfl
  | cons line rest ih =>
    refine Edit.verdict_bind ?_ fun _ t => ih (number + 1) (number' + 1) t
    rw [locating_verdict, locating_verdict]

/-- A line that asks for nothing: there are no words in it, or the first of them is the name of no
command. -/
def Idle (line : List Char) : Prop :=
  ∃ found, words (String.ofList line) = .ok found
    ∧ ∀ name ∈ found.head?, name ∉ ["alias", "map", "app", "console"]

theorem idle_nil : Idle [] := ⟨[], rfl, nofun⟩

/-- A line that asks for nothing changes nothing. -/
theorem performLine_idle {line : List Char} (h : Idle line) (s : Session) :
    performLine (String.ofList line) s = .ok () s := by
  obtain ⟨found, hwords, hforeign⟩ := h
  obtain ⟨name, hcommand⟩ : ∃ name, lineCommand line = .ok (.foreign name) := by
    unfold lineCommand
    rw [hwords]
    cases found with
    | nil => exact ⟨"", rfl⟩
    | cons name rest =>
      have hname := hforeign name rfl
      simp only [List.mem_cons, List.not_mem_nil, or_false, not_or] at hname
      obtain ⟨halias, hmap, happ, hconsole⟩ := hname
      refine ⟨name, ?_⟩
      show Command.ofWords name rest = _
      unfold Command.ofWords
      rw [if_neg halias, if_neg hmap, if_neg happ, if_neg hconsole]
  rw [performLine_of_ok hcommand]
  rfl

theorem performLines_idle {line : List Char} (h : Idle line) (path : String) (number : Nat) :
    performLines path number [line] = pure () := by
  funext s
  show (locating path number _ (performLine _) >>= fun _ => pure ()) s = _
  rw [Edit.bind_of_ok (locating_eq_ok_iff.2 (performLine_idle h s))]

/-- A line is performed, and its fault told, as if there were no carriage return at its end. -/
theorem locating_withoutReturn (path : String) (number : Nat) (line : List Char) :
    locating path number (String.ofList (withoutReturn line))
        (performLine (String.ofList (withoutReturn line)))
      = locating path number (String.ofList line) (performLine (String.ofList line)) := by
  have hperform : performLine (String.ofList (withoutReturn line))
      = performLine (String.ofList line) := by
    unfold performLine
    rw [words_withoutReturn]
  unfold locating
  rw [hperform, shown_withoutReturn]

/-- **The pieces between line feeds are performed like lines**, whether line feeds take carriage
returns along or not, and with or without an empty piece behind the last one. -/
theorem performLines_withoutReturn (path : String) (number : Nat) (pieces : List (List Char)) :
    performLines path number (pieces.map withoutReturn)
      = performLines path number (linesOf pieces) := by
  induction pieces generalizing number with
  | nil => rfl
  | cons piece rest ih =>
    rw [List.map_cons]
    cases rest with
    | nil =>
      rw [List.map_nil, linesOf]
      split
      case isTrue hempty =>
        subst hempty
        exact performLines_idle idle_nil path number
      case isFalse =>
        rw [performLines, performLines, locating_withoutReturn]
        rfl
    | cons next others =>
      rw [linesOf, performLines, performLines, ih]

/-- **Two scripts joined by a line feed are performed one after the other**, and the first line of
the second one has the number after the last of the first. -/
theorem perform_join (path first second : String) :
    perform path (first ++ "\n" ++ second) = (do
      perform path first
      performLines path (first.toList.count '\n' + 2) (lines second.toList)) := by
  have htext : (first ++ "\n" ++ second).toList = first.toList ++ '\n' :: second.toList := by
    rw [String.toList_append, String.toList_append, List.append_assoc]
    rfl
  rw [perform, htext, lines_join, performLines_append, performLines_withoutReturn,
    List.length_map, Text.length_fields,
    show 1 + (first.toList.count '\n' + 1) = first.toList.count '\n' + 2 by omega]
  rfl

/-- **A line that asks for nothing can be put anywhere** among the lines of a script. -/
theorem perform_idle {line : List Char} (h : Idle line) {before rest : List (List Char)}
    {source longer : String} (hsource : lines source.toList = before ++ rest)
    (hlonger : lines longer.toList = before ++ line :: rest) (path : String) (s : Session) :
    Edit.verdict (perform path longer) s = Edit.verdict (perform path source) s := by
  rw [perform, perform, hsource, hlonger, performLines_append, performLines_append,
    ← List.singleton_append, performLines_append, performLines_idle h]
  exact Edit.verdict_bind rfl fun _ t => performLines_verdict path path _ _ rest t

/-! ## §4. Scripts that fail. -/

/-- Lines that finish, each where the one before it stopped: the words of each are found, and what
they ask for is done. -/
inductive Performed : List (List Char) → Session → Session → Prop
  | nil (s : Session) : Performed [] s s
  | cons {line : List Char} {rest : List (List Char)} {found : List String}
      {s middle after : Session} (hwords : words (String.ofList line) = .ok found)
      (hline : performWords found s = .ok () middle) (hrest : Performed rest middle after) :
      Performed (line :: rest) s after

/-- A line that fails.  If its words cannot be found the session stays as it is; if what they ask
for fails, that is left which the failing command leaves. -/
inductive LineFails (line : List Char) (s : Session) : Fault → Session → Prop
  | words {cause : Fault} (hwords : words (String.ofList line) = .error cause) :
      LineFails line s cause s
  | command {found : List String} {cause : Fault} {after : Session}
      (hwords : Script.words (String.ofList line) = .ok found)
      (hline : performWords found s = .error cause after) : LineFails line s cause after

/-- Of the lines of a script, the one of a given number is the first that fails: those before it
finish, and it fails where they stop.  Whatever lines come behind it do not matter.  It is given as
it is shown. -/
def FailsAt (source : String) (s : Session) (number : Nat) (line : String) (cause : Fault)
    (after : Session) : Prop :=
  ∃ before failing rest middle, lines source.toList = before ++ failing :: rest
    ∧ number = before.length + 1 ∧ line = shown (String.ofList failing)
    ∧ Performed before s middle ∧ LineFails failing middle cause after

/-- A line with words does what they ask for. -/
theorem performLine_of_words {line : String} {found : List String} (h : words line = .ok found)
    (s : Session) : performLine line s = performWords found s := by
  have hlook : Edit.look (fun _ => words line) s = .ok found s := Edit.look_of_ok h
  rw [performLine, Edit.bind_of_ok hlook]

theorem performLine_of_no_words {line : String} {cause : Fault} (h : words line = .error cause)
    (s : Session) : performLine line s = .error cause s := by
  have hlook : Edit.look (fun _ => words line) s = .error cause s := Edit.look_of_error h
  rw [performLine, Edit.bind_of_error hlook]

theorem performLine_eq_error_iff {line : List Char} {s after : Session} {cause : Fault} :
    performLine (String.ofList line) s = .error cause after ↔ LineFails line s cause after := by
  constructor
  · intro h
    cases hwords : words (String.ofList line) with
    | error fault =>
      rw [performLine_of_no_words hwords] at h
      cases h
      exact .words hwords
    | ok found =>
      rw [performLine_of_words hwords] at h
      exact .command hwords h
  · intro h
    cases h with
    | words hwords => exact performLine_of_no_words hwords s
    | command hwords hline => rw [performLine_of_words hwords, hline]

/-- Lines finish when the first does and the others do where it stops. -/
theorem performed_cons_iff {line : List Char} {rest : List (List Char)} {s after : Session} :
    Performed (line :: rest) s after
      ↔ ∃ middle, performLine (String.ofList line) s = .ok () middle
        ∧ Performed rest middle after := by
  constructor
  · intro h
    cases h with
    | cons hwords hline hrest => exact ⟨_, by rw [performLine_of_words hwords, hline], hrest⟩
  · rintro ⟨middle, hline, hrest⟩
    cases hwords : words (String.ofList line) with
    | error fault =>
      rw [performLine_of_no_words hwords] at hline
      cases hline
    | ok found =>
      rw [performLine_of_words hwords] at hline
      exact .cons hwords hline hrest

theorem performLines_eq_ok_iff {path : String} {number : Nat} {found : List (List Char)}
    {s after : Session} :
    performLines path number found s = .ok () after ↔ Performed found s after := by
  induction found generalizing number s with
  | nil =>
    constructor
    · intro h
      cases h
      exact .nil _
    · intro h
      cases h
      rfl
  | cons line rest ih =>
    rw [performLines, Edit.then_eq_ok_iff, performed_cons_iff]
    simp only [locating_eq_ok_iff, ih]

theorem performLines_eq_error_iff {path : String} {start : Nat} {found : List (List Char)}
    {s after : Session} {fault : Fault} :
    performLines path start found s = .error fault after
      ↔ ∃ before line rest middle cause, found = before ++ line :: rest
        ∧ Performed before s middle ∧ LineFails line middle cause after
        ∧ fault = .located cause path (start + before.length) (shown (String.ofList line)) := by
  constructor
  · intro h
    -- up to the line that fails, on the lines that are left
    induction found generalizing start s with
    | nil => cases h
    | cons line rest ih =>
      cases hline : performLine (String.ofList line) s with
      | ok u middle =>
        have hlocating : locating path start (String.ofList line) (performLine (String.ofList line))
            s = .ok () middle := locating_eq_ok_iff.2 hline
        rw [performLines, Edit.bind_of_ok hlocating] at h
        obtain ⟨before, failing, behind, t, cause, rfl, hbefore, hfails, rfl⟩ := ih h
        refine ⟨line :: before, failing, behind, t, cause, rfl,
          performed_cons_iff.2 ⟨middle, hline, hbefore⟩, hfails, ?_⟩
        rw [List.length_cons, show start + 1 + before.length = start + (before.length + 1) by omega]
      | error cause left =>
        rw [performLines, Edit.bind_of_error (locating_of_error hline)] at h
        cases h
        exact ⟨[], line, rest, s, cause, rfl, .nil s, performLine_eq_error_iff.1 hline, rfl⟩
  · rintro ⟨before, line, rest, middle, cause, rfl, hbefore, hline, rfl⟩
    rw [performLines_append, Edit.bind_of_ok (performLines_eq_ok_iff.2 hbefore), performLines]
    exact Edit.bind_of_error (locating_of_error (performLine_eq_error_iff.2 hline))

/-- **A script that fails does so at the first line that does.** -/
theorem perform_eq_error_iff {path source : String} {s after : Session} {fault : Fault} :
    perform path source s = .error fault after
      ↔ ∃ number line cause, FailsAt source s number line cause after
        ∧ fault = .located cause path number line := by
  rw [perform, performLines_eq_error_iff]
  constructor
  · rintro ⟨before, failing, rest, middle, cause, hlines, hbefore, hfails, hfault⟩
    refine ⟨_, _, cause, ⟨before, failing, rest, middle, hlines, rfl, rfl, hbefore, hfails⟩, ?_⟩
    rw [hfault, Nat.add_comm]
  · rintro ⟨_, _, cause, ⟨before, failing, rest, middle, hlines, rfl, rfl, hbefore, hfails⟩, hfault⟩
    refine ⟨before, failing, rest, middle, cause, hlines, hbefore, hfails, ?_⟩
    rw [hfault, Nat.add_comm]

/-- The place that a fault is told with is that of the line. -/
theorem failsAt_iff {source : String} {s after : Session} {number : Nat} {line : String}
    {cause : Fault} (path : String) :
    FailsAt source s number line cause after
      ↔ perform path source s = .error (.located cause path number line) after := by
  rw [perform_eq_error_iff]
  constructor
  · intro h
    exact ⟨number, line, cause, h, rfl⟩
  · rintro ⟨number', line', cause', h, hfault⟩
    obtain ⟨rfl, -, rfl, rfl⟩ := Fault.located.inj hfault
    exact h

/-- **Where two scripts joined by a line feed fail.**  The lines of the second one stand below the
line feeds of the first and the one between them. -/
theorem failsAt_join {first second : String} {s after : Session} {number : Nat} {line : String}
    {cause : Fault} :
    FailsAt (first ++ "\n" ++ second) s number line cause after
      ↔ FailsAt first s number line cause after
        ∨ ∃ middle below, Performed (lines first.toList) s middle
          ∧ FailsAt second middle below line cause after
          ∧ number = below + (first.toList.count '\n' + 1) := by
  rw [failsAt_iff "", failsAt_iff "", perform_join, Edit.bind_eq_error_iff]
  refine or_congr_right ?_
  constructor
  · rintro ⟨_, middle, hfirst, hsecond⟩
    obtain ⟨before, failing, rest, t, cause', hlines, hbefore, hfails, hfault⟩ :=
      performLines_eq_error_iff.1 hsecond
    obtain ⟨rfl, -, rfl, rfl⟩ := Fault.located.inj hfault
    refine ⟨middle, before.length + 1, performLines_eq_ok_iff.1 hfirst,
      ⟨before, failing, rest, t, hlines, rfl, rfl, hbefore, hfails⟩, by omega⟩
  · rintro ⟨middle, below, hfirst, ⟨before, failing, rest, t, hlines, rfl, rfl, hbefore, hfails⟩,
      rfl⟩
    refine ⟨(), middle, performLines_eq_ok_iff.2 hfirst, performLines_eq_error_iff.2
      ⟨before, failing, rest, t, cause, hlines, hbefore, hfails, ?_⟩⟩
    rw [show before.length + 1 + (first.toList.count '\n' + 1)
      = first.toList.count '\n' + 2 + before.length by omega]

/-! ## §5. One script instead of two. -/

/-- What two scripts come to does not depend on whether they are joined. -/
theorem verdict_join (path path₁ path₂ first second : String) (s : Session) :
    Edit.verdict (perform path (first ++ "\n" ++ second)) s
      = Edit.verdict (do perform path₁ first; perform path₂ second) s := by
  rw [perform_join]
  exact Edit.verdict_bind (performLines_verdict path path₁ 1 1 _ s) fun _ t =>
    performLines_verdict path path₂ _ 1 _ t

/-- A line that asks for nothing, with line feeds to part it from the lines around it, can be put in
front of a script, behind it, and where a line feed stands in it. -/
structure Skipped (line : String) : Prop where
  inFront : ∀ behind path s, Edit.verdict (perform path (line ++ "\n" ++ behind)) s
    = Edit.verdict (perform path behind) s
  between : ∀ before behind path s,
    Edit.verdict (perform path (before ++ "\n" ++ line ++ "\n" ++ behind)) s
      = Edit.verdict (perform path (before ++ "\n" ++ behind)) s
  atEnd : ∀ before path s, Edit.verdict (perform path (before ++ "\n" ++ line)) s
    = Edit.verdict (perform path before) s

theorem perform_idle_text {line : String} (h : Idle line.toList) (hsingle : '\n' ∉ line.toList)
    (path : String) : perform path line = pure () := by
  rw [perform, lines, Text.fields_of_not_mem hsingle, linesOf]
  split
  case isTrue => rfl
  case isFalse => exact performLines_idle h path 1

theorem skipped_of_idle {line : String} (h : Idle line.toList) (hsingle : '\n' ∉ line.toList) :
    Skipped line := by
  have hnothing := perform_idle_text h hsingle
  have hend : ∀ before path s, Edit.verdict (perform path (before ++ "\n" ++ line)) s
      = Edit.verdict (perform path before) s := by
    intro before path s
    rw [verdict_join path path path, hnothing, bind_pure_unit]
  refine ⟨?_, ?_, hend⟩
  · intro behind path s
    rw [verdict_join path path path, hnothing]
    rfl
  · intro before behind path s
    rw [verdict_join path path path, verdict_join path path path]
    exact Edit.verdict_bind (hend before path s) fun _ _ => rfl

end Script

namespace CommandLine

variable {ι : Type} {st : Storage ι}

/-- The scripts of a build, joined by a line feed, build the same page in front of an empty one. -/
theorem builds_join {o : Options} {first second joined blank : String}
    (hfirst : st.Reads o.preinit first) (hsecond : st.Reads o.user second)
    (hjoined : st.Reads joined (first ++ "\n" ++ second)) (hblank : st.Reads blank "")
    (built : Session) (page : List UInt8) :
    Builds st o built page
      ↔ Builds st { o with preinit := joined, user := blank } built page := by
  have hscripts : ∀ empty, performScripts [(o.preinit, first), (o.user, second)] empty
      = .ok () built ↔ performScripts [(joined, first ++ "\n" ++ second), (blank, "")] empty
        = .ok () built := by
    intro empty
    have hempty : performScripts [(joined, first ++ "\n" ++ second), (blank, "")]
        = perform joined (first ++ "\n" ++ second) := bind_pure_unit
    have htwo : performScripts [(o.preinit, first), (o.user, second)]
        = (do perform o.preinit first; perform o.user second) := by
      show (do perform o.preinit first; do perform o.user second; pure ()) = _
      rw [show (do perform o.user second; pure ()) = perform o.user second from bind_pure_unit]
    rw [hempty, htwo, ← Edit.verdict_eq_ok_iff, ← Edit.verdict_eq_ok_iff,
      verdict_join joined o.preinit o.user]
  constructor
  · rintro ⟨_, _, empty, final, hpreinit, huser, hcreate, hperform, hcomplete⟩
    rw [hpreinit.unique hfirst, huser.unique hsecond] at hperform
    exact ⟨_, _, empty, final, hjoined, hblank, hcreate, (hscripts empty).1 hperform, hcomplete⟩
  · rintro ⟨_, _, empty, final, hpreinit, huser, hcreate, hperform, hcomplete⟩
    rw [hpreinit.unique hjoined, huser.unique hblank] at hperform
    exact ⟨_, _, empty, final, hfirst, hsecond, hcreate, (hscripts empty).2 hperform, hcomplete⟩

end CommandLine

namespace Script

/-- What two scripts come to when they are joined by a line feed, in any session and in a build. -/
structure Composed (first second : String) : Prop where
  verdict : ∀ path path₁ path₂ s, Edit.verdict (perform path (first ++ "\n" ++ second)) s
    = Edit.verdict (do perform path₁ first; perform path₂ second) s
  failsAt : ∀ s number line cause after,
    FailsAt (first ++ "\n" ++ second) s number line cause after
      ↔ FailsAt first s number line cause after
        ∨ ∃ middle below, Performed (lines first.toList) s middle
          ∧ FailsAt second middle below line cause after
          ∧ number = below + (first.toList.count '\n' + 1)
  build : ∀ (ι : Type) (st : CommandLine.Storage ι) (o : CommandLine.Options) joined blank image,
    st.Reads o.preinit first → st.Reads o.user second →
      st.Reads joined (first ++ "\n" ++ second) → st.Reads blank "" →
        ((∃ final notes, CommandLine.build o st.files [] = .ok ⟨final, image⟩ notes)
          ↔ ∃ final notes, CommandLine.build { o with preinit := joined, user := blank } st.files []
            = .ok ⟨final, image⟩ notes)

/-- **Scripts that are joined, scripts that fail, and lines that ask for nothing.**  Such lines can
be put anywhere among the lines of a script and anywhere into its text. -/
theorem perform_composition :
    (∀ first second, Composed first second)
      ∧ (∀ path source s fault after, perform path source s = .error fault after
        ↔ ∃ number line cause, FailsAt source s number line cause after
          ∧ fault = .located cause path number line)
      ∧ (∀ line, Idle line → ∀ before rest (source longer : String),
        lines source.toList = before ++ rest → lines longer.toList = before ++ line :: rest →
          ∀ path s,
            Edit.verdict (perform path longer) s = Edit.verdict (perform path source) s)
      ∧ ∀ line : String, Idle line.toList → '\n' ∉ line.toList → Skipped line := by
  refine ⟨?_, ?_, ?_, ?_⟩
  · intro first second
    refine ⟨fun path path₁ path₂ s => verdict_join path path₁ path₂ first second s,
      fun s number line cause after => failsAt_join, ?_⟩
    intro ι st o joined blank image hfirst hsecond hjoined hblank
    rw [CommandLine.build_eq_ok_iff, CommandLine.build_eq_ok_iff]
    simp only [CommandLine.builds_join hfirst hsecond hjoined hblank]
  · intro path source s fault after
    exact perform_eq_error_iff
  · intro line hidle before rest source longer hsource hlonger path s
    exact perform_idle hidle hsource hlonger path s
  · intro line hidle hsingle
    exact skipped_of_idle hidle hsingle

/-- A line for the boot loader between a map and one that meets it. -/
theorem perform_composition_foreign_line :
    ∃ s, Session.create ⟨0, 0, 0x400⟩ .little = .ok s ∧ Idle "wait 10 # ms".toList
      ∧ Edit.verdict (perform "user.plo" "map ddr 0 8 r\nwait 10 # ms\nmap tcm 4 12 r\n") s
        = Edit.verdict (perform "user.plo" "map ddr 0 8 r\nmap tcm 4 12 r") s := by
  have hidle : Idle "wait 10 # ms".toList := ⟨["wait", "10", "#", "ms"], rfl, by decide⟩
  refine ⟨_, rfl, hidle, ?_⟩
  exact perform_composition.2.2.1 _ hidle ["map ddr 0 8 r".toList] ["map tcm 4 12 r".toList] _ _ rfl
    rfl _ _

end Script
end SystemPage
