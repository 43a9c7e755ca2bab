/-
  SystemPage.Proofs.Arguments — the arguments are read as they are documented.

  Arguments that are written as items are read item by item: each one raises the verbosity or adds
  an option with its value, or is refused.  So what is read in the end are the options of the items
  in order, each of them once and with a value that it takes, and that is what `Asks` tells from the
  items alone.  Nothing else is read: an argument that leads on is an item or begins one.

  Main results:

      readArguments_items   — what is written as items is read item by item
      readArguments_written — arguments that ask for a build are written as items
      finish_eq_ok_iff      — a draft is finished exactly when all that a build needs is there
      parse_documented      — `parse` reads what is documented
-/
import Mathlib.Data.List.Nodup
import SystemPage.CommandLine.Arguments
import SystemPage.Proofs.Commands

namespace SystemPage.CommandLine

/-! ## §1. Reading one argument. -/

/-- The number of flags in front of the letter of an option. -/
def Form.flags : Form → Nat
  | .letterNext flags | .letterJoined flags | .letterEquals flags => flags
  | .nameNext | .nameEquals => 0

/-- What an item does to the options read so far. -/
def Item.read (d : Draft) : Item → Except UsageFault Draft
  | .valued option value form => (d.raise form.flags).set option value
  | .flags more => .ok (d.raise (more + 1))
  | .verbose => .ok (d.raise 1)

/-- Reads what follows an argument, or tells why there is none. -/
def continueWith (rest : List String) : Except UsageFault Draft → Except UsageFault Request
  | .ok d => readArguments d none rest
  | .error fault => .error fault

theorem Draft.raise_raise (d : Draft) (m n : Nat) : (d.raise m).raise n = d.raise (m + n) := by
  unfold Draft.raise
  rw [Nat.add_assoc]

/-- Flags raise the verbosity one by one. -/
theorem readLetters_flags (argument : String) (d : Draft) (flags : Nat) (tail : List Char) :
    readLetters argument d (List.replicate flags 'v' ++ tail)
      = readLetters argument (d.raise flags) tail := by
  induction flags generalizing d with
  | zero => rfl
  | succ flags ih =>
    show readLetters argument (d.raise 1) (List.replicate flags 'v' ++ tail) = _
    rw [ih, Draft.raise_raise, Nat.add_comm]

/-- Behind the letter of an option there is its value, or it is in the next argument. -/
theorem readLetters_letter (argument : String) (d : Draft) (option : Valued) (rest : List Char) :
    readLetters argument d (option.letter :: rest)
      = if rest = [] then .ok (.await d option)
        else (d.set option (attachedValue rest)).map .proceed := by
  cases option <;> rfl

/-- A value that does not begin with `=` is attached as it is. -/
theorem attachedValue_toList {value : String} (h : value.toList.head? ≠ some '=') :
    attachedValue value.toList = value := by
  unfold attachedValue
  split
  case h_1 rest heq => exact absurd (by rw [heq]; rfl) h
  case h_2 => exact String.ofList_toList

/-- One dash and something else begin letters. -/
theorem readArgument_of_letter (d : Draft) {argument : String} {c : Char} {rest : List Char}
    (h : argument.toList = '-' :: c :: rest) (hc : c ≠ '-') :
    readArgument d argument = readLetters argument d (c :: rest) := by
  unfold readArgument
  rw [h]
  split
  case h_1 heq =>
    cases heq
    exact absurd rfl hc
  case h_2 heq =>
    cases heq
    rfl
  case h_3 hnone => exact absurd rfl (hnone c rest)

/-- An argument made of letters is read letter by letter. -/
theorem readArgument_letters (d : Draft) {flags : Nat} {tail : List Char}
    (hne : List.replicate flags 'v' ++ tail ≠ []) (htail : tail.head? ≠ some '-') :
    readArgument d (lettersArgument flags tail)
      = readLetters (lettersArgument flags tail) (d.raise flags) tail := by
  rw [← readLetters_flags]
  cases flags with
  | succ flags => exact readArgument_of_letter d String.toList_ofList (by decide)
  | zero =>
    cases tail with
    | nil => exact absurd rfl hne
    | cons c rest =>
      have hc : c ≠ '-' := by simpa using htail
      exact readArgument_of_letter d String.toList_ofList hc

/-- A name that holds no `=` is read up to its end or up to one. -/
theorem readArgument_name (d : Draft) {name : String} (hname : '=' ∉ name.toList) :
    readArgument d (nameArgument name []) = readName (nameArgument name []) d name none := by
  rw [readArgument, nameArgument, String.toList_ofList]
  show readName _ d (String.ofList (Text.cut '=' (name.toList ++ [])).1)
    ((Text.cut '=' (name.toList ++ [])).2.map String.ofList) = _
  rw [List.append_nil, Text.cut_of_not_mem hname, String.ofList_toList]
  rfl

theorem readArgument_name_value (d : Draft) {name : String} (hname : '=' ∉ name.toList)
    (value : String) :
    readArgument d (nameArgument name ('=' :: value.toList))
      = readName (nameArgument name ('=' :: value.toList)) d name (some value) := by
  rw [readArgument, nameArgument, String.toList_ofList]
  show readName _ d (String.ofList (Text.cut '=' (name.toList ++ '=' :: value.toList)).1)
    ((Text.cut '=' (name.toList ++ '=' :: value.toList)).2.map String.ofList) = _
  rw [Text.cut_append hname, String.ofList_toList, Option.map_some, String.ofList_toList]

theorem ofTitle?_title (option : Valued) : Valued.ofTitle? option.title = some option := by
  cases option <;> decide

theorem title_plain (option : Valued) : '=' ∉ option.title.toList := by
  cases option <;> decide

/-! ## §2. Reading items. -/

/-- Arguments with letters or a name are not the end of the options. -/
theorem lettersArgument_ne_end {flags : Nat} {tail : List Char} (htail : tail.head? ≠ some '-') :
    lettersArgument flags tail ≠ "--" := by
  intro h
  have hlist := congrArg String.toList h
  rw [lettersArgument, String.toList_ofList] at hlist
  have hrest : List.replicate flags 'v' ++ tail = ['-'] := by simpa using hlist
  cases flags with
  | zero => exact htail (by rw [show tail = ['-'] from hrest]; rfl)
  | succ flags => simp [List.replicate_succ] at hrest

theorem nameArgument_ne_end {name : String} {tail : List Char} (hname : name.toList ≠ []) :
    nameArgument name tail ≠ "--" := by
  intro h
  have hlist := congrArg String.toList h
  rw [nameArgument, String.toList_ofList] at hlist
  have hrest : name.toList ++ tail = [] := by simpa using hlist
  exact hname (List.append_eq_nil_iff.1 hrest).1

theorem title_ne_nil (option : Valued) : option.title.toList ≠ [] := by
  cases option <;> decide

theorem letter_ne_dash (option : Valued) (rest : List Char) :
    (option.letter :: rest).head? ≠ some '-' := by
  cases option <;> simp [Valued.letter]

/-- An argument that is read at once. -/
theorem readArguments_of_proceed {d : Draft} {argument : String} {rest : List String}
    {read : Except UsageFault Draft} (hend : argument ≠ "--")
    (h : readArgument d argument = read.map .proceed) :
    readArguments d none (argument :: rest) = continueWith rest read := by
  unfold readArguments
  rw [if_neg hend, h]
  cases read <;> rfl

/-- An argument whose value is the next one. -/
theorem readArguments_of_await {d d' : Draft} {argument value : String} {rest : List String}
    {option : Valued} (hend : argument ≠ "--")
    (h : readArgument d argument = .ok (.await d' option))
    (hvalue : looksLikeOption value = false) :
    readArguments d none (argument :: value :: rest)
      = continueWith rest (d'.set option value) := by
  rw [readArguments, if_neg hend, h]
  show readArguments d' (some option) (value :: rest) = _
  unfold readArguments
  rw [hvalue]
  cases d'.set option value <;> rfl

/-- **What is written at once is read at once.** -/
theorem readArguments_item {item : Item} (h : item.Proper) (d : Draft) (rest : List String) :
    readArguments d none (item.arguments ++ rest) = continueWith rest (item.read d) := by
  cases item with
  | flags more =>
    refine readArguments_of_proceed (lettersArgument_ne_end (by simp)) ?_
    rw [readArgument_letters d (by simp [List.replicate_succ]) (by simp)]
    rfl
  | verbose =>
    refine readArguments_of_proceed (nameArgument_ne_end (by decide)) ?_
    rw [readArgument_name d (by decide)]
    rfl
  | valued option value form =>
    have hdash := letter_ne_dash option
    cases form with
    | letterNext flags =>
      refine readArguments_of_await (lettersArgument_ne_end (hdash _)) ?_ h
      rw [readArgument_letters d (by simp) (hdash _), readLetters_letter, if_pos rfl]
      rfl
    | letterJoined flags =>
      obtain ⟨hne, hequals⟩ := h
      have htext : value.toList ≠ [] := by simpa using hne
      refine readArguments_of_proceed (lettersArgument_ne_end (hdash _)) ?_
      rw [readArgument_letters d (by simp) (hdash _), readLetters_letter, if_neg htext,
        attachedValue_toList hequals]
      rfl
    | letterEquals flags =>
      refine readArguments_of_proceed (lettersArgument_ne_end (hdash _)) ?_
      rw [readArgument_letters d (by simp) (hdash _), readLetters_letter, if_neg (by simp)]
      show Except.map _ (Draft.set _ option (String.ofList value.toList)) = _
      rw [String.ofList_toList]
      rfl
    | nameNext =>
      refine readArguments_of_await (nameArgument_ne_end (title_ne_nil option)) ?_ h
      rw [readArgument_name d (title_plain option)]
      unfold readName
      rw [ofTitle?_title]
      rfl
    | nameEquals =>
      refine readArguments_of_proceed (nameArgument_ne_end (title_ne_nil option)) ?_
      rw [readArgument_name_value d (title_plain option)]
      unfold readName
      rw [ofTitle?_title]
      rfl

/-- What items do to the options read so far, one after the other. -/
def readItems (d : Draft) (items : List Item) : Except UsageFault Draft :=
  items.foldlM Item.read d

/-- **What is written as items is read item by item.** -/
theorem readArguments_items {items : List Item} (h : ∀ item ∈ items, item.Proper) (d : Draft)
    (rest : List String) :
    readArguments d none (argumentsOf items ++ rest) = continueWith rest (readItems d items) := by
  induction items generalizing d with
  | nil => rfl
  | cons item others ih =>
    show readArguments d none ((item.arguments ++ argumentsOf others) ++ rest) = _
    rw [List.append_assoc, readArguments_item (h item List.mem_cons_self), readItems,
      List.foldlM_cons]
    cases item.read d with
    | error fault => rfl
    | ok d' => exact ih (fun item hitem => h item (List.mem_cons_of_mem _ hitem)) d'

/-! ## §3. Nothing else is read. -/

theorem ofLetter?_eq_some {c : Char} {option : Valued} (h : Valued.ofLetter? c = some option) :
    c = option.letter := by
  have hfound := List.find?_some h
  exact (of_decide_eq_true hfound).symm

theorem ofTitle?_eq_some {title : String} {option : Valued}
    (h : Valued.ofTitle? title = some option) : title = option.title := by
  have hfound := List.find?_some h
  exact (of_decide_eq_true hfound).symm

/-- An argument that is an item of its own. -/
def IsItem (argument : String) : Prop :=
  ∃ item : Item, item.Proper ∧ item.arguments = [argument]

/-- An argument that is an item together with the value behind it. -/
def BeginsItem (argument : String) : Prop :=
  ∀ value, looksLikeOption value = false →
    ∃ item : Item, item.Proper ∧ item.arguments = [argument, value]

/-- What is written where reading an argument leads to a step. -/
def WrittenFor (argument : String) : Step → Prop
  | .proceed _ => IsItem argument
  | .await _ _ => BeginsItem argument
  | .settle request => ∀ o, request ≠ .build o

/-- What is attached to the letter of an option is its value. -/
theorem isItem_attached (flags : Nat) (option : Valued) {rest : List Char} (hne : rest ≠ []) :
    IsItem (lettersArgument flags (option.letter :: rest)) := by
  by_cases hequals : rest.head? = some '='
  · obtain ⟨value, rfl⟩ := List.head?_eq_some_iff.1 hequals
    refine ⟨.valued option (String.ofList value) (.letterEquals flags), trivial, ?_⟩
    show [lettersArgument flags (option.letter :: '=' :: (String.ofList value).toList)] = _
    rw [String.toList_ofList]
  · refine ⟨.valued option (String.ofList rest) (.letterJoined flags), ⟨?_, ?_⟩, ?_⟩
    · simpa using hne
    · rw [String.toList_ofList]
      exact hequals
    · show [lettersArgument flags (option.letter :: (String.ofList rest).toList)] = _
      rw [String.toList_ofList]

theorem lettersArgument_succ (flags : Nat) (tail : List Char) :
    lettersArgument (flags + 1) tail = lettersArgument flags ('v' :: tail) := by
  unfold lettersArgument
  rw [List.replicate_succ', List.append_assoc]
  rfl

/-- Letters that are read are flags, and behind them there is nothing or an option. -/
theorem readLetters_written {argument : String} {d : Draft} {cs : List Char} {step : Step}
    (h : readLetters argument d cs = .ok step) (flags : Nat)
    (hargument : argument = lettersArgument flags cs) (hne : 0 < flags ∨ cs ≠ []) :
    WrittenFor argument step := by
  induction cs generalizing d flags with
  | nil =>
    cases h
    cases flags with
    | zero => exact absurd rfl (hne.resolve_left (Nat.lt_irrefl 0))
    | succ more => exact ⟨.flags more, trivial, by rw [hargument]; rfl⟩
  | cons c rest ih =>
    unfold readLetters at h
    split at h
    case h_1 => contradiction
    case h_2 heq =>
      cases heq
      rw [← lettersArgument_succ] at hargument
      exact ih h (flags + 1) hargument (.inl (Nat.succ_pos flags))
    case h_3 =>
      cases h
      exact nofun
    case h_4 =>
      cases h
      exact nofun
    case h_5 heq =>
      cases heq
      cases hletter : Valued.ofLetter? c with
      | none =>
        rw [hletter] at h
        cases h
      | some option =>
        rw [hletter] at h
        rw [ofLetter?_eq_some hletter] at hargument
        by_cases hrest : rest = []
        · subst hrest
          cases h
          intro value hvalue
          exact ⟨.valued option value (.letterNext flags), hvalue, by rw [hargument]; rfl⟩
        · rw [hargument]
          simp only [if_neg hrest] at h
          cases hset : d.set option (attachedValue rest) with
          | error fault =>
            rw [hset] at h
            cases h
          | ok d' =>
            rw [hset] at h
            cases h
            exact isItem_attached flags option hrest

theorem readName_written {argument name : String} {d : Draft} {value : Option String} {step : Step}
    (h : readName argument d name value = .ok step)
    (hargument : argument = nameArgument name (value.elim [] fun text => '=' :: text.toList)) :
    WrittenFor argument step := by
  subst hargument
  unfold readName at h
  split at h
  case h_1 option text htitle =>
    rw [ofTitle?_eq_some htitle]
    cases hset : d.set option text with
    | error fault =>
      rw [hset] at h
      cases h
    | ok d' =>
      rw [hset] at h
      cases h
      exact ⟨.valued option text .nameEquals, trivial, rfl⟩
  case h_2 option htitle =>
    cases h
    rw [ofTitle?_eq_some htitle]
    exact fun text htext => ⟨.valued option text .nameNext, htext, rfl⟩
  case h_3 => cases h
  case h_4 =>
    split at h
    case isTrue hverbose =>
      cases h
      rw [hverbose]
      exact ⟨.verbose, trivial, rfl⟩
    case isFalse =>
      split at h
      case isTrue =>
        cases h
        exact nofun
      case isFalse =>
        split at h
        case isTrue =>
          cases h
          exact nofun
        case isFalse => cases h

/-- **An argument that is read is an item or begins one**, unless it settles the matter. -/
theorem readArgument_written {argument : String} {d : Draft} {step : Step}
    (h : readArgument d argument = .ok step) : WrittenFor argument step := by
  unfold readArgument at h
  split at h
  case h_1 body hbody =>
    have hargument : argument = String.ofList ('-' :: '-' :: body) := by
      rw [← hbody, String.ofList_toList]
    rcases Text.cut_cases '=' body with hcut | ⟨name, value, hjoin, hcut⟩
    · rw [hcut] at h
      refine readName_written h ?_
      rw [hargument, nameArgument, String.toList_ofList]
      simp
    · rw [hcut] at h
      refine readName_written h ?_
      rw [hargument, hjoin, nameArgument, String.toList_ofList]
      simp
  case h_2 c rest _ hletters =>
    have hargument : argument = lettersArgument 0 (c :: rest) := by
      rw [← String.ofList_toList (s := argument), hletters]
      rfl
    exact readLetters_written h 0 hargument (.inr (List.cons_ne_nil c rest))
  case h_3 => cases h

/-- Arguments that are written as items, which `--` may end. -/
def Written (arguments : List String) : Prop :=
  ∃ items, (∀ item ∈ items, Item.Proper item)
    ∧ (arguments = argumentsOf items ∨ arguments = argumentsOf items ++ ["--"])

/-- An item may stand in front of others. -/
theorem Written.cons {item : Item} (hproper : item.Proper) {rest : List String}
    (h : Written rest) : Written (item.arguments ++ rest) := by
  obtain ⟨items, hitems, hrest⟩ := h
  refine ⟨item :: items, List.forall_mem_cons.2 ⟨hproper, hitems⟩, ?_⟩
  show _ = item.arguments ++ argumentsOf items ∨ _ = item.arguments ++ argumentsOf items ++ _
  rcases hrest with rfl | rfl
  · exact .inl rfl
  · exact .inr (List.append_assoc ..).symm

/-- **Arguments that ask for a build are written as items.** -/
theorem readArguments_written {arguments : List String} {d : Draft} {o : Options}
    (h : readArguments d none arguments = .ok (.build o)) : Written arguments := by
  induction hlength : arguments.length using Nat.strong_induction_on
    generalizing arguments d with
  | _ n ih =>
  cases arguments with
  | nil => exact ⟨[], nofun, .inl rfl⟩
  | cons argument rest =>
    unfold readArguments at h
    by_cases hend : argument = "--"
    · rw [if_pos hend] at h
      cases rest with
      | nil => exact ⟨[], nofun, .inr (by rw [hend]; rfl)⟩
      | cons extra others => cases h
    rw [if_neg hend] at h
    cases hread : readArgument d argument with
    | error fault =>
      rw [hread] at h
      cases h
    | ok step =>
      rw [hread] at h
      have hwritten := readArgument_written hread
      cases step with
      | settle request =>
        cases h
        exact absurd rfl (hwritten o)
      | proceed d' =>
        obtain ⟨item, hproper, hitem⟩ := hwritten
        have hrest := ih rest.length (by rw [← hlength]; exact Nat.lt_succ_self _) h rfl
        have hall := hrest.cons hproper
        rwa [hitem] at hall
      | await d' option =>
        cases rest with
        | nil => cases h
        | cons value others =>
          change readArguments d' (some option) (value :: others) = _ at h
          unfold readArguments at h
          cases hvalue : looksLikeOption value with
          | true =>
            rw [hvalue] at h
            cases h
          | false =>
            rw [hvalue] at h
            cases hset : d'.set option value with
            | error fault =>
              rw [hset] at h
              cases h
            | ok d'' =>
              rw [hset] at h
              obtain ⟨item, hproper, hitem⟩ := hwritten value hvalue
              have hshorter : others.length < n := by
                simp only [List.length_cons] at hlength
                omega
              have hothers := ih others.length hshorter h rfl
              have hall := hothers.cons hproper
              rwa [hitem] at hall

/-! ## §4. What has been read. -/

/-- The options of items with their values. -/
def givenOf (items : List Item) : List (Valued × String) := items.filterMap Item.given?

/-- Options that are there once, with values that they take. -/
structure Fit (given : List (Valued × String)) : Prop where
  once : (given.map (·.1)).Nodup
  checked : ∀ g ∈ given, checkValue g.1 g.2 = .ok ()

theorem fit_empty : Fit ({} : Draft).given := ⟨List.nodup_nil, nofun⟩

theorem Draft.value?_isSome (d : Draft) (option : Valued) :
    (d.value? option).isSome = true ↔ option ∈ d.given.map (·.1) := by
  rw [Draft.value?, Option.isSome_map, List.find?_isSome, List.mem_map]
  simp

theorem Draft.set_eq_ok_iff {d d' : Draft} {option : Valued} {value : String} :
    d.set option value = .ok d' ↔ option ∉ d.given.map (·.1) ∧ checkValue option value = .ok ()
      ∧ d' = { d with given := d.given ++ [(option, value)] } := by
  rw [← d.value?_isSome, Draft.set]
  by_cases hthere : (d.value? option).isSome = true
  · rw [if_pos hthere]
    simp [hthere, throw, throwThe, MonadExceptOf.throw, bind, Except.bind]
  · rw [if_neg hthere]
    cases hcheck : checkValue option value with
    | error fault => simp [bind, Except.bind]
    | ok u =>
      simp only [pure, Except.pure, bind, Except.bind, Except.ok.injEq, hthere, not_false_eq_true,
        true_and, Bool.false_eq_true]
      exact eq_comm

/-- What an item adds to what was read, if it is read. -/
theorem Item.read_eq_ok {item : Item} {d d' : Draft} (h : item.read d = .ok d') :
    d'.given = d.given ++ item.given?.toList
      ∧ ∀ g ∈ item.given?, g.1 ∉ d.given.map (·.1) ∧ checkValue g.1 g.2 = .ok () := by
  cases item with
  | flags | verbose =>
    cases h
    simp [Item.given?, Draft.raise]
  | valued option value form =>
    obtain ⟨hnew, hcheck, rfl⟩ := Draft.set_eq_ok_iff.1 h
    refine ⟨rfl, fun g hg => ?_⟩
    cases hg
    exact ⟨hnew, hcheck⟩

/-- An item is read if its option is new and takes the value. -/
theorem Item.exists_read {item : Item} {d : Draft}
    (h : ∀ g ∈ item.given?, g.1 ∉ d.given.map (·.1) ∧ checkValue g.1 g.2 = .ok ()) :
    ∃ d', item.read d = .ok d' := by
  cases item with
  | flags | verbose => exact ⟨_, rfl⟩
  | valued option value form =>
    obtain ⟨hnew, hcheck⟩ := h (option, value) rfl
    exact ⟨_, Draft.set_eq_ok_iff.2 ⟨hnew, hcheck, rfl⟩⟩

theorem givenOf_cons (item : Item) (rest : List Item) :
    givenOf (item :: rest) = item.given?.toList ++ givenOf rest := by
  unfold givenOf
  cases h : item.given? <;> simp [h]

/-- One more option is fit to stand behind others if it is new and takes its value. -/
theorem fit_append_iff {given : List (Valued × String)} {g? : Option (Valued × String)} :
    Fit (given ++ g?.toList) ↔ Fit given
      ∧ ∀ g ∈ g?, g.1 ∉ given.map (·.1) ∧ checkValue g.1 g.2 = .ok () := by
  cases g? with
  | none => simp
  | some g =>
    have honce : ((given ++ [g]).map (·.1)).Nodup
        ↔ (given.map (·.1)).Nodup ∧ g.1 ∉ given.map (·.1) := by
      rw [List.map_append, List.map_singleton, ← List.concat_eq_append, List.nodup_concat, and_comm]
    constructor
    · intro h
      obtain ⟨hbefore, hnew⟩ := honce.1 h.once
      refine ⟨⟨hbefore, fun k hk => h.checked k (List.mem_append_left _ hk)⟩, fun k hk => ?_⟩
      cases hk
      exact ⟨hnew, h.checked g (by simp)⟩
    · rintro ⟨h, hg⟩
      obtain ⟨hnew, hcheck⟩ := hg g rfl
      refine ⟨honce.2 ⟨h.once, hnew⟩, fun k hk => ?_⟩
      rcases List.mem_append.1 hk with hk | hk
      · exact h.checked k hk
      · rw [List.mem_singleton.1 hk]
        exact hcheck

/-- **What was read are the options of the items**, and they are fit. -/
theorem readItems_given {items : List Item} {d d' : Draft} (hfit : Fit d.given)
    (h : readItems d items = .ok d') : d'.given = d.given ++ givenOf items ∧ Fit d'.given := by
  induction items generalizing d with
  | nil =>
    cases h
    simpa [givenOf] using hfit
  | cons item rest ih =>
    rw [readItems, List.foldlM_cons, Edit.found_bind_eq_ok_iff] at h
    obtain ⟨middle, hitem, hrest⟩ := h
    obtain ⟨hgiven, hnew⟩ := Item.read_eq_ok hitem
    obtain ⟨hafter, hfit'⟩ := ih (hgiven ▸ fit_append_iff.2 ⟨hfit, hnew⟩) hrest
    rw [hgiven, List.append_assoc, ← givenOf_cons] at hafter
    exact ⟨hafter, hfit'⟩

/-- **Items are read if their options are fit.** -/
theorem exists_readItems {items : List Item} {d : Draft} (h : Fit (d.given ++ givenOf items)) :
    ∃ d', readItems d items = .ok d' := by
  induction items generalizing d with
  | nil => exact ⟨d, rfl⟩
  | cons item rest ih =>
    rw [givenOf_cons, ← List.append_assoc] at h
    have hfirst : Fit (d.given ++ item.given?.toList) := by
      refine ⟨?_, fun g hg => h.checked g (List.mem_append_left _ hg)⟩
      have honce := h.once
      rw [List.map_append] at honce
      exact (List.nodup_append.1 honce).1
    obtain ⟨middle, hitem⟩ := Item.exists_read (fit_append_iff.1 hfirst).2
    rw [← (Item.read_eq_ok hitem).1] at h
    obtain ⟨d', hrest⟩ := ih h
    exact ⟨d', Edit.found_bind_eq_ok_iff.2 ⟨middle, hitem, hrest⟩⟩

/-! ## §5. What is asked for. -/

/-- An option is there as often as it has values. -/
theorem count_option (items : List Item) (option : Valued) :
    ((givenOf items).map (·.1)).count option = (valuesOf items option).length := by
  rw [List.count_eq_countP, List.countP_map, List.countP_eq_length_filter, valuesOf,
    List.length_map]
  rfl

/-- The value that is found is the first one. -/
theorem value?_eq_head? {items : List Item} {d : Draft} (hgiven : d.given = givenOf items)
    (option : Valued) : d.value? option = (valuesOf items option).head? := by
  unfold Draft.value? valuesOf
  rw [hgiven, List.head?_map, List.head?_filter]
  rfl

/-- An option that is there at most once has the value that is found. -/
theorem valuesOf_eq {items : List Item} {d : Draft} (hgiven : d.given = givenOf items)
    (hfit : Fit d.given) (option : Valued) :
    valuesOf items option = (d.value? option).toList := by
  have honce : (valuesOf items option).length ≤ 1 := by
    rw [← count_option, ← hgiven]
    exact List.nodup_iff_count_le_one.1 hfit.once option
  rw [value?_eq_head? hgiven]
  match valuesOf items option, honce with
  | [], _ => rfl
  | [value], _ => rfl

/-- A placement and an order are only read if they make sense. -/
theorem checkValue_placement_iff {value : String} :
    checkValue .placement value = .ok () ↔ ∃ place, Placement.ofText value = .ok place := by
  unfold checkValue
  cases Placement.ofText value <;> simp

theorem checkValue_order_iff {value : String} :
    checkValue .order value = .ok () ↔ ∃ order, orderOfName? value = some order := by
  unfold checkValue
  cases orderOfName? value <;> simp

/-- The options that a build asks for are fit to be read. -/
theorem Asks.fit {items : List Item} {o : Options} (h : Asks items o) : Fit (givenOf items) where
  once := by
    rw [List.nodup_iff_count_le_one]
    intro option
    rw [count_option]
    cases option with
    | placement =>
      obtain ⟨text, hvalues, -⟩ := h.placement
      rw [hvalues]
      exact Nat.le_refl 1
    | preinit => exact Nat.le_of_eq (congrArg List.length h.preinit)
    | user => exact Nat.le_of_eq (congrArg List.length h.user)
    | image => exact Nat.le_of_eq (congrArg List.length h.image)
    | order =>
      obtain ⟨hvalues, -⟩ | ⟨name, hvalues, -⟩ := h.order
      · rw [hvalues]
        exact Nat.zero_le 1
      · rw [hvalues]
        exact Nat.le_refl 1
  checked := by
    rintro ⟨option, value⟩ hg
    have hvalue : value ∈ valuesOf items option :=
      List.mem_map.2 ⟨(option, value), List.mem_filter.2 ⟨hg, by simp⟩, rfl⟩
    cases option with
    | placement =>
      obtain ⟨text, hvalues, hplace⟩ := h.placement
      rw [hvalues, List.mem_singleton] at hvalue
      exact checkValue_placement_iff.2 ⟨_, hvalue ▸ hplace⟩
    | preinit | user | image => rfl
    | order =>
      obtain ⟨hvalues, -⟩ | ⟨name, hvalues, horder⟩ := h.order
      · rw [hvalues] at hvalue
        cases hvalue
      · rw [hvalues, List.mem_singleton] at hvalue
        exact checkValue_order_iff.2 ⟨_, hvalue ▸ horder⟩

theorem Draft.need_eq_ok_iff {d : Draft} {option : Valued} {value : String} :
    d.need option = .ok value ↔ d.value? option = some value := by
  unfold Draft.need
  cases d.value? option <;> simp

/-- A placement that was read before can be read again. -/
theorem mapError_ofText_eq_ok_iff {text : String} {place : Placement} :
    (Placement.ofText text).mapError
        (fun fault => UsageFault.invalidValue .placement text fault.reason) = .ok place
      ↔ Placement.ofText text = .ok place := by
  cases Placement.ofText text <;> simp [Except.mapError]

/-- The order is that of its name, which was looked at before, or the default one. -/
theorem order_eq_iff {items : List Item} {d : Draft} (hgiven : d.given = givenOf items)
    (hfit : Fit d.given) (order : ByteOrder) :
    ((d.value? .order).bind orderOfName?).getD .little = order
      ↔ (valuesOf items .order = [] ∧ order = .little)
        ∨ ∃ name, valuesOf items .order = [name] ∧ orderOfName? name = some order := by
  rw [valuesOf_eq hgiven hfit]
  cases hfound : d.value? .order with
  | none => simp [eq_comm]
  | some name =>
    have hmem : (Valued.order, name) ∈ d.given := by
      obtain ⟨g, hg, rfl⟩ := Option.map_eq_some_iff.1 hfound
      have hkey : g.1 = .order := by simpa using List.find?_some hg
      exact hkey ▸ List.mem_of_find?_eq_some hg
    obtain ⟨found, hname⟩ := checkValue_order_iff.1 (hfit.checked _ hmem)
    simp [hname]

/-- **A draft is finished exactly when all that a build needs is there.** -/
theorem finish_eq_ok_iff {items : List Item} {d : Draft} {o : Options}
    (hgiven : d.given = givenOf items) (hfit : Fit d.given) :
    d.finish = .ok o ↔ Asks items o ∧ o.verbosity = d.verbosity := by
  have hvalue : ∀ option value, valuesOf items option = [value] ↔ d.value? option = some value := by
    intro option value
    rw [valuesOf_eq hgiven hfit]
    cases d.value? option <;> simp
  unfold Draft.finish
  simp only [Edit.found_bind_eq_ok_iff, Draft.need_eq_ok_iff, mapError_ofText_eq_ok_iff, ← hvalue]
  constructor
  · rintro ⟨text, htext, place, hplace, preinit, hpreinit, user, huser, image, himage, ho⟩
    cases ho
    exact ⟨⟨⟨text, htext, hplace⟩, hpreinit, huser, himage,
      (order_eq_iff hgiven hfit _).1 rfl⟩, rfl⟩
  · rintro ⟨⟨⟨text, htext, hplace⟩, hpreinit, huser, himage, horder⟩, hverbosity⟩
    refine ⟨text, htext, _, hplace, _, hpreinit, _, huser, _, himage, ?_⟩
    rw [(order_eq_iff hgiven hfit _).2 horder, ← hverbosity]
    rfl

/-- Arguments that ask for a build are read like their items. -/
theorem readArguments_asked {items : List Item} (h : ∀ item ∈ items, item.Proper)
    {arguments : List String}
    (harguments : arguments = argumentsOf items ∨ arguments = argumentsOf items ++ ["--"]) :
    readArguments {} none arguments = (readItems {} items >>= Draft.finish).map .build := by
  have hread : ∃ rest, arguments = argumentsOf items ++ rest ∧ (rest = [] ∨ rest = ["--"]) := by
    rcases harguments with harguments | harguments
    · exact ⟨[], by rw [harguments, List.append_nil], .inl rfl⟩
    · exact ⟨["--"], harguments, .inr rfl⟩
  obtain ⟨rest, rfl, hrest⟩ := hread
  rw [readArguments_items h]
  cases readItems {} items with
  | error fault => rfl
  | ok d => rcases hrest with rfl | rfl <;> rfl

theorem parse_eq_ok_iff {arguments : List String} {o : Options} :
    parse arguments = .ok o ↔ readArguments {} none arguments = .ok (.build o) := by
  unfold parse
  split
  case h_1 heq => simp [heq]
  case h_2 heq => simp [heq]
  case h_3 heq => simp [heq]
  case h_4 heq => simp [heq]

/-- **The arguments are read as they are documented.** -/
theorem parse_documented : Reader.Documented parse where
  asked := by
    intro arguments o h
    rw [parse_eq_ok_iff] at h
    obtain ⟨items, hproper, harguments⟩ := readArguments_written h
    rw [readArguments_asked hproper harguments] at h
    cases hread : readItems {} items >>= Draft.finish with
    | error fault =>
      rw [hread] at h
      cases h
    | ok o' =>
      rw [hread] at h
      cases h
      obtain ⟨d, hitems, hfinish⟩ := Edit.found_bind_eq_ok_iff.1 hread
      obtain ⟨hgiven, hfit⟩ := readItems_given fit_empty hitems
      exact ⟨items, hproper, harguments, ((finish_eq_ok_iff hgiven hfit).1 hfinish).1⟩
  accepted := by
    rintro arguments o ⟨items, hproper, harguments, h⟩
    obtain ⟨d, hitems⟩ : ∃ d, readItems {} items = .ok d := exists_readItems h.fit
    obtain ⟨hgiven, hfit⟩ := readItems_given fit_empty hitems
    have hasks : Asks items { o with verbosity := d.verbosity } :=
      ⟨h.placement, h.preinit, h.user, h.image, h.order⟩
    have hfinish := (finish_eq_ok_iff hgiven hfit).2 ⟨hasks, rfl⟩
    refine ⟨d.verbosity, ?_⟩
    rw [parse_eq_ok_iff, readArguments_asked hproper harguments, hitems]
    show Except.map _ d.finish = _
    rw [hfinish]
    rfl

end SystemPage.CommandLine
