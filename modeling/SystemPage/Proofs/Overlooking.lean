/-
  SystemPage.Proofs.Overlooking — changes that edits overlook.

  An edit overlooks a change of its state if after the change it comes to what it comes to anyway,
  and leaves what it leaves anyway with the change made to it.  So an edit and one that makes
  changes it overlooks can be put in either order, also where one of them fails half-way.

  The console, the payloads and the page are three parts of a session.  Adding a record to the page
  overlooks what changes beside it, with one exception: a program looks at its payload.

  Main results:

      Overlooks.bind   — edits that overlook a change can be put in sequence
      Overlooks.commute
                       — an edit can be exchanged with one that makes changes it overlooks
      insertMap_overlooks, insertProgram_overlooks
                       — adding a record overlooks what changes beside the page
-/
import SystemPage.Program
import SystemPage.Proofs.Store

namespace SystemPage

/-! ## §1. Changes that edits overlook. -/

namespace Edit

variable {σ α β γ δ : Type}

/-- What an edit comes to, with a change made to the state that it leaves. -/
def changed (change : σ → σ) : EStateM.Result Fault σ α → EStateM.Result Fault σ α
  | .ok a after => .ok a (change after)
  | .error fault after => .error fault (change after)

/-- An edit that neither sees a change of its state nor undoes it. -/
def Overlooks (edit : Edit σ α) (change : σ → σ) : Prop :=
  ∀ s, edit (change s) = changed change (edit s)

/-- Looks something up and makes a change by what was found. -/
def settle (find : σ → Except Fault β) (change : β → σ → σ) : Edit σ Unit := do
  let b ← look find
  modify (change b)

namespace Overlooks

variable {change : σ → σ}

theorem pure (a : α) : (Pure.pure a : Edit σ α).Overlooks change := fun _ => rfl

theorem look {find : σ → Except Fault α} (h : ∀ s, find (change s) = find s) :
    (Edit.look find).Overlooks change := by
  intro s
  unfold Edit.look
  rw [h]
  cases find s <;> rfl

theorem modify {f : σ → σ} (h : ∀ s, f (change s) = change (f s)) :
    (modify f : Edit σ PUnit).Overlooks change := by
  intro s
  show EStateM.Result.ok _ (f (change s)) = _
  rw [h]
  rfl

/-- **Edits that overlook a change can be put in sequence.** -/
theorem bind {edit : Edit σ α} {rest : α → Edit σ β} (h : edit.Overlooks change)
    (hrest : ∀ a, (rest a).Overlooks change) : (edit >>= rest).Overlooks change := by
  intro s
  have hchanged := h s
  cases hs : edit s with
  | ok a after =>
    rw [hs] at hchanged
    rw [bind_of_ok hs, bind_of_ok hchanged]
    exact hrest a after
  | error fault after =>
    rw [hs] at hchanged
    rw [bind_of_error hs, bind_of_error hchanged]
    rfl

/-- An edit comes to the same after a change that it overlooks. -/
theorem outcome_eq {edit : Edit σ α} (h : edit.Overlooks change) (s : σ) :
    outcome edit (change s) = ((outcome edit s).1, change (outcome edit s).2) := by
  rw [outcome, h s, outcome]
  cases edit s <;> rfl

theorem settle {find : σ → Except Fault β} {set : β → σ → σ}
    (hfind : ∀ s, find (change s) = find s) (hset : ∀ b s, set b (change s) = change (set b s)) :
    (Edit.settle find set).Overlooks change :=
  (look hfind).bind fun b => modify (hset b)

end Overlooks

/-! ## §2. Edits that can be exchanged. -/

theorem outcome_settle (find : σ → Except Fault β) (change : β → σ → σ) (s : σ) :
    outcome (settle find change) s = match find s with
      | .ok b => (.ok (), change b s)
      | .error fault => (.error fault, s) := by
  unfold settle outcome
  cases hs : find s with
  | ok b =>
    rw [bind_of_ok (look_of_ok hs)]
    rfl
  | error fault => rw [bind_of_error (look_of_error hs)]

theorem outcome_map (f : α → γ) (edit : Edit σ α) (s : σ) :
    outcome (f <$> edit) s = ((outcome edit s).1.map f, (outcome edit s).2) := by
  show outcome (EStateM.map f edit) s = _
  unfold outcome EStateM.map
  cases edit s <;> rfl

/-- Two edits that can be performed in either order: behind the other one, each of them comes to
what it comes to in front of it, and the states at the end are the same in some sense. -/
structure Commute (same : σ → σ → Prop) (s : σ) (edit : Edit σ α) (other : Edit σ β) : Prop where
  first : (outcome edit (outcome other s).2).1 = (outcome edit s).1
  second : (outcome other (outcome edit s).2).1 = (outcome other s).1
  last : same (outcome other (outcome edit s).2).2 (outcome edit (outcome other s).2).2

namespace Commute

variable {same finer : σ → σ → Prop} {s : σ} {edit : Edit σ α} {other : Edit σ β}

theorem symm (h : Commute same s edit other) (hsame : ∀ a b, same a b → same b a) :
    Commute same s other edit := ⟨h.second, h.first, hsame _ _ h.last⟩

/-- States that are the same in a finer sense are the same. -/
theorem coarsen (h : Commute finer s edit other)
    (hsame : ∀ t, finer (outcome other (outcome edit s).2).2 t →
      same (outcome other (outcome edit s).2).2 t) : Commute same s edit other :=
  ⟨h.first, h.second, hsame _ h.last⟩

/-- What the edits answer may be put in other words. -/
theorem map (h : Commute same s edit other) (f : α → γ) (g : β → δ) :
    Commute same s (f <$> edit) (g <$> other) := by
  refine ⟨?_, ?_, ?_⟩
  · simp only [outcome_map, h.first]
  · simp only [outcome_map, h.second]
  · simp only [outcome_map]
    exact h.last

/-- What stops before it looks at the state can be exchanged with anything. -/
theorem of_error {fault : Fault} (h : ∀ t, edit t = .error fault t) (hsame : ∀ t, same t t) :
    Commute same s edit other := by
  have houtcome : ∀ t, outcome edit t = (.error fault, t) := fun t => by rw [outcome, h]
  refine ⟨?_, ?_, ?_⟩
  all_goals simp only [houtcome]
  exact hsame _

end Commute

/-- **An edit can be exchanged with one that makes changes it overlooks**, if what the other one
looks up is the same after it. -/
theorem Overlooks.commute {edit : Edit σ α} {find : σ → Except Fault β} {change : β → σ → σ} {s : σ}
    (h : ∀ b, edit.Overlooks (change b)) (hfind : find (outcome edit s).2 = find s) :
    Commute Eq s edit (Edit.settle find change) := by
  cases hs : find s with
  | ok b =>
    have hafter := hfind.trans hs
    refine ⟨?_, ?_, ?_⟩
    all_goals simp only [outcome_settle, hs, hafter, (h b).outcome_eq s]
  | error fault =>
    have hafter := hfind.trans hs
    refine ⟨?_, ?_, ?_⟩
    all_goals simp only [outcome_settle, hs, hafter]

/-- Edits that look something up can be exchanged if neither changes what the other one finds. -/
theorem settle_commute {same : σ → σ → Prop} {find : σ → Except Fault α} {change : α → σ → σ}
    {find' : σ → Except Fault β} {change' : β → σ → σ} {s : σ}
    (hfind : ∀ b, find (change' b s) = find s) (hfind' : ∀ a, find' (change a s) = find' s)
    (hsame : ∀ t, same t t)
    (hchange : ∀ a b, same (change' b (change a s)) (change a (change' b s))) :
    Commute same s (settle find change) (settle find' change') := by
  -- each of them finds what it finds, whether the other one has made its change or was refused
  cases hs : find s with
  | ok a =>
    cases hs' : find' s with
    | ok b =>
      refine ⟨?_, ?_, ?_⟩
      all_goals simp only [outcome_settle, hfind, hfind', hs, hs']
      exact hchange a b
    | error fault =>
      refine ⟨?_, ?_, ?_⟩
      all_goals simp only [outcome_settle, hfind', hs, hs']
      exact hsame _
  | error fault =>
    cases hs' : find' s
    all_goals
      refine ⟨?_, ?_, ?_⟩
      all_goals simp only [outcome_settle, hfind, hs, hs']
      exact hsame _

end Edit

/-! ## §3. Changes beside the page. -/

namespace Session

/-- A change of a session that has nothing to do with its page and the rings of records there. -/
structure Beside (change : Session → Session) : Prop where
  memory : ∀ s, (change s).memory = s.memory
  mapHead : ∀ s, (change s).mapHead = s.mapHead
  programHead : ∀ s, (change s).programHead = s.programHead
  setMemory : ∀ s m, change { s with memory := m } = { change s with memory := m }
  setMapHead : ∀ s head, change { s with mapHead := head } = { change s with mapHead := head }
  setProgramHead : ∀ s head,
    change { s with programHead := head } = { change s with programHead := head }

/-- A session that knows one more payload. -/
def withPayload (name : String) (place size : UInt32) (s : Session) : Session :=
  { s with
    imageSize := max s.imageSize (place + size)
    aliases := ⟨name, place + s.load, size⟩ :: s.aliases }

def withConsole (number : UInt32) (s : Session) : Session := { s with console := number }

def withAliases (aliases : List Alias) (s : Session) : Session := { s with aliases := aliases }

theorem beside_payload (name : String) (place size : UInt32) :
    Beside (withPayload name place size) :=
  ⟨fun _ => rfl, fun _ => rfl, fun _ => rfl, fun _ _ => rfl, fun _ _ => rfl, fun _ _ => rfl⟩

theorem beside_console (number : UInt32) : Beside (withConsole number) :=
  ⟨fun _ => rfl, fun _ => rfl, fun _ => rfl, fun _ _ => rfl, fun _ _ => rfl, fun _ _ => rfl⟩

theorem beside_aliases (aliases : List Alias) : Beside (withAliases aliases) :=
  ⟨fun _ => rfl, fun _ => rfl, fun _ => rfl, fun _ _ => rfl, fun _ _ => rfl, fun _ _ => rfl⟩

/-- What a payload has to be like, as far as the session decides it. -/
def admitPayload (name : String) (place size : UInt32) (s : Session) : Except Fault Unit :=
  if aliasNameLimit < (Text.Utf8.bytes name).length then
    .error (.aliasNameTooLong name aliasNameLimit)
  else if addressSpace ≤ place.toNat + s.load.toNat + size.toNat then
    .error (.aliasOutside name place size)
  else .ok ()

theorem insertAlias_eq_settle (name : String) (place size : UInt32) :
    insertAlias name place size
      = Edit.settle (admitPayload name place size) fun _ => withPayload name place size := by
  funext s
  rw [insertAlias_eq, Edit.settle]
  by_cases hname : aliasNameLimit < (Text.Utf8.bytes name).length
  · have hadmit : admitPayload name place size s = .error (.aliasNameTooLong name aliasNameLimit) :=
      if_pos hname
    rw [if_pos hname, Edit.bind_of_error (Edit.look_of_error hadmit)]
  by_cases hplace : addressSpace ≤ place.toNat + s.load.toNat + size.toNat
  · have hadmit : admitPayload name place size s = .error (.aliasOutside name place size) :=
      (if_neg hname).trans (if_pos hplace)
    rw [if_neg hname, if_pos hplace, Edit.bind_of_error (Edit.look_of_error hadmit)]
  · have hadmit : admitPayload name place size s = .ok () :=
      (if_neg hname).trans (if_neg hplace)
    rw [if_neg hname, if_neg hplace, Edit.bind_of_ok (Edit.look_of_ok hadmit)]
    rfl

theorem selectConsole_eq_settle (token : String) :
    selectConsole token = Edit.settle (fun _ => consoleNumber token) withConsole := rfl

namespace Beside

variable {change : Session → Session}

/-- What is read back of the page is the same after the change. -/
theorem freshMapId_eq (h : Beside change) (s : Session) (name : String) (start stop : UInt32) :
    (change s).freshMapId name start stop = s.freshMapId name start stop := by
  unfold freshMapId maps
  rw [h.memory, h.mapHead]

theorem mapIds_eq (h : Beside change) (s : Session) (names : String) :
    (change s).mapIds names = s.mapIds names := by
  unfold mapIds mapId
  rw [h.memory, h.mapHead]

theorem onMemory {α : Type} (h : Beside change) (edit : Edit Memory α) :
    (onMemory edit).Overlooks change := by
  intro s
  unfold Session.onMemory
  rw [h.memory]
  cases edit s.memory with
  | ok a memory => exact congrArg _ (h.setMemory s memory).symm
  | error fault memory => exact congrArg _ (h.setMemory s memory).symm

/-- The last steps of adding a record: it joins its ring, and the head of the ring is set. -/
theorem join {α : Type} (h : Beside change) (part : Session → UInt32)
    (set : UInt32 → Session → Session) (hpart : ∀ s, part (change s) = part s)
    (hset : ∀ head s, set head (change s) = change (set head s)) (address : UInt32) (answer : α) :
    Edit.Overlooks (do
      let head ← Session.onMemory (Ring.append (part (← get)) address)
      modify (set head)
      return answer) change := by
  have hlook : (Edit.look fun s => .ok (part s)).Overlooks change :=
    .look fun s => congrArg Except.ok (hpart s)
  have hall := hlook.bind fun head => (h.onMemory (Ring.append head address)).bind fun head =>
    (Edit.Overlooks.modify (hset head)).bind fun _ => .pure answer
  exact hall

end Beside

/-- **Adding a map overlooks what changes beside the page.** -/
theorem insertMap_overlooks {change : Session → Session} (h : Beside change) (name : String)
    (start stop access : UInt32) : (insertMap name start stop access).Overlooks change := by
  unfold insertMap
  refine Edit.Overlooks.bind (.look fun s => h.freshMapId_eq s name start stop) fun id => ?_
  refine (h.onMemory _).bind fun address => ?_
  exact h.join Session.mapHead (fun head s => { s with mapHead := head }) h.mapHead
    (fun head s => (h.setMapHead s head).symm) address _

/-- **Adding a program overlooks what changes beside the page**, as long as its payload is the
same. -/
theorem insertProgram_overlooks {change : Session → Session} (h : Beside change)
    {payload : String} (hpayload : ∀ s, (change s).alias? payload = s.alias? payload)
    (instructionMaps dataMaps argv : String) (atOnce : Bool) :
    (insertProgram payload instructionMaps dataMaps argv atOnce).Overlooks change := by
  have hplan : ∀ s, (change s).planProgram payload instructionMaps dataMaps argv atOnce
      = s.planProgram payload instructionMaps dataMaps argv atOnce := by
    intro s
    unfold planProgram
    rw [hpayload, h.mapIds_eq, h.mapIds_eq]
  unfold insertProgram
  refine Edit.Overlooks.bind (.look hplan) fun plan => ?_
  refine (h.onMemory _).bind fun address => ?_
  exact h.join Session.programHead (fun head s => { s with programHead := head }) h.programHead
    (fun head s => (h.setProgramHead s head).symm) address _

/-- Completing a page has no use for the payloads. -/
theorem complete_overlooks (aliases : List Alias) :
    complete.Overlooks (withAliases aliases) := by
  have hlook : (Edit.look fun s : Session => .ok (s.memory.base, s.header.words)).Overlooks
      (withAliases aliases) := .look fun _ => rfl
  have hbytes : (Edit.look fun s : Session => .ok s.memory.bytes).Overlooks
      (withAliases aliases) := .look fun _ => rfl
  have hall := hlook.bind fun found =>
    ((beside_aliases aliases).onMemory (Memory.writeWords found.1 found.2)).bind fun _ => hbytes
  exact hall

end Session
end SystemPage
