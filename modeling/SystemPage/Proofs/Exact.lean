/-
  SystemPage.Proofs.Exact — edits of a page pass their checks.

  A call in which a check fails would have no result.  So a call that has the result of the call
  without checks has passed all of them: every sum in it is a word or a byte, no number lost a bit
  where it became a word, and every slice lay in the room of the page.  On a page of which all room
  has addresses this is so for whatever is read from it and written to it; where a record is walked
  to or added, its links have to lie in the page as well.

  Main results:

      Follows.bind     — calls that pass their checks can be put in sequence
      writeFields_eq   — words written into fields one by one are words written at once
      append_follows   — a record joins a ring without a sum that wraps around
      visit_eq         — a visit passes its checks if what is done at each record does
      loadMap_eq, loadProgram_eq, putMap_follows, putProgram_follows
                       — records are read and put into a page without one
-/
import SystemPage.Proofs.Commands
import SystemPage.Proofs.Guarded

namespace SystemPage

open Memory SystemPage.Ring

namespace Guarded

variable {σ α β : Type}

/-! ## §1. Calls that pass their checks. -/

/-- What a call without checks finds, as a call that passes them. -/
def plain (result : Except Fault α) : Look α := ExceptT.mk (some result)

theorem plain_bind {look : Look α} {result : Except Fault α} {rest : α → Look β}
    {rest' : α → Except Fault β} (h : look = plain result)
    (hrest : ∀ a, result = .ok a → rest a = plain (rest' a)) :
    (look >>= rest) = plain (result >>= rest') := by
  subst h
  cases result with
  | ok a => exact hrest a rfl
  | error fault => rfl

/-- A sum that is a word is found. -/
theorem sum_eq {a b : UInt32} (h : a.toNat + b.toNat < UInt32.size) : sum a b = pure (a + b) :=
  if_pos h

/-- Any other has no result. -/
example : (sum 0xffffff00 0x100).run = none := rfl

theorem word_eq {n : Nat} (h : n < UInt32.size) : word n = pure (UInt32.ofNat n) := if_pos h

/-- A call that changes a state passes its checks, and does the same as a call without them. -/
def Follows (change : Change σ α) (edit : Edit σ α) (s : σ) : Prop :=
  change.run.run s = some (Edit.outcome edit s)

/-- After a call that passed its checks and finished the next one starts where it stopped. -/
theorem run_bind {change : Change σ α} {rest : α → Change σ β} {s after : σ} {a : α}
    (h : change.run.run s = some (.ok a, after)) :
    (change >>= rest).run.run s = (rest a).run.run after := by
  rw [ExceptT.run_bind, StateT.run_bind, h]
  rfl

namespace Follows

/-- **Calls that pass their checks can be put in sequence.** -/
theorem bind {change : Change σ α} {edit : Edit σ α} {rest : α → Change σ β}
    {rest' : α → Edit σ β} {s : σ} (h : Follows change edit s)
    (hrest : ∀ a after, edit s = .ok a after → Follows (rest a) (rest' a) after) :
    Follows (change >>= rest) (edit >>= rest') s := by
  unfold Follows at *
  rw [ExceptT.run_bind, StateT.run_bind, h]
  cases hs : edit s with
  | ok a after =>
    have houtcome : Edit.outcome edit s = (.ok a, after) := by rw [Edit.outcome, hs]
    have hbind : Edit.outcome (edit >>= rest') s = Edit.outcome (rest' a) after := by
      unfold Edit.outcome
      rw [Edit.bind_of_ok hs]
    rw [houtcome, hbind]
    exact hrest a after hs
  | error fault after =>
    have houtcome : Edit.outcome edit s = (.error fault, after) := by rw [Edit.outcome, hs]
    have hbind : Edit.outcome (edit >>= rest') s = (.error fault, after) := by
      unfold Edit.outcome
      rw [Edit.bind_of_error hs]
    rw [houtcome, hbind]
    rfl

theorem pure (a : α) (s : σ) : Follows (Pure.pure a) (Pure.pure a) s := rfl

theorem get (s : σ) : Follows (MonadState.get : Change σ σ) MonadState.get s := rfl

theorem modify (f : σ → σ) (s : σ) :
    Follows (modifyGet fun s => (PUnit.unit, f s) : Change σ PUnit)
      (modifyGet fun s => (PUnit.unit, f s)) s := rfl

theorem look {find : σ → Look α} {find' : σ → Except Fault α} {s : σ}
    (h : find s = plain (find' s)) : Follows (Guarded.look find) (Edit.look find') s := by
  show (find s).run.map _ = _
  rw [h]
  unfold Edit.outcome Edit.look
  cases find' s <;> rfl

/-- What is looked up first decides whether anything is changed. -/
theorem of_look {find : σ → Look α} {result : Except Fault α} {rest : α → Change σ β}
    {edit : Edit σ β} {s : σ} (h : find s = plain result)
    (hok : ∀ a, result = .ok a → Follows (rest a) edit s)
    (herror : ∀ fault, result = .error fault → edit s = .error fault s) :
    Follows (Guarded.look find >>= rest) edit s := by
  have hlook : (Guarded.look find).run.run s = some (result, s) := by
    show (find s).run.map _ = _
    rw [h]
    rfl
  unfold Follows at *
  rw [ExceptT.run_bind, StateT.run_bind, hlook]
  cases result with
  | ok a => exact hok a rfl
  | error fault =>
    rw [Edit.outcome, herror fault rfl]
    rfl

/-- A check that is passed. -/
theorem check {l : Look α} {a : α} {rest : α → Change σ β} {edit : Edit σ β} {s : σ}
    (h : l = Pure.pure a) (hrest : Follows (rest a) edit s) :
    Follows (Guarded.look (fun _ => l) >>= rest) edit s := by
  subst h
  exact hrest

theorem onMemory {change : Change Memory α} {edit : Edit Memory α} {s : Session}
    (h : Follows change edit s.memory) :
    Follows (Guarded.onMemory change) (Session.onMemory edit) s := by
  show (change.run.run s.memory).map _ = _
  rw [h]
  unfold Edit.outcome Session.onMemory
  cases edit s.memory <;> rfl

end Follows

/-! ## §2. Reading pages. -/

section

variable {m : Memory}

theorem slice_eq {start stop : Nat} (h : start ≤ stop) (hin : stop ≤ m.capacity) :
    slice m start stop = pure (m.cells.slice start (stop - start)) :=
  if_pos ⟨h, hin⟩

theorem bytes_eq (hm : m.Proper) : bytes m = pure m.bytes :=
  slice_eq (Nat.zero_le _) hm.bounded

theorem read_eq (hm : m.Proper) (address : UInt32) (length : Nat) :
    read m address length = plain (m.read address length) := by
  refine plain_bind rfl fun start hstart => ?_
  have hin := (offset_eq_ok_iff.1 hstart).2
  have hb := hm.bounded
  rw [slice_eq (by omega) (by omega), Nat.add_sub_cancel_left]
  rfl

theorem readWord_eq (hm : m.Proper) (address : UInt32) :
    readWord m address = plain (m.readWord address) :=
  plain_bind (read_eq hm address _) fun _ _ => rfl

theorem readText_eq (hm : m.Proper) (address : UInt32) :
    readText m address = plain (m.readText address) := by
  have hb := hm.bounded
  cases hstart : m.offset address 0 with
  | error fault =>
    simp only [readText, Memory.readText, Memory.readBytes, hstart, bind, Except.bind]
    rfl
  | ok start =>
    have hin := (offset_eq_ok_iff.1 hstart).2
    have hslice := slice_eq (m := m) (show start ≤ m.size by omega) hb
    cases hstop : m.cells.firstZero? m.size start with
    | none =>
      have hplain : m.readText address = .error (.unterminated address) := by
        simp only [Memory.readText, Memory.readBytes, hstart, bind, Except.bind, hstop]
        rfl
      rw [hplain]
      unfold readText
      rw [hstart]
      show (slice m start m.size >>= _) = _
      rw [hslice]
      simp only [hstop]
      rfl
    | some stop =>
      obtain ⟨hle, hlt, -⟩ := Cells.firstZero?_eq_some_iff.1 hstop
      have hplain : m.readText address
          = .ok (Text.Utf8.text (m.cells.slice start (stop - start))) := by
        simp only [Memory.readText, Memory.readBytes, hstart, bind, Except.bind, hstop]
        rfl
      rw [hplain]
      unfold readText
      rw [hstart]
      show (slice m start m.size >>= _) = _
      rw [hslice]
      simp only [hstop, slice_eq hle (show stop ≤ m.capacity by omega)]
      rfl

/-- The address of a field that lies in the page. -/
theorem field_eq (hm : m.Proper) (place distance : Nat) (h : place + distance < m.size) :
    sum (m.address place) (UInt32.ofNat distance)
      = pure (m.address place + UInt32.ofNat distance) := by
  have hb := hm.bounded
  have ha : m.base.toNat + m.capacity ≤ 2 ^ 32 := hm.addressed
  apply sum_eq
  rw [toNat_address (hm.address_lt (by omega)), UInt32.toNat_ofNat']
  show _ < 2 ^ 32
  omega

theorem readField_eq (hm : m.Proper) (place distance : Nat) (h : place + distance < m.size) :
    readField m (m.address place) (UInt32.ofNat distance)
      = plain (m.readWord (m.address place + UInt32.ofNat distance)) := by
  unfold readField
  rw [field_eq hm place distance h]
  exact readWord_eq hm _

/-- The links of a record that can be in a ring lie in the page. -/
theorem previousField_eq {places : List Nat} {place : Nat} (hm : m.Proper) (hs : Spaced m places)
    (hplace : place ∈ places) :
    sum (m.address place) previousField = pure (m.address place + previousField) := by
  have hin : place + 8 ≤ m.size := hs.inside place hplace
  exact field_eq hm place 4 (by omega)

theorem previous_eq {places : List Nat} {place : Nat} (hm : m.Proper) (hs : Spaced m places)
    (hplace : place ∈ places) :
    previous m (m.address place) = plain (Ring.previous m (m.address place)) := by
  have hin : place + 8 ≤ m.size := hs.inside place hplace
  exact readField_eq hm place 4 (by omega)

end

/-! ## §3. Writing pages. -/

section

variable {m : Memory}

theorem write_follows (hm : m.Proper) (address : UInt32) (new : List UInt8) :
    Follows (write address new) (Memory.write address new) m := by
  have hb := hm.bounded
  have hlook : (do
      let start ← m.offset address new.length
      let _ ← slice m start (start + new.length)
      return start : Look Nat) = plain (m.offset address new.length) := by
    cases hstart : m.offset address new.length with
    | error fault => rfl
    | ok start =>
      have hin := (offset_eq_ok_iff.1 hstart).2
      show (slice m start (start + new.length) >>= _) = _
      rw [slice_eq (by omega) (by omega)]
      rfl
  refine Follows.of_look hlook (fun start hstart => ?_) fun fault hfault => ?_
  · unfold Follows Edit.outcome Memory.write
    rw [hstart]
    rfl
  · unfold Memory.write
    rw [hfault]

theorem write_run (hm : m.Proper) {address : UInt32} {place : Nat} {new : List UInt8}
    (haddress : address = m.address place) (ha : m.base.toNat + place < addressSpace)
    (hin : place + new.length ≤ m.size) :
    (write address new).run.run m = some (.ok (), m.overwrite place new) := by
  subst haddress
  rw [write_follows hm, Edit.outcome, write_eq ha hin]

theorem writeWord_follows (hm : m.Proper) (address word : UInt32) :
    Follows (writeWord address word) (Memory.writeWord address word) m := by
  have hwrite := write_follows hm address (m.order.encode word)
  have houtcome : Edit.outcome (Memory.writeWord address word) m
      = Edit.outcome (Memory.write address (m.order.encode word)) m := by
    unfold Edit.outcome Memory.writeWord Memory.writeWords
    rw [List.flatMap_singleton]
  unfold Follows at *
  rw [houtcome]
  exact hwrite

end

/-- Words for the fields of a record from one field on. -/
def fields : Nat → List UInt32 → List (UInt32 × UInt32)
  | _, [] => []
  | distance, word :: rest => (UInt32.ofNat distance, word) :: fields (distance + 4) rest

/-- Words that are written each into its own field are words written one after the other. -/
theorem writeFields_eq {m : Memory} (hm : m.Proper) (place distance : Nat) (words : List UInt32)
    (hin : place + distance + 4 * words.length ≤ m.size) :
    (writeFields (m.address place) (fields distance words)).run.run m
      = some (.ok (), m.overwriteWords (place + distance) words) := by
  induction words generalizing m distance with
  | nil => rfl
  | cons word rest ih =>
    rw [List.length_cons] at hin
    have hfield := field_eq hm place distance (by omega)
    have hwrite := writeWord_follows hm (m.address place + UInt32.ofNat distance) word
    have hplain := writeWords_eq hm (place + distance) [word] (by simp)
      (show _ + 4 * 1 ≤ _ by omega)
    have hrest := ih (hm.overwriteWords (place + distance) [word]) (distance + 4)
      (show _ ≤ m.size by omega)
    rw [← address_add] at hplain
    have houtcome : Edit.outcome (Memory.writeWord (m.address place + UInt32.ofNat distance) word) m
        = (.ok (), m.overwriteWords (place + distance) [word]) := by
      rw [Edit.outcome, Memory.writeWord, hplain]
    unfold Follows at hwrite
    rw [houtcome] at hwrite
    unfold fields writeFields
    rw [hfield]
    show (writeWord _ word >>= fun _ => writeFields _ _).run.run m = _
    rw [run_bind hwrite, overwriteWords_cons m _ word rest, Nat.add_assoc]
    exact hrest

theorem writeFields_follows {m : Memory} (hm : m.Proper) {address : UInt32} (place distance : Nat)
    (words : List UInt32) (haddress : address = m.address place) (hne : 0 < words.length)
    (hin : place + distance + 4 * words.length ≤ m.size) :
    Follows (writeFields address (fields distance words))
      (Memory.writeWords (address + UInt32.ofNat distance) words) m := by
  subst haddress
  unfold Follows Edit.outcome
  rw [writeFields_eq hm place distance words hin, address_add, writeWords_eq hm _ words hne hin]

section

variable {m : Memory}

theorem reserve_follows (hm : m.Proper) (size : Nat) :
    Follows (reserve size) (Memory.reserve size) m := by
  have ha : m.base.toNat + m.capacity ≤ 2 ^ 32 := hm.addressed
  by_cases hfit : m.size + roundUp size < m.capacity
  · have hlook : (if m.sizeWith size < m.capacity then do sum m.base (← word (roundUp m.size))
        else throw (.noRoom size m.size m.capacity) : Look UInt32)
        = plain (.ok (m.address m.size)) := by
      have hsize : (UInt32.ofNat m.size).toNat = m.size := by
        rw [UInt32.toNat_ofNat']
        omega
      rw [if_pos (by rw [hm.sizeWith_eq]; exact hfit), hm.roundUp_size,
        word_eq (show _ < 2 ^ 32 by omega)]
      exact sum_eq (show _ < 2 ^ 32 by rw [hsize]; omega)
    refine Follows.of_look hlook (fun a ha => ?_) fun fault hfault => by cases hfault
    cases ha
    unfold Follows Edit.outcome
    rw [reserve_eq hm hfit]
    rfl
  · have hlook : (if m.sizeWith size < m.capacity then do sum m.base (← word (roundUp m.size))
        else throw (.noRoom size m.size m.capacity) : Look UInt32)
        = plain (.error (.noRoom size m.size m.capacity)) :=
      if_neg (by rw [hm.sizeWith_eq]; exact hfit)
    refine Follows.of_look hlook (fun a ha => by cases ha) fun fault hfault => ?_
    cases hfault
    exact reserve_of_le hm (Nat.le_of_not_lt hfit)

theorem store_follows (hm : m.Proper) (bytes : List UInt8) :
    Follows (store bytes) (Memory.store bytes) m := by
  refine (reserve_follows hm bytes.length).bind fun address after h => ?_
  obtain ⟨-, rfl, hfit⟩ := reserve_ok hm h
  exact (write_follows (hm.grow hfit) address bytes).bind fun _ last _ => .pure address last

/-- A text that is written in two steps is the text with the byte that ends it. -/
theorem storeText_follows (hm : m.Proper) (text : List UInt8) :
    Follows (storeText text) (Memory.store (text ++ [0])) m := by
  have ha : m.base.toNat + m.capacity ≤ 2 ^ 32 := hm.addressed
  have hle := le_roundUp (text.length + 1)
  unfold storeText Memory.store
  rw [List.length_append, List.length_singleton]
  refine (reserve_follows hm (text.length + 1)).bind fun address after h => ?_
  obtain ⟨rfl, rfl, hfit⟩ := reserve_ok hm h
  have hgrown := hm.grow hfit
  have hsize : (m.grow (text.length + 1)).size = m.size + roundUp (text.length + 1) :=
    hm.sizeWith_eq _
  have hplace : (m.grow (text.length + 1)).base.toNat + m.size < addressSpace :=
    hm.address_lt (by omega)
  -- the two steps, one behind the other
  have htext : (write (m.address m.size) text).run.run (m.grow (text.length + 1))
      = some (.ok (), (m.grow (text.length + 1)).overwrite m.size text) :=
    write_run hgrown rfl hplace (by omega)
  have hword : word text.length = pure (UInt32.ofNat text.length) :=
    word_eq (show _ < 2 ^ 32 by omega)
  have hsum : sum (m.address m.size) (UInt32.ofNat text.length)
      = pure (m.address m.size + UInt32.ofNat text.length) :=
    field_eq hgrown m.size text.length (by omega)
  have hend : (write (m.address m.size + UInt32.ofNat text.length) [0]).run.run
      ((m.grow (text.length + 1)).overwrite m.size text)
      = some (.ok (), ((m.grow (text.length + 1)).overwrite m.size text).overwrite
        (m.size + text.length) [0]) := by
    rw [address_add]
    refine write_run (hgrown.overwrite m.size text) rfl (hm.address_lt (by omega)) ?_
    show _ + 1 ≤ (m.grow (text.length + 1)).size
    omega
  have hplain : Memory.write (m.address m.size) (text ++ [0]) (m.grow (text.length + 1))
      = .ok () ((m.grow (text.length + 1)).overwrite m.size (text ++ [0])) :=
    write_eq hplace (by rw [hsize, List.length_append, List.length_singleton]; omega)
  unfold Follows Edit.outcome
  rw [Edit.bind_of_ok hplain, run_bind htext, hword]
  show ((look fun _ => sum _ _) >>= fun target => write target [0] >>= fun _ => _).run.run _ = _
  rw [hsum]
  show (write _ [0] >>= fun _ => _).run.run _ = _
  rw [run_bind hend]
  unfold Memory.overwrite
  rw [Cells.overwrite_append]
  rfl

theorem setNext_follows (hm : m.Proper) (node target : UInt32) :
    Follows (setNext node target) (Ring.setNext node target) m :=
  writeWord_follows hm node target

theorem setPrevious_follows (hm : m.Proper) {node : UInt32} (target : UInt32)
    (h : sum node previousField = pure (node + previousField)) :
    Follows (setPrevious node target) (Ring.setPrevious node target) m :=
  Follows.check h (writeWord_follows hm _ target)

/-- **A record joins a ring without a sum that wraps around.** -/
theorem append_follows {ring : List Nat} {place : Nat} (hm : m.Proper)
    (hs : Spaced m (ring ++ [place])) :
    Follows (append (headOf m ring) (m.address place))
      (Ring.append (headOf m ring) (m.address place)) m := by
  have hplace := previousField_eq hm hs (show place ∈ ring ++ [place] by simp)
  cases ring with
  | nil =>
    show Follows (append 0 (m.address place)) (Ring.append 0 (m.address place)) m
    unfold append Ring.append
    rw [if_pos rfl, if_pos rfl]
    refine (setNext_follows hm _ _).bind fun _ m1 h1 => ?_
    have hm1 := (writeWords_kept hm h1).1
    exact (setPrevious_follows hm1 _ hplace).bind fun _ m2 _ => .pure _ m2
  | cons first rest =>
    have hfirst : first ∈ first :: rest ++ [place] := by simp
    show Follows (append (m.address first) (m.address place))
      (Ring.append (m.address first) (m.address place)) m
    unfold append Ring.append
    have hnonzero := hs.nonzero first hfirst
    rw [if_neg hnonzero, if_neg hnonzero]
    have hlook : Follows (look (previous · (m.address first)))
        (Edit.look (Ring.previous · (m.address first))) m :=
      Follows.look (previous_eq hm hs hfirst)
    refine hlook.bind fun tail m' htail => ?_
    obtain ⟨-, rfl⟩ := Edit.look_eq_ok_iff.1 htail
    refine (setPrevious_follows hm tail hplace).bind fun _ m1 h1 => ?_
    have hm1 := (writeWords_kept hm h1).1
    refine (setNext_follows hm1 tail _).bind fun _ m2 h2 => ?_
    have hm2 := (writeWords_kept hm1 h2).1
    refine (setNext_follows hm2 _ _).bind fun _ m3 h3 => ?_
    have hm3 := (writeWords_kept hm2 h3).1
    exact (setPrevious_follows hm3 _ (previousField_eq hm hs hfirst)).bind fun _ m4 _ =>
      .pure _ m4

end

/-! ## §4. Visiting rings. -/

section

variable {m : Memory} {head : UInt32} {act : α → UInt32 → Look (ForInStep α)} {act' : Visit α}

/-- A visit passes its checks if what is done at each record of the walk passes its own. -/
theorem visitFrom_eq (hm : m.Proper) (steps : Nat) (node : UInt32) (found : α)
    (hact : ∀ a, ∀ found, .ok a ∈ walkFrom m head steps node → act found a = plain (act' found a)) :
    visitFrom m head act steps node found
      = plain (Ring.visitFrom m head act' steps node found) := by
  induction steps generalizing node found with
  | zero => rfl
  | succ steps ih =>
    have hnext : next m node = plain (Ring.next m node) := readWord_eq hm node
    unfold visitFrom Ring.visitFrom
    rw [hnext]
    cases hafter : Ring.next m node with
    | error fault => rfl
    | ok after =>
      have hwalk : walkFrom m head (steps + 1) node
          = .ok node :: if after = head then [] else walkFrom m head steps after := by
        rw [walkFrom, hafter]
      rw [hwalk] at hact
      show (act found node >>= _) = _
      rw [hact node found (by simp)]
      cases act' found node with
      | error fault => rfl
      | ok step =>
        cases step with
        | done result => rfl
        | yield found =>
          show (if after = head then _ else visitFrom m head act steps after found)
            = plain (if after = head then _ else Ring.visitFrom m head act' steps after found)
          by_cases hend : after = head
          · rw [if_pos hend, if_pos hend]
            rfl
          · rw [if_neg hend, if_neg hend]
            exact ih after found fun a found ha => hact a found (by simp [hend, ha])

theorem visit_eq (hm : m.Proper) (start : α)
    (hact : ∀ a, ∀ found, .ok a ∈ walk m head → act found a = plain (act' found a)) :
    visit m head act start = plain (Ring.visit m head act' start) := by
  unfold visit Ring.visit
  by_cases hhead : head = 0
  · rw [if_pos hhead, if_pos hhead]
    rfl
  · rw [if_neg hhead, if_neg hhead]
    rw [walk, if_neg hhead] at hact
    exact visitFrom_eq hm _ head start hact

theorem collect_eq {read : UInt32 → Look α} {read' : UInt32 → Except Fault α} (hm : m.Proper)
    (hread : ∀ a, .ok a ∈ walk m head → read a = plain (read' a)) :
    collect m head read = plain (Ring.collect m head read') := by
  have hvisit : visit m head (fun found node => do return .yield ((← read node) :: found)) []
      = plain (Ring.visit m head
        (fun found node => (read' node).map fun a => .yield (a :: found)) []) :=
    visit_eq hm [] fun a found ha => by
      rw [hread a ha]
      cases read' a <;> rfl
  unfold collect Ring.collect
  rw [hvisit]
  cases Ring.visit m head _ [] <;> rfl

theorem find?_eq {look : UInt32 → Look (Option α)} {look' : UInt32 → Except Fault (Option α)}
    (hm : m.Proper) (hlook : ∀ a, .ok a ∈ walk m head → look a = plain (look' a)) :
    find? m head look = plain (Ring.find? m head look') :=
  visit_eq hm none fun a found ha => by
    rw [hlook a ha]
    cases look' a with
    | error fault => rfl
    | ok found => cases found <;> rfl

/-- **The audit of a closed ring passes its checks.** -/
theorem auditRing_eq {places : List Nat} (hm : m.Proper) (h : Closed m places)
    (hs : Spaced m places) (hb : places.length ≤ budget m) :
    auditRing m (headOf m places) = plain (Ring.audit m (headOf m places)) := by
  have hrecord : ∀ a, .ok a ∈ walk m (headOf m places) →
      auditRecord m a = plain (Ring.auditRecord m a) := by
    intro a ha
    rw [h.walk_eq hs hb] at ha
    obtain ⟨place, hplace, he⟩ := List.mem_map.1 ha
    cases he
    refine plain_bind (readWord_eq hm _) fun after hafter => ?_
    obtain ⟨b, hb, hj⟩ := h.exists_next hplace
    obtain rfl : m.address b = after := Except.ok.inj (hj.next_eq.symm.trans hafter)
    refine plain_bind (previous_eq hm hs hb) fun back _ => ?_
    split <;> rfl
  have hvisit : visit m (headOf m places) (fun count node => do
        auditRecord m node
        return .yield (count + 1)) 0
      = plain (Ring.visit m (headOf m places)
        (fun count node => (Ring.auditRecord m node).map fun _ => .yield (count + 1)) 0) :=
    visit_eq hm 0 fun a found ha => by
      rw [hrecord a ha]
      cases Ring.auditRecord m a <;> rfl
  refine plain_bind hvisit fun count _ => ?_
  have htail : tail? m (headOf m places) = plain (Ring.tail? m (headOf m places)) := by
    unfold tail? Ring.tail?
    cases places with
    | nil => rfl
    | cons first rest =>
      have hnonzero := hs.nonzero first (by simp)
      rw [headOf, if_neg hnonzero, if_neg hnonzero, previous_eq hm hs (by simp)]
      cases Ring.previous m (m.address first) <;> rfl
  refine plain_bind htail fun tail _ => ?_
  cases tail with
  | none => rfl
  | some tail =>
    have hnext : next m tail = plain (Ring.next m tail) := readWord_eq hm tail
    refine plain_bind hnext fun after _ => ?_
    split <;> rfl

end

/-! ## §5. Records. -/

section

variable {m : Memory}

/-- **A map is read without a sum that wraps around.** -/
theorem loadMap_eq (hm : m.Proper) (place : Nat) (h : place + 28 < m.size) :
    loadMap m (m.address place) = plain (AddressMap.load m (m.address place)) := by
  unfold loadMap
  rw [show AddressMap.idField = UInt32.ofNat 24 from rfl, field_eq hm place 24 (by omega)]
  refine plain_bind (read_eq hm _ 1) fun bytes hbytes => ?_
  obtain ⟨id, rfl⟩ := List.length_eq_one_iff.1 (length_of_read hbytes)
  refine plain_bind (readField_eq hm place 28 h) fun pointer _ => ?_
  refine plain_bind (readText_eq hm pointer) fun name _ => ?_
  refine plain_bind (readField_eq hm place 12 (by omega)) fun start _ => ?_
  refine plain_bind (readField_eq hm place 16 (by omega)) fun stop _ => ?_
  refine plain_bind (readField_eq hm place 20 (by omega)) fun access _ => ?_
  exact plain_bind (readField_eq hm place 8 (by omega)) fun entries _ => rfl

theorem loadIds_eq (hm : m.Proper) (place count list : Nat) (hcount : place + count < m.size)
    (hlist : place + list < m.size) :
    loadIds m (m.address place) (UInt32.ofNat count) (UInt32.ofNat list)
      = plain (Program.loadIds m (m.address place + UInt32.ofNat count)
        (m.address place + UInt32.ofNat list)) :=
  plain_bind (readField_eq hm place count hcount) fun _ _ =>
    plain_bind (readField_eq hm place list hlist) fun pointer _ => read_eq hm pointer _

/-- **A program is read without a sum that wraps around.** -/
theorem loadProgram_eq (hm : m.Proper) (place : Nat) (h : place + 32 < m.size) :
    loadProgram m (m.address place) = plain (Program.load m (m.address place)) := by
  refine plain_bind (readField_eq hm place 8 (by omega)) fun start _ => ?_
  refine plain_bind (readField_eq hm place 12 (by omega)) fun stop _ => ?_
  refine plain_bind (readField_eq hm place 16 (by omega)) fun pointer _ => ?_
  refine plain_bind (readText_eq hm pointer) fun argv _ => ?_
  refine plain_bind (loadIds_eq hm place 20 24 (by omega) (by omega)) fun instructionMaps _ => ?_
  exact plain_bind (loadIds_eq hm place 28 32 (by omega) h) fun dataMaps _ => rfl

/-- **A map is put into a page without a sum that wraps around.** -/
theorem putMap_follows (hm : m.Proper) (id : UInt8) (name : String) (start stop access : UInt32) :
    Follows (putMap id name start stop access) (AddressMap.put id name start stop access) m := by
  refine (reserve_follows hm AddressMap.recordSize).bind fun address m1 h1 => ?_
  obtain ⟨haddress, rfl, hfit⟩ := reserve_ok hm h1
  have hm1 := hm.grow hfit
  have hs1 : (m.grow AddressMap.recordSize).size = m.size + 32 := hm.sizeWith_eq _
  refine (storeText_follows hm1 _).bind fun nameAddress m2 h2 => ?_
  obtain ⟨-, rfl, hfit2⟩ := store_ok hm1 h2
  have hm2 := hm1.stored hfit2
  -- the page now, of which only the base and the size matter
  generalize hpage : (m.grow AddressMap.recordSize).stored (Text.Utf8.bytes name ++ [0]) = page
    at hm2
  have hbase : address = page.address m.size := by
    rw [haddress, ← hpage]
    rfl
  have hsize : m.size + 32 ≤ page.size := by
    rw [← hs1, ← hpage]
    exact le_size_stored _ _
  have hid : sum address AddressMap.idField = pure (address + AddressMap.idField) := by
    rw [hbase]
    exact field_eq hm2 m.size 24 (by omega)
  refine (writeFields_follows hm2 m.size 8 [0, start, stop, access] hbase (by simp)
    (show m.size + 8 + 4 * 4 ≤ page.size by omega)).bind fun _ m3 h3 => ?_
  obtain ⟨hm3, hbase3, hsize3⟩ := writeWords_kept hm2 h3
  refine Follows.check hid ((write_follows hm3 _ [id]).bind fun _ m4 h4 => ?_)
  obtain ⟨hm4, hbase4, hsize4⟩ := write_kept hm3 h4
  have hbase' : address = m4.address m.size := by
    rw [hbase, Memory.address, Memory.address, hbase4, hbase3]
  exact (writeFields_follows hm4 m.size 28 [nameAddress] hbase' (by simp)
    (show m.size + 28 + 4 * 1 ≤ m4.size by omega)).bind fun _ m5 _ => .pure address m5

/-- **A program is put into a page without a sum that wraps around**, and the numbers of its ids
are words. -/
theorem putProgram_follows (hm : m.Proper) (plan : Program.Plan) :
    Follows (putProgram plan) plan.put m := by
  refine (reserve_follows hm Program.recordSize).bind fun address m1 h1 => ?_
  obtain ⟨haddress, rfl, hfit⟩ := reserve_ok hm h1
  have hm1 := hm.grow hfit
  have hs1 : (m.grow Program.recordSize).size = m.size + 40 := hm.sizeWith_eq _
  refine (store_follows hm1 plan.dataMaps).bind fun dataMaps m2 h2 => ?_
  obtain ⟨-, hpage2, hfit2⟩ := store_ok hm1 h2
  have hm2 : m2.Proper := hpage2 ▸ hm1.stored hfit2
  refine (store_follows hm2 plan.instructionMaps).bind fun instructionMaps m3 h3 => ?_
  obtain ⟨-, hpage3, hfit3⟩ := store_ok hm2 h3
  have hm3 : m3.Proper := hpage3 ▸ hm2.stored hfit3
  refine (store_follows hm3 (plan.argv ++ [0])).bind fun argv m4 h4 => ?_
  obtain ⟨-, hpage4, hfit4⟩ := store_ok hm3 h4
  have hm4 : m4.Proper := hpage4 ▸ hm3.stored hfit4
  -- ids that were stored are no more than addresses
  have ha1 : (m.grow Program.recordSize).base.toNat + (m.grow Program.recordSize).capacity
    ≤ 2 ^ 32 := hm1.addressed
  have ha2 : m2.base.toNat + m2.capacity ≤ 2 ^ 32 := hm2.addressed
  have hdata := le_roundUp plan.dataMaps.length
  have hinstructions := le_roundUp plan.instructionMaps.length
  refine Follows.check (word_eq (show _ < 2 ^ 32 by omega)) ?_
  refine Follows.check (word_eq (show _ < 2 ^ 32 by omega)) ?_
  have hbase : address = m4.address m.size := by
    rw [haddress, hpage4, hpage3, hpage2]
    rfl
  have hsize : m.size + 40 ≤ m4.size := by
    rw [← hs1]
    exact hpage4 ▸ hpage3 ▸ hpage2 ▸ Nat.le_trans (le_size_stored _ plan.dataMaps)
      (Nat.le_trans (le_size_stored _ plan.instructionMaps) (le_size_stored _ _))
  exact (writeFields_follows hm4 m.size 8 [plan.payload.address, plan.payload.stop, argv,
    UInt32.ofNat plan.instructionMaps.length, instructionMaps,
    UInt32.ofNat plan.dataMaps.length, dataMaps] hbase (by simp)
    (show m.size + 8 + 4 * 7 ≤ m4.size by omega)).bind fun _ m5 _ => .pure address m5

end

end Guarded
end SystemPage
