/-
  SystemPage.Ring — circular lists of records inside a page.

  The records of one kind form a ring: the first word of a record is the address of the next one,
  its second word the address of the one before.  A ring is known by its head, the record that was
  put in first; the record before the head is the tail, which was put in last.  Head 0 is the
  empty ring.

  A page can be damaged, so nothing here trusts the links: a walk along them is cut off after as
  many steps as records could fit the page, and `audit` compares every link with its counterpart.

  `walk` lists the records of a ring.  `visit` goes along them without listing them first, and stops
  where nothing more is wanted.

  Main results:

      visit_eq_visitItems — a visit meets the records of the walk, one after the other
      collect_eq_mapM     — collecting reads every item of the walk
-/
import SystemPage.Memory

namespace SystemPage
namespace Ring

/-! ## §1. Links. -/

/-- Where a record keeps the address of the record before it. -/
def previousField : UInt32 := 4

/-- The size of the smallest record that a ring links. -/
def smallestRecord : Nat := 32

/-- The address of the record after a record. -/
def next (m : Memory) (node : UInt32) : Except Fault UInt32 := m.readWord node

/-- The address of the record before a record. -/
def previous (m : Memory) (node : UInt32) : Except Fault UInt32 :=
  m.readWord (node + previousField)

def setNext (node target : UInt32) : Edit Memory Unit := Memory.writeWord node target

def setPrevious (node target : UInt32) : Edit Memory Unit :=
  Memory.writeWord (node + previousField) target

/-! ## §2. Adding a record. -/

/-- Links a record between the tail and the head, as the new tail, and answers the head of the
ring after that.  The four links are set one by one; in a ring of one
record the head is the tail as well, and both of its links change. -/
def append (head node : UInt32) : Edit Memory UInt32 :=
  if head = 0 then do
    setNext node node
    setPrevious node node
    return node
  else do
    let tail ← Edit.look (previous · head)
    setPrevious node tail
    setNext tail node
    setNext node head
    setPrevious head node
    return head

/-! ## §3. Walking. -/

/-- The last record of a ring, if it has any. -/
def tail? (m : Memory) (head : UInt32) : Except Fault (Option UInt32) :=
  if head = 0 then .ok none else (previous m head).map some

/-- No more records than this fit a page, with one to spare. -/
def budget (m : Memory) : Nat := m.size / smallestRecord + 1

/-- The records from `node` on until the next would be `head`, at most `steps` of them.  A fault is
the last item: a link that cannot be read, or more records than the budget allows. -/
def walkFrom (m : Memory) (head : UInt32) : Nat → UInt32 → List (Except Fault UInt32)
  | 0, _ => [.error (.endless head)]
  | steps + 1, node =>
    match next m node with
    | .error fault => [.error fault]
    | .ok after =>
      .ok node :: if after = head then [] else walkFrom m head steps after

def walk (m : Memory) (head : UInt32) : List (Except Fault UInt32) :=
  if head = 0 then [] else walkFrom m head (budget m) head

/-! ## §4. Visiting. -/

/-- What to do at a record with what was found before it: go on to the next one with the result, or
be done. -/
abbrev Visit (α : Type) := α → UInt32 → Except Fault (ForInStep α)

/-- Visits the records from `node` on until the next would be `head`, at most `steps` of them. -/
def visitFrom {α : Type} (m : Memory) (head : UInt32) (act : Visit α) :
    Nat → UInt32 → α → Except Fault α
  | 0, _, _ => .error (.endless head)
  | steps + 1, node, found =>
    match next m node with
    | .error fault => .error fault
    | .ok after =>
      match act found node with
      | .error fault => .error fault
      | .ok (.done result) => .ok result
      | .ok (.yield found) =>
        if after = head then .ok found else visitFrom m head act steps after found

/-- Visits the records of a ring from its head to its tail.  A record behind the one at which the
visit was done, or failed, is not looked at. -/
def visit {α : Type} (m : Memory) (head : UInt32) (act : Visit α) (start : α) : Except Fault α :=
  if head = 0 then .ok start else visitFrom m head act (budget m) head start

/-- What `read` finds at each record of a ring, from head to tail. -/
def collect {α : Type} (m : Memory) (head : UInt32) (read : UInt32 → Except Fault α) :
    Except Fault (List α) :=
  (visit m head (fun found node => (read node).map fun a => .yield (a :: found)) []).map
    List.reverse

/-- What `look` finds at the first record at which it finds something. -/
def find? {α : Type} (m : Memory) (head : UInt32) (look : UInt32 → Except Fault (Option α)) :
    Except Fault (Option α) :=
  visit m head
    (fun _ node => (look node).map fun
      | some a => .done (some a)
      | none => .yield none) none

/-! ## §5. Auditing. -/

/-- Fails unless the record after a record points back to it. -/
def auditRecord (m : Memory) (node : UInt32) : Except Fault Unit := do
  let after ← next m node
  if (← previous m after) ≠ node then throw (.brokenBackLink after node)

/-- Fails unless every link of a ring has its counterpart; answers the number of records. -/
def audit (m : Memory) (head : UInt32) : Except Fault Nat := do
  let count ← visit m head
    (fun count node => (auditRecord m node).map fun _ => .yield (count + 1)) 0
  if let some tail ← tail? m head then
    if (← next m tail) ≠ head then throw (.openTail tail head)
  return count

/-! ## §6. Visits as walks. -/

/-- A visit of records that a walk has listed. -/
def visitItems {α : Type} (act : Visit α) : α → List (Except Fault UInt32) → Except Fault α
  | found, [] => .ok found
  | found, item :: rest => do
    match ← act found (← item) with
    | .done result => return result
    | .yield found => visitItems act found rest

/-- **A visit meets the records of the walk, one after the other.** -/
theorem visit_eq_visitItems {α : Type} (m : Memory) (head : UInt32) (act : Visit α) (start : α) :
    visit m head act start = visitItems act start (walk m head) := by
  have key : ∀ (steps : Nat) (node : UInt32) (found : α),
      visitFrom m head act steps node found
        = visitItems act found (walkFrom m head steps node) := by
    intro steps
    induction steps with
    | zero => intro node found; rfl
    | succ steps ih =>
      intro node found
      rw [visitFrom, walkFrom]
      cases next m node with
      | error fault => rfl
      | ok after =>
        simp only [visitItems]
        cases hf : act found node with
        | error fault => simp [bind, Except.bind, hf]
        | ok step =>
          cases step with
          | done result => simp [bind, Except.bind, hf, pure, Except.pure]
          | yield found =>
            by_cases h : after = head
            · simp [bind, Except.bind, hf, h, visitItems]
            · simp [bind, Except.bind, hf, h, ih]
  rw [visit, walk]
  split
  · rfl
  · exact key _ _ _

/-- **Collecting reads every item of the walk.** -/
theorem collect_eq_mapM {α : Type} (m : Memory) (head : UInt32) (read : UInt32 → Except Fault α) :
    collect m head read = (walk m head).mapM fun item => item >>= read := by
  have key : ∀ (items : List (Except Fault UInt32)) (found : List α),
      (visitItems (fun found node => (read node).map fun a => .yield (a :: found)) found items).map
        List.reverse = (items.mapM fun item => item >>= read).map (found.reverse ++ ·) := by
    intro items
    induction items with
    | nil => intro found; simp [visitItems, Except.map, pure, Except.pure]
    | cons item rest ih =>
      intro found
      cases item with
      | error fault => rfl
      | ok node =>
        have hnode : ((.ok node : Except Fault UInt32) >>= read) = read node := rfl
        rw [List.mapM_cons, hnode]
        cases hr : read node with
        | error fault => simp [visitItems, bind, Except.bind, hr, Except.map]
        | ok a =>
          have hstep := ih (a :: found)
          simp only [visitItems, hr, bind, Except.bind, Except.map] at hstep ⊢
          rw [hstep]
          cases List.mapM (m := Except Fault) _ rest <;> simp [pure, Except.pure]
  rw [collect, visit_eq_visitItems, key]
  cases (walk m head).mapM fun item => item >>= read <;> simp [Except.map]

end Ring
end SystemPage
