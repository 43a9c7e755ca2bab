/-
  SystemPage.Proofs.Disturbed — sessions whose page was written over.

  Bytes can be written anywhere into the reserved part of a page: over links, fields, names and the
  header.  Requests that come afterwards work with what they find there; they may be refused, follow
  links into nowhere and write where those lead.  None of that changes where the page lies or how
  large it may grow, and growth is the same as ever.  So a page stays proper whatever happens to its
  bytes, and that is all that is needed to read it safely.

  Nothing here depends on what an edit reads.  A property of states that reserving, writing and
  looking keep is kept by all that is built from these, whatever answers are passed on.

  Main results:

      Edit.Keeps.bind  — what two edits keep, both of them together keep
      perform_keeps    — requests keep a page proper, on any page at all
      Disturbed.proper — so does writing over it
-/
import SystemPage.Proofs.Runs

namespace SystemPage

/-! ## §1. Edits that keep a property. -/

namespace Edit

variable {σ α β : Type} {P : σ → Prop}

/-- An edit keeps a property of the state, whether it finishes or fails. -/
def Keeps (P : σ → Prop) (edit : Edit σ α) : Prop := ∀ s, P s → P (outcome edit s).2

namespace Keeps

theorem pure (a : α) : Keeps P (Pure.pure a : Edit σ α) := fun _ hs => hs

theorem look (find : σ → Except Fault α) : Keeps P (Edit.look find) := by
  intro s hs
  unfold outcome Edit.look
  cases find s <;> exact hs

theorem get : Keeps P (MonadState.get : Edit σ σ) := fun _ hs => hs

theorem modify {f : σ → σ} (h : ∀ s, P s → P (f s)) :
    Keeps P (modifyGet fun s => (PUnit.unit, f s) : Edit σ PUnit) := h

/-- **What two edits keep, both of them together keep**, whatever the first one answers. -/
theorem bind {edit : Edit σ α} {rest : α → Edit σ β} (h : Keeps P edit)
    (hrest : ∀ a, Keeps P (rest a)) : Keeps P (edit >>= rest) := by
  intro s hs
  have hstep := h s hs
  unfold outcome at hstep ⊢
  cases hedit : edit s with
  | ok a after =>
    rw [hedit] at hstep
    rw [bind_of_ok hedit]
    exact hrest a after hstep
  | error fault after =>
    rw [hedit] at hstep
    rw [bind_of_error hedit]
    exact hstep

end Keeps
end Edit

/-! ## §2. Pages. -/

namespace Memory

theorem reserve_keeps (size : Nat) : Edit.Keeps Proper (reserve size) := by
  intro m hm
  unfold Edit.outcome
  by_cases hfit : m.size + roundUp size < m.capacity
  · rw [reserve_eq hm hfit]
    exact hm.grow hfit
  · rw [reserve_of_le hm (Nat.le_of_not_lt hfit)]
    exact hm

theorem write_keeps (address : UInt32) (new : List UInt8) :
    Edit.Keeps Proper (write address new) := by
  intro m hm
  unfold Edit.outcome write
  cases m.offset address new.length with
  | error fault => exact hm
  | ok start => exact hm.overwrite start new

/-- The bytes of the words depend on the order of the page, which does not matter. -/
theorem writeWords_keeps (address : UInt32) (words : List UInt32) :
    Edit.Keeps Proper (writeWords address words) :=
  fun m hm => write_keeps address (words.flatMap m.order.encode) m hm

theorem store_keeps (bytes : List UInt8) : Edit.Keeps Proper (store bytes) :=
  (reserve_keeps _).bind fun address => (write_keeps address bytes).bind fun _ => .pure address

end Memory

open Memory

/-- A record joins a ring, wherever the links of the ring lead. -/
theorem Ring.append_keeps (head node : UInt32) : Edit.Keeps Proper (Ring.append head node) := by
  unfold append
  by_cases hhead : head = 0
  · rw [if_pos hhead]
    exact (writeWords_keeps _ _).bind fun _ => (writeWords_keeps _ _).bind fun _ => .pure node
  · rw [if_neg hhead]
    refine (Edit.Keeps.look _).bind fun tail => ?_
    refine (writeWords_keeps _ _).bind fun _ => (writeWords_keeps _ _).bind fun _ => ?_
    exact (writeWords_keeps _ _).bind fun _ => (writeWords_keeps _ _).bind fun _ => .pure head

theorem AddressMap.put_keeps (id : UInt8) (name : String) (start stop access : UInt32) :
    Edit.Keeps Proper (AddressMap.put id name start stop access) := by
  refine (reserve_keeps _).bind fun address => (store_keeps _).bind fun nameAddress => ?_
  refine (writeWords_keeps _ _).bind fun _ => (write_keeps _ _).bind fun _ => ?_
  exact (writeWords_keeps _ _).bind fun _ => .pure address

theorem Program.Plan.put_keeps (plan : Plan) : Edit.Keeps Proper plan.put := by
  refine (reserve_keeps _).bind fun address => (store_keeps _).bind fun dataMaps => ?_
  refine (store_keeps _).bind fun instructionMaps => (store_keeps _).bind fun argv => ?_
  exact (writeWords_keeps _ _).bind fun _ => .pure address

/-! ## §3. Sessions. -/

namespace Session

/-- A session of which the page is proper. -/
abbrev HasProper (s : Session) : Prop := s.memory.Proper

theorem onMemory_keeps {α : Type} {edit : Edit Memory α} (h : Edit.Keeps Proper edit) :
    Edit.Keeps HasProper (onMemory edit) := by
  intro s hs
  have hstep := h s.memory hs
  unfold Edit.outcome at hstep ⊢
  unfold onMemory
  cases hedit : edit s.memory with
  | ok a memory =>
    rw [hedit] at hstep
    exact hstep
  | error fault memory =>
    rw [hedit] at hstep
    exact hstep

theorem insertAlias_keeps (name : String) (place size : UInt32) :
    Edit.Keeps HasProper (insertAlias name place size) := by
  intro s hs
  unfold Edit.outcome
  rw [insertAlias_eq]
  by_cases hname : aliasNameLimit < (Text.Utf8.bytes name).length
  · rw [if_pos hname]
    exact hs
  · rw [if_neg hname]
    by_cases hplace : addressSpace ≤ place.toNat + s.load.toNat + size.toNat
    · rw [if_pos hplace]
      exact hs
    · rw [if_neg hplace]
      exact hs

theorem insertMap_keeps (name : String) (start stop access : UInt32) :
    Edit.Keeps HasProper (insertMap name start stop access) := by
  refine (Edit.Keeps.look _).bind fun id => ?_
  refine (onMemory_keeps (AddressMap.put_keeps id name start stop access)).bind fun address => ?_
  refine Edit.Keeps.get.bind fun s => (onMemory_keeps (Ring.append_keeps _ address)).bind ?_
  intro head
  refine Edit.Keeps.bind (.modify ?_) fun _ => .pure _
  exact fun _ hs => hs

theorem insertProgram_keeps (payload instructionMaps dataMaps argv : String) (atOnce : Bool) :
    Edit.Keeps HasProper (insertProgram payload instructionMaps dataMaps argv atOnce) := by
  refine (Edit.Keeps.look _).bind fun plan => ?_
  refine (onMemory_keeps plan.put_keeps).bind fun address => ?_
  refine Edit.Keeps.get.bind fun s => (onMemory_keeps (Ring.append_keeps _ address)).bind ?_
  intro head
  refine Edit.Keeps.bind (.modify ?_) fun _ => .pure _
  exact fun _ hs => hs

theorem complete_keeps : Edit.Keeps HasProper complete := by
  refine Edit.Keeps.get.bind fun s => (onMemory_keeps (writeWords_keeps _ _)).bind fun _ => ?_
  exact Edit.Keeps.get.bind fun _ => .pure _

/-- **Requests keep a page proper, on any page at all.** -/
theorem perform_keeps (op : Operation) : Edit.Keeps HasProper op.perform := by
  match op with
  | .command (.payload name place size) => exact insertAlias_keeps name place size
  | .command (.map name start stop access) =>
    exact (insertMap_keeps name start stop access).bind fun _ => .pure ()
  | .command (.program payload instructionMaps dataMaps argv atOnce) =>
    exact (insertProgram_keeps payload instructionMaps dataMaps argv atOnce).bind fun _ => .pure ()
  | .command (.console token) =>
    exact (Edit.Keeps.look _).bind fun number => .modify fun _ hs => hs
  | .command (.foreign name) => exact .pure ()
  | .complete => exact complete_keeps.bind fun _ => .pure ()

/-- The sessions that come up when bytes are written over a page while it is being built, and blocks
are added to it that belong to no record. -/
inductive Disturbed : Session → Prop
  | create {place : Placement} {order : ByteOrder} {s : Session}
      (h : Session.create place order = .ok s) : Disturbed s
  | after {s : Session} (h : Disturbed s) (op : Operation) : Disturbed (s.after op)
  | write {s : Session} (h : Disturbed s) (address : UInt32) (new : List UInt8) :
      Disturbed (Edit.outcome (onMemory (Memory.write address new)) s).2
  | reserve {s : Session} (h : Disturbed s) (size : Nat) :
      Disturbed (Edit.outcome (onMemory (Memory.reserve size)) s).2

/-- **A page stays proper whatever is written over it.** -/
theorem Disturbed.proper {s : Session} (h : s.Disturbed) : s.memory.Proper := by
  induction h with
  | create h => exact (create_eq h).2.2
  | after _ op ih => exact perform_keeps op _ ih
  | write _ address new ih => exact onMemory_keeps (write_keeps address new) _ ih
  | reserve _ size ih => exact onMemory_keeps (reserve_keeps size) _ ih

end Session
end SystemPage
