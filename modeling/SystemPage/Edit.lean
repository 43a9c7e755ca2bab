/-
  SystemPage.Edit — changes that may fail half-way.

  An edit of a state either finishes with an answer or stops with a fault.  In both cases it hands
  the state on: what was changed before a fault stays changed.
-/
import SystemPage.Fault

namespace SystemPage

/-! ## §1. Edits. -/

/-- A change of a state `σ` that answers `α` or stops with a fault. -/
abbrev Edit (σ α : Type) := EStateM Fault σ α

namespace Edit

/-- Looks something up in the state, which stays as it is. -/
def look {σ α : Type} (find : σ → Except Fault α) : Edit σ α := fun s =>
  match find s with
  | .ok a => .ok a s
  | .error fault => .error fault s

/-- The answer or the fault of an edit, and the state it leaves. -/
def outcome {σ α : Type} (edit : Edit σ α) (s : σ) : Except Fault α × σ :=
  match edit s with
  | .ok a after => (.ok a, after)
  | .error fault after => (.error fault, after)

/-! ## §2. What looking does. -/

/-- What is found is answered. -/
theorem look_of_ok {σ α : Type} {find : σ → Except Fault α} {s : σ} {a : α}
    (h : find s = .ok a) : look find s = .ok a s := by
  simp [look, h]

/-- What cannot be found stops the edit. -/
theorem look_of_error {σ α : Type} {find : σ → Except Fault α} {s : σ} {fault : Fault}
    (h : find s = .error fault) : look find s = .error fault s := by
  simp [look, h]

end Edit
end SystemPage
