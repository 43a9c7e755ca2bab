/-
  SystemPage.Proofs.Walks — where a walk along a ring can end, whatever a page holds.

  `Circles` tells which walks meet no fault.  Here any address may be the head and the page may hold
  anything.  The words that a walk follows can lead back to the head, out of the page, or round and
  round without the head.  Only the head is compared with, so a circle that leaves it out is not
  noticed as such; the number of steps runs out instead.

  What is kept along a walk is that the records met so far are a path from the head and that one
  step of the budget was spent on each of them.  The address that the walk has come to is already
  on the path, one behind the last record that was met: it is the record whose word cannot be read,
  or the one for which no step is left.

  Main results:

      Path.snoc       — a word that is not the head makes a path longer
      walkFrom_ends   — a walk that is under way goes on to one of its ends
      walk_exact      — a walk from any head over any page
-/
import SystemPage.Proofs.ReadWrite

namespace SystemPage
namespace Ring

open Memory

variable {m : Memory} {head node after : UInt32} {nodes before : List UInt32}

/-! ## §1. Paths. -/

/-- Records on the way from a head: the first one is the head, each later one is the word at the one
before it, and none of the later ones is the head. -/
structure Path (m : Memory) (head : UInt32) (nodes : List UInt32) : Prop where
  start : ∀ first, nodes.head? = some first → first = head
  linked : nodes.IsChain m.WordAt
  fresh : head ∉ nodes.tail

namespace Path

theorem singleton (m : Memory) (head : UInt32) : Path m head [head] := by
  refine ⟨?_, List.isChain_singleton head, by simp⟩
  intro first hfirst
  exact (Option.some.inj hfirst).symm

/-- A path without its last record is a path. -/
theorem init (h : Path m head (nodes ++ [node])) : Path m head nodes := by
  refine ⟨?_, (List.isChain_append.1 h.linked).1, ?_⟩
  · intro first hfirst
    apply h.start
    rw [List.head?_append, hfirst, Option.some_or]
  · intro hmem
    apply h.fresh
    cases nodes with
    | nil => cases hmem
    | cons first rest => exact List.mem_append_left _ hmem

/-- **A word that is not the head makes a path longer.** -/
theorem snoc (h : Path m head (nodes ++ [node])) (hword : m.WordAt node after)
    (hne : after ≠ head) : Path m head (nodes ++ [node] ++ [after]) := by
  have hnonempty : nodes ++ [node] ≠ [] := by simp
  refine ⟨?_, ?_, ?_⟩
  · intro first hfirst
    rw [List.head?_append_of_ne_nil _ hnonempty] at hfirst
    exact h.start first hfirst
  · rw [List.isChain_append]
    refine ⟨h.linked, List.isChain_singleton after, ?_⟩
    intro last hlast next hnext
    rw [List.getLast?_concat] at hlast
    cases hlast
    cases hnext
    exact hword
  · rw [List.tail_append_of_ne_nil hnonempty, List.mem_append, List.mem_singleton]
    intro hmem
    cases hmem with
    | inl hmem => exact h.fresh hmem
    | inr heq => exact hne heq.symm

end Path

/-! ## §2. Ends. -/

/-- What a walk tells behind the records that it has met. -/
inductive Ends (m : Memory) (head : UInt32) (nodes : List UInt32) :
    List (Except Fault UInt32) → Prop where
  -- nothing, if the word at the last record is the head
  | back {last : UInt32} (hlast : nodes.getLast? = some last) (hword : m.WordAt last head) :
      Ends m head nodes []
  -- a fault, if there is one more record and the budget is used up
  | spent {node : UInt32} {fault : Fault} (hpath : Path m head (nodes ++ [node]))
      (hlength : nodes.length = m.size / 32 + 1) (hkind : fault.kind = .corruptList) :
      Ends m head nodes [.error fault]
  -- a fault, if there is one more record and the word at it does not lie in the page
  | unreadable {node : UInt32} {fault : Fault} (hpath : Path m head (nodes ++ [node]))
      (hlength : nodes.length < m.size / 32 + 1) (hnone : ¬ m.Covers node 4)
      (hkind : fault.kind = .invalidAddress) : Ends m head nodes [.error fault]

theorem Ends.length_le {ending : List (Except Fault UInt32)} (h : Ends m head nodes ending) :
    ending.length ≤ 1 := by
  cases h with
  | back => exact Nat.zero_le 1
  | spent => exact Nat.le_refl 1
  | unreadable => exact Nat.le_refl 1

/-! ## §3. Walks. -/

/-- **A walk that is under way goes on to one of its ends.**  Behind the records met `before` it has
come to `node`, and the steps that are left are those of the budget not spent on them. -/
theorem walkFrom_ends {steps : Nat} (hpath : Path m head (before ++ [node]))
    (hsteps : before.length + steps = m.size / 32 + 1) :
    ∃ nodes ending, walkFrom m head steps node = nodes.map .ok ++ ending
      ∧ (before ++ nodes).length ≤ m.size / 32 + 1 ∧ Path m head (before ++ nodes)
      ∧ Ends m head (before ++ nodes) ending := by
  induction steps generalizing before node with
  | zero =>
    refine ⟨[], [.error (.endless head)], rfl, ?_⟩
    rw [List.append_nil]
    exact ⟨by omega, hpath.init, .spent hpath (by omega) rfl⟩
  | succ steps ih =>
    obtain ⟨hcovered, huncovered⟩ := readWord_reaches m node
    by_cases hcovers : m.Covers node 4
    · obtain ⟨after, hnext⟩ := hcovered hcovers
      have hword := readWord_eq_ok_iff.1 hnext
      have hwalk : walkFrom m head (steps + 1) node
          = .ok node :: if after = head then [] else walkFrom m head steps after := by
        rw [walkFrom, show next m node = .ok after from hnext]
      by_cases hback : after = head
      · subst hback
        refine ⟨[node], [], ?_, ?_, hpath, .back List.getLast?_concat hword⟩
        · rw [hwalk, if_pos rfl]
          rfl
        · show (before ++ [node]).length ≤ m.size / 32 + 1
          rw [List.length_append, List.length_singleton]
          omega
      · obtain ⟨nodes, ending, hrest, hlength, hwhole, hends⟩ :=
          ih (hpath.snoc hword hback)
            (by rw [List.length_append, List.length_singleton]; omega)
        rw [List.append_assoc, List.singleton_append] at hlength hwhole hends
        refine ⟨node :: nodes, ending, ?_, hlength, hwhole, hends⟩
        rw [hwalk, if_neg hback, hrest]
        rfl
    · obtain ⟨fault, hnext, hkind⟩ := huncovered hcovers
      have hwalk : walkFrom m head (steps + 1) node = [.error fault] := by
        rw [walkFrom, show next m node = .error fault from hnext]
      refine ⟨[], [.error fault], hwalk, ?_⟩
      rw [List.append_nil]
      exact ⟨by omega, hpath.init, .unreadable hpath (by omega) hcovers hkind⟩

/-- **A walk meets no more records than the budget allows, on a path from the head, and ends in one
of three ways**: the word at the last record is the head, the budget is used up, or the next record
does not lie in the page. -/
theorem walk_exact (m : Memory) (head : UInt32) :
    head = 0 ∧ walk m head = []
      ∨ head ≠ 0 ∧ ∃ nodes ending, walk m head = nodes.map .ok ++ ending
        ∧ nodes.length ≤ m.size / 32 + 1 ∧ ending.length ≤ 1 ∧ Path m head nodes
        ∧ Ends m head nodes ending := by
  unfold walk
  by_cases hhead : head = 0
  · left
    exact ⟨hhead, if_pos hhead⟩
  · right
    rw [if_neg hhead]
    have hstart : Path m head ([] ++ [head]) := Path.singleton m head
    obtain ⟨nodes, ending, hitems, hlength, hpath, hends⟩ :=
      walkFrom_ends hstart (Nat.zero_add (m.size / 32 + 1))
    rw [List.nil_append] at hlength hpath hends
    exact ⟨hhead, nodes, ending, hitems, hlength, hends.length_le, hpath, hends⟩

/-- In a blank page every word leads to address 0 and from there to itself. -/
example : walk ⟨0, 64, .little, 40, .blank⟩ 8 = [.ok 8, .ok 0, .error (.endless 8)] := by
  decide

end Ring
end SystemPage
