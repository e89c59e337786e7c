import Mathlib.Data.List.Count

/-! `lib/queue.c` on the sequence of items a queue links, head first. An item is
the address of the structure that carries the links, and 0 is NULL: a NULL item
leaves the queue alone. `q_remv` unlinks the item wherever it stands; on an item
that is not in the queue the pointer code would write through foreign links, and
no result below relies on that case. -/
namespace Avros.Queue

def qFront (que : List Nat) (item : Nat) : List Nat := if item = 0 then que else item :: que
def qEnd (que : List Nat) (item : Nat) : List Nat := if item = 0 then que else que ++ [item]
def qRemv (que : List Nat) (item : Nat) : List Nat := if item = 0 then que else que.erase item

/- The callback answers with an item to stop the walk. The successor is fetched
before the call, so a callback that unlinks the item it stands on is safe. -/
def qForall {α β : Type} (que : List α) (callback : α → Option β) : Option β :=
  que.findSome? callback

theorem countFront (que : List Nat) {item : Nat} (real : item ≠ 0) (p : Nat) :
    (qFront que item).count p = que.count p + if item = p then 1 else 0 := by
  by_cases same : item = p
  · subst same
    simp [qFront,real]
  · simp [qFront,real,same]

theorem countEnd (que : List Nat) {item : Nat} (real : item ≠ 0) (p : Nat) :
    (qEnd que item).count p = que.count p + if item = p then 1 else 0 := by
  by_cases same : item = p
  · subst same
    simp [qEnd,real]
  · simp [qEnd,real,same]

theorem countRemv {que : List Nat} {item : Nat} (real : item ≠ 0) (member : item ∈ que) (p : Nat) :
    (qRemv que item).count p + (if item = p then 1 else 0) = que.count p := by
  by_cases same : item = p
  · subst same
    have positive := List.count_pos_iff.mpr member
    simp only [qRemv,if_neg real,List.count_erase_self,if_true]
    omega
  · have other : p ≠ item := fun h => same h.symm
    simp [qRemv,real,same,List.count_erase_of_ne other]

theorem memFront {que : List Nat} {item p : Nat} (member : p ∈ qFront que item) :
    p = item ∨ p ∈ que := by
  unfold qFront at member
  split at member
  · exact Or.inr member
  · exact List.mem_cons.mp member

theorem memEnd {que : List Nat} {item p : Nat} (member : p ∈ qEnd que item) :
    p = item ∨ p ∈ que := by
  unfold qEnd at member
  split at member
  · exact Or.inr member
  · rcases List.mem_append.mp member with old | new
    · exact Or.inr old
    · exact Or.inl (List.mem_singleton.mp new)

theorem memRemv {que : List Nat} {item p : Nat} (member : p ∈ qRemv que item) : p ∈ que := by
  unfold qRemv at member
  split at member
  · exact member
  · exact List.mem_of_mem_erase member

end Avros.Queue
