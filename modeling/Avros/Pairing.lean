import Mathlib.Data.List.Basic

/-! Two streams whose elements meet in order of arrival: the k-th of one with the k-th
of the other. Of what has arrived so far, `zipWith` lists what has met, and on each
side a `drop` lists what still waits. -/
namespace Avros.Pairing

variable {α β γ : Type} (f : α → β → γ)

theorem leftWaits {left : List α} {right : List β} (none : right.length ≤ left.length) (a : α) :
    List.zipWith f (left ++ [a]) right = List.zipWith f left right ∧
    (left ++ [a]).drop right.length = left.drop right.length ++ [a] := by
  refine ⟨?_,List.drop_append_of_le_length none⟩
  induction left generalizing right with
  | nil =>
    have empty : right = [] := List.length_eq_zero_iff.mp (Nat.le_zero.mp none)
    simp [empty]
  | cons x rest ih =>
    cases right with
    | nil => simp
    | cons y others =>
      have shorter : others.length ≤ rest.length := Nat.le_of_succ_le_succ none
      simp [ih shorter]

theorem leftMeets {left : List α} {right rest : List β} {b : β} (waits : right.drop left.length = b::rest)
    (a : α) : List.zipWith f (left ++ [a]) right = List.zipWith f left right ++ [f a b] ∧
    right.drop (left ++ [a]).length = rest := by
  constructor
  · induction left generalizing right with
    | nil =>
      simp only [List.length_nil,List.drop_zero] at waits
      simp [waits]
    | cons x others ih =>
      cases right with
      | nil => simp at waits
      | cons y tail =>
        simp only [List.length_cons,List.drop_succ_cons] at waits
        simp [ih waits]
  · rw [List.length_append,List.length_singleton,← List.drop_drop,waits]
    rfl

theorem swapped (left : List α) (right : List β) :
    List.zipWith f left right = List.zipWith (fun b a => f a b) right left := List.zipWith_comm

theorem oneSideWaits {left : List α} {right rest : List β} {b : β}
    (waits : right.drop left.length = b::rest) : left.drop right.length = [] := by
  have longer : left.length < right.length := by
    refine Nat.lt_of_not_le ?_
    intro shorter
    rw [List.drop_of_length_le shorter] at waits
    contradiction
  exact List.drop_of_length_le (Nat.le_of_lt longer)

/-! Both streams may share one queue, which then holds the side that waits. An element
that arrives looks at the first one only: it takes it if it is of the kind wanted, and
joins the queue otherwise. -/

variable {κ : Type} {kind : α → κ} {l r : κ}

structure Shared (kind : α → κ) (l r : κ) (queue left right : List α) : Prop where
  line : queue = left.drop right.length ++ right.drop left.length
  lefts : ∀ a ∈ left, kind a = l
  rights : ∀ b ∈ right, kind b = r

theorem sharedNil : Shared kind l r [] [] [] := ⟨rfl,by simp,by simp⟩

theorem snocKind {left : List α} {a : α} {k : κ} (held : ∀ b ∈ left, kind b = k) (same : kind a = k) :
    ∀ b ∈ left ++ [a], kind b = k := by
  intro b member
  rcases List.mem_append.mp member with old | new
  · exact held b old
  · rw [List.mem_singleton.mp new]
    exact same

theorem Shared.flip {queue left right : List α} (held : Shared kind l r queue left right) :
    Shared kind r l queue right left := by
  refine ⟨?_,held.rights,held.lefts⟩
  rw [held.line]
  rcases Nat.le_total left.length right.length with shorter | longer
  · rw [List.drop_of_length_le shorter,List.nil_append,List.append_nil]
  · rw [List.drop_of_length_le longer,List.nil_append,List.append_nil]

theorem Shared.oneKind {queue left right : List α} (held : Shared kind l r queue left right) :
    (∀ a ∈ queue, kind a = l) ∨ ∀ a ∈ queue, kind a = r := by
  rcases Nat.le_total left.length right.length with shorter | longer
  · right
    intro a member
    rw [held.line,List.drop_of_length_le shorter,List.nil_append] at member
    exact held.rights a (List.mem_of_mem_drop member)
  · left
    intro a member
    rw [held.line,List.drop_of_length_le longer,List.append_nil] at member
    exact held.lefts a (List.mem_of_mem_drop member)

variable [DecidableEq κ]

def meet (kind : α → κ) (wanted : κ) (queue : List α) (a : α) : List α × Option α :=
  match queue with
  | b::rest => if kind b = wanted then (rest,some b) else (queue ++ [a],none)
  | [] => ([a],none)

/- An arrival on the left. Who has met so far is what `zipWith` lists. -/
theorem Shared.left {queue left right : List α} (held : Shared kind l r queue left right) (apart : l ≠ r)
    {a : α} (same : kind a = l) (g : α → α → γ) :
    Shared kind l r (meet kind r queue a).1 (left ++ [a]) right ∧
    List.zipWith g (left ++ [a]) right = List.zipWith g left right ++ (meet kind r queue a).2.toList.map (g a) := by
  have lefts := snocKind held.lefts same
  cases waits : right.drop left.length with
  | nil =>
    have none : right.length ≤ left.length := List.drop_eq_nil_iff.mp waits
    have later : right.drop (left ++ [a]).length = [] :=
      List.drop_of_length_le (by rw [List.length_append]; omega)
    have saved : meet kind r queue a = (queue ++ [a],.none) := by
      cases queue with
      | nil => rfl
      | cons b rest =>
        have member : b ∈ left.drop right.length := by
          have first := held.line
          rw [waits,List.append_nil] at first
          exact first ▸ List.mem_cons_self
        have other : kind b ≠ r := by
          rw [held.lefts b (List.mem_of_mem_drop member)]
          exact apart
        simp only [meet,if_neg other]
    rw [saved]
    refine ⟨⟨?_,lefts,held.rights⟩,?_⟩
    · rw [held.line,waits,later,(leftWaits (fun _ _ => ()) none a).2,List.append_nil,List.append_nil]
    · rw [(leftWaits g none a).1]
      simp
  | cons b rest =>
    have line : queue = b::rest := by rw [held.line,waits,oneSideWaits waits,List.nil_append]
    have wanted : kind b = r := by
      refine held.rights b (List.mem_of_mem_drop (i := left.length) ?_)
      rw [waits]
      exact List.mem_cons_self
    have longer : (left ++ [a]).length ≤ right.length := by
      have size := congrArg List.length waits
      rw [List.length_drop,List.length_cons] at size
      rw [List.length_append,List.length_singleton]
      omega
    have taken : meet kind r queue a = (rest,some b) := by
      rw [line]
      simp only [meet,if_pos wanted]
    rw [taken]
    refine ⟨⟨?_,lefts,held.rights⟩,?_⟩
    · rw [(leftMeets (fun _ _ => ()) waits a).2,List.drop_of_length_le longer,List.nil_append]
    · rw [(leftMeets g waits a).1]
      rfl

theorem Shared.across {queue left right : List α} (held : Shared kind l r queue left right) (apart : l ≠ r) (a : α) :
    (meet kind r queue a).2 = right[left.length]? := by
  rcases Nat.lt_or_ge left.length right.length with shorter | longer
  · have line := held.line
    rw [List.drop_of_length_le (Nat.le_of_lt shorter),List.nil_append,List.drop_eq_getElem_cons shorter] at line
    rw [line,meet,if_pos (held.rights _ (List.getElem_mem shorter)),List.getElem?_eq_getElem shorter]
  · rw [List.getElem?_eq_none longer]
    have line := held.line
    rw [List.drop_of_length_le longer,List.append_nil] at line
    cases queue with
    | nil => rfl
    | cons b rest =>
      have mine : b ∈ left.drop right.length := line ▸ List.mem_cons_self
      have other : kind b ≠ r := by
        rw [held.lefts b (List.mem_of_mem_drop mine)]
        exact apart
      rw [meet,if_neg other]

theorem Shared.partner {queue left right : List α} (held : Shared kind l r queue left right) (apart : l ≠ r)
    {a b : α} (met : (meet kind l queue b).2 = some a) : a ∈ left := by
  cases queue with
  | nil => contradiction
  | cons first rest =>
    unfold meet at met
    dsimp only at met
    split at met <;> try contradiction
    rename_i wanted
    cases Option.some.inj met
    have member : a ∈ left.drop right.length ++ right.drop left.length := held.line ▸ List.mem_cons_self
    rcases List.mem_append.mp member with mine | other
    · exact List.mem_of_mem_drop mine
    · exact absurd (wanted.symm.trans (held.rights a (List.mem_of_mem_drop other))) apart

theorem Shared.right {queue left right : List α} (held : Shared kind l r queue left right) (apart : l ≠ r)
    {b : α} (same : kind b = r) (g : α → α → γ) :
    Shared kind l r (meet kind l queue b).1 left (right ++ [b]) ∧
    List.zipWith g left (right ++ [b]) =
      List.zipWith g left right ++ (meet kind l queue b).2.toList.map (fun a => g a b) := by
  obtain ⟨shared,met⟩ := held.flip.left (Ne.symm apart) same (fun b a => g a b)
  refine ⟨shared.flip,?_⟩
  rw [swapped g left (right ++ [b]),swapped g left right]
  exact met

end Avros.Pairing
