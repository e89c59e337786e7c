import Mathlib.Data.List.Basic
import Mathlib.Data.List.Nodup

/-! A line that is joined at either end and left at the front, by nobody who stands in it
already. -/
namespace Avros.Deque

inductive Move (α : Type) where
  | front (x : α)
  | back (x : α)
  | pop (x : α)
  deriving DecidableEq, Repr

variable {α : Type} [DecidableEq α]

def apply (line : List α) : Move α → Option (List α)
  | .front x => if x ∈ line then none else some (x::line)
  | .back x => if x ∈ line then none else some (line ++ [x])
  | .pop x => if line.head? = some x then some line.tail else none

def run (line : List α) (moves : List (Move α)) : Option (List α) := moves.foldlM apply line

def Ahead (p q : α) (line : List α) : Prop :=
  ∃ before after, line = before ++ p::after ∧ q ∉ before ∧ q ∈ after ∧ p ≠ q

section
variable {p q x : α} {line line' : List α} {m : Move α} {moves first second : List (Move α)}

@[simp] theorem runNil (line : List α) : run line [] = some line := rfl

theorem runCons (line : List α) (m : Move α) (moves : List (Move α)) :
    run line (m::moves) = (apply line m).bind (fun l => run l moves) := rfl

theorem runAppend (line : List α) (first second : List (Move α)) :
    run line (first ++ second) = (run line first).bind (fun l => run l second) := List.foldlM_append

theorem runAt (ok : run line (first ++ m::second) = some line') :
    ∃ l l', run line first = some l ∧ apply l m = some l' ∧ run l' second = some line' := by
  rw [runAppend] at ok
  obtain ⟨l,before,ok⟩ := Option.bind_eq_some_iff.mp ok
  rw [runCons] at ok
  obtain ⟨l',here,after⟩ := Option.bind_eq_some_iff.mp ok
  exact ⟨l,l',before,here,after⟩

theorem frontJoins (ok : apply line (.front x) = some line') : x ∉ line ∧ line' = x::line := by
  simp only [apply] at ok
  split at ok <;> try contradiction
  rename_i fresh
  exact ⟨fresh,(Option.some.inj ok).symm⟩

theorem backJoins (ok : apply line (.back x) = some line') : x ∉ line ∧ line' = line ++ [x] := by
  simp only [apply] at ok
  split at ok <;> try contradiction
  rename_i fresh
  exact ⟨fresh,(Option.some.inj ok).symm⟩

theorem popHead (ok : apply line (.pop x) = some line') : line = x::line' := by
  simp only [apply] at ok
  split at ok <;> try contradiction
  rename_i head
  cases Option.some.inj ok
  exact (List.cons_head?_tail head).symm

theorem stays (ok : apply line m = some line') (member : x ∈ line) (other : m ≠ .pop x) : x ∈ line' := by
  cases m with
  | front y =>
    rw [(frontJoins ok).2]
    exact List.mem_cons_of_mem y member
  | back y =>
    rw [(backJoins ok).2]
    exact List.mem_append_left _ member
  | pop y =>
    have whole := popHead ok
    subst whole
    rcases List.mem_cons.mp member with rfl | old
    · contradiction
    · exact old

theorem staysAll (ok : run line moves = some line') (member : x ∈ line) (waits : .pop x ∉ moves) : x ∈ line' := by
  induction moves generalizing line with
  | nil =>
    cases Option.some.inj ok
    exact member
  | cons m rest ih =>
    rw [runCons] at ok
    obtain ⟨next,here,later⟩ := Option.bind_eq_some_iff.mp ok
    have other : m ≠ .pop x := fun same => waits (same ▸ List.mem_cons_self)
    exact ih later (stays here member other) (fun old => waits (List.mem_cons_of_mem m old))

theorem Ahead.keep (ahead : Ahead p q line) (ok : apply line m = some line') (waits : m ≠ .pop p) :
    m ≠ .pop q ∧ Ahead p q line' := by
  obtain ⟨before,after,rfl,free,behind,apart⟩ := ahead
  cases m with
  | front y =>
    obtain ⟨fresh,rfl⟩ := frontJoins ok
    have other : q ≠ y := by
      rintro rfl
      exact fresh (List.mem_append_right _ (List.mem_cons_of_mem p behind))
    exact ⟨by simp,y::before,after,rfl,by simp [other,free],behind,apart⟩
  | back y =>
    obtain ⟨-,rfl⟩ := backJoins ok
    exact ⟨by simp,before,after ++ [y],by simp,free,List.mem_append_left _ behind,apart⟩
  | pop y =>
    have whole := popHead ok
    cases before with
    | nil =>
      cases whole
      contradiction
    | cons z more =>
      cases whole
      refine ⟨?_,more,after,rfl,fun old => free (List.mem_cons_of_mem _ old),behind,apart⟩
      rintro same
      cases same
      exact free List.mem_cons_self

theorem Ahead.until (ahead : Ahead p q line) (ok : run line moves = some line') (waits : .pop p ∉ moves) :
    .pop q ∉ moves ∧ Ahead p q line' := by
  induction moves generalizing line with
  | nil =>
    cases Option.some.inj ok
    exact ⟨List.not_mem_nil,ahead⟩
  | cons m rest ih =>
    rw [runCons] at ok
    obtain ⟨next,here,later⟩ := Option.bind_eq_some_iff.mp ok
    have other : m ≠ .pop p := fun same => waits (same ▸ List.mem_cons_self)
    obtain ⟨notYet,still⟩ := ahead.keep here other
    obtain ⟨never,last⟩ := ih still later (fun old => waits (List.mem_cons_of_mem m old))
    refine ⟨fun member => ?_,last⟩
    rcases List.mem_cons.mp member with same | old
    · exact notYet same.symm
    · exact never old

theorem Ahead.notServed (ahead : Ahead p q line) : apply line (.pop q) ≠ some line' := by
  intro served
  obtain ⟨-,-,-,-,-,apart⟩ := id ahead
  exact (ahead.keep served (fun same => apart (Move.pop.inj same).symm)).1 rfl

theorem fifo {before between after rest : List (Move α)}
    (ok : (run line (before ++ .back p::(between ++ .back q::(after ++ .pop q::rest)))).isSome) :
    .pop p ∈ between ++ after := by
  by_contra waits
  obtain ⟨notBetween,notAfter⟩ := not_or.mp (fun either => waits (List.mem_append.mpr either))
  obtain ⟨last,whole⟩ := Option.isSome_iff_exists.mp ok
  obtain ⟨_,l1,-,joins,whole⟩ := runAt whole
  obtain ⟨l2,l3,middle,follows,whole⟩ := runAt whole
  obtain ⟨l4,_,ending,served,-⟩ := runAt whole
  have here : p ∈ l1 := by
    rw [(backJoins joins).2]
    simp
  have still : p ∈ l2 := staysAll middle here notBetween
  have ahead : Ahead p q l3 := by
    obtain ⟨fresh,rfl⟩ := backJoins follows
    obtain ⟨front,back,rfl⟩ := List.append_of_mem still
    refine ⟨front,back ++ [q],by simp,fun old => fresh (List.mem_append_left _ old),by simp,?_⟩
    rintro rfl
    exact fresh still
  exact ((ahead.until ending notAfter).2).notServed served

theorem frontFirst {before between rest : List (Move α)} (stood : run line before = some line') (member : q ∈ line')
    (ok : (run line (before ++ .front p::(between ++ .pop q::rest))).isSome) : .pop p ∈ between := by
  by_contra waits
  obtain ⟨last,whole⟩ := Option.isSome_iff_exists.mp ok
  rw [runAppend,stood] at whole
  change run line' (.front p::(between ++ .pop q::rest)) = some last at whole
  rw [runCons] at whole
  obtain ⟨l1,joins,whole⟩ := Option.bind_eq_some_iff.mp whole
  obtain ⟨l2,_,middle,served,-⟩ := runAt whole
  have ahead : Ahead p q l1 := by
    obtain ⟨fresh,rfl⟩ := frontJoins joins
    refine ⟨[],line',rfl,List.not_mem_nil,member,?_⟩
    rintro rfl
    exact fresh member
  exact ((ahead.until middle waits).2).notServed served

end

end Avros.Deque
