import Mathlib.Algebra.GroupWithZero.Nat
import Mathlib.Data.List.Chain

/-! A stretch of memory cut into cells, each free or used by someone. Allocation takes the
first free cell that is large enough and cuts off what is left over, if that is more than
`gap`; a released cell is joined with its free neighbours. -/
namespace Avros.Tiling

structure Cell (α : Type) where
  size : Nat
  user : Option α
  deriving DecidableEq

variable {α : Type}

def total (cells : List (Cell α)) : Nat := (cells.map Cell.size).sum

def users : Nat → List (Cell α) → List (Nat × α)
  | _,[] => []
  | p,c::rest =>
    match c.user with
    | some a => (p,a)::users (p + c.size) rest
    | none => users (p + c.size) rest

def allocate (gap need : Nat) (a : α) : Nat → List (Cell α) → Option (Nat × List (Cell α))
  | _,[] => none
  | p,c::rest =>
    if c.user = none ∧ need ≤ c.size then
      if c.size ≤ need + gap then some (p,⟨c.size,some a⟩::rest)
      else some (p,⟨need,some a⟩::⟨c.size - need,none⟩::rest)
    else (allocate gap need a (p + c.size) rest).map (fun x => (x.1,c::x.2))

def release (q : Nat) : Nat → List (Cell α) → List (Cell α)
  | _,[] => []
  | p,c::rest => if p = q then ⟨c.size,none⟩::rest else c::release q (p + c.size) rest

-- Cell `c` takes in its free neighbours on the right, then the next one does.
def settle : Cell α → List (Cell α) → List (Cell α)
  | c,[] => [c]
  | c,d::rest =>
    if c.user = none ∧ d.user = none then settle ⟨c.size + d.size,none⟩ rest else c::settle d rest

def absorb : Cell α → List (Cell α) → Cell α × List (Cell α)
  | c,[] => (c,[])
  | c,d::rest => if c.user = none ∧ d.user = none then absorb ⟨c.size + d.size,none⟩ rest else (c,d::rest)

def placed : Nat → List (Cell α) → List (Nat × Cell α)
  | _,[] => []
  | p,c::rest => (p,c)::placed (p + c.size) rest

def Spaced (cells : List (Cell α)) : Prop := cells.IsChain (fun c d => c.user = none → d.user ≠ none)

def Wide (gap : Nat) (cells : List (Cell α)) : Prop := ∀ c ∈ cells, gap ≤ c.size

def Roomy (need : α → Nat) (cells : List (Cell α)) : Prop := ∀ c ∈ cells, ∀ a, c.user = some a → need a ≤ c.size

section
variable {gap p q : Nat} {a : α} {cells cells' : List (Cell α)}

@[simp] theorem totalNil : total ([] : List (Cell α)) = 0 := rfl
@[simp] theorem totalCons (c : Cell α) (rest : List (Cell α)) : total (c::rest) = c.size + total rest :=
  List.sum_cons

theorem usersUsed {c : Cell α} (used : c.user = some a) (rest : List (Cell α)) :
    users p (c::rest) = (p,a)::users (p + c.size) rest := by
  rw [users,used]

theorem usersFree {c : Cell α} (free : c.user = none) (rest : List (Cell α)) :
    users p (c::rest) = users (p + c.size) rest := by
  rw [users,free]

theorem allocateCases {need : Nat} {P : Nat → List (Cell α) → Nat → List (Cell α) → Prop}
    (whole : ∀ p c rest, c.user = none → need ≤ c.size → c.size ≤ need + gap →
      P p (c::rest) p (⟨c.size,some a⟩::rest))
    (cut : ∀ p c rest, c.user = none → need + gap < c.size →
      P p (c::rest) p (⟨need,some a⟩::⟨c.size - need,none⟩::rest))
    (pass : ∀ p c rest q rest', ¬ (c.user = none ∧ need ≤ c.size) → P (p + c.size) rest q rest' →
      P p (c::rest) q (c::rest'))
    (took : allocate gap need a p cells = some (q,cells')) : P p cells q cells' := by
  induction cells generalizing p cells' with
  | nil => contradiction
  | cons c rest ih =>
    unfold allocate at took
    split at took
    · rename_i fits
      split at took
      · rename_i tight
        cases Option.some.inj took
        exact whole _ c rest fits.1 fits.2 tight
      · rename_i loose
        cases Option.some.inj took
        exact cut _ c rest fits.1 (Nat.lt_of_not_le loose)
    · rename_i short
      obtain ⟨⟨q',rest'⟩,later,same⟩ := Option.map_eq_some_iff.mp took
      cases same
      exact pass p c rest _ rest' short (ih later)

theorem allocateTotal {need : Nat} (took : allocate gap need a p cells = some (q,cells')) :
    total cells' = total cells := by
  refine allocateCases (P := fun _ cells _ cells' => total cells' = total cells) ?_ ?_ ?_ took
  · intro p c rest free fits tight
    simp
  · intro p c rest free loose
    simp only [totalCons]
    omega
  · intro p c rest q rest' short ih
    simp [ih]

theorem allocateUsers {need : Nat} (took : allocate gap need a p cells = some (q,cells')) :
    (users p cells').Perm ((q,a)::users p cells) := by
  refine allocateCases (P := fun p cells q cells' => (users p cells').Perm ((q,a)::users p cells)) ?_ ?_ ?_ took
  · intro p c rest free fits tight
    rw [usersUsed rfl,usersFree free]
  · intro p c rest free loose
    have whole : need + (c.size - need) = c.size := by omega
    rw [usersUsed rfl,usersFree rfl,usersFree free,Nat.add_assoc,whole]
  · intro p c rest q rest' short ih
    cases used : c.user with
    | none =>
      rw [usersFree used,usersFree used]
      exact ih
    | some b =>
      rw [usersUsed used,usersUsed used]
      exact (ih.cons (p,b)).trans (.swap (q,a) (p,b) _)

theorem allocateWide {need least : Nat} (wide : Wide least cells) (enough : least ≤ need) (spare : least ≤ gap + 1)
    (took : allocate gap need a p cells = some (q,cells')) : Wide least cells' := by
  refine allocateCases (P := fun _ cells _ cells' => Wide least cells → Wide least cells') ?_ ?_ ?_ took wide
  · intro p c rest free fits tight wide
    exact List.forall_mem_cons.mpr (List.forall_mem_cons.mp wide)
  · intro p c rest free loose wide
    have rests := (List.forall_mem_cons.mp wide).2
    refine List.forall_mem_cons.mpr ⟨enough,List.forall_mem_cons.mpr ⟨?_,rests⟩⟩
    change least ≤ c.size - need
    omega
  · intro p c rest q rest' short ih wide
    obtain ⟨first,rests⟩ := List.forall_mem_cons.mp wide
    exact List.forall_mem_cons.mpr ⟨first,ih rests⟩

theorem allocateRoomy {need : α → Nat} (roomy : Roomy need cells)
    (took : allocate gap (need a) a p cells = some (q,cells')) : Roomy need cells' := by
  refine allocateCases (P := fun _ cells _ cells' => Roomy need cells → Roomy need cells') ?_ ?_ ?_ took roomy
  · intro p c rest free fits tight roomy
    refine List.forall_mem_cons.mpr ⟨?_,(List.forall_mem_cons.mp roomy).2⟩
    intro b used
    cases used
    exact fits
  · intro p c rest free loose roomy
    refine List.forall_mem_cons.mpr ⟨?_,List.forall_mem_cons.mpr ⟨?_,(List.forall_mem_cons.mp roomy).2⟩⟩
    · intro b used
      cases used
      exact Nat.le_refl _
    · intro b used
      contradiction
  · intro p c rest q rest' short ih roomy
    obtain ⟨first,rests⟩ := List.forall_mem_cons.mp roomy
    exact List.forall_mem_cons.mpr ⟨first,ih rests⟩

theorem allocateSpaced {need : Nat} (spaced : Spaced cells) (took : allocate gap need a p cells = some (q,cells')) :
    Spaced cells' := by
  have kept : Spaced cells → Spaced cells' ∧ ∀ c : Cell α, Spaced (c::cells) → Spaced (c::cells') := by
    refine allocateCases (P := fun _ cells _ cells' => Spaced cells →
      Spaced cells' ∧ ∀ c : Cell α, Spaced (c::cells) → Spaced (c::cells')) ?_ ?_ ?_ took
    · intro p c rest free fits tight spaced
      have own : Spaced (⟨c.size,some a⟩::rest) := by
        cases rest with
        | nil => exact List.isChain_singleton _
        | cons d more => exact List.isChain_cons_cons.mpr ⟨by simp,(List.isChain_cons_cons.mp spaced).2⟩
      exact ⟨own,fun b _ => List.isChain_cons_cons.mpr ⟨by simp,own⟩⟩
    · intro p c rest free loose spaced
      have left : Spaced (⟨c.size - need,none⟩::rest) := by
        cases rest with
        | nil => exact List.isChain_singleton _
        | cons d more =>
          obtain ⟨apart,rests⟩ := List.isChain_cons_cons.mp spaced
          exact List.isChain_cons_cons.mpr ⟨fun _ => apart free,rests⟩
      have own : Spaced (⟨need,some a⟩::⟨c.size - need,none⟩::rest) := List.isChain_cons_cons.mpr ⟨by simp,left⟩
      exact ⟨own,fun b _ => List.isChain_cons_cons.mpr ⟨by simp,own⟩⟩
    · intro p c rest q rest' short ih spaced
      have own := (ih (List.IsChain.tail spaced)).2 c spaced
      exact ⟨own,fun b beside => List.isChain_cons_cons.mpr ⟨(List.isChain_cons_cons.mp beside).1,own⟩⟩
  exact (kept spaced).1

theorem usersFrom {cells : List (Cell α)} {b : α} (member : (q,b) ∈ users p cells) : p ≤ q := by
  induction cells generalizing p with
  | nil => contradiction
  | cons c rest ih =>
    cases used : c.user with
    | none =>
      rw [usersFree used] at member
      have later := ih member
      omega
    | some x =>
      rw [usersUsed used] at member
      rcases List.mem_cons.mp member with same | old
      · cases same
        exact Nat.le_refl _
      · have later := ih old
        omega

theorem usersOrder (positive : 0 < gap) (wide : Wide gap cells) : (users p cells).Pairwise (·.1 < ·.1) := by
  induction cells generalizing p with
  | nil => exact .nil
  | cons c rest ih =>
    obtain ⟨first,rests⟩ := List.forall_mem_cons.mp wide
    cases used : c.user with
    | none =>
      rw [usersFree used]
      exact ih rests
    | some b =>
      rw [usersUsed used]
      refine .cons (fun u member => ?_) (ih rests)
      have later := usersFrom member
      change p < u.1
      omega

theorem releaseTotal (q p : Nat) (cells : List (Cell α)) : total (release q p cells) = total cells := by
  induction cells generalizing p with
  | nil => rfl
  | cons c rest ih =>
    unfold release
    split
    · simp
    · simp [ih]

theorem releaseNonempty (some_ : cells ≠ []) : release q p cells ≠ [] := by
  obtain ⟨c,rest,rfl⟩ := List.exists_cons_of_ne_nil some_
  unfold release
  split
  · exact List.cons_ne_nil _ _
  · exact List.cons_ne_nil _ _

theorem releaseWide (wide : Wide gap cells) : Wide gap (release q p cells) := by
  induction cells generalizing p with
  | nil => exact wide
  | cons c rest ih =>
    obtain ⟨first,rests⟩ := List.forall_mem_cons.mp wide
    unfold release
    split
    · exact List.forall_mem_cons.mpr ⟨first,rests⟩
    · exact List.forall_mem_cons.mpr ⟨first,ih rests⟩

theorem releaseRoomy {need : α → Nat} (roomy : Roomy need cells) : Roomy need (release q p cells) := by
  induction cells generalizing p with
  | nil => exact roomy
  | cons c rest ih =>
    obtain ⟨first,rests⟩ := List.forall_mem_cons.mp roomy
    unfold release
    split
    · exact List.forall_mem_cons.mpr ⟨by simp,rests⟩
    · exact List.forall_mem_cons.mpr ⟨first,ih rests⟩

theorem releaseUsers (positive : 0 < gap) (wide : Wide gap cells) (member : (q,a) ∈ users p cells) :
    (users p cells).Perm ((q,a)::users p (release q p cells)) := by
  induction cells generalizing p with
  | nil => contradiction
  | cons c rest ih =>
    obtain ⟨first,rests⟩ := List.forall_mem_cons.mp wide
    unfold release
    cases used : c.user with
    | none =>
      rw [usersFree used] at member ⊢
      have later := usersFrom member
      rw [if_neg (by omega),usersFree used]
      exact ih rests member
    | some b =>
      rw [usersUsed used] at member ⊢
      rcases List.mem_cons.mp member with same | old
      · cases same
        rw [if_pos rfl,usersFree rfl]
      · have later := usersFrom old
        rw [if_neg (by omega),usersUsed used]
        exact ((ih rests old).cons (p,b)).trans (.swap (q,a) (p,b) _)

theorem settleTotal (c : Cell α) (rest : List (Cell α)) : total (settle c rest) = c.size + total rest := by
  induction rest generalizing c with
  | nil => rfl
  | cons d rest ih =>
    unfold settle
    split
    · rw [ih,totalCons,Nat.add_assoc]
    · rw [totalCons,ih,totalCons]

theorem settleUsers (c : Cell α) (rest : List (Cell α)) : users p (settle c rest) = users p (c::rest) := by
  induction rest generalizing c p with
  | nil => rfl
  | cons d rest ih =>
    unfold settle
    split
    · rename_i free
      rw [ih,usersFree rfl,usersFree free.1,usersFree free.2,Nat.add_assoc]
    · cases used : c.user with
      | none => rw [usersFree used,usersFree used,ih]
      | some b => rw [usersUsed used,usersUsed used,ih]

theorem settleWide {c : Cell α} {rest : List (Cell α)} (wide : Wide gap (c::rest)) : Wide gap (settle c rest) := by
  induction rest generalizing c with
  | nil => exact wide
  | cons d rest ih =>
    obtain ⟨first,rests⟩ := List.forall_mem_cons.mp wide
    unfold settle
    split
    · exact ih (List.forall_mem_cons.mpr ⟨Nat.le_add_right_of_le first,(List.forall_mem_cons.mp rests).2⟩)
    · exact List.forall_mem_cons.mpr ⟨first,ih rests⟩

theorem settleRoomy {need : α → Nat} {c : Cell α} {rest : List (Cell α)} (roomy : Roomy need (c::rest)) :
    Roomy need (settle c rest) := by
  induction rest generalizing c with
  | nil => exact roomy
  | cons d rest ih =>
    obtain ⟨first,rests⟩ := List.forall_mem_cons.mp roomy
    unfold settle
    split
    · exact ih (List.forall_mem_cons.mpr ⟨by simp,(List.forall_mem_cons.mp rests).2⟩)
    · exact List.forall_mem_cons.mpr ⟨first,ih rests⟩

theorem settleHead (c : Cell α) (rest : List (Cell α)) :
    ∃ d more, settle c rest = d::more ∧ d.user = c.user := by
  induction rest generalizing c with
  | nil => exact ⟨c,[],rfl,rfl⟩
  | cons d rest ih =>
    unfold settle
    split
    · rename_i free
      obtain ⟨e,more,same,user⟩ := ih ⟨c.size + d.size,none⟩
      exact ⟨e,more,same,user.trans free.1.symm⟩
    · exact ⟨c,_,rfl,rfl⟩

theorem settleSpaced (c : Cell α) (rest : List (Cell α)) : Spaced (settle c rest) := by
  induction rest generalizing c with
  | nil => exact List.isChain_singleton _
  | cons d rest ih =>
    unfold settle
    split
    · exact ih _
    · rename_i apart
      obtain ⟨e,more,same,user⟩ := settleHead d rest
      have later := ih d
      rw [same] at later ⊢
      refine List.isChain_cons_cons.mpr ⟨fun free used => ?_,later⟩
      exact apart ⟨free,user.symm.trans used⟩

theorem settleApart {c : Cell α} {rest : List (Cell α)} (spaced : Spaced (c::rest)) : settle c rest = c::rest := by
  induction rest generalizing c with
  | nil => rfl
  | cons d rest ih =>
    obtain ⟨apart,rests⟩ := List.isChain_cons_cons.mp spaced
    rw [settle,if_neg (fun both => apart both.1 both.2),ih rests]

theorem allocateReleased {need least : Nat} (positive : 0 < least) (wide : Wide least cells) (spaced : Spaced cells)
    (took : allocate gap need a p cells = some (q,cells')) :
    ∃ d rest, release q p cells' = d::rest ∧ settle d rest = cells := by
  have back : Wide least cells → Spaced cells →
      p ≤ q ∧ ∃ d rest, release q p cells' = d::rest ∧ settle d rest = cells := by
    refine allocateCases (P := fun p cells q cells' => Wide least cells → Spaced cells →
      p ≤ q ∧ ∃ d rest, release q p cells' = d::rest ∧ settle d rest = cells) ?_ ?_ ?_ took
    · intro p c rest free fits tight wide spaced
      have same : (⟨c.size,none⟩ : Cell α) = c := by rw [← free]
      refine ⟨Nat.le_refl p,c,rest,?_,settleApart spaced⟩
      rw [release,if_pos rfl,same]
    · intro p c rest free loose wide spaced
      have same : (⟨need + (c.size - need),none⟩ : Cell α) = c := by
        have whole : need + (c.size - need) = c.size := by omega
        rw [whole,← free]
      refine ⟨Nat.le_refl p,_,_,if_pos rfl,?_⟩
      rw [settle,if_pos ⟨rfl,rfl⟩,same]
      exact settleApart spaced
    · intro p c rest q rest' short ih wide spaced
      obtain ⟨first,rests⟩ := List.forall_mem_cons.mp wide
      obtain ⟨later,d,more,left,joined⟩ := ih rests (List.IsChain.tail spaced)
      refine ⟨by omega,c,d::more,?_,?_⟩
      · rw [release,if_neg (by omega),left]
      · -- The neighbour on the right is as free as it was.
        obtain ⟨e,others,same,user⟩ := settleHead d more
        rw [joined] at same
        rw [same] at spaced
        have apart : ¬ (c.user = none ∧ d.user = none) := fun both =>
          (List.isChain_cons_cons.mp spaced).1 both.1 (user.trans both.2)
        rw [settle,if_neg apart,joined]
  exact (back wide spaced).2

theorem spacedWhole (spaced : Spaced cells) (unused : users p cells = []) (some_ : cells ≠ []) :
    cells = [⟨total cells,none⟩] := by
  obtain ⟨c,rest,rfl⟩ := List.exists_cons_of_ne_nil some_
  have free : c.user = none := by
    cases used : c.user with
    | none => rfl
    | some b =>
      rw [usersUsed used] at unused
      contradiction
  cases rest with
  | nil =>
    obtain ⟨size,user⟩ := c
    cases free
    rfl
  | cons d more =>
    have taken := (List.isChain_cons_cons.mp spaced).1 free
    obtain ⟨b,used⟩ := Option.ne_none_iff_exists'.mp taken
    rw [usersFree free,usersUsed used] at unused
    contradiction

theorem settleAbsorb (c : Cell α) (rest : List (Cell α)) : settle c rest =
    (absorb c rest).1::(match (absorb c rest).2 with
      | [] => []
      | d::more => settle d more) := by
  induction rest generalizing c with
  | nil => rfl
  | cons d rest ih =>
    by_cases free : c.user = none ∧ d.user = none
    · rw [settle,absorb,if_pos free,if_pos free]
      exact ih _
    · rw [settle,absorb,if_neg free,if_neg free]

theorem absorbShorter (c : Cell α) (rest : List (Cell α)) : (absorb c rest).2.length ≤ rest.length := by
  induction rest generalizing c with
  | nil => exact Nat.le_refl _
  | cons d rest ih =>
    unfold absorb
    split
    · exact Nat.le_succ_of_le (ih _)
    · exact Nat.le_refl _

theorem absorbTotal (c : Cell α) (rest : List (Cell α)) :
    (absorb c rest).1.size + total (absorb c rest).2 = c.size + total rest := by
  induction rest generalizing c with
  | nil => rfl
  | cons d rest ih =>
    unfold absorb
    split
    · rw [ih,totalCons,Nat.add_assoc]
    · rfl

theorem absorbWide {c : Cell α} {rest : List (Cell α)} (wide : Wide gap (c::rest)) :
    Wide gap ((absorb c rest).1::(absorb c rest).2) := by
  induction rest generalizing c with
  | nil => exact wide
  | cons d rest ih =>
    obtain ⟨first,rests⟩ := List.forall_mem_cons.mp wide
    unfold absorb
    split
    · exact ih (List.forall_mem_cons.mpr ⟨Nat.le_add_right_of_le first,(List.forall_mem_cons.mp rests).2⟩)
    · exact wide

theorem placedInside {x : Nat} {c : Cell α} (member : (x,c) ∈ placed p cells) :
    c ∈ cells ∧ p ≤ x ∧ x + c.size ≤ p + total cells := by
  induction cells generalizing p with
  | nil => contradiction
  | cons d rest ih =>
    rw [totalCons]
    rcases List.mem_cons.mp member with same | old
    · cases same
      exact ⟨List.mem_cons_self,by omega,by omega⟩
    · obtain ⟨inside,low,high⟩ := ih old
      exact ⟨List.mem_cons_of_mem _ inside,by omega,by omega⟩

theorem placedAt (p : Nat) {c : Cell α} (member : c ∈ cells) : ∃ x, (x,c) ∈ placed p cells := by
  induction cells generalizing p with
  | nil => contradiction
  | cons d rest ih =>
    rcases List.mem_cons.mp member with rfl | old
    · exact ⟨p,List.mem_cons_self⟩
    · obtain ⟨x,place⟩ := ih (p + d.size) old
      exact ⟨x,List.mem_cons_of_mem _ place⟩

theorem placedOrder (p : Nat) (cells : List (Cell α)) :
    (placed p cells).Pairwise (fun u v => u.1 + u.2.size ≤ v.1) := by
  induction cells generalizing p with
  | nil => exact .nil
  | cons c rest ih => exact .cons (fun u member => (placedInside member).2.1) (ih _)

theorem placedApart {x y : Nat} {c d : Cell α} (left : (x,c) ∈ placed p cells) (right : (y,d) ∈ placed p cells) :
    (x,c) = (y,d) ∨ x + c.size ≤ y ∨ y + d.size ≤ x := by
  induction cells generalizing p with
  | nil => contradiction
  | cons e rest ih =>
    rcases List.mem_cons.mp left with here | left <;> rcases List.mem_cons.mp right with there | right
    · exact .inl (here.trans there.symm)
    · cases here
      exact .inr (.inl (placedInside right).2.1)
    · cases there
      exact .inr (.inr (placedInside left).2.1)
    · exact ih left right

theorem placedChain {size : Nat → Nat} (sizes : ∀ x c, (x,c) ∈ placed p cells → size x = c.size) :
    ((placed p cells).map Prod.fst).IsChain (fun x y => y = x + size x) := by
  induction cells generalizing p with
  | nil => exact .nil
  | cons c rest ih =>
    have own := sizes p c List.mem_cons_self
    have later := ih (fun x d member => sizes x d (List.mem_cons_of_mem _ member))
    cases rest with
    | nil => exact List.isChain_singleton _
    | cons d more => exact List.isChain_cons_cons.mpr ⟨by rw [own],later⟩

theorem placedTotal (p : Nat) (cells : List (Cell α)) :
    ((placed p cells).map (fun u => u.2.size)).sum = total cells := by
  induction cells generalizing p with
  | nil => rfl
  | cons c rest ih => rw [placed,List.map_cons,List.sum_cons,ih,totalCons]

theorem usersPlaced : (q,a) ∈ users p cells ↔ ∃ c, (q,c) ∈ placed p cells ∧ c.user = some a := by
  induction cells generalizing p with
  | nil => simp [users,placed]
  | cons c rest ih =>
    cases used : c.user with
    | none =>
      rw [usersFree used,ih,placed]
      constructor
      · rintro ⟨d,member,user⟩
        exact ⟨d,List.mem_cons_of_mem _ member,user⟩
      · rintro ⟨d,member,user⟩
        rcases List.mem_cons.mp member with same | old
        · cases same
          rw [used] at user
          contradiction
        · exact ⟨d,old,user⟩
    | some b =>
      rw [usersUsed used,List.mem_cons,ih,placed]
      constructor
      · rintro (same | ⟨d,member,user⟩)
        · cases same
          exact ⟨c,List.mem_cons_self,used⟩
        · exact ⟨d,List.mem_cons_of_mem _ member,user⟩
      · rintro ⟨d,member,user⟩
        rcases List.mem_cons.mp member with same | old
        · cases same
          cases used.symm.trans user
          exact .inl rfl
        · exact .inr ⟨d,old,user⟩

theorem lengthBound (positive : 0 < gap) (wide : Wide gap cells) : cells.length ≤ total cells := by
  induction cells with
  | nil => exact Nat.le_refl _
  | cons c rest ih =>
    obtain ⟨first,rests⟩ := List.forall_mem_cons.mp wide
    have later := ih rests
    rw [List.length_cons,totalCons]
    omega

theorem allocateNone {need : Nat} :
    allocate gap need a p cells = none ↔ ∀ c ∈ cells, c.user = none → c.size < need := by
  induction cells generalizing p with
  | nil => simp [allocate]
  | cons c rest ih =>
    rw [List.forall_mem_cons,allocate]
    by_cases fits : c.user = none ∧ need ≤ c.size
    · rw [if_pos fits]
      constructor
      · intro none_
        split at none_
        · contradiction
        · contradiction
      · rintro ⟨small,-⟩
        exact absurd (small fits.1) (Nat.not_lt.mpr fits.2)
    · rw [if_neg fits,Option.map_eq_none_iff,ih]
      refine ⟨fun rests => ⟨fun free => ?_,rests⟩,fun both => both.2⟩
      exact Nat.lt_of_not_le (fun large => fits ⟨free,large⟩)

theorem allocateTaken {need : Nat} (took : allocate gap need a p cells = some (q,cells')) :
    ∃ c c', (q,c) ∈ placed p cells ∧ c.user = none ∧ need ≤ c.size ∧
      (q,c') ∈ placed p cells' ∧ c'.user = some a ∧ need ≤ c'.size ∧ c'.size ≤ c.size := by
  refine allocateCases (P := fun p cells q cells' =>
    ∃ c c', (q,c) ∈ placed p cells ∧ c.user = none ∧ need ≤ c.size ∧
      (q,c') ∈ placed p cells' ∧ c'.user = some a ∧ need ≤ c'.size ∧ c'.size ≤ c.size) ?_ ?_ ?_ took
  · intro p c rest free fits tight
    exact ⟨c,_,List.mem_cons_self,free,fits,List.mem_cons_self,rfl,fits,Nat.le_refl _⟩
  · intro p c rest free loose
    exact ⟨c,_,List.mem_cons_self,free,by omega,List.mem_cons_self,rfl,Nat.le_refl need,show need ≤ c.size by omega⟩
  · intro p c rest q rest' short ih
    obtain ⟨d,d',old,free,fits,new,user,enough,within⟩ := ih
    exact ⟨d,d',List.mem_cons_of_mem _ old,free,fits,List.mem_cons_of_mem _ new,user,enough,within⟩

theorem allocateFirst {need : Nat} (took : allocate gap need a p cells = some (q,cells')) :
    ∀ x d, (x,d) ∈ placed p cells → d.user = none → need ≤ d.size → q ≤ x := by
  refine allocateCases (P := fun p cells q _ =>
    ∀ x d, (x,d) ∈ placed p cells → d.user = none → need ≤ d.size → q ≤ x) ?_ ?_ ?_ took
  · intro p c rest free fits tight x d member _ _
    exact (placedInside member).2.1
  · intro p c rest free loose x d member _ _
    exact (placedInside member).2.1
  · intro p c rest q rest' short ih x d member free fits
    rcases List.mem_cons.mp member with same | later
    · cases same
      exact absurd ⟨free,fits⟩ short
    · exact ih x d later free fits

end

end Avros.Tiling
