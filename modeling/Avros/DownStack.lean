import Mathlib.Data.Nat.ModEq
import Mathlib.Logic.Function.Basic

/-! A stack that grows down in a memory of m cells, whose addresses wrap around. The stack
pointer is the address of the first free cell below. -/
namespace Avros.DownStack

variable {α : Type} {m : Nat} {mem : Nat → α} {sp a j k : Nat} {l l' : List α} {v : α}

-- What stands above the stack pointer, the last value pushed first.
def Above (m : Nat) (mem : Nat → α) (sp : Nat) (l : List α) : Prop :=
  ∀ k v, l[k]? = some v → mem ((sp + 1 + k) % m) = v

theorem aboveNil (m : Nat) (mem : Nat → α) (sp : Nat) : Above m mem sp [] := by
  intro k v found
  simp at found

theorem aboveMod : Above m mem (sp % m) l ↔ Above m mem sp l := by
  have same : ∀ k, (sp % m + 1 + k) % m = (sp + 1 + k) % m := by
    intro k
    rw [Nat.add_assoc,Nat.mod_add_mod,Nat.add_assoc]
  simp only [Above,same]

theorem aboveCons : Above m mem sp (v::l) ↔ mem ((sp + 1) % m) = v ∧ Above m mem ((sp + 1) % m) l := by
  rw [aboveMod]
  constructor
  · intro above
    refine ⟨above 0 v rfl,fun k w found => ?_⟩
    have next := above (k + 1) w found
    rwa [← Nat.add_assoc,Nat.add_right_comm (sp + 1)] at next
  · rintro ⟨first,rest⟩ k w found
    cases k with
    | zero =>
      cases Option.some.inj found
      exact first
    | succ k =>
      rw [← Nat.add_assoc,Nat.add_right_comm (sp + 1)]
      exact rest k w found

theorem aboveAppend : Above m mem sp (l ++ l') ↔ Above m mem sp l ∧ Above m mem ((sp + l.length) % m) l' := by
  rw [aboveMod]
  induction l generalizing sp with
  | nil => simp [aboveNil]
  | cons v l ih =>
    rw [List.cons_append,aboveCons,aboveCons,aboveMod,aboveMod,ih,and_assoc,List.length_cons]
    rw [Nat.add_assoc sp 1,Nat.add_comm 1]

theorem aboveCells (m : Nat) (mem : Nat → α) (sp n : Nat) :
    Above m mem sp ((List.range n).map fun k => mem ((sp + 1 + k) % m)) := by
  intro k v found
  rw [List.getElem?_map] at found
  obtain ⟨j,there,rfl⟩ := Option.map_eq_some_iff.mp found
  obtain ⟨inside,rfl⟩ := List.getElem?_eq_some_iff.mp there
  rw [List.getElem_range]

theorem Above.same (above : Above m mem sp l) {mem' : Nat → α}
    (cells : ∀ k < l.length, mem' ((sp + 1 + k) % m) = mem ((sp + 1 + k) % m)) : Above m mem' sp l := by
  intro k v found
  rw [cells k (List.getElem?_eq_some_iff.mp found).1]
  exact above k v found

theorem cellsApart (inside : j < m) (inside' : k < m) (same : (a + j) % m = (a + k) % m) : j = k :=
  Nat.ModEq.eq_of_lt_of_lt (Nat.ModEq.add_left_cancel' a same) inside inside'

theorem Above.pushed (above : Above m mem sp l) (short : l.length < m) (inside : sp < m) (v : α) :
    Above m (Function.update mem sp v) ((sp + (m - 1)) % m) (v::l) := by
  have back : ((sp + (m - 1)) % m + 1) % m = sp := by
    rw [Nat.mod_add_mod,Nat.add_assoc,Nat.sub_add_cancel (by omega),Nat.add_mod_right,Nat.mod_eq_of_lt inside]
  rw [aboveCons,back]
  refine ⟨Function.update_self ..,above.same fun k few => Function.update_of_ne ?_ _ _⟩
  intro same
  rw [Nat.add_assoc] at same
  have near : 1 + k = 0 := cellsApart (by omega) (by omega) (same.trans (Nat.mod_eq_of_lt inside).symm)
  omega

theorem Above.stored (above : Above m mem sp l) (short : l.length ≤ m) (own : k < m) (v : α) :
    Above m (Function.update mem ((sp + 1 + k) % m) v) sp (l.set k v) := by
  intro j w found
  by_cases here : k = j
  · subst here
    obtain ⟨inside,same⟩ := List.getElem?_eq_some_iff.mp found
    rw [Function.update_self,← same,List.getElem_set_self]
  · rw [List.getElem?_set_ne here] at found
    have inside := (List.getElem?_eq_some_iff.mp found).1
    have apart : (sp + 1 + j) % m ≠ (sp + 1 + k) % m := fun same => here (cellsApart (by omega) own same).symm
    rw [Function.update_of_ne apart]
    exact above j w found

/-! The part of a stack between its pointer and an address `top`. -/

structure Stacked (m top : Nat) (mem : Nat → α) (sp : Nat) (l : List α) : Prop where
  inside : sp < m
  place : (sp + l.length) % m = top
  above : Above m mem sp l

variable {top : Nat}

theorem stackedNil (inside : sp < m) (mem : Nat → α) : Stacked m sp mem sp [] :=
  ⟨inside,Nat.mod_eq_of_lt inside,aboveNil m mem sp⟩

theorem Stacked.pushed (stacked : Stacked m top mem sp l) (short : l.length < m) (v : α) :
    Stacked m top (Function.update mem sp v) ((sp + (m - 1)) % m) (v::l) := by
  obtain ⟨inside,place,above⟩ := stacked
  refine ⟨Nat.mod_lt _ (Nat.zero_lt_of_lt short),?_,above.pushed short inside v⟩
  have same : sp + (m - 1) + (l.length + 1) = sp + l.length + m := by omega
  rw [List.length_cons,Nat.mod_add_mod,same,Nat.add_mod_right,place]

theorem Stacked.popped (stacked : Stacked m top mem sp (v::l)) :
    mem ((sp + 1) % m) = v ∧ Stacked m top mem ((sp + 1) % m) l := by
  obtain ⟨inside,place,above⟩ := stacked
  obtain ⟨first,rest⟩ := aboveCons.mp above
  refine ⟨first,Nat.mod_lt _ (Nat.zero_lt_of_lt inside),?_,rest⟩
  rw [Nat.mod_add_mod,Nat.add_assoc,Nat.add_comm 1]
  exact place

theorem Stacked.empty (stacked : Stacked m top mem sp []) : sp = top :=
  (Nat.mod_eq_of_lt stacked.inside).symm.trans stacked.place

theorem Stacked.lowered (stacked : Stacked m top mem sp l) {n : Nat} (room : n ≤ m) (count : l'.length = n)
    (cells : Above m mem ((sp + (m - n)) % m) l') : Stacked m top mem ((sp + (m - n)) % m) (l' ++ l) := by
  obtain ⟨inside,place,above⟩ := stacked
  have back : ((sp + (m - n)) % m + l'.length) % m = sp := by
    rw [count,Nat.mod_add_mod,Nat.add_assoc,Nat.sub_add_cancel room,Nat.add_mod_right,Nat.mod_eq_of_lt inside]
  refine ⟨Nat.mod_lt _ (Nat.zero_lt_of_lt inside),?_,aboveAppend.mpr ⟨cells,by rwa [back]⟩⟩
  rw [List.length_append,← Nat.add_assoc,← Nat.mod_add_mod,back,place]

theorem Stacked.stored (stacked : Stacked m top mem sp l) (short : l.length ≤ m) (own : k < m) (v : α) :
    Stacked m top (Function.update mem ((sp + 1 + k) % m) v) sp (l.set k v) :=
  ⟨stacked.inside,by rw [List.length_set]; exact stacked.place,stacked.above.stored short own v⟩

/-! Stretches of the memory, each the n cells above an address. -/

def Apart (m sp n sp' n' : Nat) : Prop := ∀ j < n, ∀ k < n', (sp + 1 + j) % m ≠ (sp' + 1 + k) % m

def Within (m : Nat) (sp n : Nat) (mem mem' : Nat → α) : Prop :=
  ∀ a, (∀ k < n, a ≠ (sp + 1 + k) % m) → mem' a = mem a

variable {n n' sp' : Nat} {mem' mem'' : Nat → α}

theorem Apart.symm (apart : Apart m sp n sp' n') : Apart m sp' n' sp n :=
  fun j inside k inside' same => apart k inside' j inside same.symm

theorem Apart.part {d k : Nat} (apart : Apart m sp n sp' n') (inside : d + k ≤ n) (place : (sp + d) % m = a % m) :
    Apart m a k sp' n' := by
  intro j low j' low' same
  have cell : (a + 1 + j) % m = (sp + 1 + (d + j)) % m := by
    rw [Nat.add_assoc a,← Nat.mod_add_mod,← place,Nat.mod_add_mod]
    congr 1
    omega
  exact apart (d + j) (by omega) j' low' (cell.symm.trans same)

theorem Within.trans (first : Within m sp n mem mem') (next : Within m sp n mem' mem'') : Within m sp n mem mem'' :=
  fun a out => (next a out).trans (first a out)

theorem withinStore {k : Nat} (inside : k < n) (mem : Nat → α) (v : α) :
    Within m sp n mem (Function.update mem ((sp + 1 + k) % m) v) :=
  fun _ out => Function.update_of_ne (out k inside) _ _

theorem Within.cell (within : Within m sp n mem mem') (apart : Apart m sp n sp' n') (inside : k < n') :
    mem' ((sp' + 1 + k) % m) = mem ((sp' + 1 + k) % m) :=
  within _ fun j low same => apart j low k inside same.symm

theorem Above.within (above : Above m mem sp' l) (within : Within m sp n mem mem')
    (apart : Apart m sp n sp' l.length) : Above m mem' sp' l :=
  above.same fun _ inside => within.cell apart inside

end Avros.DownStack
