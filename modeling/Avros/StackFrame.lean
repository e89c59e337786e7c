import Mathlib.Logic.Function.Basic

/-! `kernel/kernel.c`, do_allocatestack() and do_setuptask(): the stack of a new task, and the
context that it starts from. A pointer and a size have two bytes. -/
namespace Avros.StackFrame

-- The fields of cpu_context_t.
inductive Field where
  | r (k : Nat)
  | rSREG
  | retHigh
  | retLow
  deriving DecidableEq, Repr

-- They are packed, in this order.
def cpuContext : List Field := (List.range 31).map .r ++ [.rSREG,.r 31,.retHigh,.retLow]

def offset (f : Field) : Nat := cpuContext.idxOf f

-- sizeof(cpu_context_t), and that of a function's address.
def contextSize : Nat := cpuContext.length
def addressSize : Nat := 2

def low (val : Nat) : Nat := val % 256
def high (val : Nat) : Nat := val / 256 % 256

-- The pointers of a task_t, the memory, and every address that has been stored at.
structure Task where
  mem : Nat → Nat
  stores : List Nat
  sb : Nat
  sp : Nat

def pointer (a : Nat) : Nat := a % 65536

def Task.store (t : Task) (a val : Nat) : Task :=
  { t with mem := Function.update t.mem a val, stores := t.stores ++ [a] }

def doPushstack (t : Task) (val : Nat) : Task :=
  let t := t.store t.sp val
  { t with sp := pointer (t.sp + 65535) }

-- What is asked of malloc(): "cpu_context + exit fn" more than the task wants.
def allocated (size : Nat) : Nat := (size + (contextSize + addressSize)) % 65536

def doAllocatestack (malloc : Nat → Nat) (t : Task) (size : Nat) : Task :=
  if size = 0 then t
  else
    let t := { t with sb := malloc (allocated size) }
    if t.sb ≠ 0 then { t with sp := pointer (t.sb + allocated size + 65535) } else t

-- `task->sp + 1`
def Task.ctxt (t : Task) : Nat := pointer (t.sp + 1)

def Task.setField (t : Task) (f : Field) (val : Nat) : Task := t.store (pointer (t.ctxt + offset f)) val

-- A function is its address; there is no exitfn at 0.
def doSetuptask (t : Task) (exittask tp args exitfn : Nat) : Task :=
  let t := doPushstack (doPushstack t (low exittask)) (high exittask)
  let t := if exitfn ≠ 0 then doPushstack (doPushstack t (low exitfn)) (high exitfn) else t
  let t := { t with sp := pointer (t.sp + (65536 - contextSize)) }
  ((((t.setField (.r 24) (low args)).setField (.r 25) (high args)).setField .retLow (low tp)).setField .retHigh
    (high tp)).setField (.r 1) 0

-- What malloc() may answer: a block that ends inside the memory, but not at 0.
def Block (sb size : Nat) : Prop := 0 < sb ∧ sb + size ≤ 65536

/- Whatever block the stack gets: nothing is stored outside of it, and the task has as much of it
as it asked for below its first frame. -/
def Fits (size exitfn : Nat) : Prop :=
  ∀ (malloc : Nat → Nat) (t : Task) (exittask tp args : Nat), Block (malloc (allocated size)) (allocated size) →
    let s := doSetuptask (doAllocatestack malloc { t with stores := [] } size) exittask tp args exitfn
    (∀ a ∈ s.stores, s.sb ≤ a ∧ a < s.sb + allocated size) ∧
      s.sb + size ≤ min s.ctxt (s.sb + allocated size)

section
variable {t : Task} {size exitfn : Nat} {malloc : Nat → Nat}

theorem contextOffsets : contextSize = 35 ∧ offset (.r 1) = 1 ∧ offset (.r 24) = 24 ∧ offset (.r 25) = 25 ∧
    offset .retHigh = 33 ∧ offset .retLow = 34 := by decide

@[simp] theorem storeSb (t : Task) (a val : Nat) : (t.store a val).sb = t.sb := rfl
@[simp] theorem storeSp (t : Task) (a val : Nat) : (t.store a val).sp = t.sp := rfl
@[simp] theorem storeStores (t : Task) (a val : Nat) : (t.store a val).stores = t.stores ++ [a] := rfl
@[simp] theorem pushSb (t : Task) (val : Nat) : (doPushstack t val).sb = t.sb := rfl
@[simp] theorem pushSp (t : Task) (val : Nat) : (doPushstack t val).sp = pointer (t.sp + 65535) := rfl
@[simp] theorem pushStores (t : Task) (val : Nat) : (doPushstack t val).stores = t.stores ++ [t.sp] := rfl
@[simp] theorem fieldSb (t : Task) (f : Field) (val : Nat) : (t.setField f val).sb = t.sb := rfl
@[simp] theorem fieldSp (t : Task) (f : Field) (val : Nat) : (t.setField f val).sp = t.sp := rfl
@[simp] theorem fieldStores (t : Task) (f : Field) (val : Nat) :
    (t.setField f val).stores = t.stores ++ [pointer (t.ctxt + offset f)] := rfl

theorem allocatedTask (real : 0 < size) (block : 0 < malloc (allocated size)) : doAllocatestack malloc t size =
    ⟨t.mem,t.stores,malloc (allocated size),pointer (malloc (allocated size) + allocated size + 65535)⟩ := by
  rw [doAllocatestack,if_neg (by omega)]
  exact if_pos (Nat.ne_of_gt block)

theorem setupOne (mem : Nat → Nat) (stores : List Nat) (sb sp exittask tp args base : Nat)
    (same : pointer (sp + 131036) = base) :
    let s := doSetuptask ⟨mem,stores,sb,sp⟩ exittask tp args 0
    s.sb = sb ∧ s.ctxt = base ∧ s.stores = stores ++ [sp,pointer (sp + 65535),pointer (base + 24),pointer (base + 25),
      pointer (base + 34),pointer (base + 33),pointer (base + 1)] := by
  obtain ⟨size,r1,r24,r25,retHigh,retLow⟩ := contextOffsets
  have start : pointer (pointer (pointer (pointer (sp + 65535) + 65535) + (65536 - 35)) + 1) = base := by
    rw [← same]
    unfold pointer
    omega
  simp [doSetuptask,Task.ctxt,size,r1,r24,r25,retHigh,retLow,start]

theorem setupTwo (some_ : exitfn ≠ 0) (mem : Nat → Nat) (stores : List Nat) (sb sp exittask tp args : Nat) :
    let s := doSetuptask ⟨mem,stores,sb,sp⟩ exittask tp args exitfn
    s.sb = sb ∧ s.ctxt = pointer (sp + 131034) := by
  have start : pointer (pointer (pointer (pointer (pointer (pointer (sp + 65535) + 65535) + 65535) + 65535) +
      (65536 - 35)) + 1) = pointer (sp + 131034) := by
    unfold pointer
    omega
  simp [doSetuptask,some_,Task.ctxt,contextOffsets.1,start]

theorem fitsOnly (real : 0 < size) (range : size < 65536) (fits : Fits size exitfn) : exitfn = 0 ∧ size + 37 < 65536 := by
  have block : Block 1 (allocated size) := by
    unfold Block allocated
    omega
  have whole : allocated size = (size + 37) % 65536 := by rw [allocated,contextOffsets.1,addressSize]
  obtain ⟨-,room⟩ := fits (fun _ => 1) ⟨fun _ => 0,[],0,0⟩ 0 0 0 block
  rw [allocatedTask real block.1] at room
  by_cases none_ : exitfn = 0
  · subst none_
    obtain ⟨sb,ctxt,-⟩ := setupOne (fun _ => 0) [] 1 (pointer (1 + allocated size + 65535)) 0 0 0 _ rfl
    rw [sb,ctxt,whole] at room
    unfold pointer at room
    exact ⟨rfl,by omega⟩
  · obtain ⟨sb,ctxt⟩ := setupTwo none_ (fun _ => 0) [] 1 (pointer (1 + allocated size + 65535)) 0 0 0
    rw [sb,ctxt,whole] at room
    unfold pointer at room
    omega

/-- A new task has the stack that it asked for exactly when it has no exit function and the
size with the context fits in two bytes. -/
theorem stackFits (real : 0 < size) (range : size < 65536) : Fits size exitfn ↔ exitfn = 0 ∧ size + 37 < 65536 := by
  refine ⟨fitsOnly real range,?_⟩
  rintro ⟨rfl,short⟩ malloc t exittask tp args ⟨positive,inside⟩
  have whole : allocated size = size + 37 := by
    rw [allocated,contextOffsets.1,addressSize,Nat.mod_eq_of_lt (by omega)]
  have start : doAllocatestack malloc { t with stores := [] } size = _ := allocatedTask real positive
  rw [whole] at start positive inside
  generalize malloc (size + 37) = sb at start positive inside
  -- The first frame begins where the stack of the task ends.
  have base : pointer (pointer (sb + (size + 37) + 65535) + 131036) = sb + size := by
    unfold pointer
    omega
  obtain ⟨block,ctxt,stores⟩ := setupOne t.mem [] sb _ exittask tp args _ base
  rw [start,whole]
  refine ⟨fun a member => ?_,by rw [block,ctxt]; omega⟩
  rw [stores] at member
  rw [block]
  unfold pointer at member
  simp only [List.nil_append,List.mem_cons,List.not_mem_nil,or_false] at member
  omega

end

-- A stack of 200 bytes, without an exit function.
theorem stackFitsPlain : Fits 200 0 := (stackFits (by decide) (by decide)).mpr (by decide)

-- With one, two bytes are missing.
theorem exitShort : ¬ Fits 200 1000 := fun fits => absurd (fitsOnly (by decide) (by decide) fits).1 (by decide)

end Avros.StackFrame
