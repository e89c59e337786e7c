import Avros.ContextSwitch
import Avros.Run

/-! `kernel/hal.c` and the switches of `kernel/kernel.c`: one register file, which the kernel and
its tasks have in turn. Whoever is not at work has his context on top of his stack. -/
namespace Avros.StackFrame
open DownStack Run

-- Bit 7 of SREG
def enabled (sreg : Nat) : Prop := sreg / 128 % 2 = 1

instance (sreg : Nat) : Decidable (enabled sreg) := inferInstanceAs (Decidable (_ = _))

def Cpu.cli (c : Cpu) : Cpu := { c with sreg := c.sreg % 128 }
def Cpu.sei (c : Cpu) : Cpu := { c with sreg := c.sreg % 128 + 128 }
def Cpu.ldi (c : Cpu) (r v : Nat) : Cpu := { c with reg := Function.update c.reg r v }

-- What a CALL, or an interrupt, leaves on the stack.
def Cpu.call (c : Cpu) (back : Nat) : Cpu := { c with
  mem := Function.update (Function.update c.mem c.sp (low back)) (pointer (c.sp + 65535)) (high back)
  sp := pointer (pointer (c.sp + 65535) + 65535) }

-- KERNEL_CALL, as far as the trap; `back` is the address behind it.
def Cpu.kernelCall (c : Cpu) (code back : Nat) : Cpu := ((step c (.push 16)).ldi 16 code).call back

/- SWITCH_TO_KERNEL. The store to eventcode goes through r24 and r25. -/
def Cpu.announce (c : Cpu) (x : Nat) : Cpu :=
  run (((run c.cli [.push 24,.push 25]).ldi 24 (low x)).ldi 25 (high x)) [.pop 25,.pop 24]

-- What the compiled code of a switch leaves in the registers before the context is restored.
structure Scratch where
  reg : Nat → Nat
  sreg : Nat

-- From SET_SP() to the return.
def Cpu.resumes (c : Cpu) (x : Scratch) (sp : Nat) : Cpu := (run ⟨x.reg,x.sreg,sp,c.pc,c.mem⟩ restoreContext).returns

abbrev Owner := Option Nat

/- `running` and `kept` are stored nowhere: who is at work, and how many cells from its stack
pointer on a stack holds for an owner who is not. -/
structure Machine where
  cpu : Cpu
  eventcode : Nat
  kernelSp : Nat
  sp : Nat → Nat
  irqdis : Nat → Bool
  current : Nat
  running : Owner
  kept : Owner → Option Nat

def Machine.spOf (m : Machine) : Owner → Nat
  | none => m.kernelSp
  | some p => m.sp p

def switchtokernel (m : Machine) (x : Scratch) : Machine :=
  let c := run m.cpu saveContext
  { m with cpu := c.resumes x m.kernelSp, sp := Function.update m.sp m.current c.sp }

def switchFromKernel (m : Machine) (x : Scratch) : Machine :=
  let c := run m.cpu saveContext
  let d := c.resumes x (m.sp m.current)
  { m with kernelSp := c.sp, cpu := if m.irqdis m.current then d else d.sei }

def switchToKernel (m : Machine) (event : Nat) (x : Scratch) : Machine :=
  switchtokernel { m with cpu := m.cpu.announce event, eventcode := event } x

def swtrap (m : Machine) (x : Scratch) : Machine := switchToKernel m 0 x

-- The handlers of all interrupts; the hardware has cleared the flag.
def isr (m : Machine) (event : Nat) (x : Scratch) : Machine :=
  switchToKernel { m with cpu := (m.cpu.call m.cpu.pc).cli } event x

-- `GET_CTXT(p)->f = v`
def Machine.setField (m : Machine) (p : Nat) (f : Field) (v : Nat) : Machine :=
  { m with cpu := { m.cpu with mem := Function.update m.cpu.mem (pointer (pointer (m.sp p + 1) + offset f)) v } }

def Machine.setp0 (m : Machine) (p v : Nat) : Machine := (m.setField p (.r 25) (high v)).setField p (.r 24) (low v)
def Machine.setKcallcode (m : Machine) (p code : Nat) : Machine := m.setField p (.r 16) code

def Machine.setuptask (m : Machine) (p exittask tp args exitfn : Nat) : Machine :=
  let t := doSetuptask ⟨m.cpu.mem,[],0,m.sp p⟩ exittask tp args exitfn
  { m with cpu := { m.cpu with mem := t.mem }, sp := Function.update m.sp p t.sp }

structure View where
  reg : Nat → Nat
  sreg : Nat
  sp : Nat
  pc : Nat
  stack : List Nat

/- What the kernel and the tasks do, one after the other. The list of a switch is the stack of
the one who gives up his turn; `found` is what the memory of a new stack holds. -/
inductive Move where
  | compute (c : Cpu)
  | kcall (code back : Nat) (stack : List Nat) (x : Scratch)
  | interrupt (event : Nat) (stack : List Nat) (x : Scratch)
  | dispatch (back : Nat) (stack : List Nat) (x : Scratch)
  | setp0 (p v : Nat)
  | setKcallcode (p code : Nat)
  | setuptask (p exittask tp args exitfn : Nat) (found : View)
  | allocatestack (p top : Nat)
  | freestack (p : Nat)
  | schedule (p : Nat)
  | flags (irqdis : Bool)

def Machine.turns (m : Machine) (o next : Owner) (n : Nat) : Machine :=
  { m with running := next, kept := Function.update (Function.update m.kept o (some n)) next none }

def Machine.move (m : Machine) : Move → Machine
  | .compute c => { m with cpu := c }
  | .kcall code back stack x =>
    (swtrap { m with cpu := m.cpu.kernelCall code back } x).turns (some m.current) none (36 + stack.length)
  | .interrupt event stack x => (isr m event x).turns (some m.current) none (35 + stack.length)
  | .dispatch back stack x =>
    (switchFromKernel { m with cpu := m.cpu.call back } x).turns none (some m.current) (35 + stack.length)
  | .setp0 p v => m.setp0 p v
  | .setKcallcode p code => m.setKcallcode p code
  | .setuptask p exittask tp args exitfn _ => { m.setuptask p exittask tp args exitfn with
      kept := Function.update m.kept (some p) (some (35 + (exitsTo exittask exitfn).length)) }
  | .allocatestack p top => { m with sp := Function.update m.sp p top }
  | .freestack p => { m with kept := Function.update m.kept (some p) none }
  | .schedule p => { m with current := p }
  | .flags irqdis => { m with irqdis := Function.update m.irqdis m.current irqdis }

def machine : Step Machine Move Move := fun m i => some (m.move i,[i])

def Machine.Free (m : Machine) (own : Owner) (sp n : Nat) : Prop :=
  ∀ o k, o ≠ own → m.kept o = some k → Apart 65536 sp n (m.spOf o) k

/- The stack of who gives up his turn, with room below for n cells more. -/
structure Leaving (m : Machine) (n : Nat) (stack : List Nat) : Prop where
  above : Above 65536 m.cpu.mem m.cpu.sp stack
  short : n + stack.length ≤ 65536
  free : m.Free m.running ((m.cpu.sp + (65536 - n)) % 65536) (n + stack.length)

structure Fresh (m : Machine) (p exittask tp args exitfn : Nat) (found : View) : Prop where
  none_ : m.kept (some p) = none
  sp : found.sp = m.sp p ∧ m.sp p < 65536
  words : exittask < 65536 ∧ tp < 65536 ∧ args < 65536 ∧ exitfn < 65536
  cells : let t := doSetuptask ⟨m.cpu.mem,[],0,m.sp p⟩ exittask tp args exitfn
    (∀ k < 32, k ≠ 1 → k ≠ 24 → k ≠ 25 → found.reg k = field t.mem t.ctxt (.r k)) ∧
      found.sreg = field t.mem t.ctxt .rSREG
  free : let t := doSetuptask ⟨m.cpu.mem,[],0,m.sp p⟩ exittask tp args exitfn
    m.Free (some p) t.sp (35 + (exitsTo exittask exitfn).length)

/- Nobody writes into what a stack holds for another, a task is interrupted only while its flag
is set, and the kernel never sets its own. -/
def Legal (m : Machine) : Move → Prop
  | .compute c => c.sp < 65536 ∧ (m.running = none → ¬ enabled c.sreg) ∧
      ∀ o k, m.kept o = some k → ∀ j < k, c.mem ((m.spOf o + 1 + j) % 65536) = m.cpu.mem ((m.spOf o + 1 + j) % 65536)
  | .kcall _ back stack _ => m.running ≠ none ∧ back < 65536 ∧ Leaving m 36 stack
  | .interrupt _ stack _ => m.running ≠ none ∧ enabled m.cpu.sreg ∧ m.cpu.pc < 65536 ∧ Leaving m 35 stack
  | .dispatch back stack _ => m.running = none ∧ (m.kept (some m.current)).isSome ∧ back < 65536 ∧ Leaving m 35 stack
  | .setp0 p v => m.running = none ∧ (m.kept (some p)).isSome ∧ v < 65536
  | .setKcallcode p _ => m.running = none ∧ (m.kept (some p)).isSome
  | .setuptask p exittask tp args exitfn found => m.running = none ∧ Fresh m p exittask tp args exitfn found
  | .allocatestack p top => m.running = none ∧ m.kept (some p) = none ∧ top < 65536
  | .freestack _ => m.running = none
  | .schedule _ => m.running = none
  | .flags _ => m.running = none

structure Started (m : Machine) : Prop where
  kernel : m.running = none ∧ ∀ o, m.kept o = none
  cpu : m.cpu.sp < 65536 ∧ ¬ enabled m.cpu.sreg

/-! The same, with registers and a stack for everybody -/

structure Tasks where
  view : Owner → Option View
  irqdis : Nat → Bool
  current : Nat
  running : Owner

def Cpu.view (c : Cpu) : View := ⟨c.reg,c.sreg,c.sp,c.pc,[]⟩

-- In the kernel on behalf of a call, with r16 on the stack.
def View.calls (v : View) (code back : Nat) (stack : List Nat) : View :=
  ⟨Function.update v.reg 16 code,v.sreg % 128,pointer (v.sp + 65535),back,v.reg 16::stack⟩

def View.interrupted (v : View) (stack : List Nat) : View := { v with sreg := v.sreg % 128, stack := stack }
def View.waits (v : View) (back : Nat) (stack : List Nat) : View := { v with pc := back, stack := stack }
def View.resumed (v : View) (irqdis : Bool) : View := if irqdis then v else { v with sreg := v.sreg % 128 + 128 }
def View.put (v : View) (r value : Nat) : View := { v with reg := Function.update v.reg r value }

-- Past its own stores the kernel's stack is not followed.
def View.stores (v : View) : View := { v with stack := [] }

def View.starts (found : View) (exittask tp args exitfn : Nat) : View :=
  ⟨Function.update (Function.update (Function.update found.reg 24 (low args)) 25 (high args)) 1 0,found.sreg,
    pointer (found.sp + (65536 - (exitsTo exittask exitfn).length)),tp,exitsTo exittask exitfn⟩

def Tasks.change (a : Tasks) (o : Owner) (f : View → View) : Tasks :=
  { a with view := Function.update a.view o ((a.view o).map f) }

def Tasks.put (a : Tasks) (p r value : Nat) : Tasks := (a.change none .stores).change (some p) (·.put r value)

def Tasks.move (a : Tasks) : Move → Tasks
  | .compute c => { a with view := Function.update a.view a.running (some c.view) }
  | .kcall code back stack _ => { a.change a.running (·.calls code back stack) with running := none }
  | .interrupt _ stack _ => { a.change a.running (·.interrupted stack) with running := none }
  | .dispatch back stack _ =>
    { (a.change none (·.waits back stack)).change (some a.current) (·.resumed (a.irqdis a.current)) with
      running := some a.current }
  | .setp0 p v => (a.put p 25 (high v)).put p 24 (low v)
  | .setKcallcode p code => a.put p 16 code
  | .setuptask p exittask tp args exitfn found =>
    { a with view := Function.update (a.change none .stores).view (some p) (some (found.starts exittask tp args exitfn)) }
  | .allocatestack _ _ => a
  | .freestack p => { a with view := Function.update a.view (some p) none }
  | .schedule p => { a with current := p }
  | .flags irqdis => { a with irqdis := Function.update a.irqdis a.current irqdis }

def tasks : Step Tasks Move Move := fun a i => some (a.move i,[i])

structure AtWork (c : Cpu) (v : View) : Prop where
  regs : ∀ k < 32, c.reg k = v.reg k
  sreg : c.sreg = v.sreg
  sp : c.sp = v.sp
  pc : c.pc = v.pc
  inside : c.sp < 65536
  stack : Above 65536 c.mem c.sp v.stack

def View.context (v : View) : Field → Nat
  | .r k => v.reg k
  | .rSREG => v.sreg
  | .retHigh => high v.pc
  | .retLow => low v.pc

structure Asleep (mem : Nat → Nat) (sp : Nat) (v : View) : Prop where
  inside : sp < 65536
  place : v.sp = pointer (sp + 35)
  word : v.pc < 65536
  short : 35 + v.stack.length ≤ 65536
  context : Above 65536 mem sp (cpuContext.map v.context ++ v.stack)

structure Shows (m : Machine) (a : Tasks) : Prop where
  running : a.running = m.running
  current : a.current = m.current ∧ ∀ p, m.running = some p → p = m.current
  irqdis : a.irqdis = m.irqdis
  work : ∃ v, a.view m.running = some v ∧ AtWork m.cpu v
  awake : m.kept m.running = none
  kernel : m.running ≠ none → (m.kept none).isSome
  asleep : ∀ o, o ≠ m.running → m.kept o = (a.view o).map (35 + ·.stack.length)
  contexts : ∀ o v, o ≠ m.running → a.view o = some v → Asleep m.cpu.mem (m.spOf o) v
  apart : ∀ o o' k k', o ≠ o' → m.kept o = some k → m.kept o' = some k' →
    Apart 65536 (m.spOf o) k (m.spOf o') k'
  locked : ∀ v, a.view none = some v → ¬ enabled v.sreg

section
variable {c d : Cpu} {m m' : Machine} {a : Tasks} {v w w' : View} {mem mem' : Nat → Nat} {l stack : List Nat}
  {sp s n r top back : Nat} {o next own : Owner}

theorem contextLength (g : Field → Nat) (l : List Nat) : (cpuContext.map g ++ l).length = 35 + l.length := by
  have size : cpuContext.length = 35 := contextOffsets.1
  rw [List.length_append,List.length_map,size]

structure Lowered (s n r : Nat) (mem : Nat → Nat) (c : Cpu) : Prop where
  place : c.sp = (s + r) % 65536
  left : r ≤ n
  within : Within 65536 s n mem c.mem

theorem Lowered.same (lowered : Lowered s n r mem c) (sp : d.sp = c.sp) (cells : d.mem = c.mem) : Lowered s n r mem d :=
  ⟨sp.trans lowered.place,lowered.left,cells ▸ lowered.within⟩

theorem Lowered.stored (lowered : Lowered s n (r + 1) mem c) (v : Nat) :
    Lowered s n r mem { c with mem := Function.update c.mem c.sp v, sp := pointer (c.sp + 65535) } := by
  obtain ⟨place,left,within⟩ := lowered
  refine ⟨?_,Nat.le_of_succ_le left,within.trans ?_⟩
  · dsimp only
    unfold pointer
    omega
  · dsimp only
    rw [place,Nat.add_comm r,← Nat.add_assoc]
    exact withinStore left c.mem v

theorem Lowered.pushes {ks : List Nat} (lowered : Lowered s n (r + ks.length) mem c) :
    Lowered s n r mem (run c (ks.map .push)) := by
  induction ks generalizing c with
  | nil => exact lowered
  | cons k ks ih =>
    rw [List.map_cons,runCons]
    exact ih (Lowered.stored lowered (c.reg k))

theorem Lowered.saves (lowered : Lowered s n (r + 33) mem c) : Lowered s n r mem (run c saveContext) := by
  have begun : Lowered s n (r + 31) mem (run c [.push 31,.in_ 31,.push 31]) := by
    have one := lowered.stored (c.reg 31)
    have two := one.stored c.sreg
    refine two.same ?_ ?_ <;> (cases c; rfl)
  rw [saveContext,runAppend]
  exact Lowered.pushes (by simpa using begun)

theorem Lowered.call (lowered : Lowered s n (r + 2) mem c) (back : Nat) : Lowered s n r mem (c.call back) := by
  have one := lowered.stored (StackFrame.low back)
  have two := one.stored (StackFrame.high back)
  refine two.same ?_ ?_ <;> (cases c; rfl)

theorem announceCells (c : Cpu) (x : Nat) :
    (c.announce x).sp = pointer (pointer (pointer (pointer (c.sp + 65535) + 65535) + 1) + 1) ∧
    (c.announce x).mem = Function.update (Function.update c.mem c.sp (c.reg 24)) (pointer (c.sp + 65535)) (c.reg 25) := by
  simp [Cpu.announce,Cpu.cli,Cpu.ldi,run,step]

theorem Lowered.announce (lowered : Lowered s n (r + 2) mem c) (x : Nat) :
    Lowered s n (r + 2) mem (c.announce x) := by
  have one := lowered.stored (c.reg 24)
  have two := one.stored (c.reg 25)
  obtain ⟨sp,cells⟩ := announceCells c x
  have within := two.within
  dsimp only at within
  rw [← cells] at within
  refine ⟨?_,lowered.left,within⟩
  have place := lowered.place
  rw [sp]
  unfold pointer
  omega

theorem announceRun (stacked : Stacked 65536 top c.mem c.sp l) (room : l.length + 2 ≤ 65536) (x : Nat) :
    let d := c.announce x
    d.reg = c.reg ∧ d.sreg = c.sreg % 128 ∧ Stacked 65536 top d.mem d.sp l := by
  have one := pushedOn stacked (by omega) (c.reg 24)
  have two := pushedOn one (by rw [List.length_cons]; omega) (c.reg 25)
  obtain ⟨first,rest⟩ := poppedOff two
  obtain ⟨second,rest⟩ := poppedOff rest
  obtain ⟨sp,cells⟩ := announceCells c x
  rw [← cells,← sp] at rest
  have pops : (c.announce x).reg = Function.update (Function.update (Function.update (Function.update c.reg 24 (low x)) 25
      (high x)) 25 (c.reg 25)) 24 (c.reg 24) := by
    simp only [Cpu.announce,Cpu.cli,Cpu.ldi,run,step,List.foldl_cons,List.foldl_nil,first,second]
  refine ⟨funext fun k => ?_,by simp [Cpu.announce,Cpu.cli,Cpu.ldi,run,step],rest⟩
  rw [pops]
  by_cases lowByte : k = 24
  · rw [lowByte,Function.update_self]
  · rw [Function.update_of_ne lowByte]
    by_cases highByte : k = 25
    · rw [highByte,Function.update_self]
    · rw [Function.update_of_ne highByte,Function.update_of_ne highByte,Function.update_of_ne lowByte]

structure Gave (s n : Nat) (mem : Nat → Nat) (d : Cpu) (v : View) : Prop where
  sp : d.sp = s
  within : Within 65536 s n mem d.mem
  asleep : Asleep d.mem s v

theorem contextGiven (stacked : Stacked 65536 top c.mem c.sp (high back::low back::l)) (lowered : Lowered s n 33 mem c)
    (inside : s < 65536) (word : back < 65536) (short : 35 + l.length ≤ 65536) :
    Gave s n mem (run c saveContext) ⟨c.reg,c.sreg,pointer (s + 35),back,l⟩ := by
  have saved := saveRun stacked (by simp only [List.length_cons]; omega)
  have down := Lowered.saves (r := 0) (by simpa using lowered)
  have sp : (run c saveContext).sp = s := down.place.trans (Nat.mod_eq_of_lt inside)
  have cut : cpuContext.map (View.context ⟨c.reg,c.sreg,pointer (s + 35),back,l⟩) ++ l =
      (List.range 31).map c.reg ++ c.sreg::c.reg 31::high back::low back::l := by
    rw [contextCut,List.append_assoc]
    rfl
  refine ⟨sp,down.within,inside,rfl,word,short,?_⟩
  rw [cut,← sp]
  exact saved.above

theorem trapped (stacked : Stacked 65536 top c.mem c.sp (high back::low back::l)) (lowered : Lowered s n 33 mem c)
    (inside : s < 65536) (word : back < 65536) (short : 35 + l.length ≤ 65536) (event : Nat) :
    Gave s n mem (run (c.announce event) saveContext) ⟨c.reg,c.sreg % 128,pointer (s + 35),back,l⟩ := by
  obtain ⟨reg,sreg,stacked⟩ := announceRun stacked (by simp only [List.length_cons]; omega) event
  rw [← reg,← sreg]
  exact contextGiven stacked (lowered.announce event) inside word short

theorem called (stacked : Stacked 65536 top c.mem c.sp l) (room : l.length + 2 ≤ 65536) (back : Nat) :
    Stacked 65536 top (c.call back).mem (c.call back).sp (high back::low back::l) := by
  have one := pushedOn stacked (by omega) (low back)
  exact pushedOn one (by rw [List.length_cons]; omega) (high back)

structure View.Same (v w : View) : Prop where
  regs : ∀ k < 32, v.reg k = w.reg k
  sreg : v.sreg = w.sreg
  sp : v.sp = w.sp
  pc : v.pc = w.pc
  stack : v.stack = w.stack

theorem View.Same.context (same : v.Same w) : cpuContext.map v.context = cpuContext.map w.context := by
  refine List.map_congr_left fun f' own => ?_
  cases f' with
  | r k =>
    have small : k < 32 := by
      simp only [cpuContext,List.mem_append,List.mem_map,List.mem_range,List.mem_cons,Field.r.injEq] at own
      rcases own with ⟨j,below,rfl⟩ | own
      · omega
      · simp at own
        omega
    exact same.regs k small
  | rSREG => exact same.sreg
  | retHigh => exact congrArg high same.pc
  | retLow => exact congrArg low same.pc

theorem Gave.same (gave : Gave s n mem d v) (same : v.Same w) : Gave s n mem d w := by
  obtain ⟨sp,within,inside,place,word,short,context⟩ := gave
  exact ⟨sp,within,inside,same.sp ▸ place,same.pc ▸ word,same.stack ▸ short,same.context ▸ same.stack ▸ context⟩

theorem leavesFrom (inside : c.sp < 65536) (n : Nat) (few : n ≤ 65536) :
    Lowered ((c.sp + (65536 - n)) % 65536) n n c.mem c :=
  ⟨by omega,Nat.le_refl n,fun _ _ => rfl⟩

theorem stackHeld (inside : c.sp < 65536) (above : Above 65536 c.mem c.sp stack) :
    Stacked 65536 ((c.sp + stack.length) % 65536) c.mem c.sp stack := ⟨inside,rfl,above⟩

theorem kcallGives (work : AtWork c w) (above : Above 65536 c.mem c.sp stack) (short : 36 + stack.length ≤ 65536)
    (word : back < 65536) (code event : Nat) :
    Gave ((c.sp + (65536 - 36)) % 65536) 36 c.mem (run ((c.kernelCall code back).announce event) saveContext)
      (w.calls code back stack) := by
  obtain ⟨regs,sreg,sp,-,inside,-⟩ := work
  have pushed := pushedOn (stackHeld inside above) (by omega) (c.reg 16)
  have stacked := called (c := (step c (.push 16)).ldi 16 code) pushed (by rw [List.length_cons]; omega) back
  have begun := (leavesFrom inside 36 (by decide)).stored (c.reg 16)
  have lowered := Lowered.call (c := (step c (.push 16)).ldi 16 code) (r := 33) (begun.same rfl rfl) back
  have kept : (c.kernelCall code back).reg = Function.update c.reg 16 code ∧ (c.kernelCall code back).sreg = c.sreg := by
    cases c
    exact ⟨rfl,rfl⟩
  refine (trapped stacked lowered (Nat.mod_lt _ (by decide)) word (by rw [List.length_cons]; omega) event).same ?_
  refine ⟨fun k small => ?_,?_,?_,rfl,?_⟩
  · change (c.kernelCall code back).reg k = _
    simp only [kept.1,View.calls,Function.update_apply,regs k small]
  · change (c.kernelCall code back).sreg % 128 = _
    rw [kept.2,sreg]
    rfl
  · change pointer (_ + 35) = pointer (w.sp + 65535)
    rw [← sp]
    unfold pointer
    omega
  · change c.reg 16::stack = w.reg 16::stack
    rw [regs 16 (by decide)]

theorem callKept (c : Cpu) (back : Nat) : (c.call back).reg = c.reg ∧ (c.call back).sreg = c.sreg := by
  cases c
  exact ⟨rfl,rfl⟩

theorem interruptGives (work : AtWork c w) (above : Above 65536 c.mem c.sp stack) (short : 35 + stack.length ≤ 65536)
    (word : c.pc < 65536) (event : Nat) :
    Gave ((c.sp + (65536 - 35)) % 65536) 35 c.mem (run (((c.call c.pc).cli).announce event) saveContext)
      (w.interrupted stack) := by
  obtain ⟨regs,sreg,sp,pc,inside,-⟩ := work
  have stacked := called (stackHeld inside above) (by omega) c.pc
  have lowered := Lowered.call (r := 33) (leavesFrom inside 35 (by decide)) c.pc
  have given := trapped (c := (c.call c.pc).cli) stacked (lowered.same rfl rfl) (Nat.mod_lt _ (by decide)) word short event
  obtain ⟨sameReg,sameSreg⟩ := callKept c c.pc
  refine given.same ⟨fun k small => ?_,?_,?_,pc,rfl⟩
  · change (c.call c.pc).reg k = _
    rw [sameReg]
    exact regs k small
  · change (c.call c.pc).sreg % 128 % 128 = w.sreg % 128
    rw [sameSreg,Nat.mod_mod,sreg]
  · change pointer (_ + 35) = w.sp
    rw [← sp]
    unfold pointer
    omega

theorem dispatchGives (work : AtWork c w) (above : Above 65536 c.mem c.sp stack) (short : 35 + stack.length ≤ 65536)
    (word : back < 65536) :
    Gave ((c.sp + (65536 - 35)) % 65536) 35 c.mem (run (c.call back) saveContext) (w.waits back stack) := by
  obtain ⟨regs,sreg,sp,-,inside,-⟩ := work
  have stacked := called (stackHeld inside above) (by omega) back
  have lowered := Lowered.call (r := 33) (leavesFrom inside 35 (by decide)) back
  have given := contextGiven stacked lowered (Nat.mod_lt _ (by decide)) word short
  obtain ⟨sameReg,sameSreg⟩ := callKept c back
  refine given.same ⟨fun k small => ?_,?_,?_,rfl,rfl⟩
  · change (c.call back).reg k = _
    rw [sameReg]
    exact regs k small
  · simp only [View.waits,sameSreg,sreg]
  · change pointer (_ + 35) = w.sp
    rw [← sp]
    unfold pointer
    omega

theorem popsMem (ks : List Nat) (c : Cpu) : (run c (ks.map .pop)).mem = c.mem := by
  induction ks generalizing c with
  | nil => rfl
  | cons k ks ih =>
    rw [List.map_cons,runCons,ih]
    cases c
    rfl

theorem restoreMem (c : Cpu) : (run c restoreContext).mem = c.mem := by
  rw [restoreContext,runAppend]
  refine Eq.trans ?_ (popsMem (List.range 31) c)
  generalize run c ((List.range 31).map .pop) = d
  cases d
  rfl

theorem resumesMem (c : Cpu) (x : Scratch) (sp : Nat) : (c.resumes x sp).mem = c.mem := by
  have same : (c.resumes x sp).mem = (run ⟨x.reg,x.sreg,sp,c.pc,c.mem⟩ restoreContext).mem := by
    unfold Cpu.resumes Cpu.returns
    cases run ⟨x.reg,x.sreg,sp,c.pc,c.mem⟩ restoreContext
    rfl
  rw [same,restoreMem]

theorem returnsSreg (c : Cpu) : c.returns.sreg = c.sreg := by
  cases c
  rfl

theorem Asleep.wakes (asleep : Asleep c.mem sp v) (x : Scratch) : AtWork (c.resumes x sp) v := by
  obtain ⟨inside,place,word,short,context⟩ := asleep
  have stacked : Stacked 65536 (pointer (sp + (35 + v.stack.length))) c.mem sp (cpuContext.map v.context ++ v.stack) :=
    ⟨inside,by rw [contextLength]; rfl,context⟩
  obtain ⟨regs,sreg,rest⟩ := restoreRun (c := ⟨x.reg,x.sreg,sp,c.pc,c.mem⟩) stacked
  obtain ⟨pc,rest⟩ := returnsTo word rest
  refine ⟨fun k small => ?_,?_,?_,pc,rest.inside,rest.above⟩
  · rw [Cpu.resumes,returnsReg]
    exact regs k small
  · rw [Cpu.resumes,returnsSreg]
    exact sreg
  · have top := rest.place
    have low_ := rest.inside
    rw [place]
    unfold Cpu.resumes
    unfold pointer at top ⊢
    omega

theorem Asleep.elsewhere (asleep : Asleep mem sp v) (within : Within 65536 s n mem mem')
    (apart : Apart 65536 s n sp (35 + v.stack.length)) : Asleep mem' sp v := by
  obtain ⟨inside,place,word,short,context⟩ := asleep
  exact ⟨inside,place,word,short,context.within within (by rwa [contextLength])⟩

structure Turned (m : Machine) (a : Tasks) (next : Owner) (s : Nat) (v w : View) (m' : Machine) (a' : Tasks) : Prop where
  left : a'.view m.running = some v ∧ m'.spOf m.running = s ∧ m'.kept m.running = some (35 + v.stack.length)
  taken : a'.view next = some w ∧ m'.kept next = none
  others : ∀ o, o ≠ m.running → o ≠ next → a'.view o = a.view o ∧ m'.kept o = m.kept o
  places : ∀ o, o ≠ m.running → m'.spOf o = m.spOf o
  running : m'.running = next ∧ a'.running = next
  current : m'.current = m.current ∧ a'.current = a.current
  irqdis : m'.irqdis = m.irqdis ∧ a'.irqdis = a.irqdis

theorem Gave.others (gave : Gave s n m.cpu.mem d v) (holds : Shows m a) (few : n ≤ 35 + v.stack.length)
    (free : m.Free m.running s (35 + v.stack.length)) (away : o ≠ m.running) (view : a.view o = some w) :
    Asleep d.mem (m.spOf o) w := by
  have count : m.kept o = some (35 + w.stack.length) := by
    rw [holds.asleep o away,view]
    rfl
  have apart := free o _ away count
  exact (holds.contexts o w away view).elsewhere gave.within (apart.part (d := 0) (by omega) rfl)

theorem Turned.shows {a' : Tasks} (turned : Turned m a next s v w m' a') (holds : Shows m a) (other : next ≠ m.running)
    (turn : ∀ p, next = some p → p = m.current) (gave : Gave s n m.cpu.mem d v) (few : n ≤ 35 + v.stack.length)
    (free : m.Free m.running s (35 + v.stack.length)) (work : AtWork m'.cpu w) (cells : m'.cpu.mem = d.mem)
    (own : m.running = none → ¬ enabled v.sreg) (his : next = none → ¬ enabled w.sreg) : Shows m' a' := by
  obtain ⟨⟨leftView,leftSp,leftKept⟩,⟨nextView,nextKept⟩,others,places,running,current,irqdis⟩ := turned
  refine ⟨by rw [running.1,running.2],⟨?_,fun p => ?_⟩,?_,?_,?_,fun real => ?_,fun o away => ?_,fun o u away view => ?_,
    fun o o' k k' distinct one two => ?_,fun u view => ?_⟩
  · rw [current.1,current.2,holds.current.1]
  · rw [running.1,current.1]
    exact turn p
  · rw [irqdis.1,irqdis.2,holds.irqdis]
  · rw [running.1]
    exact ⟨w,nextView,work⟩
  · rw [running.1,nextKept]
  · rw [running.1] at real
    by_cases mine : m.running = none
    · rw [← mine,leftKept]
      rfl
    · rw [(others none (Ne.symm mine) (Ne.symm real)).2]
      exact holds.kernel mine
  · rw [running.1] at away
    by_cases mine : o = m.running
    · rw [mine,leftKept,leftView]
      rfl
    · obtain ⟨sameView,sameKept⟩ := others o mine away
      rw [sameView,sameKept,holds.asleep o mine]
  · rw [running.1] at away
    rw [cells]
    by_cases mine : o = m.running
    · subst mine
      cases leftView.symm.trans view
      rw [leftSp]
      exact gave.asleep
    · obtain ⟨sameView,-⟩ := others o mine away
      rw [sameView] at view
      rw [places o mine]
      exact gave.others holds few free mine view
  · have away : ∀ {x : Owner} {j : Nat}, m'.kept x = some j → x ≠ next := by
      rintro x j found rfl
      cases nextKept.symm.trans found
    by_cases mine : o = m.running
    · have mine' : o' ≠ m.running := fun same => distinct (mine.trans same.symm)
      subst mine
      cases leftKept.symm.trans one
      rw [(others o' mine' (away two)).2] at two
      rw [leftSp,places o' mine']
      exact free o' k' mine' two
    · by_cases mine' : o' = m.running
      · subst mine'
        cases leftKept.symm.trans two
        rw [(others o mine (away one)).2] at one
        rw [leftSp,places o mine]
        exact (free o k mine one).symm
      · rw [(others o mine (away one)).2] at one
        rw [(others o' mine' (away two)).2] at two
        rw [places o mine,places o' mine']
        exact holds.apart o o' k k' distinct one two
  · by_cases mine : m.running = none
    · rw [← mine] at view
      cases leftView.symm.trans view
      exact own mine
    · by_cases kernel : next = none
      · rw [← kernel] at view
        cases nextView.symm.trans view
        exact his kernel
      · rw [(others none (Ne.symm mine) (Ne.symm kernel)).1] at view
        exact holds.locked u view

theorem changeView (a : Tasks) (o : Owner) (f : View → View) (view : a.view o = some w) :
    (a.change o f).view = Function.update a.view o (some (f w)) := by
  unfold Tasks.change
  rw [view]
  rfl

theorem Shows.running_ (holds : Shows m a) (real : m.running ≠ none) : m.running = some m.current := by
  obtain ⟨p,same⟩ := Option.ne_none_iff_exists'.mp real
  rw [same,holds.current.2 p same]

theorem Shows.entered (holds : Shows m a) (real : m.running ≠ none) (view : a.view m.running = some w) (f : View → View)
    (e : Cpu) (event : Nat) (x : Scratch) (gave : Gave s n m.cpu.mem (run e saveContext) (f w))
    (few : n ≤ 35 + (f w).stack.length) (free : m.Free m.running s (35 + (f w).stack.length)) :
    Shows ((switchtokernel { m with cpu := e, eventcode := event } x).turns (some m.current) none (35 + (f w).stack.length))
      { a.change a.running f with running := none } := by
  have own := holds.running_ real
  obtain ⟨w',view'⟩ : ∃ w', a.view none = some w' := by
    have waits := holds.kernel real
    rw [holds.asleep none (Ne.symm real),Option.isSome_map] at waits
    exact Option.isSome_iff_exists.mp waits
  have woken := (gave.others holds few free (Ne.symm real) view').wakes x
  have changed : (a.change a.running f).view = Function.update a.view m.running (some (f w)) := by
    rw [holds.running]
    exact changeView a m.running f view
  have turned : Turned m a none s (f w) w'
      ((switchtokernel { m with cpu := e, eventcode := event } x).turns (some m.current) none (35 + (f w).stack.length))
      { a.change a.running f with running := none } := by
    refine ⟨⟨?_,?_,?_⟩,⟨?_,?_⟩,fun o away kernel => ⟨?_,?_⟩,fun o away => ?_,⟨rfl,rfl⟩,⟨rfl,rfl⟩,⟨rfl,rfl⟩⟩
    · exact (congrFun changed _).trans (Function.update_self ..)
    · rw [own]
      exact (Function.update_self ..).trans gave.sp
    · simp [own,Machine.turns]
    · exact (congrFun changed _).trans ((Function.update_of_ne (Ne.symm real) ..).trans view')
    · simp [Machine.turns]
    · exact (congrFun changed _).trans (Function.update_of_ne away ..)
    · rw [own] at away
      exact (Function.update_of_ne kernel ..).trans (Function.update_of_ne away ..)
    · rw [own] at away
      cases o with
      | none => rfl
      | some p => exact Function.update_of_ne (fun same => away (congrArg some same)) ..
  refine turned.shows holds (Ne.symm real) nofun gave few free woken (resumesMem ..) (fun kernel => absurd kernel real)
    fun _ => holds.locked w' view'

-- RETI sets the flag, RET leaves it.
theorem AtWork.resumed (work : AtWork c w) (irqdis : Bool) : AtWork (if irqdis then c else c.sei) (w.resumed irqdis) := by
  cases irqdis with
  | true => exact work
  | false =>
    obtain ⟨regs,sreg,sp,pc,inside,stack⟩ := work
    exact ⟨regs,congrArg (· % 128 + 128) sreg,sp,pc,inside,stack⟩

theorem Shows.dispatched (holds : Shows m a) (kernel : m.running = none) (waits : (m.kept (some m.current)).isSome)
    (word : back < 65536) (leaving : Leaving m 35 stack) (x : Scratch) :
    Shows (m.move (.dispatch back stack x)) (a.move (.dispatch back stack x)) := by
  obtain ⟨above,short,free⟩ := leaving
  obtain ⟨v,view,work⟩ := holds.work
  have other : some m.current ≠ m.running := by
    rw [kernel]
    exact Option.some_ne_none _
  obtain ⟨w,view'⟩ : ∃ w, a.view (some m.current) = some w := by
    rw [holds.asleep _ other,Option.isSome_map] at waits
    exact Option.isSome_iff_exists.mp waits
  have gave := dispatchGives work above short word
  have woken := (gave.others holds (Nat.le_add_right ..) free other view').wakes x
  rw [kernel] at view
  have irq : a.irqdis m.current = m.irqdis m.current := by rw [holds.irqdis]
  have changed : (a.move (.dispatch back stack x)).view = Function.update (Function.update a.view none
      (some (v.waits back stack))) (some m.current) (some (w.resumed (m.irqdis m.current))) := by
    have first := changeView a none (·.waits back stack) view
    refine (changeView _ _ _ (w := w) ?_).trans ?_
    · rw [first,holds.current.1,Function.update_of_ne (Option.some_ne_none _),view']
    · rw [first,holds.current.1,irq]
  have turned : Turned m a (some m.current) ((m.cpu.sp + (65536 - 35)) % 65536) (v.waits back stack)
      (w.resumed (m.irqdis m.current)) (m.move (.dispatch back stack x)) (a.move (.dispatch back stack x)) := by
    rw [← kernel] at changed
    refine ⟨⟨?_,?_,?_⟩,⟨?_,?_⟩,fun o away kernel => ⟨?_,?_⟩,fun o away => ?_,⟨rfl,?_⟩,⟨rfl,rfl⟩,⟨rfl,rfl⟩⟩
    · rw [changed,Function.update_of_ne (Ne.symm other),Function.update_self]
    · simpa only [kernel,Machine.move,Machine.turns,switchFromKernel,Machine.spOf] using gave.sp
    · simp [kernel,Machine.move,Machine.turns,View.waits]
    · rw [changed,Function.update_self]
    · simp [Machine.move,Machine.turns]
    · rw [changed,Function.update_of_ne kernel,Function.update_of_ne away]
    · rw [‹m.running = none›] at away
      exact (Function.update_of_ne kernel ..).trans (Function.update_of_ne away ..)
    · cases o with
      | none => exact absurd kernel.symm away
      | some p => rfl
    · exact congrArg some holds.current.1
  have ran : (m.move (.dispatch back stack x)).cpu = if m.irqdis m.current then
      (run (m.cpu.call back) saveContext).resumes x (m.sp m.current)
      else ((run (m.cpu.call back) saveContext).resumes x (m.sp m.current)).sei := by
    simp only [Machine.move,Machine.turns,switchFromKernel]
  refine turned.shows holds other (fun p same => (Option.some.inj same).symm) gave (Nat.le_add_right ..) free
    ?_ ?_ (fun _ => holds.locked v view) nofun
  · rw [ran]
    exact woken.resumed (m.irqdis m.current)
  · rw [ran]
    refine Eq.trans ?_ (resumesMem _ x (m.sp m.current))
    cases m.irqdis m.current
    · rfl
    · rfl

structure Rewritten (m : Machine) (a : Tasks) (p : Nat) (v : View) (m' : Machine) (a' : Tasks) : Prop where
  cpu : ∃ mem, m'.cpu = { m.cpu with mem := mem } ∧ Within 65536 (m'.sp p) (35 + v.stack.length) m.cpu.mem mem
  asleep : Asleep m'.cpu.mem (m'.sp p) v
  kept : m'.kept (some p) = some (35 + v.stack.length)
  free : m.Free (some p) (m'.sp p) (35 + v.stack.length)
  view : a'.view = Function.update (Function.update a.view none ((a.view none).map .stores)) (some p) (some v)
  others : ∀ o, o ≠ some p → m'.kept o = m.kept o ∧ m'.spOf o = m.spOf o
  running : m'.running = m.running ∧ a'.running = a.running
  current : m'.current = m.current ∧ a'.current = a.current
  irqdis : m'.irqdis = m.irqdis ∧ a'.irqdis = a.irqdis

theorem Rewritten.shows {a' : Tasks} {p : Nat} (rewritten : Rewritten m a p v m' a') (holds : Shows m a)
    (kernel : m.running = none) : Shows m' a' := by
  obtain ⟨⟨mem,cpu,within⟩,asleep,kept,free,view,others,running,current,irqdis⟩ := rewritten
  obtain ⟨v0,view0,work⟩ := holds.work
  rw [kernel] at view0
  have none_ : (none : Owner) ≠ some p := (Option.some_ne_none p).symm
  have own : a'.view none = some v0.stores := by
    rw [view,Function.update_of_ne none_,Function.update_self,view0]
    rfl
  have his : a'.view (some p) = some v := by rw [view,Function.update_self]
  have rest : ∀ o, o ≠ none → o ≠ some p → a'.view o = a.view o := fun o real away => by
    rw [view,Function.update_of_ne away,Function.update_of_ne real]
  refine ⟨by rw [running.1,running.2,holds.running],⟨?_,?_⟩,?_,⟨v0.stores,?_,?_⟩,?_,?_,fun o away => ?_,
    fun o u away found => ?_,fun o o' k k' distinct one two => ?_,fun u found => ?_⟩
  · rw [current.1,current.2,holds.current.1]
  · rw [running.1,current.1]
    exact holds.current.2
  · rw [irqdis.1,irqdis.2,holds.irqdis]
  · rw [running.1,kernel,own]
  · obtain ⟨regs,sreg,sp,pc,inside,-⟩ := work
    rw [cpu]
    exact ⟨regs,sreg,sp,pc,inside,aboveNil 65536 mem m.cpu.sp⟩
  · have awake := holds.awake
    rw [kernel] at awake
    rw [running.1,kernel,(others none none_).1,awake]
  · rw [running.1,kernel]
    exact fun real => absurd rfl real
  · rw [running.1,kernel] at away
    by_cases hit : o = some p
    · rw [hit,kept,his]
      rfl
    · rw [(others o hit).1,rest o away hit]
      exact holds.asleep o (kernel ▸ away)
  · rw [running.1,kernel] at away
    by_cases hit : o = some p
    · subst hit
      cases his.symm.trans found
      exact asleep
    · rw [rest o away hit] at found
      have away' : o ≠ m.running := kernel ▸ away
      have count : m.kept o = some (35 + u.stack.length) := by
        rw [holds.asleep o away',found]
        rfl
      rw [(others o hit).2,cpu]
      exact (holds.contexts o u away' found).elsewhere within (free o _ hit count)
  · by_cases hit : o = some p
    · have hit' : o' ≠ some p := fun same => distinct (hit.trans same.symm)
      subst hit
      cases kept.symm.trans one
      rw [(others o' hit').1] at two
      rw [(others o' hit').2]
      exact free o' k' hit' two
    · by_cases hit' : o' = some p
      · subst hit'
        cases kept.symm.trans two
        rw [(others o hit).1] at one
        rw [(others o hit).2]
        exact (free o k hit one).symm
      · rw [(others o hit).1] at one
        rw [(others o' hit').1] at two
        rw [(others o hit).2,(others o' hit').2]
        exact holds.apart o o' k k' distinct one two
  · cases own.symm.trans found
    exact holds.locked v0 view0

theorem View.putContext (v : View) (r value : Nat) :
    (v.put r value).context = Function.update v.context (.r r) value := by
  funext f'
  cases f' <;> simp [View.context,View.put,Function.update_apply]

theorem putView (a : Tasks) (p r value : Nat) (view : a.view (some p) = some w) : (a.put p r value).view =
    Function.update (Function.update a.view none ((a.view none).map .stores)) (some p) (some (w.put r value)) := by
  refine changeView (a.change none .stores) (some p) (·.put r value) ?_
  unfold Tasks.change
  dsimp only
  rw [Function.update_of_ne (Option.some_ne_none p),view]

theorem Shows.fieldSet {p r : Nat} (holds : Shows m a) (kernel : m.running = none) (waits : (m.kept (some p)).isSome)
    (small : r < 32) (value : Nat) : Shows (m.setField p (.r r) value) (a.put p r value) := by
  have away : some p ≠ m.running := by
    rw [kernel]
    exact Option.some_ne_none p
  obtain ⟨w,view⟩ : ∃ w, a.view (some p) = some w := by
    rw [holds.asleep _ away,Option.isSome_map] at waits
    exact Option.isSome_iff_exists.mp waits
  have count : m.kept (some p) = some (35 + w.stack.length) := by
    rw [holds.asleep _ away,view]
    rfl
  have asleep := holds.contexts _ w away view
  obtain ⟨inside,place,word,short,context⟩ := asleep
  have own := registerField small
  have cell : pointer (pointer (m.sp p + 1) + offset (.r r)) = (m.sp p + 1 + offset (.r r)) % 65536 := by
    unfold pointer
    rw [Nat.mod_add_mod]
  have near : offset (.r r) < 35 := contextOffsets.1 ▸ List.idxOf_lt_length_of_mem own
  have stacked : Stacked 65536 _ m.cpu.mem (m.sp p) (cpuContext.map w.context ++ w.stack) := ⟨inside,rfl,context⟩
  have written := fieldWritten stacked own (by omega) value
  refine Rewritten.shows (v := w.put r value) ⟨⟨_,rfl,?_⟩,⟨inside,place,word,short,?_⟩,count,?_,putView a p r value view,
    fun o away => ⟨rfl,?_⟩,⟨rfl,rfl⟩,⟨rfl,rfl⟩,⟨rfl,rfl⟩⟩ holds kernel
  · rw [cell]
    exact withinStore (by omega) m.cpu.mem value
  · rw [View.putContext]
    exact written.above
  · exact fun o k hit kept => holds.apart _ _ _ _ (Ne.symm hit) count kept
  · cases o <;> rfl

variable {t : Task} {p exittask tp args exitfn : Nat}

theorem Lowered.task (lowered : Lowered s n (r + 1) mem (c.onto t)) (v : Nat) :
    Lowered s n r mem (c.onto (doPushstack t v)) := by
  refine (lowered.stored v).same ?_ ?_ <;> (cases t; rfl)

structure Framed (s n : Nat) (mem : Nat → Nat) (t : Task) : Prop where
  inside : s < 65536
  few : 35 ≤ n
  sp : t.sp = s
  within : Within 65536 s n mem t.mem

theorem Framed.set (framed : Framed s n mem t) {f' : Field} (own : f' ∈ cpuContext) (v : Nat) :
    Framed s n mem (t.setField f' v) := by
  obtain ⟨inside,few,sp,within⟩ := framed
  have near : offset f' < 35 := contextOffsets.1 ▸ List.idxOf_lt_length_of_mem own
  have cell : pointer (t.ctxt + offset f') = (s + 1 + offset f') % 65536 := by
    unfold Task.ctxt pointer
    rw [sp]
    omega
  have stored : (t.setField f' v).mem = Function.update t.mem (pointer (t.ctxt + offset f')) v := by
    cases t
    rfl
  refine ⟨inside,few,sp,?_⟩
  rw [stored,cell]
  exact within.trans (withinStore (by omega) t.mem v)

theorem frameWithin (lowered : Lowered s n 35 mem (c.onto t)) (inside : s < 65536) (tp args : Nat) :
    let t' : Task := { t with sp := pointer (t.sp + (65536 - contextSize)) }
    Framed s n mem (((((t'.setField (.r 24) (low args)).setField (.r 25) (high args)).setField .retLow
      (low tp)).setField .retHigh (high tp)).setField (.r 1) 0) := by
  intro t'
  have sp : t'.sp = s := by
    have place : t.sp = (s + 35) % 65536 := lowered.place
    have size : contextSize = 35 := contextOffsets.1
    change pointer (t.sp + (65536 - contextSize)) = s
    rw [size]
    unfold pointer
    omega
  have begun : Framed s n mem t' := ⟨inside,lowered.left,sp,lowered.within⟩
  have r24 := begun.set (registerField (k := 24) (by decide)) (low args)
  have r25 := r24.set (registerField (k := 25) (by decide)) (high args)
  have retLow := r25.set (by decide : Field.retLow ∈ cpuContext) (low tp)
  have retHigh := retLow.set (by decide : Field.retHigh ∈ cpuContext) (high tp)
  exact retHigh.set (registerField (k := 1) (by decide)) 0

theorem setupFramed (c : Cpu) (inside : t.sp < 65536) (exittask tp args exitfn : Nat) :
    let n := 35 + (exitsTo exittask exitfn).length
    Framed ((t.sp + (65536 - n)) % 65536) n t.mem (doSetuptask t exittask tp args exitfn) := by
  intro n
  have few : n ≤ 39 := by
    change 35 + (exitsTo exittask exitfn).length ≤ 39
    unfold exitsTo
    split <;> simp
  have start : Lowered ((t.sp + (65536 - n)) % 65536) n n t.mem (c.onto t) := leavesFrom (c := c.onto t) inside n (by omega)
  have low_ : (t.sp + (65536 - n)) % 65536 < 65536 := Nat.mod_lt _ (by decide)
  generalize (t.sp + (65536 - n)) % 65536 = s at start low_
  unfold doSetuptask
  dsimp only
  by_cases real : exitfn ≠ 0
  · have count : n = 35 + 1 + 1 + 1 + 1 := by simp [n,exitsTo,real]
    rw [if_pos real]
    refine frameWithin (c := c) ?_ low_ tp args
    have start : Lowered s n (35 + 1 + 1 + 1 + 1) t.mem (c.onto t) := count ▸ start
    exact (((start.task (low exittask)).task (high exittask)).task (low exitfn)).task (high exitfn)
  · have count : n = 35 + 1 + 1 := by simp [n,exitsTo,real]
    rw [if_neg real]
    refine frameWithin (c := c) ?_ low_ tp args
    have start : Lowered s n (35 + 1 + 1) t.mem (c.onto t) := count ▸ start
    exact (start.task (low exittask)).task (high exittask)

theorem newAsleep {found : View} (sp : found.sp = t.sp) (inside : t.sp < 65536) (word : tp < 65536)
    (cells : let t' := doSetuptask t exittask tp args exitfn
      (∀ k < 32, k ≠ 1 → k ≠ 24 → k ≠ 25 → found.reg k = field t'.mem t'.ctxt (.r k)) ∧
        found.sreg = field t'.mem t'.ctxt .rSREG) :
    let t' := doSetuptask t exittask tp args exitfn
    Asleep t'.mem t'.sp (found.starts exittask tp args exitfn) := by
  obtain ⟨g,holds,r1,r24,r25,retLow,retHigh⟩ := setupHolds inside exittask tp args exitfn
  generalize doSetuptask t exittask tp args exitfn = t' at holds cells
  obtain ⟨regs,sreg⟩ := cells
  have read : ∀ {f' : Field}, f' ∈ cpuContext → field t'.mem t'.ctxt f' = g f' := fun own => fieldRead holds own
  have begun : (found.starts exittask tp args exitfn).Same ⟨fun k => g (.r k),g .rSREG,
      pointer (found.sp + (65536 - (exitsTo exittask exitfn).length)),tp,exitsTo exittask exitfn⟩ := by
    refine ⟨fun k small => ?_,?_,rfl,rfl,rfl⟩
    · simp only [View.starts,Function.update_apply]
      split_ifs with zero highByte lowByte
      · rw [zero,r1]
      · rw [highByte,r25]
      · rw [lowByte,r24]
      · rw [regs k small zero lowByte highByte,read (registerField small)]
    · exact sreg.trans (read (by decide))
  have same := begun.context
  have cut : cpuContext.map g = cpuContext.map (View.context ⟨fun k => g (.r k),g .rSREG,
      pointer (found.sp + (65536 - (exitsTo exittask exitfn).length)),tp,exitsTo exittask exitfn⟩) := by
    refine List.map_congr_left fun f' _ => ?_
    cases f' with
    | r k => rfl
    | rSREG => rfl
    | retHigh => exact retHigh
    | retLow => exact retLow
  have few : (exitsTo exittask exitfn).length ≤ 4 := by
    unfold exitsTo
    split <;> simp
  obtain ⟨inside',place,above⟩ := holds
  rw [contextLength] at place
  refine ⟨inside',?_,word,?_,?_⟩
  · simp only [View.starts,sp]
    unfold pointer
    omega
  · simp only [View.starts]
    omega
  · rw [same,← cut]
    exact above

theorem Shows.setup {found : View} (holds : Shows m a) (kernel : m.running = none)
    (fresh : Fresh m p exittask tp args exitfn found) :
    Shows (m.move (.setuptask p exittask tp args exitfn found)) (a.move (.setuptask p exittask tp args exitfn found)) := by
  obtain ⟨none_,⟨sp,inside⟩,⟨-,word,-,-⟩,cells,free⟩ := fresh
  have framed := setupFramed (t := ⟨m.cpu.mem,[],0,m.sp p⟩) m.cpu inside exittask tp args exitfn
  have asleep := newAsleep (t := ⟨m.cpu.mem,[],0,m.sp p⟩) sp inside word cells
  have moved : (m.setuptask p exittask tp args exitfn).sp p =
      (doSetuptask ⟨m.cpu.mem,[],0,m.sp p⟩ exittask tp args exitfn).sp := Function.update_self ..
  refine Rewritten.shows (a := a) (p := p) (v := found.starts exittask tp args exitfn) ⟨⟨_,rfl,?_⟩,?_,?_,?_,?_,
    fun o away => ⟨?_,?_⟩,⟨rfl,rfl⟩,⟨rfl,rfl⟩,⟨rfl,rfl⟩⟩ holds kernel
  · change Within 65536 ((m.setuptask p exittask tp args exitfn).sp p) _ m.cpu.mem _
    rw [moved,framed.sp]
    exact framed.within
  · change Asleep _ ((m.setuptask p exittask tp args exitfn).sp p) _
    rw [moved]
    exact asleep
  · exact Function.update_self ..
  · change m.Free _ ((m.setuptask p exittask tp args exitfn).sp p) _
    rw [moved]
    exact free
  · rfl
  · exact Function.update_of_ne away ..
  · cases o with
    | none => rfl
    | some q => exact Function.update_of_ne (fun same => away (congrArg some same)) ..

/-! Every step -/

theorem Shows.called (holds : Shows m a) (code : Nat) (real : m.running ≠ none) (word : back < 65536)
    (leaving : Leaving m 36 stack) (x : Scratch) :
    Shows (m.move (.kcall code back stack x)) (a.move (.kcall code back stack x)) := by
  obtain ⟨above,short,free⟩ := leaving
  obtain ⟨w,view,work⟩ := holds.work
  have gave := kcallGives work above short word code 0
  have count : 36 + stack.length = 35 + (w.calls code back stack).stack.length := by
    simp only [View.calls,List.length_cons]
    omega
  rw [count] at free
  have entered := holds.entered real view (·.calls code back stack) _ 0 x gave (by omega) free
  rw [Machine.move,count]
  exact entered

theorem Shows.interrupted (holds : Shows m a) (event : Nat) (real : m.running ≠ none) (word : m.cpu.pc < 65536)
    (leaving : Leaving m 35 stack) (x : Scratch) :
    Shows (m.move (.interrupt event stack x)) (a.move (.interrupt event stack x)) := by
  obtain ⟨above,short,free⟩ := leaving
  obtain ⟨w,view,work⟩ := holds.work
  have gave := interruptGives work above short word event
  exact holds.entered real view (·.interrupted stack) _ event x gave (Nat.le_add_right ..) free

theorem Shows.computed (holds : Shows m a) (inside : c.sp < 65536) (locked : m.running = none → ¬ enabled c.sreg)
    (away : ∀ o k, m.kept o = some k → ∀ j < k, c.mem ((m.spOf o + 1 + j) % 65536) = m.cpu.mem ((m.spOf o + 1 + j) % 65536)) :
    Shows (m.move (.compute c)) (a.move (.compute c)) := by
  have own : (a.move (.compute c)).view = Function.update a.view m.running (some c.view) := by
    rw [← holds.running]
    rfl
  have others : ∀ o, o ≠ m.running → (a.move (.compute c)).view o = a.view o := fun o other => by
    rw [own,Function.update_of_ne other]
  refine ⟨holds.running,holds.current,holds.irqdis,⟨c.view,?_,?_⟩,holds.awake,holds.kernel,fun o other => ?_,
    fun o v other view => ?_,holds.apart,fun v view => ?_⟩
  · exact (congrFun own _).trans (Function.update_self ..)
  · exact ⟨fun _ _ => rfl,rfl,rfl,rfl,inside,aboveNil 65536 c.mem c.sp⟩
  · rw [others o other]
    exact holds.asleep o other
  · rw [others o other] at view
    obtain ⟨inside',place,word,short,context⟩ := holds.contexts o v other view
    have count : m.kept o = some (35 + v.stack.length) := by
      rw [holds.asleep o other,view]
      rfl
    refine ⟨inside',place,word,short,context.same fun j low => ?_⟩
    rw [contextLength] at low
    exact away o _ count j low
  · by_cases kernel : m.running = none
    · rw [own,kernel,Function.update_self] at view
      cases view
      exact locked kernel
    · rw [others none (Ne.symm kernel)] at view
      exact holds.locked v view

theorem Shows.freed (holds : Shows m a) (kernel : m.running = none) (p : Nat) :
    Shows (m.move (.freestack p)) (a.move (.freestack p)) := by
  have away : m.running ≠ some p := by
    rw [kernel]
    exact (Option.some_ne_none p).symm
  have gone : (m.move (.freestack p)).kept = Function.update m.kept (some p) none := rfl
  have gone' : (a.move (.freestack p)).view = Function.update a.view (some p) none := rfl
  have before : ∀ {o : Owner} {k : Nat}, (m.move (.freestack p)).kept o = some k → m.kept o = some k := by
    intro o k kept
    rw [gone,Function.update_apply] at kept
    split at kept
    · cases kept
    · exact kept
  obtain ⟨v,view,work⟩ := holds.work
  refine ⟨holds.running,holds.current,holds.irqdis,⟨v,?_,work⟩,?_,fun real => absurd kernel real,fun o other => ?_,
    fun o u other found => ?_,fun o o' k k' distinct one two => holds.apart o o' k k' distinct (before one) (before two),
    fun u found => ?_⟩
  · exact (Function.update_of_ne away ..).trans view
  · exact (Function.update_of_ne away ..).trans holds.awake
  · rw [gone,gone',Function.update_apply,Function.update_apply]
    split
    · rfl
    · exact holds.asleep o other
  · rw [gone',Function.update_apply] at found
    split at found
    · cases found
    · exact holds.contexts o u other found
  · rw [gone',Function.update_of_ne (Option.some_ne_none p).symm] at found
    exact holds.locked u found

theorem Shows.allocated (holds : Shows m a) (none_ : m.kept (some p) = none) (top : Nat) :
    Shows (m.move (.allocatestack p top)) (a.move (.allocatestack p top)) := by
  have place : ∀ {o : Owner} {k : Nat}, m.kept o = some k → (m.move (.allocatestack p top)).spOf o = m.spOf o := by
    intro o k kept
    cases o with
    | none => rfl
    | some q =>
      refine Function.update_of_ne ?_ ..
      rintro rfl
      cases none_.symm.trans kept
  refine ⟨holds.running,holds.current,holds.irqdis,holds.work,holds.awake,holds.kernel,holds.asleep,
    fun o u other found => ?_,fun o o' k k' distinct one two => ?_,holds.locked⟩
  · have count : m.kept o = some (35 + u.stack.length) := by
      rw [holds.asleep o other]
      exact congrArg (Option.map _) found
    rw [place count]
    exact holds.contexts o u other found
  · rw [place one,place two]
    exact holds.apart o o' k k' distinct one two

theorem Shows.moved (holds : Shows m a) {i : Move} (legal : Legal m i) : Shows (m.move i) (a.move i) := by
  cases i with
  | compute c => exact holds.computed legal.1 legal.2.1 legal.2.2
  | kcall code back stack x => exact holds.called code legal.1 legal.2.1 legal.2.2 x
  | interrupt event stack x => exact holds.interrupted event legal.1 legal.2.2.1 legal.2.2.2 x
  | dispatch back stack x => exact holds.dispatched legal.1 legal.2.1 legal.2.2.1 legal.2.2.2 x
  | setp0 p v =>
    have first := holds.fieldSet (r := 25) legal.1 legal.2.1 (by decide) (high v)
    exact first.fieldSet (r := 24) legal.1 legal.2.1 (by decide) (low v)
  | setKcallcode p code => exact holds.fieldSet (r := 16) legal.1 legal.2 (by decide) code
  | setuptask p exittask tp args exitfn found => exact holds.setup legal.1 legal.2
  | allocatestack p top => exact holds.allocated legal.2.1 top
  | freestack p => exact holds.freed legal p
  | schedule p =>
    have kernel : m.running = none := legal
    refine ⟨holds.running,⟨rfl,?_⟩,holds.irqdis,holds.work,holds.awake,holds.kernel,holds.asleep,holds.contexts,
      holds.apart,holds.locked⟩
    intro q real
    cases kernel.symm.trans real
  | flags irqdis =>
    refine ⟨holds.running,holds.current,?_,holds.work,holds.awake,holds.kernel,holds.asleep,holds.contexts,
      holds.apart,holds.locked⟩
    change Function.update a.irqdis a.current irqdis = Function.update m.irqdis m.current irqdis
    rw [holds.irqdis,holds.current.1]

end

end Avros.StackFrame
