import Mathlib.Data.List.Nodup
import Avros.DownStack
import Avros.StackFrame

/-! `kernel/hal.h`: the context of a task as SAVE_CONTEXT pushes it and RESTORE_CONTEXT pops it,
against cpu_context_t and the frame that do_setuptask() builds by hand. -/
namespace Avros.StackFrame
open DownStack

/- The registers that a context switch is about. A push stores at sp and then lowers it; an
address is read back with its high byte first. -/
structure Cpu where
  reg : Nat → Nat
  sreg : Nat
  sp : Nat
  pc : Nat
  mem : Nat → Nat

inductive Instr where
  | push (r : Nat)
  | pop (r : Nat)
  | in_ (r : Nat)
  | out (r : Nat)
  | ret
  deriving DecidableEq, Repr

-- in and out are those of __SREG__.
def step (c : Cpu) : Instr → Cpu
  | .push r => { c with mem := Function.update c.mem c.sp (c.reg r), sp := pointer (c.sp + 65535) }
  | .pop r => { c with reg := Function.update c.reg r (c.mem (pointer (c.sp + 1))), sp := pointer (c.sp + 1) }
  | .in_ r => { c with reg := Function.update c.reg r c.sreg }
  | .out r => { c with sreg := c.reg r }
  | .ret => { c with
      pc := c.mem (pointer (c.sp + 1)) * 256 + c.mem (pointer (c.sp + 2))
      sp := pointer (c.sp + 2) }

def run (c : Cpu) (program : List Instr) : Cpu := program.foldl step c

def saveContext : List Instr := [.push 31,.in_ 31,.push 31] ++ (List.range 31).reverse.map .push
def restoreContext : List Instr := (List.range 31).map .pop ++ [.pop 31,.out 31,.pop 31]

-- GET_CTXT of a task whose sp is that of the CPU.
def Cpu.ctxt (c : Cpu) : Nat := pointer (c.sp + 1)

def field (mem : Nat → Nat) (ctxt : Nat) (f : Field) : Nat := mem (pointer (ctxt + offset f))

def getp (highs lows : Field) (mem : Nat → Nat) (ctxt : Nat) : Nat := field mem ctxt highs <<< 8 ||| field mem ctxt lows

def getp0 : (Nat → Nat) → Nat → Nat := getp (.r 25) (.r 24)
def getp1 : (Nat → Nat) → Nat → Nat := getp (.r 23) (.r 22)
def getp2 : (Nat → Nat) → Nat → Nat := getp (.r 21) (.r 20)
def getp3 : (Nat → Nat) → Nat → Nat := getp (.r 19) (.r 18)
def getKcallcode (mem : Nat → Nat) (ctxt : Nat) : Nat := field mem ctxt (.r 16)

def Cpu.pair (c : Cpu) (r : Nat) : Nat := c.reg (r + 1) <<< 8 ||| c.reg r

-- SET_SP(task->sp)
def Cpu.onto (c : Cpu) (t : Task) : Cpu := { c with mem := t.mem, sp := t.sp }

def Cpu.enters (c : Cpu) : Cpu := run c (restoreContext ++ [.ret])
def Cpu.returns (c : Cpu) : Cpu := step c .ret

/- A function that was entered at e comes to its RET at d: it has given back its part of the
stack, and what is above that, up to `top`, is as it was. -/
structure Returning (top : Nat) (e d : Cpu) : Prop where
  sp : d.sp = e.sp
  above : ∀ k < pointer (top + (65536 - e.sp)), d.mem (pointer (e.sp + 1 + k)) = e.mem (pointer (e.sp + 1 + k))

structure Starts (top exittask tp args exitfn : Nat) (e : Cpu) : Prop where
  entry : e.pc = tp
  args : e.pair 24 = args
  zero : e.reg 1 = 0
  exits : exitfn ≠ 0 → ∀ d, Returning top e d → d.returns.pc = exitfn ∧ d.returns.pair 24 = d.pair 24 ∧
    ∀ d', Returning top d.returns d' → d'.returns.pc = exittask ∧ d'.returns.sp = top
  ends : exitfn = 0 → ∀ d, Returning top e d → d.returns.pc = exittask ∧ d.returns.sp = top

-- s is c with its context saved.
structure Saves (c s : Cpu) : Prop where
  regs : ∀ k < 32, field s.mem s.ctxt (.r k) = c.reg k
  sreg : field s.mem s.ctxt .rSREG = c.sreg
  back : field s.mem s.ctxt .retHigh = c.mem (pointer (c.sp + 1)) ∧ field s.mem s.ctxt .retLow = c.mem (pointer (c.sp + 2))
  p0 : getp0 s.mem s.ctxt = c.pair 24
  p1 : getp1 s.mem s.ctxt = c.pair 22
  p2 : getp2 s.mem s.ctxt = c.pair 20
  p3 : getp3 s.mem s.ctxt = c.pair 18
  code : getKcallcode s.mem s.ctxt = c.reg 16

structure Resumes (s d : Cpu) : Prop where
  sp : d.sp = s.sp
  context : ∀ f ∈ cpuContext, field d.mem d.ctxt f = field s.mem s.ctxt f

structure Restores (c d : Cpu) : Prop where
  regs : ∀ k < 32, d.reg k = c.reg k
  sreg : d.sreg = c.sreg
  sp : d.sp = c.sp
  back : d.returns.pc = c.returns.pc

section
variable {c d e : Cpu} {t : Task} {f : Nat → Nat} {g : Field → Nat} {ks l : List Nat} {mem : Nat → Nat}
  {v sp top exittask tp args exitfn : Nat} {f' : Field}

theorem runCons (c : Cpu) (i : Instr) (program : List Instr) : run c (i::program) = run (step c i) program :=
  List.foldl_cons ..

theorem runAppend (c : Cpu) (program more : List Instr) : run c (program ++ more) = run (run c program) more :=
  List.foldl_append

theorem pushedOn (stacked : Stacked 65536 top mem sp l) (short : l.length < 65536) (v : Nat) :
    Stacked 65536 top (Function.update mem sp v) (pointer (sp + 65535)) (v::l) := stacked.pushed short v

theorem poppedOff (stacked : Stacked 65536 top mem sp (v::l)) :
    mem (pointer (sp + 1)) = v ∧ Stacked 65536 top mem (pointer (sp + 1)) l := stacked.popped

structure Popped (c d : Cpu) (ks : List Nat) (f : Nat → Nat) : Prop where
  own : ∀ k ∈ ks, d.reg k = f k
  others : ∀ k, k ∉ ks → d.reg k = c.reg k

theorem popsRun (nodup : ks.Nodup) (stacked : Stacked 65536 top c.mem c.sp (ks.map f ++ l)) :
    let d := run c (ks.map .pop)
    Popped c d ks f ∧ Stacked 65536 top d.mem d.sp l := by
  induction ks generalizing c with
  | nil => exact ⟨⟨by simp,fun _ _ => rfl⟩,stacked⟩
  | cons k ks ih =>
    obtain ⟨away,nodup⟩ := List.nodup_cons.mp nodup
    obtain ⟨first,stacked⟩ := poppedOff stacked
    obtain ⟨⟨own,others⟩,stacked⟩ := ih (c := step c (.pop k)) nodup stacked
    rw [List.map_cons,runCons]
    refine ⟨⟨fun j member => ?_,fun j apart => ?_⟩,stacked⟩
    · rcases List.mem_cons.mp member with rfl | later
      · refine (others j away).trans ?_
        exact (Function.update_self ..).trans first
      · exact own j later
    · obtain ⟨other,apart⟩ := not_or.mp (mt List.mem_cons.mpr apart)
      exact (others j apart).trans (Function.update_of_ne other _ _)

theorem contextCut (g : Field → Nat) : cpuContext.map g =
    (List.range 31).map (fun k => g (.r k)) ++ [g .rSREG,g (.r 31),g .retHigh,g .retLow] := by
  simp [cpuContext,Function.comp_def]

theorem restoreRun (stacked : Stacked 65536 top c.mem c.sp (cpuContext.map g ++ l)) :
    let d := run c restoreContext
    (∀ k < 32, d.reg k = g (.r k)) ∧ d.sreg = g .rSREG ∧ Stacked 65536 top d.mem d.sp (g .retHigh::g .retLow::l) := by
  rw [contextCut,List.append_assoc] at stacked
  obtain ⟨⟨own,-⟩,stacked⟩ := popsRun (f := fun k => g (.r k)) List.nodup_range stacked
  rw [restoreContext,runAppend]
  generalize run c ((List.range 31).map .pop) = d at own stacked
  obtain ⟨status,stacked⟩ := poppedOff stacked
  obtain ⟨last,stacked⟩ := poppedOff stacked
  have ends : run d [.pop 31,.out 31,.pop 31] = { d with
      reg := Function.update (Function.update d.reg 31 (g .rSREG)) 31 (g (.r 31))
      sreg := g .rSREG
      sp := pointer (pointer (d.sp + 1) + 1) } := by
    rw [← status,← last]
    simp [run,step]
  rw [ends]
  refine ⟨fun k small => ?_,rfl,stacked⟩
  dsimp only
  by_cases top : k = 31
  · rw [top,Function.update_self]
  · have inner : k ∈ List.range 31 := List.mem_range.mpr (by omega)
    rw [Function.update_of_ne top,Function.update_of_ne top]
    exact own k inner

theorem returnsRun {highs lows : Nat} (stacked : Stacked 65536 top c.mem c.sp (highs::lows::l)) :
    c.returns.pc = highs * 256 + lows ∧ Stacked 65536 top c.returns.mem c.returns.sp l := by
  obtain ⟨first,stacked⟩ := poppedOff stacked
  obtain ⟨second,stacked⟩ := poppedOff stacked
  have next : pointer (pointer (c.sp + 1) + 1) = pointer (c.sp + 2) := by
    unfold pointer
    omega
  rw [next] at second stacked
  refine ⟨?_,stacked⟩
  change c.mem (pointer (c.sp + 1)) * 256 + c.mem (pointer (c.sp + 2)) = _
  rw [first,second]

theorem pushesRun (stacked : Stacked 65536 top c.mem c.sp l) (room : l.length + ks.length ≤ 65536) :
    let d := run c (ks.map .push)
    d.reg = c.reg ∧ Stacked 65536 top d.mem d.sp ((ks.map c.reg).reverse ++ l) := by
  induction ks generalizing c l with
  | nil => exact ⟨rfl,stacked⟩
  | cons k ks ih =>
    rw [List.length_cons] at room
    have stacked := pushedOn stacked (by omega) (c.reg k)
    obtain ⟨reg,rest⟩ := ih (c := step c (.push k)) stacked (by rw [List.length_cons]; omega)
    have same : (step c (.push k)).reg = c.reg := by
      cases c
      rfl
    rw [List.map_cons,runCons]
    refine ⟨reg.trans same,?_⟩
    rw [same] at rest
    simpa using rest

theorem statusRun (stacked : Stacked 65536 top c.mem c.sp l) (room : l.length + 2 ≤ 65536) :
    let d := run c [.push 31,.in_ 31,.push 31]
    d.reg = Function.update c.reg 31 c.sreg ∧ Stacked 65536 top d.mem d.sp (c.sreg::c.reg 31::l) := by
  have one := pushedOn stacked (by omega) (c.reg 31)
  have two := pushedOn one (by rw [List.length_cons]; omega) c.sreg
  have ran : run c [.push 31,.in_ 31,.push 31] = { c with
      reg := Function.update c.reg 31 c.sreg
      mem := Function.update (Function.update c.mem c.sp (c.reg 31)) (pointer (c.sp + 65535)) c.sreg
      sp := pointer (pointer (c.sp + 65535) + 65535) } := by
    cases c
    rfl
  rw [ran]
  exact ⟨rfl,two⟩

theorem saveRun (stacked : Stacked 65536 top c.mem c.sp l) (room : l.length + 33 ≤ 65536) :
    let d := run c saveContext
    Stacked 65536 top d.mem d.sp ((List.range 31).map c.reg ++ c.sreg::c.reg 31::l) := by
  obtain ⟨reg,begun⟩ := statusRun stacked (by omega)
  rw [saveContext,runAppend]
  generalize run c [.push 31,.in_ 31,.push 31] = d at reg begun
  obtain ⟨-,rest⟩ := @pushesRun d (List.range 31).reverse _ top begun (by simp; omega)
  have same : (List.range 31).map d.reg = (List.range 31).map c.reg := by
    refine List.map_congr_left fun k member => ?_
    have below := List.mem_range.mp member
    rw [reg,Function.update_of_ne (by omega)]
  rw [← List.map_reverse,List.reverse_reverse,same] at rest
  exact rest

theorem contextNodup : cpuContext.Nodup := by decide

theorem registerField {k : Nat} (small : k < 32) : Field.r k ∈ cpuContext := by
  simp only [cpuContext,List.mem_append,List.mem_map,List.mem_range,List.mem_cons,Field.r.injEq]
  by_cases last : k = 31
  · exact .inr (.inr (.inl last))
  · exact .inl ⟨k,by omega,rfl⟩

theorem contextEntry (own : f' ∈ cpuContext) (g : Field → Nat) : (cpuContext.map g)[offset f']? = some (g f') := by
  rw [List.getElem?_map,offset,List.getElem?_idxOf own]
  rfl

theorem fieldCell (mem : Nat → Nat) (sp : Nat) (f' : Field) :
    field mem (pointer (sp + 1)) f' = mem ((sp + 1 + offset f') % 65536) := by
  unfold field pointer
  rw [Nat.mod_add_mod]

theorem fieldRead (stacked : Stacked 65536 top mem sp (cpuContext.map g ++ l)) (own : f' ∈ cpuContext) :
    field mem (pointer (sp + 1)) f' = g f' := by
  have above := (aboveAppend.mp stacked.above).1
  rw [fieldCell]
  exact above (offset f') (g f') (contextEntry own g)

theorem fieldsAbove (fields : ∀ f' ∈ cpuContext, field mem (pointer (sp + 1)) f' = g f') :
    Above 65536 mem sp (cpuContext.map g) := by
  intro k v found
  rw [List.getElem?_map] at found
  obtain ⟨f',there,rfl⟩ := Option.map_eq_some_iff.mp found
  obtain ⟨inside,same⟩ := List.getElem?_eq_some_iff.mp there
  have own : f' ∈ cpuContext := List.mem_of_getElem? there
  have index : offset f' = k := by
    rw [offset,← same]
    exact contextNodup.idxOf_getElem k inside
  rw [← fields f' own,fieldCell,index]

theorem contextSet (own : f' ∈ cpuContext) (g : Field → Nat) (v : Nat) :
    (cpuContext.map g).set (offset f') v = cpuContext.map (Function.update g f' v) := by
  refine List.ext_getElem (by simp) fun k inside inside' => ?_
  rw [List.length_map] at inside'
  rw [List.getElem_set,List.getElem_map,List.getElem_map,Function.update_apply]
  have same : offset f' = k ↔ cpuContext[k] = f' := by
    constructor
    · rintro rfl
      exact List.getElem_idxOf (List.idxOf_lt_length_of_mem own)
    · rintro rfl
      exact contextNodup.idxOf_getElem k inside'
  simp only [same]

theorem fieldWritten (stacked : Stacked 65536 top mem sp (cpuContext.map g ++ l)) (own : f' ∈ cpuContext)
    (short : l.length + 35 ≤ 65536) (v : Nat) :
    Stacked 65536 top (Function.update mem (pointer (pointer (sp + 1) + offset f')) v) sp
      (cpuContext.map (Function.update g f' v) ++ l) := by
  have count : offset f' < cpuContext.length := List.idxOf_lt_length_of_mem own
  have size : cpuContext.length = 35 := contextOffsets.1
  have cell : pointer (pointer (sp + 1) + offset f') = (sp + 1 + offset f') % 65536 := by
    unfold pointer
    rw [Nat.mod_add_mod]
  have written := stacked.stored (k := offset f') (by simp [size]; omega) (by omega) v
  rw [List.set_append_left _ _ (by rwa [List.length_map]),contextSet own] at written
  rwa [cell]

/-! The frame of a new task -/

def Task.Holds (top : Nat) (t : Task) (l : List Nat) : Prop := Stacked 65536 top t.mem t.sp l

theorem pushHolds (holds : t.Holds top l) (short : l.length < 65536) (v : Nat) : (doPushstack t v).Holds top (v::l) := by
  have mem : (doPushstack t v).mem = Function.update t.mem t.sp v := by
    cases t
    rfl
  rw [Task.Holds,mem,pushSp]
  exact pushedOn holds short v

theorem addressPushed (holds : t.Holds top l) (short : l.length + 1 < 65536) (a : Nat) :
    (doPushstack (doPushstack t (low a)) (high a)).Holds top (high a::low a::l) :=
  pushHolds (pushHolds holds (Nat.lt_of_succ_lt short) (low a)) short (high a)

theorem fieldSet (holds : t.Holds top (cpuContext.map g ++ l)) (own : f' ∈ cpuContext) (short : l.length + 35 ≤ 65536)
    (v : Nat) : (t.setField f' v).Holds top (cpuContext.map (Function.update g f' v) ++ l) :=
  fieldWritten holds own short v

-- `task->sp -= sizeof(cpu_context_t)`
theorem contextLowered (holds : t.Holds top l) :
    let s : Task := { t with sp := pointer (t.sp + (65536 - contextSize)) }
    s.Holds top (cpuContext.map (field t.mem s.ctxt) ++ l) := by
  have size : contextSize = 35 := contextOffsets.1
  rw [size]
  exact Stacked.lowered (n := 35) holds (by omega) (by simp [cpuContext]) (fieldsAbove fun _ _ => rfl)

def exitsTo (exittask exitfn : Nat) : List Nat :=
  if exitfn ≠ 0 then [high exitfn,low exitfn,high exittask,low exittask] else [high exittask,low exittask]

theorem frameBuilt (holds : t.Holds top l) (few : l.length + 35 ≤ 65536) (tp args : Nat) :
    let s : Task := { t with sp := pointer (t.sp + (65536 - contextSize)) }
    ∃ g, (((((s.setField (.r 24) (low args)).setField (.r 25) (high args)).setField .retLow (low tp)).setField .retHigh
        (high tp)).setField (.r 1) 0).Holds top (cpuContext.map g ++ l) ∧
      g (.r 1) = 0 ∧ g (.r 24) = low args ∧ g (.r 25) = high args ∧ g .retLow = low tp ∧ g .retHigh = high tp := by
  have frame := contextLowered holds
  have r24 := fieldSet frame (registerField (k := 24) (by decide)) few (low args)
  have r25 := fieldSet r24 (registerField (k := 25) (by decide)) few (high args)
  have retLow := fieldSet r25 (by decide : Field.retLow ∈ cpuContext) few (low tp)
  have retHigh := fieldSet retLow (by decide : Field.retHigh ∈ cpuContext) few (high tp)
  refine ⟨_,fieldSet retHigh (registerField (k := 1) (by decide)) few 0,?_⟩
  simp

theorem setupHolds (inside : t.sp < 65536) (exittask tp args exitfn : Nat) :
    ∃ g, (doSetuptask t exittask tp args exitfn).Holds t.sp (cpuContext.map g ++ exitsTo exittask exitfn) ∧
      g (.r 1) = 0 ∧ g (.r 24) = low args ∧ g (.r 25) = high args ∧ g .retLow = low tp ∧ g .retHigh = high tp := by
  have start : t.Holds t.sp [] := stackedNil inside t.mem
  have last := addressPushed start (by decide) exittask
  unfold doSetuptask exitsTo
  dsimp only
  by_cases real : exitfn ≠ 0
  · simp only [if_pos real]
    exact frameBuilt (addressPushed last (by simp) exitfn) (by simp) tp args
  · simp only [if_neg real]
    exact frameBuilt last (by simp) tp args

/-! From the entry point to exittask -/

theorem wordJoined {a : Nat} (word : a < 65536) : high a <<< 8 ||| low a = a ∧ high a * 256 + low a = a := by
  have bytes : high a * 256 + low a = a := by
    unfold high low
    omega
  have byte : low a < 2 ^ 8 := Nat.mod_lt _ (by decide)
  refine ⟨?_,bytes⟩
  rw [← Nat.shiftLeft_add_eq_or_of_lt byte,Nat.shiftLeft_eq]
  exact bytes

theorem returnsReg (c : Cpu) : c.returns.reg = c.reg := by
  cases c
  rfl

theorem Returning.stacked (returning : Returning top e d) (stacked : Stacked 65536 top e.mem e.sp l)
    (short : l.length < 65536) : Stacked 65536 top d.mem d.sp l := by
  obtain ⟨sp,cells⟩ := returning
  obtain ⟨inside,place,above⟩ := stacked
  have count : pointer (top + (65536 - e.sp)) = l.length := by
    unfold pointer
    omega
  rw [count] at cells
  exact ⟨sp ▸ inside,by rw [sp,place],by rw [sp]; exact above.same cells⟩

theorem returnsTo {a : Nat} (word : a < 65536) (stacked : Stacked 65536 top c.mem c.sp (high a::low a::l)) :
    c.returns.pc = a ∧ Stacked 65536 top c.returns.mem c.returns.sp l := by
  obtain ⟨pc,rest⟩ := returnsRun stacked
  exact ⟨pc.trans (wordJoined word).2,rest⟩

theorem Returning.returnsTo {a : Nat} (returning : Returning top e d) (word : a < 65536)
    (stacked : Stacked 65536 top e.mem e.sp (high a::low a::l)) (short : l.length + 2 < 65536) :
    d.returns.pc = a ∧ Stacked 65536 top d.returns.mem d.returns.sp l :=
  StackFrame.returnsTo word (returning.stacked stacked short)

theorem setupStarts (inside : t.sp < 65536) (words : exittask < 65536 ∧ tp < 65536 ∧ args < 65536 ∧ exitfn < 65536)
    (c : Cpu) : Starts t.sp exittask tp args exitfn (c.onto (doSetuptask t exittask tp args exitfn)).enters := by
  obtain ⟨exitWord,entryWord,argsWord,exitfnWord⟩ := words
  obtain ⟨g,holds,r1,r24,r25,retLow,retHigh⟩ := setupHolds inside exittask tp args exitfn
  generalize doSetuptask t exittask tp args exitfn = s at holds
  have begun : Stacked 65536 t.sp (c.onto s).mem (c.onto s).sp (cpuContext.map g ++ exitsTo exittask exitfn) := holds
  obtain ⟨regs,-,stacked⟩ := restoreRun begun
  rw [retHigh,retLow] at stacked
  obtain ⟨entry,stacked⟩ := returnsTo entryWord stacked
  have enters : (c.onto s).enters = (run (c.onto s) restoreContext).returns := runAppend _ _ _
  have regs' : ∀ k < 32, (c.onto s).enters.reg k = g (.r k) := fun k small => by rw [enters,returnsReg]; exact regs k small
  rw [← enters] at entry stacked
  generalize (c.onto s).enters = e at entry stacked regs'
  refine ⟨entry,?_,?_,fun real d returning => ?_,fun none d returning => ?_⟩
  · rw [Cpu.pair,regs' 25 (by decide),regs' 24 (by decide),r24,r25]
    exact (wordJoined argsWord).1
  · rw [regs' 1 (by decide),r1]
  · rw [exitsTo,if_pos real] at stacked
    obtain ⟨exits,rest⟩ := returning.returnsTo exitfnWord stacked (by simp)
    refine ⟨exits,by rw [Cpu.pair,Cpu.pair,returnsReg],fun d' again => ?_⟩
    obtain ⟨ends,rest⟩ := again.returnsTo exitWord rest (by simp)
    exact ⟨ends,rest.empty⟩
  · rw [exitsTo,if_neg (not_not.mpr none)] at stacked
    obtain ⟨ends,rest⟩ := returning.returnsTo exitWord stacked (by simp)
    exact ⟨ends,rest.empty⟩

/-! A context saved and restored -/

def Cpu.context (c : Cpu) : Field → Nat
  | .r k => c.reg k
  | .rSREG => c.sreg
  | .retHigh => c.mem (pointer (c.sp + 1))
  | .retLow => c.mem (pointer (c.sp + 2))

theorem contextSaved (inside : c.sp < 65536) :
    Stacked 65536 (pointer (c.sp + 2)) (run c saveContext).mem (run c saveContext).sp (cpuContext.map c.context) := by
  have cells := aboveCells 65536 c.mem c.sp 2
  have stacked : Stacked 65536 (pointer (c.sp + 2)) c.mem c.sp [c.mem (pointer (c.sp + 1)),c.mem (pointer (c.sp + 2))] :=
    ⟨inside,rfl,cells⟩
  have saved := saveRun stacked (by simp)
  rw [contextCut]
  exact saved

theorem contextFields (inside : c.sp < 65536) : ∀ f' ∈ cpuContext,
    field (run c saveContext).mem (run c saveContext).ctxt f' = c.context f' := by
  intro f' own
  have saved := contextSaved inside
  rw [← List.append_nil (cpuContext.map c.context)] at saved
  exact fieldRead saved own

theorem saves (inside : c.sp < 65536) : Saves c (run c saveContext) := by
  have fields := contextFields inside
  have regs : ∀ k < 32, field (run c saveContext).mem (run c saveContext).ctxt (.r k) = c.reg k :=
    fun k small => fields (.r k) (registerField small)
  have pair : ∀ k, k + 1 < 32 → getp (.r (k + 1)) (.r k) (run c saveContext).mem (run c saveContext).ctxt = c.pair k := by
    intro k small
    rw [getp,regs (k + 1) small,regs k (Nat.lt_of_succ_lt small)]
    rfl
  exact ⟨regs,fields .rSREG (by decide),⟨fields .retHigh (by decide),fields .retLow (by decide)⟩,pair 24 (by decide),
    pair 22 (by decide),pair 20 (by decide),pair 18 (by decide),regs 16 (by decide)⟩

theorem restores (inside : c.sp < 65536) (resumes : Resumes (run c saveContext) d) : Restores c (run d restoreContext) := by
  obtain ⟨sp,same⟩ := resumes
  obtain ⟨inside',place,-⟩ := contextSaved inside
  have fields : ∀ f' ∈ cpuContext, field d.mem d.ctxt f' = c.context f' :=
    fun f' own => (same f' own).trans (contextFields inside f' own)
  have stacked : Stacked 65536 (pointer (c.sp + 2)) d.mem d.sp (cpuContext.map c.context ++ []) := by
    rw [List.append_nil]
    exact ⟨by rw [sp]; exact inside',by rw [sp]; exact place,fieldsAbove fields⟩
  obtain ⟨regs,sreg,rest⟩ := restoreRun stacked
  refine ⟨regs,sreg,?_,(returnsRun rest).1⟩
  have low := rest.inside
  have top := rest.place
  simp only [List.length_cons,List.length_nil,pointer] at top
  omega

/-- The four layouts agree: the frame built by hand is one that RESTORE_CONTEXT takes, what
SAVE_CONTEXT pushes is a cpu_context_t, and what it has pushed is restored. -/
theorem contextAgrees (inside : t.sp < 65536) (words : exittask < 65536 ∧ tp < 65536 ∧ args < 65536 ∧ exitfn < 65536) :
    (∀ c : Cpu, Starts t.sp exittask tp args exitfn (c.onto (doSetuptask t exittask tp args exitfn)).enters) ∧
    (∀ malloc t' size, 0 < size → Block (malloc (allocated size)) (allocated size) → t = doAllocatestack malloc t' size →
      t.sp + 1 = t.sb + allocated size) ∧
    ∀ c : Cpu, c.sp < 65536 → Saves c (run c saveContext) ∧
      ∀ d, Resumes (run c saveContext) d → Restores c (run d restoreContext) := by
  refine ⟨setupStarts inside words,fun malloc t' size real block same => ?_,fun c low => ⟨saves low,fun d => restores low⟩⟩
  rw [same,allocatedTask real block.1]
  obtain ⟨positive,fits⟩ := block
  dsimp only
  unfold pointer
  omega

-- A task that asks for 164 bytes and gets a block at 100
theorem contextAgreesBlock :
    let malloc : Nat → Nat := fun _ => 100
    let t := doAllocatestack malloc ⟨fun _ => 0,[],0,0⟩ 164
    let c : Cpu := ⟨fun k => k,128,500,0,fun _ => 0⟩
    Starts t.sp 1000 2000 3 1500 (c.onto (doSetuptask t 1000 2000 3 1500)).enters ∧ t.sp + 1 = t.sb + allocated 164 ∧
      Saves c (run c saveContext) ∧ Restores c (run (run c saveContext) restoreContext) := by
  intro malloc t c
  have block : Block (malloc (allocated 164)) (allocated 164) := ⟨by decide,by decide⟩
  obtain ⟨starts,stack,switch⟩ := @contextAgrees t 1000 2000 3 1500 (by decide) (by decide)
  obtain ⟨saved,restored⟩ := switch c (by decide)
  exact ⟨starts c,stack malloc _ 164 (by decide) block rfl,saved,restored _ ⟨rfl,fun _ _ => rfl⟩⟩

end

end Avros.StackFrame
