import Avros.TaskSwitch

/-! Runs of the register file: what each owner sees of his registers, and what a task has of the
turns of others. -/
namespace Avros.StackFrame
open DownStack Run

structure Idle (a : Tasks) : Prop where
  running : a.running = none
  tasks : ∀ p, a.view (some p) = none

def View.pair (v : View) (r : Nat) : Nat := v.reg (r + 1) <<< 8 ||| v.reg r

structure Reads (mem : Nat → Nat) (ctxt : Nat) (v : View) : Prop where
  code : getKcallcode mem ctxt = v.reg 16
  p0 : getp0 mem ctxt = v.pair 24
  p1 : getp1 mem ctxt = v.pair 22
  p2 : getp2 mem ctxt = v.pair 20
  p3 : getp3 mem ctxt = v.pair 18

def Move.gives (p : Nat) : Move → Bool
  | .setp0 q _ => q = p
  | .setKcallcode q _ => q = p
  | _ => false

def View.takes (v : View) : Move → View
  | .setp0 _ word => (v.put 25 (high word)).put 24 (low word)
  | .setKcallcode _ code => v.put 16 code
  | _ => v

-- The answer to a call that has had `word` in r25 and r24.
def answer (word : Nat) (given : List Move) : Nat :=
  given.foldl (fun word i => match i with | .setp0 _ v => v | _ => word) word

/- From m to m' the task p does not have a turn, and its stack is neither freed nor built anew.
`given` is what is written for it. -/
inductive Waits (p : Nat) (m : Machine) : Machine → List Move → Prop where
  | start : Waits p m m []
  | next {m' given} (i : Move) (before : Waits p m m' given) (allowed : Legal m' i)
      (turn : ∀ back stack x, i = .dispatch back stack x → m'.current ≠ p) (own : i ≠ .freestack p)
      (new : ∀ exittask tp args exitfn found, i ≠ .setuptask p exittask tp args exitfn found) :
      Waits p m (m'.move i) (given ++ if i.gives p then [i] else [])

-- A task left off at c and goes on at d, with the registers it had but for some.
structure GoesOn (c d : Cpu) (but stack : List Nat) (irqdis : Bool) : Prop where
  regs : ∀ k < 32, k ∉ but → d.reg k = c.reg k
  sreg : d.sreg = c.sreg % 128 + if irqdis then 0 else 128
  sp : d.sp = c.sp
  stack : Above 65536 d.mem d.sp stack

section
variable {c d : Cpu} {m m' : Machine} {a : Tasks} {v w w' : View} {mem mem' : Nat → Nat} {l stack : List Nat}
  {sp s n r top back : Nat} {o next own : Owner}
  {t : Task} {p exittask tp args exitfn : Nat}

theorem Shows.start (started : Started m) : ∃ a, Idle a ∧ Shows m a := by
  obtain ⟨⟨kernel,empty⟩,inside,locked⟩ := started
  refine ⟨⟨fun o => if o = none then some m.cpu.view else none,m.irqdis,m.current,none⟩,⟨rfl,fun p => rfl⟩,?_⟩
  refine ⟨kernel.symm,⟨rfl,fun p real => nomatch kernel.symm.trans real⟩,rfl,⟨m.cpu.view,?_,?_⟩,empty _,
    fun real => absurd kernel real,fun o other => ?_,fun o v other view => ?_,fun o o' k k' _ one => ?_,fun v view => ?_⟩
  · exact if_pos kernel
  · exact ⟨fun _ _ => rfl,rfl,rfl,rfl,inside,aboveNil 65536 m.cpu.mem m.cpu.sp⟩
  · rw [kernel] at other
    rw [empty]
    dsimp only
    rw [if_neg other]
    rfl
  · rw [kernel] at other
    cases (if_neg other).symm.trans view
  · cases (empty o).symm.trans one
  · have same : m.cpu.view = v := by simpa using view
    subst same
    exact locked

theorem Asleep.reads (asleep : Asleep mem sp v) : Reads mem (pointer (sp + 1)) v := by
  obtain ⟨inside,-,-,-,context⟩ := asleep
  have stacked : Stacked 65536 _ mem sp (cpuContext.map v.context ++ v.stack) := ⟨inside,rfl,context⟩
  have read : ∀ k < 32, field mem (pointer (sp + 1)) (.r k) = v.reg k :=
    fun k small => fieldRead stacked (registerField small)
  have pair : ∀ k, k + 1 < 32 → getp (.r (k + 1)) (.r k) mem (pointer (sp + 1)) = v.pair k := by
    intro k small
    rw [getp,read (k + 1) small,read k (Nat.lt_of_succ_lt small)]
    rfl
  exact ⟨read 16 (by decide),pair 24 (by decide),pair 22 (by decide),pair 20 (by decide),pair 18 (by decide)⟩

theorem machineShown : Run.Simulates machine Legal Started tasks (fun _ _ => True) Idle Shows Eq := by
  refine Simulates.stepwise (fun m => Shows.start) ?_
  rintro m a i m' out holds legal taken
  obtain ⟨rfl,rfl⟩ := Prod.mk.inj (Option.some.inj taken)
  exact ⟨_,rfl,holds.moved legal⟩

theorem changeOther {o' : Owner} (other : o' ≠ o) (a : Tasks) (f : View → View) : (a.change o f).view o' = a.view o' :=
  Function.update_of_ne other ..

theorem putOwn (view : a.view (some p) = some v) (r value : Nat) :
    (a.put p r value).view (some p) = some (v.put r value) := by
  rw [putView a p r value view,Function.update_self]

theorem putOther {q : Nat} (other : p ≠ q) (a : Tasks) (r value : Nat) :
    (a.put q r value).view (some p) = a.view (some p) := by
  rw [Tasks.put,changeOther (fun same => other (Option.some.inj same)),changeOther (Option.some_ne_none p)]

theorem Shows.otherTurn (holds : Shows m a) (other : m.running ≠ some p) (view : a.view (some p) = some v) (i : Move)
    (turn : ∀ back stack x, i = .dispatch back stack x → m.current ≠ p) (own : i ≠ .freestack p)
    (new : ∀ exittask tp args exitfn found, i ≠ .setuptask p exittask tp args exitfn found) :
    (m.move i).running ≠ some p ∧ (a.move i).view (some p) = some ((if i.gives p then [i] else []).foldl View.takes v) := by
  have away : some p ≠ a.running := by
    rw [holds.running]
    exact Ne.symm other
  cases i with
  | compute c => exact ⟨other,(Function.update_of_ne away ..).trans view⟩
  | kcall code back stack x => exact ⟨nofun,(changeOther away a _).trans view⟩
  | interrupt event stack x => exact ⟨nofun,(changeOther away a _).trans view⟩
  | dispatch back stack x =>
    have turn' := turn back stack x rfl
    have current : some p ≠ some a.current := by
      rw [holds.current.1]
      exact fun same => turn' (Option.some.inj same).symm
    refine ⟨fun same => turn' (Option.some.inj same),?_⟩
    exact (changeOther current _ _).trans ((changeOther (Option.some_ne_none p) a _).trans view)
  | setp0 q word =>
    refine ⟨other,?_⟩
    by_cases his : p = q
    · subst his
      have given : (Move.setp0 p word).gives p = true := decide_eq_true rfl
      rw [given]
      exact putOwn (putOwn view 25 (high word)) 24 (low word)
    · have given : (Move.setp0 q word).gives p = false := decide_eq_false (Ne.symm his)
      rw [given]
      exact (putOther his _ 24 _).trans ((putOther his a 25 _).trans view)
  | setKcallcode q code =>
    refine ⟨other,?_⟩
    by_cases his : p = q
    · subst his
      have given : (Move.setKcallcode p code).gives p = true := decide_eq_true rfl
      rw [given]
      exact putOwn view 16 code
    · have given : (Move.setKcallcode q code).gives p = false := decide_eq_false (Ne.symm his)
      rw [given]
      exact (putOther his a 16 code).trans view
  | setuptask q exittask tp args exitfn found =>
    have his : some p ≠ some q := by
      rintro same
      cases same
      exact new exittask tp args exitfn found rfl
    refine ⟨other,(Function.update_of_ne his ..).trans ?_⟩
    exact (changeOther (Option.some_ne_none p) a _).trans view
  | allocatestack q top => exact ⟨other,view⟩
  | freestack q =>
    have his : some p ≠ some q := by
      rintro same
      cases same
      exact own rfl
    exact ⟨other,(Function.update_of_ne his ..).trans view⟩
  | schedule q => exact ⟨other,view⟩
  | flags irqdis => exact ⟨other,view⟩

theorem Shows.waits {given : List Move} (waits : Waits p m m' given) (holds : Shows m a) (other : m.running ≠ some p)
    (view : a.view (some p) = some v) :
    ∃ a', Shows m' a' ∧ m'.running ≠ some p ∧ a'.view (some p) = some (given.foldl View.takes v) := by
  induction waits with
  | start => exact ⟨a,holds,other,view⟩
  | next i before allowed turn own new ih =>
    obtain ⟨a',holds',other',view'⟩ := ih
    obtain ⟨away,after⟩ := holds'.otherTurn other' view' i turn own new
    rw [← List.foldl_append] at after
    exact ⟨_,holds'.moved allowed,away,after⟩

structure Taken (v v' : View) (word : Nat) : Prop where
  regs : ∀ k, k ≠ 16 → k ≠ 24 → k ≠ 25 → v'.reg k = v.reg k
  rest : v'.sreg = v.sreg ∧ v'.sp = v.sp ∧ v'.pc = v.pc ∧ v'.stack = v.stack
  pair : v'.pair 24 = word

theorem takesOne (v : View) (i : Move) (word : ∀ q w, i = .setp0 q w → w < 65536) :
    Taken v (v.takes i) (answer (v.pair 24) [i]) := by
  cases i with
  | setp0 q w =>
    refine ⟨fun k _ lowByte highByte => ?_,⟨rfl,rfl,rfl,rfl⟩,?_⟩
    · simp only [View.takes,View.put,Function.update_of_ne lowByte,Function.update_of_ne highByte]
    · simp only [View.takes,View.put,View.pair,answer,List.foldl_cons,List.foldl_nil]
      rw [Function.update_of_ne (by decide),Function.update_self,Function.update_self]
      exact (wordJoined (word q w rfl)).1
  | setKcallcode q code =>
    refine ⟨fun k codeByte _ _ => ?_,⟨rfl,rfl,rfl,rfl⟩,?_⟩
    · simp only [View.takes,View.put,Function.update_of_ne codeByte]
    · simp only [View.takes,View.put,View.pair,answer,List.foldl_cons,List.foldl_nil]
      rw [Function.update_of_ne (by decide),Function.update_of_ne (by decide)]
  | _ => exact ⟨fun _ _ _ _ => rfl,⟨rfl,rfl,rfl,rfl⟩,rfl⟩

theorem takesAll (given : List Move) (v : View) (word : ∀ q w, .setp0 q w ∈ given → w < 65536) :
    Taken v (given.foldl View.takes v) (answer (v.pair 24) given) := by
  induction given generalizing v with
  | nil => exact ⟨fun _ _ _ _ => rfl,⟨rfl,rfl,rfl,rfl⟩,rfl⟩
  | cons i given ih =>
    obtain ⟨regs,⟨sreg,sp,pc,stack⟩,pair⟩ := takesOne v i fun q w same => word q w (same ▸ List.mem_cons_self ..)
    obtain ⟨regs',⟨sreg',sp',pc',stack'⟩,pair'⟩ := ih (v.takes i) fun q w member => word q w (List.mem_cons_of_mem i member)
    refine ⟨fun k codeByte lowByte highByte => ?_,⟨sreg'.trans sreg,sp'.trans sp,pc'.trans pc,stack'.trans stack⟩,?_⟩
    · exact (regs' k codeByte lowByte highByte).trans (regs k codeByte lowByte highByte)
    · rw [pair] at pair'
      exact pair'

theorem Waits.words {given : List Move} (waits : Waits p m m' given) : ∀ q w, .setp0 q w ∈ given → w < 65536 := by
  induction waits with
  | start => exact fun q w member => nomatch member
  | next i before allowed turn own new ih =>
    intro q w member
    rcases List.mem_append.mp member with earlier | this
    · exact ih q w earlier
    · split at this
      · cases List.mem_singleton.mp this
        exact allowed.2.2
      · cases this

theorem Shows.comesBack {x : Scratch} (holds : Shows m a) (view : a.view (some p) = some v) (his : m.current = p)
    (legal : Legal m (.dispatch back stack x)) :
    AtWork (m.move (.dispatch back stack x)).cpu (v.resumed (m.irqdis p)) := by
  obtain ⟨w,found,work⟩ := (holds.moved legal).work
  have running : (m.move (.dispatch back stack x)).running = some p := congrArg some his
  have current : a.current = p := holds.current.1.trans his
  have after : (a.move (.dispatch back stack x)).view (some p) = some (v.resumed (m.irqdis p)) := by
    have first : (a.change none (·.waits back stack)).view (some a.current) = some v := by
      rw [changeOther (Option.some_ne_none _),current,view]
    have second := changeView (a.change none (·.waits back stack)) (some a.current) (·.resumed (a.irqdis a.current)) first
    refine (congrFun second (some p)).trans ?_
    rw [current,Function.update_self,holds.irqdis]
  rw [running,after] at found
  cases found
  exact work

theorem resumedSreg (v : View) (irqdis : Bool) (bare : v.sreg < 128) :
    (v.resumed irqdis).sreg = v.sreg + if irqdis then 0 else 128 := by
  cases irqdis with
  | true => rfl
  | false =>
    change v.sreg % 128 + 128 = v.sreg + 128
    rw [Nat.mod_eq_of_lt bare]

theorem resumedRest (v : View) (irqdis : Bool) :
    (v.resumed irqdis).reg = v.reg ∧ (v.resumed irqdis).sp = v.sp ∧ (v.resumed irqdis).pc = v.pc ∧
      (v.resumed irqdis).stack = v.stack := by
  cases irqdis <;> exact ⟨rfl,rfl,rfl,rfl⟩

variable {code event : Nat} {x x' : Scratch} {stack' : List Nat} {back' : Nat} {history given : List Move}

theorem AtWork.afterCall {e : Cpu} {irqdis : Bool} {word : Nat} (work : AtWork e w)
    (goes : AtWork c (v.resumed irqdis)) (taken : Taken (w.calls code back stack) v word) :
    c.pc = back ∧ (step c (.pop 16)).pair 24 = word ∧ GoesOn e (step c (.pop 16)) [24,25] stack irqdis := by
  obtain ⟨regs,sreg,sp,pc,inside,above⟩ := goes
  obtain ⟨taken,⟨vSreg,vSp,vPc,vStack⟩,pair⟩ := taken
  obtain ⟨sameReg,sameSp,samePc,sameStack⟩ := resumedRest v irqdis
  rw [sameReg] at regs
  rw [resumedSreg v irqdis (vSreg ▸ Nat.mod_lt _ (by decide)),vSreg] at sreg
  rw [sameSp,vSp] at sp
  rw [samePc,vPc] at pc
  rw [sameStack,vStack] at above
  obtain ⟨code_,rest⟩ := aboveCons.mp above
  have popped : (step c (.pop 16)).reg = Function.update c.reg 16 (c.mem (pointer (c.sp + 1))) := by
    cases c
    rfl
  refine ⟨pc,?_,⟨fun k small other => ?_,?_,?_,?_⟩⟩
  · rw [Cpu.pair,popped,Function.update_of_ne (by decide),Function.update_of_ne (by decide),regs 25 (by decide),
      regs 24 (by decide)]
    exact pair
  · rw [popped]
    by_cases codeByte : k = 16
    · rw [codeByte,Function.update_self,work.regs 16 (by decide)]
      exact code_
    · simp only [List.mem_cons,List.not_mem_nil,or_false,not_or] at other
      rw [Function.update_of_ne codeByte,regs k small,taken k codeByte other.1 other.2,work.regs k small]
      exact Function.update_of_ne codeByte ..
  · rw [work.sreg]
    exact sreg
  · have place : c.sp = pointer (w.sp + 65535) := sp
    have inside' := work.inside
    have same := work.sp
    change pointer (c.sp + 1) = e.sp
    rw [place]
    unfold pointer
    omega
  · exact rest

theorem AtWork.afterInterrupt {e : Cpu} {irqdis : Bool} (work : AtWork e w)
    (goes : AtWork c ((w.interrupted stack).resumed irqdis)) : c.pc = e.pc ∧ GoesOn e c [] stack irqdis := by
  obtain ⟨regs,sreg,sp,pc,inside,above⟩ := goes
  obtain ⟨sameReg,sameSp,samePc,sameStack⟩ := resumedRest (w.interrupted stack) irqdis
  rw [sameReg] at regs
  rw [resumedSreg (w.interrupted stack) irqdis (Nat.mod_lt _ (by decide))] at sreg
  rw [sameSp] at sp
  rw [samePc] at pc
  rw [sameStack] at above
  refine ⟨pc.trans work.pc.symm,⟨fun k small _ => ?_,?_,sp.trans work.sp.symm,above⟩⟩
  · exact (regs k small).trans (work.regs k small).symm
  · rw [work.sreg]
    exact sreg

theorem Shows.callReturns (holds : Shows m a) (turn : m.running = some p) (asked : Legal m (.kcall code back stack x))
    (waits : Waits p (m.move (.kcall code back stack x)) m' given) (his : m'.current = p)
    (resumed : Legal m' (.dispatch back' stack' x')) :
    let c := (m'.move (.dispatch back' stack' x')).cpu
    c.pc = back ∧ (step c (.pop 16)).pair 24 = answer (m.cpu.pair 24) given ∧
      GoesOn m.cpu (step c (.pop 16)) [24,25] stack (m'.irqdis p) := by
  obtain ⟨w,view,work⟩ := holds.work
  have called : (a.move (.kcall code back stack x)).view (some p) = some (w.calls code back stack) := by
    have after := changeView a a.running (·.calls code back stack) (w := w) (by rw [holds.running,view])
    refine (congrFun after (some p)).trans ?_
    rw [holds.running,turn,Function.update_self]
  obtain ⟨a',holds',-,view'⟩ := (holds.moved asked).waits waits nofun called
  have taken := takesAll given (w.calls code back stack) waits.words
  have word : (w.calls code back stack).pair 24 = m.cpu.pair 24 := by
    rw [Cpu.pair,work.regs 25 (by decide),work.regs 24 (by decide)]
    rfl
  rw [word] at taken
  exact work.afterCall (holds'.comesBack view' his resumed) taken

theorem Shows.interruptReturns (holds : Shows m a) (turn : m.running = some p) (asked : Legal m (.interrupt event stack x))
    (waits : Waits p (m.move (.interrupt event stack x)) m' []) (his : m'.current = p)
    (resumed : Legal m' (.dispatch back' stack' x')) :
    let c := (m'.move (.dispatch back' stack' x')).cpu
    c.pc = m.cpu.pc ∧ GoesOn m.cpu c [] stack (m'.irqdis p) := by
  obtain ⟨w,view,work⟩ := holds.work
  have called : (a.move (.interrupt event stack x)).view (some p) = some (w.interrupted stack) := by
    have after := changeView a a.running (·.interrupted stack) (w := w) (by rw [holds.running,view])
    refine (congrFun after (some p)).trans ?_
    rw [holds.running,turn,Function.update_self]
  obtain ⟨a',holds',-,view'⟩ := (holds.moved asked).waits waits nofun called
  exact work.afterInterrupt (holds'.comesBack view' his resumed)

end

-- A kernel at 60000, and a task with a stack up to 1000 whose entry is at 200
def boot : Machine := ⟨⟨fun _ => 0,0,60000,0,fun _ => 0⟩,0,0,fun _ => 0,fun _ => false,0,none,fun _ => none⟩
def found : View := ⟨fun _ => 0,0,1000,0,[]⟩
def scratch : Scratch := ⟨fun _ => 7,7⟩

def prepared : Machine := ((boot.move (.schedule 1)).move (.allocatestack 1 1000)).move (.setuptask 1 100 200 3 0 found)
def atTask : Machine := prepared.move (.dispatch 300 [] scratch)
def inCall : Machine := atTask.move (.kcall 65 400 [] scratch)
def inHandler : Machine := atTask.move (.interrupt 1 [] scratch)

theorem leavesEmpty {m : Machine} {o : Owner} {n k a b : Nat} (kept : m.kept = Function.update (fun _ => none) o (some k))
    (place : m.spOf o = a ∧ m.cpu.sp = b) (few : n ≤ b) (inside : b < 65536 ∧ a + k < 65536)
    (clear : b ≤ a ∨ a + k ≤ b - n) : Leaving m n [] := by
  refine ⟨aboveNil 65536 _ _,?_,?_⟩
  · rw [List.length_nil]
    omega
  · intro o' k' _ found j low i low'
    rw [kept,Function.update_apply] at found
    split at found
    · rename_i same
      cases found
      rw [same,place.1,place.2]
      rw [List.length_nil] at low
      omega
    · cases found

theorem prepareLegal : Legal ((boot.move (.schedule 1)).move (.allocatestack 1 1000)) (.setuptask 1 100 200 3 0 found) := by
  refine ⟨rfl,rfl,⟨rfl,by decide⟩,by decide,by decide,fun o k _ kept => ?_⟩
  cases kept

theorem dispatchLegal : Legal prepared (.dispatch 300 [] scratch) := by
  have kept : prepared.kept = Function.update (fun _ => none) (some 1) (some 37) := rfl
  have place : prepared.spOf (some 1) = 963 ∧ prepared.cpu.sp = 60000 := by decide
  exact ⟨rfl,rfl,by decide,leavesEmpty kept place (by decide) (by decide) (by decide)⟩

theorem goesOn {m : Machine} {i : Move} {history : List Move} (run : Reaches machine Legal Started m history)
    (legal : Legal m i) : Reaches machine Legal Started (m.move i) (history ++ [i]) := run.next legal rfl

theorem atTaskReached : ∃ history, Reaches machine Legal Started atTask history := by
  have start : Started boot := ⟨⟨rfl,fun _ => rfl⟩,by decide,by decide⟩
  have scheduled : Legal boot (.schedule 1) := rfl
  have allocated : Legal (boot.move (.schedule 1)) (.allocatestack 1 1000) := ⟨rfl,rfl,by decide⟩
  exact ⟨_,goesOn (goesOn (goesOn (goesOn (.start start) scheduled) allocated) prepareLegal) dispatchLegal⟩

theorem atTaskKept : atTask.kept = Function.update (fun _ => none) none (some 35) := by
  have kept : atTask.kept = Function.update (Function.update (Function.update (fun _ => none) (some 1) (some 37)) none
      (some 35)) (some 1) none := rfl
  rw [kept]
  funext o
  simp only [Function.update_apply]
  split_ifs <;> simp_all

theorem atTaskPlace : atTask.spOf none = 59965 ∧ atTask.cpu.sp = 998 := by decide

theorem callLegal : Legal atTask (.kcall 65 400 [] scratch) := by
  exact ⟨nofun,by decide,leavesEmpty atTaskKept atTaskPlace (by decide) (by decide) (by decide)⟩

theorem interruptLegal : Legal atTask (.interrupt 1 [] scratch) := by
  exact ⟨nofun,by decide,by decide,leavesEmpty atTaskKept atTaskPlace (by decide) (by decide) (by decide)⟩

theorem inCallKept : inCall.kept = Function.update (fun _ => none) (some 1) (some 36) := by
  have kept : inCall.kept = Function.update (Function.update atTask.kept (some 1) (some 36)) none none := rfl
  rw [kept,atTaskKept]
  funext o
  simp only [Function.update_apply]
  split_ifs <;> simp_all

theorem inHandlerKept : inHandler.kept = Function.update (fun _ => none) (some 1) (some 35) := by
  have kept : inHandler.kept = Function.update (Function.update atTask.kept (some 1) (some 35)) none none := rfl
  rw [kept,atTaskKept]
  funext o
  simp only [Function.update_apply]
  split_ifs <;> simp_all

theorem resumeLegal : Legal inCall (.dispatch 500 [] scratch) := by
  have place : inCall.spOf (some 1) = 962 ∧ inCall.cpu.sp = 60000 := by decide +kernel
  exact ⟨rfl,by rw [inCallKept]; rfl,by decide,leavesEmpty inCallKept place (by decide) (by decide) (by decide)⟩

theorem resumeLegal' : Legal inHandler (.dispatch 500 [] scratch) := by
  have place : inHandler.spOf (some 1) = 963 ∧ inHandler.cpu.sp = 60000 := by decide +kernel
  exact ⟨rfl,by rw [inHandlerKept]; rfl,by decide,leavesEmpty inHandlerKept place (by decide) (by decide) (by decide)⟩

section
variable {m m' : Machine} {p back' : Nat} {history : List Move} {x' : Scratch} {stack' : List Nat}

/-- One register file and one memory pass for a processor of his own for everybody: a run is one
of the kernel and the tasks with a file each, where the one at work has the real registers, the
kernel is never interrupted, and reads of a task that waits what it has in its file. -/
theorem virtualCpus {history : List Move} (run : Reaches machine Legal Started m history) :
    ∃ a, Reaches tasks (fun _ _ => True) Idle a history ∧ Shows m a ∧ (m.running = none → ¬ enabled m.cpu.sreg) ∧
      ∀ p v, some p ≠ m.running → a.view (some p) = some v → Reads m.cpu.mem (pointer (m.sp p + 1)) v := by
  obtain ⟨a,_,run',holds,rfl⟩ := machineShown.reaches run
  refine ⟨a,run',holds,fun kernel => ?_,fun p v other view => (holds.contexts _ v other view).reads⟩
  obtain ⟨v,view,work⟩ := holds.work
  rw [kernel] at view
  rw [work.sreg]
  exact holds.locked v view

theorem virtualCpusCall : ∃ history a, Reaches tasks (fun _ _ => True) Idle a history ∧ Shows inCall a ∧
    (inCall.running = none → ¬ enabled inCall.cpu.sreg) ∧ ∀ p v, some p ≠ inCall.running → a.view (some p) = some v →
      Reads inCall.cpu.mem (pointer (inCall.sp p + 1)) v := by
  obtain ⟨history,run⟩ := atTaskReached
  exact ⟨_,virtualCpus (goesOn run callLegal)⟩

/-- What a task has of the turns of others: a kernel call comes back behind it, with the answer in
r25 and r24 and all other registers and the stack as they were, and an interrupt changes none;
the flag is set unless the task has interrupts disabled. -/
theorem turnsUnseen (run : Reaches machine Legal Started m history) (turn : m.running = some p) (his : m'.current = p)
    (resumed : Legal m' (.dispatch back' stack' x')) :
    let c := (m'.move (.dispatch back' stack' x')).cpu
    (∀ code back stack x given, Legal m (.kcall code back stack x) →
      Waits p (m.move (.kcall code back stack x)) m' given →
        c.pc = back ∧ (step c (.pop 16)).pair 24 = answer (m.cpu.pair 24) given ∧
          GoesOn m.cpu (step c (.pop 16)) [24,25] stack (m'.irqdis p)) ∧
    ∀ event stack x, Legal m (.interrupt event stack x) → Waits p (m.move (.interrupt event stack x)) m' [] →
      c.pc = m.cpu.pc ∧ GoesOn m.cpu c [] stack (m'.irqdis p) := by
  obtain ⟨a,-,-,holds,-⟩ := machineShown.reaches run
  exact ⟨fun code back stack x given asked waits => holds.callReturns turn asked waits his resumed,
    fun event stack x asked waits => holds.interruptReturns turn asked waits his resumed⟩

theorem turnsUnseenCall : (let c := (inCall.move (.dispatch 500 [] scratch)).cpu
    c.pc = 400 ∧ (step c (.pop 16)).pair 24 = answer (atTask.cpu.pair 24) [] ∧
      GoesOn atTask.cpu (step c (.pop 16)) [24,25] [] (inCall.irqdis 1)) ∧
    let c := (inHandler.move (.dispatch 500 [] scratch)).cpu
    c.pc = atTask.cpu.pc ∧ GoesOn atTask.cpu c [] [] (inHandler.irqdis 1) := by
  obtain ⟨history,run⟩ := atTaskReached
  exact ⟨(@turnsUnseen atTask inCall 1 500 history scratch [] run rfl rfl resumeLegal).1 65 400 [] scratch [] callLegal
      .start,
    (@turnsUnseen atTask inHandler 1 500 history scratch [] run rfl rfl resumeLegal').2 1 [] scratch interruptLegal .start⟩

end

end Avros.StackFrame
