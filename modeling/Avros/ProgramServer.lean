import Avros.Run
import Avros.ArgumentCopy
import Avros.ProcessExec

/-! `servers/ex.c`: the programs under their names. A name is copied from the memory of whoever
registers it, and compared byte by byte with the one that is asked for. -/
namespace Avros.Ex
open Run
open Pm (Addr StringAt poke stringBytes)
open Pm.Argv (turns strlen strcpyFrom)
open Census (ExPrg exGetPrg)

-- An ex_prg_t; `name` is where its copy of the name stands.
structure Prg where
  name : Addr
  stack : Nat
  ptr : Addr

-- ex_prg_head, and the memory that the names are in.
structure Server where
  mem : Nat → Nat
  prgs : List Prg

def strcmpFrom (mem : Nat → Nat) (p q : Addr) : Nat → Nat → Option Bool
  | 0,_ => none
  | fuel + 1,n =>
    if mem (p + n) ≠ mem (q + n) then some false
    else if mem (p + n) = 0 then some true else strcmpFrom mem p q fuel (n + 1)

-- !strcmp(name, it->name)
def strcmp (mem : Nat → Nat) (p q : Addr) : Option Bool := strcmpFrom mem p q turns 0

/- The two answers of kmalloc() are given, the first for the record and the second for the copy.
A record without a copy is not queued, nor freed. -/
def exRegPrg (s : Server) (name ptr stack prg copy : Addr) : Option (Server × Bool) := do
  if prg = 0 then some (s,false)
  else do
    let _size ← strlen s.mem name
    if copy = 0 then some (s,false)
    else do
      let m ← strcpyFrom copy name turns 0 ⟨s.mem,[]⟩
      some (⟨m.bytes,s.prgs ++ [⟨copy,stack,ptr⟩]⟩,true)

def exGetPrgFrom (mem : Nat → Nat) (name : Addr) : List Prg → Option (Addr × Nat)
  | [] => some (0,0)
  | it::rest => do
    if ← strcmp mem name it.name then some (it.ptr,it.stack) else exGetPrgFrom mem name rest

inductive Msg where
  | regprg (name ptr stack : Addr)
  | getprg (name : Addr)
  | other (cmd : Nat)

inductive Reply where
  | same
  | ans (ptr : Addr) (stack : Nat)
  deriving DecidableEq

-- A message with the string that its name points to.
inductive Request where
  | regprg (name : List Nat) (ptr stack : Addr)
  | getprg (name : List Nat)
  | other (cmd : Nat)

def Msg.request (name : List Nat) : Msg → Request
  | .regprg _ ptr stack => .regprg name ptr stack
  | .getprg _ => .getprg name
  | .other cmd => .other cmd

structure Turn where
  client : Nat
  request : Request
  kmalloc : Addr × Addr
  reply : Option Reply

inductive Input where
  | receive (client : Nat) (msg : Msg) (name : List Nat) (prg copy : Addr)
  | elsewhere (mem : Nat → Nat)

def ex : Step Server Input Turn := fun s i =>
  match i with
  | .elsewhere mem => some ({ s with mem := mem },[])
  | .receive client msg name prg copy =>
    match msg with
    | .regprg at_ ptr stack => do
      let (s',made) ← exRegPrg s at_ ptr stack prg copy
      some (s',[⟨client,msg.request name,(prg,copy),if made then some .same else none⟩])
    | .getprg at_ => do
      let (ptr,stack) ← exGetPrgFrom s.mem at_ s.prgs
      some (s,[⟨client,msg.request name,(prg,copy),some (.ans ptr stack)⟩])
    | .other _ => some (s,[⟨client,msg.request name,(prg,copy),some .same⟩])

structure Named (mem : Nat → Nat) (at_ : Addr) (name : List Nat) : Prop where
  string : StringAt mem at_ name
  inside : at_ + name.length < 65536

def Beside (p : Nat) (s : List Nat) (q : Nat) (t : List Nat) : Prop := p + s.length < q ∨ q + t.length < p

-- kmalloc() gives a block that nobody has.
structure Given (s : Server) (at_ : Addr) (name : List Nat) (copy : Addr) : Prop where
  inside : copy + name.length < 65536
  client : Beside at_ name copy name
  others : ∀ it ∈ s.prgs, ∀ t, Named s.mem it.name t → Beside it.name t copy name

/- A name that is asked for or registered is a string, and nobody else writes into the copies. -/
def Legal (s : Server) : Input → Prop
  | .elsewhere mem => ∀ it ∈ s.prgs, ∀ t, Named s.mem it.name t → ∀ n ≤ t.length, mem (it.name + n) = s.mem (it.name + n)
  | .receive _ (.regprg at_ _ _) name _ copy => Named s.mem at_ name ∧ (copy ≠ 0 → Given s at_ name copy)
  | .receive _ (.getprg at_) name _ _ => Named s.mem at_ name
  | .receive _ (.other _) _ _ _ => True

-- ex_init_prg()
def Started (s : Server) : Prop := s.prgs = []

def Turn.registers (t : Turn) : Option ExPrg :=
  match t.request,t.reply with
  | .regprg name ptr stack,some _ => some ⟨name,stack,ptr⟩
  | _,_ => none

def registered (history : List Turn) : List ExPrg := history.filterMap Turn.registers

/- A program is found under the name that it was registered with first; who registers one is
answered if there is memory for it, and waits for ever if not. -/
def Answered (before : List Turn) (t : Turn) : Prop :=
  match t.request with
  | .regprg _ _ _ => t.reply = if t.kmalloc.1 = 0 ∨ t.kmalloc.2 = 0 then none else some .same
  | .getprg name => t.reply = some (.ans (exGetPrg name (registered before)).1 (exGetPrg name (registered before)).2)
  | .other _ => t.reply = some .same

structure Stands (mem : Nat → Nat) (it : Prg) (prg : ExPrg) : Prop where
  name : Named mem it.name prg.name
  stack : it.stack = prg.stack
  ptr : it.ptr = prg.ptr

def Holds (s : Server) (list : List ExPrg) : Prop := List.Forall₂ (Stands s.mem) s.prgs list

section
variable {s s' : Server} {mem mem' : Nat → Nat} {p q : Addr} {t u : List Nat} {list : List ExPrg} {history : List Turn}

theorem strcmpStrings {fuel n : Nat} (one : StringAt mem (p + n) t) (other : StringAt mem (q + n) u)
    (enough : t.length < fuel) : strcmpFrom mem p q fuel n = some (decide (t = u)) := by
  induction t generalizing n u fuel with
  | nil =>
    obtain ⟨fuel,rfl⟩ := Nat.exists_eq_add_of_lt enough
    have last : mem (p + n) = 0 := one
    cases u with
    | nil =>
      have last' : mem (q + n) = 0 := other
      simp [strcmpFrom,last,last']
    | cons d more => simp [strcmpFrom,last,other.1,other.2.1.symm]
  | cons c rest ih =>
    obtain ⟨fuel,rfl⟩ : ∃ k, fuel = k + 1 := ⟨fuel - 1,by omega⟩
    obtain ⟨first,real,later⟩ := one
    cases u with
    | nil =>
      have last' : mem (q + n) = 0 := other
      simp [strcmpFrom,first,last',real]
    | cons d more =>
      obtain ⟨first',real',later'⟩ := other
      by_cases same : c = d
      · subst same
        rw [strcmpFrom,first,first',if_neg (not_not.mpr rfl),if_neg real,
          ih (n := n + 1) later later' (Nat.lt_of_succ_lt_succ enough)]
        simp
      · simp [strcmpFrom,first,first',same]

theorem strcmpNamed (one : Named mem p t) (other : Named mem q u) : strcmp mem p q = some (decide (t = u)) := by
  have few : t.length < turns := Nat.lt_of_le_of_lt (Nat.le_add_left ..) one.inside
  exact strcmpStrings (n := 0) one.string other.string few

theorem getRefines (asked : Named mem p t) {prgs : List Prg} (holds : List.Forall₂ (Stands mem) prgs list) :
    exGetPrgFrom mem p prgs = some (exGetPrg t list) := by
  induction holds with
  | nil => rfl
  | @cons it prg prgs list stands _ ih =>
    rw [exGetPrgFrom,strcmpNamed asked stands.name,exGetPrg,stands.stack,stands.ptr]
    by_cases same : t = prg.name
    · simp [same]
    · simp [same,ih]

theorem Named.same (named : Named mem p t) (agree : ∀ n ≤ t.length, mem' (p + n) = mem (p + n)) : Named mem' p t :=
  ⟨named.string.same agree,named.inside⟩

theorem standsKept {prgs : List Prg} (holds : List.Forall₂ (Stands mem) prgs list)
    (agree : ∀ it ∈ prgs, ∀ t, Named mem it.name t → ∀ n ≤ t.length, mem' (it.name + n) = mem (it.name + n)) :
    List.Forall₂ (Stands mem') prgs list := by
  induction holds with
  | nil => exact .nil
  | @cons it prg prgs list stands _ ih =>
    have own := agree it List.mem_cons_self prg.name stands.name
    refine .cons ⟨stands.name.same own,stands.stack,stands.ptr⟩ (ih fun it' member => ?_)
    exact agree it' (List.mem_cons_of_mem _ member)

theorem stringPlain (string : StringAt mem p t) : ∀ c ∈ t, c ≠ 0 := by
  induction t generalizing p with
  | nil => simp
  | cons c rest ih => exact List.forall_mem_cons.mpr ⟨string.2.1,ih string.2.2⟩

theorem copyStands {copy ptr stack : Addr} (asked : Named s.mem p t) (given : Given s p t copy) (holds : Holds s list) :
    Holds ⟨poke s.mem (stringBytes copy t),s.prgs ++ [⟨copy,stack,ptr⟩]⟩ (list ++ [⟨t,stack,ptr⟩]) := by
  obtain ⟨inside,-,others⟩ := given
  have plain := stringPlain asked.string
  refine List.rel_append (standsKept holds fun it member u named n short => ?_) (.cons ⟨⟨?_,inside⟩,rfl,rfl⟩ .nil)
  · have beside := others it member u named
    refine Pm.pokeOther fun b stored => ?_
    have range := Pm.stringBytesRange b stored
    unfold Beside at beside
    omega
  · exact Pm.stringWritten plain

theorem regRefines (ptr stack prg : Addr) {copy : Addr} (asked : Named s.mem p t) (given : copy ≠ 0 → Given s p t copy)
    (holds : Holds s list) : ∃ s' made, exRegPrg s p ptr stack prg copy = some (s',made) ∧
      made = !decide (prg = 0 ∨ copy = 0) ∧ Holds s' (list ++ if made then [⟨t,stack,ptr⟩] else []) := by
  by_cases record : prg = 0
  · exact ⟨s,false,by simp [exRegPrg,record],by simp [record],by simpa using holds⟩
  · have few : t.length < turns := Nat.lt_of_le_of_lt (Nat.le_add_left ..) asked.inside
    have size : strlen s.mem p = some (0 + t.length) := Pm.Argv.strlenString (n := 0) asked.string few
    by_cases none_ : copy = 0
    · exact ⟨s,false,by simp [exRegPrg,record,size,none_],by simp [none_],by simpa using holds⟩
    · have beside := (given none_).client
      have copied : strcpyFrom copy p turns 0 ⟨s.mem,[]⟩ = some _ :=
        Pm.Argv.strcpyString asked.string (by simpa [Beside] using beside) few
      refine ⟨_,true,?_,by simp [record,none_],copyStands asked (given none_) holds⟩
      rw [exRegPrg,if_neg record,size]
      simp only [bind,Option.bind_some,if_neg none_,copied]
      rfl

structure Serves (s : Server) (history : List Turn) : Prop where
  holds : Holds s (registered history)
  answered : Always Answered history

theorem registeredSnoc (history : List Turn) (turn : Turn) :
    registered (history ++ [turn]) = registered history ++ turn.registers.toList := by
  rw [registered,List.filterMap_append]
  cases same : turn.registers <;> simp [registered,same]

theorem exServes {i : Input} (serves : Serves s history) (legal : Legal s i) :
    ∃ s' out, ex s i = some (s',out) ∧ Serves s' (history ++ out) := by
  obtain ⟨holds,answered⟩ := serves
  cases i with
  | elsewhere mem =>
    refine ⟨_,_,rfl,?_,by simpa using answered⟩
    rw [List.append_nil]
    exact standsKept holds legal
  | receive client msg name prg copy =>
    cases msg with
    | regprg at_ ptr stack =>
      obtain ⟨s',made,ran,same,holds'⟩ := regRefines ptr stack prg legal.1 legal.2 holds
      refine ⟨s',_,by simp only [ex,ran,bind,Option.bind_some]; rfl,?_,answered.snoc ?_⟩
      · rw [registeredSnoc]
        cases made
        · exact holds'
        · exact holds'
      · unfold Answered Msg.request
        simp only [same]
        by_cases denied : prg = 0 ∨ copy = 0
        · simp [denied]
        · simp [denied]
    | getprg at_ =>
      have found := getRefines legal holds
      refine ⟨s,_,by simp only [ex,found,bind,Option.bind_some]; rfl,?_,answered.snoc ?_⟩
      · rw [registeredSnoc]
        simpa [Turn.registers,Msg.request] using holds
      · rfl
    | other cmd =>
      refine ⟨s,_,rfl,?_,answered.snoc rfl⟩
      rw [registeredSnoc]
      simpa [Turn.registers,Msg.request] using holds

theorem runServes (run : Reaches ex Legal Started s history) : Serves s history := by
  refine run.invariant (P := Serves) (fun s first => ?_) fun s history i s' out serves legal taken => ?_
  · refine ⟨?_,alwaysNil _⟩
    unfold Holds
    rw [first]
    exact .nil
  · obtain ⟨s'',out',ran,serves'⟩ := exServes serves legal
    cases taken.symm.trans ran
    exact serves'

-- The first program of a name hides the others.
theorem foundAppend {name : List Nat} {list more : List ExPrg} (found : (exGetPrg name list).1 ≠ 0) :
    exGetPrg name (list ++ more) = exGetPrg name list := by
  induction list with
  | nil => exact absurd rfl found
  | cons it rest ih =>
    rw [List.cons_append,exGetPrg,exGetPrg]
    rw [exGetPrg] at found
    by_cases same : name = it.name
    · rw [if_pos same,if_pos same]
    · rw [if_neg same] at found
      rw [if_neg same,if_neg same]
      exact ih found

/-- EX comes back to its receive after every message, has answered each as the registrations
before it say, and has not changed its mind about a program that it knew. -/
theorem programsFound (run : Reaches ex Legal Started s history) :
    Always Answered history ∧ (∀ i, Legal s i → (ex s i).isSome) ∧
    ∀ before after, history = before ++ after → ∀ name, (exGetPrg name (registered before)).1 ≠ 0 →
      exGetPrg name (registered history) = exGetPrg name (registered before) := by
  have serves := runServes run
  refine ⟨serves.answered,fun i legal => ?_,?_⟩
  · obtain ⟨s',out,ran,-⟩ := exServes serves legal
    rw [ran]
    rfl
  · rintro before after rfl name found
    rw [registered,List.filterMap_append]
    exact foundAppend found

end

-- "sh" at 10, registered with its copy at 100, and looked up
def demoServer : Server := ⟨fun a => if a = 10 then 115 else if a = 11 then 104 else 0,[]⟩

theorem programsFoundSh : ∃ (s : Server) (history : List Turn), history.map (·.reply) = [some .same,some (.ans 128 12)] ∧
    Always Answered history ∧ (∀ i, Legal s i → (ex s i).isSome) ∧
    ∀ before after, history = before ++ after → ∀ name, (exGetPrg name (registered before)).1 ≠ 0 →
      exGetPrg name (registered history) = exGetPrg name (registered before) := by
  have named : Named demoServer.mem 10 [115,104] := ⟨⟨rfl,by decide,rfl,by decide,rfl⟩,by decide⟩
  have legal : Legal demoServer (.receive 5 (.regprg 10 128 12) [115,104] 60 100) :=
    ⟨named,fun _ => ⟨by decide,.inl (by decide),fun it member => nomatch member⟩⟩
  have first : ex demoServer (.receive 5 (.regprg 10 128 12) [115,104] 60 100) =
      some (⟨poke demoServer.mem (stringBytes 100 [115,104]),[⟨100,12,128⟩]⟩,
        [⟨5,.regprg [115,104] 128 12,(60,100),some .same⟩]) := rfl
  have again : Legal ⟨poke demoServer.mem (stringBytes 100 [115,104]),[⟨100,12,128⟩]⟩
      (.receive 7 (.getprg 10) [115,104] 0 0) := ⟨⟨rfl,by decide,rfl,by decide,rfl⟩,by decide⟩
  have start : Reaches ex Legal Started demoServer [] := .start rfl
  have run := (start.next legal first).next again rfl
  exact ⟨_,_,rfl,programsFound run⟩

end Avros.Ex
