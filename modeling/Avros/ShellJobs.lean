import Avros.ProcessChildren
import Avros.ExitCodes

/-! `usr/sh.c`, execute() and what it asks of PM. A job runs in a task of its own, which
the shell spawns and waits for: exec_job itself, or launch_job, which spawns exec_job and
exits. The shell follows its script; every other process, the launch_job and exec_job
tasks among them, asks PM for whatever it likes, in any order. -/
namespace Avros.Sh
open Pm Run

inductive Builtin where | none | exit | cd
  deriving DecidableEq, Repr

-- What builtin() asks of PM; mexit does not return.
def builtin : Builtin → List Cmd
  | .exit => [.malloc,.malloc,.exit]
  | _ => [.malloc,.malloc,.free,.free]

def execute (direct : Bool) (b : Builtin) : List Cmd :=
  if direct then
    if b = .none then builtin b ++ [.malloc,.spawn,.free,.wait] else builtin b
  else [.malloc,.spawn,.free,.wait]

/- The shell's process, what execute() has still to ask, and the task it spawned last: its
record until the shell is told of it, its pid, and the code it exited with. -/
structure Shell where
  self : Addr
  pid : Pid
  script : List Cmd
  child : Option Addr
  spawned : Pid
  code : Option Nat
  deriving DecidableEq, Repr

structure Session where
  machine : Machine
  shell : Option Shell

inductive Act where
  | execute (direct : Bool) (b : Builtin)
  | ask (r : Request)
  | other (r : Request)

structure Waited where
  pid : Pid
  code : Nat
  spawned : Pid
  exited : Option Nat
  deriving DecidableEq, Repr

def noted (s : Tables) (sh : Shell) (r : Request) : Shell :=
  if r.msg.cmd = .exit ∧ sh.child = some (recordOf s r.client) then { sh with code := some r.msg.w0 } else sh

def told (sh : Shell) (calls : List Call) : List Waited :=
  ((sent calls).filter (·.1 = sh.pid)).map (fun a => ⟨a.2.w0,a.2.w1,sh.spawned,sh.code⟩)

-- wait() returns when PM answers.
def heard (sh : Shell) (calls : List Call) : Shell :=
  if told sh calls = [] then sh else { sh with script := sh.script.tail, child := none }

def ask (sh : Shell) (r : Request) (calls : List Call) : Option (Option Shell × List Waited) :=
  match sh.script with
  | [] =>
    if r.msg.cmd = .malloc ∨ r.msg.cmd = .free then some (some sh,[])
    else if r.msg.cmd = .exit then some (none,[])
    else none
  | cmd::rest =>
    if r.msg.cmd ≠ cmd then none
    else if cmd = .spawn then
      some (some { sh with script := rest, child := some r.record, spawned := r.task, code := none },[])
    else if cmd = .wait then some (some (heard sh calls),told sh calls)
    else if cmd = .exit then some (none,[])
    else some (some { sh with script := rest },[])

def step : Step Session Act Waited := fun s act =>
  match act with
  | .execute direct b => do
    let sh ← s.shell
    if sh.script = [] then some (⟨s.machine,some { sh with script := execute direct b }⟩,[]) else none
  | .ask r => do
    let sh ← s.shell
    let y ← serve s.machine.pm r
    let (next,out) ← ask sh r y.calls
    some (⟨after s.machine y,next⟩,out)
  | .other r => do
    let y ← serve s.machine.pm r
    match s.shell with
    | none => some (⟨after s.machine y,none⟩,[])
    | some sh => some (⟨after s.machine y,some (heard (noted s.machine.pm sh r) y.calls)⟩,
        told (noted s.machine.pm sh r) y.calls)

/- The shell's requests come from its process, its spawns succeed, and its wait is wait(),
not waitpid(). -/
def Allowed (s : Session) : Act → Prop
  | .execute _ _ => True
  | .ask r => Possible s.machine r ∧ (r.msg.cmd = .spawn → Granted s.machine r) ∧
      ∀ sh, s.shell = some sh → r.client = sh.pid ∧ (r.msg.cmd = .wait → r.msg.w0 = taskAny)
  | .other r => Possible s.machine r ∧ ∀ sh, s.shell = some sh → r.client ≠ sh.pid

def Opened (s : Session) : Prop :=
  ∃ sh t history, s.shell = some sh ∧ Reaches Pm.step Possible Begun s.machine history ∧
    Sender s.machine.pm sh.pid sh.self t ∧ sh.script = [] ∧ sh.child = none ∧
    ∀ a u, s.machine.pm.record a = some u → u.parent ≠ sh.self

/- A script asks for a wait after each spawn and for nothing in between that could make or
lose a child; `child` says whether a spawn is still to be waited for. -/
def owed : Bool → List Cmd → Bool
  | child,[] => !child
  | child,.spawn::rest => !child && owed true rest
  | child,.wait::rest => child && owed false rest
  | child,.exit::_ => !child
  | child,.malloc::rest => owed child rest
  | child,.free::rest => owed child rest
  | _,.exec::_ => false
  | _,.other::_ => false

theorem executeOwed (direct : Bool) (b : Builtin) : owed false (execute direct b) = true := by
  cases direct <;> cases b <;> rfl

/-! What a request leaves alone: the processes that are neither its sender nor a zombie
child of the sender. -/

section
variable {s s' : Tables} {c a : Addr} {t u : PmTask} {rest : List Addr} {r : Request} {calls : List Call}

structure Spared (s s' : Tables) (c a : Addr) (t u : PmTask) (cmd : Cmd) : Prop where
  record : s'.record a = some (if cmd = .exit then orphanOf c u else u)
  zombie : a ∈ s'.zombieQ ↔ a ∈ s.zombieQ
  ready : a ∈ s.taskQ → a ∈ s'.taskQ
  waiting : a ∈ s.waitQ → a ∈ s'.waitQ ∨ cmd = .exit ∧ t.parent = a ∧ a ∈ s'.taskQ
  waited : a ∈ s'.waitQ → a ∈ s.waitQ

theorem bereavedSpared (other : a ≠ c) (record : s.record a = some u) (stays : a ∈ s.zombieQ → u.parent ≠ c) :
    (bereaved s c t).record a = some (orphanOf c u) ∧ (a ∈ (bereaved s c t).zombieQ ↔ a ∈ s.zombieQ) := by
  have kept : ¬(a ∈ s.zombieQ ∧ childOf s c a = true) := by
    rintro ⟨zombie,child⟩
    rw [childOfSome record] at child
    exact stays zombie (by simpa using child)
  refine ⟨by simp only [bereaved,if_neg kept,if_neg other,record,Option.map_some],?_⟩
  rw [bereaved,List.mem_filter]
  refine ⟨fun member => member.1,fun zombie => ⟨zombie,?_⟩⟩
  rw [childOfSome record]
  simpa using stays zombie

theorem doesSpares (front : s.taskQ = c::rest) (given : Offers s r) (did : Does s c t rest r s' calls)
    (other : a ≠ c) (record : s.record a = some u) (stays : a ∈ s.zombieQ → u.parent ≠ c) :
    Spared s s' c a t u r.msg.cmd := by
  have behind : a ∈ s.taskQ → a ∈ rest := by
    intro member
    rw [front] at member
    exact (List.mem_cons.mp member).resolve_left other
  have changed : ∀ v, (update s c v).record a = some u := fun v => (updateAway v other).trans record
  cases did with
  | spawned cmd =>
    have new : a ≠ r.record := by
      rintro rfl
      simp only [Offers,cmd] at given
      rw [given] at record
      contradiction
    exact ⟨by rw [cmd]; exact (updateAway _ new).trans record,Iff.rfl,fun member => List.mem_append_left _ member,
      fun member => .inl member,fun member => member⟩
  | stillborn cmd =>
    have new : a ≠ r.record := by
      rintro rfl
      simp only [Offers,cmd] at given
      rw [given] at record
      contradiction
    exact ⟨by rw [cmd]; exact (updateAway _ new).trans record,Iff.rfl,fun member => List.mem_append_left _ member,
      fun member => .inl member,fun member => member⟩
  | unknown cmd | foreign cmd | ignored cmd | unmade cmd | stuck cmd | denied cmd =>
    exact ⟨by rw [cmd]; exact record,Iff.rfl,fun member => member,fun member => .inl member,fun member => member⟩
  | replaced cmd | childless cmd | allocated cmd | released cmd =>
    exact ⟨by rw [cmd]; exact changed _,Iff.rfl,fun member => member,fun member => .inl member,fun member => member⟩
  | blocked cmd =>
    refine ⟨by rw [cmd]; exact changed _,Iff.rfl,behind,fun member => .inl (List.mem_append_left _ member),?_⟩
    intro member
    exact (List.mem_append.mp member).resolve_right (fun last => other (List.mem_singleton.mp last))
  | @zombieReported z v cmd first zombie =>
    have away : a ≠ z := by
      rintro rfl
      have answers := List.find?_some first
      cases Option.some.inj (zombie.symm.trans record)
      simp only [Pm.answers,record,Option.any_some,decide_eq_true_eq] at answers
      exact stays (List.mem_of_find?_eq_some first) answers.1
    refine ⟨?_,?_,fun member => member,fun member => .inl member,fun member => member⟩
    · rw [cmd]
      exact (Function.update_of_ne away _ _).trans (changed _)
    · exact List.mem_erase_of_ne away
  | orphanLeft cmd =>
    obtain ⟨kept,zombie⟩ := bereavedSpared (t := t) other record stays
    exact ⟨by rw [cmd]; exact (Function.update_of_ne other _ _).trans kept,zombie,behind,
      fun member => .inl member,fun member => member⟩
  | parentWoken cmd =>
    obtain ⟨kept,zombie⟩ := bereavedSpared (t := t) other record stays
    refine ⟨by rw [cmd]; exact (Function.update_of_ne other _ _).trans kept,zombie,
      fun member => List.mem_append_left _ (behind member),fun member => ?_,fun member => List.mem_of_mem_erase member⟩
    by_cases same : t.parent = a
    · exact .inr ⟨cmd,same,by simp [same]⟩
    · exact .inl ((List.mem_erase_of_ne (Ne.symm same)).mpr member)
  | zombieMade cmd =>
    obtain ⟨kept,zombie⟩ := bereavedSpared (t := t) other record stays
    refine ⟨by rw [cmd]; exact (updateAway _ other).trans kept,?_,behind,fun member => .inl member,
      fun member => member⟩
    rw [List.mem_append,List.mem_singleton,zombie]
    exact ⟨fun member => member.resolve_right other,fun member => .inl member⟩

theorem doesSelf (sound : Sound s) (front : s.taskQ = c::rest) (there : s.record c = some t) (given : Offers s r)
    (did : Does s c t rest r s' calls) (stays : r.msg.cmd ≠ .exit) :
    ∃ u, s'.record c = some u ∧ u.pid = t.pid ∧ u.parent = t.parent ∧ c ∉ s'.zombieQ ∧
      (c ∈ s'.taskQ ∨ r.msg.cmd = .wait ∧ c ∈ s'.waitQ ∧ u.word = r.msg.w0) := by
  have member : c ∈ s.taskQ := by simp [front]
  have alive : c ∉ s.zombieQ := fun zombie => sound.zombieApart (List.mem_append_left _ member) zombie rfl
  have new : r.msg.cmd = .spawn → c ≠ r.record := by
    rintro cmd rfl
    simp only [Offers,cmd] at given
    rw [given] at there
    contradiction
  cases did with
  | spawned cmd | stillborn cmd =>
    exact ⟨t,(updateAway _ (new cmd)).trans there,rfl,rfl,alive,.inl (List.mem_append_left _ member)⟩
  | unknown | foreign | ignored | unmade | stuck | denied => exact ⟨t,there,rfl,rfl,alive,.inl member⟩
  | replaced | childless | allocated | released => exact ⟨_,updateAt s c _,rfl,rfl,alive,.inl member⟩
  | blocked cmd =>
    exact ⟨_,updateAt s c _,rfl,rfl,alive,.inr ⟨cmd,List.mem_append_right _ (List.mem_singleton.mpr rfl),rfl⟩⟩
  | @zombieReported z v cmd first =>
    have away : c ≠ z := fun same => alive (same ▸ List.mem_of_find?_eq_some first)
    exact ⟨_,(Function.update_of_ne away _ _).trans (updateAt s c _),rfl,rfl,
      fun zombie => alive (List.mem_of_mem_erase zombie),.inl member⟩
  | orphanLeft cmd | parentWoken cmd | zombieMade cmd => exact absurd cmd stays

theorem doesSends (did : Does s c t rest r s' calls) :
    (r.msg.cmd ≠ .exit ∧ ∀ m ∈ sent calls, m.1 = r.client) ∨ r.msg.cmd = .exit ∧ (sent calls = [] ∨
      ∃ w, t.parent ∈ s.waitQ ∧ s.record t.parent = some w ∧
        sent calls = [(w.pid,{ r.msg with w0 := t.pid, w1 := r.msg.w0 })]) := by
  cases did with
  | orphanLeft cmd => exact .inr ⟨cmd,.inl (by rw [leaveCallsSent]; rfl)⟩
  | @parentWoken w cmd waiting parent => exact .inr ⟨cmd,.inr ⟨w,waiting,parent,by rw [leaveCallsSent]; rfl⟩⟩
  | zombieMade cmd =>
    have silent := leaveCallsSent (s := s) (c := c) (t := t) []
    rw [List.append_nil] at silent
    exact .inr ⟨cmd,.inl silent⟩
  | spawned cmd =>
    refine .inl ⟨by simp [cmd],?_⟩
    rw [sentAppend,sentAppend,setupCallsSent]
    simp [sent]
  | replaced cmd =>
    refine .inl ⟨by simp [cmd],?_⟩
    rw [sentAppend,sentAppend,setupCallsSent]
    simp [sent]
  | unmade cmd => refine .inl ⟨by simp [cmd],?_⟩; split <;> simp [sent]
  | stillborn cmd => refine .inl ⟨by simp [cmd],?_⟩; split <;> simp [sent]
  | denied cmd => refine .inl ⟨by simp [cmd],?_⟩; split <;> simp [sent]
  | unknown cmd | zombieReported cmd | childless cmd | blocked cmd => exact .inl ⟨by simp [cmd],by simp [sent]⟩
  | allocated cmd | released cmd | foreign cmd | ignored cmd | stuck cmd => exact .inl ⟨by simp [cmd],by simp [sent]⟩

end

structure Minds (s : Tables) (sh : Shell) : Prop where
  alive : ∃ t, s.record sh.self = some t ∧ t.pid = sh.pid ∧
    (sh.self ∈ s.taskQ ∨ sh.self ∈ s.waitQ ∧ t.word = taskAny ∧ ∃ rest, sh.script = .wait::rest)
  order : owed sh.child.isSome sh.script = true
  only : ∀ a u, s.record a = some u → u.parent = sh.self → sh.child = some a
  kid : ∀ a, sh.child = some a → ∃ u, s.record a = some u ∧ u.parent = sh.self ∧ u.pid = sh.spawned ∧
    (a ∈ s.zombieQ → sh.code = some u.word ∧ sh.self ∉ s.waitQ)

section
variable {s s' : Tables} {c : Addr} {t : PmTask} {rest : List Addr} {r : Request} {calls : List Call} {sh : Shell}

theorem toldNobody (away : ∀ m ∈ sent calls, m.1 ≠ sh.pid) : told sh calls = [] ∧ heard sh calls = sh := by
  have none : told sh calls = [] := by
    unfold told
    rw [List.filter_eq_nil_iff.mpr (fun m member => by simpa using away m member)]
    rfl
  exact ⟨none,if_pos none⟩

theorem Minds.elsewhere (minds : Minds s sh) (sound : Sound s) (front : s.taskQ = c::rest)
    (there : s.record c = some t) (given : Offers s r)
    (did : Does s c t rest r s' calls) (other : c ≠ sh.self)
    (stranger : r.msg.cmd = .exit → t.parent ≠ sh.self) : Minds s' sh := by
  obtain ⟨v,mine,pid,place⟩ := minds.alive
  have living : sh.self ∈ s.taskQ ++ s.waitQ := List.mem_append.mpr (place.imp_right (·.1))
  have self := doesSpares front given did (Ne.symm other) mine
    (fun zombie => absurd rfl (sound.zombieApart living zombie))
  refine ⟨⟨_,self.record,?_,?_⟩,minds.order,?_,?_⟩
  · split <;> simp [pid]
  · rcases place with ready | ⟨waiting,word,script⟩
    · exact .inl (self.ready ready)
    · rcases self.waiting waiting with stays | ⟨cmd,parent,-⟩
      · refine .inr ⟨stays,?_,script⟩
        split <;> simp [word]
      · exact absurd parent (stranger cmd)
  · intro a u found parent
    rcases doesRecords there did found with ⟨-,-,-,-,from_⟩ | ⟨w,before,-,same⟩
    · exact absurd (from_.symm.trans parent) other
    · rcases same with same | orphan
      · exact minds.only a w before (same.symm.trans parent)
      · have null := sound.real (List.mem_append_left _ living)
        exact absurd (parent.symm.trans orphan) null
  · intro a child
    obtain ⟨u,record,parent,spawned,zombie⟩ := minds.kid a child
    by_cases mine : a = c
    · subst mine
      cases Option.some.inj (there.symm.trans record)
      obtain ⟨w,after,pids,parents,alive,-⟩ := doesSelf sound front there given did
        (fun cmd => stranger cmd parent)
      exact ⟨w,after,parents.trans parent,pids.trans spawned,fun zombie => absurd zombie alive⟩
    have kept := doesSpares front given did mine record (fun _ => parent ▸ Ne.symm other)
    have same : (if r.msg.cmd = .exit then orphanOf c u else u) = u := by
      split
      · exact orphanSelf (parent ▸ Ne.symm other)
      · rfl
    refine ⟨u,kept.record.trans (congrArg some same),parent,spawned,fun dead => ?_⟩
    obtain ⟨code,ready⟩ := zombie (kept.zombie.mp dead)
    exact ⟨code,fun waiting => ready (self.waited waiting)⟩

theorem readyNotWaiting (sound : Sound s) {a : Addr} (ready : a ∈ s.taskQ) : a ∉ s.waitQ := by
  intro waiting
  exact (List.nodup_append.mp (List.nodup_append.mp sound.unique).1).2.2 _ ready _ waiting rfl

def Fitting (e : Waited) : Prop := e.pid = e.spawned ∧ e.exited = some e.code

theorem Minds.childLeaves (minds : Minds s sh) (sound : Sound s) (front : s.taskQ = c::rest)
    (there : s.record c = some t) (did : Does s c t rest r s' calls) (cmd : r.msg.cmd = .exit)
    (mine : t.parent = sh.self) :
    Minds s' (heard { sh with code := some r.msg.w0 } calls) ∧
      ∀ e ∈ told { sh with code := some r.msg.w0 } calls, Fitting e := by
  obtain ⟨v,record,pid,place⟩ := minds.alive
  have living : sh.self ∈ s.taskQ ++ s.waitQ := List.mem_append.mpr (place.imp_right (·.1))
  have real := sound.real (List.mem_append_left _ living)
  have other : sh.self ≠ c := mine ▸ sound.others c t there
  have child := minds.only c t there mine
  obtain ⟨u,here,-,spawned,-⟩ := minds.kid c child
  cases Option.some.inj (there.symm.trans here)
  have rests : (bereaved s c t).record sh.self = some (orphanOf c v) := bereavedLive sound other living record
  -- Nobody else has the shell for a parent.
  have barren : ∀ a w, a ≠ c → (bereaved s c t).record a = some w → w.parent ≠ sh.self := by
    intro a w away found parent
    rcases bereavedSome found with ⟨same,-⟩ | ⟨-,x,before,rfl,-⟩
    · exact away same
    · rw [orphanParent] at parent
      split at parent
      · exact real parent.symm
      · exact away (Option.some.inj ((minds.only a x before parent).symm.trans child))
  cases did with
  | orphanLeft _ orphan => exact absurd (mine.symm.trans orphan) real
  | @parentWoken w _ waiting parent wanted =>
    rw [mine] at parent waiting
    cases Option.some.inj (record.symm.trans parent)
    have silent : told { sh with code := some r.msg.w0 } (leaveCalls s c t ++ [.kfree t.args,.kfree c,
        .send v.pid { r.msg with w0 := t.pid, w1 := r.msg.w0 }]) = [⟨t.pid,r.msg.w0,sh.spawned,some r.msg.w0⟩] := by
      unfold told
      rw [leaveCallsSent]
      simp [sent,pid]
    have script : ∃ rest, sh.script = .wait::rest := by
      rcases place with ready | ⟨-,-,script⟩
      · exact absurd waiting (readyNotWaiting sound ready)
      · exact script
    obtain ⟨later,script⟩ := script
    have order := minds.order
    rw [child,script] at order
    unfold heard
    rw [silent,if_neg (by simp)]
    refine ⟨⟨⟨orphanOf c v,(Function.update_of_ne other _ _).trans rests,by simp [pid],.inl (by simp [mine])⟩,?_,?_,?_⟩,?_⟩
    · simpa [script,owed] using order
    · intro a x found parent
      by_cases same : a = c
      · simp [same] at found
      · exact absurd parent (barren a x same ((Function.update_of_ne same _ _).symm.trans found))
    · intro a none
      contradiction
    · intro e member
      rw [List.mem_singleton.mp member]
      exact ⟨spawned,rfl⟩
  | zombieMade _ _ unwanted =>
    have ready : sh.self ∉ s.waitQ ∧ sh.self ∈ s.taskQ := by
      rcases place with ready | ⟨waiting,word,-⟩
      · exact ⟨readyNotWaiting sound ready,ready⟩
      · exact absurd word (unwanted (mine ▸ waiting) v (mine ▸ record)).2
    have silent := leaveCallsSent (s := s) (c := c) (t := t) []
    rw [List.append_nil] at silent
    obtain ⟨none,same⟩ := @toldNobody (leaveCalls s c t) { sh with code := some r.msg.w0 } (by rw [silent]; simp [sent])
    rw [none,same]
    refine ⟨⟨⟨orphanOf c v,(updateAway _ other).trans rests,by simp [pid],.inl ?_⟩,minds.order,?_,?_⟩,by simp⟩
    · have queued := ready.2
      rw [front] at queued
      exact (List.mem_cons.mp queued).resolve_left other
    · intro a x found parent
      by_cases same : a = c
      · exact same ▸ child
      · exact absurd parent (barren a x same ((updateAway _ same).symm.trans found))
    · intro a named
      cases Option.some.inj (child.symm.trans named)
      exact ⟨_,updateAt _ c _,mine,spawned,fun _ => ⟨rfl,ready.1⟩⟩
  | _ => simp_all

/- The shell's own requests, one by one along the script. -/

theorem doesMemory (there : s.record c = some t) (did : Does s c t rest r s' calls)
    (cmd : r.msg.cmd = .malloc ∨ r.msg.cmd = .free) :
    ∃ u, s' = update s c u ∧ u.pid = t.pid ∧ u.parent = t.parent := by
  cases did with
  | allocated => exact ⟨_,rfl,rfl,rfl⟩
  | released => exact ⟨_,rfl,rfl,rfl⟩
  | foreign | denied => exact ⟨t,(updateThere there).symm,rfl,rfl⟩
  | _ => simp_all

theorem Minds.childAway (minds : Minds s sh) (sound : Sound s) {a : Addr} (child : sh.child = some a) : a ≠ sh.self := by
  rintro rfl
  obtain ⟨u,here,parent,-⟩ := minds.kid _ child
  exact sound.others _ u here parent

theorem Minds.keeps (minds : Minds s sh) (sound : Sound s) (front : s.taskQ = sh.self::rest)
    (there : s.record sh.self = some t) (did : Does s sh.self t rest r s' calls)
    (cmd : r.msg.cmd = .malloc ∨ r.msg.cmd = .free) {script : List Cmd}
    (order : owed sh.child.isSome script = true) : Minds s' { sh with script := script } := by
  obtain ⟨v,mine,pid,-⟩ := minds.alive
  cases Option.some.inj (there.symm.trans mine)
  obtain ⟨u,rfl,pids,parents⟩ := doesMemory there did cmd
  refine ⟨⟨u,updateAt s _ u,pids.trans pid,.inl (by simp [update,withRecord,front])⟩,order,?_,?_⟩
  · intro a w found parent
    by_cases same : a = sh.self
    · subst same
      cases Option.some.inj ((updateAt s sh.self u).symm.trans found)
      exact absurd (parents.symm.trans parent) (sound.others _ t there)
    · exact minds.only a w ((updateAway u same).symm.trans found) parent
  · intro a child
    obtain ⟨w,here,rest⟩ := minds.kid a child
    exact ⟨w,(updateAway u (minds.childAway sound child)).trans here,rest⟩

theorem Minds.spawns (minds : Minds s sh) (sound : Sound s) (front : s.taskQ = sh.self::rest)
    (there : s.record sh.self = some t) (granted : Allocates s r) (did : Does s sh.self t rest r s' calls)
    (cmd : r.msg.cmd = .spawn) (alone : sh.child = none) {script : List Cmd} (order : owed true script = true) :
    Minds s' { sh with script := script, child := some r.record, spawned := r.task, code := none } := by
  obtain ⟨v,mine,pid,-⟩ := minds.alive
  simp only [Allocates,cmd] at granted
  obtain ⟨task,vfs,record,free,args⟩ := granted
  have barren : ∀ a u, s.record a = some u → u.parent ≠ sh.self := by
    intro a u found parent
    have child := minds.only a u found parent
    rw [alone] at child
    contradiction
  cases did with
  | spawned =>
    have new : sh.self ≠ r.record := by
      intro same
      rw [← same,there] at free
      contradiction
    refine ⟨⟨v,(updateAway _ new).trans mine,pid,.inl (by simp [front])⟩,order,?_,?_⟩
    · intro a u found parent
      by_cases same : a = r.record
      · rw [same]
      · exact absurd parent (barren a u ((updateAway _ same).symm.trans found))
    · intro a child
      cases Option.some.inj child
      refine ⟨_,updateAt s r.record _,rfl,rfl,fun zombie => ?_⟩
      obtain ⟨u,known⟩ := sound.known (List.mem_append_right _ zombie)
      rw [free] at known
      contradiction
  | unmade _ none => exact absurd none (not_or.mpr ⟨task,record⟩)
  | stillborn _ _ _ failed => exact absurd failed (not_or.mpr ⟨by simp [vfs],args⟩)
  | _ => simp_all

theorem Minds.waits (minds : Minds s sh) (sound : Sound s) (front : s.taskQ = sh.self::rest)
    (there : s.record sh.self = some t) (did : Does s sh.self t rest r s' calls)
    (cmd : r.msg.cmd = .wait) (any : r.msg.w0 = taskAny) (client : r.client = sh.pid) {later : List Cmd}
    (script : sh.script = .wait::later) : Minds s' (heard sh calls) ∧ ∀ e ∈ told sh calls, Fitting e := by
  obtain ⟨v,mine,pid,-⟩ := minds.alive
  cases Option.some.inj (there.symm.trans mine)
  have order := minds.order
  rw [script] at order
  obtain ⟨waited,next⟩ : sh.child.isSome = true ∧ owed false later = true := by simpa [owed] using order
  obtain ⟨a,child⟩ := Option.isSome_iff_exists.mp waited
  obtain ⟨u,here,parent,spawned,zombie⟩ := minds.kid a child
  have other := minds.childAway sound child
  have answers : Pm.answers s sh.self r.msg.w0 a = true := by simp [Pm.answers,here,parent,any]
  have kept : ∀ b w, (update s sh.self { t with word := r.msg.w0 }).record b = some w → w.parent = sh.self →
      sh.child = some b := by
    intro b w found parent
    by_cases same : b = sh.self
    · subst same
      cases Option.some.inj ((updateAt s sh.self _).symm.trans found)
      exact absurd parent (sound.others _ t there)
    · exact minds.only b w ((updateAway _ same).symm.trans found) parent
  cases did with
  | @zombieReported z w _ first found =>
    have same : z = a := by
      have fits := List.find?_some first
      simp only [Pm.answers,found,Option.any_some,decide_eq_true_eq] at fits
      exact Option.some.inj ((minds.only z w found fits.1).symm.trans child)
    subst same
    cases Option.some.inj (here.symm.trans found)
    have heardOf : told sh [.kfree u.args,.kfree z,.send r.client { r.msg with w0 := u.pid, w1 := u.word }] =
        [⟨u.pid,u.word,sh.spawned,sh.code⟩] := by simp [told,sent,client]
    unfold heard
    rw [heardOf,if_neg (by simp)]
    refine ⟨⟨⟨_,(Function.update_of_ne (Ne.symm other) _ _).trans (updateAt s _ _),pid,.inl (by simp [front])⟩,?_,?_,?_⟩,?_⟩
    · simpa [script] using next
    · intro b x found parent
      by_cases same : b = z
      · simp [same] at found
      · have child' := kept b x ((Function.update_of_ne same _ _).symm.trans found) parent
        exact absurd (Option.some.inj (child'.symm.trans child)) same
    · intro b none
      contradiction
    · intro e member
      rw [List.mem_singleton.mp member]
      exact ⟨spawned,(zombie (List.mem_of_find?_eq_some first)).1⟩
  | childless _ unanswered barren =>
    rcases List.mem_append.mp (sound.queued here) with living | dead
    · have child := barren a living
      rw [childOfSome here,parent] at child
      simp at child
    · rw [unanswered a dead] at answers
      contradiction
  | blocked _ unanswered _ =>
    have alive : a ∉ s.zombieQ := by
      intro dead
      rw [unanswered a dead] at answers
      contradiction
    obtain ⟨none,same⟩ := @toldNobody [] sh (by simp [sent])
    rw [none,same]
    refine ⟨⟨⟨_,updateAt s _ _,pid,.inr ⟨by simp,any,later,script⟩⟩,minds.order,kept,?_⟩,by simp⟩
    intro b named
    cases Option.some.inj (child.symm.trans named)
    exact ⟨u,(updateAway _ other).trans here,parent,spawned,fun dead => absurd dead alive⟩
  | _ => simp_all

end

def Tended (s : Session) : Prop :=
  (∃ lost, Ledger s.machine lost) ∧ ∀ sh, s.shell = some sh → Minds s.machine.pm sh

section
variable {s s' : Session} {m : Machine} {lost : List Pid} {sh : Shell} {r : Request} {out : List Waited}

theorem Minds.attended {c : Addr} {t : Tables} (minds : Minds t sh) (member : c ∈ t.taskQ) :
    Minds (attended t c) sh := by
  obtain ⟨v,mine,pid,place⟩ := minds.alive
  refine ⟨⟨v,mine,pid,place.imp_left ?_⟩,minds.order,minds.only,minds.kid⟩
  intro ready
  exact (List.perm_cons_erase member).mem_iff.mp ready

theorem otherTended (tended : Tended s) (allowed : Allowed s (.other r)) (taken : step s (.other r) = some (s',out)) :
    Tended s' ∧ ∀ e ∈ out, Fitting e := by
  obtain ⟨⟨lost,table⟩,minds⟩ := tended
  obtain ⟨possible,foreign⟩ := allowed
  obtain ⟨c,t,y,n,sender,served,-,did,kept⟩ := ledgerStep table possible
  have given := table.offers possible.offered
  have sound := (table.attended sender.1).sound
  simp only [step,served,bind,Option.bind_some] at taken
  cases shell : s.shell with
  | none =>
    rw [shell] at taken
    obtain ⟨rfl,rfl⟩ := Prod.mk.inj (Option.some.inj taken)
    exact ⟨⟨⟨_,kept⟩,by simp⟩,by simp⟩
  | some sh =>
    rw [shell] at taken
    obtain ⟨rfl,rfl⟩ := Prod.mk.inj (Option.some.inj taken)
    have mine := (minds sh shell).attended sender.1
    obtain ⟨v,record,pid,place⟩ := (minds sh shell).alive
    have living : sh.self ∈ s.machine.pm.taskQ ++ s.machine.pm.waitQ := List.mem_append.mpr (place.imp_right (·.1))
    have other : c ≠ sh.self := by
      rintro rfl
      cases Option.some.inj (record.symm.trans sender.2.1)
      exact foreign sh shell (sender.2.2.symm.trans pid)
    suffices kept : Minds y.pm (heard (noted s.machine.pm sh r) y.calls) ∧
        ∀ e ∈ told (noted s.machine.pm sh r) y.calls, Fitting e by
      refine ⟨⟨⟨_,by assumption⟩,?_⟩,kept.2⟩
      intro sh' same
      cases Option.some.inj same
      exact kept.1
    unfold noted
    rw [← sender.2.2,table.finds sender.1 sender.2.1]
    by_cases leaves : r.msg.cmd = .exit ∧ t.parent = sh.self
    · rw [if_pos ⟨leaves.1,mine.only c t sender.2.1 leaves.2⟩]
      exact mine.childLeaves sound rfl sender.2.1 did leaves.1 leaves.2
    · have stranger : ¬(r.msg.cmd = .exit ∧ sh.child = some c) := by
        rintro ⟨cmd,child⟩
        obtain ⟨u,here,parent,-⟩ := mine.kid c child
        cases Option.some.inj (here.symm.trans sender.2.1)
        exact leaves ⟨cmd,parent⟩
      have unheard : ∀ m ∈ sent y.calls, m.1 ≠ sh.pid := by
        intro m member
        rcases doesSends did with ⟨-,client⟩ | ⟨cmd,none | ⟨w,waiting,parent,one⟩⟩
        · exact client m member ▸ foreign sh shell
        · simp [none] at member
        · rw [one,List.mem_singleton] at member
          intro same
          rw [member] at same
          have same := table.onePid (List.mem_append_right _ waiting) living parent record (same.trans pid.symm)
          exact leaves ⟨cmd,same⟩
      rw [if_neg stranger]
      obtain ⟨silent,unchanged⟩ := toldNobody unheard
      rw [silent,unchanged]
      refine ⟨mine.elsewhere sound rfl sender.2.1 given did other ?_,by simp⟩
      exact fun cmd parent => leaves ⟨cmd,parent⟩

theorem askTended (tended : Tended s) (allowed : Allowed s (.ask r)) (taken : step s (.ask r) = some (s',out)) :
    Tended s' ∧ ∀ e ∈ out, Fitting e := by
  obtain ⟨⟨lost,table⟩,minds⟩ := tended
  obtain ⟨possible,granted,own⟩ := allowed
  obtain ⟨c,t,y,n,sender,served,-,did,kept⟩ := ledgerStep table possible
  have sound := (table.attended sender.1).sound
  simp only [step,served,bind,Option.bind_some,Option.bind_eq_some_iff] at taken
  obtain ⟨sh,shell,⟨next,events⟩,asked,last⟩ := taken
  obtain ⟨rfl,rfl⟩ := Prod.mk.inj (Option.some.inj last)
  obtain ⟨client,any⟩ := own sh shell
  have mine := (minds sh shell).attended sender.1
  obtain ⟨v,record,pid,place⟩ := (minds sh shell).alive
  have living : sh.self ∈ s.machine.pm.taskQ ++ s.machine.pm.waitQ := List.mem_append.mpr (place.imp_right (·.1))
  have self : c = sh.self := table.onePid (List.mem_append_left _ sender.1) living sender.2.1 record
    (sender.2.2.trans (client.trans pid.symm))
  subst self
  suffices result : (∀ sh', next = some sh' → Minds y.pm sh') ∧ ∀ e ∈ events, Fitting e from
    ⟨⟨⟨_,kept⟩,result.1⟩,result.2⟩
  have order := mine.order
  unfold ask at asked
  split at asked
  · rename_i script
    split at asked
    · rename_i cmd
      obtain ⟨rfl,rfl⟩ := Prod.mk.inj (Option.some.inj asked)
      refine ⟨fun sh' same => ?_,by simp⟩
      cases Option.some.inj same
      exact mine.keeps sound rfl sender.2.1 did cmd order
    split at asked <;> try contradiction
    obtain ⟨rfl,rfl⟩ := Prod.mk.inj (Option.some.inj asked)
    exact ⟨by simp,by simp⟩
  rename_i cmd rest script
  rw [script] at order
  split at asked <;> try contradiction
  rename_i matches_
  have asks : r.msg.cmd = cmd := by simpa using matches_
  split at asked
  · rename_i spawn
    obtain ⟨rfl,rfl⟩ := Prod.mk.inj (Option.some.inj asked)
    refine ⟨fun sh' same => ?_,by simp⟩
    cases Option.some.inj same
    rw [spawn] at order
    obtain ⟨alone,next⟩ : sh.child.isSome = false ∧ owed true rest = true := by simpa [owed] using order
    exact mine.spawns sound rfl sender.2.1 (table.allocates (granted (asks.trans spawn))) did (asks.trans spawn)
      (by simpa using alone) next
  split at asked
  · rename_i wait
    obtain ⟨rfl,rfl⟩ := Prod.mk.inj (Option.some.inj asked)
    have waits := mine.waits sound rfl sender.2.1 did (asks.trans wait) (any (asks.trans wait)) client
      (script.trans (by rw [wait]))
    refine ⟨fun sh' same => ?_,waits.2⟩
    cases Option.some.inj same
    exact waits.1
  split at asked
  · obtain ⟨rfl,rfl⟩ := Prod.mk.inj (Option.some.inj asked)
    exact ⟨by simp,by simp⟩
  · rename_i noSpawn noWait noExit
    obtain ⟨rfl,rfl⟩ := Prod.mk.inj (Option.some.inj asked)
    refine ⟨fun sh' same => ?_,by simp⟩
    cases Option.some.inj same
    have memory : (cmd = .malloc ∨ cmd = .free) ∧ owed sh.child.isSome rest = true := by
      cases cmd <;> simp_all [owed]
    exact mine.keeps sound rfl sender.2.1 did (asks ▸ memory.1) memory.2

end

theorem stepTended {s s' : Session} {act : Act} {out : List Waited} (tended : Tended s) (allowed : Allowed s act)
    (taken : step s act = some (s',out)) : Tended s' ∧ ∀ e ∈ out, Fitting e := by
  cases act with
  | execute direct b =>
    simp only [step,bind,Option.bind_eq_some_iff] at taken
    obtain ⟨sh,shell,taken⟩ := taken
    split at taken <;> try contradiction
    rename_i script
    obtain ⟨rfl,rfl⟩ := Prod.mk.inj (Option.some.inj taken)
    refine ⟨⟨tended.1,fun sh' same => ?_⟩,by simp⟩
    cases Option.some.inj same
    have minds := tended.2 sh shell
    have order := minds.order
    obtain ⟨v,mine,pid,place⟩ := minds.alive
    rw [script] at order place
    have alone : sh.child.isSome = false := by simpa [owed] using order
    refine ⟨⟨v,mine,pid,.inl ?_⟩,?_,minds.only,minds.kid⟩
    · rcases place with ready | ⟨-,-,rest,none⟩
      · exact ready
      · contradiction
    · rw [alone]
      exact executeOwed direct b
  | ask r => exact askTended tended allowed taken
  | other r => exact otherTended tended allowed taken

theorem openedTended {s : Session} (opened : Opened s) : Tended s := by
  obtain ⟨sh,t,history,shell,run,sender,script,child,barren⟩ := opened
  have ledger : ∃ lost, Ledger s.machine lost := by
    refine run.stateInvariant (P := fun m => ∃ lost, Ledger m lost) (fun m begun => (begunLone begun).1) ?_
    rintro m r m' out ⟨lost,table⟩ possible taken
    obtain ⟨c,t,y,n,-,served,-,-,kept⟩ := ledgerStep table possible
    obtain ⟨rfl,-⟩ := stepMade served taken
    exact ⟨_,kept⟩
  refine ⟨ledger,fun sh' same => ?_⟩
  cases Option.some.inj (shell.symm.trans same)
  refine ⟨⟨t,sender.2.1,sender.2.2,.inl sender.1⟩,by simp [script,child,owed],?_,by simp [child]⟩
  intro a u found parent
  exact absurd parent (barren a u found)

theorem shellWaitsForItsJob {s : Session} {history : List Waited} (run : Reaches step Allowed Opened s history) :
    (∀ sh rest, s.shell = some sh → sh.script = .wait::rest →
      ∃ a u, s.machine.pm.record a = some u ∧ u.pid = sh.spawned ∧
        ∀ b v, s.machine.pm.record b = some v → (v.parent = sh.self ↔ b = a)) ∧
    (∀ e ∈ history, e.pid = e.spawned ∧ e.exited = some e.code) ∧
    ∀ sh, s.shell = some sh → sh.script = [] → ∀ b v, s.machine.pm.record b = some v → v.parent ≠ sh.self := by
  have held : Tended s ∧ ∀ e ∈ history, Fitting e := by
    refine run.invariant (P := fun s history => Tended s ∧ ∀ e ∈ history, Fitting e)
      (fun s opened => ⟨openedTended opened,by simp⟩) ?_
    rintro s history act s' out ⟨tended,fits⟩ allowed taken
    obtain ⟨next,new⟩ := stepTended tended allowed taken
    refine ⟨next,fun e member => ?_⟩
    rcases List.mem_append.mp member with old | last
    · exact fits e old
    · exact new e last
  obtain ⟨⟨-,minds⟩,fits⟩ := held
  refine ⟨?_,fits,?_⟩
  · intro sh rest shell script
    have mine := minds sh shell
    have order := mine.order
    rw [script] at order
    have waited : sh.child.isSome = true := by
      simp only [owed,Bool.and_eq_true] at order
      exact order.1
    obtain ⟨a,child⟩ := Option.isSome_iff_exists.mp waited
    obtain ⟨u,here,parent,spawned,-⟩ := mine.kid a child
    refine ⟨a,u,here,spawned,fun b v found => ⟨fun same => ?_,?_⟩⟩
    · exact Option.some.inj ((mine.only b v found same).symm.trans child)
    · rintro rfl
      cases Option.some.inj (here.symm.trans found)
      exact parent
  · intro sh shell script b v found parent
    have order := (minds sh shell).order
    rw [script,(minds sh shell).only b v found parent] at order
    contradiction

/-! A background job: launch_job spawns exec_job and exits before the shell waits. -/

def demoShell : Session := ⟨demoBooted,some ⟨60,50,[],none,0,none⟩⟩
def demoBuffer : Request := ⟨50,⟨.malloc,64,0,0⟩,[],0,0,0,200,210,true,0,0,0⟩
def demoLaunch : Request := ⟨51,⟨.spawn,9,64,0⟩,[],52,62,72,0,0,true,0,0,0⟩
def demoRelease : Request := ⟨50,⟨.free,210,0,0⟩,[],0,0,0,0,0,true,0,0,0⟩

theorem demoOpened : Opened demoShell := by
  have boots : Booting demoBoot 100 := ⟨by decide,by decide,by decide⟩
  have begun : Begun demoBooted := ⟨demoBoot,100,_,boots,(Option.some_get (by rfl)).symm,rfl⟩
  refine ⟨_,⟨50,[],0,0,70⟩,_,rfl,.start begun,⟨by decide,rfl,rfl⟩,rfl,rfl,?_⟩
  intro a u found
  rw [((begunLone begun).2.2 a u found).1]
  decide

theorem shellWaitsForLaunchJob : ∃ s, Reaches step Allowed Opened s [⟨51,7,51,some 7⟩] ∧
    ∀ sh, s.shell = some sh → sh.script = [] → ∀ b v, s.machine.pm.record b = some v → v.parent ≠ sh.self := by
  have start : Reaches step Allowed Opened demoShell [] := .start demoOpened
  have entered := start.next (i := Act.execute false .none) trivial rfl
  have buffer := entered.next (i := Act.ask demoBuffer)
    ⟨⟨⟨60,_,by decide,rfl,rfl⟩,⟨by decide,by decide⟩⟩,(fun cmd => nomatch cmd),by rintro sh ⟨⟩; decide⟩ rfl
  have spawned := buffer.next (i := Act.ask demoSpawn)
    ⟨⟨⟨60,_,by decide,rfl,rfl⟩,by decide,by decide,by decide⟩,
      fun _ => ⟨by decide,by decide,rfl,by decide,by decide⟩,by rintro sh ⟨⟩; decide⟩ rfl
  have launched := spawned.next (i := Act.other demoLaunch)
    ⟨⟨⟨61,_,by decide,rfl,rfl⟩,by decide,by decide,by decide⟩,by rintro sh ⟨⟩; decide⟩ rfl
  have exited := launched.next (i := Act.other demoExit)
    ⟨⟨⟨61,_,by decide,rfl,rfl⟩,trivial⟩,by rintro sh ⟨⟩; decide⟩ rfl
  have released := exited.next (i := Act.ask demoRelease)
    ⟨⟨⟨60,_,by decide,rfl,rfl⟩,trivial⟩,(fun cmd => nomatch cmd),by rintro sh ⟨⟩; decide⟩ rfl
  have waited := released.next (i := Act.ask demoWait)
    ⟨⟨⟨60,_,by decide,rfl,rfl⟩,trivial⟩,(fun cmd => nomatch cmd),by rintro sh ⟨⟩; decide⟩ rfl
  exact ⟨_,waited,(shellWaitsForItsJob waited).2.2⟩

end Avros.Sh
