import Avros.ProcessTable

/-! Exit codes on their way from a child to its parent. A record's address is reused, and
so is a pid; the chronicle gives each process a number of its own when it is spawned,
remembers which process spawned it and what it last waited for, and writes down who
exited and which process each reply to a wait told of. -/
namespace Avros.Pm
open Run

structure Names where
  name : Addr → Nat
  births : Nat
  spawner : Nat → Option Nat
  asked : Nat → Pid

structure Chronicle where
  machine : Machine
  names : Names

/- `exited` names the process that spawned the child if it was alive at the time;
`replied` names the process whose record was freed for the reply, if there was one. -/
inductive Event where
  | exited (child : Nat) (parent : Option Nat) (pid : Pid) (code : Nat)
  | replied (parent : Nat) (asked : Pid) (child : Option Nat) (pid : Pid) (code : Nat)
  deriving DecidableEq, Repr

def living (s : Tables) (N : Names) (p : Nat) : Bool := (s.taskQ ++ s.waitQ).any (fun a => N.name a = p)

def recordOf (s : Tables) (pid : Pid) : Addr := (pmFindbypid s pid s.taskQ).getD 0

def lastFreed (calls : List Call) : Option Addr := (calls.filterMap (fun | .kfree p => some p | _ => none)).getLast?

def sent (calls : List Call) : List (Pid × Msg) := calls.filterMap (fun | .send p msg => some (p,msg) | _ => none)

/- What a request of the process at c does to the names: a new process gets the next
number, a wait is remembered. -/
def renamed (N : Names) (r : Request) (c : Addr) : Names :=
  match r.msg.cmd with
  | .spawn => { N with
      name := Function.update N.name r.record N.births
      births := N.births + 1
      spawner := Function.update N.spawner N.births (some (N.name c)) }
  | .wait => { N with asked := Function.update N.asked (N.name c) r.msg.w0 }
  | _ => N

def exitEvents (s : Tables) (N : Names) (r : Request) (c : Addr) : List Event :=
  if r.msg.cmd = .exit then
    [.exited (N.name c) ((N.spawner (N.name c)).filter (living s N)) (pidOf s c) r.msg.w0]
  else []

-- Only a wait is answered with a pid and a code: at once, or by the exit of a child.
def replyEvents (s : Tables) (N : Names) (r : Request) (calls : List Call) : List Event :=
  if r.msg.cmd = .exit ∨ r.msg.cmd = .wait then
    (sent calls).map (fun m => .replied (N.name (recordOf s m.1)) (N.asked (N.name (recordOf s m.1)))
      ((lastFreed calls).map N.name) m.2.w0 m.2.w1)
  else []

def chronicle : Step Chronicle Request Event := fun h r => do
  let y ← serve h.machine.pm r
  let c ← pmFindbypid h.machine.pm r.client h.machine.pm.taskQ
  let N := renamed h.names r c
  some (⟨after h.machine y,N⟩,exitEvents h.machine.pm h.names r c ++ replyEvents y.pm N r y.calls)

-- The first process is number 0.
def Opened (h : Chronicle) : Prop :=
  Started h.machine ∧ h.names.name = (fun _ => 0) ∧ h.names.births = 1 ∧ h.names.spawner = (fun _ => none)

def Heard (h : Chronicle) (r : Request) : Prop := Lawful h.machine r

def reports (n : Nat) (history : List Event) : List Event :=
  history.filter (fun | .replied _ _ child _ _ => child = some n | _ => false)

structure Story (s : Tables) (N : Names) (history : List Event) : Prop where
  apart : ∀ a b t u, s.record a = some t → s.record b = some u → N.name a = N.name b → a = b
  known : ∀ a t, s.record a = some t → N.name a < N.births
  parents : ∀ a t, s.record a = some t → t.parent ≠ 0 → N.spawner (N.name a) = some (N.name t.parent)
  orphans : ∀ a t p, s.record a = some t → t.parent = 0 → N.spawner (N.name a) = some p →
    p < N.births ∧ living s N p = false
  asks : ∀ w ∈ s.waitQ, ∀ t, s.record w = some t → t.word = N.asked (N.name w)
  unmatched : ∀ w ∈ s.waitQ, ∀ z ∈ s.zombieQ, ∀ t u, s.record w = some t → s.record z = some u → u.parent = w →
    t.word ≠ u.pid ∧ t.word ≠ taskAny
  past : ∀ n p pid code, .exited n p pid code ∈ history → n < N.births ∧ living s N n = false
  once : ∀ n p q pid pid' code code', .exited n p pid code ∈ history → .exited n q pid' code' ∈ history →
    p = q ∧ pid = pid' ∧ code = code'
  zombies : ∀ z ∈ s.zombieQ, ∀ t, s.record z = some t →
    .exited (N.name z) (some (N.name t.parent)) t.pid t.word ∈ history ∧ reports (N.name z) history = []
  delivered : ∀ n p pid code, .exited n (some p) pid code ∈ history → p < N.births ∧ (living s N p = true →
    (∃ z ∈ s.zombieQ, ∃ t, s.record z = some t ∧ N.name z = n ∧ t.pid = pid ∧ t.word = code) ∨
      (∀ z ∈ s.zombieQ, N.name z ≠ n) ∧ ∃ asked, reports n history = [.replied p asked (some n) pid code])
  truthful : ∀ p asked child pid code, .replied p asked child pid code ∈ history →
    child = none ∧ pid = 0 ∨
      ∃ n, child = some n ∧ .exited n (some p) pid code ∈ history ∧ (asked = pid ∨ asked = taskAny)

theorem livingTrue {s : Tables} {N : Names} {p : Nat} :
    living s N p = true ↔ ∃ a ∈ s.taskQ ++ s.waitQ, N.name a = p := by
  unfold living
  rw [List.any_eq_true]
  simp only [decide_eq_true_eq]

theorem livingFalse {s : Tables} {N : Names} {p : Nat} :
    living s N p = false ↔ ∀ a ∈ s.taskQ ++ s.waitQ, N.name a ≠ p := by
  unfold living
  rw [List.any_eq_false]
  simp only [decide_eq_true_eq,ne_eq]

@[simp] theorem reportsAppend (n : Nat) (history more : List Event) :
    reports n (history ++ more) = reports n history ++ reports n more := by
  simp [reports]

section
variable {s s' : Tables} {N : Names} {history : List Event} {c : Addr} {t : PmTask} {rest : List Addr} {r : Request}

theorem Story.unreported (story : Story s N history) {n : Nat}
    (never : ∀ p pid code, .exited n p pid code ∉ history) : reports n history = [] := by
  refine List.filter_eq_nil_iff.mpr ?_
  intro e member told
  cases e with
  | exited => simp at told
  | replied p asked child pid code =>
    have same : child = some n := by simpa using told
    subst same
    rcases story.truthful p asked _ pid code member with ⟨none,-⟩ | ⟨m,same,exited,-⟩
    · contradiction
    · cases Option.some.inj same
      exact never _ _ _ exited

/- What can change without any of this: everything but where records are linked, their
pids and parents, and the word of a waiting process or a zombie. -/
structure Alike (s s' : Tables) : Prop where
  tasks : ∀ a, a ∈ s'.taskQ ++ s'.waitQ ↔ a ∈ s.taskQ ++ s.waitQ
  waiting : ∀ a, a ∈ s'.waitQ → a ∈ s.waitQ
  zombies : ∀ a, a ∈ s'.zombieQ ↔ a ∈ s.zombieQ
  records : ∀ a t', s'.record a = some t' → ∃ t, s.record a = some t ∧ t'.pid = t.pid ∧ t'.parent = t.parent ∧
    (a ∈ s.waitQ ∨ a ∈ s.zombieQ → t'.word = t.word)
  kept : ∀ a t, s.record a = some t → ∃ t', s'.record a = some t'

def Hollow (e : Event) : Prop := ∃ p asked code, e = .replied p asked none 0 code

theorem hollowReports {more : List Event} (hollow : ∀ e ∈ more, Hollow e) (n : Nat) : reports n more = [] := by
  refine List.filter_eq_nil_iff.mpr ?_
  intro e member
  obtain ⟨p,asked,code,rfl⟩ := hollow e member
  simp

theorem hollowExited {more : List Event} (hollow : ∀ e ∈ more, Hollow e) {n : Nat} {p : Option Nat} {pid code : Nat} :
    .exited n p pid code ∈ history ++ more ↔ .exited n p pid code ∈ history := by
  rw [List.mem_append]
  refine or_iff_left ?_
  intro member
  obtain ⟨p,asked,code,same⟩ := hollow _ member
  cases same

theorem Story.told {asked : Nat → Pid} {more : List Event} (story : Story s N history) (alike : Alike s s')
    (waits : ∀ w ∈ s.waitQ, asked (N.name w) = N.asked (N.name w)) (hollow : ∀ e ∈ more, Hollow e) :
    Story s' { N with asked := asked } (history ++ more) := by
  have lives : ∀ p, living s' { N with asked := asked } p = living s N p := by
    intro p
    rw [Bool.eq_iff_iff,livingTrue,livingTrue]
    simp only [alike.tasks]
  refine ⟨?_,?_,?_,?_,?_,?_,?_,?_,?_,?_,?_⟩
  · intro a b t u here there same
    obtain ⟨t',here',-⟩ := alike.records a t here
    obtain ⟨u',there',-⟩ := alike.records b u there
    exact story.apart a b t' u' here' there' same
  · intro a t here
    obtain ⟨t',here',-⟩ := alike.records a t here
    exact story.known a t' here'
  · intro a t here parent
    obtain ⟨t',here',-,same,-⟩ := alike.records a t here
    rw [same] at parent ⊢
    exact story.parents a t' here' parent
  · intro a t p here parent spawned
    obtain ⟨t',here',-,same,-⟩ := alike.records a t here
    rw [lives]
    exact story.orphans a t' p here' (same ▸ parent) spawned
  · intro w waiting t here
    obtain ⟨t',here',-,-,word⟩ := alike.records w t here
    have old := alike.waiting w waiting
    rw [word (.inl old),story.asks w old t' here']
    exact (waits w old).symm
  · intro w waiting z zombie t u here there parent
    obtain ⟨t',here',-,-,word⟩ := alike.records w t here
    obtain ⟨u',there',pid,same,-⟩ := alike.records z u there
    have old := alike.waiting w waiting
    rw [word (.inl old),pid]
    exact story.unmatched w old z ((alike.zombies z).mp zombie) t' u' here' there' (same ▸ parent)
  · intro n p pid code exited
    rw [lives]
    exact story.past n p pid code ((hollowExited hollow).mp exited)
  · intro n p q pid pid' code code' first second
    exact story.once n p q pid pid' code code' ((hollowExited hollow).mp first) ((hollowExited hollow).mp second)
  · intro z zombie t here
    obtain ⟨t',here',pid,parent,word⟩ := alike.records z t here
    have old := (alike.zombies z).mp zombie
    obtain ⟨exited,told⟩ := story.zombies z old t' here'
    rw [pid,parent,word (.inr old),hollowExited hollow,reportsAppend,told,hollowReports hollow]
    exact ⟨exited,rfl⟩
  · intro n p pid code exited
    obtain ⟨born,later⟩ := story.delivered n p pid code ((hollowExited hollow).mp exited)
    refine ⟨born,fun alive => ?_⟩
    rw [lives] at alive
    rcases later alive with ⟨z,zombie,t,here,same,pids,codes⟩ | ⟨gone,asked,told⟩
    · obtain ⟨t',here'⟩ := alike.kept z t here
      obtain ⟨u,there,pid,-,word⟩ := alike.records z t' here'
      cases Option.some.inj (here.symm.trans there)
      exact .inl ⟨z,(alike.zombies z).mpr zombie,t',here',same,pid.trans pids,(word (.inr zombie)).trans codes⟩
    · refine .inr ⟨fun z zombie => gone z ((alike.zombies z).mp zombie),asked,?_⟩
      rw [reportsAppend,told,hollowReports hollow]
      rfl
  · intro p asked child pid code replied
    rcases List.mem_append.mp replied with old | new
    · rcases story.truthful p asked child pid code old with none | ⟨n,same,exited,matched⟩
      · exact .inl none
      · exact .inr ⟨n,same,(hollowExited hollow).mpr exited,matched⟩
    · obtain ⟨p,asked,code,same⟩ := hollow _ new
      cases same
      exact .inl ⟨rfl,rfl⟩

theorem Story.alike {asked : Nat → Pid} (story : Story s N history) (alike : Alike s s')
    (waits : ∀ w ∈ s.waitQ, asked (N.name w) = N.asked (N.name w)) : Story s' { N with asked := asked } history := by
  have same := story.told alike waits (fun e (member : e ∈ []) => nomatch member)
  rwa [List.append_nil] at same

theorem Story.spawned {u : PmTask} {a : Addr} (story : Story s N history) (sound : Sound s) (real : a ≠ 0)
    (free : s.record a = none) (task : c ∈ s.taskQ ++ s.waitQ) (parent : u.parent = c) :
    Story { update s a u with taskQ := s.taskQ ++ [a] }
      { N with
        name := Function.update N.name a N.births
        births := N.births + 1
        spawner := Function.update N.spawner N.births (some (N.name c)) } history := by
  -- The old records and their names are as they were.
  have other : ∀ b ∈ linked s, b ≠ a := fun b member => sound.unused free member
  have name : ∀ b ∈ linked s, Function.update N.name a N.births b = N.name b :=
    fun b member => Function.update_of_ne (other b member) _ _
  have old : ∀ b v, b ≠ a → (update s a u).record b = some v → s.record b = some v ∧ b ∈ linked s := by
    intro b v different found
    have there := (updateAway u different).symm.trans found
    exact ⟨there,sound.queued there⟩
  have spawner : ∀ b v, s.record b = some v →
      Function.update N.spawner N.births (some (N.name c)) (N.name b) = N.spawner (N.name b) :=
    fun b v there => Function.update_of_ne (Nat.ne_of_lt (story.known b v there)) _ _
  have relatives : ∀ b v, s.record b = some v → v.parent ≠ 0 →
      Function.update N.name a N.births v.parent = N.name v.parent :=
    fun b v there child => name _ (List.mem_append_left _ ((sound.parents b v there).resolve_left child))
  have lives : ∀ p < N.births, living { update s a u with taskQ := s.taskQ ++ [a] }
      ⟨Function.update N.name a N.births,N.births + 1,Function.update N.spawner N.births (some (N.name c)),N.asked⟩ p =
      living s N p := by
    intro p low
    rw [Bool.eq_iff_iff,livingTrue,livingTrue]
    constructor
    · rintro ⟨b,member,same⟩
      by_cases new : b = a
      · subst new
        simp only [Function.update_self] at same
        omega
      · have queue : b ∈ s.taskQ ++ s.waitQ := by simpa [update,withRecord,new] using member
        exact ⟨b,queue,(name b (List.mem_append_left _ queue)).symm.trans same⟩
    · rintro ⟨b,member,same⟩
      refine ⟨b,?_,(name b (List.mem_append_left _ member)).trans same⟩
      rcases List.mem_append.mp member with task | waiting
      · exact List.mem_append_left _ (List.mem_append_left _ task)
      · exact List.mem_append_right _ waiting
  have waiter : ∀ w ∈ s.waitQ, w ∈ linked s := fun w waiting => by simp [linked,waiting]
  have dead : ∀ z ∈ s.zombieQ, z ∈ linked s := fun z zombie => by simp [linked,zombie]
  refine ⟨?_,?_,?_,?_,?_,?_,?_,story.once,?_,?_,story.truthful⟩
  · intro b d v w here there same
    by_cases first : b = a
    · by_cases second : d = a
      · rw [first,second]
      · obtain ⟨record,member⟩ := old d w second there
        have low := story.known d w record
        simp only [first,Function.update_self,name d member] at same
        omega
    · obtain ⟨record,member⟩ := old b v first here
      have low := story.known b v record
      by_cases second : d = a
      · simp only [second,Function.update_self,name b member] at same
        omega
      · obtain ⟨record',member'⟩ := old d w second there
        simp only [name b member,name d member'] at same
        exact story.apart b d v w record record' same
  · intro b v here
    by_cases new : b = a
    · simp only [new,Function.update_self]
      omega
    · obtain ⟨record,member⟩ := old b v new here
      simp only [name b member]
      exact Nat.lt_succ_of_lt (story.known b v record)
  · intro b v here child
    by_cases new : b = a
    · subst new
      cases Option.some.inj ((updateAt s b u).symm.trans here)
      simp only [Function.update_self,parent,name c (List.mem_append_left _ task)]
    · obtain ⟨record,member⟩ := old b v new here
      simp only [name b member,spawner b v record,relatives b v record child]
      exact story.parents b v record child
  · intro b v p here none spawned
    by_cases new : b = a
    · subst new
      cases Option.some.inj ((updateAt s b u).symm.trans here)
      exact absurd (parent.symm.trans none) (sound.real (List.mem_append_left _ task))
    · obtain ⟨record,member⟩ := old b v new here
      simp only [name b member,spawner b v record] at spawned
      obtain ⟨low,gone⟩ := story.orphans b v p record none spawned
      exact ⟨Nat.lt_succ_of_lt low,(lives p low).trans gone⟩
  · intro w waiting v here
    obtain ⟨record,member⟩ := old w v (other w (waiter w waiting)) here
    simp only [name w member]
    exact story.asks w waiting v record
  · intro w waiting z zombie v x here there parent
    exact story.unmatched w waiting z zombie v x (old w v (other w (waiter w waiting)) here).1
      (old z x (other z (dead z zombie)) there).1 parent
  · intro n p pid code exited
    obtain ⟨low,gone⟩ := story.past n p pid code exited
    exact ⟨Nat.lt_succ_of_lt low,(lives n low).trans gone⟩
  · intro z zombie v here
    obtain ⟨record,member⟩ := old z v (other z (dead z zombie)) here
    simp only [name z member,relatives z v record (sound.zombies z zombie v record).1]
    exact story.zombies z zombie v record
  · intro n p pid code exited
    obtain ⟨low,later⟩ := story.delivered n p pid code exited
    refine ⟨Nat.lt_succ_of_lt low,fun alive => ?_⟩
    rw [lives p low] at alive
    rcases later alive with ⟨z,zombie,v,here,same,pids,codes⟩ | ⟨gone,told⟩
    · exact .inl ⟨z,zombie,v,(updateAway u (other z (dead z zombie))).trans here,
        (name z (dead z zombie)).trans same,pids,codes⟩
    · refine .inr ⟨fun z zombie => ?_,told⟩
      simp only [name z (dead z zombie)]
      exact gone z zombie

theorem Story.sleeps (story : Story s N history) (front : s.taskQ = c::rest) (there : s.record c = some t)
    (asks : t.word = N.asked (N.name c))
    (unanswered : ∀ z ∈ s.zombieQ, ∀ u, s.record z = some u → u.parent = c → t.word ≠ u.pid ∧ t.word ≠ taskAny) :
    Story { s with taskQ := rest, waitQ := s.waitQ ++ [c] } N history := by
  have lives : ∀ p, living { s with taskQ := rest, waitQ := s.waitQ ++ [c] } N p = living s N p := by
    intro p
    rw [Bool.eq_iff_iff,livingTrue,livingTrue]
    refine exists_congr (fun a => and_congr_left (fun _ => ?_))
    simp only [front,List.mem_append,List.mem_cons,List.not_mem_nil,or_false]
    tauto
  refine ⟨story.apart,story.known,story.parents,?_,?_,?_,?_,story.once,story.zombies,?_,story.truthful⟩
  · intro a u p here none spawned
    rw [lives]
    exact story.orphans a u p here none spawned
  · intro w waiting u here
    rcases List.mem_append.mp waiting with old | new
    · exact story.asks w old u here
    · cases List.mem_singleton.mp new
      cases Option.some.inj (there.symm.trans here)
      exact asks
  · intro w waiting z zombie u v here there' parent
    rcases List.mem_append.mp waiting with old | new
    · exact story.unmatched w old z zombie u v here there' parent
    · cases List.mem_singleton.mp new
      cases Option.some.inj (there.symm.trans here)
      exact unanswered z zombie v there' parent
  · intro n p pid code exited
    rw [lives]
    exact story.past n p pid code exited
  · intro n p pid code exited
    rw [lives]
    exact story.delivered n p pid code exited

theorem Story.reported {z : Addr} {u : PmTask} {asked : Pid} (story : Story s N history) (sound : Sound s)
    (zombie : z ∈ s.zombieQ) (there : s.record z = some u) (matched : asked = u.pid ∨ asked = taskAny) :
    Story { s with zombieQ := s.zombieQ.erase z, record := Function.update s.record z none } N
      (history ++ [.replied (N.name u.parent) asked (some (N.name z)) u.pid u.word]) := by
  obtain ⟨exit,silent⟩ := story.zombies z zombie u there
  have old : ∀ a v, Function.update s.record z none a = some v → s.record a = some v ∧ a ≠ z := by
    intro a v found
    by_cases same : a = z
    · simp [same] at found
    · exact ⟨(Function.update_of_ne same _ _).symm.trans found,same⟩
  have sameExits : ∀ {n p pid code}, Event.exited n p pid code ∈
      history ++ [.replied (N.name u.parent) asked (some (N.name z)) u.pid u.word] → Event.exited n p pid code ∈ history := by
    intro n p pid code exited
    simpa using exited
  have others : ∀ n, n ≠ N.name z → reports n (history ++
      [.replied (N.name u.parent) asked (some (N.name z)) u.pid u.word]) = reports n history := by
    intro n other
    rw [reportsAppend]
    simp [reports,Ne.symm other]
  refine ⟨?_,?_,?_,?_,?_,?_,?_,?_,?_,?_,?_⟩
  · intro a b v w here there' same
    exact story.apart a b v w (old a v here).1 (old b w there').1 same
  · intro a v here
    exact story.known a v (old a v here).1
  · intro a v here child
    exact story.parents a v (old a v here).1 child
  · intro a v p here none spawned
    exact story.orphans a v p (old a v here).1 none spawned
  · intro w waiting v here
    exact story.asks w waiting v (old w v here).1
  · intro w waiting y member v x here there' parent
    exact story.unmatched w waiting y (List.mem_of_mem_erase member) v x (old w v here).1 (old y x there').1 parent
  · intro n p pid code exited
    exact story.past n p pid code (sameExits exited)
  · intro n p q pid pid' code code' first second
    exact story.once n p q pid pid' code code' (sameExits first) (sameExits second)
  · intro y member v here
    obtain ⟨record,other⟩ := old y v here
    obtain ⟨exited,told⟩ := story.zombies y (List.mem_of_mem_erase member) v record
    rw [others _ (fun same => other (story.apart y z v u record there same))]
    exact ⟨List.mem_append_left _ exited,told⟩
  · intro n p pid code exited
    obtain ⟨low,later⟩ := story.delivered n p pid code (sameExits exited)
    refine ⟨low,fun alive => ?_⟩
    by_cases mine : n = N.name z
    · subst mine
      obtain ⟨parent,pids,codes⟩ := story.once _ _ _ _ _ _ _ exit (sameExits exited)
      refine .inr ⟨?_,asked,?_⟩
      · intro y member same
        obtain ⟨v,record⟩ := sound.known (List.mem_append_right _ (List.mem_of_mem_erase member))
        have both := story.apart y z v u record there same
        have unique := (List.nodup_append.mp sound.unique).2.1
        exact (unique.mem_erase_iff.mp member).1 both
      · cases Option.some.inj parent
        rw [reportsAppend,silent,pids,codes]
        simp [reports]
    · rw [others n mine]
      rcases later alive with ⟨y,member,v,here,same,pids,codes⟩ | ⟨gone,told⟩
      · have other : y ≠ z := fun both => mine (both ▸ same.symm)
        exact .inl ⟨y,(List.mem_erase_of_ne other).mpr member,v,(Function.update_of_ne other _ _).trans here,
          same,pids,codes⟩
      · exact .inr ⟨fun y member => gone y (List.mem_of_mem_erase member),told⟩
  · intro p asked' child pid code replied
    rcases List.mem_append.mp replied with before | last
    · rcases story.truthful p asked' child pid code before with none | ⟨n,same,exited,fits⟩
      · exact .inl none
      · exact .inr ⟨n,same,List.mem_append_left _ exited,fits⟩
    · cases List.mem_singleton.mp last
      exact .inr ⟨N.name z,rfl,List.mem_append_left _ exit,matched⟩

def departed (s : Tables) (c : Addr) (t : PmTask) (rest : List Addr) : Tables :=
  { bereaved s c t with taskQ := rest, record := Function.update (bereaved s c t).record c none }

theorem departedSome {a : Addr} {v : PmTask} (found : (departed s c t rest).record a = some v) :
    a ≠ c ∧ ∃ u, s.record a = some u ∧ v = orphanOf c u ∧ ¬(a ∈ s.zombieQ ∧ childOf s c a = true) := by
  by_cases same : a = c
  · simp [departed,same] at found
  · rcases bereavedSome ((Function.update_of_ne same _ _).symm.trans found) with ⟨same',-⟩ | result
    · contradiction
    · exact result

theorem departedZombie (rest : List Addr) {z : Addr} {u : PmTask} (zombie : z ∈ s.zombieQ) (there : s.record z = some u)
    (other : z ≠ c) (stranger : u.parent ≠ c) :
    z ∈ (departed s c t rest).zombieQ ∧ (departed s c t rest).record z = some u := by
  have stays : childOf s c z = false := by simp [childOfSome there,stranger]
  refine ⟨List.mem_filter.mpr ⟨zombie,by simp [stays]⟩,?_⟩
  simp [departed,bereaved,other,stays,there,orphanSelf stranger]

theorem departedLiving (story : Story s N history) (sound : Sound s) (front : s.taskQ = c::rest)
    (there : s.record c = some t) {p : Nat} (alive : living (departed s c t rest) N p = true) :
    living s N p = true ∧ p ≠ N.name c := by
  obtain ⟨a,member,same⟩ := livingTrue.mp alive
  have other : a ≠ c := sound.behind front a (List.mem_append_left _ member)
  have queue : a ∈ s.taskQ ++ s.waitQ := by
    rw [front]
    exact List.mem_cons_of_mem _ member
  refine ⟨livingTrue.mpr ⟨a,queue,same⟩,?_⟩
  rintro rfl
  obtain ⟨u,record⟩ := sound.known (List.mem_append_left _ queue)
  exact other (story.apart a c u t record there same)

theorem Story.departs (story : Story s N history) (sound : Sound s) (front : s.taskQ = c::rest)
    (there : s.record c = some t) : Story (departed s c t rest) N history := by
  have dead : ∀ p, living s N p = false → living (departed s c t rest) N p = false := by
    intro p gone
    by_contra alive
    have old := (departedLiving story sound front there (by simpa using alive)).1
    rw [gone] at old
    contradiction
  have left : living (departed s c t rest) N (N.name c) = false := by
    by_contra alive
    exact (departedLiving story sound front there (by simpa using alive)).2 rfl
  refine ⟨?_,?_,?_,?_,?_,?_,?_,story.once,?_,?_,story.truthful⟩
  · intro a b v w here there' same
    obtain ⟨-,u,record,-⟩ := departedSome here
    obtain ⟨-,x,record',-⟩ := departedSome there'
    exact story.apart a b u x record record' same
  · intro a v here
    obtain ⟨-,u,record,-⟩ := departedSome here
    exact story.known a u record
  · intro a v here child
    obtain ⟨-,u,record,rfl,-⟩ := departedSome here
    rw [orphanParent] at child ⊢
    split at child
    · contradiction
    · rename_i stranger
      rw [if_neg stranger]
      exact story.parents a u record child
  · intro a v p here none spawned
    obtain ⟨-,u,record,rfl,-⟩ := departedSome here
    rw [orphanParent] at none
    split at none
    · rename_i child
      have mine := story.parents a u record (by rw [child]; exact sound.real (by simp [front]))
      rw [child,spawned] at mine
      cases Option.some.inj mine
      exact ⟨story.known c t there,left⟩
    · obtain ⟨low,gone⟩ := story.orphans a u p record none spawned
      exact ⟨low,dead p gone⟩
  · intro w waiting v here
    obtain ⟨-,u,record,rfl,-⟩ := departedSome here
    rw [orphanWord]
    exact story.asks w waiting u record
  · intro w waiting z member v x here there' parent
    obtain ⟨-,u,record,rfl,-⟩ := departedSome here
    obtain ⟨-,y,record',rfl,-⟩ := departedSome there'
    rw [orphanWord,orphanPid]
    have real : w ≠ 0 := sound.real (by simp [show w ∈ s.waitQ from waiting])
    refine story.unmatched w waiting z (List.mem_of_mem_filter member) u y record record' ?_
    rw [orphanParent] at parent
    split at parent
    · exact absurd parent.symm real
    · exact parent
  · intro n p pid code exited
    obtain ⟨low,gone⟩ := story.past n p pid code exited
    exact ⟨low,dead n gone⟩
  · intro z member v here
    obtain ⟨-,u,record,rfl,stays⟩ := departedSome here
    have zombie := List.mem_of_mem_filter member
    rw [orphanSelf (fun child => stays ⟨zombie,childOfTrue.mpr ⟨u,record,child⟩⟩)]
    exact story.zombies z zombie u record
  · intro n p pid code exited
    obtain ⟨low,later⟩ := story.delivered n p pid code exited
    refine ⟨low,fun alive => ?_⟩
    obtain ⟨old,other⟩ := departedLiving story sound front there alive
    rcases later old with ⟨z,zombie,u,record,rfl,pids,codes⟩ | ⟨gone,told⟩
    · obtain ⟨exit,-⟩ := story.zombies z zombie u record
      have parent := Option.some.inj (story.once _ _ _ _ _ _ _ exit exited).1
      have stranger : u.parent ≠ c := fun child => other (child ▸ parent.symm)
      obtain ⟨stays,kept⟩ := departedZombie (t := t) rest zombie record
        (sound.zombieApart (by simp [front]) zombie) stranger
      exact .inl ⟨z,stays,u,kept,rfl,pids,codes⟩
    · exact .inr ⟨fun z member => gone z (List.mem_of_mem_filter member),told⟩

structure Unwritten (s : Tables) (N : Names) (history : List Event) (n : Nat) : Prop where
  born : n < N.births
  absent : ∀ a v, s.record a = some v → N.name a ≠ n
  dead : living s N n = false
  never : ∀ p pid code, .exited n p pid code ∉ history

theorem Story.written {n : Nat} {parent : Option Nat} {pid : Pid} {code : Nat} {answer : List Event}
    (story : Story s N history) (sound : Sound s) (unwritten : Unwritten s N history n)
    (told : parent = none ∧ answer = [] ∨ ∃ p asked, parent = some p ∧ p < N.births ∧
      (asked = pid ∨ asked = taskAny) ∧ answer = [.replied p asked (some n) pid code]) :
    Story s N (history ++ .exited n parent pid code::answer) := by
  have exits : ∀ {m p i d}, Event.exited m p i d ∈ history ++ .exited n parent pid code::answer ↔
      .exited m p i d ∈ history ∨ m = n ∧ p = parent ∧ i = pid ∧ d = code := by
    intro m p i d
    rcases told with ⟨-,rfl⟩ | ⟨q,asked,-,-,-,rfl⟩ <;> simp
  have others : ∀ m, m ≠ n → reports m (history ++ .exited n parent pid code::answer) = reports m history := by
    intro m other
    rcases told with ⟨-,rfl⟩ | ⟨q,asked,-,-,-,rfl⟩ <;> simp [reports,Ne.symm other]
  refine ⟨story.apart,story.known,story.parents,story.orphans,story.asks,story.unmatched,?_,?_,?_,?_,?_⟩
  · intro m p i d exited
    rcases exits.mp exited with old | ⟨rfl,-⟩
    · exact story.past m p i d old
    · exact ⟨unwritten.born,unwritten.dead⟩
  · intro m p q i j d e first second
    rcases exits.mp first with old | ⟨rfl,rfl,rfl,rfl⟩
    · rcases exits.mp second with old' | ⟨rfl,-⟩
      · exact story.once m p q i j d e old old'
      · exact absurd old (unwritten.never _ _ _)
    · rcases exits.mp second with old' | ⟨-,rfl,rfl,rfl⟩
      · exact absurd old' (unwritten.never _ _ _)
      · exact ⟨rfl,rfl,rfl⟩
  · intro z zombie v here
    obtain ⟨exited,silent⟩ := story.zombies z zombie v here
    rw [others _ (unwritten.absent z v here)]
    exact ⟨exits.mpr (.inl exited),silent⟩
  · intro m p i d exited
    rcases exits.mp exited with old | ⟨rfl,some,rfl,rfl⟩
    · obtain ⟨low,later⟩ := story.delivered m p i d old
      have other : m ≠ n := fun same => unwritten.never _ _ _ (same ▸ old)
      rw [others m other]
      exact ⟨low,later⟩
    · rcases told with ⟨none,-⟩ | ⟨q,asked,same,low,-,rfl⟩
      · rw [none] at some
        contradiction
      · cases Option.some.inj (some.trans same)
        refine ⟨low,fun _ => .inr ⟨?_,asked,?_⟩⟩
        · intro z zombie
          obtain ⟨v,here⟩ := sound.known (List.mem_append_right _ zombie)
          exact unwritten.absent z v here
        · rw [reportsAppend,story.unreported unwritten.never]
          simp [reports]
  · intro p asked child i d replied
    rcases List.mem_append.mp replied with old | new
    · rcases story.truthful p asked child i d old with none | ⟨m,same,exited,fits⟩
      · exact .inl none
      · exact .inr ⟨m,same,exits.mpr (.inl exited),fits⟩
    · rcases told with ⟨-,rfl⟩ | ⟨q,wanted,same,low,matched,rfl⟩
      · simp at new
      · cases (by simpa using new : p = q ∧ asked = wanted ∧ child = some n ∧ i = pid ∧ d = code) with
        | intro parent rest =>
          obtain ⟨rfl,rfl,rfl,rfl⟩ := rest
          exact .inr ⟨n,rfl,exits.mpr (.inr ⟨rfl,by rw [parent,same],rfl,rfl⟩),matched⟩

theorem Story.buries {u : PmTask} {code : Nat} (story : Story s N history) (free : s.record c = none)
    (unwritten : Unwritten s N history (N.name c)) (alive : u.parent ∈ s.taskQ ++ s.waitQ) (real : u.parent ≠ 0)
    (spawned : N.spawner (N.name c) = some (N.name u.parent)) (saved : u.word = code)
    (unwanted : u.parent ∈ s.waitQ → ∀ w, s.record u.parent = some w → w.word ≠ u.pid ∧ w.word ≠ taskAny)
    (sound : Sound s) :
    Story { update s c u with zombieQ := s.zombieQ ++ [c] } N
      (history ++ [.exited (N.name c) (some (N.name u.parent)) u.pid code]) := by
  have old : ∀ a v, (update s c u).record a = some v → a = c ∧ v = u ∨ a ≠ c ∧ s.record a = some v := by
    intro a v found
    by_cases same : a = c
    · subst same
      exact .inl ⟨rfl,(Option.some.inj ((updateAt s a u).symm.trans found)).symm⟩
    · exact .inr ⟨same,(updateAway u same).symm.trans found⟩
  have others : ∀ m, reports m (history ++ [.exited (N.name c) (some (N.name u.parent)) u.pid code]) =
      reports m history := by
    intro m
    simp [reports]
  obtain ⟨w,parentRecord⟩ := sound.known (List.mem_append_left _ alive)
  subst saved
  refine ⟨?_,?_,?_,?_,?_,?_,?_,?_,?_,?_,?_⟩
  · intro a b v x here there same
    rcases old a v here with ⟨rfl,rfl⟩ | ⟨-,record⟩
    · rcases old b x there with ⟨rfl,rfl⟩ | ⟨-,record'⟩
      · rfl
      · exact absurd same.symm (unwritten.absent b x record')
    · rcases old b x there with ⟨rfl,rfl⟩ | ⟨-,record'⟩
      · exact absurd same (unwritten.absent a v record)
      · exact story.apart a b v x record record' same
  · intro a v here
    rcases old a v here with ⟨rfl,rfl⟩ | ⟨-,record⟩
    · exact unwritten.born
    · exact story.known a v record
  · intro a v here child
    rcases old a v here with ⟨rfl,rfl⟩ | ⟨-,record⟩
    · exact spawned
    · exact story.parents a v record child
  · intro a v p here none spawned'
    rcases old a v here with ⟨rfl,rfl⟩ | ⟨-,record⟩
    · exact absurd none real
    · exact story.orphans a v p record none spawned'
  · intro y waiting v here
    rcases old y v here with ⟨rfl,rfl⟩ | ⟨-,record⟩
    · obtain ⟨x,record⟩ := sound.known (a := y) (by simp [show y ∈ s.waitQ from waiting])
      rw [free] at record
      contradiction
    · exact story.asks y waiting v record
  · intro y waiting z zombie v x here there parent
    rcases old y v here with ⟨rfl,-⟩ | ⟨-,record⟩
    · obtain ⟨x,record⟩ := sound.known (a := y) (by simp [show y ∈ s.waitQ from waiting])
      rw [free] at record
      contradiction
    · rcases old z x there with ⟨rfl,rfl⟩ | ⟨other,record'⟩
      · subst parent
        exact unwanted waiting v record
      · have member : z ∈ s.zombieQ := by
          rcases List.mem_append.mp zombie with member | last
          · exact member
          · exact absurd (List.mem_singleton.mp last) other
        exact story.unmatched y waiting z member v x record record' parent
  · intro m p i d exited
    rcases List.mem_append.mp exited with before | last
    · exact story.past m p i d before
    · cases List.mem_singleton.mp last
      exact ⟨unwritten.born,unwritten.dead⟩
  · intro m p q i j d e first second
    rcases List.mem_append.mp first with before | last
    · rcases List.mem_append.mp second with before' | last'
      · exact story.once m p q i j d e before before'
      · cases List.mem_singleton.mp last'
        exact absurd before (unwritten.never _ _ _)
    · cases List.mem_singleton.mp last
      rcases List.mem_append.mp second with before' | last'
      · exact absurd before' (unwritten.never _ _ _)
      · cases List.mem_singleton.mp last'
        exact ⟨rfl,rfl,rfl⟩
  · intro z zombie v here
    rw [others]
    rcases old z v here with ⟨rfl,rfl⟩ | ⟨other,record⟩
    · exact ⟨by simp,story.unreported unwritten.never⟩
    · have member : z ∈ s.zombieQ := by
        rcases List.mem_append.mp zombie with member | last
        · exact member
        · exact absurd (List.mem_singleton.mp last) other
      obtain ⟨exited,silent⟩ := story.zombies z member v record
      exact ⟨List.mem_append_left _ exited,silent⟩
  · intro m p i d exited
    rw [others]
    rcases List.mem_append.mp exited with before | last
    · obtain ⟨low,later⟩ := story.delivered m p i d before
      refine ⟨low,fun lives => ?_⟩
      rcases later lives with ⟨z,zombie,v,record,same,pids,codes⟩ | ⟨gone,told⟩
      · have other : z ≠ c := fun both => by
          rw [both,free] at record
          contradiction
        exact .inl ⟨z,List.mem_append_left _ zombie,v,(updateAway u other).trans record,same,pids,codes⟩
      · refine .inr ⟨fun z zombie same => ?_,told⟩
        rcases List.mem_append.mp zombie with member | new
        · exact gone z member same
        · cases List.mem_singleton.mp new
          exact unwritten.never _ _ _ (same ▸ before)
    · cases List.mem_singleton.mp last
      refine ⟨story.known u.parent w parentRecord,fun _ => .inl ?_⟩
      exact ⟨c,List.mem_append_right _ List.mem_cons_self,u,updateAt s c u,rfl,rfl,rfl⟩
  · intro p asked child i d replied
    rcases List.mem_append.mp replied with before | last
    · rcases story.truthful p asked child i d before with none | ⟨m,same,exited,fits⟩
      · exact .inl none
      · exact .inr ⟨m,same,List.mem_append_left _ exited,fits⟩
    · cases List.mem_singleton.mp last

theorem Alike.refl (s : Tables) : Alike s s :=
  ⟨fun _ => .rfl,fun _ => id,fun _ => .rfl,fun _ t there => ⟨t,there,rfl,rfl,fun _ => rfl⟩,fun _ t there => ⟨t,there⟩⟩

theorem Alike.requeued {T W : List Addr} (same : ∀ a, a ∈ T ++ W ↔ a ∈ s.taskQ ++ s.waitQ) (fewer : W ⊆ s.waitQ) :
    Alike s { s with taskQ := T, waitQ := W } :=
  ⟨same,fun _ waiting => fewer waiting,fun _ => .rfl,fun _ t there => ⟨t,there,rfl,rfl,fun _ => rfl⟩,
    fun _ t there => ⟨t,there⟩⟩

theorem Alike.updated {u : PmTask} (sound : Sound s) (front : s.taskQ = c::rest) (there : s.record c = some t)
    (pid : u.pid = t.pid) (parent : u.parent = t.parent) : Alike s (update s c u) := by
  refine ⟨fun _ => .rfl,fun _ => id,fun _ => .rfl,?_,?_⟩
  · intro a v found
    by_cases same : a = c
    · subst same
      cases Option.some.inj ((updateAt s a u).symm.trans found)
      refine ⟨t,there,pid,parent,?_⟩
      rintro (waiting | zombie)
      · exact absurd rfl (sound.behind front a (by simp [waiting]))
      · exact absurd rfl (sound.behind front a (by simp [zombie]))
    · exact ⟨v,(updateAway u same).symm.trans found,rfl,rfl,fun _ => rfl⟩
  · intro a v found
    by_cases same : a = c
    · subst same
      exact ⟨u,updateAt s a u⟩
    · exact ⟨v,(updateAway u same).trans found⟩

theorem OnlyFrees.sent {calls : List Call} (only : OnlyFrees calls) : sent calls = [] := by
  refine List.filterMap_eq_nil_iff.mpr ?_
  intro k member
  obtain ⟨p,rfl⟩ := only k member
  rfl

theorem leaveCallsSent (more : List Call) : sent (leaveCalls s c t ++ more) = sent more := by
  have chunks := (chunkFreesOnly t.chunkQ).sent
  have reap := (reapCallsOnly (s := s) (c := c) s.zombieQ).sent
  unfold sent at chunks reap ⊢
  simp [leaveCalls,chunks,reap]

theorem setupCallsSent (r : Request) (u : PmTask) (n : Nat) (p : Addr) (argv : List (List Nat)) :
    sent (setupCalls r u n p argv) = [] := by
  have chunks := (chunkFreesOnly u.chunkQ).sent
  unfold sent at chunks ⊢
  unfold setupCalls
  split <;> simp [chunks]

theorem sentAppend (first second : List Call) : sent (first ++ second) = sent first ++ sent second :=
  List.filterMap_append

theorem Story.unwritten (story : Story s N history) (sound : Sound s) (front : s.taskQ = c::rest)
    (there : s.record c = some t) : Unwritten (departed s c t rest) N history (N.name c) := by
  refine ⟨story.known c t there,?_,?_,?_⟩
  · intro a v found same
    obtain ⟨other,u,record,-⟩ := departedSome found
    exact other (story.apart a c u t record there same)
  · by_contra alive
    exact (departedLiving story sound front there (by simpa using alive)).2 rfl
  · intro p pid code exited
    have gone := livingFalse.mp (story.past _ p pid code exited).2 c (by simp [front])
    exact gone rfl

theorem exitParent (story : Story s N history) (sound : Sound s) (there : s.record c = some t) :
    (N.spawner (N.name c)).filter (living s N) = if t.parent = 0 then none else some (N.name t.parent) := by
  by_cases orphan : t.parent = 0
  · rw [if_pos orphan,Option.filter_eq_none_iff]
    intro p spawned
    rw [(story.orphans c t p there orphan spawned).2]
    decide
  · have alive := (sound.parents c t there).resolve_left orphan
    rw [if_neg orphan,story.parents c t there orphan,Option.filter_some,
      livingTrue.mpr ⟨t.parent,alive,rfl⟩]
    rfl

theorem Story.unmoved {calls : List Call} (story : Story s N history) (alike : Alike s s')
    (cmd : r.msg.cmd = .exec ∨ r.msg.cmd = .malloc ∨ r.msg.cmd = .free ∨ r.msg.cmd = .other) :
    Story s' (renamed N r c) (history ++ (exitEvents s N r c ++ replyEvents s' (renamed N r c) r calls)) := by
  have same : renamed N r c = N ∧ exitEvents s N r c = [] ∧ replyEvents s' N r calls = [] := by
    rcases cmd with cmd | cmd | cmd | cmd <;> simp [renamed,exitEvents,replyEvents,cmd]
  obtain ⟨names,exits,replies⟩ := same
  rw [names,exits,replies]
  simpa using story.alike alike (fun _ _ => rfl)

/- The three ways a process leaves. -/
theorem Story.exits (sound : Sound s) (front : s.taskQ = c::rest) (there : s.record c = some t)
    (story : Story s N history) (cmd : r.msg.cmd = .exit) :
    renamed N r c = N ∧ exitEvents s N r c = [.exited (N.name c) (if t.parent = 0 then none else some (N.name t.parent))
      t.pid r.msg.w0] ∧ Story (departed s c t rest) N history ∧ Sound (departed s c t rest) ∧
      Unwritten (departed s c t rest) N history (N.name c) := by
  refine ⟨by simp [renamed,cmd],?_,story.departs sound front there,
    (sound.bereaved front there).left front (bereavedChildless sound front there),story.unwritten sound front there⟩
  rw [exitEvents,if_pos cmd,exitParent story sound there,pidSome there]

theorem waitEvents {calls : List Call} {m : Msg} (cmd : r.msg.cmd = .wait) (receiver : recordOf s' r.client = c)
    (told : sent calls = [(r.client,m)]) :
    exitEvents s N r c ++ replyEvents s' (renamed N r c) r calls =
      [.replied (N.name c) r.msg.w0 ((lastFreed calls).map N.name) m.w0 m.w1] := by
  simp [exitEvents,replyEvents,renamed,cmd,told,receiver]

theorem doesStory {calls : List Call} (sound : Sound s) (front : s.taskQ = c::rest) (there : s.record c = some t)
    (client : t.pid = r.client) (given : Allocates s r) (story : Story s N history)
    (finds : ∀ a v, a ∈ s'.taskQ → s'.record a = some v → recordOf s' v.pid = a)
    (did : Does s c t rest r s' calls) :
    Story s' (renamed N r c) (history ++ (exitEvents s N r c ++ replyEvents s' (renamed N r c) r calls)) := by
  have task : c ∈ s.taskQ ++ s.waitQ := by simp [front]
  have real : c ≠ 0 := sound.real (List.mem_append_left _ task)
  have wait : ∀ w ∈ s.waitQ, Function.update N.asked (N.name c) r.msg.w0 (N.name w) = N.asked (N.name w) := by
    intro w waiting
    obtain ⟨u,record⟩ := sound.known (a := w) (by simp [waiting])
    refine Function.update_of_ne (fun same => ?_) _ _
    exact sound.behind front w (by simp [waiting]) (story.apart w c u t record there same)
  have reworded := Alike.updated (u := { t with word := r.msg.w0 }) sound front there rfl rfl
  cases did with
  | spawned cmd task' record vfs args =>
    simp only [Allocates,cmd] at given
    simpa [renamed,exitEvents,replyEvents,cmd] using
      story.spawned (u := ⟨r.task,[],0,c,r.args⟩) sound given.2.2.1 given.2.2.2.1 task rfl
  | unknown cmd missing => exact story.unmoved (.refl s) (.inl cmd)
  | replaced cmd found args => exact story.unmoved (.updated sound front there rfl rfl) (.inl cmd)
  | allocated cmd chunk block => exact story.unmoved (.updated sound front there rfl rfl) (.inr (.inl cmd))
  | released cmd asked found => exact story.unmoved (.updated sound front there rfl rfl) (.inr (.inr (.inl cmd)))
  | foreign cmd absent => exact story.unmoved (.refl s) (.inr (.inr (.inl cmd)))
  | ignored cmd => exact story.unmoved (.refl s) (.inr (.inr (.inr cmd)))
  | stuck cmd found failed => exact story.unmoved (.refl s) (.inl cmd)
  | denied cmd failed => exact story.unmoved (.refl s) (.inr (.inl cmd))
  | unmade cmd none =>
    simp only [Allocates,cmd] at given
    exact absurd none (not_or.mpr ⟨given.1,given.2.2.1⟩)
  | stillborn cmd task' record failed =>
    simp only [Allocates,cmd] at given
    exact absurd failed (not_or.mpr ⟨by simp [given.2.1],given.2.2.2.2⟩)
  | orphanLeft cmd orphan =>
    obtain ⟨names,exits,left,leftSound,unwritten⟩ := Story.exits sound front there story cmd
    have silent : sent (leaveCalls s c t ++ [.kfree t.args,.kfree c]) = [] := by
      rw [leaveCallsSent]
      rfl
    rw [names,exits,if_pos orphan,replyEvents,silent,List.map_nil,ite_self,List.append_nil]
    exact left.written leftSound unwritten (.inl ⟨rfl,rfl⟩)
  | @parentWoken w cmd waiting parent wanted =>
    obtain ⟨names,exits,left,leftSound,unwritten⟩ := Story.exits sound front there story cmd
    have known : t.parent ≠ 0 := sound.real (by simp [waiting])
    have other := sound.others c t there
    have woken : Function.update (bereaved s c t).record c none t.parent = some (orphanOf c w) :=
      (Function.update_of_ne other _ _).trans (bereavedLive sound other (List.mem_append_right _ waiting) parent)
    have receiver := finds t.parent (orphanOf c w) (List.mem_append_right _ List.mem_cons_self) woken
    rw [orphanPid] at receiver
    have told : sent (leaveCalls s c t ++ [.kfree t.args,.kfree c,.send w.pid { r.msg with w0 := t.pid, w1 := r.msg.w0 }]) =
        [(w.pid,{ r.msg with w0 := t.pid, w1 := r.msg.w0 })] := by
      rw [leaveCallsSent]
      rfl
    have last : lastFreed (leaveCalls s c t ++
        [.kfree t.args,.kfree c,.send w.pid { r.msg with w0 := t.pid, w1 := r.msg.w0 }]) = some c := by
      simp [lastFreed]
    rw [names,exits,if_neg known,replyEvents,if_pos (.inl cmd),told,last]
    simp only [List.map_cons,List.map_nil,Option.map_some,receiver,List.singleton_append]
    rw [← story.asks t.parent waiting w parent]
    have written : Story (departed s c t rest) N (history ++
        .exited (N.name c) (some (N.name t.parent)) t.pid r.msg.w0::
          [.replied (N.name t.parent) w.word (some (N.name c)) t.pid r.msg.w0]) :=
      left.written leftSound unwritten (.inr ⟨N.name t.parent,w.word,rfl,story.known t.parent w parent,wanted,rfl⟩)
    have queue : ∀ a, a ∈ (rest ++ [t.parent]) ++ s.waitQ.erase t.parent ↔ a ∈ rest ++ s.waitQ := by
      intro a
      by_cases same : a = t.parent
      · simp [same,waiting]
      · simp [same,List.mem_erase_of_ne same]
    have alike := Alike.requeued (s := departed s c t rest) queue (List.erase_subset)
    exact written.alike alike (fun _ _ => rfl)
  | zombieMade cmd child unwanted =>
    obtain ⟨names,exits,left,leftSound,unwritten⟩ := Story.exits sound front there story cmd
    have silent : sent (leaveCalls s c t) = [] := by
      rw [← List.append_nil (leaveCalls s c t),leaveCallsSent]
      rfl
    rw [names,exits,if_neg child,replyEvents,silent,List.map_nil,ite_self,List.append_nil]
    let u : PmTask := { t with chunkQ := [], word := r.msg.w0 }
    have alive : t.parent ∈ rest ++ s.waitQ := by
      have member := (sound.parents c t there).resolve_left child
      rw [front,List.cons_append,List.mem_cons] at member
      exact member.resolve_left (sound.others c t there)
    have buried := left.buries (u := u) (by simp [departed]) unwritten alive child (story.parents c t there child) rfl
      (by
        intro waiting w found
        obtain ⟨-,v,record,rfl,-⟩ := departedSome found
        rw [orphanWord]
        exact unwanted waiting v record)
      leftSound
    have same : update (departed s c t rest) c u = { update (bereaved s c t) c u with taskQ := rest } := by
      simp [departed,update,withRecord]
    rw [same] at buried
    exact buried
  | @zombieReported z u cmd first zombie =>
    have member := List.mem_of_find?_eq_some first
    have fits : u.parent = c ∧ (r.msg.w0 = u.pid ∨ r.msg.w0 = taskAny) := by
      simpa [answers,zombie] using List.find?_some first
    have other := sound.zombieApart task member
    have asking := story.alike reworded wait
    have reported := asking.reported (sound.updated task there rfl) member ((updateAway _ other).trans zombie) fits.2
    have mine : Function.update (update s c { t with word := r.msg.w0 }).record z none c =
        some { t with word := r.msg.w0 } := (Function.update_of_ne (Ne.symm other) _ _).trans (updateAt s c _)
    have receiver := finds c _ (by simp [front]) mine
    rw [waitEvents cmd (client ▸ receiver) rfl]
    simpa [renamed,cmd,update,withRecord,lastFreed,fits.1] using reported
  | childless cmd unanswered barren =>
    have receiver := finds c _ (by simp [front,update,withRecord]) (updateAt s c _)
    have hollow : ∀ e ∈ [Event.replied (N.name c) r.msg.w0 none 0 0], Hollow e := by
      intro e member
      exact ⟨_,_,_,List.mem_singleton.mp member⟩
    rw [waitEvents cmd (client ▸ receiver) rfl]
    simpa [renamed,cmd,lastFreed] using story.told reworded wait hollow
  | blocked cmd unanswered child =>
    have asking := story.alike reworded wait
    have quiet : ∀ S, exitEvents s N r c ++ replyEvents S (renamed N r c) r [] = [] := by
      intro S
      simp [exitEvents,replyEvents,cmd,sent]
    have unmatched : ∀ z ∈ (update s c { t with word := r.msg.w0 }).zombieQ, ∀ u,
        (update s c { t with word := r.msg.w0 }).record z = some u → u.parent = c → r.msg.w0 ≠ u.pid ∧ r.msg.w0 ≠ taskAny := by
      intro z zombie u found parent
      have record := (updateAway _ (sound.zombieApart task zombie)).symm.trans found
      have silent := unanswered z zombie
      simpa [answers,record,parent] using silent
    have names : renamed N r c = { N with asked := Function.update N.asked (N.name c) r.msg.w0 } := by
      simp [renamed,cmd]
    rw [quiet,List.append_nil,names]
    exact asking.sleeps front (updateAt s c _) (by simp) unmatched

theorem exitEventsAttended (member : c ∈ s.taskQ) : exitEvents (attended s c) N r c = exitEvents s N r c := by
  have lives : living (attended s c) N = living s N := by
    funext p
    rw [Bool.eq_iff_iff,livingTrue,livingTrue]
    exact exists_congr (fun a => and_congr_left (fun _ => (attendedQueue member).mem_iff))
  simp only [exitEvents,lives]
  rfl
end

section
variable {h h' : Chronicle} {history out : List Event} {r : Request}

theorem Ledger.finds {m : Machine} {lost : List Pid} (table : Ledger m lost) {a : Addr} {t : PmTask} (task : a ∈ m.pm.taskQ)
    (there : m.pm.record a = some t) : recordOf m.pm t.pid = a := by
  obtain ⟨c,u,found,member,record,pid⟩ := findSender m.pm.taskQ
    (fun b task => table.sound.known (List.mem_append_left _ (List.mem_append_left _ task))) ⟨a,task,t,there,rfl⟩
  rw [recordOf,found]
  exact table.onePid (List.mem_append_left _ member) (List.mem_append_left _ task) record there pid

theorem chronicleTaken (table : Table h.machine) (heard : Heard h r) : ∃ c t y,
    Sender h.machine.pm r.client c t ∧ Table (after h.machine y) ∧
      Does (attended h.machine.pm c) c t (h.machine.pm.taskQ.erase c) r y.pm y.calls ∧
      chronicle h r = some (⟨after h.machine y,renamed h.names r c⟩,
        exitEvents h.machine.pm h.names r c ++ replyEvents y.pm (renamed h.names r c) r y.calls) := by
  obtain ⟨c,t,y,n,sender,served,-,did,kept⟩ := tableStep table heard
  obtain ⟨b,u,found,member,record,pid⟩ := findSender h.machine.pm.taskQ
    (fun b task => table.sound.known (List.mem_append_left _ (List.mem_append_left _ task)))
    ⟨c,sender.1,t,sender.2.1,sender.2.2⟩
  cases table.onePid (List.mem_append_left _ member) (List.mem_append_left _ sender.1) record sender.2.1
    (pid.trans sender.2.2.symm)
  refine ⟨c,t,y,sender,kept,did,?_⟩
  simp only [chronicle,served,found,bind,Option.bind_some]

theorem storyStep (table : Table h.machine) (story : Story h.machine.pm h.names history) (heard : Heard h r)
    (taken : chronicle h r = some (h',out)) :
    Table h'.machine ∧ Story h'.machine.pm h'.names (history ++ out) := by
  obtain ⟨c,t,y,⟨member,there,pid⟩,kept,did,same⟩ := chronicleTaken table heard
  cases Option.some.inj (same.symm.trans taken)
  refine ⟨kept,?_⟩
  have front := table.attended member
  have attending : Story (attended h.machine.pm c) h.names history :=
    story.alike (.requeued (fun a => (attendedQueue member).mem_iff) (fun _ => id)) (fun _ _ => rfl)
  rw [← exitEventsAttended member]
  exact doesStory front.sound rfl there pid (table.allocates heard.granted) attending
    (fun a v task record => kept.finds task record) did

theorem openedStory (opened : Opened h) : Table h.machine ∧ Story h.machine.pm h.names [] := by
  obtain ⟨started,names,births,spawner⟩ := opened
  refine ⟨startedTable started,?_⟩
  obtain ⟨r,args,y,boots,start,same⟩ := started
  obtain ⟨z,begun,pm,-⟩ := pmStartTurn boots.booting
  cases Option.some.inj (start.symm.trans begun)
  have tables : h.machine.pm = { update blank r.record (first r) with taskQ := [r.record] } := by
    rw [same]
    rw [booted,if_pos boots.enrolled] at pm
    exact pm
  have alone : ∀ a t, h.machine.pm.record a = some t → a = r.record ∧ t.parent = 0 := by
    intro a t there
    rw [tables] at there
    by_cases here : a = r.record
    · rw [here] at there
      cases Option.some.inj ((updateAt blank r.record (first r)).symm.trans there)
      exact ⟨here,rfl⟩
    · cases (updateAway (first r) here).symm.trans there
  have nobody : h.machine.pm.waitQ = [] ∧ h.machine.pm.zombieQ = [] := by
    rw [tables]
    exact ⟨rfl,rfl⟩
  obtain ⟨waiters,zombies⟩ := nobody
  refine ⟨?_,?_,?_,?_,?_,?_,?_,?_,?_,?_,?_⟩
  · intro a b t u here there same
    rw [(alone a t here).1,(alone b u there).1]
  · intro a t here
    simp [names,births]
  · intro a t here parent
    exact absurd (alone a t here).2 parent
  · intro a t p here parent spawned
    simp [spawner] at spawned
  · simp [waiters]
  · simp [waiters]
  · simp
  · simp
  · simp [zombies]
  · simp
  · simp

theorem runStory (run : Reaches chronicle Heard Opened h history) :
    Table h.machine ∧ Story h.machine.pm h.names history :=
  run.invariant (P := fun h history => Table h.machine ∧ Story h.machine.pm h.names history)
    (fun _ opened => openedStory opened)
    (fun _ _ _ _ _ held heard taken => storyStep held.1 held.2 heard taken)

theorem exitCodes (run : Reaches chronicle Heard Opened h history) :
    (∀ n p pid code, .exited n (some p) pid code ∈ history → living h.machine.pm h.names p = true →
      (∃ z ∈ h.machine.pm.zombieQ, ∃ t, h.machine.pm.record z = some t ∧ h.names.name z = n ∧ t.pid = pid ∧
        t.word = code) ∧ reports n history = [] ∨
      (∀ z ∈ h.machine.pm.zombieQ, h.names.name z ≠ n) ∧
        ∃ asked, reports n history = [.replied p asked (some n) pid code]) ∧
    (∀ p asked child pid code, .replied p asked child pid code ∈ history → pid ≠ 0 →
      ∃ n, child = some n ∧ .exited n (some p) pid code ∈ history ∧ (asked = pid ∨ asked = taskAny)) ∧
    (∀ w ∈ h.machine.pm.waitQ, ∀ z ∈ h.machine.pm.zombieQ, ∀ t u, h.machine.pm.record w = some t →
      h.machine.pm.record z = some u → u.parent = w → t.word ≠ u.pid ∧ t.word ≠ taskAny) ∧
    ∀ r, Heard h r → (chronicle h r).isSome := by
  obtain ⟨table,story⟩ := runStory run
  refine ⟨?_,?_,story.unmatched,?_⟩
  · intro n p pid code exited alive
    refine ((story.delivered n p pid code exited).2 alive).imp_left ?_
    rintro ⟨z,zombie,t,there,rfl,pids,codes⟩
    exact ⟨⟨z,zombie,t,there,rfl,pids,codes⟩,(story.zombies z zombie t there).2⟩
  · intro p asked child pid code replied answered
    rcases story.truthful p asked child pid code replied with ⟨-,none⟩ | told
    · contradiction
    · exact told
  · intro r heard
    obtain ⟨c,t,y,-,-,-,taken⟩ := chronicleTaken table heard
    rw [taken]
    rfl
end

-- The run of the process table goes on: init waits, and is told of the child.
def demoWait : Request := ⟨50,⟨.wait,taskAny,0,0⟩,[],0,0,0,0,0,true,0,0,0⟩

def openedDemo : Chronicle := ⟨demoBooted,⟨fun _ => 0,1,fun _ => none,fun _ => 0⟩⟩
def spawnedDemo : Chronicle := ((chronicle openedDemo demoSpawn).get (by rfl)).1
def exitedDemo : Chronicle := ((chronicle spawnedDemo demoExit).get (by rfl)).1
def waitedDemo : Chronicle := ((chronicle exitedDemo demoWait).get (by rfl)).1

def waitedHistory : List Event := [.exited 1 (some 0) 51 7,.replied 0 taskAny (some 1) 51 7]

theorem demoWaited : Reaches chronicle Heard Opened waitedDemo waitedHistory := by
  have boots : Boots demoBoot 100 := by
    refine ⟨by decide,rfl,by decide,by decide,by decide⟩
  have opened : Opened openedDemo := ⟨⟨demoBoot,100,_,boots,(Option.some_get (by rfl)).symm,rfl⟩,rfl,rfl,rfl⟩
  have spawn : Heard openedDemo demoSpawn :=
    ⟨⟨60,⟨50,[],0,0,70⟩,by decide,rfl,rfl⟩,⟨by decide,by decide,rfl,by decide,by decide⟩⟩
  have exit : Heard spawnedDemo demoExit := ⟨⟨61,⟨51,[],0,60,71⟩,by decide,rfl,rfl⟩,trivial⟩
  have wait : Heard exitedDemo demoWait := ⟨⟨60,⟨50,[],0,0,70⟩,by decide,rfl,rfl⟩,trivial⟩
  have first : chronicle openedDemo demoSpawn = some (spawnedDemo,[]) := rfl
  have second : chronicle spawnedDemo demoExit = some (exitedDemo,[.exited 1 (some 0) 51 7]) := rfl
  have third : chronicle exitedDemo demoWait = some (waitedDemo,[.replied 0 taskAny (some 1) 51 7]) := rfl
  exact .next (.next (.next (.start opened) spawn first) exit second) wait third

theorem exitCodesAfterWait : living waitedDemo.machine.pm waitedDemo.names 0 = true ∧
    ∃ asked, reports 1 waitedHistory = [.replied 0 asked (some 1) 51 7] := by
  have alive : living waitedDemo.machine.pm waitedDemo.names 0 = true := by decide
  refine ⟨alive,?_⟩
  rcases (exitCodes demoWaited).1 1 0 51 7 (by decide) alive with ⟨⟨z,zombie,-⟩,-⟩ | ⟨-,told⟩
  · exact absurd zombie (by decide +revert)
  · exact told

end Avros.Pm
