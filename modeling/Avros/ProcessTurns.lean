import Mathlib.Data.List.Find
import Mathlib.Data.List.Nodup
import Avros.ProcessManager

/-! What PM does with a request of a process it knows, once every allocation succeeds:
the loops over the queues in closed form, then one outcome for each way through a
request. -/
namespace Avros.Pm
open Queue

-- PM_CLIENT was used n times and was c each time.
def looks (c : Addr) (n : Nat) (x : Tx) : Tx := { x with clients := x.clients ++ List.replicate n c }

-- The tables became pm, and the calls were made on the way.
def moved (x : Tx) (pm : Tables) (calls : List Call) : Tx := { x with pm := pm, calls := x.calls ++ calls }

def withRecord (s : Tables) (record : Addr → Option PmTask) : Tables := { s with record := record }

section
variable {c : Addr} {x : Tx}

theorem lookLooks (front : pmClient x = c) : look x = looks c 1 x := by
  subst front
  rfl

@[simp] theorem looksLooks (c : Addr) (m n : Nat) (x : Tx) : looks c m (looks c n x) = looks c (n + m) x := by
  simp [looks,List.append_assoc,List.replicate_append_replicate]

@[simp] theorem looksPm (c : Addr) (n : Nat) (x : Tx) : (looks c n x).pm = x.pm := rfl
@[simp] theorem looksMsg (c : Addr) (n : Nat) (x : Tx) : (looks c n x).msg = x.msg := rfl
@[simp] theorem looksCalls (c : Addr) (n : Nat) (x : Tx) : (looks c n x).calls = x.calls := rfl
@[simp] theorem looksClient (c : Addr) (n : Nat) (x : Tx) : pmClient (looks c n x) = pmClient x := rfl
@[simp] theorem looksCall (c : Addr) (n : Nat) (x : Tx) (k : Call) :
    call (looks c n x) k = looks c n (call x k) := rfl
@[simp] theorem looksAnswer (c : Addr) (n : Nat) (x : Tx) (v w : Nat) :
    answer (looks c n x) v w = looks c n (answer x v w) := rfl
@[simp] theorem looksStore (c : Addr) (n : Nat) (x : Tx) (a : Addr) (t : PmTask) :
    store (looks c n x) a t = looks c n (store x a t) := rfl
@[simp] theorem looksKfree (c : Addr) (n : Nat) (x : Tx) (p : Addr) :
    kfree (looks c n x) p = looks c n (kfree x p) := rfl
@[simp] theorem looksMoved (c : Addr) (n : Nat) (x : Tx) (pm : Tables) (calls : List Call) :
    moved (looks c n x) pm calls = looks c n (moved x pm calls) := rfl
@[simp] theorem movedTwice (x : Tx) (pm pm' : Tables) (calls calls' : List Call) :
    moved (moved x pm calls) pm' calls' = moved x pm' (calls ++ calls') := by
  simp [moved]
theorem movedNot (x : Tx) : moved x x.pm [] = x := by
  simp [moved]
theorem callMoved (x : Tx) (k : Call) : call x k = moved x x.pm [k] := rfl
theorem storeMoved (x : Tx) (a : Addr) (t : PmTask) :
    store x a t = moved x (withRecord x.pm (Function.update x.pm.record a (some t))) [] := by
  simp [store,moved,withRecord]
@[simp] theorem movedPm (x : Tx) (pm : Tables) (calls : List Call) : (moved x pm calls).pm = pm := rfl
@[simp] theorem movedMsg (x : Tx) (pm : Tables) (calls : List Call) : (moved x pm calls).msg = x.msg := rfl

@[simp] theorem answerPm (x : Tx) (v w : Nat) : (answer x v w).pm = x.pm := rfl
@[simp] theorem answerMoved (x : Tx) (v w : Nat) (pm : Tables) (calls : List Call) :
    moved (answer x v w) pm calls = answer (moved x pm calls) v w := rfl

@[simp] theorem callClient (x : Tx) (k : Call) : pmClient (call x k) = pmClient x := rfl
@[simp] theorem storeClient (x : Tx) (a : Addr) (t : PmTask) : pmClient (store x a t) = pmClient x := rfl
@[simp] theorem kfreeClient (x : Tx) (p : Addr) : pmClient (kfree x p) = pmClient x := rfl
@[simp] theorem callPm (x : Tx) (k : Call) : (call x k).pm = x.pm := rfl
@[simp] theorem callMsg (x : Tx) (k : Call) : (call x k).msg = x.msg := rfl

theorem updateSame {record : Addr → Option PmTask} {a : Addr} {entry : Option PmTask}
    (same : record a = entry) : Function.update record a entry = record := by
  rw [← same]
  exact Function.update_eq_self a record

theorem kfreePlain {p : Addr} (plain : x.pm.record p = none) : kfree x p = call x (.kfree p) := by
  unfold kfree
  rw [updateSame plain]

theorem searchQueue {callback : Tx → Addr → Option (Tx × Addr)} {accepts : Addr → Bool} {que : List Addr}
    (real : ∀ it ∈ que, it ≠ 0)
    (each : ∀ it ∈ que, ∀ y, y.pm = x.pm →
      callback y it = some (looks c 1 y,if accepts it then it else 0)) :
    ∃ n, forall_ callback que x = some (looks c n x,(que.find? accepts).getD 0) := by
  suffices every : ∀ y, y.pm = x.pm → ∃ n, forall_ callback que y =
      some (looks c n y,(que.find? accepts).getD 0) from every x rfl
  induction que with
  | nil => exact fun y _ => ⟨0,by simp [forall_,looks]⟩
  | cons it rest ih =>
    intro y same
    simp only [forall_,each it List.mem_cons_self y same,bind,Option.bind_some]
    by_cases accepted : accepts it = true
    · refine ⟨1,?_⟩
      simp [accepted,real it List.mem_cons_self]
    · obtain ⟨n,found⟩ := ih (fun i member => real i (List.mem_cons_of_mem _ member))
        (fun i member => each i (List.mem_cons_of_mem _ member)) (looks c 1 y) same
      refine ⟨1 + n,?_⟩
      simp [accepted,found]

def childOf (s : Tables) (c a : Addr) : Bool := (s.record a).any (fun t => t.parent = c)

theorem childOfSome {s : Tables} {a : Addr} {t : PmTask} (there : s.record a = some t) :
    childOf s c a = decide (t.parent = c) := by
  simp [childOf,there]

theorem childOfTrue {s : Tables} {a : Addr} : childOf s c a = true ↔ ∃ t, s.record a = some t ∧ t.parent = c := by
  unfold childOf
  cases s.record a <;> simp

def orphanOf (c : Addr) (t : PmTask) : PmTask := if t.parent = c then { t with parent := 0 } else t

@[simp] theorem orphanPid (c : Addr) (t : PmTask) : (orphanOf c t).pid = t.pid := by
  unfold orphanOf
  split <;> rfl
@[simp] theorem orphanWord (c : Addr) (t : PmTask) : (orphanOf c t).word = t.word := by
  unfold orphanOf
  split <;> rfl
@[simp] theorem orphanArgs (c : Addr) (t : PmTask) : (orphanOf c t).args = t.args := by
  unfold orphanOf
  split <;> rfl
@[simp] theorem orphanChunks (c : Addr) (t : PmTask) : (orphanOf c t).chunkQ = t.chunkQ := by
  unfold orphanOf
  split <;> rfl

theorem orphanTwice (real : c ≠ 0) (t : PmTask) : orphanOf c (orphanOf c t) = orphanOf c t := by
  unfold orphanOf
  by_cases child : t.parent = c
  · simp [child,Ne.symm real]
  · simp [child]

def orphaned (s : Tables) (c : Addr) (que : List Addr) : Tables :=
  withRecord s (fun a => if a ∈ que then (s.record a).map (orphanOf c) else s.record a)

theorem orphanQueue (que : List Addr) (real : c ≠ 0) (front : pmClient x = c)
    (known : ∀ a ∈ que, (x.pm.record a).isSome) :
    ∃ n, forall_ pmMakechildorphan que x = some (looks c n (moved x (orphaned x.pm c que) []),0) := by
  induction que generalizing x with
  | nil => exact ⟨0,by simp [forall_,looks,moved,orphaned,withRecord]⟩
  | cons it rest ih =>
    obtain ⟨t,there⟩ := Option.isSome_iff_exists.mp (known it List.mem_cons_self)
    -- Whether `it` is a child or not, its record is the orphaned one afterwards.
    let y := moved x (withRecord x.pm (Function.update x.pm.record it (some (orphanOf c t)))) []
    have turn : pmMakechildorphan x it = some (looks c 1 y,0) := by
      simp only [pmMakechildorphan,lookLooks front,looksPm,there,looksClient,front,bind,Option.bind_some]
      by_cases child : t.parent = c
      · simp [child,orphanOf,storeMoved,y]
      · simp only [child,orphanOf,y,updateSame there,ne_eq,not_false_eq_true,if_true,if_false]
        exact congrArg (fun z => some (looks c 1 z,0)) (movedNot x).symm
    have later : ∀ a ∈ rest, ((looks c 1 y).pm.record a).isSome := by
      intro a member
      simp only [y,looksPm,movedPm,withRecord,Function.update_apply]
      split
      · rfl
      · exact known a (List.mem_cons_of_mem _ member)
    obtain ⟨n,loop⟩ := ih (x := looks c 1 y) front later
    refine ⟨1 + n,?_⟩
    simp only [forall_,turn,bind,Option.bind_some,ne_eq,not_true_eq_false,if_false,loop,looksMoved,looksLooks]
    simp only [y,movedTwice,List.append_nil,looksPm,movedPm,orphaned,withRecord]
    refine congrArg (fun f => some (looks c (1 + n) (moved x (withRecord x.pm f) []),0)) ?_
    funext a
    simp only [Function.update_apply,List.mem_cons]
    by_cases same : a = it
    · subst same
      by_cases again : a ∈ rest <;> simp [again,there,orphanTwice real]
    · simp [same]

def argsOf (s : Tables) (a : Addr) : Addr := ((s.record a).map (·.args)).getD 0

def reapCalls (s : Tables) (c : Addr) (que : List Addr) : List Call :=
  (que.filter (childOf s c)).flatMap (fun z => [.kfree (argsOf s z),.kfree z])

theorem reapCallsSame {s s' : Tables} {que : List Addr} (same : ∀ z ∈ que, s.record z = s'.record z) :
    reapCalls s c que = reapCalls s' c que := by
  have children : que.filter (childOf s c) = que.filter (childOf s' c) :=
    List.filter_congr (fun z member => by simp only [childOf,same z member])
  unfold reapCalls
  rw [children]
  apply List.flatMap_congr
  intro z member
  simp only [argsOf,same z (List.mem_of_mem_filter member)]

def reaped (s : Tables) (c : Addr) (kept que : List Addr) : Tables :=
  { s with
    zombieQ := kept ++ que.filter (fun z => !childOf s c z)
    record := fun a => if a ∈ que ∧ childOf s c a then none else s.record a }

theorem freeZombie {p z : Addr} (plain : x.pm.record p = none) (real : z ≠ 0) :
    kfree (zombieRemv (kfree x p) z) z = moved x
      { x.pm with zombieQ := x.pm.zombieQ.erase z, record := Function.update x.pm.record z none }
      [.kfree p,.kfree z] := by
  rw [kfreePlain plain]
  simp [kfree,zombieRemv,call,moved,qRemv,real]

/- The walk unlinks while it goes: `kept` are the zombies it has passed over. -/
theorem reapQueue (kept que : List Addr) (front : pmClient x = c) (queue : x.pm.zombieQ = kept ++ que)
    (unique : (kept ++ que).Nodup) (known : ∀ a ∈ que, (x.pm.record a).isSome)
    (real : ∀ a ∈ que, a ≠ 0)
    (apart : ∀ a ∈ que, x.pm.record (argsOf x.pm a) = none) :
    ∃ n, forall_ pmRemovechild que x =
      some (looks c n (moved x (reaped x.pm c kept que) (reapCalls x.pm c que)),0) := by
  induction que generalizing x kept with
  | nil =>
    refine ⟨0,?_⟩
    rw [List.append_nil] at queue
    simp [forall_,looks,moved,reaped,reapCalls,← queue]
  | cons it rest ih =>
    obtain ⟨t,there⟩ := Option.isSome_iff_exists.mp (known it List.mem_cons_self)
    have args : argsOf x.pm it = t.args := by simp [argsOf,there]
    have fresh : it ∉ kept ∧ it ∉ rest := by
      have := List.nodup_middle.mp unique
      simpa using (List.nodup_cons.mp this).1
    by_cases child : t.parent = c
    · have plain := apart it List.mem_cons_self
      rw [args] at plain
      have erased : (kept ++ it::rest).erase it = kept ++ rest := by
        rw [List.erase_append_right _ fresh.1,List.erase_cons_head]
      -- What stands at the other addresses is as before.
      let s : Tables := { x.pm with
        zombieQ := kept ++ rest
        record := Function.update x.pm.record it none }
      have turn : pmRemovechild x it = some (looks c 1 (moved x s [.kfree t.args,.kfree it]),0) := by
        simp only [pmRemovechild,lookLooks front,looksPm,there,looksClient,front,bind,Option.bind_some]
        simp only [child,ne_eq,not_true_eq_false,if_false,
          freeZombie (x := looks c 1 x) plain (real it List.mem_cons_self),looksMoved,looksPm,queue,erased,s]
      have other : ∀ a ∈ rest, a ≠ it := fun a member same => fresh.2 (same ▸ member)
      have childSame : ∀ a ∈ rest, childOf s c a = childOf x.pm c a := by
        intro a member
        simp [childOf,s,other a member]
      have argsSame : ∀ a ∈ rest, argsOf s a = argsOf x.pm a := by
        intro a member
        simp [argsOf,s,other a member]
      obtain ⟨n,loop⟩ := ih (x := looks c 1 (moved x s [.kfree t.args,.kfree it])) kept front rfl
        (List.Nodup.of_cons (List.nodup_middle.mp unique))
        (fun a member => by
          simpa [s,other a member] using known a (List.mem_cons_of_mem _ member))
        (fun a member => real a (List.mem_cons_of_mem _ member))
        (fun a member => by
          have free := apart a (List.mem_cons_of_mem _ member)
          simp only [looksPm,movedPm,argsSame a member]
          simp only [s,Function.update_apply]
          split <;> simp [free])
      refine ⟨1 + n,?_⟩
      simp only [forall_,turn,bind,Option.bind_some,ne_eq,not_true_eq_false,if_false,loop,looksMoved,
        movedTwice,looksLooks,looksPm,movedPm]
      have gone : childOf x.pm c it = true := childOfTrue.mpr ⟨t,there,child⟩
      have tables : reaped s c kept rest = reaped x.pm c kept (it::rest) := by
        have record : (fun a => if a ∈ rest ∧ childOf s c a then none else s.record a) =
            fun a => if a ∈ it::rest ∧ childOf x.pm c a then none else x.pm.record a := by
          funext a
          by_cases same : a = it
          · subst same
            simp [gone,fresh.2,s]
          · simp [childOf,s,same]
        have queue : rest.filter (fun z => !childOf s c z) = (it::rest).filter (fun z => !childOf x.pm c z) := by
          rw [List.filter_cons_of_neg (by simp [gone])]
          exact List.filter_congr (fun a member => by rw [childSame a member])
        simp only [reaped,record,queue,s]
      have calls : [.kfree t.args,.kfree it] ++ reapCalls s c rest = reapCalls x.pm c (it::rest) := by
        have same : ∀ a ∈ rest, s.record a = x.pm.record a := fun a member => by simp [s,other a member]
        rw [reapCallsSame same]
        simp [reapCalls,gone,args]
      rw [tables,calls]
    · have stays : childOf x.pm c it = false := by simp [childOfSome there,child]
      have turn : pmRemovechild x it = some (looks c 1 x,0) := by
        simp only [pmRemovechild,lookLooks front,looksPm,there,looksClient,front,bind,Option.bind_some]
        simp [child]
      obtain ⟨n,loop⟩ := ih (x := looks c 1 x) (kept ++ [it]) front (by simpa using queue)
        (by simpa using unique)
        (fun a member => known a (List.mem_cons_of_mem _ member))
        (fun a member => real a (List.mem_cons_of_mem _ member))
        (fun a member => apart a (List.mem_cons_of_mem _ member))
      refine ⟨1 + n,?_⟩
      simp only [forall_,turn,bind,Option.bind_some,ne_eq,not_true_eq_false,if_false,loop,looksMoved,
        looksLooks,looksPm]
      have tables : reaped x.pm c (kept ++ [it]) rest = reaped x.pm c kept (it::rest) := by
        have record : (fun a => if a ∈ rest ∧ childOf x.pm c a then none else x.pm.record a) =
            fun a => if a ∈ it::rest ∧ childOf x.pm c a then none else x.pm.record a := by
          funext a
          by_cases same : a = it
          · subst same
            simp [stays]
          · simp [same]
        simp only [reaped,record,List.filter_cons,stays,Bool.not_false,if_true,List.append_assoc,
          List.singleton_append]
      have calls : reapCalls x.pm c rest = reapCalls x.pm c (it::rest) := by
        unfold reapCalls
        rw [List.filter_cons_of_neg (by simp [stays])]
      rw [tables,calls]

def chunkFrees (chunks : List MemChunk) : List Call :=
  chunks.flatMap (fun k => (if k.ptr ≠ 0 then [.kfree k.ptr] else []) ++ [.kfree k.self])

def update (s : Tables) (a : Addr) (t : PmTask) : Tables :=
  withRecord s (Function.update s.record a (some t))

def belongings (t : PmTask) : List Addr := t.args::t.chunkQ.flatMap (fun k => [k.ptr,k.self])

@[simp] theorem updateAt (s : Tables) (a : Addr) (t : PmTask) : (update s a t).record a = some t := by
  simp [update,withRecord]

theorem updateAway {s : Tables} {a b : Addr} (t : PmTask) (other : b ≠ a) :
    (update s a t).record b = s.record b := by
  simp [update,withRecord,other]

@[simp] theorem updateTwice (s : Tables) (a : Addr) (t u : PmTask) :
    update (update s a t) a u = update s a u := by
  simp [update,withRecord]

theorem storeUpdate (x : Tx) (a : Addr) (t : PmTask) : store x a t = moved x (update x.pm a t) [] :=
  storeMoved x a t

theorem updateThere {s : Tables} {a : Addr} {t : PmTask} (there : s.record a = some t) : update s a t = s := by
  unfold update
  rw [updateSame there]
  rfl

theorem kfreeMoved {pm : Tables} {calls : List Call} {p : Addr} (plain : pm.record p = none) :
    kfree (moved x pm calls) p = moved x pm (calls ++ [.kfree p]) := by
  rw [kfreePlain (x := moved x pm calls) plain,callMoved,movedTwice]
  rfl

theorem deleteChunks {a : Addr} {t : PmTask} (there : x.pm.record a = some t)
    (apart : ∀ k ∈ t.chunkQ, x.pm.record k.ptr = none ∧ x.pm.record k.self = none) :
    pmDelchunks a t.chunkQ x =
      some (moved x (update x.pm a { t with chunkQ := [] }) (chunkFrees t.chunkQ)) := by
  suffices loop : ∀ chunks, (∀ k ∈ chunks, x.pm.record k.ptr = none ∧ x.pm.record k.self = none) →
      ∀ calls, pmDelchunks a chunks (moved x (update x.pm a { t with chunkQ := chunks }) calls) =
        some (moved x (update x.pm a { t with chunkQ := [] }) (calls ++ chunkFrees chunks)) by
    have all := loop t.chunkQ apart []
    rwa [show moved x (update x.pm a { t with chunkQ := t.chunkQ }) [] = x from by
      rw [updateThere there,movedNot]] at all
  intro chunks
  induction chunks with
  | nil => simp [pmDelchunks,chunkFrees]
  | cons k rest ih =>
    intro plain calls
    have away : ∀ (u : PmTask) p, x.pm.record p = none → (update x.pm a u).record p = none := by
      intro u p free
      have other : p ≠ a := by
        intro same
        rw [same,there] at free
        contradiction
      rw [updateAway u other,free]
    obtain ⟨ptr,self⟩ := plain k List.mem_cons_self
    have first : ∀ calls', dropChunk (moved x (update x.pm a { t with chunkQ := k::rest }) calls') a k =
        some (moved x (update x.pm a { t with chunkQ := rest }) (calls' ++ [.kfree k.self])) := by
      intro calls'
      simp only [dropChunk,movedPm,updateAt,bind,Option.bind_some,storeUpdate,updateTwice,movedTwice,
        List.append_nil,List.erase_cons_head,kfreeMoved (away _ _ self)]
    have loop := ih (fun j member => plain j (List.mem_cons_of_mem _ member))
    by_cases null : k.ptr = 0
    · simp [pmDelchunks,null,first,loop,chunkFrees]
    · simp [pmDelchunks,null,kfreeMoved (away _ _ ptr),first,loop,chunkFrees]

def setupCalls (r : Request) (t : PmTask) (stacksize : Nat) (ptr : Addr) (argv : List (List Nat)) : List Call :=
  [.kmalloc (pmArgstackSize argv) r.args,.wrote (cookArgstack r.args argv),.stoptask t.pid] ++
    chunkFrees t.chunkQ ++ (if t.args ≠ 0 then [.kfree t.args] else []) ++
    [.allocatestack t.pid stacksize r.stack,.setuptask t.pid ptr r.args]

def Apart (s : Tables) : Prop := ∀ a t, s.record a = some t → ∀ p ∈ belongings t, s.record p = none

theorem Apart.chunks {s : Tables} (apart : Apart s) {a : Addr} {t : PmTask} (there : s.record a = some t) :
    ∀ k ∈ t.chunkQ, s.record k.ptr = none ∧ s.record k.self = none := by
  intro k member
  refine ⟨apart a t there _ ?_,apart a t there _ ?_⟩
  · exact List.mem_cons_of_mem _ (List.mem_flatMap.mpr ⟨k,member,by simp⟩)
  · exact List.mem_cons_of_mem _ (List.mem_flatMap.mpr ⟨k,member,by simp⟩)

theorem Apart.args {s : Tables} (apart : Apart s) {a : Addr} {t : PmTask} (there : s.record a = some t) :
    s.record t.args = none := apart a t there _ List.mem_cons_self

theorem setupTask {r : Request} {a : Addr} {t : PmTask} (stacksize : Nat) (ptr : Addr) (argv : List (List Nat))
    (real : a ≠ 0) (there : x.pm.record a = some t) (granted : r.args ≠ 0)
    (chunks : ∀ k ∈ t.chunkQ, x.pm.record k.ptr = none ∧ x.pm.record k.self = none)
    (args : x.pm.record t.args = none) :
    pmSetuptask r x a stacksize ptr argv = some (moved x (update x.pm a { t with chunkQ := [], args := r.args })
      (setupCalls r t stacksize ptr argv),a) := by
  have away : (update x.pm a { t with chunkQ := [] }).record t.args = none := by
    have other : t.args ≠ a := by
      intro same
      rw [same,there] at args
      contradiction
    rw [updateAway _ other,args]
  have deleted : ∀ calls, pmDelchunks a t.chunkQ (moved x x.pm calls) =
      some (moved x (update x.pm a { t with chunkQ := [] }) (calls ++ chunkFrees t.chunkQ)) := by
    intro calls
    rw [deleteChunks (x := moved x x.pm calls) there chunks,movedTwice]
    rfl
  simp only [pmSetuptask,if_neg granted,callMoved,movedTwice,movedPm,pmPidof,if_neg real,there,Option.map_some,
    bind,Option.bind_some,deleted,updateAt]
  by_cases null : t.args = 0
  · simp [null,storeUpdate,setupCalls]
  · simp [null,storeUpdate,setupCalls,kfreeMoved away]

structure Sound (s : Tables) : Prop where
  null : s.record 0 = none
  once : ∀ a, (s.taskQ ++ s.waitQ ++ s.zombieQ).count a = if (s.record a).isSome then 1 else 0
  parents : ∀ a t, s.record a = some t → t.parent = 0 ∨ t.parent ∈ s.taskQ ++ s.waitQ
  others : ∀ a t, s.record a = some t → t.parent ≠ a
  zombies : ∀ a ∈ s.zombieQ, ∀ t, s.record a = some t → t.parent ≠ 0 ∧ t.chunkQ = []

theorem Sound.unique {s : Tables} (sound : Sound s) : (s.taskQ ++ s.waitQ ++ s.zombieQ).Nodup := by
  rw [List.nodup_iff_count_le_one]
  intro a
  rw [sound.once a]
  split <;> omega

theorem Sound.known {s : Tables} (sound : Sound s) {a : Addr} (member : a ∈ s.taskQ ++ s.waitQ ++ s.zombieQ) :
    ∃ t, s.record a = some t := by
  have positive := List.count_pos_iff.mpr member
  rw [sound.once a] at positive
  exact Option.isSome_iff_exists.mp (by by_contra absent; simp [absent] at positive)

theorem Sound.real {s : Tables} (sound : Sound s) {a : Addr} (member : a ∈ s.taskQ ++ s.waitQ ++ s.zombieQ) :
    a ≠ 0 := by
  obtain ⟨t,there⟩ := sound.known member
  intro zero
  rw [zero,sound.null] at there
  contradiction

theorem Sound.queued {s : Tables} (sound : Sound s) {a : Addr} {t : PmTask} (there : s.record a = some t) :
    a ∈ s.taskQ ++ s.waitQ ++ s.zombieQ := by
  rw [← List.count_pos_iff,sound.once a,there]
  simp

/- The tables an exiting process c leaves: its zombie children are gone, its other
children are orphans and its memory is freed. -/
def bereaved (s : Tables) (c : Addr) (t : PmTask) : Tables :=
  { s with
    zombieQ := s.zombieQ.filter (fun z => !childOf s c z)
    record := fun a =>
      if a ∈ s.zombieQ ∧ childOf s c a then none
      else if a = c then some { t with chunkQ := [] } else (s.record a).map (orphanOf c) }

def leaveCalls (s : Tables) (c : Addr) (t : PmTask) : List Call :=
  chunkFrees t.chunkQ ++ [.stoptask t.pid,.deletetask t.pid,.vfsDeletetask t.pid] ++ reapCalls s c s.zombieQ

def answers (s : Tables) (c : Addr) (word : Nat) (a : Addr) : Bool :=
  (s.record a).any (fun u => u.parent = c ∧ (word = u.pid ∨ word = taskAny))

/- Everything a request of the process c, with record t, can do. -/
inductive Does (s : Tables) (c : Addr) (t : PmTask) (rest : List Addr) (r : Request) :
    Tables → List Call → Prop where
  | spawned (cmd : r.msg.cmd = .spawn) (task : r.task ≠ 0) (record : r.record ≠ 0) (vfs : r.vfs = true)
      (args : r.args ≠ 0) :
      Does s c t rest r { update s r.record ⟨r.task,[],0,c,r.args⟩ with taskQ := s.taskQ ++ [r.record] }
        ([.createtask r.task,.kmalloc 16 r.record,.vfsCreatetask r.task t.pid true] ++
          setupCalls r ⟨r.task,[],0,c,0⟩ r.msg.w1 r.msg.w0 (argvOf r r.msg.w2) ++
          [.starttask r.task,.send r.client { r.msg with w0 := r.task }])
  | unknown (cmd : r.msg.cmd = .exec) (missing : r.prg = 0) :
      Does s c t rest r s [.exGetprg r.msg.w0 r.prg r.prgStack,.send r.client r.msg]
  | replaced (cmd : r.msg.cmd = .exec) (found : r.prg ≠ 0) (args : r.args ≠ 0) :
      Does s c t rest r (update s c { t with chunkQ := [], args := r.args })
        ([.exGetprg r.msg.w0 r.prg r.prgStack] ++ setupCalls r t r.prgStack r.prg (argvOf r r.msg.w1) ++
          [.starttask t.pid])
  | orphanLeft (cmd : r.msg.cmd = .exit) (orphan : t.parent = 0) :
      Does s c t rest r
        { bereaved s c t with taskQ := rest, record := Function.update (bereaved s c t).record c none }
        (leaveCalls s c t ++ [.kfree t.args,.kfree c])
  | parentWoken {w : PmTask} (cmd : r.msg.cmd = .exit) (waiting : t.parent ∈ s.waitQ)
      (parent : s.record t.parent = some w) (wanted : w.word = t.pid ∨ w.word = taskAny) :
      Does s c t rest r
        { bereaved s c t with
          taskQ := rest ++ [t.parent]
          waitQ := s.waitQ.erase t.parent
          record := Function.update (bereaved s c t).record c none }
        (leaveCalls s c t ++ [.kfree t.args,.kfree c,.send w.pid { r.msg with w0 := t.pid, w1 := r.msg.w0 }])
  | zombieMade (cmd : r.msg.cmd = .exit) (child : t.parent ≠ 0)
      (unwanted : t.parent ∈ s.waitQ → ∀ w, s.record t.parent = some w → w.word ≠ t.pid ∧ w.word ≠ taskAny) :
      Does s c t rest r
        { update (bereaved s c t) c { t with chunkQ := [], word := r.msg.w0 } with
          taskQ := rest
          zombieQ := (bereaved s c t).zombieQ ++ [c] }
        (leaveCalls s c t)
  | zombieReported {z : Addr} {u : PmTask} (cmd : r.msg.cmd = .wait)
      (first : s.zombieQ.find? (answers s c r.msg.w0) = some z) (zombie : s.record z = some u) :
      Does s c t rest r
        { s with
          zombieQ := s.zombieQ.erase z
          record := Function.update (update s c { t with word := r.msg.w0 }).record z none }
        [.kfree u.args,.kfree z,.send r.client { r.msg with w0 := u.pid, w1 := u.word }]
  | childless (cmd : r.msg.cmd = .wait) (unanswered : ∀ z ∈ s.zombieQ, answers s c r.msg.w0 z = false)
      (barren : ∀ a ∈ s.taskQ ++ s.waitQ, childOf s c a = false) :
      Does s c t rest r (update s c { t with word := r.msg.w0 })
        [.send r.client { r.msg with w0 := 0, w1 := 0 }]
  | blocked (cmd : r.msg.cmd = .wait) (unanswered : ∀ z ∈ s.zombieQ, answers s c r.msg.w0 z = false)
      (child : ∃ a ∈ s.taskQ ++ s.waitQ, childOf s c a = true) :
      Does s c t rest r { update s c { t with word := r.msg.w0 } with taskQ := rest, waitQ := s.waitQ ++ [c] } []
  | allocated (cmd : r.msg.cmd = .malloc) (chunk : r.chunk ≠ 0) (block : r.block ≠ 0) :
      Does s c t rest r (update s c { t with chunkQ := ⟨r.chunk,r.block⟩::t.chunkQ })
        [.kmalloc 6 r.chunk,.kmalloc r.msg.w0 r.block,.send r.client { r.msg with w0 := r.block }]
  | released {k : MemChunk} (cmd : r.msg.cmd = .free) (real : r.msg.w0 ≠ 0)
      (found : t.chunkQ.find? (·.ptr = r.msg.w0) = some k) :
      Does s c t rest r (update s c { t with chunkQ := t.chunkQ.erase k })
        [.kfree k.ptr,.kfree k.self,.send r.client r.msg]
  | foreign (cmd : r.msg.cmd = .free)
      (absent : r.msg.w0 = 0 ∨ t.chunkQ.find? (·.ptr = r.msg.w0) = none) :
      Does s c t rest r s [.kfree 0,.send r.client r.msg]
  | ignored (cmd : r.msg.cmd = .other) : Does s c t rest r s []
  -- From here on an allocation fails.
  | unmade (cmd : r.msg.cmd = .spawn) (none : r.task = 0 ∨ r.record = 0) :
      Does s c t rest r s
        ([.createtask r.task] ++ (if r.task = 0 then [] else [.kmalloc 16 0]) ++ [.send r.client r.msg])
  | stillborn (cmd : r.msg.cmd = .spawn) (task : r.task ≠ 0) (record : r.record ≠ 0)
      (failed : r.vfs = false ∨ r.args = 0) :
      Does s c t rest r { update s r.record ⟨r.task,[],0,c,0⟩ with taskQ := s.taskQ ++ [r.record] }
        ([.createtask r.task,.kmalloc 16 r.record,.vfsCreatetask r.task t.pid r.vfs] ++
          (if r.vfs = false then [] else [.kmalloc (pmArgstackSize (argvOf r r.msg.w2)) 0]) ++ [.send r.client r.msg])
  | stuck (cmd : r.msg.cmd = .exec) (found : r.prg ≠ 0) (failed : r.args = 0) :
      Does s c t rest r s
        [.exGetprg r.msg.w0 r.prg r.prgStack,.kmalloc (pmArgstackSize (argvOf r r.msg.w1)) 0]
  | denied (cmd : r.msg.cmd = .malloc) (failed : r.chunk = 0 ∨ r.block = 0) :
      Does s c t rest r s
        ([.kmalloc 6 r.chunk] ++ (if r.chunk = 0 then [] else [.kmalloc r.msg.w0 0,.kfree r.chunk]) ++
          [.send r.client { r.msg with w0 := 0 }])

def Offers (s : Tables) (r : Request) : Prop :=
  match r.msg.cmd with
  | .spawn => s.record r.record = none
  | .malloc => s.record r.chunk = none
  | _ => True

def Allocates (s : Tables) (r : Request) : Prop :=
  match r.msg.cmd with
  | .spawn => r.task ≠ 0 ∧ r.vfs = true ∧ r.record ≠ 0 ∧ s.record r.record = none ∧ r.args ≠ 0
  | .exec => r.prg = 0 ∨ r.args ≠ 0
  | .malloc => r.chunk ≠ 0 ∧ r.block ≠ 0
  | _ => True
end

section
variable {x : Tx} {c : Addr} {t : PmTask} {rest : List Addr} {r : Request}

theorem frontClient (front : x.pm.taskQ = c::rest) : pmClient x = c := by
  simp [pmClient,front]

theorem movedLook {pm : Tables} {calls : List Call} (front : pm.taskQ = c::rest) :
    look (moved x pm calls) = looks c 1 (moved x pm calls) := lookLooks (by simp [pmClient,front])

theorem lookAgain {pm : Tables} {calls : List Call} {n : Nat} (front : pm.taskQ = c::rest) :
    look (looks c n (moved x pm calls)) = looks c (n + 1) (moved x pm calls) := by
  rw [lookLooks (x := looks c n (moved x pm calls)) (c := c) (by simp [pmClient,front]),looksLooks]

theorem movedClient {pm : Tables} {calls : List Call} (front : pm.taskQ = c::rest) :
    pmClient (moved x pm calls) = c := by
  simp [pmClient,front]

theorem doSpawnTurn (real : c ≠ 0) (front : x.pm.taskQ = c::rest) (there : x.pm.record c = some t)
    (null : x.pm.record 0 = none) (task : r.task ≠ 0) (vfs : r.vfs = true) (record : r.record ≠ 0)
    (free : x.pm.record r.record = none) (args : r.args ≠ 0) :
    ∃ n, doSpawn r x = some (looks c n (answer (moved x
      { update x.pm r.record ⟨r.task,[],0,c,r.args⟩ with taskQ := x.pm.taskQ ++ [r.record] }
      ([.createtask r.task,.kmalloc 16 r.record,.vfsCreatetask r.task t.pid true] ++
        setupCalls r ⟨r.task,[],0,c,0⟩ x.msg.w1 x.msg.w0 (argvOf r x.msg.w2) ++ [.starttask r.task]))
      r.task x.msg.w1)) := by
  refine ⟨2,?_⟩
  have other : c ≠ r.record := by
    intro same
    rw [same,free] at there
    contradiction
  let new : PmTask := ⟨r.task,[],0,c,0⟩
  let s : Tables := { update x.pm r.record new with taskQ := x.pm.taskQ ++ [r.record] }
  have newFront : s.taskQ = c::(rest ++ [r.record]) := by simp [s,front]
  have newThere : s.record c = some t := by
    simp only [s]
    rw [updateAway new other,there]
  have newNull : s.record 0 = none := by
    simp only [s]
    rw [updateAway new (Ne.symm record),null]
  have queued : ∀ calls, taskEnd (looks c 1 (moved x (update x.pm r.record ⟨r.task,[],0,c,0⟩) calls)) r.record =
      looks c 1 (moved x s calls) := by
    intro calls
    simp [taskEnd,looks,moved,qEnd,record,s,update,withRecord,new]
  have parent : ∀ n calls, pmPidof (looks c n (moved x s calls)) c = some t.pid := by
    simp [pmPidof,real,newThere]
  have setup : ∀ calls, pmSetuptask r (looks c 2 (moved x s calls)) r.record x.msg.w1 x.msg.w0 (argvOf r x.msg.w2) =
      some (looks c 2 (moved x (update s r.record { new with args := r.args })
        (calls ++ setupCalls r new x.msg.w1 x.msg.w0 (argvOf r x.msg.w2))),r.record) := by
    intro calls
    rw [setupTask (x := looks c 2 (moved x s calls)) (t := new) _ _ _ record (by simp [s]) args
      (by simp [new]) newNull]
    simp [new]
  have final : update s r.record { new with args := r.args } =
      { update x.pm r.record ⟨r.task,[],0,c,r.args⟩ with taskQ := x.pm.taskQ ++ [r.record] } := by
    simp [s,update,withRecord,new]
  simp only [doSpawn,callMoved,if_neg task,movedLook front,movedPm,pmNewtask,looksMoved,looksPm,movedTwice,
    if_neg record,storeUpdate,looksClient,movedClient front,queued]
  simp only [lookAgain newFront,looksClient,movedClient newFront,parent,bind,Option.bind_some,looksPm,movedPm,
    looksMoved,movedTwice,vfs,looksMsg,movedMsg,setup,final,Bool.true_eq_false,if_false,if_neg record,
    looksAnswer,List.nil_append,List.cons_append,new]

theorem doSpawnUnmade (front : x.pm.taskQ = c::rest) (none : r.task = 0 ∨ r.record = 0) :
    ∃ n, doSpawn r x = some (looks c n (moved x x.pm
      ([.createtask r.task] ++ if r.task = 0 then [] else [.kmalloc 16 0]))) := by
  by_cases task : r.task = 0
  · exact ⟨0,by simp [doSpawn,task,callMoved,looks,moved]⟩
  · have record := none.resolve_left task
    refine ⟨1,?_⟩
    simp only [doSpawn,callMoved,if_neg task,movedLook front,pmNewtask,looksMoved,movedTwice,looksPm,movedPm,record,
      if_true,List.cons_append,List.nil_append]

-- The record is made and linked before anything else can fail.
theorem doSpawnStillborn (real : c ≠ 0) (front : x.pm.taskQ = c::rest) (there : x.pm.record c = some t)
    (task : r.task ≠ 0) (record : r.record ≠ 0) (free : x.pm.record r.record = none)
    (failed : r.vfs = false ∨ r.args = 0) :
    ∃ n, doSpawn r x = some (looks c n (moved x
      { update x.pm r.record ⟨r.task,[],0,c,0⟩ with taskQ := x.pm.taskQ ++ [r.record] }
      ([.createtask r.task,.kmalloc 16 r.record,.vfsCreatetask r.task t.pid r.vfs] ++
        if r.vfs = false then [] else [.kmalloc (pmArgstackSize (argvOf r x.msg.w2)) 0]))) := by
  refine ⟨2,?_⟩
  have other : c ≠ r.record := by
    intro same
    rw [same,free] at there
    contradiction
  let new : PmTask := ⟨r.task,[],0,c,0⟩
  let s : Tables := { update x.pm r.record new with taskQ := x.pm.taskQ ++ [r.record] }
  have newFront : s.taskQ = c::(rest ++ [r.record]) := by simp [s,front]
  have newThere : s.record c = some t := by
    simp only [s]
    rw [updateAway new other,there]
  have queued : ∀ calls, taskEnd (looks c 1 (moved x (update x.pm r.record ⟨r.task,[],0,c,0⟩) calls)) r.record =
      looks c 1 (moved x s calls) := by
    intro calls
    simp [taskEnd,looks,moved,qEnd,record,s,update,withRecord,new]
  have parent : ∀ n calls, pmPidof (looks c n (moved x s calls)) c = some t.pid := by
    simp [pmPidof,real,newThere]
  simp only [doSpawn,callMoved,if_neg task,movedLook front,movedPm,pmNewtask,looksMoved,looksPm,movedTwice,
    if_neg record,storeUpdate,looksClient,movedClient front,queued]
  simp only [lookAgain newFront,looksClient,movedClient newFront,parent,bind,Option.bind_some,looksPm,movedPm,
    looksMoved,movedTwice]
  by_cases vfs : r.vfs = false
  · simp only [vfs,if_true,List.append_nil,List.nil_append,List.cons_append,s,new]
  · have args := failed.resolve_left vfs
    simp only [if_neg vfs,pmSetuptask,callMoved,args,if_true,Option.bind_some,looksMoved,movedTwice,looksPm,movedPm,
      looksMsg,movedMsg,List.append_nil,List.nil_append,List.cons_append,s,new]

theorem doExecUnknown (missing : r.prg = 0) :
    doExec r x = some (moved x x.pm [.exGetprg x.msg.w0 r.prg r.prgStack],true) := by
  simp [doExec,missing,callMoved]

theorem doExecTurn (real : c ≠ 0) (front : x.pm.taskQ = c::rest) (there : x.pm.record c = some t)
    (apart : Apart x.pm) (granted : r.args ≠ 0) (found : r.prg ≠ 0) :
    ∃ n, doExec r x = some (looks c n (moved x (update x.pm c { t with chunkQ := [], args := r.args })
      ([.exGetprg x.msg.w0 r.prg r.prgStack] ++ setupCalls r t r.prgStack r.prg (argvOf r x.msg.w1) ++
        [.starttask t.pid])),false) := by
  refine ⟨2,?_⟩
  have setup : ∀ calls, pmSetuptask r (looks c 1 (moved x x.pm calls)) c r.prgStack r.prg (argvOf r x.msg.w1) =
      some (looks c 1 (moved x (update x.pm c { t with chunkQ := [], args := r.args })
        (calls ++ setupCalls r t r.prgStack r.prg (argvOf r x.msg.w1))),c) := by
    intro calls
    rw [setupTask (x := looks c 1 (moved x x.pm calls)) _ _ _ real there granted (apart.chunks there)
      (apart.args there)]
    simp
  have stays : (update x.pm c { t with chunkQ := [], args := r.args }).taskQ = c::rest := front
  simp only [doExec,callMoved,if_neg found,movedLook front,looksClient,movedClient front,movedMsg,looksMsg,setup,
    bind,Option.bind_some,if_neg real,lookAgain stays,movedClient stays,looksPm,movedPm,updateAt,looksMoved,
    movedTwice]

theorem doExecStuck (front : x.pm.taskQ = c::rest) (found : r.prg ≠ 0) (failed : r.args = 0) :
    ∃ n, doExec r x = some (looks c n (moved x x.pm
      [.exGetprg x.msg.w0 r.prg r.prgStack,.kmalloc (pmArgstackSize (argvOf r x.msg.w1)) 0]),false) := by
  refine ⟨1,?_⟩
  simp only [doExec,callMoved,if_neg found,movedLook front,pmSetuptask,looksMsg,movedMsg,failed,if_true,bind,
    Option.bind_some,looksMoved,movedTwice,looksPm,movedPm,List.cons_append,List.nil_append]

theorem doPmallocDenied (free : x.pm.record r.chunk = none) (failed : r.chunk = 0 ∨ r.block = 0) :
    doPmalloc r x = some (answer (moved x x.pm
      ([.kmalloc 6 r.chunk] ++ if r.chunk = 0 then [] else [.kmalloc x.msg.w0 0,.kfree r.chunk])) 0 x.msg.w1) := by
  by_cases chunk : r.chunk = 0
  · simp [doPmalloc,chunk,callMoved]
  · have block := failed.resolve_left chunk
    simp only [doPmalloc,callMoved,if_neg chunk,block,if_true,movedTwice,movedPm,kfreeMoved free,movedMsg,
      List.cons_append,List.nil_append]

theorem doPmallocTurn (front : x.pm.taskQ = c::rest) (there : x.pm.record c = some t)
    (chunk : r.chunk ≠ 0) (block : r.block ≠ 0) :
    ∃ n, doPmalloc r x = some (looks c n (answer (moved x (update x.pm c
      { t with chunkQ := ⟨r.chunk,r.block⟩::t.chunkQ }) [.kmalloc 6 r.chunk,.kmalloc x.msg.w0 r.block])
      r.block x.msg.w1)) := by
  refine ⟨1,?_⟩
  simp only [doPmalloc,callMoved,if_neg chunk,if_neg block,movedPm,movedTwice,movedLook front,looksPm,
    looksClient,movedClient front,there,bind,Option.bind_some,storeUpdate,looksMoved,looksMsg,movedMsg,looksAnswer,
    List.cons_append,List.nil_append]

theorem doPmfreeForeign (real : c ≠ 0) (front : x.pm.taskQ = c::rest) (there : x.pm.record c = some t)
    (null : x.pm.record 0 = none)
    (absent : x.msg.w0 = 0 ∨ t.chunkQ.find? (·.ptr = x.msg.w0) = none) :
    ∃ n, doPmfree x = some (looks c n (moved x x.pm [.kfree 0])) := by
  refine ⟨2,?_⟩
  have missed : findchunk (looks c 1 x) c x.msg.w0 = some none := by
    rcases absent with zero | absent
    · simp [findchunk,zero]
    · by_cases zero : x.msg.w0 = 0
      · simp [findchunk,zero]
      · simp [findchunk,zero,real,there,absent]
  have second : look (looks c 1 x) = looks c 2 x := by
    rw [lookLooks (x := looks c 1 x) (frontClient front),looksLooks]
  simp only [doPmfree,lookLooks (frontClient front),looksClient,frontClient front,looksMsg,missed,bind,
    Option.bind_some,second,looksKfree,kfreePlain null,callMoved]

theorem doPmfreeTurn {k : MemChunk} (real : c ≠ 0) (front : x.pm.taskQ = c::rest) (there : x.pm.record c = some t)
    (apart : Apart x.pm) (asked : x.msg.w0 ≠ 0) (found : t.chunkQ.find? (·.ptr = x.msg.w0) = some k) :
    ∃ n, doPmfree x = some (looks c n (moved x (update x.pm c { t with chunkQ := t.chunkQ.erase k })
      [.kfree k.ptr,.kfree k.self])) := by
  refine ⟨2,?_⟩
  have ptr : k.ptr ≠ 0 := by
    have := List.find?_some found
    simp only [decide_eq_true_eq] at this
    rw [this]
    exact asked
  obtain ⟨plainPtr,plainSelf⟩ := apart.chunks there k (List.mem_of_find?_eq_some found)
  have hit : findchunk (looks c 1 x) c x.msg.w0 = some (some k) := by
    simp [findchunk,asked,real,there,found]
  have freed : (update x.pm c { t with chunkQ := t.chunkQ.erase k }).record k.self = none := by
    have other : k.self ≠ c := by
      intro same
      rw [same,there] at plainSelf
      contradiction
    rw [updateAway _ other,plainSelf]
  simp only [doPmfree,lookLooks (frontClient front),looksClient,frontClient front,looksMsg,hit,bind,
    Option.bind_some,ne_eq,ptr,not_false_eq_true,if_true,looksKfree,kfreePlain plainPtr,callMoved,lookAgain front,
    movedClient front,dropChunk,looksPm,movedPm,there,storeUpdate,looksMoved,movedTwice,kfreeMoved freed,
    List.append_nil,List.cons_append,List.nil_append]

theorem Sound.zombieApart {s : Tables} (sound : Sound s) {a z : Addr} (task : a ∈ s.taskQ ++ s.waitQ)
    (zombie : z ∈ s.zombieQ) : z ≠ a := by
  intro same
  subst same
  exact (List.nodup_append.mp sound.unique).2.2 _ task _ zombie rfl

theorem findchild (que : List Addr) (real : ∀ it ∈ que, it ≠ 0) (front : x.pm.taskQ = c::rest)
    (known : ∀ it ∈ que, ∃ u, x.pm.record it = some u) :
    ∃ n, forall_ pmHaschild que x = some (looks c n x,(que.find? (childOf x.pm c)).getD 0) := by
  apply searchQueue real
  intro it member y same
  obtain ⟨u,there⟩ := known it member
  have client : pmClient y = c := by simp [pmClient,same,front]
  simp only [pmHaschild,lookLooks client,looksPm,same,there,bind,Option.bind_some,looksClient,client,
    childOfSome there]
  by_cases child : u.parent = c <;> simp [child]

theorem findzombie (que : List Addr) (real : ∀ it ∈ que, it ≠ 0) (front : x.pm.taskQ = c::rest)
    (there : x.pm.record c = some t) (known : ∀ it ∈ que, ∃ u, x.pm.record it = some u) :
    ∃ n, forall_ pmFindzombie que x = some (looks c n x,(que.find? (answers x.pm c t.word)).getD 0) := by
  apply searchQueue real
  intro it member y same
  obtain ⟨u,zombie⟩ := known it member
  have client : pmClient y = c := by simp [pmClient,same,front]
  simp only [pmFindzombie,lookLooks client,looksPm,same,zombie,there,bind,Option.bind_some,looksClient,client,
    answers,Option.any_some]
  by_cases child : u.parent = c
  · by_cases pid : t.word = u.pid <;> by_cases any : t.word = taskAny <;> simp [child,pid,any]
  · simp [child]

theorem taskRemvFront (real : c ≠ 0) (front : x.pm.taskQ = c::rest) :
    taskRemv x c = moved x { x.pm with taskQ := rest } [] := by
  simp [taskRemv,moved,qRemv,real,front]

theorem blockClient (real : c ≠ 0) (front : x.pm.taskQ = c::rest) :
    waitEnd (taskRemv x c) c = moved x { x.pm with taskQ := rest, waitQ := x.pm.waitQ ++ [c] } [] := by
  rw [taskRemvFront real front]
  simp [waitEnd,moved,qEnd,real]

theorem doWaitTurn (sound : Sound x.pm) (apart : Apart x.pm) (front : x.pm.taskQ = c::rest)
    (there : x.pm.record c = some t) :
    (∃ n z u, doWait x = some (looks c n (answer (moved x
        { x.pm with
          zombieQ := x.pm.zombieQ.erase z
          record := Function.update (update x.pm c { t with word := x.msg.w0 }).record z none }
        [.kfree u.args,.kfree z]) u.pid u.word),true) ∧
      x.pm.zombieQ.find? (answers x.pm c x.msg.w0) = some z ∧ x.pm.record z = some u) ∨
    ((∀ z ∈ x.pm.zombieQ, answers x.pm c x.msg.w0 z = false) ∧
      ((∃ n, doWait x = some (looks c n (answer (moved x (update x.pm c { t with word := x.msg.w0 }) []) 0 0),true) ∧
          ∀ a ∈ x.pm.taskQ ++ x.pm.waitQ, childOf x.pm c a = false) ∨
        (∃ n, doWait x = some (looks c n (moved x { update x.pm c { t with word := x.msg.w0 } with
            taskQ := rest, waitQ := x.pm.waitQ ++ [c] } []),false) ∧
          ∃ a ∈ x.pm.taskQ ++ x.pm.waitQ, childOf x.pm c a = true))) := by
  have member : c ∈ x.pm.taskQ ++ x.pm.waitQ := by simp [front]
  have away : ∀ z ∈ x.pm.zombieQ, z ≠ c := fun z zombie => sound.zombieApart member zombie
  let s := update x.pm c { t with word := x.msg.w0 }
  have sFront : s.taskQ = c::rest := front
  have sThere : s.record c = some { t with word := x.msg.w0 } := updateAt _ _ _
  have known : ∀ a ∈ x.pm.taskQ ++ x.pm.waitQ ++ x.pm.zombieQ, ∃ u, s.record a = some u := by
    intro a queued
    by_cases same : a = c
    · exact ⟨_,same ▸ sThere⟩
    · obtain ⟨u,old⟩ := sound.known queued
      exact ⟨u,(updateAway _ same).trans old⟩
  have sChild : childOf s c = childOf x.pm c := by
    funext a
    by_cases same : a = c
    · subst same
      simp [childOf,sThere,there]
    · simp only [childOf,s,updateAway _ same]
  have sAnswers : ∀ z ∈ x.pm.zombieQ, answers s c x.msg.w0 z = answers x.pm c x.msg.w0 z := by
    intro z zombie
    simp only [answers,s,updateAway _ (away z zombie)]
  have stored : store (looks c 1 x) c { t with word := x.msg.w0 } = looks c 1 (moved x s []) := by
    rw [looksStore,storeUpdate]
  obtain ⟨n,search⟩ := findzombie (x := looks c 1 (moved x s [])) (t := { t with word := x.msg.w0 })
    s.zombieQ (fun z zombie => sound.real (List.mem_append_right _ zombie)) sFront sThere
    (fun z zombie => known z (List.mem_append_right _ zombie))
  have same : s.zombieQ.find? (answers s c x.msg.w0) = x.pm.zombieQ.find? (answers x.pm c x.msg.w0) :=
    List.find?_congr sAnswers
  simp only [looksPm,movedPm,same,looksLooks] at search
  simp only [doWait,lookLooks (frontClient front),looksPm,looksClient,frontClient front,there,bind,
    Option.bind_some,looksMsg,stored,movedPm,search]
  cases found : x.pm.zombieQ.find? (answers x.pm c x.msg.w0) with
  | some z =>
    have zombie := List.mem_of_find?_eq_some found
    have real := sound.real (List.mem_append_right _ zombie)
    obtain ⟨u,zThere⟩ := sound.known (List.mem_append_right _ zombie)
    have sZombie : s.record z = some u := (updateAway _ (away z zombie)).trans zThere
    have plain : s.record u.args = none := by
      have free := apart.args zThere
      rw [← free]
      exact updateAway _ (by rintro same; rw [same,there] at free; contradiction)
    refine .inl ⟨1 + n,z,u,?_,rfl,zThere⟩
    simp only [Option.getD_some,ne_eq,real,not_false_eq_true,if_true,sZombie,Option.bind_some]
    rw [freeZombie (x := answer (looks c (1 + n) (moved x s [])) u.pid u.word) plain real,answerMoved,looksMoved,
      movedTwice,looksAnswer]
    rfl
  | none =>
    refine .inr ⟨fun z zombie => by simpa using List.find?_eq_none.mp found z zombie,?_⟩
    obtain ⟨m,tasks⟩ := findchild (x := looks c (1 + n) (moved x s [])) s.taskQ
      (fun a task => sound.real (List.mem_append_left _ (List.mem_append_left _ task))) sFront
      (fun a task => known a (List.mem_append_left _ (List.mem_append_left _ task)))
    obtain ⟨k,waiters⟩ := findchild (x := looks c (1 + n + m) (moved x s [])) s.waitQ
      (fun a task => sound.real (List.mem_append_left _ (List.mem_append_right _ task))) sFront
      (fun a task => known a (List.mem_append_left _ (List.mem_append_right _ task)))
    simp only [looksPm,movedPm,looksLooks,sChild] at tasks waiters
    -- Only whether a child was found matters.
    have blocks : ∀ n, waitEnd (taskRemv (look (looks c n (moved x s []))) c) c = looks c (n + 1) (moved x
        { s with taskQ := rest, waitQ := x.pm.waitQ ++ [c] } []) := by
      intro n
      rw [lookAgain sFront,blockClient (x := looks c (n + 1) (moved x s []))
        (sound.real (List.mem_append_left _ member)) sFront,looksMoved,movedTwice]
      rfl
    have client : ∀ n, pmClient (look (looks c n (moved x s []))) = c := by
      intro n
      rw [lookAgain sFront,looksClient,movedClient sFront]
    simp only [Option.getD_none,ne_eq,not_true_eq_false,if_false,tasks,Option.bind_some,looksPm,movedPm]
    cases task : s.taskQ.find? (childOf x.pm c) with
    | some a =>
      have known := List.mem_of_find?_eq_some task
      have real := sound.real (List.mem_append_left _ (List.mem_append_left _ known))
      refine .inr ⟨1 + n + m + 1,?_,a,List.mem_append_left _ known,List.find?_some task⟩
      simp only [Option.getD_some,real,not_false_eq_true,if_true,if_false,client,blocks]
      rfl
    | none =>
      simp only [Option.getD_none,not_true_eq_false,if_false,waiters,Option.bind_some]
      cases waiter : s.waitQ.find? (childOf x.pm c) with
      | some a =>
        have known := List.mem_of_find?_eq_some waiter
        have real := sound.real (List.mem_append_left _ (List.mem_append_right _ known))
        refine .inr ⟨1 + n + m + k + 1,?_,a,List.mem_append_right _ known,List.find?_some waiter⟩
        simp only [Option.getD_some,real,if_false,client,blocks]
        rfl
      | none =>
        refine .inl ⟨1 + n + m + k,by simp [s],?_⟩
        intro a queued
        rcases List.mem_append.mp queued with queued | queued
        · simpa using List.find?_eq_none.mp task a queued
        · simpa using List.find?_eq_none.mp waiter a queued

theorem orphanSelf {u : PmTask} (stranger : u.parent ≠ c) : orphanOf c u = u := if_neg stranger

theorem bereavedSteps {s : Tables} (sound : Sound s) (front : s.taskQ = c::rest) (there : s.record c = some t) :
    let s' := reaped (update s c { t with chunkQ := [] }) c [] s.zombieQ
    orphaned (orphaned s' c s.waitQ) c s.taskQ = bereaved s c t := by
  have member : c ∈ s.taskQ ++ s.waitQ := by simp [front]
  have real : c ≠ 0 := sound.real (List.mem_append_left _ member)
  have stranger := sound.others c t there
  have child : childOf (update s c { t with chunkQ := [] }) c = childOf s c := by
    funext a
    by_cases same : a = c
    · subst same
      simp [childOf,there]
    · simp only [childOf,updateAway _ same]
  have record : ∀ a, (bereaved s c t).record a = (orphaned (orphaned
      (reaped (update s c { t with chunkQ := [] }) c [] s.zombieQ) c s.waitQ) c s.taskQ).record a := by
    intro a
    simp only [orphaned,withRecord,reaped,bereaved,child]
    by_cases gone : a ∈ s.zombieQ ∧ childOf s c a = true
    · simp [gone]
    · simp only [if_neg gone]
      by_cases same : a = c
      · subst same
        simp only [updateAt,if_true,Option.map_some,orphanSelf (u := { t with chunkQ := [] }) stranger,ite_self]
      · rw [updateAway _ same,if_neg same]
        cases old : s.record a with
        | none => simp
        | some u =>
          have queued := sound.queued old
          by_cases task : a ∈ s.taskQ
          · by_cases waiter : a ∈ s.waitQ <;> simp [task,waiter,orphanTwice real]
          · by_cases waiter : a ∈ s.waitQ
            · simp [task,waiter]
            · have zombie : a ∈ s.zombieQ := by simpa [task,waiter] using queued
              have stranger : u.parent ≠ c := fun parent => gone ⟨zombie,childOfTrue.mpr ⟨u,old,parent⟩⟩
              simp [task,waiter,orphanSelf stranger]
  have queue : (reaped (update s c { t with chunkQ := [] }) c [] s.zombieQ).zombieQ = (bereaved s c t).zombieQ := by
    simp only [reaped,bereaved,child,List.nil_append]
  have same : bereaved s c t = ⟨s.taskQ,s.waitQ,(bereaved s c t).zombieQ,(bereaved s c t).record⟩ := rfl
  rw [same,← queue,funext record]
  rfl

theorem clearTurn (sound : Sound x.pm) (apart : Apart x.pm) (front : x.pm.taskQ = c::rest)
    (there : x.pm.record c = some t) :
    ∃ n, clearClient x = some (looks c n (moved x (bereaved x.pm c t) (leaveCalls x.pm c t))) := by
  have member : c ∈ x.pm.taskQ ++ x.pm.waitQ := by simp [front]
  have real : c ≠ 0 := sound.real (List.mem_append_left _ member)
  have away : ∀ z ∈ x.pm.zombieQ, z ≠ c := fun z zombie => sound.zombieApart member zombie
  let s := update x.pm c { t with chunkQ := [] }
  have sFront : s.taskQ = c::rest := front
  have sThere : s.record c = some { t with chunkQ := [] } := updateAt _ _ _
  have sSame : ∀ z ∈ x.pm.zombieQ, s.record z = x.pm.record z := fun z zombie => updateAway _ (away z zombie)
  have deleted : pmDelchunks c t.chunkQ (looks c 1 x) = some (looks c 1 (moved x s (chunkFrees t.chunkQ))) := by
    rw [deleteChunks (x := looks c 1 x) there (apart.chunks there)]
    rfl
  have pid : ∀ n calls, pmPidof (looks c n (moved x s calls)) c = some t.pid := by
    simp [pmPidof,real,sThere]
  let calls := chunkFrees t.chunkQ ++ [.stoptask t.pid,.deletetask t.pid,.vfsDeletetask t.pid]
  obtain ⟨n,reap⟩ := reapQueue (x := looks c 2 (moved x s calls)) [] s.zombieQ
    (frontClient sFront) rfl (List.Nodup.of_append_right sound.unique)
    (fun z zombie => by
      obtain ⟨u,old⟩ := sound.known (List.mem_append_right _ zombie)
      simp [sSame z zombie,old])
    (fun z zombie => sound.real (List.mem_append_right _ zombie))
    (fun z zombie => by
      obtain ⟨u,old⟩ := sound.known (List.mem_append_right _ zombie)
      have plain := apart.args old
      have other : u.args ≠ c := by
        intro same
        rw [same,there] at plain
        contradiction
      simpa [argsOf,sSame z zombie,old] using (updateAway _ other).trans plain)
  simp only [looksPm,movedPm,looksMoved,movedTwice,looksLooks] at reap
  let s' := reaped s c [] s.zombieQ
  have known : ∀ a ∈ x.pm.taskQ ++ x.pm.waitQ, (s'.record a).isSome := by
    intro a queued
    obtain ⟨u,old⟩ := sound.known (List.mem_append_left _ queued)
    have alive : a ∉ x.pm.zombieQ := fun zombie => sound.zombieApart queued zombie rfl
    by_cases same : a = c
    · subst same
      simp [s',reaped,s,update,withRecord,alive]
    · simp [s',reaped,s,update,withRecord,alive,same,old]
  let all := calls ++ reapCalls s c s.zombieQ
  obtain ⟨m,waiters⟩ := orphanQueue (x := looks c (2 + n) (moved x s' all)) s'.waitQ real
    (frontClient sFront) (fun a waiter => known a (List.mem_append_right _ waiter))
  obtain ⟨k,tasks⟩ := orphanQueue (x := looks c (2 + n + m) (moved x (orphaned s' c s'.waitQ) all))
    s'.taskQ real (frontClient sFront)
    (fun a task => by
      have old := known a (List.mem_append_left _ task)
      simp only [looksPm,movedPm,orphaned,withRecord]
      split <;> simpa using old)
  simp only [looksPm,movedPm,looksMoved,movedTwice,looksLooks,List.append_nil] at waiters tasks
  refine ⟨2 + n + m + k,?_⟩
  simp only [clearClient,lookLooks (frontClient front),looksClient,frontClient front,looksPm,there,bind,
    Option.bind_some,deleted,lookAgain sFront,movedClient sFront,pid,movedPm,sThere,callMoved,looksMoved,movedTwice,
    List.cons_append,List.nil_append,Nat.reduceAdd]
  have reapTurn : forall_ pmRemovechild s.zombieQ (looks c 2 (moved x s (chunkFrees t.chunkQ ++
      [.stoptask t.pid,.deletetask t.pid,.vfsDeletetask t.pid]))) = some (looks c (2 + n) (moved x s' all),0) := reap
  have made : all = leaveCalls x.pm c t := by
    simp only [all,calls,leaveCalls]
    exact congrArg _ (reapCallsSame sSame)
  have left : orphaned (orphaned s' c s'.waitQ) c s'.taskQ = bereaved x.pm c t := bereavedSteps sound front there
  rw [left,made] at tasks
  rw [made] at waiters reapTurn
  simp only [reapTurn,Option.bind_some,looksPm,movedPm,waiters]
  rw [show (orphaned s' c s'.waitQ).taskQ = s'.taskQ from rfl,tasks,Option.bind_some]

theorem removeTurn (real : c ≠ 0) (front : x.pm.taskQ = c::rest) (there : x.pm.record c = some t)
    (plain : x.pm.record t.args = none) :
    removeClient x = some (looks c 2 (moved x
      { x.pm with taskQ := rest, record := Function.update x.pm.record c none } [.kfree t.args,.kfree c])) := by
  simp only [removeClient,lookLooks (frontClient front),looksPm,looksClient,frontClient front,there,bind,
    Option.bind_some,looksKfree,kfreePlain plain,callMoved,lookAgain front,movedClient front]
  rw [taskRemvFront (x := looks c (1 + 1) (moved x x.pm [.kfree t.args])) real front,looksMoved,looksKfree,movedTwice]
  simp [kfree,call,moved]

theorem saveTurn (front : x.pm.taskQ = c::rest) (there : x.pm.record c = some t) :
    saveExitcode x = some (looks c 1 (moved x (update x.pm c { t with word := x.msg.w0 }) [])) := by
  simp only [saveExitcode,lookLooks (frontClient front),looksPm,looksClient,frontClient front,there,bind,
    Option.bind_some,storeUpdate,looksMoved,looksMsg]

theorem findparent (que : List Addr) (real : ∀ it ∈ que, it ≠ 0) (front : x.pm.taskQ = c::rest)
    (there : x.pm.record c = some t) :
    ∃ n, forall_ pmFindmyparent que x = some (looks c n x,if t.parent ∈ que then t.parent else 0) := by
  have search : ∃ n, forall_ pmFindmyparent que x =
      some (looks c n x,(que.find? (fun a => decide (a = t.parent))).getD 0) := by
    apply searchQueue real
    intro it member y same
    have client : pmClient y = c := by simp [pmClient,same,front]
    simp only [pmFindmyparent,lookLooks client,looksPm,same,there,bind,Option.bind_some,looksClient,client]
    by_cases parent : it = t.parent <;> simp [parent,eq_comm]
  obtain ⟨n,search⟩ := search
  refine ⟨n,?_⟩
  rw [search]
  refine congrArg (fun a => some (looks c n x,a)) ?_
  cases found : que.find? (fun a => decide (a = t.parent)) with
  | some a =>
    have same : a = t.parent := by simpa using List.find?_some found
    have member := List.mem_of_find?_eq_some found
    rw [same] at member
    rw [if_pos member,same,Option.getD_some]
  | none =>
    have absent : t.parent ∉ que := fun member => by simpa using List.find?_eq_none.mp found _ member
    rw [if_neg absent,Option.getD_none]

theorem bereavedClient {s : Tables} (sound : Sound s) (front : s.taskQ = c::rest) :
    (bereaved s c t).record c = some { t with chunkQ := [] } := by
  have alive : c ∉ s.zombieQ := fun zombie => sound.zombieApart (by simp [front]) zombie rfl
  simp [bereaved,alive]

theorem bereavedPlain {s : Tables} {p : Addr} (there : s.record c = some t) (plain : s.record p = none) :
    (bereaved s c t).record p = none := by
  have other : p ≠ c := by
    intro same
    rw [same,there] at plain
    contradiction
  simp [bereaved,other,plain]

theorem bereavedLive {s : Tables} {a : Addr} {w : PmTask} (sound : Sound s) (other : a ≠ c)
    (task : a ∈ s.taskQ ++ s.waitQ) (old : s.record a = some w) : (bereaved s c t).record a = some (orphanOf c w) := by
  have alive : a ∉ s.zombieQ := fun zombie => sound.zombieApart task zombie rfl
  simp [bereaved,alive,other,old]

theorem doExitTurn (sound : Sound x.pm) (apart : Apart x.pm) (front : x.pm.taskQ = c::rest)
    (there : x.pm.record c = some t) :
    (t.parent = 0 ∧ ∃ n, doExit x = some (looks c n (moved x
      { bereaved x.pm c t with taskQ := rest, record := Function.update (bereaved x.pm c t).record c none }
      (leaveCalls x.pm c t ++ [.kfree t.args,.kfree c])),none)) ∨
    (∃ w, t.parent ∈ x.pm.waitQ ∧ x.pm.record t.parent = some w ∧ (w.word = t.pid ∨ w.word = taskAny) ∧
      ∃ n, doExit x = some (looks c n (answer (moved x
        { bereaved x.pm c t with
          taskQ := rest ++ [t.parent]
          waitQ := x.pm.waitQ.erase t.parent
          record := Function.update (bereaved x.pm c t).record c none }
        (leaveCalls x.pm c t ++ [.kfree t.args,.kfree c])) t.pid x.msg.w0),some w.pid)) ∨
    (t.parent ≠ 0 ∧
      (t.parent ∈ x.pm.waitQ → ∀ w, x.pm.record t.parent = some w → w.word ≠ t.pid ∧ w.word ≠ taskAny) ∧
      ∃ n, doExit x = some (looks c n (moved x
        { update (bereaved x.pm c t) c { t with chunkQ := [], word := x.msg.w0 } with
          taskQ := rest
          zombieQ := (bereaved x.pm c t).zombieQ ++ [c] } (leaveCalls x.pm c t)),none)) := by
  have member : c ∈ x.pm.taskQ ++ x.pm.waitQ := by simp [front]
  have real : c ≠ 0 := sound.real (List.mem_append_left _ member)
  have sFront : (bereaved x.pm c t).taskQ = c::rest := front
  have sWait : (bereaved x.pm c t).waitQ = x.pm.waitQ := rfl
  have sThere : (bereaved x.pm c t).record c = some { t with chunkQ := [] } := bereavedClient sound front
  have sArgs : (bereaved x.pm c t).record t.args = none := bereavedPlain there (apart.args there)
  have sParent : ∀ w, t.parent ∈ x.pm.waitQ → x.pm.record t.parent = some w →
      (bereaved x.pm c t).record t.parent = some (orphanOf c w) := by
    intro w waiting old
    exact bereavedLive sound (sound.others c t there) (List.mem_append_right _ waiting) old
  obtain ⟨n,clear⟩ := clearTurn sound apart front there
  generalize bereaved x.pm c t = s at *
  generalize leaveCalls x.pm c t = calls at *
  by_cases orphan : t.parent = 0
  · refine .inl ⟨orphan,n + 1 + 2,?_⟩
    have remove := removeTurn (x := looks c (n + 1) (moved x s calls)) real sFront sThere sArgs
    simp only [looksPm,movedPm,looksMoved,movedTwice,looksLooks] at remove
    simp only [doExit,clear,bind,Option.bind_some,lookAgain sFront,looksPm,movedPm,looksClient,movedClient sFront,
      sThere,orphan,if_true,remove]
  · right
    obtain ⟨m,search⟩ := findparent (x := looks c (n + 1) (moved x s calls)) (t := { t with chunkQ := [] }) s.waitQ
      (fun a waiter => sound.real (List.mem_append_left _ (List.mem_append_right _ (sWait ▸ waiter)))) sFront sThere
    simp only [looksLooks,sWait] at search
    simp only [doExit,clear,bind,Option.bind_some,lookAgain sFront,looksPm,movedPm,looksClient,movedClient sFront,
      sThere,orphan,if_false,sWait,search]
    -- The end of the branch that leaves a zombie, with the uses of PM_CLIENT so far.
    have bury : ∀ k, (saveExitcode (looks c k (moved x s calls))).bind (fun y =>
        some (zombieEnd (taskRemv (look y) (pmClient (look y))) (pmClient (look y)),(none : Option Pid))) =
        some (looks c (k + 1 + 1) (moved x { update s c { t with chunkQ := [], word := x.msg.w0 } with
          taskQ := rest, zombieQ := s.zombieQ ++ [c] } calls),none) := by
      intro k
      have save := saveTurn (x := looks c k (moved x s calls)) sFront sThere
      simp only [looksPm,movedPm,looksMoved,movedTwice,looksLooks,looksMsg,movedMsg,List.append_nil] at save
      have later : (update s c { t with chunkQ := [], word := x.msg.w0 }).taskQ = c::rest := sFront
      simp only [save,Option.bind_some,lookAgain later,looksClient,movedClient later]
      rw [taskRemvFront (x := looks c (k + 1 + 1) (moved x (update s c _) calls)) real later]
      simp [zombieEnd,moved,looks,qEnd,real,update,withRecord]
    by_cases waiting : t.parent ∈ x.pm.waitQ
    · obtain ⟨w,old⟩ := sound.known (List.mem_append_left _ (List.mem_append_right _ waiting))
      have waits : ∀ k, parentWaits (looks c k (moved x s calls)) t.parent =
          some (decide (w.word = t.pid ∨ w.word = taskAny)) := by
        intro k
        simp [parentWaits,orphan,sParent w waiting old,movedClient sFront,pmPidof,real,sThere]
      simp only [if_pos waiting,waits,Option.bind_some]
      by_cases wanted : w.word = t.pid ∨ w.word = taskAny
      · refine .inl ⟨w,waiting,old,wanted,n + 1 + m + 1 + 1 + 1 + 2,?_⟩
        obtain ⟨u,saved⟩ : ∃ u : PmTask, { t with chunkQ := [], word := x.msg.w0 } = u := ⟨_,rfl⟩
        have uWord : u.word = x.msg.w0 := by rw [← saved]
        have uArgs : u.args = t.args := by rw [← saved]
        have uPid : u.pid = t.pid := by rw [← saved]
        let s' : Tables := { s with taskQ := c::(rest ++ [t.parent]), waitQ := x.pm.waitQ.erase t.parent }
        have woken : ∀ k, taskEnd (waitRemv (looks c k (moved x s calls)) t.parent) t.parent =
            looks c k (moved x s' calls) := by
          intro k
          simp [taskEnd,waitRemv,looks,moved,qRemv,qEnd,orphan,sFront,sWait,s']
        have woke : s'.taskQ = c::(rest ++ [t.parent]) := rfl
        have save := saveTurn (x := looks c (n + 1 + m + 1) (moved x s' calls)) woke sThere
        simp only [looksPm,movedPm,looksMoved,movedTwice,looksLooks,looksMsg,movedMsg,List.append_nil,saved] at save
        have later : (update s' c u).taskQ = c::(rest ++ [t.parent]) := rfl
        have other := sound.others c t there
        have parent : (update s' c u).record t.parent = some (orphanOf c w) :=
          (updateAway _ other).trans (sParent w waiting old)
        have plain : (update s' c u).record u.args = none := by
          rw [uArgs]
          have different : t.args ≠ c := by
            intro same
            rw [same,sThere] at sArgs
            contradiction
          exact (updateAway _ different).trans sArgs
        have remove := removeTurn (x := answer (looks c (n + 1 + m + 1 + 1 + 1) (moved x (update s' c u) calls))
          t.pid x.msg.w0) real later (updateAt _ _ _) plain
        simp only [answerPm,looksPm,movedPm,answerMoved,looksMoved,movedTwice] at remove
        have pid : ∀ k, pmPidof (looks c k (moved x (update s' c u) calls)) c = some t.pid := by
          simp [pmPidof,real,uPid]
        have receiver : ∀ k, pmPidof (answer (looks c k (moved x (update s' c u) calls)) t.pid x.msg.w0) t.parent =
            some w.pid := by
          simp [pmPidof,orphan,parent]
        have freed : Function.update (update s' c u).record c none = Function.update s.record c none := by
          simp [update,withRecord,s']
        simp only [wanted,decide_true,if_true,woken,save,Option.bind_some,lookAgain later,looksClient,
          movedClient later,pid,looksPm,movedPm,updateAt,uWord,receiver,remove]
        simp only [looksAnswer,looksLooks,uArgs,freed]
        rfl
      · right
        refine ⟨orphan,?_,n + 1 + m + 1 + 1 + 1,?_⟩
        · intro _ u same
          rw [old] at same
          cases same
          exact not_or.mp wanted
        · simp only [wanted,decide_false,Bool.false_eq_true,if_false]
          exact bury _
    · right
      refine ⟨orphan,fun member => absurd member waiting,n + 1 + m + 1 + 1 + 1,?_⟩
      simp only [if_neg waiting,parentWaits,if_true,Option.bind_some,Bool.false_eq_true,if_false]
      exact bury _
end

section
variable {s : Tables} {c : Addr} {t : PmTask} {rest : List Addr} {r : Request}

def Ends (s : Tables) (c : Addr) (t : PmTask) (rest : List Addr) (r : Request) (result : Option Tx) : Prop :=
  ∃ y n, result = some y ∧ y.clients = List.replicate n c ∧ Does s c t rest r y.pm y.calls

theorem endsSilent {n : Nat} {pm : Tables} {calls : List Call} (did : Does s c t rest r pm calls) :
    Ends s c t rest r (some (looks c n (moved ⟨s,r.msg,[],[]⟩ pm calls))) :=
  ⟨_,n,rfl,List.nil_append _,did⟩

theorem endsReply {n : Nat} {pm : Tables} {calls all : List Call} {msg : Msg} {client : Pid}
    (did : Does s c t rest r pm all) (made : calls ++ [.send client msg] = all) :
    Ends s c t rest r (some (reply (looks c n ⟨pm,msg,calls,[]⟩) client)) := by
  subst made
  exact ⟨_,n,rfl,List.nil_append _,did⟩

theorem dispatchEnds (sound : Sound s) (apart : Apart s) (front : s.taskQ = c::rest)
    (there : s.record c = some t) (given : Offers s r) :
    Ends s c t rest r (dispatch r ⟨s,r.msg,[],[]⟩) := by
  have real : c ≠ 0 := sound.real (by simp [front])
  cases cmd : r.msg.cmd with
  | spawn =>
    simp only [Offers,cmd] at given
    by_cases none : r.task = 0 ∨ r.record = 0
    · obtain ⟨n,turn⟩ := doSpawnUnmade (x := ⟨s,r.msg,[],[]⟩) front none
      simp only [dispatch,cmd,turn,bind,Option.bind_some]
      exact endsReply (Does.unmade cmd none) rfl
    · obtain ⟨task,record⟩ := not_or.mp none
      by_cases failed : r.vfs = false ∨ r.args = 0
      · obtain ⟨n,turn⟩ := doSpawnStillborn (x := ⟨s,r.msg,[],[]⟩) real front there task record given failed
        simp only [dispatch,cmd,turn,bind,Option.bind_some]
        exact endsReply (Does.stillborn cmd task record failed) rfl
      · obtain ⟨vfs,args⟩ := not_or.mp failed
        have made := Bool.eq_true_of_not_eq_false vfs
        obtain ⟨n,turn⟩ := doSpawnTurn (x := ⟨s,r.msg,[],[]⟩) real front there sound.null task made record given args
        simp only [dispatch,cmd,turn,bind,Option.bind_some]
        exact endsReply (Does.spawned cmd task record made args) (by simp [moved])
  | exec =>
    by_cases missing : r.prg = 0
    · simp only [dispatch,cmd,doExecUnknown (x := ⟨s,r.msg,[],[]⟩) missing,bind,Option.bind_some,if_true]
      change Ends s c t rest r (some (reply (looks c 0 ⟨s,r.msg,[.exGetprg r.msg.w0 r.prg r.prgStack],[]⟩) r.client))
      exact endsReply (Does.unknown cmd missing) rfl
    · by_cases failed : r.args = 0
      · obtain ⟨n,turn⟩ := doExecStuck (x := ⟨s,r.msg,[],[]⟩) front missing failed
        simp only [dispatch,cmd,turn,bind,Option.bind_some,Bool.false_eq_true,if_false]
        exact endsSilent (Does.stuck cmd missing failed)
      · obtain ⟨n,turn⟩ := doExecTurn (x := ⟨s,r.msg,[],[]⟩) real front there apart failed missing
        simp only [dispatch,cmd,turn,bind,Option.bind_some,Bool.false_eq_true,if_false]
        exact endsSilent (Does.replaced cmd missing failed)
  | wait =>
    rcases doWaitTurn (x := ⟨s,r.msg,[],[]⟩) sound apart front there with
      ⟨n,z,u,turn,found,zombie⟩ | ⟨unanswered,⟨n,turn,barren⟩ | ⟨n,turn,child⟩⟩
    · simp only [dispatch,cmd,turn,bind,Option.bind_some,if_true]
      exact endsReply (Does.zombieReported cmd found zombie) rfl
    · simp only [dispatch,cmd,turn,bind,Option.bind_some,if_true]
      exact endsReply (Does.childless cmd unanswered barren) rfl
    · simp only [dispatch,cmd,turn,bind,Option.bind_some,Bool.false_eq_true,if_false]
      exact endsSilent (Does.blocked cmd unanswered child)
  | exit =>
    rcases doExitTurn (x := ⟨s,r.msg,[],[]⟩) sound apart front there with
      ⟨orphan,n,turn⟩ | ⟨w,waiting,parent,wanted,n,turn⟩ | ⟨child,unwanted,n,turn⟩
    · simp only [dispatch,cmd,turn,bind,Option.bind_some]
      exact endsSilent (Does.orphanLeft cmd orphan)
    · simp only [dispatch,cmd,turn,bind,Option.bind_some]
      exact endsReply (Does.parentWoken cmd waiting parent wanted) (by simp [moved])
    · simp only [dispatch,cmd,turn,bind,Option.bind_some]
      exact endsSilent (Does.zombieMade cmd child unwanted)
  | malloc =>
    simp only [Offers,cmd] at given
    by_cases failed : r.chunk = 0 ∨ r.block = 0
    · have turn := doPmallocDenied (x := ⟨s,r.msg,[],[]⟩) given failed
      simp only [dispatch,cmd,turn,bind,Option.bind_some]
      exact endsReply (n := 0) (Does.denied cmd failed) rfl
    · obtain ⟨chunk,block⟩ := not_or.mp failed
      obtain ⟨n,turn⟩ := doPmallocTurn (x := ⟨s,r.msg,[],[]⟩) front there chunk block
      simp only [dispatch,cmd,turn,bind,Option.bind_some]
      exact endsReply (Does.allocated cmd chunk block) rfl
  | free =>
    by_cases absent : r.msg.w0 = 0 ∨ t.chunkQ.find? (·.ptr = r.msg.w0) = none
    · obtain ⟨n,turn⟩ := doPmfreeForeign (x := ⟨s,r.msg,[],[]⟩) real front there sound.null absent
      simp only [dispatch,cmd,turn,bind,Option.bind_some]
      exact endsReply (Does.foreign cmd absent) rfl
    · obtain ⟨asked,present⟩ := not_or.mp absent
      obtain ⟨k,found⟩ := Option.ne_none_iff_exists'.mp present
      obtain ⟨n,turn⟩ := doPmfreeTurn (x := ⟨s,r.msg,[],[]⟩) real front there apart asked found
      simp only [dispatch,cmd,turn,bind,Option.bind_some]
      exact endsReply (Does.released cmd asked found) rfl
  | other =>
    simp only [dispatch,cmd]
    exact endsSilent (n := 0) (Does.ignored cmd)
end
end Avros.Pm
