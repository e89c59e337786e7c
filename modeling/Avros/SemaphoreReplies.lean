import Avros.Semaphore
import Mathlib.Data.List.Nodup

/-! The clients of the semaphore server. createsema, deletesema, waitsema and getsema wait for
a reply, signalsema does not; the server decides by itself whether it sends one. -/
namespace Avros.Semaphore
open Run

structure Served where
  server : Server
  blocked : List Pid

def callers (s : Served) (i : Input) : List Pid := if i.msg.cmd = .signal then s.blocked else i.client::s.blocked

def released (line : List Pid) : Option (Pid × Msg) → List Pid
  | none => line
  | some (client,_) => line.erase client

def replyStep : Step Served Input Event := fun s i =>
  let (server,reply) := semasrv s.server i.client i.msg i.kmalloc
  some (⟨server,released (callers s i) reply⟩,noted i reply)

-- A client that waits for a reply makes no calls.
structure Called (s : Served) (i : Input) : Prop extends Proper s.server i where
  runs : i.client ∉ s.blocked

structure Safe (s : Server) (i : Input) : Prop where
  delete : i.msg.cmd = .delete → (s.sema i.msg.sema).clientQ = []
  wait : i.msg.cmd = .wait → (s.sema i.msg.sema).value = 0 → i.kmalloc ≠ 0

def lines (s : Server) : List Pid := s.semaQ.flatMap (fun x => (view s x).2)

def asks (client : Pid) (history : List Event) : Nat := history.countP (fun e =>
  match e with
  | .received c msg => c = client ∧ msg.cmd ≠ .signal
  | .sent _ _ => false)

def answers (client : Pid) (history : List Event) : Nat := history.countP (fun e =>
  match e with
  | .received _ _ => false
  | .sent c _ => c = client)

structure Discipline (s : Served) (history : List Event) : Prop where
  line : ∀ c, c ∈ s.blocked ↔ c ∈ lines s.server
  once : ∀ c, asks c history = answers c history + if c ∈ s.blocked then 1 else 0

structure Owed (s : Served) (history : List Event) : Prop where
  sound : Sound s.server
  line : s.blocked.Perm (lines s.server)
  distinct : s.blocked.Nodup
  once : ∀ c, asks c history = answers c history + s.blocked.count c

section
variable {s s' : Served} {t t' : Server} {i : Input} {history out : List Event} {reply : Option (Pid × Msg)} {x : Nat}

theorem Owed.discipline (owed : Owed s history) : Discipline s history := by
  refine ⟨fun c => owed.line.mem_iff,fun c => ?_⟩
  rw [owed.once c,owed.distinct.count]

theorem linesEdit {value : Nat} {line : List Pid} (sound : Sound t) (member : x ∈ t.semaQ)
    (edit : Edit t t' x value line) :
    ∃ before after, lines t = before ++ ((view t x).2 ++ after) ∧ lines t' = before ++ (line ++ after) := by
  obtain ⟨left,right,queue⟩ := List.append_of_mem member
  have once := sound.once
  rw [queue] at once
  have fresh := (List.nodup_cons.mp (List.nodup_middle.mp once)).1
  have same : ∀ ys : List Nat, (∀ y ∈ ys, y ∈ t.semaQ ∧ y ≠ x) →
      ys.flatMap (fun y => (view t' y).2) = ys.flatMap (fun y => (view t y).2) := by
    intro ys others
    refine List.flatMap_congr (fun y member => ?_)
    rw [edit.others y (others y member).1 (others y member).2]
  have before := same left (fun y old => ⟨by rw [queue]; exact List.mem_append_left _ old,
    fun h => fresh (List.mem_append_left _ (h ▸ old))⟩)
  have after := same right (fun y old => ⟨by rw [queue]; exact List.mem_append_right _ (List.mem_cons_of_mem _ old),
    fun h => fresh (List.mem_append_right _ (h ▸ old))⟩)
  refine ⟨left.flatMap (fun y => (view t y).2),right.flatMap (fun y => (view t y).2),?_,?_⟩
  · rw [lines,queue,List.flatMap_append,List.flatMap_cons]
  · rw [lines,edit.semas,queue,List.flatMap_append,List.flatMap_cons,before,after,edit.own]

theorem linesCreate (semas : t'.semaQ = x::t.semaQ) (own : (view t' x).2 = [])
    (others : ∀ y ∈ t.semaQ, view t' y = view t y) : lines t' = lines t := by
  rw [lines,semas,List.flatMap_cons,own,List.nil_append]
  exact List.flatMap_congr (fun y member => by rw [others y member])

theorem linesDelete (member : x ∈ t.semaQ) (semas : t'.semaQ = t.semaQ.erase x) (free : (view t x).2 = [])
    (others : ∀ y, view t' y = view t y) : (lines t').Perm (lines t) := by
  have split := (List.perm_cons_erase member).flatMap_right (fun y => (view t y).2)
  rw [List.flatMap_cons,free,List.nil_append] at split
  have same : lines t' = (t.semaQ.erase x).flatMap (fun y => (view t y).2) := by
    rw [lines,semas]
    exact List.flatMap_congr (fun y _ => by rw [others y])
  rw [same]
  exact split.symm

theorem asksNoted (c : Pid) (history : List Event) (i : Input) (reply : Option (Pid × Msg)) :
    asks c (history ++ noted i reply) = asks c history + if i.client = c ∧ i.msg.cmd ≠ .signal then 1 else 0 := by
  rw [asks,List.countP_append]
  cases reply <;> simp [noted,asks,List.countP_cons]

theorem answersNone (c : Pid) (history : List Event) (i : Input) :
    answers c (history ++ noted i none) = answers c history := by
  rw [answers,List.countP_append]
  simp [noted,answers]

theorem answersSome (c : Pid) (history : List Event) (i : Input) (client : Pid) (msg : Msg) :
    answers c (history ++ noted i (some (client,msg))) = answers c history + if client = c then 1 else 0 := by
  rw [answers,List.countP_append]
  simp [noted,answers,List.countP_cons]

theorem Owed.answered {msg : Msg} (owed : Owed s history) (sound : Sound t') (cmd : i.msg.cmd ≠ .signal)
    (same : (lines t').Perm (lines s.server)) :
    Owed ⟨t',released (callers s i) (some (i.client,msg))⟩ (history ++ noted i (some (i.client,msg))) := by
  have back : released (callers s i) (some (i.client,msg)) = s.blocked := by simp [released,callers,cmd]
  rw [back]
  refine ⟨sound,owed.line.trans same.symm,owed.distinct,fun c => ?_⟩
  have before := owed.once c
  rw [asksNoted,answersSome,before]
  change _ = _ + s.blocked.count c
  simp only [cmd,ne_eq,not_false_eq_true,and_true]
  omega

theorem Owed.turn (owed : Owed s history) (called : Called s i) (safe : Safe s.server i)
    (turned : Turn s.server i t' reply) (sound : Sound t') :
    Owed ⟨t',released (callers s i) reply⟩ (history ++ noted i reply) := by
  have known := called.known
  cases turned with
  | create cmd own fresh semas new others =>
    have same := linesCreate semas (by rw [new]) others
    exact owed.answered sound (by rw [cmd]; decide) (by rw [same])
  | full cmd => exact owed.answered sound (by rw [cmd]; decide) (.refl _)
  | refuse cmd busy => exact absurd (by rw [view,safe.delete cmd]; rfl) busy
  | delete cmd free semas others =>
    exact owed.answered sound (by rw [cmd]; decide) (linesDelete (known (by rw [cmd]; decide)) semas free others)
  | enter cmd free edit =>
    obtain ⟨before,after,old,new⟩ := linesEdit owed.sound (known (by rw [cmd]; decide)) edit
    exact owed.answered sound (by rw [cmd]; decide) (by rw [old,new])
  | line cmd busy room edit =>
    obtain ⟨before,after,old,new⟩ := linesEdit owed.sound (known (by rw [cmd]; decide)) edit
    have waits : released (callers s i) none = i.client::s.blocked := by simp [released,callers,cmd]
    rw [waits]
    refine ⟨sound,?_,List.nodup_cons.mpr ⟨called.runs,owed.distinct⟩,fun c => ?_⟩
    · have line := owed.line
      rw [old] at line
      have joined : (i.client::(before ++ ((view s.server i.msg.sema).2 ++ after))).Perm (lines t') := by
        rw [new]
        have moved : ((before ++ (view s.server i.msg.sema).2) ++ i.client::after).Perm
            (i.client::((before ++ (view s.server i.msg.sema).2) ++ after)) := List.perm_middle
        simpa using moved.symm
      exact (line.cons i.client).trans joined
    · rw [asksNoted,answersNone,owed.once c,cmd]
      simp [List.count_cons]
      omega
  | lost cmd busy full => exact absurd full (safe.wait cmd busy)
  | @hand _ c rest cmd first edit =>
    obtain ⟨before,after,old,new⟩ := linesEdit owed.sound (known (by rw [cmd]; decide)) edit
    have freed : released (callers s i) (some (c,i.msg)) = s.blocked.erase c := by simp [released,callers,cmd]
    rw [freed]
    have line : s.blocked.Perm (c::lines t') := by
      refine owed.line.trans ?_
      rw [old,new,first]
      exact List.perm_middle
    have member : c ∈ s.blocked := line.mem_iff.mpr List.mem_cons_self
    refine ⟨sound,?_,owed.distinct.erase c,fun d => ?_⟩
    · have gone := line.erase c
      rwa [List.erase_cons_head] at gone
    · have counted := (List.perm_cons_erase member).count_eq d
      rw [asksNoted,answersSome,owed.once d,counted,cmd]
      simp [List.count_cons]
      omega
  | raise cmd nobody edit =>
    obtain ⟨before,after,old,new⟩ := linesEdit owed.sound (known (by rw [cmd]; decide)) edit
    have stays : released (callers s i) none = s.blocked := by simp [released,callers,cmd]
    rw [stays]
    refine ⟨sound,?_,owed.distinct,fun c => ?_⟩
    · rw [new,← nobody,← old]
      exact owed.line
    · rw [asksNoted,answersNone,owed.once c,cmd]
      simp
  | get cmd => exact owed.answered sound (by rw [cmd]; decide) (.refl _)

def ServedStarted (s : Served) : Prop := Started s.server ∧ s.blocked = []

theorem owedRun (run : Reaches replyStep (fun s i => Called s i ∧ Safe s.server i) ServedStarted s history) :
    Owed s history := by
  refine run.invariant ?_ ?_
  · rintro s ⟨empty,nobody⟩
    have none : s.server.semaQ = [] := empty
    refine ⟨⟨by simp [none],by simp [none],by simp [none]⟩,?_,by simp [nobody],fun c => ?_⟩
    · rw [nobody,lines,none]
      exact .refl _
    · rw [nobody]
      rfl
  · rintro s history i s' out owed ⟨called,safe⟩ taken
    obtain ⟨turned,sound⟩ := turn owed.sound called.toProper
    cases taken
    exact owed.turn called safe turned sound

theorem Owed.dropped (owed : Owed s history) (called : Called s i) (drops : ¬ Safe s.server i)
    (turned : Turn s.server i t' reply) : ¬ Discipline ⟨t',released (callers s i) reply⟩ (history ++ noted i reply) := by
  have stuck : i.msg.cmd ≠ .signal → ¬ Discipline ⟨s.server,released (callers s i) none⟩ (history ++ noted i none) := by
    intro cmd held
    have waits : i.client ∈ released (callers s i) none := by simp [released,callers,cmd]
    exact called.runs (owed.line.mem_iff.mpr ((held.line i.client).mp waits))
  have harmless : i.msg.cmd ≠ .delete → i.msg.cmd ≠ .wait → Safe s.server i := fun other other' =>
    ⟨fun cmd => absurd cmd other,fun cmd => absurd cmd other'⟩
  cases turned with
  | create cmd => exact absurd (harmless (by rw [cmd]; decide) (by rw [cmd]; decide)) drops
  | full cmd => exact absurd (harmless (by rw [cmd]; decide) (by rw [cmd]; decide)) drops
  | refuse cmd busy => exact stuck (by rw [cmd]; decide)
  | delete cmd free =>
    have line : (s.server.sema i.msg.sema).clientQ = [] := List.map_eq_nil_iff.mp free
    exact absurd ⟨fun _ => line,fun other => absurd (cmd.symm.trans other) (by decide)⟩ drops
  | enter cmd free =>
    exact absurd ⟨fun other => absurd (cmd.symm.trans other) (by decide),fun _ none => absurd none free⟩ drops
  | line cmd busy room =>
    exact absurd ⟨fun other => absurd (cmd.symm.trans other) (by decide),fun _ _ => room⟩ drops
  | lost cmd busy full => exact stuck (by rw [cmd]; decide)
  | hand cmd => exact absurd (harmless (by rw [cmd]; decide) (by rw [cmd]; decide)) drops
  | raise cmd => exact absurd (harmless (by rw [cmd]; decide) (by rw [cmd]; decide)) drops
  | get cmd => exact absurd (harmless (by rw [cmd]; decide) (by rw [cmd]; decide)) drops

theorem Owed.addressed {c : Pid} {msg : Msg} (owed : Owed s history) (called : Called s i)
    (turned : Turn s.server i t' (some (c,msg))) : c ∈ callers s i := by
  have caller : i.msg.cmd ≠ .signal → i.client ∈ callers s i := fun cmd => by simp [callers,cmd]
  cases turned with
  | create cmd => exact caller (by rw [cmd]; decide)
  | full cmd => exact caller (by rw [cmd]; decide)
  | delete cmd => exact caller (by rw [cmd]; decide)
  | enter cmd => exact caller (by rw [cmd]; decide)
  | hand cmd first edit =>
    have known := called.known (by rw [cmd]; decide)
    have waits : c ∈ lines s.server := List.mem_flatMap.mpr ⟨_,known,by rw [first]; exact List.mem_cons_self⟩
    simpa [callers,cmd] using owed.line.mem_iff.mpr waits
  | get cmd => exact caller (by rw [cmd]; decide)

theorem promptReply (turned : Turn s.server i t' reply) (safe : Safe s.server i)
    (cmd : i.msg.cmd = .create ∨ i.msg.cmd = .delete ∨ i.msg.cmd = .get) : ∃ msg, reply = some (i.client,msg) := by
  cases turned with
  | create => exact ⟨_,rfl⟩
  | full => exact ⟨_,rfl⟩
  | refuse own busy => exact absurd (by rw [view,safe.delete own]; rfl) busy
  | delete => exact ⟨_,rfl⟩
  | enter => exact ⟨_,rfl⟩
  | line own => rw [own] at cmd; simp at cmd
  | lost own => rw [own] at cmd; simp at cmd
  | hand own => rw [own] at cmd; simp at cmd
  | raise own => rw [own] at cmd; simp at cmd
  | get => exact ⟨_,rfl⟩

/-- As long as no semaphore is deleted that somebody waits for, and there is memory for those
that have to wait, every call is answered once: create, delete and get at once, wait when it
is granted. The first call that is not so leaves its client blocked for good. -/
theorem repliesUnlessDropped
    (run : Reaches replyStep (fun s i => Called s i ∧ Safe s.server i) ServedStarted s history) :
    Discipline s history ∧ ∀ i, Called s i → ∃ s' reply, replyStep s i = some (s',noted i reply) ∧
      (∀ c msg, reply = some (c,msg) → c ∈ callers s i) ∧
      (Discipline s' (history ++ noted i reply) ↔ Safe s.server i) ∧
      (Safe s.server i → i.msg.cmd = .create ∨ i.msg.cmd = .delete ∨ i.msg.cmd = .get →
        ∃ msg, reply = some (i.client,msg)) := by
  have owed := owedRun run
  refine ⟨owed.discipline,fun i called => ?_⟩
  obtain ⟨turned,sound⟩ := turn owed.sound called.toProper
  refine ⟨⟨(semasrv s.server i.client i.msg i.kmalloc).1,released (callers s i) (semasrv s.server i.client i.msg i.kmalloc).2⟩,
    (semasrv s.server i.client i.msg i.kmalloc).2,rfl,fun c msg same => ?_,⟨fun held => ?_,fun safe => ?_⟩,fun safe cmd => promptReply turned safe cmd⟩
  · rw [same] at turned
    exact owed.addressed called turned
  · by_contra drops
    exact owed.dropped called drops turned held
  · exact (owed.turn called safe turned sound).discipline

end

/-! A semaphore without entries, a client that waits for one, and another that deletes it. -/

def permitsCall (s : Served) (i : Input) : Bool := permits s.server i && !s.blocked.contains i.client

theorem permitsCallSound (s : Served) (i : Input) (ok : permitsCall s i = true) : Called s i := by
  simp only [permitsCall,Bool.and_eq_true,Bool.not_eq_true',List.contains_eq_mem,decide_eq_false_iff_not] at ok
  exact ⟨permitsSound ok.1,ok.2⟩

def permitsSafe (s : Served) (i : Input) : Bool :=
  permitsCall s i && (i.msg.cmd ≠ .delete || (s.server.sema i.msg.sema).clientQ = []) &&
  (i.msg.cmd ≠ .wait || i.kmalloc ≠ 0)

theorem permitsSafeSound (s : Served) (i : Input) (ok : permitsSafe s i = true) : Called s i ∧ Safe s.server i := by
  simp only [permitsSafe,Bool.and_eq_true,Bool.or_eq_true,decide_eq_true_eq] at ok
  obtain ⟨⟨called,delete⟩,wait⟩ := ok
  exact ⟨permitsCallSound s i called,fun cmd => delete.resolve_left (not_not.mpr cmd),
    fun cmd _ => wait.resolve_left (not_not.mpr cmd)⟩

def unserved : Served := ⟨noSemas,[]⟩

theorem unservedStarts : ServedStarted unserved := ⟨rfl,rfl⟩

structure Left where
  semaQ : List Nat
  line : List Pid
  blocked : List Pid
  history : List Event
  deriving DecidableEq

def left (x : Served × List Event) : Left := ⟨x.1.server.semaQ,lines x.1.server,x.1.blocked,x.2⟩

def waitedCalls : List Input := [⟨4,⟨0,.create,0⟩,100⟩,⟨5,⟨100,.wait,0⟩,200⟩]

def waitedHistory : List Event :=
  [.received 4 ⟨0,.create,0⟩,.sent 4 ⟨100,.create,0⟩,.received 5 ⟨100,.wait,0⟩]

theorem waitedLeft : (follow replyStep permitsSafe unserved waitedCalls).map left =
    some ⟨[100],[5],[5],waitedHistory⟩ := by
  decide +kernel

theorem deletedLeft : (follow replyStep permitsCall unserved (waitedCalls ++ [⟨9,⟨100,.delete,0⟩,0⟩])).map left =
    some ⟨[100],[5],[9,5],waitedHistory ++ [.received 9 ⟨100,.delete,0⟩]⟩ := by
  decide +kernel

theorem deletesemaHangs : ∃ s history, Reaches replyStep Called ServedStarted s history ∧
    9 ∈ s.blocked ∧ 9 ∉ lines s.server ∧ asks 9 history = 1 ∧ answers 9 history = 0 ∧ ¬ Discipline s history := by
  obtain ⟨⟨s,out⟩,followed,same⟩ := Option.map_eq_some_iff.mp deletedLeft
  obtain ⟨-,line,blocked,rfl⟩ := Left.mk.inj same
  have run := Reaches.follows permitsCallSound _ (.start unservedStarts) followed
  have waits : 9 ∈ s.blocked := by
    rw [show s.blocked = [9,5] from blocked]
    decide
  have outside : 9 ∉ lines s.server := by
    rw [show lines s.server = [5] from line]
    decide
  exact ⟨s,_,run,waits,outside,by decide,by decide,fun held => outside ((held.line 9).mp waits)⟩

theorem repliesUnlessDroppedToFive : ∃ s : Served, s.blocked = [5] ∧ Discipline s waitedHistory := by
  obtain ⟨⟨s,out⟩,followed,same⟩ := Option.map_eq_some_iff.mp waitedLeft
  obtain ⟨-,-,blocked,history⟩ := Left.mk.inj same
  have run := Reaches.follows permitsSafeSound waitedCalls (.start unservedStarts) followed
  rw [List.nil_append,show out = waitedHistory from history] at run
  exact ⟨s,blocked,(repliesUnlessDropped run).1⟩

end Avros.Semaphore
