import Avros.VfsLifetimes
import Avros.VfsWaiting

/-! VFS, its drivers and the requests that wait for an answer. Each client waits at one
place: its request is on its way, or a driver has it in a container. -/
namespace Avros.Vfs

structure Session where
  sys : System Devices
  unanswered : List (Pid × Cmd)

structure Told where
  client : Pid
  msg : Msg
  owing : Nat

def owing (unanswered : List (Pid × Cmd)) (p : Pid) : Nat := unanswered.countP (·.1 = p)

def settle (unanswered : List (Pid × Cmd)) : List (Event Devices) → List (Pid × Cmd) × List Told
  | [] => (unanswered,[])
  | .asked _ _ _::rest => settle unanswered rest
  | .sent p m::rest =>
    let later := settle (unanswered.eraseP (·.1 = p)) rest
    (later.1,⟨p,m,owing unanswered p⟩::later.2)

def Interrupt (cmd : Cmd) : Prop := cmd = .rdInterrupt ∨ cmd = .wrInterrupt

instance (cmd : Cmd) : Decidable (Interrupt cmd) := inferInstanceAs (Decidable (_ ∨ _))

-- Nobody waits for the answer to an interrupt.
def asking (unanswered : List (Pid × Cmd)) (r : Request) : List (Pid × Cmd) :=
  if Interrupt r.msg.cmd then unanswered else unanswered ++ [(r.client,r.msg.cmd)]

def session : Run.Step Session Input Told := fun s i => do
  let (sys,log) ← served s.sys i
  let settled := settle (asking s.unanswered i.request) log
  some (⟨sys,settled.1⟩,settled.2)

theorem owingErase (u : List (Pid × Cmd)) (p q : Pid) :
    owing (u.eraseP (·.1 = p)) q = owing u q - if p = q then 1 else 0 := by
  induction u with
  | nil => simp [owing]
  | cons a rest ih =>
    unfold owing at ih ⊢
    by_cases here : a.1 = p
    · by_cases same : p = q
      · subst same
        simp [here]
      · simp [here,same]
    · by_cases same : p = q
      · subst same
        simpa [here,List.countP_cons] using ih
      · simp only [same,if_false,Nat.sub_zero] at ih ⊢
        simp [here,List.countP_cons,ih]

/- A log in which nobody gets more than they wait for: each message finds one open
request, and what is left is what was open and not answered. -/
theorem settleExact {u : List (Pid × Cmd)} {log : List (Event Devices)}
    (fits : ∀ p, sentCount p log ≤ owing u p) (single : ∀ p, owing u p ≤ 1) :
    (∀ t ∈ (settle u log).2, t.owing = 1) ∧ (∀ p, owing (settle u log).1 p = owing u p - sentCount p log) ∧
      ∀ a ∈ (settle u log).1, a ∈ u := by
  induction log generalizing u with
  | nil => exact ⟨by simp [settle],fun p => rfl,fun a member => member⟩
  | cons e rest ih =>
    cases e with
    | asked drv pid msg =>
      have same : ∀ p, sentCount p (.asked drv pid msg::rest) = sentCount p rest := by
        intro p
        rw [sentCountCons]
        exact Nat.zero_add _
      simp only [same] at fits ⊢
      exact ih fits single
    | sent q m =>
      have more : ∀ p, sentCount p (.sent q m::rest) = (if q = p then 1 else 0) + sentCount p rest := fun p => sentCountCons p _ _
      have open_ : owing u q = 1 := by
        have fit := fits q
        have one := single q
        rw [more,if_pos rfl] at fit
        omega
      obtain ⟨told,left,members⟩ := ih (u := u.eraseP (·.1 = q))
        (by
          intro p
          have fit := fits p
          rw [more] at fit
          rw [owingErase]
          omega)
        (by
          intro p
          have one := single p
          rw [owingErase]
          omega)
      refine ⟨?_,?_,?_⟩
      · intro t member
        rcases List.mem_cons.mp member with rfl | later
        · exact open_
        · exact told t later
      · intro p
        have after := left p
        rw [owingErase] at after
        simp only [settle]
        rw [more]
        omega
      · intro a member
        exact List.mem_of_mem_eraseP (members a member)

/-! The waiting clients of all devices. -/

def storedAt (p : Pid) (drv : Devices) (pid : Pid) : Nat :=
  if pid = 0 then 0 else (drv.task pid).elim 0 (deviceWaiting p)

def stored (p : Pid) (s : Tables) (drv : Devices) : Nat := (s.devtab.map (storedAt p drv)).sum

def AllRw (drv : Devices) : Prop := ∀ pid dv, drv.task pid = some dv → RwOnly dv

theorem sumUnique {α : Type} {l : List α} {i : Nat} {a : α} (w w' : α → Nat) (there : l[i]? = some a)
    (only : ∀ j, l[j]? = some a → j = i) (others : ∀ b, b ≠ a → w' b = w b) :
    (l.map w').sum + w a = (l.map w).sum + w' a := by
  have same : l.map w' = (l.map w).set i (w' a) := by
    refine List.ext_getElem? ?_
    intro j
    rw [List.getElem?_map]
    by_cases here : j = i
    · subst here
      have inside := (List.getElem?_eq_some_iff.mp there).1
      rw [there,List.getElem?_set_self (by simpa using inside)]
      rfl
    · rw [List.getElem?_set_ne (fun h => here h.symm),List.getElem?_map]
      cases found : l[j]? with
      | none => rfl
      | some b =>
        have apart : b ≠ a := by
          rintro rfl
          exact here (only j found)
        simp [others b apart]
  have entry : (l.map w)[i]? = some (w a) := by rw [List.getElem?_map,there]; rfl
  have moved := sumSet id entry (w' a)
  simp only [List.map_id,id] at moved
  rw [same]
  exact moved

theorem deviceSlot {s : Tables} {d : Int} {pid : Pid} (there : device s d = some pid) :
    0 ≤ d ∧ s.devtab[d.toNat]? = some pid ∧ pid ≠ 0 := by
  unfold device at there
  split at there <;> try contradiction
  rename_i negative
  obtain ⟨found,real⟩ := Option.filter_eq_some_iff.mp there
  exact ⟨by omega,found,by simpa using real⟩

def Distinct (s : Tables) : Prop := ∀ d d' pid, device s d = some pid → device s d' = some pid → d = d'

theorem storedPut {s : Tables} {drv : Devices} {d : Int} {pid : Pid} {dv : Device} (p : Pid) (dv' : Device)
    (distinct : Distinct s) (there : device s d = some pid) (task : drv.task pid = some dv) :
    stored p s (putDevice drv pid dv') + deviceWaiting p dv = stored p s drv + deviceWaiting p dv' := by
  obtain ⟨natural,slot,real⟩ := deviceSlot there
  have old : storedAt p drv pid = deviceWaiting p dv := by simp [storedAt,real,task]
  have new : storedAt p (putDevice drv pid dv') pid = deviceWaiting p dv' := by simp [storedAt,real,putDevice]
  rw [← old,← new]
  refine sumUnique (storedAt p drv) (storedAt p (putDevice drv pid dv')) slot ?_ ?_
  · intro j found
    have same : device s j = some pid := by
      unfold device
      rw [if_neg (by omega),Int.toNat_natCast,found]
      simp [real]
    have here := distinct j d pid same there
    omega
  · intro q other
    simp [storedAt,putDevice,Function.update_of_ne other]

theorem allRwPut {drv : Devices} {pid : Pid} {dv : Device} (held : AllRw drv) (only : RwOnly dv) :
    AllRw (putDevice drv pid dv) := by
  intro q found task
  by_cases same : q = pid
  · subst same
    rw [putDevice] at task
    simp only [Function.update_self,Option.some.injEq] at task
    rw [← task]
    exact only
  · refine held q found ?_
    simpa [putDevice,Function.update_of_ne same] using task

theorem Talk.waiting {start : System Devices} {drv : Devices} {log : List (Event Devices)} (talk : Talk start log drv)
    (distinct : Distinct start.vfs) (only : AllRw start.drv) :
    AllRw drv ∧ ∀ p, p ≠ 0 → stored p start.vfs drv + sentCount p log = stored p start.vfs start.drv := by
  induction talk with
  | quiet => exact ⟨only,fun p _ => rfl⟩
  | @asked log mid after pid msg front last before proper turn again ih =>
    obtain ⟨rwMid,conserved⟩ := ih
    obtain ⟨d,there⟩ := proper.registered
    obtain ⟨dv,Z,F,task,calm,held⟩ := proper.calm
    obtain ⟨dv₀,dv',task₀,answer,rfl⟩ := askSource turn
    rw [task] at task₀
    cases Option.some.inj task₀
    have moved : ∀ p, p ≠ 0 → deviceWaiting p dv' + sentCount p (unblocked front) = deviceWaiting p dv ∧ RwOnly dv' :=
      fun p real => serviceWaiting real proper.service calm held (rwMid pid dv task) answer again
    refine ⟨allRwPut rwMid (moved 1 (by decide)).2,?_⟩
    intro p real
    have kept := conserved p real
    have put := storedPut p dv' distinct there task
    have step := (moved p real).1
    rw [sentCountAppend,sentCountCons]
    simp only [sentTo]
    omega

/-! What VFS serves itself it answers at once: no driver holds anything but reads,
writes and interrupts. -/

theorem serviceSpeaks {drv drv' : Devices} {pid : Pid} {msg last : Msg} (front : List Msg) (service : Service msg.cmd)
    (ok : drivers.ask drv pid msg = some (drv',front ++ [last])) : last.cmd ≠ .hold := by
  have speaks : msg.cmd ≠ .hold := by
    unfold Service at service
    intro h
    simp [h] at service
  have notRw : ¬ (msg.cmd = .readc ∨ msg.cmd = .writec) := by
    unfold Service at service
    rintro (h | h) <;> simp [h] at service
  obtain ⟨dv,dv',-,turn,-⟩ := askSource ok
  cases dv with
  | pipedev nodes =>
    obtain ⟨after,rfl,took⟩ := deviceTurn turn
    generalize replies : front ++ [last] = out at took
    have kind : ∀ m : Msg, front ++ [last] = [m] → m.cmd = msg.cmd → last.cmd ≠ .hold := by
      intro m single same
      obtain ⟨-,rfl⟩ := lastOfOne single.symm
      rw [same]
      exact speaks
    cases pipedevTurn took with
    | made call first empty => exact kind _ replies rfl
    | missingLink call absent => exact kind _ replies rfl
    | linked call index there => exact kind _ replies rfl
    | unlinked call index there => exact kind _ replies rfl
    | missing call absent => exact kind _ replies rfl
    | grabbed call index there => exact kind _ replies rfl
    | passed call => exact absurd call notRw
    | ignored call => exact kind _ replies rfl
    | @released i node call index there =>
      have ended : ∃ flushed, (pdRelease node msg).2 = flushed ++ [msg] := by
        unfold pdRelease
        dsimp only
        split
        · exact ⟨_,rfl⟩
        split
        · exact ⟨[],rfl⟩
        split <;> exact ⟨[],rfl⟩
      obtain ⟨flushed,same⟩ := ended
      rw [same] at replies
      obtain ⟨-,last⟩ := List.append_inj' replies rfl
      rw [(List.cons.inj last).1]
      exact speaks
  | memfile nodes =>
    obtain ⟨after,rfl,took⟩ := deviceTurn turn
    generalize replies : front ++ [last] = out at took
    have single : ∃ m, out = [m] ∧ m.cmd = msg.cmd := by cases memfileTurn took <;> exact ⟨_,rfl,rfl⟩
    obtain ⟨m,rfl,kind⟩ := single
    obtain ⟨-,rfl⟩ := lastOfOne replies.symm
    rw [kind]
    exact speaks
  | ttyUsart0 t =>
    have ignored : ttyUsart0 drv.rx t msg = some (t,[msg]) := by
      unfold ttyUsart0
      unfold Service at service
      rcases service with h | h | h | h | h <;> rw [h]
    simp only [askDevice,ignored,Option.map_some,Option.some.injEq,Prod.mk.injEq] at turn
    obtain ⟨-,rfl⟩ := lastOfOne turn.2
    exact speaks

def Speaks (x : Tx Devices) : Prop := x.msg.cmd ≠ .hold

section
variable {x y : Tx Devices} {pid client : Pid}

theorem sendrecSpeaks (service : Service x.msg.cmd) (ok : sendrec drivers x pid = some y) : Speaks y := by
  obtain ⟨drv,m,asked,rfl⟩ := sendrecSource ok
  exact serviceSpeaks [] service asked

theorem doCloseSpeaks (speaks : Speaks x) (ok : doClose drivers client x = some y) : Speaks y := by
  rcases doCloseCases ok with ⟨-,rfl⟩ | ⟨t,fp,-,-,-,outcome⟩
  · exact speaks
  rcases outcome with ⟨-,rfl⟩ | ⟨f,-,-,⟨-,rfl⟩ | ⟨-,-,rfl⟩ | ⟨-,-,pid,-,asked⟩⟩
  · exact speaks
  · exact speaks
  · exact speaks
  · obtain ⟨drv,front,last,turn,-,-,rfl⟩ := sendrecRepeatSource asked
    exact serviceSpeaks front (by simp [Service]) turn

theorem closeAllSpeaks {is : List Nat} (speaks : Speaks x) (ok : closeAll drivers pid is x = some y) : Speaks y := by
  induction is generalizing x with
  | nil =>
    cases Option.some.inj ok
    exact speaks
  | cons i rest ih =>
    simp only [closeAll,bind,Option.bind_eq_some_iff] at ok
    obtain ⟨z,closed,ok⟩ := ok
    exact ih (doCloseSpeaks (x := reply x i) speaks closed) ok

theorem vfsRemovetaskSpeaks (speaks : Speaks x) (ok : vfsRemovetask drivers x = some y) : Speaks y := by
  rcases vfsRemovetaskCases ok with ⟨-,rfl⟩ | ⟨t,z,-,closed,rfl⟩
  · exact speaks
  · exact closeAllSpeaks (y := z) speaks closed

theorem vfsAddnewtaskSpeaks {kmalloc : Bool} (speaks : Speaks x) (ok : vfsAddnewtask drivers kmalloc x = some y) :
    Speaks y := by
  cases vfsAddnewtaskAdds ok with
  | first nobody => exact speaks
  | @orphan z removed =>
    refine vfsRemovetaskSpeaks (y := z) ?_ removed
    exact speaks
  | child found => exact speaks
  | full => exact speaks

theorem doPipeSpeaks (ok : doPipe drivers client x = some y) : Speaks y := by
  obtain ⟨pid,made,-,node,outcome⟩ := doPipeCases ok
  have afterNode : Speaks made := sendrecSpeaks (by simp [Service]) node
  rcases outcome with ⟨-,rfl⟩ | ⟨once,-,grab,outcome⟩
  · exact afterNode
  have afterOnce : Speaks once := sendrecSpeaks (by simp [Service]) grab
  rcases outcome with ⟨-,rfl⟩ | ⟨twice,-,again,outcome⟩
  · exact afterOnce
  have afterTwice : Speaks twice := sendrecSpeaks (by simp [Service]) again
  rcases outcome with ⟨-,rfl⟩ | ⟨first,-,-,outcome⟩
  · exact afterTwice
  rcases outcome with ⟨-,rfl⟩ | ⟨fdi,s,second,-,-,⟨-,rfl⟩ | ⟨fdo,s',-,rfl⟩⟩
  · exact afterTwice
  · exact afterTwice
  · exact afterTwice

theorem doOpenSpeaks (speaks : Speaks x) (ok : doOpen drivers client x = some y) : Speaks y := by
  rcases doOpenCases ok with rfl | ⟨t,fd,fp,f,pid,z,-,-,-,-,-,asked,outcome⟩
  · exact speaks
  have after : Speaks z := sendrecSpeaks (by simp [Service]) asked
  rcases outcome with ⟨-,rfl⟩ | ⟨-,rfl⟩
  · exact after
  · exact after

theorem lookupsSpeak : Lookups drivers Speaks := fun _ _ _ _ _ _ speaks _ _ => speaks

theorem doMknodSpeaks {kmalloc : Nat → Bool} (speaks : Speaks x) (ok : doMknod drivers client kmalloc x = some y) :
    Speaks y := by
  obtain ⟨dev,dirIno,found,kept,-,outcome⟩ := doMknodCases lookupsSpeak speaks ok
  rcases outcome with ⟨-,rfl⟩ | ⟨pid,made,linked,-,-,-,joined,outcome⟩
  · exact kept
  have after : Speaks linked := sendrecSpeaks (by simp [Service]) joined
  rcases outcome with ⟨-,rfl⟩ | ⟨-,rfl⟩
  · exact after
  · exact after

theorem processSpeaks {r : Request} (own : Own r.msg.cmd) (speaks : Speaks x) (ok : process drivers r x = some y) :
    Speaks y := by
  obtain ⟨notMkdev,notRead,notWrite,notReadc,notWritec⟩ := own
  unfold process at ok
  split at ok
  case h_1 => exact vfsAddnewtaskSpeaks speaks ok
  case h_2 => exact vfsRemovetaskSpeaks speaks ok
  case h_3 call => exact absurd call notMkdev
  case h_4 => exact doMknodSpeaks speaks ok
  case h_5 =>
    rcases doDupCases ok with rfl | ⟨t,fp,fd,f,-,-,-,-,-,-,rfl⟩
    · exact speaks
    · exact speaks
  case h_6 => exact doPipeSpeaks ok
  case h_7 =>
    obtain ⟨found,a,b,c,kept,-,rfl⟩ := doStatCases lookupsSpeak speaks ok
    exact kept
  case h_8 => exact doOpenSpeaks speaks ok
  case h_9 => exact doCloseSpeaks speaks ok
  case h_10 call => exact absurd call notRead
  case h_11 call => exact absurd call notWrite
  case h_12 call => exact absurd call notReadc
  case h_13 call => exact absurd call notWritec
  case h_14 =>
    cases Option.some.inj ok
    exact speaks
  case h_15 =>
    cases Option.some.inj ok
    exact speaks

end

/-! One request: what was stored, and the request itself, is stored or answered. -/

def asks (p : Pid) (r : Request) : Nat := if ¬ Interrupt r.msg.cmd ∧ r.client = p then 1 else 0

theorem asksAddressed {r : Request} (request : ¬ Interrupt r.msg.cmd) (p : Pid) (m : Msg) :
    asks p r = addressed p { m with client := r.client } := by
  unfold asks addressed
  simp [request]

theorem finishSent {p : Pid} (real : p ≠ 0) (r : Request) (y : Tx Devices) :
    sentCount p (finish r y) = sentCount p y.log + finalTo p (answered r y) y.msg := by
  unfold finish finalTo
  split
  · rename_i out
    rw [sentCountAppend,sentCountCons]
    simp [out.1,sentTo,sentCount]
  · rename_i silent
    rw [if_neg]
    · rfl
    · rintro ⟨speaks,rfl⟩
      exact silent ⟨speaks,real⟩

theorem answeredInterrupt {r : Request} (interrupt : Interrupt r.msg.cmd) (y : Tx Devices) :
    answered r y = y.msg.client := by
  unfold answered
  rcases interrupt with h | h <;> rw [h]

theorem spoken {r : Request} {y : Tx Devices} (request : ¬ Interrupt r.msg.cmd) (speaks : Speaks y) (p : Pid) :
    finalTo p (answered r y) y.msg = asks p r := by
  rw [answeredClient (not_or.mp request)]
  unfold finalTo asks
  simp only [request,not_false_eq_true,true_and]
  have out : y.msg.cmd ≠ .hold := speaks
  simp [out]

theorem storedSame {s s' : Tables} (same : s'.devtab = s.devtab) (p : Pid) (drv : Devices) :
    stored p s' drv = stored p s drv := by
  unfold stored
  rw [same]

theorem unblockedReal (front : List Msg) : sentCount 0 (unblocked front) = 0 := by
  induction front with
  | nil => rfl
  | cons m rest ih =>
    by_cases out : m.cmd = .repeat_ ∧ m.client ≠ 0
    · have first : unblocked (σ := Devices) (m::rest) = .sent m.client { m with cmd := .final } :: unblocked rest := by
        simp [unblocked,out.1,out.2]
      rw [first,sentCountCons,ih,sentTo,if_neg out.2]
    · have first : unblocked (σ := Devices) (m::rest) = unblocked rest := by
        simp only [unblocked,List.filter_cons]
        rw [if_neg (by simpa using out)]
      rw [first,ih]

theorem exchangeReal {log : List (Event Devices)} {drv : Devices} {pid : Pid} {msg : Msg} (none : log = [])
    (front : List Msg) : sentCount 0 (log ++ .asked drv pid msg :: unblocked front) = 0 := by
  rw [none,List.nil_append,sentCountCons,unblockedReal]
  rfl

section
variable {x y : Tx Devices} {client : Pid}

theorem doRwWaiting (distinct : Distinct x.vfs) (only : AllRw x.drv) (call : Rw x.msg.cmd) (none : x.log = [])
    (ok : doRw drivers client x = some y) :
    AllRw y.drv ∧ sentCount 0 y.log = 0 ∧ ∀ p, p ≠ 0 → stored p y.vfs y.drv + sentCount p y.log + finalTo p x.msg.client y.msg =
      stored p x.vfs x.drv + addressed p x.msg := by
  rcases doRwCases ok with rfl | ⟨t,fp,f,pid,z,-,-,-,-,-,there,asked,rfl⟩
  · refine ⟨only,by rw [none]; rfl,?_⟩
    intro p real
    have speaks : x.msg.cmd ≠ .hold := by rcases call with h | h <;> simp [h]
    rw [none]
    unfold finalTo addressed
    simp [speaks,sentCount]
  obtain ⟨drv,front,last,turn,again,-,rfl⟩ := sendrecRepeatSource asked
  change drivers.ask x.drv pid { x.msg with w0 := f.ino, w1 := f.pos } = _ at turn
  obtain ⟨dv,dv',task,answer,rfl⟩ := askSource turn
  have rw_ : Rw ({ x.msg with w0 := f.ino, w1 := f.pos } : Msg).cmd := call
  have moved : ∀ p, p ≠ 0 → _ := fun p real => rwWaiting (p := p) real rw_ (only pid dv task) answer again
  refine ⟨allRwPut only (moved 1 (by decide)).2,exchangeReal none front,?_⟩
  intro p real
  have step : deviceWaiting p dv' + sentCount p (unblocked front) + finalTo p x.msg.client last =
    deviceWaiting p dv + addressed p x.msg := (moved p real).1
  have put := storedPut p dv' distinct there task
  change stored p x.vfs (putDevice x.drv pid dv') + sentCount p (x.log ++ _ :: _) + finalTo p x.msg.client last = _
  rw [none,List.nil_append,sentCountCons]
  simp only [sentTo]
  omega

theorem doIntWaiting {K : Int → Int → Nat} {Z F : Int → Int → Prop} (tally : Tallied K Z F x.vfs x.drv)
    (only : AllRw x.drv) (call : Interrupt x.msg.cmd) {t : Tty} (terminal : x.drv.task x.msg.client = some (.ttyUsart0 t))
    (none : x.log = []) (ok : doInt drivers x = some y) :
    AllRw y.drv ∧ sentCount 0 y.log = 0 ∧ ∀ p, p ≠ 0 → stored p y.vfs y.drv + sentCount p y.log + finalTo p y.msg.client y.msg =
      stored p x.vfs x.drv := by
  unfold doInt at ok
  split at ok <;> try contradiction
  rename_i real
  obtain ⟨drv,front,last,turn,again,-,rfl⟩ := sendrecRepeatSource ok
  obtain ⟨d,there⟩ := tally.known x.msg.client real (by rw [terminal]; simp)
  obtain ⟨dv,dv',task,answer,rfl⟩ := askSource turn
  rw [terminal] at task
  cases Option.some.inj task
  have moved : ∀ p, p ≠ 0 → _ := fun p real => interruptWaiting (p := p) real call answer again
  refine ⟨allRwPut only (moved 1 (by decide)).2,exchangeReal none front,?_⟩
  intro p real
  have step := (moved p real).1
  have put := storedPut p dv' tally.distinct there terminal
  change stored p x.vfs (putDevice x.drv x.msg.client dv') + sentCount p (x.log ++ _ :: _) + finalTo p last.client last = _
  rw [none,List.nil_append,sentCountCons]
  simp only [sentTo]
  omega

theorem startWaiting (p : Pid) (driver : Driver) : deviceWaiting p (startDevice driver) = 0 ∧ RwOnly (startDevice driver) := by
  cases driver with
  | pipedev =>
    refine ⟨by simp [deviceWaiting,startDevice,pipedevStart,nodeWaiting],?_⟩
    intro i node found
    have none := List.eq_of_mem_replicate (List.mem_of_getElem? found)
    contradiction
  | memfile => exact ⟨rfl,trivial⟩
  | ttyUsart0 => exact ⟨rfl,trivial⟩

theorem doMkdevWaiting {newtask : Pid} (only : AllRw x.drv) (fresh : newtask ≠ 0 → newtask ∉ x.vfs.devtab) :
    AllRw (doMkdev drivers newtask x).drv ∧
    ∀ p, stored p (doMkdev drivers newtask x).vfs (doMkdev drivers newtask x).drv = stored p x.vfs x.drv := by
  unfold doMkdev
  split
  · exact ⟨only,fun p => rfl⟩
  rename_i i empty
  obtain ⟨inside,zero,-⟩ := List.findIdx?_eq_some_iff_getElem.mp empty
  refine ⟨allRwPut only (startWaiting 0 x.msg.driver).2,?_⟩
  intro p
  -- The slot was empty, and nobody waits in a driver that has just started.
  have slot : x.vfs.devtab[i]? = some 0 := by
    rw [List.getElem?_eq_getElem inside]
    exact congrArg some (by simpa using zero)
  have moved := sumSet (storedAt p (putDevice x.drv newtask (startDevice x.msg.driver))) slot newtask
  have old : storedAt p (putDevice x.drv newtask (startDevice x.msg.driver)) 0 = 0 := if_pos rfl
  have new : storedAt p (putDevice x.drv newtask (startDevice x.msg.driver)) newtask = 0 := by
    unfold storedAt
    split
    · rfl
    · simp [putDevice,(startWaiting p x.msg.driver).1]
  have others : x.vfs.devtab.map (storedAt p (putDevice x.drv newtask (startDevice x.msg.driver))) =
      x.vfs.devtab.map (storedAt p x.drv) := by
    refine List.map_congr_left ?_
    intro pid member
    unfold storedAt
    split
    · rfl
    · rename_i real
      have apart : pid ≠ newtask := by
        rintro rfl
        exact fresh real member
      simp [putDevice,Function.update_of_ne apart]
  rw [old,new,others] at moved
  exact moved

end

theorem Talk.real {start : System Devices} {drv : Devices} {log : List (Event Devices)} (talk : Talk start log drv) :
    sentCount 0 log = 0 := by
  induction talk with
  | quiet => rfl
  | asked before proper turn again ih => rw [sentCountAppend,sentCountCons,ih,unblockedReal]; rfl

theorem finishReal {r : Request} {y : Tx Devices} (before : sentCount 0 y.log = 0) : sentCount 0 (finish r y) = 0 := by
  unfold finish
  split
  · rename_i out
    rw [sentCountAppend,before]
    simp [sentCount,sentTo,out.2]
  · exact before

structure Conserved (s s' : System Devices) (r : Request) (out : List (Event Devices)) : Prop where
  rw_ : AllRw s'.drv
  real : sentCount 0 out = 0
  balance : ∀ p, p ≠ 0 → stored p s'.vfs s'.drv + sentCount p out = stored p s.vfs s.drv + asks p r
  prompt : ¬ Interrupt r.msg.cmd → ¬ Rw r.msg.cmd → r.client ≠ 0 → 1 ≤ sentCount r.client out

theorem promptly {r : Request} {y : Tx Devices} (speaks : Speaks y) :
    ¬ Interrupt r.msg.cmd → ¬ Rw r.msg.cmd → r.client ≠ 0 → 1 ≤ sentCount r.client (finish r y) := by
  intro request _ real
  rw [finishSent real,spoken request speaks]
  simp [asks,request]

section
variable {extra : Int → Int → Nat} {s s' : System Devices} {i : Input} {out : List (Event Devices)}

theorem servedWaiting (held : Counted s.vfs) (few : Bounded 255 s.vfs)
    (index : ∀ fd, fdArgument i.request.msg = some fd → fd < maxFd)
    (fresh : i.request.newtask ≠ 0 → i.request.newtask ∉ s.vfs.devtab) (small : Small extra)
    (settled : Settled extra Nowhere s) (only : AllRw s.drv) (speaks : i.request.msg.cmd ≠ .hold)
    (terminal : Interrupt i.request.msg.cmd → ∃ t, s.drv.task i.request.msg.client = some (.ttyUsart0 t))
    (taken : served s i = some (s',out)) (few' : Bounded 255 s'.vfs) : Conserved s s' i.request out := by
  obtain ⟨y,processed,rfl,rfl⟩ := servedSource taken
  have begun : Settled extra Nowhere ⟨(received s i).vfs,(received s i).drv⟩ :=
    ⟨settled.distinct,settled.unused,settled.known,settled.kept,settled.piped⟩
  have rwBegun : AllRw (received s i).drv := only
  by_cases own : Own i.request.msg.cmd
  · have request : ¬ Interrupt i.request.msg.cmd := fun h => h.elim own.2.1 own.2.2.1
    have agrees : Agrees ⟨(received s i).vfs,(received s i).drv⟩ extra Nowhere (received s i) := ⟨begun,.quiet,rfl⟩
    obtain ⟨extra',-,after,-⟩ := processAgrees own held few rfl index small (fun _ _ nowhere => nowhere.elim) agrees
      processed few'
    obtain ⟨rwAfter,moved⟩ := after.talk.waiting settled.distinct rwBegun
    have answer : Speaks y := processSpeaks (x := received s i) own speaks processed
    refine ⟨rwAfter,finishReal after.talk.real,?_,promptly answer⟩
    intro p real
    have step := moved p real
    rw [finishSent real,spoken request answer,storedSame after.devtab]
    change _ = stored p (received s i).vfs (received s i).drv + _
    dsimp only at step ⊢
    omega
  have others : i.request.msg.cmd = .mkdev ∨ Interrupt i.request.msg.cmd ∨ Rw i.request.msg.cmd := by
    unfold Own at own
    unfold Interrupt Rw
    grind
  rcases others with call | call | call
  · have request : ¬ Interrupt i.request.msg.cmd := by rw [call]; simp [Interrupt]
    simp only [process,call] at processed
    cases Option.some.inj processed
    obtain ⟨rwAfter,moved⟩ := doMkdevWaiting (x := received s i) rwBegun fresh
    obtain ⟨-,log,-⟩ := doMkdevKeeps (x := received s i) i.request.newtask
    have answer : Speaks (doMkdev drivers i.request.newtask (received s i)) := by
      unfold doMkdev
      split
      · exact speaks
      · exact speaks
    refine ⟨rwAfter,finishReal (by rw [log]; rfl),?_,promptly answer⟩
    intro p real
    rw [finishSent real,spoken request answer,log,moved]
    exact (Nat.add_assoc _ _ _).symm.trans (by rw [Nat.add_right_comm]; rfl)
  · have interrupt : doInt drivers (received s i) = some y := by
      rcases call with h | h <;> simpa only [process,h] using processed
    obtain ⟨t,task⟩ := terminal call
    obtain ⟨rwAfter,nobody,moved⟩ := doIntWaiting begun rwBegun call task rfl interrupt
    refine ⟨rwAfter,finishReal nobody,?_,fun request => absurd call request⟩
    · intro p real
      rw [finishSent real,answeredInterrupt call]
      have step := moved p real
      have none : asks p i.request = 0 := if_neg (fun h => h.1 call)
      change _ = stored p (received s i).vfs (received s i).drv + _
      dsimp only
      omega
  · have request : ¬ Interrupt i.request.msg.cmd := by
      rcases call with h | h <;> rw [h] <;> simp [Interrupt]
    have asked : doRw drivers i.request.client { received s i with
        msg := { i.request.msg with client := i.request.client } } = some y := by
      unfold process at processed
      rcases call with h | h <;> rw [h] at processed <;> exact processed
    obtain ⟨rwAfter,nobody,moved⟩ := doRwWaiting (x := { received s i with
      msg := { i.request.msg with client := i.request.client } }) settled.distinct rwBegun call rfl asked
    refine ⟨rwAfter,finishReal nobody,?_,fun _ other => absurd call other⟩
    · intro p real
      rw [finishSent real,answeredClient (not_or.mp request),asksAddressed request p i.request.msg]
      have step := moved p real
      change _ = stored p (received s i).vfs (received s i).drv + _
      dsimp only at step ⊢
      omega

end

/- What is asked of the clients: one is a task that is not waiting for VFS already, an
interrupt names a terminal, and descriptors are given below MAX_FD. -/
structure Courteous (s : Session) (i : Input) : Prop where
  index : ∀ fd, fdArgument i.request.msg = some fd → fd < maxFd
  fresh : i.request.newtask ≠ 0 → i.request.newtask ∉ s.sys.vfs.devtab
  speaks : i.request.msg.cmd ≠ .hold
  client : ¬ Interrupt i.request.msg.cmd → i.request.client ≠ 0 ∧ owing s.unanswered i.request.client = 0
  terminal : Interrupt i.request.msg.cmd → ∃ t, s.sys.drv.task i.request.msg.client = some (.ttyUsart0 t)

-- Before each request no entry of `filp` is the target of more than 255 descriptors.
structure Attended (s : Session) (i : Input) : Prop extends Courteous s i where
  small : Bounded 255 s.sys.vfs

def Opening (s : Session) : Prop := Started s.sys ∧ s.unanswered = []

structure Ledger (s : Session) : Prop where
  rwOnly : AllRw s.sys.drv
  stored : ∀ p, p ≠ 0 → stored p s.sys.vfs s.sys.drv = owing s.unanswered p
  single : ∀ p, owing s.unanswered p ≤ 1
  rw_ : ∀ a ∈ s.unanswered, Rw a.2

theorem startedTask {s : System Devices} (start : Started s) {pid : Pid} {dv : Device}
    (found : s.drv.task pid = some dv) : dv = .pipedev pipedevStart := by
  obtain ⟨newtask,-,rfl⟩ := start
  change Function.update noDevices.task newtask (some (Device.pipedev pipedevStart)) pid = some dv at found
  by_cases here : pid = newtask
  · rw [here,Function.update_self] at found
    exact (Option.some.inj found).symm
  · rw [Function.update_of_ne here] at found
    contradiction

theorem openingLedger {s : Session} (start : Opening s) : Ledger s := by
  obtain ⟨started,closed⟩ := start
  have task : ∀ pid dv, s.sys.drv.task pid = some dv → dv = .pipedev pipedevStart :=
    fun _ _ found => startedTask started found
  refine ⟨?_,?_,by simp [closed,owing],by simp [closed]⟩
  · intro pid dv found
    rw [task pid dv found]
    exact (startWaiting 0 .pipedev).2
  · intro p _
    rw [closed]
    refine List.sum_eq_zero ?_
    intro n member
    obtain ⟨pid,-,rfl⟩ := List.mem_map.mp member
    unfold storedAt
    split
    · rfl
    cases found : s.sys.drv.task pid with
    | none => rfl
    | some dv =>
      rw [task pid dv found]
      exact (startWaiting p .pipedev).1

theorem owingAsking (u : List (Pid × Cmd)) (r : Request) (p : Pid) : owing (asking u r) p = owing u p + asks p r := by
  unfold asking asks owing
  split
  · rename_i interrupt
    simp [interrupt]
  · rename_i request
    simp [request,List.countP_append,List.countP_cons]

theorem Ledger.kept {s : Session} {i : Input} {sys : System Devices} {out : List (Event Devices)} (ledger : Ledger s)
    (client : ¬ Interrupt i.request.msg.cmd → i.request.client ≠ 0 ∧ owing s.unanswered i.request.client = 0)
    (conserved : Conserved s.sys sys i.request out) :
    (∀ t ∈ (settle (asking s.unanswered i.request) out).2, t.owing = 1) ∧
    Ledger ⟨sys,(settle (asking s.unanswered i.request) out).1⟩ := by
  have one : ∀ p, owing (asking s.unanswered i.request) p ≤ 1 := by
    intro p
    have single := ledger.single p
    rw [owingAsking]
    unfold asks
    split
    · rename_i asking
      rw [← asking.2,(client asking.1).2]
    · exact single
  have fits : ∀ p, sentCount p out ≤ owing (asking s.unanswered i.request) p := by
    intro p
    by_cases null : p = 0
    · rw [null,conserved.real]
      exact Nat.zero_le _
    · have balance := conserved.balance p null
      rw [owingAsking,← ledger.stored p null]
      omega
  obtain ⟨told,left,members⟩ := settleExact fits one
  refine ⟨told,conserved.rw_,?_,?_,?_⟩
  · intro p real
    have balance := conserved.balance p real
    have before := ledger.stored p real
    dsimp only
    rw [left p,owingAsking]
    omega
  · intro p
    have before := one p
    dsimp only
    rw [left p]
    omega
  · intro a member
    by_cases waits : Rw a.2
    · exact waits
    -- What is neither a read nor a write has been answered.
    exfalso
    have positive : 0 < owing (settle (asking s.unanswered i.request) out).1 a.1 :=
      List.countP_pos_iff.mpr ⟨a,member,by simp⟩
    have origin := members a member
    unfold asking at origin
    split at origin
    · exact waits (ledger.rw_ a origin)
    rename_i request
    rcases List.mem_append.mp origin with old | new
    · exact waits (ledger.rw_ a old)
    obtain ⟨rfl⟩ := List.mem_singleton.mp new
    have prompt := conserved.prompt request waits (client request).1
    have before := one i.request.client
    rw [left] at positive
    dsimp only at positive
    omega

theorem blockedClientsAccounted {s : Session} {history : List Told}
    (run : Run.Reaches session Attended Opening s history) (small : Bounded 255 s.sys.vfs) :
    (∀ t ∈ history, t.owing = 1) ∧
    (∀ p, p ≠ 0 → stored p s.sys.vfs s.sys.drv = s.unanswered.countP (fun a => a.1 = p ∧ Rw a.2)) ∧
    (∀ p, s.unanswered.countP (fun a => a.1 = p) ≤ 1) ∧ ∀ a ∈ s.unanswered, Rw a.2 := by
  have held : Counted s.sys.vfs ∧ (Bounded 255 s.sys.vfs → (∃ extra, Small extra ∧ Settled extra Nowhere s.sys) ∧
      Ledger s ∧ ∀ t ∈ history, t.owing = 1) := by
    refine run.invariant (P := fun s history => Counted s.sys.vfs ∧ (Bounded 255 s.sys.vfs →
      (∃ extra, Small extra ∧ Settled extra Nowhere s.sys) ∧ Ledger s ∧ ∀ t ∈ history, t.owing = 1)) ?_ ?_
    · intro s start
      exact ⟨startedCounted start.1,fun _ => ⟨⟨_,fun _ _ => Nat.zero_le _,startedSettled start.1⟩,openingLedger start,
        by simp⟩⟩
    · rintro s history i s' out ⟨held,before⟩ attended taken
      simp only [session,bind,Option.bind_eq_some_iff] at taken
      obtain ⟨⟨sys,log⟩,step,last⟩ := taken
      obtain ⟨rfl,rfl⟩ := Prod.mk.inj (Option.some.inj last)
      obtain ⟨⟨extra,less,settled⟩,ledger,past⟩ := before attended.small
      refine ⟨servedCounted held attended.index attended.small step,?_⟩
      intro few'
      obtain ⟨-,-,extra',less',settled',-⟩ := servedSettled held attended.small attended.index attended.fresh less
        (fun _ _ nowhere => nowhere.elim) settled step few'
      have conserved := servedWaiting held attended.small attended.index attended.fresh less settled ledger.rwOnly
        attended.speaks attended.terminal step few'
      obtain ⟨told,ledger'⟩ := ledger.kept attended.client conserved
      refine ⟨⟨extra',less',settled'⟩,ledger',?_⟩
      intro t member
      rcases List.mem_append.mp member with old | new
      · exact past t old
      · exact told t new
  obtain ⟨-,ledger,past⟩ := held.2 small
  refine ⟨past,?_,ledger.single,ledger.rw_⟩
  intro p real
  rw [ledger.stored p real]
  refine List.countP_congr ?_
  intro a member
  simp [ledger.rw_ a member]

theorem courteous (s : Session) {client : Pid} {m : Msg}
    (plain : (∀ fd, fdArgument m = some fd → fd < maxFd) ∧ m.cmd ≠ .hold ∧ ¬ Interrupt m.cmd)
    (free : client ≠ 0 ∧ owing s.unanswered client = 0) : Courteous s (demoInput client m) :=
  ⟨plain.1,fun real => absurd rfl real,plain.2.1,fun _ => free,fun interrupt => absurd interrupt plain.2.2⟩

-- A reader waits for a pipe: its request is the one that is open, and the one that is stored.
theorem blockedReaderAccounted : ∃ s history, Run.Reaches session Attended Opening s history ∧
    s.unanswered = [(0x10,.readc)] ∧ stored 0x10 s.sys.vfs s.sys.drv = 1 ∧ ∀ t ∈ history, t.owing = 1 := by
  have start : Run.Reaches session Attended Opening ⟨vfsInit drivers 1 noDevices,[]⟩ [] :=
    .start ⟨⟨1,by decide,rfl⟩,rfl⟩
  have added := start.next (i := demoInput 2 (demoMsg .addtask 0x10 0 0))
    ⟨courteous _ (by decide) (by decide),fewTasks (by decide) (by decide)⟩ rfl
  have piped := added.next (i := demoInput 0x10 (demoMsg .pipe 0 0 0))
    ⟨courteous _ (by decide) (by decide),fewTasks (by decide) (by decide)⟩ rfl
  have blocked := piped.next (i := demoInput 0x10 (demoMsg .readc 0 0 0))
    ⟨courteous _ (by decide) (by decide),fewTasks (by decide) (by decide)⟩ rfl
  exact ⟨_,_,blocked,rfl,rfl,(blockedClientsAccounted blocked (fewTasks (by decide) (by decide))).1⟩

end Avros.Vfs
