import Avros.ProcessChildren
import Avros.Ranks

/-! The family tree of PM over whole runs. A spawn hangs a new leaf under the sender, an exit
cuts the children of the sender off, so the parent words never lead in a circle. A process
that waits does so for a child: from each waiting process a chain of waits leads down to one
PM will still receive from. -/
namespace Avros.Pm
open Relation Run

def ChildOf (s : Tables) (a b : Addr) : Prop := b ≠ 0 ∧ ∃ t, s.record a = some t ∧ t.parent = b

def WaitsFor (s : Tables) (w a : Addr) : Prop :=
  w ∈ s.waitQ ∧ a ∈ s.taskQ ++ s.waitQ ∧ ∃ t u, s.record w = some t ∧ s.record a = some u ∧
    u.parent = w ∧ (t.word = u.pid ∨ t.word = taskAny)

def Forest (s : Tables) : Prop := ∃ age : Addr → Nat, ∀ a b, ChildOf s a b → age b < age a

section
variable {s s' : Tables} {c a b : Addr} {t : PmTask} {rest : List Addr} {r : Request} {calls : List Call}

theorem Sound.parentLives (sound : Sound s) (child : ChildOf s a b) : b ∈ s.taskQ ++ s.waitQ := by
  obtain ⟨real,t,there,rfl⟩ := child
  exact (sound.parents a t there).resolve_left real

theorem Forest.mono (forest : Forest s) (fewer : ∀ a b, ChildOf s' a b → ChildOf s a b) : Forest s' := by
  obtain ⟨age,older⟩ := forest
  exact ⟨age,fun a b child => older a b (fewer a b child)⟩

/- A spawn: only the new record can name a parent it did not name before. -/
theorem Forest.joined (forest : Forest s) (sound : Sound s) {new : Addr} (free : s.record new = none)
    (task : c ∈ s.taskQ ++ s.waitQ) (grown : ∀ a b, ChildOf s' a b → a = new ∧ b = c ∨ ChildOf s a b) : Forest s' := by
  obtain ⟨age,older⟩ := forest
  have leafless : ∀ a, ¬ ChildOf s a new :=
    fun a child => sound.unused free (List.mem_append_left _ (sound.parentLives child)) rfl
  have other : c ≠ new := sound.unused free (List.mem_append_left _ task)
  refine Ranks.leafRanked older leafless other (fun a b child => ?_)
  refine (grown a b child).imp_right (fun old => ⟨?_,old⟩)
  rintro rfl
  obtain ⟨-,t,there,-⟩ := old
  rw [free] at there
  contradiction

theorem doesForest (sound : Sound s) (task : c ∈ s.taskQ ++ s.waitQ) (there : s.record c = some t) (given : Offers s r)
    (forest : Forest s) (did : Does s c t rest r s' calls) : Forest s' := by
  have known : ∀ a v, s'.record a = some v → v.parent ≠ 0 →
      r.msg.cmd = .spawn ∧ a = r.record ∧ v.parent = c ∨ ChildOf s a v.parent := by
    intro a v found real
    rcases doesRecords there did found with ⟨cmd,-,new,-,parent⟩ | ⟨u,old,-,parent⟩
    · exact .inl ⟨cmd,new,parent⟩
    · have kept := parent.resolve_right real
      exact .inr ⟨real,u,old,kept.symm⟩
  by_cases cmd : r.msg.cmd = .spawn
  · simp only [Offers,cmd] at given
    refine forest.joined sound given task ?_
    rintro a b ⟨real,v,found,rfl⟩
    exact (known a v found real).imp_left And.right
  · refine forest.mono ?_
    rintro a b ⟨real,v,found,rfl⟩
    exact (known a v found real).resolve_left (fun spawn => cmd spawn.1)

theorem attendedForest : Forest (attended s c) ↔ Forest s := Iff.rfl

theorem Forest.roots (forest : Forest s) (sound : Sound s) (there : s.record a = some t) :
    ∃ b u, ReflTransGen (ChildOf s) a b ∧ b ∈ s.taskQ ++ s.waitQ ∧ s.record b = some u ∧ u.parent = 0 := by
  obtain ⟨age,older⟩ := forest
  obtain ⟨b,up,last⟩ := Ranks.walkSettles older a
  have recorded : ∃ u, s.record b = some u := by
    rcases ReflTransGen.cases_tail up with rfl | ⟨d,-,child⟩
    · exact ⟨t,there⟩
    · exact sound.known (List.mem_append_left _ (sound.parentLives child))
  obtain ⟨u,found⟩ := recorded
  have orphan : u.parent = 0 := by
    by_contra real
    exact last u.parent ⟨real,u,found,rfl⟩
  refine ⟨b,u,up,?_,found,orphan⟩
  rcases List.mem_append.mp (sound.queued found) with alive | zombie
  · exact alive
  · exact absurd orphan (sound.zombies b zombie u found).1

theorem WaitsFor.child (sound : Sound s) {w a : Addr} (waits : WaitsFor s w a) : ChildOf s a w := by
  obtain ⟨waiting,-,t,u,-,there,parent,-⟩ := waits
  exact ⟨sound.real (by simp [waiting]),u,there,parent⟩

theorem Forest.settles (forest : Forest s) (sound : Sound s) (wakes : Wakeable s) {w : Addr} (waiting : w ∈ s.waitQ) :
    ∃ a ∈ s.taskQ, TransGen (WaitsFor s) w a := by
  obtain ⟨age,older⟩ := forest
  obtain ⟨a,down,last⟩ := Ranks.walkEnds (R := WaitsFor s) (fun w a waits => older a w (waits.child sound)) s.waitQ
    (fun w a waits => waits.1) w
  have idle : a ∉ s.waitQ := by
    intro still
    obtain ⟨t,there⟩ := sound.known (a := a) (by simp [still])
    obtain ⟨b,alive,u,child,parent,fits⟩ := wakes a still t there
    exact last b ⟨still,alive,t,u,there,child,parent,fits⟩
  rcases reflTransGen_iff_eq_or_transGen.mp down with rfl | walk
  · exact absurd waiting idle
  · obtain ⟨b,-,waits⟩ := TransGen.tail'_iff.mp walk
    exact ⟨a,(List.mem_append.mp waits.2.1).resolve_right idle,walk⟩
end

section
variable {m m' : Machine} {history out : List Served}

theorem runForest (run : Reaches step Possible Begun m history) : (∃ lost, Ledger m lost) ∧ Forest m.pm := by
  refine run.stateInvariant (P := fun m => (∃ lost, Ledger m lost) ∧ Forest m.pm) ?_ ?_
  · intro m begun
    obtain ⟨ledger,-,alone⟩ := begunLone begun
    refine ⟨ledger,fun _ => 0,?_⟩
    rintro a b ⟨real,t,there,rfl⟩
    exact absurd (alone a t there).1 real
  · rintro m r m' out ⟨⟨lost,table⟩,forest⟩ possible taken
    obtain ⟨c,t,y,n,sender,served,-,did,kept⟩ := ledgerStep table possible
    obtain ⟨rfl,-⟩ := stepMade served taken
    refine ⟨⟨_,kept⟩,?_⟩
    exact doesForest (table.attended sender.1).sound List.mem_cons_self sender.2.1 (table.offers possible.offered)
      (attendedForest.mpr forest) did

theorem familyTree (run : Reaches step Possible Begun m history) :
    (∀ a, ¬ TransGen (ChildOf m.pm) a a) ∧
    ∀ a t, m.pm.record a = some t →
      ∃ b u, ReflTransGen (ChildOf m.pm) a b ∧ b ∈ m.pm.taskQ ++ m.pm.waitQ ∧ m.pm.record b = some u ∧ u.parent = 0 := by
  obtain ⟨⟨lost,table⟩,forest⟩ := runForest run
  refine ⟨fun a circle => ?_,fun a t there => forest.roots table.sound there⟩
  obtain ⟨age,older⟩ := forest
  exact Ranks.noCycle (R := Function.swap (ChildOf m.pm)) (fun a b child => older b a child) a (transGen_swap.mpr circle)

theorem familyTreeAfterExit : ∃ history, Reaches step Possible Begun demoExited history ∧
    ¬ TransGen (ChildOf demoExited.pm) 61 61 := by
  obtain ⟨history,run⟩ := demoChild
  have plain := run.weaken (fun _ _ both => both.1) (fun _ begun => begun)
  exact ⟨history,plain,(familyTree plain).1 61⟩

theorem waitsLeadDown (run : Reaches step (fun m r => Possible m r ∧ Answerable m r) Begun m history) :
    (∀ w, ¬ TransGen (WaitsFor m.pm) w w) ∧ ∀ w ∈ m.pm.waitQ, ∃ a ∈ m.pm.taskQ, TransGen (WaitsFor m.pm) w a := by
  obtain ⟨⟨lost,table⟩,wakes⟩ := runWakes run
  obtain ⟨-,forest⟩ := runForest (run.weaken (fun _ _ both => both.1) (fun _ begun => begun))
  refine ⟨fun w circle => ?_,fun w waiting => forest.settles table.sound wakes waiting⟩
  obtain ⟨age,older⟩ := forest
  exact Ranks.noCycle (fun w a waits => older a w (waits.child table.sound)) w circle
end

-- init waits for the child it has spawned.
def demoPark : Request := ⟨50,⟨.wait,51,0,0⟩,[],0,0,0,0,0,true,0,0,0⟩
def demoParked : Machine := ((step demoSpawned demoPark).get (by rfl)).1

theorem waitsLeadDownToChild : ∃ history, Reaches step (fun m r => Possible m r ∧ Answerable m r) Begun demoParked history ∧
    ∃ a ∈ demoParked.pm.taskQ, TransGen (WaitsFor demoParked.pm) 60 a := by
  obtain ⟨history,run⟩ := demoParent
  have wait : Possible demoSpawned demoPark := ⟨⟨60,⟨50,[],0,0,70⟩,by decide,rfl,rfl⟩,trivial⟩
  have answerable : Answerable demoSpawned demoPark := by
    rintro - c t ⟨task,there,pid⟩
    have sender : c = 60 := by
      rcases List.mem_cons.mp (show c ∈ [60,61] from task) with rfl | child
      · rfl
      · cases List.mem_singleton.mp child
        have own : demoSpawned.pm.record 61 = some ⟨51,[],0,60,71⟩ := rfl
        cases Option.some.inj (own.symm.trans there)
        exact absurd pid (by decide)
    subst sender
    exact .inr (.inl ⟨61,by decide,⟨51,[],0,60,71⟩,rfl,rfl,.inl rfl⟩)
  obtain ⟨out,taken⟩ := stepTaken demoSpawned demoPark (by rfl)
  have later := Reaches.next run ⟨wait,answerable⟩ taken
  exact ⟨_,later,(waitsLeadDown later).2 60 (by decide)⟩

end Avros.Pm
