import Mathlib.Data.List.Pairwise
import Mathlib.Data.List.Perm.Subperm
import Avros.ProcessTurns
import Avros.Run

/-! The process table over whole runs of PM: where each record is linked, whom it calls
its parent, and that PM never reads through a record it has freed. The kernel's tasks and
the allocator's blocks are followed along: what createtask and kmalloc hand out is not
handed out already. -/
namespace Avros.Pm
open Queue Run

def linked (s : Tables) : List Addr := s.taskQ ++ s.waitQ ++ s.zombieQ

def pidOf (s : Tables) (a : Addr) : Pid := ((s.record a).map (·.pid)).getD 0

def live (s : Tables) : List Pid := (s.taskQ ++ s.waitQ).map (pidOf s)

def holding (s : Tables) (a : Addr) : List Addr :=
  a::(((s.record a).map belongings).getD []).filter (· ≠ 0)

def owned (s : Tables) : List Addr := (linked s).flatMap (holding s)

/- What changed from s to s': the pids of new and of vanished tasks, and the blocks that
came and went. -/
structure Changes (s s' : Tables) (born died : List Pid) (got lost : List Addr) : Prop where
  sound : Sound s'
  pids : (died ++ live s').Perm (born ++ live s)
  memory : (lost ++ owned s').Perm (got ++ owned s)

theorem Changes.trans {s s' s'' : Tables} {born born' died died' : List Pid} {got got' lost lost' : List Addr}
    (first : Changes s s' born died got lost) (second : Changes s' s'' born' died' got' lost') :
    Changes s s'' (born ++ born') (died ++ died') (got ++ got') (lost ++ lost') where
  sound := second.sound
  pids := by
    rw [List.perm_iff_count]
    intro p
    have one := first.pids.count_eq p
    have two := second.pids.count_eq p
    simp only [List.count_append] at one two ⊢
    omega
  memory := by
    rw [List.perm_iff_count]
    intro p
    have one := first.memory.count_eq p
    have two := second.memory.count_eq p
    simp only [List.count_append] at one two ⊢
    omega

section
variable {s : Tables} {c : Addr} {t u : PmTask} {rest : List Addr}

theorem Sound.alive (sound : Sound s) (task : c ∈ s.taskQ ++ s.waitQ) : c ∉ s.zombieQ :=
  fun zombie => sound.zombieApart task zombie rfl

theorem updateIsSome (there : s.record c = some t) (a : Addr) :
    ((update s c u).record a).isSome = (s.record a).isSome := by
  by_cases same : a = c
  · subst same
    simp [there]
  · rw [updateAway u same]

theorem Sound.updated (sound : Sound s) (task : c ∈ s.taskQ ++ s.waitQ) (there : s.record c = some t)
    (parent : u.parent = t.parent) : Sound (update s c u) where
  null := by
    have real := sound.real (List.mem_append_left _ task)
    rw [updateAway u (Ne.symm real),sound.null]
  once := by
    intro a
    rw [updateIsSome there]
    exact sound.once a
  parents := by
    intro a v new
    by_cases same : a = c
    · subst same
      cases Option.some.inj ((updateAt s a u).symm.trans new)
      rw [parent]
      exact sound.parents a t there
    · rw [updateAway u same] at new
      exact sound.parents a v new
  others := by
    intro a v new
    by_cases same : a = c
    · subst same
      cases Option.some.inj ((updateAt s a u).symm.trans new)
      rw [parent]
      exact sound.others a t there
    · rw [updateAway u same] at new
      exact sound.others a v new
  zombies := by
    intro z zombie v new
    rw [updateAway u (sound.zombieApart task zombie)] at new
    exact sound.zombies z zombie v new

theorem Sound.requeued {T W : List Addr} (sound : Sound s) (same : (T ++ W).Perm (s.taskQ ++ s.waitQ)) :
    Sound { s with taskQ := T, waitQ := W } where
  null := sound.null
  once := by
    intro a
    rw [List.count_append,same.count_eq,← List.count_append]
    exact sound.once a
  parents := by
    intro a v there
    rw [same.mem_iff]
    exact sound.parents a v there
  others := sound.others
  zombies := sound.zombies

theorem Sound.unused (sound : Sound s) {a b : Addr} (free : s.record a = none) (member : b ∈ linked s) : b ≠ a := by
  intro same
  obtain ⟨v,there⟩ := sound.known member
  rw [same,free] at there
  contradiction

theorem Sound.joined {a : Addr} (sound : Sound s) (real : a ≠ 0) (free : s.record a = none)
    (parent : u.parent = 0 ∨ u.parent ∈ s.taskQ ++ s.waitQ) :
    Sound { update s a u with taskQ := s.taskQ ++ [a] } where
  null := (updateAway u (Ne.symm real)).trans sound.null
  once := by
    intro b
    have before := sound.once b
    simp only [update,withRecord,Function.update_apply,List.count_append,List.count_singleton] at before ⊢
    by_cases same : b = a
    · subst same
      simp only [free] at before
      simp at before ⊢
      omega
    · simp only [same,if_false,beq_eq_false_iff_ne.mpr (Ne.symm same),Bool.false_eq_true]
      omega
  parents := by
    intro b v there
    have grown : ∀ p, p ∈ s.taskQ ++ s.waitQ → p ∈ (s.taskQ ++ [a]) ++ s.waitQ := by
      intro p member
      rcases List.mem_append.mp member with member | member <;> simp [member]
    by_cases same : b = a
    · subst same
      cases Option.some.inj ((updateAt s b u).symm.trans there)
      exact parent.imp_right (grown _)
    · exact (sound.parents b v ((updateAway u same).symm.trans there)).imp_right (grown _)
  others := by
    intro b v there
    by_cases same : b = a
    · subst same
      cases Option.some.inj ((updateAt s b u).symm.trans there)
      rcases parent with zero | member
      · exact fun self => real (self ▸ zero)
      · exact sound.unused free (List.mem_append_left _ member)
    · exact sound.others b v ((updateAway u same).symm.trans there)
  zombies := by
    intro z zombie v there
    have other := sound.unused free (List.mem_append_right _ zombie)
    exact sound.zombies z zombie v ((updateAway u other).symm.trans there)

def Childless (s : Tables) (c : Addr) : Prop := ∀ a t, s.record a = some t → t.parent ≠ c

theorem Sound.left (sound : Sound s) (front : s.taskQ = c::rest) (childless : Childless s c) :
    Sound { s with taskQ := rest, record := Function.update s.record c none } where
  null := by
    simp only [Function.update_apply]
    split
    · rfl
    · exact sound.null
  once := by
    intro a
    have before := sound.once a
    rw [front] at before
    simp only [List.cons_append,List.count_cons] at before
    by_cases same : a = c
    · subst same
      simp only [beq_self_eq_true,if_true,List.count_append] at before
      simp only [Function.update_self,Option.isSome_none,Bool.false_eq_true,if_false,List.count_append]
      split at before <;> omega
    · simp only [beq_eq_false_iff_ne.mpr (Ne.symm same),Bool.false_eq_true,if_false,Nat.add_zero] at before
      simpa [same] using before
  parents := by
    intro a t there
    by_cases same : a = c
    · simp [same] at there
    · simp only [Function.update_of_ne same] at there
      rcases sound.parents a t there with zero | member
      · exact .inl zero
      · rw [front,List.cons_append,List.mem_cons] at member
        exact .inr (member.resolve_left (childless a t there))
  others := by
    intro a t there
    by_cases same : a = c
    · simp [same] at there
    · exact sound.others a t (by simpa [same] using there)
  zombies := by
    intro z zombie t there
    by_cases same : z = c
    · simp [same] at there
    · exact sound.zombies z zombie t (by simpa [same] using there)

theorem Sound.buried (sound : Sound s) (front : s.taskQ = c::rest) (childless : Childless s c)
    (there : s.record c = some t) (parent : t.parent ≠ 0) (chunks : t.chunkQ = []) :
    Sound { s with taskQ := rest, zombieQ := s.zombieQ ++ [c] } where
  null := sound.null
  once := by
    intro a
    have before := sound.once a
    rw [front] at before
    simp only [List.count_append,List.count_cons,List.count_nil] at before ⊢
    omega
  parents := by
    intro a t there
    rcases sound.parents a t there with zero | member
    · exact .inl zero
    · rw [front,List.cons_append,List.mem_cons] at member
      exact .inr (member.resolve_left (childless a t there))
  others := sound.others
  zombies := by
    intro z zombie u found
    rcases List.mem_append.mp zombie with old | new
    · exact sound.zombies z old u found
    · cases List.mem_singleton.mp new
      cases Option.some.inj (there.symm.trans found)
      exact ⟨parent,chunks⟩

theorem Sound.reaped {z : Addr} (sound : Sound s) (zombie : z ∈ s.zombieQ) :
    Sound { s with zombieQ := s.zombieQ.erase z, record := Function.update s.record z none } where
  null := by
    simp only [Function.update_apply]
    split
    · rfl
    · exact sound.null
  once := by
    intro a
    have before := sound.once a
    have removed := countRemv (sound.real (List.mem_append_right _ zombie)) zombie a
    rw [qRemv,if_neg (sound.real (List.mem_append_right _ zombie))] at removed
    simp only [List.count_append] at before ⊢
    by_cases same : a = z
    · subst same
      simp only [if_true] at removed
      simp only [Function.update_self,Option.isSome_none,Bool.false_eq_true,if_false]
      split at before <;> omega
    · rw [if_neg (Ne.symm same)] at removed
      simp only [Function.update_of_ne same]
      omega
  parents := by
    intro a t there
    by_cases same : a = z
    · simp [same] at there
    · exact sound.parents a t (by simpa [same] using there)
  others := by
    intro a t there
    by_cases same : a = z
    · simp [same] at there
    · exact sound.others a t (by simpa [same] using there)
  zombies := by
    intro y member t there
    by_cases same : y = z
    · simp [same] at there
    · exact sound.zombies y (List.mem_of_mem_erase member) t (by simpa [same] using there)

theorem bereavedSome {a : Addr} {v : PmTask} (found : (bereaved s c t).record a = some v) :
    (a = c ∧ v = { t with chunkQ := [] }) ∨
      a ≠ c ∧ ∃ u, s.record a = some u ∧ v = orphanOf c u ∧ ¬(a ∈ s.zombieQ ∧ childOf s c a = true) := by
  simp only [bereaved] at found
  split at found <;> try contradiction
  rename_i stays
  split at found
  · rename_i same
    exact .inl ⟨same,(Option.some.inj found).symm⟩
  · rename_i other
    obtain ⟨u,there,new⟩ := Option.map_eq_some_iff.mp found
    exact .inr ⟨other,u,there,new.symm,stays⟩

theorem orphanParent (c : Addr) (u : PmTask) : (orphanOf c u).parent = if u.parent = c then 0 else u.parent := by
  unfold orphanOf
  split <;> rfl

theorem bereavedChildless (sound : Sound s) (front : s.taskQ = c::rest) (there : s.record c = some t) :
    Childless (bereaved s c t) c := by
  intro a v found
  rcases bereavedSome found with ⟨same,rfl⟩ | ⟨other,u,old,rfl,stays⟩
  · exact sound.others c t there
  · rw [orphanParent]
    split
    · exact Ne.symm (sound.real (by simp [front]))
    · assumption

theorem Sound.bereaved (sound : Sound s) (front : s.taskQ = c::rest) (there : s.record c = some t) :
    Sound (bereaved s c t) where
  null := bereavedPlain there sound.null
  once := by
    intro a
    have before := sound.once a
    rw [List.count_append,List.count_append] at before
    change (s.taskQ ++ s.waitQ ++ s.zombieQ.filter (fun z => !childOf s c z)).count a =
      if ((Pm.bereaved s c t).record a).isSome then 1 else 0
    rw [List.count_append,List.count_append]
    by_cases gone : a ∈ s.zombieQ ∧ childOf s c a = true
    · have positive := List.count_pos_iff.mpr gone.1
      have filtered : (s.zombieQ.filter (fun z => !childOf s c z)).count a = 0 := by
        rw [List.count_eq_zero]
        simp [gone.2]
      have freed : (Pm.bereaved s c t).record a = none := by simp [Pm.bereaved,gone]
      simp only [freed,filtered,Option.isSome_none,Bool.false_eq_true,if_false]
      split at before <;> omega
    · have filtered : (s.zombieQ.filter (fun z => !childOf s c z)).count a = s.zombieQ.count a := by
        by_cases zombie : a ∈ s.zombieQ
        · have stranger : childOf s c a = false := by simpa [zombie] using gone
          exact List.count_filter (by simp [stranger])
        · rw [List.count_eq_zero.mpr zombie,List.count_eq_zero]
          exact fun member => zombie (List.mem_of_mem_filter member)
      have kept : ((Pm.bereaved s c t).record a).isSome = (s.record a).isSome := by
        by_cases same : a = c
        · subst same
          rw [bereavedClient sound front,there]
          rfl
        · simp [Pm.bereaved,gone,same]
      rw [filtered,kept]
      exact before
  parents := by
    intro a v found
    rcases bereavedSome found with ⟨same,rfl⟩ | ⟨other,u,old,rfl,stays⟩
    · exact sound.parents c t there
    · rw [orphanParent]
      split
      · exact .inl rfl
      · exact sound.parents a u old
  others := by
    intro a v found
    rcases bereavedSome found with ⟨rfl,rfl⟩ | ⟨other,u,old,rfl,stays⟩
    · exact sound.others a t there
    · rw [orphanParent]
      split
      · exact Ne.symm (sound.real (sound.queued old))
      · exact sound.others a u old
  zombies := by
    intro z member v found
    obtain ⟨zombie,stranger⟩ := List.mem_filter.mp member
    rcases bereavedSome found with ⟨rfl,rfl⟩ | ⟨other,u,old,rfl,stays⟩
    · exact absurd zombie (sound.alive (by simp [front]))
    · have apart : u.parent ≠ c := fun child => stays ⟨zombie,childOfTrue.mpr ⟨u,old,child⟩⟩
      rw [orphanSelf apart]
      exact sound.zombies z zombie u old

def estate (t : PmTask) : List Addr := (belongings t).filter (· ≠ 0)

theorem holdingSome {a : Addr} (there : s.record a = some t) : holding s a = a::estate t := by
  simp [holding,there,estate]

theorem holdingSame {s' : Tables} {a : Addr} (same : s'.record a = s.record a) : holding s' a = holding s a := by
  simp [holding,same]

theorem pidSome {a : Addr} (there : s.record a = some t) : pidOf s a = t.pid := by
  simp [pidOf,there]

theorem Changes.still (sound : Sound s) : Changes s s [] [] [] [] := ⟨sound,.refl _,.refl _⟩

theorem Changes.requeued {T W : List Addr} (sound : Sound s) (same : (T ++ W).Perm (s.taskQ ++ s.waitQ)) :
    Changes s { s with taskQ := T, waitQ := W } [] [] [] [] where
  sound := sound.requeued same
  pids := same.map (pidOf s)
  memory := (same.append_right s.zombieQ).flatMap_right (holding s)

theorem Changes.updated {got lost : List Addr} (sound : Sound s) (task : c ∈ s.taskQ ++ s.waitQ)
    (there : s.record c = some t) (parent : u.parent = t.parent) (pid : u.pid = t.pid)
    (estates : (lost ++ estate u).Perm (got ++ estate t)) : Changes s (update s c u) [] [] got lost where
  sound := sound.updated task there parent
  pids := by
    have same : live (update s c u) = live s := by
      apply List.map_congr_left
      intro a _
      by_cases self : a = c
      · subst self
        rw [pidSome (updateAt s a u),pidSome there,pid]
      · simp only [pidOf,updateAway u self]
    rw [same]
  memory := by
    have member : c ∈ linked s := List.mem_append_left _ task
    have before : (owned s).Perm ((c::estate t) ++ ((linked s).erase c).flatMap (holding s)) := by
      have split := (List.perm_cons_erase member).flatMap_right (holding s)
      rwa [List.flatMap_cons,holdingSome there] at split
    have after : (owned (update s c u)).Perm ((c::estate u) ++ ((linked s).erase c).flatMap (holding s)) := by
      have split := (List.perm_cons_erase member).flatMap_right (holding (update s c u))
      have others : ((linked s).erase c).flatMap (holding (update s c u)) =
          ((linked s).erase c).flatMap (holding s) := by
        apply List.flatMap_congr
        intro a other
        exact holdingSame (updateAway u (sound.unique.mem_erase_iff.mp other).1)
      rwa [List.flatMap_cons,holdingSome (updateAt s c u),others] at split
    rw [List.perm_iff_count] at before after estates ⊢
    intro p
    have one := before p
    have two := after p
    have three := estates p
    simp only [List.count_append,List.count_cons] at one two three ⊢
    omega

theorem Changes.joined {a : Addr} (sound : Sound s) (real : a ≠ 0) (free : s.record a = none)
    (parent : u.parent = 0 ∨ u.parent ∈ s.taskQ ++ s.waitQ) :
    Changes s { update s a u with taskQ := s.taskQ ++ [a] } [u.pid] [] (a::estate u) [] where
  sound := sound.joined real free parent
  pids := by
    have same : (s.taskQ ++ s.waitQ).map (pidOf (update s a u)) = live s := by
      apply List.map_congr_left
      intro b member
      simp only [pidOf,updateAway u (sound.unused free (List.mem_append_left _ member))]
    have queue : ((s.taskQ ++ [a]) ++ s.waitQ).Perm (a::(s.taskQ ++ s.waitQ)) := by
      rw [List.append_assoc]
      exact List.perm_middle
    have pids := queue.map (pidOf (update s a u))
    rw [List.map_cons,same,pidSome (updateAt s a u)] at pids
    exact pids
  memory := by
    have same : (linked s).flatMap (holding (update s a u)) = owned s := by
      apply List.flatMap_congr
      intro b member
      exact holdingSame (updateAway u (sound.unused free member))
    have queue : ((s.taskQ ++ [a]) ++ s.waitQ ++ s.zombieQ).Perm (a::linked s) := by
      simp only [linked,List.append_assoc]
      exact List.perm_middle
    have blocks := queue.flatMap_right (holding (update s a u))
    rw [List.flatMap_cons,holdingSome (updateAt s a u),same] at blocks
    exact blocks

def freed (s : Tables) (a : Addr) : Tables := withRecord s (Function.update s.record a none)

theorem freedPids {others : List Addr} {a : Addr} (away : ∀ b ∈ others, b ≠ a) :
    others.map (pidOf (freed s a)) = others.map (pidOf s) := by
  apply List.map_congr_left
  intro b member
  simp [pidOf,freed,withRecord,away b member]

theorem freedHolding {others : List Addr} {a : Addr} (away : ∀ b ∈ others, b ≠ a) :
    others.flatMap (holding (freed s a)) = others.flatMap (holding s) := by
  apply List.flatMap_congr
  intro b member
  exact holdingSame (Function.update_of_ne (away b member) _ _)

theorem Sound.behind (sound : Sound s) (front : s.taskQ = c::rest) : ∀ a ∈ rest ++ s.waitQ ++ s.zombieQ, a ≠ c := by
  have unique := sound.unique
  rw [front,List.cons_append,List.cons_append,List.nodup_cons] at unique
  intro a member same
  exact unique.1 (same ▸ member)

theorem liveFront (front : s.taskQ = c::rest) (there : s.record c = some t) :
    live s = t.pid::(rest ++ s.waitQ).map (pidOf s) := by
  rw [live,front,List.cons_append,List.map_cons,pidSome there]

theorem ownedFront (front : s.taskQ = c::rest) (there : s.record c = some t) :
    owned s = (c::estate t) ++ (rest ++ s.waitQ ++ s.zombieQ).flatMap (holding s) := by
  rw [owned,linked,front,List.cons_append,List.cons_append,List.flatMap_cons,holdingSome there]

theorem Changes.left (sound : Sound s) (front : s.taskQ = c::rest) (there : s.record c = some t)
    (childless : Childless s c) :
    Changes s { s with taskQ := rest, record := Function.update s.record c none } [] [t.pid] [] (c::estate t) where
  sound := sound.left front childless
  pids := by
    have after := freedPids (s := s) (fun a member => sound.behind front a (List.mem_append_left _ member))
    rw [liveFront front there,← after]
    exact .refl _
  memory := by
    have after := freedHolding (s := s) (sound.behind front)
    rw [ownedFront front there,← after]
    exact .refl _

theorem Changes.buried (sound : Sound s) (front : s.taskQ = c::rest) (there : s.record c = some t)
    (childless : Childless s c) (parent : t.parent ≠ 0) (chunks : t.chunkQ = []) :
    Changes s { s with taskQ := rest, zombieQ := s.zombieQ ++ [c] } [] [t.pid] [] [] where
  sound := sound.buried front childless there parent chunks
  pids := by
    rw [liveFront front there]
    exact .refl _
  memory := by
    have queue : (rest ++ s.waitQ ++ (s.zombieQ ++ [c])).Perm (linked s) := by
      rw [linked,front,← List.append_assoc,List.cons_append,List.cons_append]
      exact List.perm_append_singleton _ _
    exact queue.flatMap_right (holding s)

theorem Changes.reaped {z : Addr} (sound : Sound s) (zombie : z ∈ s.zombieQ) (there : s.record z = some t) :
    Changes s { s with zombieQ := s.zombieQ.erase z, record := Function.update s.record z none } [] [] []
      (z::estate t) where
  sound := sound.reaped zombie
  pids := by
    have after := freedPids (s := s) (fun a member => Ne.symm (sound.zombieApart member zombie))
    change (([] : List Pid) ++ (s.taskQ ++ s.waitQ).map (pidOf (freed s z))).Perm ([] ++ live s)
    rw [after]
    exact .refl _
  memory := by
    have queue : (linked s).Perm (z::(s.taskQ ++ s.waitQ ++ s.zombieQ.erase z)) := by
      rw [linked]
      exact ((List.perm_cons_erase zombie).append_left _).trans List.perm_middle
    have unique := List.nodup_cons.mp (queue.nodup_iff.mp sound.unique)
    have away : ∀ a ∈ s.taskQ ++ s.waitQ ++ s.zombieQ.erase z, a ≠ z := by
      rintro a member rfl
      exact unique.1 member
    have after := freedHolding (s := s) away
    have before := queue.flatMap_right (holding s)
    rw [List.flatMap_cons,holdingSome there,← after] at before
    exact before.symm

def chunksOf (t : PmTask) : List Addr := (t.chunkQ.flatMap (fun k => [k.ptr,k.self])).filter (· ≠ 0)

theorem estateSplit (t : PmTask) : (chunksOf t ++ estate { t with chunkQ := [] }).Perm (estate t) := by
  simp only [chunksOf,estate,belongings,List.flatMap_nil]
  by_cases null : t.args = 0
  · simp [null]
  · simp [null,List.perm_append_singleton]

theorem bereavedHolding {a : Addr} (other : a ≠ c) (stays : ¬(a ∈ s.zombieQ ∧ childOf s c a = true)) :
    holding (bereaved s c t) a = holding s a := by
  simp only [holding,bereaved,if_neg stays,if_neg other]
  cases s.record a <;> simp [belongings]

theorem Changes.bereaved (sound : Sound s) (front : s.taskQ = c::rest) (there : s.record c = some t) :
    Changes s (bereaved s c t) [] [] []
      (chunksOf t ++ (s.zombieQ.filter (childOf s c)).flatMap (holding s)) where
  sound := sound.bereaved front there
  pids := by
    have same : live (Pm.bereaved s c t) = live s := by
      apply List.map_congr_left
      intro a member
      obtain ⟨u,old⟩ := sound.known (List.mem_append_left _ member)
      by_cases self : a = c
      · subst self
        rw [pidSome there,pidSome (bereavedClient sound front)]
      · rw [pidSome old,pidSome (bereavedLive sound self member old),orphanPid]
    rw [same]
  memory := by
    let kept := s.zombieQ.filter (fun z => !childOf s c z)
    have queue : (linked s).Perm (s.zombieQ.filter (childOf s c) ++ (s.taskQ ++ s.waitQ ++ kept)) := by
      have split : s.zombieQ.Perm (s.zombieQ.filter (childOf s c) ++ kept) :=
        (List.filter_append_perm (childOf s c) s.zombieQ).symm
      refine (split.append_left _).trans ?_
      rw [← List.append_assoc,← List.append_assoc]
      exact (List.perm_append_comm).append_right _
    have before := queue.flatMap_right (holding s)
    have after : owned (Pm.bereaved s c t) =
        (c::estate { t with chunkQ := [] }) ++ (rest ++ s.waitQ ++ kept).flatMap (holding s) := by
      rw [ownedFront (s := Pm.bereaved s c t) front (bereavedClient sound front)]
      refine congrArg _ (List.flatMap_congr ?_)
      intro a member
      have stays : ¬(a ∈ s.zombieQ ∧ childOf s c a = true) := by
        rintro ⟨zombie,child⟩
        rcases List.mem_append.mp member with task | zombie'
        · exact sound.zombieApart (by rw [front]; exact List.mem_cons_of_mem _ task) zombie rfl
        · simpa [child] using (List.mem_filter.mp zombie').2
      refine bereavedHolding (sound.behind front a ?_) stays
      rcases List.mem_append.mp member with task | zombie
      · exact List.mem_append_left _ task
      · exact List.mem_append_right _ (List.mem_of_mem_filter zombie)
    rw [front,List.flatMap_append,List.cons_append,List.cons_append,List.flatMap_cons,holdingSome there] at before
    rw [after,List.perm_iff_count]
    intro p
    have one := before.count_eq p
    have two := (estateSplit t).count_eq p
    simp only [owned,List.count_append,List.count_cons,List.count_nil] at one two ⊢
    omega
end

-- createtask and kmalloc answer NULL when they fail.
def created (calls : List Call) : List Pid :=
  (calls.filterMap (fun | .createtask p => some p | _ => none)).filter (· ≠ 0)
def deleted (calls : List Call) : List Pid := calls.filterMap (fun | .deletetask p => some p | _ => none)
def allocated (calls : List Call) : List Addr :=
  (calls.filterMap (fun | .kmalloc _ p => some p | _ => none)).filter (· ≠ 0)
-- kfree(NULL) does nothing.
def released (calls : List Call) : List Addr :=
  (calls.filterMap (fun | .kfree p => some p | _ => none)).filter (· ≠ 0)

@[simp] theorem createdAppend (calls more : List Call) : created (calls ++ more) = created calls ++ created more := by
  simp [created]
@[simp] theorem deletedAppend (calls more : List Call) : deleted (calls ++ more) = deleted calls ++ deleted more := by
  simp [deleted]
@[simp] theorem allocatedAppend (calls more : List Call) :
    allocated (calls ++ more) = allocated calls ++ allocated more := by
  simp [allocated]
@[simp] theorem releasedAppend (calls more : List Call) : released (calls ++ more) = released calls ++ released more := by
  simp [released]

def OnlyFrees (calls : List Call) : Prop := ∀ k ∈ calls, ∃ p, k = .kfree p

theorem OnlyFrees.created {calls : List Call} (only : OnlyFrees calls) : created calls = [] := by
  refine List.filter_eq_nil_iff.mpr (fun p member => ?_)
  obtain ⟨k,called,same⟩ := List.mem_filterMap.mp member
  obtain ⟨q,rfl⟩ := only k called
  contradiction

theorem OnlyFrees.deleted {calls : List Call} (only : OnlyFrees calls) : deleted calls = [] := by
  refine List.filterMap_eq_nil_iff.mpr ?_
  intro k member
  obtain ⟨p,rfl⟩ := only k member
  rfl

theorem OnlyFrees.allocated {calls : List Call} (only : OnlyFrees calls) : allocated calls = [] := by
  refine List.filter_eq_nil_iff.mpr (fun p member => ?_)
  obtain ⟨k,called,same⟩ := List.mem_filterMap.mp member
  obtain ⟨q,rfl⟩ := only k called
  contradiction

theorem chunkFreesOnly (chunks : List MemChunk) : OnlyFrees (chunkFrees chunks) := by
  intro k member
  obtain ⟨chunk,-,called⟩ := List.mem_flatMap.mp member
  by_cases null : chunk.ptr = 0
  · exact ⟨chunk.self,by simpa [null] using called⟩
  · rcases (by simpa [null] using called : k = .kfree chunk.ptr ∨ k = .kfree chunk.self) with same | same
    · exact ⟨_,same⟩
    · exact ⟨_,same⟩

theorem chunkFreesReleased (t : PmTask) : released (chunkFrees t.chunkQ) = chunksOf t := by
  unfold chunksOf
  induction t.chunkQ with
  | nil => rfl
  | cons chunk rest ih =>
    have split : chunkFrees (chunk::rest) = chunkFrees [chunk] ++ chunkFrees rest := by simp [chunkFrees]
    rw [split,releasedAppend,ih,List.flatMap_cons,List.filter_append]
    refine congrArg (· ++ _) ?_
    by_cases null : chunk.ptr = 0 <;> simp [chunkFrees,released,null]

section
variable {s : Tables} {c : Addr} {t : PmTask} {rest : List Addr} {r : Request}

theorem reapCallsOnly (que : List Addr) : OnlyFrees (reapCalls s c que) := by
  intro k member
  obtain ⟨z,-,called⟩ := List.mem_flatMap.mp member
  rcases (by simpa using called : k = .kfree (argsOf s z) ∨ k = .kfree z) with same | same
  · exact ⟨_,same⟩
  · exact ⟨_,same⟩

theorem reapCallsReleased (sound : Sound s) :
    (released (reapCalls s c s.zombieQ)).Perm ((s.zombieQ.filter (childOf s c)).flatMap (holding s)) := by
  have each : ∀ z ∈ s.zombieQ.filter (childOf s c), z ≠ 0 ∧ holding s z = z::[argsOf s z].filter (· ≠ 0) := by
    intro z member
    have zombie := List.mem_of_mem_filter member
    obtain ⟨u,there⟩ := sound.known (List.mem_append_right _ zombie)
    have chunks := (sound.zombies z zombie u there).2
    refine ⟨sound.real (List.mem_append_right _ zombie),?_⟩
    rw [holdingSome there]
    simp [estate,belongings,chunks,argsOf,there]
  unfold reapCalls
  generalize s.zombieQ.filter (childOf s c) = children at each ⊢
  induction children with
  | nil => exact .refl _
  | cons z rest ih =>
    obtain ⟨real,holds⟩ := each z List.mem_cons_self
    rw [List.flatMap_cons,releasedAppend,List.flatMap_cons,holds]
    refine List.Perm.append ?_ (ih (fun y member => each y (List.mem_cons_of_mem _ member)))
    by_cases null : argsOf s z = 0
    · simp [released,null,real]
    · simpa [released,null,real] using List.Perm.swap z (argsOf s z) []

theorem setupCallsChanged (r : Request) (t : PmTask) (n : Nat) (p : Addr) (argv : List (List Nat)) :
    created (setupCalls r t n p argv) = [] ∧ deleted (setupCalls r t n p argv) = [] ∧
      allocated (setupCalls r t n p argv) = [r.args].filter (· ≠ 0) ∧
      (released (setupCalls r t n p argv)).Perm (estate t) := by
  have chunks := chunkFreesOnly t.chunkQ
  have args : OnlyFrees (if t.args ≠ 0 then [.kfree t.args] else []) := by
    intro k member
    split at member
    · exact ⟨t.args,List.mem_singleton.mp member⟩
    · contradiction
  unfold setupCalls
  refine ⟨?_,?_,?_,?_⟩
  · simp only [createdAppend,chunks.created,args.created]
    rfl
  · simp only [deletedAppend,chunks.deleted,args.deleted]
    rfl
  · simp only [allocatedAppend,chunks.allocated,args.allocated]
    simp [allocated]
  · have last : released (if t.args ≠ 0 then [.kfree t.args] else []) = estate { t with chunkQ := [] } := by
      by_cases null : t.args = 0 <;> simp [null,released,estate,belongings]
    refine List.Perm.trans ?_ (estateSplit t)
    simp only [releasedAppend,chunkFreesReleased,last]
    rw [show released [.kmalloc (pmArgstackSize argv) r.args,.wrote (cookArgstack r.args argv),.stoptask t.pid] = []
      from rfl,show released [.allocatestack t.pid n r.stack,.setuptask t.pid p r.args] = [] from rfl,
      List.nil_append,List.append_nil]

theorem leaveCallsChanged (sound : Sound s) :
    created (leaveCalls s c t) = [] ∧ deleted (leaveCalls s c t) = [t.pid] ∧ allocated (leaveCalls s c t) = [] ∧
      (released (leaveCalls s c t)).Perm (chunksOf t ++ (s.zombieQ.filter (childOf s c)).flatMap (holding s)) := by
  have chunks := chunkFreesOnly t.chunkQ
  have reap := reapCallsOnly (s := s) (c := c) s.zombieQ
  unfold leaveCalls
  refine ⟨?_,?_,?_,?_⟩
  · simp only [createdAppend,chunks.created,reap.created]
    rfl
  · simp only [deletedAppend,chunks.deleted,reap.deleted]
    rfl
  · simp only [allocatedAppend,chunks.allocated,reap.allocated]
    rfl
  · simp only [releasedAppend,chunkFreesReleased]
    refine List.Perm.append ?_ (reapCallsReleased sound)
    rw [show released [.stoptask t.pid,.deletetask t.pid,.vfsDeletetask t.pid] = [] from rfl,List.append_nil]

-- A task do_spawn has created and could not make a record for.
def abandoned (r : Request) : List Pid :=
  if r.msg.cmd = .spawn ∧ r.task ≠ 0 ∧ r.record = 0 then [r.task] else []

def Accounted (s : Tables) (r : Request) (s' : Tables) (calls : List Call) : Prop :=
  Changes s s' (created calls) (deleted calls ++ abandoned r) (allocated calls) (released calls)

theorem Changes.accounted {s' : Tables} {calls : List Call} {born died : List Pid} {got lost : List Addr}
    (changes : Changes s s' born died got lost) (kept : abandoned r = []) (new : created calls = born)
    (old : deleted calls = died) (came : (allocated calls).Perm got) (went : (released calls).Perm lost) :
    Accounted s r s' calls where
  sound := changes.sound
  pids := by
    rw [new,old,kept,List.append_nil]
    exact changes.pids
  memory := (went.append_right _).trans (changes.memory.trans (came.append_right _).symm)

theorem Changes.reworded (sound : Sound s) (task : c ∈ s.taskQ ++ s.waitQ) (there : s.record c = some t) (w : Nat) :
    Changes s (update s c { t with word := w }) [] [] [] [] :=
  Changes.updated (u := { t with word := w }) sound task there rfl rfl (.refl ([] ++ estate t))

theorem recordFrees {a : Addr} (real : a ≠ 0) (chunks : t.chunkQ = []) :
    (released [.kfree t.args,.kfree a]).Perm (a::estate t) := by
  by_cases null : t.args = 0
  · simp [released,estate,belongings,chunks,null,real]
  · simpa [released,estate,belongings,chunks,null,real] using List.Perm.swap a t.args []

theorem leaveCallsFree (told : List Call) (sound : Sound s) (real : c ≠ 0)
    (quiet : created told = [] ∧ deleted told = [] ∧ allocated told = [] ∧ released told = []) :
    created (leaveCalls s c t ++ .kfree t.args::.kfree c::told) = [] ∧
      deleted (leaveCalls s c t ++ .kfree t.args::.kfree c::told) = [t.pid] ∧
      allocated (leaveCalls s c t ++ .kfree t.args::.kfree c::told) = [] ∧
      (released (leaveCalls s c t ++ .kfree t.args::.kfree c::told)).Perm
        (chunksOf t ++ (s.zombieQ.filter (childOf s c)).flatMap (holding s) ++ c::estate { t with chunkQ := [] }) := by
  obtain ⟨new,old,came,went⟩ := leaveCallsChanged (c := c) (t := t) sound
  have split : Call.kfree t.args::Call.kfree c::told = [.kfree t.args,.kfree c] ++ told := rfl
  rw [split]
  refine ⟨?_,?_,?_,?_⟩
  · simp only [createdAppend,new,quiet.1]
    rfl
  · simp only [deletedAppend,old,quiet.2.1]
    rfl
  · simp only [allocatedAppend,came,quiet.2.2.1]
    rfl
  · simp only [releasedAppend,quiet.2.2.2,List.append_nil]
    exact went.append (recordFrees (t := { t with chunkQ := [] }) real rfl)

theorem estateGrown {chunk block : Addr} (real : chunk ≠ 0) (full : block ≠ 0) (t : PmTask) :
    ([] ++ estate { t with chunkQ := ⟨chunk,block⟩::t.chunkQ }).Perm ([chunk,block] ++ estate t) := by
  have order : (belongings { t with chunkQ := ⟨chunk,block⟩::t.chunkQ }).Perm (chunk::block::belongings t) := by
    simp only [belongings,List.flatMap_cons,List.cons_append,List.nil_append]
    exact (List.Perm.swap block t.args _).trans
      (((List.Perm.swap chunk t.args _).cons block).trans (List.Perm.swap chunk block _))
  have blocks := order.filter (· ≠ 0)
  rwa [List.filter_cons_of_pos (by simpa using real),List.filter_cons_of_pos (by simpa using full)] at blocks

theorem estateShrunk {k : MemChunk} (member : k ∈ t.chunkQ) :
    ([k.ptr,k.self].filter (· ≠ 0) ++ estate { t with chunkQ := t.chunkQ.erase k }).Perm ([] ++ estate t) := by
  have order : ([k.ptr,k.self] ++ belongings { t with chunkQ := t.chunkQ.erase k }).Perm (belongings t) := by
    have chunks := (List.perm_cons_erase member).flatMap_right (fun k => [k.ptr,k.self])
    rw [List.flatMap_cons] at chunks
    exact List.perm_middle.trans (chunks.symm.cons t.args)
  have blocks := order.filter (· ≠ 0)
  rwa [List.filter_append] at blocks

theorem zombieChildless (sound : Sound s) (front : s.taskQ = c::rest) (there : s.record c = some t) (w : Nat) :
    Childless (update (bereaved s c t) c { t with chunkQ := [], word := w }) c := by
  intro a v found
  by_cases same : a = c
  · subst same
    cases Option.some.inj ((updateAt _ _ _).symm.trans found)
    exact sound.others a t there
  · exact bereavedChildless sound front there a v ((updateAway _ same).symm.trans found)

theorem doesAccounted {s' : Tables} {calls : List Call} (sound : Sound s) (front : s.taskQ = c::rest)
    (there : s.record c = some t) (given : Offers s r) (did : Does s c t rest r s' calls) :
    Accounted s r s' calls := by
  have task : c ∈ s.taskQ ++ s.waitQ := by simp [front]
  have real : c ≠ 0 := sound.real (List.mem_append_left _ task)
  have cleared := Changes.bereaved sound front there
  have left := Changes.left cleared.sound front (bereavedClient sound front) (bereavedChildless sound front there)
  have kept : r.msg.cmd ≠ .spawn → abandoned r = [] := by
    intro other
    simp [abandoned,other]
  cases did with
  | spawned cmd task' record vfs args =>
    simp only [Offers,cmd] at given
    obtain ⟨new,old,came,went⟩ := setupCallsChanged r ⟨r.task,[],0,c,0⟩ r.msg.w1 r.msg.w0 (argvOf r r.msg.w2)
    have joined := Changes.joined (u := ⟨r.task,[],0,c,r.args⟩) sound record given (.inr task)
    refine joined.accounted ?_ ?_ ?_ ?_ ?_
    · simp [abandoned,record]
    · simp only [createdAppend,new]
      simp [Pm.created,task']
    · simp only [deletedAppend,old]
      rfl
    · simp only [allocatedAppend,came]
      simp [Pm.allocated,estate,belongings,args,record]
    · simp only [releasedAppend]
      simpa [Pm.released,estate,belongings] using went
  | unknown cmd missing => exact (Changes.still sound).accounted (kept (by simp [cmd])) rfl rfl (.refl _) (.refl _)
  | replaced cmd found args =>
    obtain ⟨new,old,came,went⟩ := setupCallsChanged r t r.prgStack r.prg (argvOf r r.msg.w1)
    have estates : (estate t ++ estate { t with chunkQ := [], args := r.args }).Perm ([r.args] ++ estate t) := by
      simp [estate,belongings,args,List.perm_append_singleton]
    have updated := Changes.updated (u := { t with chunkQ := [], args := r.args }) sound task there rfl rfl estates
    refine updated.accounted (kept (by simp [cmd])) ?_ ?_ ?_ ?_
    · simp only [createdAppend,new]
      rfl
    · simp only [deletedAppend,old]
      rfl
    · simp only [allocatedAppend,came]
      simp [Pm.allocated,args]
    · simp only [releasedAppend]
      simpa [Pm.released] using went
  | orphanLeft cmd orphan =>
    obtain ⟨new,old,came,went⟩ := leaveCallsFree (t := t) [] sound real ⟨rfl,rfl,rfl,rfl⟩
    exact (cleared.trans left).accounted (kept (by simp [cmd])) new old (.of_eq came) went
  | @parentWoken w cmd waiting parent wanted =>
    obtain ⟨new,old,came,went⟩ := leaveCallsFree (t := t)
      [.send w.pid { r.msg with w0 := t.pid, w1 := r.msg.w0 }] sound real ⟨rfl,rfl,rfl,rfl⟩
    have queue : ((rest ++ [t.parent]) ++ s.waitQ.erase t.parent).Perm (rest ++ s.waitQ) := by
      rw [List.append_assoc,List.singleton_append]
      exact (List.perm_cons_erase waiting).symm.append_left rest
    refine ((cleared.trans left).trans (Changes.requeued left.sound queue)).accounted (kept (by simp [cmd])) new old
      (.of_eq came) ?_
    rw [List.append_nil]
    exact went
  | zombieMade cmd child unwanted =>
    obtain ⟨new,old,came,went⟩ := leaveCallsChanged (c := c) (t := t) sound
    have saved := Changes.reworded cleared.sound (front ▸ List.mem_append_left _ List.mem_cons_self)
      (bereavedClient sound front) r.msg.w0
    have buried := Changes.buried saved.sound front (updateAt _ _ _) (zombieChildless sound front there r.msg.w0) child rfl
    refine ((cleared.trans saved).trans buried).accounted (kept (by simp [cmd])) ?_ ?_ ?_ ?_
    · exact new
    · exact old
    · rw [came]
      exact .refl _
    · simpa using went
  | @zombieReported z u cmd first zombie =>
    have member := List.mem_of_find?_eq_some first
    have reworded := Changes.reworded sound task there r.msg.w0
    have reaped := Changes.reaped reworded.sound member
      ((updateAway _ (sound.zombieApart task member)).trans zombie)
    refine (reworded.trans reaped).accounted (kept (by simp [cmd])) rfl rfl (.refl _) ?_
    exact recordFrees (sound.real (List.mem_append_right _ member)) (sound.zombies z member u zombie).2
  | childless cmd unanswered barren =>
    exact (Changes.reworded sound task there r.msg.w0).accounted (kept (by simp [cmd])) rfl rfl (.refl _) (.refl _)
  | blocked cmd unanswered child =>
    have reworded := Changes.reworded sound task there r.msg.w0
    have queue : (rest ++ (s.waitQ ++ [c])).Perm (s.taskQ ++ s.waitQ) := by
      rw [front,← List.append_assoc]
      exact List.perm_append_singleton _ _
    exact (reworded.trans (Changes.requeued reworded.sound queue)).accounted (kept (by simp [cmd])) rfl rfl (.refl _) (.refl _)
  | allocated cmd chunk block =>
    have updated := Changes.updated (u := { t with chunkQ := ⟨r.chunk,r.block⟩::t.chunkQ }) sound task there rfl rfl
      (estateGrown chunk block t)
    refine updated.accounted (kept (by simp [cmd])) rfl rfl ?_ (.refl _)
    simp [Pm.allocated,chunk,block]
  | @released k cmd asked found =>
    have member := List.mem_of_find?_eq_some found
    have updated := Changes.updated (u := { t with chunkQ := t.chunkQ.erase k }) sound task there rfl rfl
      (estateShrunk member)
    exact updated.accounted (kept (by simp [cmd])) rfl rfl (.refl _) (.refl _)
  | foreign cmd absent => exact (Changes.still sound).accounted (kept (by simp [cmd])) rfl rfl (.refl _) (.refl _)
  | ignored cmd => exact (Changes.still sound).accounted (kept (by simp [cmd])) rfl rfl (.refl _) (.refl _)
  | unmade cmd none =>
    by_cases task : r.task = 0
    · have same : abandoned r = [] := by simp [abandoned,task]
      exact (Changes.still sound).accounted same (by simp [Pm.created,task]) (by simp [Pm.deleted,task])
        (by simp [Pm.allocated,task]) (by simp [Pm.released,task])
    · have record := none.resolve_left task
      refine ⟨sound,?_,?_⟩
      · simp [Pm.created,Pm.deleted,abandoned,cmd,task,record]
      · simp [Pm.allocated,Pm.released,task]
  | stillborn cmd task' record failed =>
    simp only [Offers,cmd] at given
    have joined := Changes.joined (u := ⟨r.task,[],0,c,0⟩) sound record given (.inr task)
    have same : abandoned r = [] := by simp [abandoned,record]
    refine joined.accounted same ?_ ?_ ?_ ?_
    · by_cases vfs : r.vfs = false <;> simp [Pm.created,task',vfs]
    · by_cases vfs : r.vfs = false <;> simp [Pm.deleted,vfs]
    · by_cases vfs : r.vfs = false <;> simp [Pm.allocated,vfs,record,estate,belongings]
    · by_cases vfs : r.vfs = false <;> simp [Pm.released,vfs]
  | stuck cmd found failed => exact (Changes.still sound).accounted (kept (by simp [cmd])) rfl rfl (.refl _) (.refl _)
  | denied cmd failed =>
    refine ⟨sound,?_,?_⟩
    · by_cases chunk : r.chunk = 0 <;> simp [Pm.created,Pm.deleted,kept,cmd,chunk]
    · by_cases chunk : r.chunk = 0 <;> simp [Pm.allocated,Pm.released,chunk]
end

/- PM with what the kernel and the allocator have given it and not got back. -/
structure Machine where
  pm : Tables
  tasks : List Pid
  blocks : List Addr

structure Served where
  request : Request
  calls : List Call
  clients : List Addr

def after (m : Machine) (y : Tx) : Machine :=
  ⟨y.pm,(created y.calls ++ m.tasks).diff (deleted y.calls),(allocated y.calls ++ m.blocks).diff (released y.calls)⟩

def step : Step Machine Request Served := fun m r => do
  let y ← serve m.pm r
  some (after m y,[⟨r,y.calls,y.clients⟩])

def Fresh (blocks new : List Addr) : Prop := new.Nodup ∧ ∀ p ∈ new, p ≠ 0 ∧ p ∉ blocks

/- Allocations succeed: createtask answers with a pid no task has, kmalloc with a block
that is not in use. -/
def Granted (m : Machine) (r : Request) : Prop :=
  match r.msg.cmd with
  | .spawn => r.task ≠ 0 ∧ r.task ∉ m.tasks ∧ r.vfs = true ∧ Fresh m.blocks [r.record,r.args]
  | .exec => r.prg = 0 ∨ Fresh m.blocks [r.args]
  | .malloc => Fresh m.blocks [r.chunk,r.block]
  | _ => True

-- The record of a task that can send: its process is in task_q.
def Sender (s : Tables) (pid : Pid) (c : Addr) (t : PmTask) : Prop :=
  c ∈ s.taskQ ∧ s.record c = some t ∧ t.pid = pid

structure Lawful (m : Machine) (r : Request) : Prop where
  sender : ∃ c t, Sender m.pm r.client c t
  granted : Granted m r

/- Any allocation may fail, and answer NULL. -/
def Offered (m : Machine) (r : Request) : Prop :=
  match r.msg.cmd with
  | .spawn => (r.task = 0 ∨ r.task ∉ m.tasks) ∧ Fresh m.blocks ([r.record,r.args].filter (· ≠ 0))
  | .exec => r.prg = 0 ∨ Fresh m.blocks ([r.args].filter (· ≠ 0))
  | .malloc => Fresh m.blocks ([r.chunk,r.block].filter (· ≠ 0))
  | _ => True

structure Possible (m : Machine) (r : Request) : Prop where
  sender : ∃ c t, Sender m.pm r.client c t
  offered : Offered m r

-- `lost` are the tasks PM has created and keeps no record of.
structure Ledger (m : Machine) (lost : List Pid) : Prop where
  sound : Sound m.pm
  tasks : m.tasks.Perm (lost ++ live m.pm)
  distinct : m.tasks.Nodup
  blocks : m.blocks.Perm (owned m.pm)
  separate : m.blocks.Nodup

abbrev Table (m : Machine) : Prop := Ledger m []

section
variable {m : Machine} {lost : List Pid} {s : Tables} {c : Addr} {t : PmTask} {rest : List Addr} {r : Request}

theorem Fresh.all {blocks new : List Addr} (fresh : Fresh blocks new) : new.filter (· ≠ 0) = new :=
  List.filter_eq_self.mpr (fun p member => by simpa using (fresh.2 p member).1)

theorem Lawful.possible (lawful : Lawful m r) : Possible m r := by
  refine ⟨lawful.sender,?_⟩
  have granted := lawful.granted
  unfold Offered
  cases cmd : r.msg.cmd <;> simp only [Granted,cmd] at granted ⊢
  case spawn =>
    obtain ⟨-,task,-,fresh⟩ := granted
    rw [fresh.all]
    exact ⟨.inr task,fresh⟩
  case exec =>
    rcases granted with missing | fresh
    · exact .inl missing
    · rw [fresh.all]
      exact .inr fresh
  case malloc =>
    rw [granted.all]
    exact granted

theorem recordOwned (sound : Sound s) (there : s.record c = some t) : c ∈ owned s :=
  List.mem_flatMap.mpr ⟨c,sound.queued there,List.mem_cons_self⟩

theorem Ledger.unowned (table : Ledger m lost) {p : Addr} (free : p ∉ m.blocks) : m.pm.record p = none := by
  cases there : m.pm.record p with
  | none => rfl
  | some t => exact absurd (table.blocks.mem_iff.mpr (recordOwned table.sound there)) free

theorem Ledger.offers (table : Ledger m lost) (offered : Offered m r) : Offers m.pm r := by
  have given : ∀ (p : Addr) (new : List Addr), Fresh m.blocks (new.filter (· ≠ 0)) → p ∈ new → m.pm.record p = none := by
    intro p new fresh member
    by_cases null : p = 0
    · rw [null]
      exact table.sound.null
    · exact table.unowned (fresh.2 p (List.mem_filter.mpr ⟨member,by simpa using null⟩)).2
  unfold Offers
  cases cmd : r.msg.cmd <;> simp only [Offered,cmd] at offered ⊢
  case spawn => exact given r.record _ offered.2 (by simp)
  case malloc => exact given r.chunk _ offered (by simp)

theorem Ledger.allocates (table : Ledger m lost) (granted : Granted m r) : Allocates m.pm r := by
  unfold Allocates
  cases cmd : r.msg.cmd <;> simp only [Granted,cmd] at granted ⊢
  case spawn =>
    obtain ⟨task,-,vfs,-,fresh⟩ := granted
    obtain ⟨record,free⟩ := fresh r.record (by simp)
    exact ⟨task,vfs,record,table.unowned free,(fresh r.args (by simp)).1⟩
  case exec => exact granted.imp_right (fun fresh => (fresh.2 r.args (by simp)).1)
  case malloc => exact ⟨(granted.2 r.chunk (by simp)).1,(granted.2 r.block (by simp)).1⟩

theorem apartOfOwned (sound : Sound s) (separate : (owned s).Nodup) : Apart s := by
  intro a t there p member
  cases record : s.record p with
  | none => rfl
  | some u =>
    exfalso
    have real : p ≠ 0 := sound.real (sound.queued record)
    have mine : p ∈ estate t := List.mem_filter.mpr ⟨member,by simpa using real⟩
    obtain ⟨each,pairs⟩ := List.nodup_flatMap.mp separate
    by_cases same : p = a
    · subst same
      have nodup := each p (sound.queued there)
      rw [holdingSome there] at nodup
      exact (List.nodup_cons.mp nodup).1 mine
    · have : Std.Symm (Function.onFun List.Disjoint (holding s)) :=
        ⟨fun _ _ apart _ left right => apart right left⟩
      have disjoint := pairs.forall (sound.queued record) (sound.queued there) same
      refine disjoint (a := p) ?_ ?_
      · exact List.mem_cons_self
      · rw [holdingSome there]
        exact List.mem_cons_of_mem _ mine

theorem findSender (queue : List Addr) (known : ∀ a ∈ queue, ∃ u, s.record a = some u) {pid : Pid}
    (member : ∃ c ∈ queue, ∃ t, s.record c = some t ∧ t.pid = pid) :
    ∃ c t, pmFindbypid s pid queue = some c ∧ c ∈ queue ∧ s.record c = some t ∧ t.pid = pid := by
  induction queue with
  | nil => simp at member
  | cons it rest ih =>
    obtain ⟨u,there⟩ := known it List.mem_cons_self
    by_cases same : u.pid = pid
    · exact ⟨it,u,by simp [pmFindbypid,there,same],List.mem_cons_self,there,same⟩
    · obtain ⟨c,inside,t,found,pids⟩ := member
      rcases List.mem_cons.mp inside with rfl | inside
      · cases Option.some.inj (there.symm.trans found)
        contradiction
      · obtain ⟨d,v,search,queued,record,pid⟩ := ih (fun a later => known a (List.mem_cons_of_mem _ later))
          ⟨c,inside,t,found,pids⟩
        exact ⟨d,v,by simp [pmFindbypid,there,same,search],List.mem_cons_of_mem _ queued,record,pid⟩

def attended (s : Tables) (c : Addr) : Tables := { s with taskQ := c::s.taskQ.erase c }

theorem attendedQueue (member : c ∈ s.taskQ) :
    (c::s.taskQ.erase c ++ s.waitQ).Perm (s.taskQ ++ s.waitQ) :=
  (List.perm_cons_erase member).symm.append_right s.waitQ

theorem Ledger.attended (table : Ledger m lost) (member : c ∈ m.pm.taskQ) :
    Changes m.pm (attended m.pm c) [] [] [] [] :=
  Changes.requeued table.sound (attendedQueue member)

theorem serveEnds (table : Ledger m lost) (possible : Possible m r) :
    ∃ c t y n, Sender m.pm r.client c t ∧ serve m.pm r = some y ∧ y.clients = List.replicate n c ∧
      Does (attended m.pm c) c t (m.pm.taskQ.erase c) r y.pm y.calls := by
  obtain ⟨c,t,member,there,pid⟩ := possible.sender
  obtain ⟨c,t,found,member,there,pid⟩ := findSender m.pm.taskQ
    (fun a task => table.sound.known (List.mem_append_left _ (List.mem_append_left _ task))) ⟨c,member,t,there,pid⟩
  have real := table.sound.real (List.mem_append_left _ (List.mem_append_left _ member))
  have front := table.attended member
  have separate : (owned (attended m.pm c)).Nodup :=
    (front.memory.trans table.blocks.symm).nodup_iff.mpr table.separate
  obtain ⟨y,n,ends,clients,did⟩ := dispatchEnds front.sound (apartOfOwned front.sound separate) rfl there
    (table.offers possible.offered)
  refine ⟨c,t,y,n,⟨member,there,pid⟩,?_,clients,did⟩
  have start : received m.pm r c = ⟨attended m.pm c,r.msg,[],[]⟩ := by
    simp [received,attended,qFront,qRemv,real]
  simp only [serve,found,bind,Option.bind_some,start,ends]

theorem Fresh.joins {blocks new : List Addr} (fresh : Fresh blocks new) (separate : blocks.Nodup) :
    (new ++ blocks).Nodup :=
  List.nodup_append.mpr ⟨fresh.1,separate,fun p here _ there same => (fresh.2 p here).2 (same ▸ there)⟩

theorem doesFresh {s' : Tables} {calls : List Call} (table : Ledger m lost) (offered : Offered m r) (sound : Sound s)
    (did : Does s c t rest r s' calls) :
    (created calls ++ m.tasks).Nodup ∧ (allocated calls ++ m.blocks).Nodup := by
  -- Where nothing is created or allocated there is nothing to show.
  have still : ∀ {calls}, created calls = [] → allocated calls = [] →
      (created calls ++ m.tasks).Nodup ∧ (allocated calls ++ m.blocks).Nodup := by
    intro calls new came
    rw [new,came]
    exact ⟨table.distinct,table.separate⟩
  have grows : ∀ {got new : List Addr}, Fresh m.blocks new → got.Sublist new → (got ++ m.blocks).Nodup :=
    fun fresh fewer => (fresh.joins table.separate).sublist (fewer.append_right _)
  obtain ⟨new,old,came,went⟩ := leaveCallsChanged (c := c) (t := t) sound
  cases did with
  | spawned cmd task record vfs args =>
    simp only [Offered,cmd] at offered
    obtain ⟨other,fresh⟩ := offered
    obtain ⟨new,-,came,-⟩ := setupCallsChanged r ⟨r.task,[],0,c,0⟩ r.msg.w1 r.msg.w0 (argvOf r r.msg.w2)
    simp only [createdAppend,allocatedAppend,new,came]
    refine ⟨?_,grows fresh ?_⟩
    · simpa [Pm.created,task] using ⟨other.resolve_left task,table.distinct⟩
    · simp [Pm.allocated,record,args]
  | unmade cmd none =>
    simp only [Offered,cmd] at offered
    refine ⟨?_,grows offered.2 ?_⟩
    · by_cases task : r.task = 0
      · simpa [Pm.created,task] using table.distinct
      · simpa [Pm.created,task] using ⟨offered.1.resolve_left task,table.distinct⟩
    · by_cases task : r.task = 0 <;> simp [Pm.allocated,task]
  | stillborn cmd task record failed =>
    simp only [Offered,cmd] at offered
    refine ⟨?_,grows offered.2 ?_⟩
    · by_cases vfs : r.vfs = false <;>
        simpa [Pm.created,task,vfs] using ⟨offered.1.resolve_left task,table.distinct⟩
    · by_cases vfs : r.vfs = false <;> simp [Pm.allocated,record,vfs]
  | replaced cmd found args =>
    simp only [Offered,cmd] at offered
    obtain ⟨new,-,came,-⟩ := setupCallsChanged r t r.prgStack r.prg (argvOf r r.msg.w1)
    simp only [createdAppend,allocatedAppend,new,came]
    exact ⟨table.distinct,grows (offered.resolve_left found) (by simp [Pm.allocated])⟩
  | orphanLeft | parentWoken =>
    refine still ?_ ?_
    · rw [createdAppend,new]
      rfl
    · rw [allocatedAppend,came]
      rfl
  | zombieMade => exact still new came
  | allocated cmd chunk block =>
    simp only [Offered,cmd] at offered
    exact ⟨table.distinct,grows offered (by simp [Pm.allocated,chunk,block])⟩
  | denied cmd failed =>
    simp only [Offered,cmd] at offered
    refine ⟨?_,grows offered ?_⟩
    · by_cases chunk : r.chunk = 0 <;> simpa [Pm.created,chunk] using table.distinct
    · by_cases chunk : r.chunk = 0 <;> simp [Pm.allocated,chunk]
  | unknown | zombieReported | childless | blocked | released | foreign | ignored | stuck => exact still rfl rfl

theorem permDiff {new old died next : List Nat} (unique : (new ++ old).Nodup)
    (same : (died ++ next).Perm (new ++ old)) :
    ((new ++ old).diff died).Perm next ∧ ((new ++ old).diff died).Nodup := by
  refine ⟨?_,unique.sublist (List.diff_sublist _ _)⟩
  rw [List.perm_iff_count]
  intro p
  have total := same.count_eq p
  rw [List.count_diff]
  simp only [List.count_append] at total ⊢
  omega

theorem ledgerStep (table : Ledger m lost) (possible : Possible m r) :
    ∃ c t y n, Sender m.pm r.client c t ∧ serve m.pm r = some y ∧ y.clients = List.replicate n c ∧
      Does (attended m.pm c) c t (m.pm.taskQ.erase c) r y.pm y.calls ∧ Ledger (after m y) (abandoned r ++ lost) := by
  obtain ⟨c,t,y,n,sender,served,clients,did⟩ := serveEnds table possible
  refine ⟨c,t,y,n,sender,served,clients,did,?_⟩
  have front := table.attended sender.1
  have ledger := front.trans (doesAccounted front.sound rfl sender.2.1 (table.offers possible.offered) did)
  obtain ⟨tasks,blocks⟩ := doesFresh table possible.offered front.sound did
  have total : (deleted y.calls ++ (abandoned r ++ lost ++ live y.pm)).Perm (created y.calls ++ m.tasks) := by
    have counted := (ledger.pids.append_left lost).trans (List.perm_append_comm_assoc _ _ _)
    refine List.Perm.trans ?_ (counted.trans (table.tasks.symm.append_left _))
    have order : (deleted y.calls ++ abandoned r ++ lost).Perm (lost ++ (deleted y.calls ++ abandoned r)) :=
      List.perm_append_comm
    rw [List.nil_append,← List.append_assoc,← List.append_assoc,← List.append_assoc]
    exact order.append_right _
  obtain ⟨pids,distinct⟩ := permDiff tasks total
  obtain ⟨memory,separate⟩ := permDiff blocks (ledger.memory.trans (table.blocks.symm.append_left _))
  exact ⟨ledger.sound,pids,distinct,memory,separate⟩

theorem tableStep (table : Table m) (lawful : Lawful m r) :
    ∃ c t y n, Sender m.pm r.client c t ∧ serve m.pm r = some y ∧ y.clients = List.replicate n c ∧
      Does (attended m.pm c) c t (m.pm.taskQ.erase c) r y.pm y.calls ∧ Table (after m y) := by
  obtain ⟨c,t,y,n,sender,served,clients,did,kept⟩ := ledgerStep table lawful.possible
  have nobody : abandoned r = [] := by
    refine if_neg ?_
    rintro ⟨cmd,task,record⟩
    have granted := lawful.granted
    simp only [Granted,cmd] at granted
    exact (granted.2.2.2.2 r.record (by simp)).1 record
  rw [nobody] at kept
  exact ⟨c,t,y,n,sender,served,clients,did,kept⟩
end

/- pm() starts with the block of its arguments, which startup allocated. Any allocation
it asks for may fail. -/
def Booting (r : Request) (args : Addr) : Prop := args ≠ 0 ∧ Fresh [args] ([r.record,r.args].filter (· ≠ 0))

def Begun (m : Machine) : Prop :=
  ∃ r args y, Booting r args ∧ pmStart r args = some y ∧ m = after ⟨blank,[],[args]⟩ y

def Boots (r : Request) (args : Addr) : Prop :=
  r.task ≠ 0 ∧ r.vfs = true ∧ args ≠ 0 ∧ Fresh [args] [r.record,r.args]

def Started (m : Machine) : Prop :=
  ∃ r args y, Boots r args ∧ pmStart r args = some y ∧ m = after ⟨blank,[],[args]⟩ y

section
variable {r : Request} {args : Addr}

theorem blankSound : Sound blank where
  null := rfl
  once := fun _ => rfl
  parents := fun _ _ there => nomatch there
  others := fun _ _ there => nomatch there
  zombies := fun _ member => nomatch member

theorem Boots.booting (boots : Boots r args) : Booting r args := by
  obtain ⟨-,-,real,fresh⟩ := boots
  refine ⟨real,?_⟩
  rw [fresh.all]
  exact fresh

def Enrolled (r : Request) : Prop := r.task ≠ 0 ∧ r.vfs = true ∧ r.record ≠ 0

instance (r : Request) : Decidable (Enrolled r) := inferInstanceAs (Decidable (_ ∧ _ ∧ _))

def first (r : Request) : PmTask := ⟨r.task,[],0,0,if r.prg = 0 then 0 else r.args⟩

def booted (r : Request) : Tables :=
  if Enrolled r then { update blank r.record (first r) with taskQ := [r.record] } else blank

def bootCalls (r : Request) (args : Addr) : List Call :=
  [.createtask r.task] ++
    (if r.task = 0 then [] else [.vfsCreatetask r.task 0 r.vfs] ++
      (if r.vfs = false then [] else [.kmalloc 16 r.record] ++
        (if r.record = 0 then [] else [.exGetprg r.msg.w0 r.prg r.prgStack] ++
          (if r.prg = 0 then [] else if r.args = 0 then [.kmalloc (pmArgstackSize (argvOf r args)) 0]
            else setupCalls r ⟨r.task,[],0,0,0⟩ r.prgStack r.prg (argvOf r args) ++ [.starttask r.task])))) ++
    [.kfree args]

theorem pmStartFailed (failed : ¬Enrolled r) :
    ∃ y, pmStart r args = some y ∧ y.pm = booted r ∧ y.calls = bootCalls r args := by
  have plain : ∀ x : Tx, x.pm = blank → kfree x args = call x (.kfree args) := by
    intro x same
    refine kfreePlain ?_
    rw [same]
    rfl
  rw [booted,if_neg failed]
  by_cases task : r.task = 0
  · exact ⟨_,by simp only [pmStart,doSpawnexec,task,if_true,bind,Option.bind_some]; rw [plain _ rfl],rfl,
      by simp [call,bootCalls,task]⟩
  · by_cases vfs : r.vfs = false
    · refine ⟨⟨blank,{ r.msg with w1 := args },[.createtask r.task,.vfsCreatetask r.task 0 false,.kfree args],[0]⟩,
        ?_,rfl,by simp [bootCalls,task,vfs]⟩
      simp [pmStart,doSpawnexec,task,vfs,pmPidof,look,pmClient,call,blank,kfree]
    · have made := Bool.eq_true_of_not_eq_false vfs
      have record : r.record = 0 := by
        by_contra real
        exact failed ⟨task,made,real⟩
      refine ⟨⟨blank,{ r.msg with w1 := args },
        [.createtask r.task,.vfsCreatetask r.task 0 true,.kmalloc 16 0,.kfree args],[0,0]⟩,?_,rfl,
        by simp [bootCalls,task,made,record]⟩
      simp [pmStart,doSpawnexec,task,made,record,pmPidof,look,pmClient,call,pmNewtask,blank,kfree]

theorem pmStartEnrolled (enrolled : Enrolled r) (other : args ≠ r.record) :
    ∃ y, pmStart r args = some y ∧ y.pm = booted r ∧ y.calls = bootCalls r args := by
  rw [booted,if_pos enrolled]
  obtain ⟨task,vfs,record⟩ := enrolled
  let new : PmTask := ⟨r.task,[],0,0,0⟩
  let s : Tables := { update blank r.record new with taskQ := [r.record] }
  let x : Tx := ⟨s,{ r.msg with w1 := args },
    [.createtask r.task,.vfsCreatetask r.task 0 true,.kmalloc 16 r.record,.exGetprg r.msg.w0 r.prg r.prgStack],[0,0]⟩
  have spawn : doSpawnexec r ⟨blank,{ r.msg with w1 := args },[],[]⟩ =
      if r.prg = 0 then some x
      else (pmSetuptask r x r.record r.prgStack r.prg (argvOf r args)).bind (fun y =>
        if y.2 = 0 then some y.1 else some (answer (call y.1 (.starttask r.task)) r.task y.1.msg.w1)) := by
    simp [doSpawnexec,task,vfs,record,pmPidof,look,pmClient,call,pmNewtask,store,taskEnd,qEnd,x,s,new,blank,
      update,withRecord]
  have plain : ∀ u, (update blank r.record u).record args = none := fun u => updateAway u other
  by_cases missing : r.prg = 0
  · rw [if_pos missing] at spawn
    refine ⟨call x (.kfree args),?_,?_,?_⟩
    · simp only [pmStart,spawn,bind,Option.bind_some,kfreePlain (x := x) (plain new)]
    · simp only [callPm,x,s,new,first,missing,if_true]
    · simp [call,x,bootCalls,missing,task,vfs,record]
  · by_cases none : r.args = 0
    · rw [if_neg missing,pmSetuptask,if_pos none] at spawn
      simp only [Option.bind_some,if_true] at spawn
      refine ⟨_,(by unfold pmStart; rw [spawn]; exact congrArg some (kfreePlain (plain new))),?_,?_⟩
      · simp only [callPm,x,s,new,first,missing,none,if_false]
      · simp [call,x,bootCalls,missing,task,vfs,record,none]
    · rw [if_neg missing,setupTask (x := x) (t := new) r.prgStack r.prg (argvOf r args) record (updateAt _ _ _)
        none (by simp [new]) (updateAway new (Ne.symm record))] at spawn
      simp only [Option.bind_some,if_neg record] at spawn
      have free : (update x.pm r.record { new with args := r.args }).record args = Option.none :=
        (updateAway _ other).trans (plain new)
      refine ⟨_,(by unfold pmStart; rw [spawn]; exact congrArg some (kfreePlain free)),?_,?_⟩
      · simp only [callPm,answerPm,movedPm,first,if_neg missing]
        simp [x,s,new,update,withRecord]
      · simp [call,answer,moved,x,bootCalls,missing,new,task,vfs,record,none]

theorem pmStartTurn (booting : Booting r args) :
    ∃ y, pmStart r args = some y ∧ y.pm = booted r ∧ y.calls = bootCalls r args := by
  by_cases enrolled : Enrolled r
  · refine pmStartEnrolled enrolled ?_
    have fresh := (booting.2.2 r.record (by simp [enrolled.2.2])).2
    simpa [eq_comm] using fresh
  · exact pmStartFailed enrolled

theorem bootCallsChanged (real : args ≠ 0) :
    created (bootCalls r args) = [r.task].filter (· ≠ 0) ∧ deleted (bootCalls r args) = [] ∧
      allocated (bootCalls r args) = (if Enrolled r then r.record::estate (first r) else []) ∧
      released (bootCalls r args) = [args] := by
  obtain ⟨new,old,came,went⟩ := setupCallsChanged r ⟨r.task,[],0,0,0⟩ r.prgStack r.prg (argvOf r args)
  have nothing : released (setupCalls r ⟨r.task,[],0,0,0⟩ r.prgStack r.prg (argvOf r args)) = [] :=
    List.Perm.eq_nil (by simpa [estate,belongings] using went)
  unfold bootCalls Enrolled
  by_cases task : r.task = 0
  · simp [task,created,deleted,allocated,released,real]
  · by_cases vfs : r.vfs = false
    · simp [task,vfs,created,deleted,allocated,released,real]
    · have made := Bool.eq_true_of_not_eq_false vfs
      by_cases record : r.record = 0
      · simp [task,made,record,created,deleted,allocated,released,real]
      · by_cases missing : r.prg = 0
        · simp [task,made,record,missing,created,deleted,allocated,released,real,first,estate,belongings]
        · by_cases none : r.args = 0
          · simp [task,made,record,missing,none,created,deleted,allocated,released,real,first,estate,belongings]
          · simp only [if_neg task,if_neg vfs,if_neg record,if_neg missing,if_neg none,createdAppend,deletedAppend,
              allocatedAppend,releasedAppend,new,old,came,nothing]
            simp [task,made,record,missing,none,created,deleted,allocated,released,real,first,estate,belongings]

theorem bootedChanges (r : Request) :
    Changes blank (booted r) (if Enrolled r then [r.task] else []) []
      (if Enrolled r then r.record::estate (first r) else []) [] := by
  unfold booted
  by_cases enrolled : Enrolled r
  · simp only [if_pos enrolled]
    exact Changes.joined (u := first r) blankSound enrolled.2.2 rfl (.inl rfl)
  · simp only [if_neg enrolled]
    exact Changes.still blankSound

def strayed (r : Request) : List Pid := if r.task = 0 ∨ Enrolled r then [] else [r.task]

theorem begunLedger {y : Tx} (booting : Booting r args) (start : pmStart r args = some y) :
    Ledger (after ⟨blank,[],[args]⟩ y) (strayed r) := by
  obtain ⟨z,same,pm,calls⟩ := pmStartTurn booting
  cases Option.some.inj (start.symm.trans same)
  have changes := bootedChanges r
  obtain ⟨new,old,came,went⟩ := bootCallsChanged (r := r) booting.1
  have separate : ((if Enrolled r then r.record::estate (first r) else []) ++ [args]).Nodup := by
    refine (booting.2.joins (List.nodup_singleton args)).sublist ?_
    refine List.Sublist.append_right ?_ [args]
    by_cases enrolled : Enrolled r
    · by_cases missing : r.prg = 0 <;> by_cases none : r.args = 0 <;>
        simp [enrolled,enrolled.2.2,first,estate,belongings,missing,none]
    · simp [enrolled]
  have gone : ([args] ++ owned (booted r)).Perm ((if Enrolled r then r.record::estate (first r) else []) ++ [args]) := by
    have grown := changes.memory
    simp only [List.nil_append] at grown
    refine (grown.append_left [args]).trans ?_
    rw [show owned blank = [] from rfl,List.append_nil]
    exact List.perm_append_comm
  obtain ⟨memory,unique⟩ := permDiff separate gone
  have tasks : ([r.task].filter (· ≠ 0)).Perm (strayed r ++ live (booted r)) := by
    have pids : (live (booted r)).Perm (if Enrolled r then [r.task] else []) := by
      simpa [live,blank] using changes.pids
    refine List.Perm.trans ?_ (pids.symm.append_left _)
    by_cases enrolled : Enrolled r
    · simp [strayed,enrolled,enrolled.1]
    · by_cases task : r.task = 0 <;> simp [strayed,enrolled,task]
  refine ⟨?_,?_,?_,?_,?_⟩
  · simpa only [after,pm] using changes.sound
  · simpa only [after,pm,calls,new,old,List.append_nil,List.diff_nil] using tasks
  · simp only [after,calls,new,old,List.append_nil,List.diff_nil]
    exact (List.nodup_singleton r.task).filter _
  · simpa only [after,pm,calls,came,went] using memory
  · simpa only [after,calls,came,went] using unique

theorem Boots.enrolled (boots : Boots r args) : Enrolled r :=
  ⟨boots.1,boots.2.1,(boots.2.2.2.2 r.record (by simp)).1⟩

theorem startedTable {m : Machine} (started : Started m) : Table m := by
  obtain ⟨r,args,y,boots,start,rfl⟩ := started
  have ledger := begunLedger boots.booting start
  rwa [strayed,if_pos (.inr boots.enrolled)] at ledger
end

theorem runTable {m : Machine} {history : List Served} (run : Reaches step Lawful Started m history) : Table m := by
  refine run.stateInvariant (fun m started => startedTable started) ?_
  intro m r m' out table lawful taken
  obtain ⟨c,t,y,n,-,served,-,-,kept⟩ := tableStep table lawful
  simp only [step,served,bind,Option.bind_some,Option.some.injEq,Prod.mk.injEq] at taken
  exact taken.1 ▸ kept

theorem Ledger.onePid {m : Machine} {lost : List Pid} (table : Ledger m lost) {a b : Addr} {t u : PmTask}
    (here : a ∈ m.pm.taskQ ++ m.pm.waitQ) (there : b ∈ m.pm.taskQ ++ m.pm.waitQ)
    (first : m.pm.record a = some t) (second : m.pm.record b = some u) (same : t.pid = u.pid) : a = b := by
  have unique : (live m.pm).Nodup := (table.tasks.nodup_iff.mp table.distinct).of_append_right
  refine List.inj_on_of_nodup_map unique here there ?_
  rw [pidSome first,pidSome second,same]

theorem processTable {m : Machine} {history : List Served} (run : Reaches step Lawful Started m history) :
    (∀ a, (m.pm.taskQ ++ m.pm.waitQ ++ m.pm.zombieQ).count a = if (m.pm.record a).isSome then 1 else 0) ∧
    (∀ a t, m.pm.record a = some t →
      t.parent = 0 ∨ t.parent ∈ m.pm.taskQ ++ m.pm.waitQ ∧ (m.pm.record t.parent).isSome) ∧
    (∀ a ∈ m.pm.zombieQ, ∀ t, m.pm.record a = some t → t.parent ≠ 0) ∧
    (∀ a t, m.pm.record a = some t → t.parent ∉ m.pm.zombieQ) ∧
    (∀ r, Lawful m r → ∃ m' served c t, step m r = some (m',[served]) ∧ Sender m.pm r.client c t ∧
      (∀ b u, b ∈ m.pm.taskQ ++ m.pm.waitQ → m.pm.record b = some u → u.pid = r.client → b = c) ∧
      ∀ a ∈ served.clients, a = c) ∧
    ∀ r args, Boots r args → (pmStart r args).isSome := by
  have table := runTable run
  have sound := table.sound
  refine ⟨sound.once,?_,fun a zombie t there => (sound.zombies a zombie t there).1,?_,?_,?_⟩
  · intro a t there
    refine (sound.parents a t there).imp_right (fun member => ⟨member,?_⟩)
    obtain ⟨u,known⟩ := sound.known (List.mem_append_left _ member)
    rw [known]
    rfl
  · intro a t there zombie
    rcases sound.parents a t there with none | member
    · exact sound.real (List.mem_append_right _ zombie) none
    · exact sound.alive member zombie
  · intro r lawful
    obtain ⟨c,t,y,n,sender,served,clients,-,-⟩ := tableStep table lawful
    refine ⟨after m y,⟨r,y.calls,y.clients⟩,c,t,?_,sender,?_,?_⟩
    · simp only [step,served,bind,Option.bind_some]
    · intro b u member record pid
      exact table.onePid member (List.mem_append_left _ sender.1) record sender.2.1 (pid.trans sender.2.2.symm)
    · intro a used
      rw [clients] at used
      exact List.eq_of_mem_replicate used
  · intro r args boots
    obtain ⟨y,start,-⟩ := pmStartTurn boots.booting
    rw [start]
    rfl

-- init spawns a process, and that process exits.
def demoBoot : Request := ⟨0,⟨.other,9,0,0⟩,[],50,60,70,0,0,true,0,8,64⟩
def demoSpawn : Request := ⟨50,⟨.spawn,8,64,0⟩,[],51,61,71,0,0,true,0,0,0⟩
def demoExit : Request := ⟨51,⟨.exit,7,0,0⟩,[],0,0,0,0,0,true,0,0,0⟩

theorem demoStarts : (pmStart demoBoot 100).isSome := by rfl

def demoBooted : Machine := after ⟨blank,[],[100]⟩ ((pmStart demoBoot 100).get demoStarts)
def demoSpawned : Machine := ((step demoBooted demoSpawn).get (by rfl)).1
def demoExited : Machine := ((step demoSpawned demoExit).get (by rfl)).1

theorem stepTaken (m : Machine) (r : Request) (taken : (step m r).isSome) :
    ∃ out, step m r = some (((step m r).get taken).1,out) :=
  ⟨((step m r).get taken).2,(Option.some_get taken).symm⟩

theorem demoRun : ∃ history, Reaches step Lawful Started demoExited history := by
  have boots : Boots demoBoot 100 := by
    refine ⟨by decide,rfl,by decide,by decide,by decide⟩
  have spawn : Lawful demoBooted demoSpawn :=
    ⟨⟨60,⟨50,[],0,0,70⟩,by decide,rfl,rfl⟩,⟨by decide,by decide,rfl,by decide,by decide⟩⟩
  have exit : Lawful demoSpawned demoExit :=
    ⟨⟨61,⟨51,[],0,60,71⟩,by decide,rfl,rfl⟩,trivial⟩
  obtain ⟨out,first⟩ := stepTaken demoBooted demoSpawn (by rfl)
  obtain ⟨more,second⟩ := stepTaken demoSpawned demoExit (by rfl)
  have booted : Started demoBooted := ⟨demoBoot,100,_,boots,(Option.some_get (by rfl)).symm,rfl⟩
  exact ⟨_,.next (.next (.start booted) spawn first) exit second⟩

theorem processTableAfterExit : ∃ history, Reaches step Lawful Started demoExited history ∧
    demoExited.pm.zombieQ = [61] ∧ ∀ t, demoExited.pm.record 61 = some t → t.parent ≠ 0 := by
  obtain ⟨history,run⟩ := demoRun
  have zombie : demoExited.pm.zombieQ = [61] := by decide
  exact ⟨history,run,zombie,fun t there => (processTable run).2.2.1 61 (by rw [zombie]; simp) t there⟩

end Avros.Pm
