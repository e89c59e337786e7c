import Avros.ProcessTable

/-! Who owns the blocks PM allocates. Any allocation may fail. A block a process got by
malloc stays in its chunk_q until that process frees it, execs or exits; an argument
block lives as long as the record or the program it was made for. -/
namespace Avros.Pm
open Run

def Returned (x : Served) (p : Addr) : Prop :=
  x.request.msg.cmd = .malloc ∧ p ≠ 0 ∧ ∃ msg, .send x.request.client msg ∈ x.calls ∧ msg.w0 = p

def Freed (p : Addr) (history : List Served) : Prop := ∃ x ∈ history, p ∈ released x.calls

section
variable {s s' : Tables} {c : Addr} {t : PmTask} {rest : List Addr} {r : Request} {calls : List Call}

theorem leavesChunks {k : MemChunk} (sound : Sound s) (chunk : k ∈ t.chunkQ) (real : k.ptr ≠ 0) (more : List Call) :
    k.ptr ∈ released (leaveCalls s c t ++ more) := by
  obtain ⟨-,-,-,went⟩ := leaveCallsChanged (c := c) (t := t) sound
  rw [releasedAppend]
  refine List.mem_append_left _ (went.mem_iff.mpr (List.mem_append_left _ ?_))
  exact List.mem_filter.mpr ⟨List.mem_flatMap.mpr ⟨k,chunk,by simp⟩,by simpa using real⟩

theorem doesKeeps {a : Addr} {u : PmTask} {k : MemChunk} (sound : Sound s) (front : s.taskQ = c::rest)
    (there : s.record c = some t) (given : Offers s r) (did : Does s c t rest r s' calls)
    (record : s.record a = some u) (chunk : k ∈ u.chunkQ) (real : k.ptr ≠ 0) :
    a = c ∧ k.ptr ∈ released calls ∨ ∃ v, s'.record a = some v ∧ v.pid = u.pid ∧ k ∈ v.chunkQ := by
  have alive : a ∉ s.zombieQ := by
    intro zombie
    rw [(sound.zombies a zombie u record).2] at chunk
    contradiction
  have stays : s'.record a = some u → a = c ∧ k.ptr ∈ released calls ∨
      ∃ v, s'.record a = some v ∧ v.pid = u.pid ∧ k ∈ v.chunkQ :=
    fun same => .inr ⟨u,same,rfl,chunk⟩
  -- An exit clears its own record and at most the parent of another one.
  have leaves : ∀ (s' : Tables) (more : List Call), (a ≠ c → s'.record a = (bereaved s c t).record a) →
      a = c ∧ k.ptr ∈ released (leaveCalls s c t ++ more) ∨ ∃ v, s'.record a = some v ∧ v.pid = u.pid ∧ k ∈ v.chunkQ := by
    intro s' more same
    by_cases mine : a = c
    · subst mine
      cases Option.some.inj (there.symm.trans record)
      exact .inl ⟨rfl,leavesChunks sound chunk real more⟩
    · refine .inr ⟨orphanOf c u,?_,orphanPid c u,?_⟩
      · rw [same mine]
        simp [bereaved,alive,mine,record]
      · unfold orphanOf
        split <;> exact chunk
  have mine : ∀ {v : PmTask}, v.pid = t.pid → (a = c → k ∈ v.chunkQ ∨ k.ptr ∈ released calls) →
      a = c ∧ k.ptr ∈ released calls ∨ ∃ w, (update s c v).record a = some w ∧ w.pid = u.pid ∧ k ∈ w.chunkQ := by
    intro v pid kept
    by_cases same : a = c
    · rcases kept same with still | freed
      · subst same
        cases Option.some.inj (there.symm.trans record)
        exact .inr ⟨v,updateAt s a v,pid,still⟩
      · exact .inl ⟨same,freed⟩
    · exact .inr ⟨u,(updateAway v same).trans record,rfl,chunk⟩
  have own : a = c → k ∈ t.chunkQ := by
    intro same
    rw [same,there] at record
    cases Option.some.inj record
    exact chunk
  cases did with
  | spawned cmd | stillborn cmd =>
    simp only [Offers,cmd] at given
    refine stays ((updateAway _ ?_).trans record)
    intro same
    rw [same,given] at record
    contradiction
  | unknown | foreign | ignored | unmade | stuck | denied => exact stays record
  | replaced cmd found args =>
    refine mine (v := { t with chunkQ := [], args := r.args }) rfl (fun same => .inr ?_)
    obtain ⟨-,-,-,went⟩ := setupCallsChanged r t r.prgStack r.prg (argvOf r r.msg.w1)
    simp only [releasedAppend]
    refine List.mem_append_left _ (List.mem_append_right _ (went.mem_iff.mpr ?_))
    refine List.mem_filter.mpr ⟨List.mem_cons_of_mem _ (List.mem_flatMap.mpr ⟨k,own same,by simp⟩),by simpa using real⟩
  | orphanLeft | parentWoken => exact leaves _ _ (fun other => Function.update_of_ne other _ _)
  | zombieMade =>
    have result := leaves { update (bereaved s c t) c { t with chunkQ := [], word := r.msg.w0 } with
      taskQ := rest, zombieQ := (bereaved s c t).zombieQ ++ [c] } [] (fun other => updateAway _ other)
    rwa [List.append_nil] at result
  | @zombieReported z w cmd first zombie =>
    have other : a ≠ z := fun same => alive (same ▸ List.mem_of_find?_eq_some first)
    rcases mine (v := { t with word := r.msg.w0 }) rfl (fun same => .inl (own same)) with freed | ⟨v,found,kept⟩
    · exact .inl freed
    · exact .inr ⟨v,(Function.update_of_ne other _ _).trans found,kept⟩
  | childless | blocked => exact mine (v := { t with word := r.msg.w0 }) rfl (fun same => .inl (own same))
  | allocated =>
    exact mine (v := { t with chunkQ := ⟨r.chunk,r.block⟩::t.chunkQ }) rfl
      (fun same => .inl (List.mem_cons_of_mem _ (own same)))
  | @released j cmd asked found =>
    refine mine (v := { t with chunkQ := t.chunkQ.erase j }) rfl (fun same => ?_)
    by_cases this : k = j
    · right
      have ptr := List.find?_some found
      simp only [decide_eq_true_eq] at ptr
      simp [Pm.released,this,ptr,asked]
    · exact .inl ((List.mem_erase_of_ne this).mpr (own same))

theorem doesArgs {a : Addr} {u : PmTask} (sound : Sound s) (front : s.taskQ = c::rest)
    (there : s.record c = some t) (given : Offers s r) (did : Does s c t rest r s' calls)
    (record : s.record a = some u) (real : u.args ≠ 0) :
    (∃ v, s'.record a = some v ∧ v.args = u.args) ∨
      u.args ∈ released calls ∧ (s'.record a = none ∨
        r.msg.cmd = .exec ∧ a = c ∧ ∃ v, s'.record a = some v ∧ v.args = r.args) := by
  have stays : s'.record a = some u → (∃ v, s'.record a = some v ∧ v.args = u.args) ∨
      u.args ∈ released calls ∧ (s'.record a = none ∨
        r.msg.cmd = .exec ∧ a = c ∧ ∃ v, s'.record a = some v ∧ v.args = r.args) :=
    fun same => .inl ⟨u,same,rfl⟩
  have mine : ∀ v : PmTask, v.args = t.args → ∃ w, (update s c v).record a = some w ∧ w.args = u.args := by
    intro v args
    by_cases same : a = c
    · subst same
      cases Option.some.inj (there.symm.trans record)
      exact ⟨v,updateAt s a v,args⟩
    · exact ⟨u,(updateAway v same).trans record,rfl⟩
  -- A zombie child goes with its parent; every other record keeps its arguments.
  have others : ∀ (s' : Tables) (more : List Call), s'.record a = (bereaved s c t).record a → a ≠ c →
      (∃ v, s'.record a = some v ∧ v.args = u.args) ∨
        u.args ∈ released (leaveCalls s c t ++ more) ∧ s'.record a = none := by
    intro s' more same other
    by_cases gone : a ∈ s.zombieQ ∧ childOf s c a = true
    · refine .inr ⟨?_,?_⟩
      · obtain ⟨-,-,-,went⟩ := leaveCallsChanged (c := c) (t := t) sound
        rw [releasedAppend]
        refine List.mem_append_left _ (went.mem_iff.mpr (List.mem_append_right _ ?_))
        refine List.mem_flatMap.mpr ⟨a,List.mem_filter.mpr gone,?_⟩
        rw [holdingSome record]
        simp [estate,belongings,real]
      · rw [same]
        simp [bereaved,gone]
    · refine .inl ⟨orphanOf c u,?_,?_⟩
      · rw [same]
        simp [bereaved,gone,other,record]
      · unfold orphanOf
        split <;> rfl
  have leaves : ∀ (s' : Tables) (more : List Call), s'.record = Function.update (bereaved s c t).record c none →
      .kfree t.args ∈ more → (∃ v, s'.record a = some v ∧ v.args = u.args) ∨
        u.args ∈ released (leaveCalls s c t ++ more) ∧ s'.record a = none := by
    intro s' more same freed
    by_cases other : a = c
    · subst other
      cases Option.some.inj (there.symm.trans record)
      refine .inr ⟨?_,by rw [same,Function.update_self]⟩
      rw [releasedAppend]
      refine List.mem_append_right _ (List.mem_filter.mpr ⟨?_,by simpa using real⟩)
      exact List.mem_filterMap.mpr ⟨_,freed,rfl⟩
    · exact others s' more (by rw [same,Function.update_of_ne other]) other
  cases did with
  | spawned cmd | stillborn cmd =>
    simp only [Offers,cmd] at given
    refine stays ((updateAway _ ?_).trans record)
    intro same
    rw [same,given] at record
    contradiction
  | unknown | foreign | ignored | unmade | stuck | denied => exact stays record
  | replaced cmd found args =>
    by_cases same : a = c
    · subst same
      cases Option.some.inj (there.symm.trans record)
      refine .inr ⟨?_,.inr ⟨cmd,rfl,_,updateAt _ _ _,rfl⟩⟩
      obtain ⟨-,-,-,went⟩ := setupCallsChanged r t r.prgStack r.prg (argvOf r r.msg.w1)
      simp only [releasedAppend]
      refine List.mem_append_left _ (List.mem_append_right _ (went.mem_iff.mpr ?_))
      exact List.mem_filter.mpr ⟨List.mem_cons_self,by simpa using real⟩
    · exact stays ((updateAway _ same).trans record)
  | orphanLeft | parentWoken =>
    exact (leaves _ _ rfl (by simp)).imp_right (fun gone => ⟨gone.1,.inl gone.2⟩)
  | zombieMade cmd child unwanted =>
    by_cases same : a = c
    · subst same
      cases Option.some.inj (there.symm.trans record)
      exact .inl ⟨_,updateAt _ _ _,rfl⟩
    · have result := others { update (bereaved s c t) c { t with chunkQ := [], word := r.msg.w0 } with
        taskQ := rest, zombieQ := (bereaved s c t).zombieQ ++ [c] } [] (updateAway _ same) same
      rw [List.append_nil] at result
      exact result.imp_right (fun gone => ⟨gone.1,.inl gone.2⟩)
  | @zombieReported z w cmd first zombie =>
    by_cases same : a = z
    · subst same
      cases Option.some.inj (zombie.symm.trans record)
      exact .inr ⟨by simp [Pm.released,real],.inl (by simp)⟩
    · obtain ⟨v,found,kept⟩ := mine { t with word := r.msg.w0 } rfl
      exact .inl ⟨v,(Function.update_of_ne same _ _).trans found,kept⟩
  | childless | blocked => exact .inl (mine { t with word := r.msg.w0 } rfl)
  | allocated => exact .inl (mine { t with chunkQ := ⟨r.chunk,r.block⟩::t.chunkQ } rfl)
  | @released j cmd asked found => exact .inl (mine { t with chunkQ := t.chunkQ.erase j } rfl)
end

section
variable {m m' : Machine} {lost : List Pid} {s' : Tables} {c : Addr} {t : PmTask} {r : Request} {calls : List Call}
  {history out : List Served}

theorem freedOnce (table : Ledger m lost) (offered : Offered m r) (sender : Sender m.pm r.client c t)
    (did : Does (attended m.pm c) c t (m.pm.taskQ.erase c) r s' calls) : (released calls ++ owned s').Nodup := by
  have front := table.attended sender.1
  have ledger := front.trans (doesAccounted front.sound rfl sender.2.1 (table.offers offered) did)
  obtain ⟨-,blocks⟩ := doesFresh table offered front.sound did
  exact (ledger.memory.trans (table.blocks.symm.append_left _)).nodup_iff.mpr blocks

theorem chunkHeld {s : Tables} {k : MemChunk} {p : Addr} (there : s.record c = some t)
    (chunk : k ∈ t.chunkQ) (part : p = k.ptr ∨ p = k.self) (real : p ≠ 0) : p ∈ holding s c := by
  rw [holdingSome there]
  refine List.mem_cons_of_mem _ (List.mem_filter.mpr ⟨List.mem_cons_of_mem _ ?_,by simpa using real⟩)
  exact List.mem_flatMap.mpr ⟨k,chunk,by simpa using part⟩

theorem argsHeld {s : Tables} (there : s.record c = some t) (real : t.args ≠ 0) : t.args ∈ holding s c := by
  rw [holdingSome there]
  exact List.mem_cons_of_mem _ (List.mem_filter.mpr ⟨List.mem_cons_self,by simpa using real⟩)

theorem heldOwned {s : Tables} {p : Addr} (sound : Sound s) (there : s.record c = some t) (held : p ∈ holding s c) :
    p ∈ owned s :=
  List.mem_flatMap.mpr ⟨c,sound.queued there,held⟩

theorem oneOwner {s : Tables} {a b p : Addr} {u v : PmTask} (sound : Sound s) (separate : (owned s).Nodup)
    (first : s.record a = some u) (second : s.record b = some v) (here : p ∈ holding s a) (there : p ∈ holding s b) :
    a = b := by
  by_contra other
  have : Std.Symm (Function.onFun List.Disjoint (holding s)) := ⟨fun _ _ apart _ left right => apart right left⟩
  obtain ⟨-,pairs⟩ := List.nodup_flatMap.mp separate
  exact pairs.forall (sound.queued first) (sound.queued second) other here there

theorem ptrCount (p : Addr) (chunks : List MemChunk) :
    (chunks.map (·.ptr)).count p ≤ (chunks.flatMap (fun k => [k.ptr,k.self])).count p := by
  induction chunks with
  | nil => exact Nat.le_refl 0
  | cons k rest ih =>
    rw [List.map_cons,List.flatMap_cons,List.count_append,List.count_cons]
    have head : (if k.ptr == p then 1 else 0) ≤ [k.ptr,k.self].count p := by
      rw [List.count_cons]
      omega
    omega

theorem oneChunk {s : Tables} {p : Addr} (sound : Sound s) (separate : (owned s).Nodup) (there : s.record c = some t)
    (real : p ≠ 0) (member : p ∈ t.chunkQ.map (·.ptr)) : (t.chunkQ.map (·.ptr)).count p = 1 := by
  obtain ⟨each,-⟩ := List.nodup_flatMap.mp separate
  have nodup := each c (sound.queued there)
  rw [holdingSome there] at nodup
  have once := List.nodup_iff_count_le_one.mp (List.nodup_cons.mp nodup).2 p
  have counted : (estate t).count p = (belongings t).count p := List.count_filter (by simpa using real)
  have total : (t.chunkQ.flatMap (fun k => [k.ptr,k.self])).count p ≤ (belongings t).count p := by
    rw [belongings,List.count_cons]
    omega
  have some := List.count_pos_iff.mpr member
  have few := ptrCount p t.chunkQ
  omega

def Solid (s : Tables) : Prop := ∀ a t, s.record a = some t → ∀ k ∈ t.chunkQ, k.ptr ≠ 0 ∧ k.self ≠ 0

theorem Solid.updated {s : Tables} {u : PmTask} (solid : Solid s) (chunks : ∀ k ∈ u.chunkQ, k.ptr ≠ 0 ∧ k.self ≠ 0) :
    Solid (update s c u) := by
  intro a v found k chunk
  by_cases same : a = c
  · subst same
    cases Option.some.inj ((updateAt s a u).symm.trans found)
    exact chunks k chunk
  · exact solid a v ((updateAway u same).symm.trans found) k chunk

theorem Solid.fewer {s : Tables} (solid : Solid s)
    (fewer : ∀ a v, s'.record a = some v → v.chunkQ = [] ∨ ∃ u, s.record a = some u ∧ v.chunkQ = u.chunkQ) :
    Solid s' := by
  intro a v found k chunk
  rcases fewer a v found with none | ⟨u,record,same⟩
  · rw [none] at chunk
    contradiction
  · rw [same] at chunk
    exact solid a u record k chunk

theorem bereavedChunks {s : Tables} {a : Addr} {v : PmTask} (found : (bereaved s c t).record a = some v) :
    v.chunkQ = [] ∨ ∃ u, s.record a = some u ∧ v.chunkQ = u.chunkQ := by
  rcases bereavedSome found with ⟨-,same⟩ | ⟨-,u,record,same,-⟩
  · exact .inl (by rw [same])
  · refine .inr ⟨u,record,?_⟩
    rw [same]
    unfold orphanOf
    split <;> rfl

theorem doesSolid {s : Tables} {rest : List Addr} (solid : Solid s) (there : s.record c = some t)
    (did : Does s c t rest r s' calls) : Solid s' := by
  have mine := solid c t there
  have freed : ∀ (record : Addr → Option PmTask) (b : Addr) (v : PmTask) (a : Addr),
      Function.update record a none b = some v → record b = some v := by
    intro record b v a found
    by_cases same : b = a
    · simp [same] at found
    · rwa [Function.update_of_ne same] at found
  cases did with
  | spawned => exact solid.updated (u := ⟨r.task,[],0,c,r.args⟩) (by simp)
  | stillborn => exact solid.updated (u := ⟨r.task,[],0,c,0⟩) (by simp)
  | unknown | foreign | ignored | unmade | stuck | denied => exact solid
  | replaced => exact solid.updated (u := { t with chunkQ := [], args := r.args }) (by simp)
  | orphanLeft | parentWoken => exact solid.fewer (fun a v found => bereavedChunks (freed _ a v c found))
  | zombieMade =>
    refine Solid.updated (s := bereaved s c t) (u := { t with chunkQ := [], word := r.msg.w0 }) ?_ (by simp)
    exact solid.fewer (fun a v found => bereavedChunks found)
  | @zombieReported z =>
    have reworded := solid.updated (c := c) (u := { t with word := r.msg.w0 }) mine
    exact reworded.fewer (fun a v found => .inr ⟨v,freed _ a v z found,rfl⟩)
  | childless | blocked => exact solid.updated (u := { t with word := r.msg.w0 }) mine
  | allocated cmd chunk block =>
    refine solid.updated (u := { t with chunkQ := ⟨r.chunk,r.block⟩::t.chunkQ }) ?_
    intro k member
    rcases List.mem_cons.mp member with rfl | old
    · exact ⟨block,chunk⟩
    · exact mine k old
  | @released j =>
    exact solid.updated (u := { t with chunkQ := t.chunkQ.erase j }) (fun k member => mine k (List.mem_of_mem_erase member))

def Holds (pm : Tables) (x : Served) (p a : Addr) : Prop :=
  (∀ b ∈ x.clients, b = a) ∧ ∃ t, pm.record a = some t ∧ t.pid = x.request.client ∧ ∃ k ∈ t.chunkQ, k.ptr = p

structure Memory (m : Machine) (history : List Served) : Prop where
  ledger : ∃ lost, Ledger m lost
  solid : Solid m.pm
  held : ∀ before x later p, history = before ++ x::later → Returned x p → ¬Freed p later → ∃ a, Holds m.pm x p a

theorem returnedChunk {s : Tables} {rest : List Addr} {p : Addr} {n : Nat} (client : t.pid = r.client)
    (did : Does s c t rest r s' calls) (got : Returned ⟨r,calls,List.replicate n c⟩ p) :
    Holds s' ⟨r,calls,List.replicate n c⟩ p c := by
  obtain ⟨cmd,real,msg,sent,same⟩ := got
  refine ⟨fun b member => List.eq_of_mem_replicate member,?_⟩
  cases did with
  | allocated =>
    have answer : msg = { r.msg with w0 := r.block } := by simpa using sent
    refine ⟨_,updateAt s c { t with chunkQ := ⟨r.chunk,r.block⟩::t.chunkQ },client,_,List.mem_cons_self,?_⟩
    rw [← same,answer]
  | denied cmd failed =>
    have answer : msg = { r.msg with w0 := 0 } := by
      by_cases chunk : r.chunk = 0 <;> simpa [chunk] using sent
    rw [answer] at same
    exact absurd same.symm real
  | _ => simp_all

theorem memoryStep (memory : Memory m history) (possible : Possible m r) (taken : step m r = some (m',out)) :
    Memory m' (history ++ out) := by
  obtain ⟨lost,table⟩ := memory.ledger
  obtain ⟨c,t,y,n,sender,served,clients,did,kept⟩ := ledgerStep table possible
  have made : m' = after m y ∧ out = [⟨r,y.calls,y.clients⟩] := by
    simpa [step,served,eq_comm] using taken
  obtain ⟨rfl,rfl⟩ := made
  refine ⟨⟨_,kept⟩,doesSolid (s := attended m.pm c) memory.solid sender.2.1 did,?_⟩
  intro before x later p split got unfreed
  rcases snocSplit split with ⟨-,rfl,-⟩ | ⟨init,rfl,old⟩
  · rw [clients] at got ⊢
    exact ⟨c,returnedChunk sender.2.2 did got⟩
  · have still : ¬Freed p init := by
      rintro ⟨z,member,freed⟩
      exact unfreed ⟨z,List.mem_append_left _ member,freed⟩
    obtain ⟨a,same,u,record,pid,k,chunk,ptr⟩ := memory.held before x init p old got still
    have real : k.ptr ≠ 0 := by
      rw [ptr]
      exact got.2.1
    rcases doesKeeps (table.attended sender.1).sound rfl sender.2.1 (table.offers possible.offered) did record chunk real
      with ⟨-,freed⟩ | ⟨v,found,pids,stays⟩
    · rw [ptr] at freed
      exact absurd ⟨_,List.mem_append_right _ List.mem_cons_self,freed⟩ unfreed
    · exact ⟨a,same,v,found,pids.trans pid,k,stays,ptr⟩

theorem begunMemory (begun : Begun m) : Memory m [] := by
  obtain ⟨q,args,y,booting,start,rfl⟩ := begun
  obtain ⟨z,same,pm,-⟩ := pmStartTurn booting
  cases Option.some.inj (start.symm.trans same)
  refine ⟨⟨_,begunLedger booting start⟩,?_,by simp⟩
  intro a u found
  have table : (after ⟨blank,[],[args]⟩ y).pm = booted q := pm
  rw [table,booted] at found
  split at found
  · have none : Solid blank := by
      intro a u there
      contradiction
    exact Solid.updated (u := first q) none (by simp [first]) a u found
  · contradiction

theorem runMemory (run : Reaches step Possible Begun m history) : Memory m history :=
  run.invariant (fun _ begun => begunMemory begun)
    (fun _ _ _ _ _ memory possible taken => memoryStep memory possible taken)

theorem chunkFreed {s : Tables} {rest : List Addr} {k : MemChunk} {p : Addr} (sound : Sound s)
    (did : Does s c t rest r s' calls) (cmd : r.msg.cmd = .exit ∨ r.msg.cmd = .exec ∧ r.prg ≠ 0 ∧ r.args ≠ 0)
    (chunk : k ∈ t.chunkQ) (part : p = k.ptr ∨ p = k.self) (real : p ≠ 0) : p ∈ released calls := by
  have mine : p ∈ chunksOf t :=
    List.mem_filter.mpr ⟨List.mem_flatMap.mpr ⟨k,chunk,by simpa using part⟩,by simpa using real⟩
  obtain ⟨-,-,-,left⟩ := leaveCallsChanged (c := c) (t := t) sound
  cases did with
  | orphanLeft | parentWoken =>
    rw [releasedAppend]
    exact List.mem_append_left _ (left.mem_iff.mpr (List.mem_append_left _ mine))
  | zombieMade => exact left.mem_iff.mpr (List.mem_append_left _ mine)
  | replaced =>
    obtain ⟨-,-,-,went⟩ := setupCallsChanged r t r.prgStack r.prg (argvOf r r.msg.w1)
    simp only [releasedAppend]
    refine List.mem_append_left _ (List.mem_append_right _ (went.mem_iff.mpr ?_))
    exact (estateSplit t).mem_iff.mp (List.mem_append_left _ mine)
  | _ => simp_all

theorem execRefused {s : Tables} {rest : List Addr} (did : Does s c t rest r s' calls) (cmd : r.msg.cmd = .exec)
    (refused : r.prg = 0 ∨ r.args = 0) : s' = s ∧ released calls = [] := by
  cases did with
  | unknown | stuck => exact ⟨rfl,rfl⟩
  | replaced cmd found args => exact absurd refused (not_or.mpr ⟨found,args⟩)
  | _ => simp_all

theorem freeForeign {s : Tables} {rest : List Addr} (did : Does s c t rest r s' calls) (cmd : r.msg.cmd = .free)
    (foreign : r.msg.w0 ∉ t.chunkQ.map (·.ptr)) :
    s' = s ∧ created calls = [] ∧ deleted calls = [] ∧ allocated calls = [] ∧ released calls = [] := by
  cases did with
  | foreign => exact ⟨rfl,rfl,rfl,rfl,rfl⟩
  | released cmd asked found =>
    have ptr := List.find?_some found
    simp only [decide_eq_true_eq] at ptr
    exact absurd (List.mem_map.mpr ⟨_,List.mem_of_find?_eq_some found,ptr⟩) foreign
  | _ => simp_all

theorem countOne {got rest : List Addr} {p : Addr} (once : (got ++ rest).Nodup) (member : p ∈ got) : got.count p = 1 :=
  List.count_eq_one_of_mem once.of_append_left member

theorem processMemory (run : Reaches step Possible Begun m history) :
    (m.blocks.Perm (owned m.pm) ∧ m.blocks.Nodup) ∧
    (∀ before x later p, history = before ++ x::later → Returned x p → ¬Freed p later →
      ∃ a ∈ m.pm.taskQ ++ m.pm.waitQ, ∃ t, m.pm.record a = some t ∧ t.pid = x.request.client ∧
        (∀ b ∈ x.clients, b = a) ∧ (t.chunkQ.map (·.ptr)).count p = 1 ∧
        ∀ b u, m.pm.record b = some u → p ∈ u.chunkQ.map (·.ptr) → b = a) ∧
    ∀ r c t, Possible m r → Sender m.pm r.client c t → ∃ m' x, step m r = some (m',[x]) ∧
      (r.msg.cmd = .free → r.msg.w0 ∉ t.chunkQ.map (·.ptr) →
        m' = { m with pm := attended m.pm c } ∧ released x.calls = []) ∧
      (r.msg.cmd = .exit ∨ r.msg.cmd = .exec ∧ r.prg ≠ 0 ∧ r.args ≠ 0 →
        ∀ k ∈ t.chunkQ, (released x.calls).count k.ptr = 1 ∧ (released x.calls).count k.self = 1) ∧
      (r.msg.cmd = .exec → r.prg = 0 ∨ r.args = 0 → m'.pm = attended m.pm c ∧ released x.calls = []) ∧
      (∀ a u, a ≠ c → m.pm.record a = some u →
        ∀ k ∈ u.chunkQ, k.ptr ∉ released x.calls ∧ k.self ∉ released x.calls) ∧
      ∀ a u, m.pm.record a = some u → u.args ≠ 0 →
        (∃ v, m'.pm.record a = some v ∧ v.args = u.args) ∧ u.args ∉ released x.calls ∨
        (m'.pm.record a = none ∨ r.msg.cmd = .exec ∧ a = c ∧ ∃ v, m'.pm.record a = some v ∧ v.args = r.args) ∧
          (released x.calls).count u.args = 1 := by
  have memory := runMemory run
  obtain ⟨lost,table⟩ := memory.ledger
  have sound := table.sound
  have separate : (owned m.pm).Nodup := table.blocks.nodup_iff.mp table.separate
  refine ⟨⟨table.blocks,table.separate⟩,?_,?_⟩
  · intro before x later p split got unfreed
    obtain ⟨a,clients,t,record,pid,k,chunk,ptr⟩ := memory.held before x later p split got unfreed
    have member : p ∈ t.chunkQ.map (·.ptr) := List.mem_map.mpr ⟨k,chunk,ptr⟩
    have alive : a ∈ m.pm.taskQ ++ m.pm.waitQ := by
      rcases List.mem_append.mp (sound.queued record) with task | zombie
      · exact task
      · rw [(sound.zombies a zombie t record).2] at chunk
        contradiction
    refine ⟨a,alive,t,record,pid,clients,oneChunk sound separate record got.2.1 member,?_⟩
    intro b u found owns
    obtain ⟨j,inside,same⟩ := List.mem_map.mp owns
    exact oneOwner sound separate found record (chunkHeld found inside (.inl same.symm) got.2.1)
      (chunkHeld record chunk (.inl ptr.symm) got.2.1)
  · intro r c t possible sender
    obtain ⟨b,u,y,n,found,served,clients,did,kept⟩ := ledgerStep table possible
    cases table.onePid (List.mem_append_left _ found.1) (List.mem_append_left _ sender.1) found.2.1 sender.2.1
      (found.2.2.trans sender.2.2.symm)
    cases Option.some.inj (found.2.1.symm.trans sender.2.1)
    have front := table.attended sender.1
    have once := freedOnce table possible.offered sender did
    have apart : ∀ p, p ∈ owned y.pm → p ∉ released y.calls :=
      fun p here freed => (List.nodup_append.mp once).2.2 p freed p here rfl
    refine ⟨after m y,⟨r,y.calls,y.clients⟩,by simp [step,served],?_,?_,?_,?_,?_⟩
    · intro cmd foreign
      obtain ⟨same,new,old,came,went⟩ := freeForeign did cmd foreign
      simp [after,same,new,old,came,went]
    · intro cmd k chunk
      obtain ⟨ptr,self⟩ := memory.solid c t sender.2.1 k chunk
      exact ⟨countOne once (chunkFreed front.sound did cmd chunk (.inl rfl) ptr),
        countOne once (chunkFreed front.sound did cmd chunk (.inr rfl) self)⟩
    · intro cmd refused
      exact execRefused did cmd refused
    · intro a u other record k chunk
      obtain ⟨ptr,self⟩ := memory.solid a u record k chunk
      rcases doesKeeps front.sound rfl sender.2.1 (table.offers possible.offered) did record chunk ptr
        with ⟨mine,-⟩ | ⟨v,stays,-,still⟩
      · contradiction
      · exact ⟨apart _ (heldOwned kept.sound stays (chunkHeld stays still (.inl rfl) ptr)),
          apart _ (heldOwned kept.sound stays (chunkHeld stays still (.inr rfl) self))⟩
    · intro a u record real
      rcases doesArgs front.sound rfl sender.2.1 (table.offers possible.offered) did record real
        with ⟨v,stays,same⟩ | ⟨freed,gone⟩
      · refine .inl ⟨⟨v,stays,same⟩,?_⟩
        rw [← same] at real ⊢
        exact apart _ (heldOwned kept.sound stays (argsHeld stays real))
      · exact .inr ⟨gone,countOne once freed⟩
end

-- init gets a block, and asks for a program that does not exist.
def demoMalloc : Request := ⟨50,⟨.malloc,32,0,0⟩,[],0,0,0,80,90,true,0,0,0⟩
def demoExec : Request := ⟨50,⟨.exec,9,0,0⟩,[],0,0,0,0,0,true,0,0,0⟩

def demoGranted : Machine := ((step demoBooted demoMalloc).get (by rfl)).1
def demoRefused : Machine := ((step demoGranted demoExec).get (by rfl)).1

theorem demoOwner : ∃ history, Reaches step Possible Begun demoGranted history ∧ Possible demoGranted demoExec ∧
    Sender demoGranted.pm 50 60 ⟨50,[⟨80,90⟩],0,0,70⟩ := by
  have boots : Booting demoBoot 100 := by
    refine ⟨by decide,by decide,by decide⟩
  have malloc : Possible demoBooted demoMalloc := ⟨⟨60,⟨50,[],0,0,70⟩,by decide,rfl,rfl⟩,by decide,by decide⟩
  have sender : Sender demoGranted.pm 50 60 ⟨50,[⟨80,90⟩],0,0,70⟩ := ⟨by decide,rfl,rfl⟩
  have begun : Begun demoBooted := ⟨demoBoot,100,_,boots,(Option.some_get (by rfl)).symm,rfl⟩
  obtain ⟨out,taken⟩ := stepTaken demoBooted demoMalloc (by rfl)
  exact ⟨_,.next (.start begun) malloc taken,⟨⟨_,_,sender⟩,.inl rfl⟩,sender⟩

theorem execKeepsBlocks : ∃ m history r c t, Reaches step Possible Begun m history ∧ Possible m r ∧
    r.msg.cmd = .exec ∧ Sender m.pm r.client c t ∧ ∃ k ∈ t.chunkQ, ∃ m' x, step m r = some (m',[x]) ∧
      (released x.calls).count k.ptr = 0 := by
  obtain ⟨history,run,possible,sender⟩ := demoOwner
  refine ⟨demoGranted,history,demoExec,60,_,run,possible,rfl,sender,_,List.mem_cons_self,demoRefused,?_⟩
  exact ⟨⟨demoExec,[.exGetprg 9 0 0,.send 50 ⟨.exec,9,0,0⟩],[]⟩,rfl,by decide⟩

theorem processMemoryAfterMalloc : ∃ history, Reaches step Possible Begun demoGranted history ∧
    demoGranted.blocks.Perm (owned demoGranted.pm) ∧ demoGranted.blocks = [80,90,60,70] := by
  obtain ⟨history,run,-,-⟩ := demoOwner
  exact ⟨history,run,(processMemory run).1.1,by decide⟩
end Avros.Pm
