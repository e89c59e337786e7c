import Avros.TimeServer

/-! q_forall with a callback that may take out the item it was called with. What becomes of
that item does not matter to the walk: its successor was fetched before. -/
namespace Avros.QueueLinks
open Links

/- What a call may do to the queue: nothing, or take its item out. The memory of an item that
was taken out, and of whatever is not in the queue, may be anything afterwards. -/
def Edits (s s' : Mem) (que item : Nat) (items : List Nat) (takes : Bool) : Prop :=
  let kept := if takes then (qRemv s que item).1 else s
  s'.que que = kept.que que ∧ ∀ x ∈ items, (takes = true → x ≠ item) → s'.item x = kept.item x

structure Call where
  item : Nat
  removed : Bool
  answer : Nat
  deriving DecidableEq, Repr

-- The callback with a list of its calls; `takes` says which of them take their item out.
def logged {σ : Type} (callback : σ → Nat → σ × Nat) (takes : σ → Nat → Bool) (t : σ × List Call) (a : Nat) :
    (σ × List Call) × Nat :=
  (((callback t.1 a).1,t.2 ++ [⟨a,takes t.1 a,(callback t.1 a).2⟩]),(callback t.1 a).2)

def removedBy (calls : List Call) : List Nat := (calls.filter Call.removed).map Call.item

section
variable {s s' : Mem} {que item other a : Nat} {items : List Nat} {takes : Bool}

theorem Edits.formed (edits : Edits s s' que item items takes) (real : que ≠ 0) (formed : WellFormed s que items)
    (member : item ∈ items) : WellFormed s' que (if takes then items.erase item else items) := by
  obtain ⟨head,same⟩ := edits
  cases takes with
  | false => exact formed.frame head (fun x inside => same x inside (by simp))
  | true =>
    refine (remvLocal real formed member).formed.frame head (fun x left => ?_)
    obtain ⟨differs,inside⟩ := (List.Nodup.mem_erase_iff formed.once).mp left
    exact same x inside (fun _ => differs)

theorem editsFreed (freed : Nat → Item) :
    Edits s (TimeServer.kfree freed (qRemv s que item).1 item) que item items true :=
  ⟨rfl,fun _ _ away => if_neg (away rfl)⟩

open TimeServer in
def runsOut (s : Ts × List Pid) (w : Nat) : Bool := Vfs.toInt16 ((s.1.wait w).delay - 1) = 0

open TimeServer in
theorem managedelayEdits (freed : Nat → Item) (s : Ts × List Pid) (items : List Nat) (w : Nat) :
    Edits s.1.mem (tsManagedelay freed s w).1.1.mem tsWaitQ w items (runsOut s w) := by
  unfold tsManagedelay runsOut
  by_cases last : Vfs.toInt16 ((s.1.wait w).delay - 1) = 0
  · rw [if_neg (not_not.mpr last),decide_eq_true last]
    exact editsFreed freed
  · rw [if_pos last,decide_eq_false last]
    exact ⟨rfl,fun _ _ _ => rfl⟩

end

section
variable {σ : Type} {links : σ → Mem} {callback : σ → Nat → σ × Nat} {takes : σ → Nat → Bool} {I : σ → Prop}
  {que fuel : Nat} {items : List Nat} {s : σ}

theorem loggedPlain (fuel : Nat) (t : σ × List Call) (it : Nat) :
    qForallFrom links callback fuel t.1 it =
      (qForallFrom (fun t => links t.1) (logged callback takes) fuel t it).map (fun r => (r.1.1,r.2)) := by
  induction fuel generalizing t it with
  | zero => rfl
  | succ fuel ih =>
    rw [qForallFrom,qForallFrom]
    by_cases last : it = 0
    · rw [if_pos last,if_pos last]
      rfl
    · rw [if_neg last,if_neg last]
      by_cases goes : (callback t.1 it).2 = 0
      · have later := ih (logged callback takes t it).1 ((links t.1).item it).next
        simpa only [logged,goes,ne_eq,not_true_eq_false,if_false] using later
      · simp only [logged,ne_eq,goes,not_false_eq_true,if_true,Option.map_some]

theorem removedAppend (calls : List Call) (c : Call) :
    removedBy (calls ++ [c]) = removedBy calls ++ if c.removed then [c.item] else [] := by
  cases taken : c.removed with
  | false => simp [removedBy,taken]
  | true => simp [removedBy,taken]

theorem removedCalled (calls : List Call) : ∀ a ∈ removedBy calls, a ∈ calls.map Call.item := by
  intro a member
  obtain ⟨c,inside,same⟩ := List.mem_map.mp member
  exact List.mem_map.mpr ⟨c,(List.mem_filter.mp inside).1,same⟩

def remaining (items : List Nat) (calls : List Call) : List Nat := items.filter (fun a => a ∉ removedBy calls)

structure Passing (links : σ → Mem) (I : σ → Prop) (que : Nat) (done rest : List Nat) (t : σ × List Call) : Prop where
  held : I t.1
  called : t.2.map Call.item = done
  formed : WellFormed (links t.1) que (remaining done t.2 ++ rest)
  once : (done ++ rest).Nodup

theorem Passing.visit (real : que ≠ 0)
    (contract : ∀ s items a, I s → WellFormed (links s) que items → a ∈ items →
      I (callback s a).1 ∧ Edits (links s) (links (callback s a).1) que a items (takes s a))
    {done rest : List Nat} {a : Nat} {t : σ × List Call} (passing : Passing links I que done (a::rest) t) :
    Passing links I que (done ++ [a]) rest (logged callback takes t a).1 := by
  obtain ⟨held,called,formed,once⟩ := passing
  obtain ⟨held',edits⟩ := contract t.1 _ a held formed (by simp)
  have fresh : a ∉ done ∧ a ∉ rest := by
    obtain ⟨gone,-⟩ := List.nodup_cons.mp (List.nodup_middle.mp once)
    exact ⟨fun old => gone (List.mem_append_left _ old),fun old => gone (List.mem_append_right _ old)⟩
  have stays : a ∉ removedBy t.2 := fun member => fresh.1 (called ▸ removedCalled t.2 a member)
  refine ⟨held',?_,?_,by simpa using once⟩
  · change (t.2 ++ [_]).map Call.item = done ++ [a]
    rw [List.map_append,called]
    rfl
  · have after := edits.formed real formed (by simp)
    have same : remaining (done ++ [a]) (logged callback takes t a).1.2 ++ rest =
        if takes t.1 a then (remaining done t.2 ++ a::rest).erase a else remaining done t.2 ++ a::rest := by
      change remaining (done ++ [a]) (t.2 ++ [⟨a,takes t.1 a,(callback t.1 a).2⟩]) ++ rest = _
      unfold remaining
      rw [removedAppend]
      cases takes t.1 a with
      | false => simp [stays]
      | true =>
        have old : a ∉ done.filter (fun x => x ∉ removedBy t.2) := fun member => fresh.1 (List.mem_filter.mp member).1
        have others : done.filter (fun x => x ∉ removedBy t.2 ++ [a]) = done.filter (fun x => x ∉ removedBy t.2) := by
          refine List.filter_congr (fun x member => ?_)
          have differs : x ≠ a := fun same => fresh.1 (same ▸ member)
          simp [differs]
        rw [if_pos rfl,if_pos rfl,List.erase_append_right _ old,List.erase_cons_head,List.filter_append,others]
        simp
    rw [same]
    exact after

theorem Passing.whole {done rest : List Nat} {t : σ × List Call} (passing : Passing links I que done rest t) :
    WellFormed (links t.1) que (remaining (done ++ rest) t.2) := by
  have ahead : remaining rest t.2 = rest := by
    refine List.filter_eq_self.mpr (fun x member => decide_eq_true (fun gone => ?_))
    have old := removedCalled _ x gone
    rw [passing.called] at old
    exact (List.nodup_append.mp passing.once).2.2 x old x member rfl
  have parts : remaining (done ++ rest) t.2 = remaining done t.2 ++ remaining rest t.2 := List.filter_append _ _
  rw [parts,ahead]
  exact passing.formed

/-- The walk ends. It calls the callback on each item in turn, up to the first for which it
returns an item, and returns that; the items not taken out are left in their order. -/
theorem forallSafe (real : que ≠ 0) (formed : WellFormed (links s) que items) (held : I s)
    (contract : ∀ s items a, I s → WellFormed (links s) que items → a ∈ items →
      I (callback s a).1 ∧ Edits (links s) (links (callback s a).1) que a items (takes s a))
    (enough : items.length < fuel) :
    ∃ s' r calls rest, qForall links callback fuel s que = some (s',r) ∧
      qForall (fun t => links t.1) (logged callback takes) fuel (s,[]) que = some ((s',calls),r) ∧
      items = calls.map Call.item ++ rest ∧
      (r = 0 ∧ rest = [] ∧ (∀ c ∈ calls, c.answer = 0) ∨
        r ≠ 0 ∧ ∃ before last, calls = before ++ [last] ∧ last.answer = r ∧ ∀ c ∈ before, c.answer = 0) ∧
      WellFormed (links s') que (remaining items calls) := by
  have head : ((links s).que que).head = items.headD 0 := pathHead formed.forward
  have first : Passing links I que [] items (s,[]) ∧ ∀ c ∈ ([] : List Call), c.answer = 0 :=
    ⟨⟨held,rfl,formed,formed.once⟩,by simp⟩
  have ahead : ∀ done rest (t : σ × List Call), (Passing links I que done rest t ∧ ∀ c ∈ t.2, c.answer = 0) →
      ∃ m, Path 0 (fun a => ((links t.1).item a).next) m rest 0 := by
    rintro done rest t ⟨passing,-⟩
    obtain ⟨m,-,path⟩ := pathAppend.mp passing.formed.forward
    exact ⟨m,path⟩
  have visit : ∀ done a rest (t : σ × List Call), (Passing links I que done (a::rest) t ∧ ∀ c ∈ t.2, c.answer = 0) →
      (logged callback takes t a).2 = 0 → Passing links I que (done ++ [a]) rest (logged callback takes t a).1 ∧
        ∀ c ∈ (logged callback takes t a).1.2, c.answer = 0 := by
    rintro done a rest t ⟨passing,quiet⟩ goes
    refine ⟨passing.visit real contract,fun c member => ?_⟩
    rcases List.mem_append.mp member with old | new
    · exact quiet c old
    · rw [List.mem_singleton.mp new]
      exact goes
  have start : ∀ r, qForallFrom (fun t => links t.1) (logged callback takes) fuel (s,[]) (items.headD 0) = some r →
      qForall links callback fuel s que = some (r.1.1,r.2) ∧
      qForall (fun t => links t.1) (logged callback takes) fuel (s,[]) que = some r := by
    intro r walk
    rw [← head] at walk
    have plain := @loggedPlain σ links callback takes fuel (s,[]) ((links s).que que).head
    rw [walk] at plain
    exact ⟨(if_neg real).trans plain,(if_neg real).trans walk⟩
  rcases forallWalks ahead visit enough first with ⟨t,walk,last,quiet⟩ | stopped
  · obtain ⟨plain,full⟩ := start _ walk
    refine ⟨t.1,0,t.2,[],plain,full,?_,.inl ⟨rfl,rfl,quiet⟩,?_⟩
    · rw [last.called]
      simp
    · simpa using last.formed
  · obtain ⟨front,a,left,t,split,⟨passing,quiet⟩,stops,walk⟩ := stopped
    obtain ⟨plain,full⟩ := start _ walk
    have next := passing.visit real contract
    rw [List.nil_append] at next
    refine ⟨(callback t.1 a).1,(callback t.1 a).2,(logged callback takes t a).1.2,left,plain,full,?_,
      .inr ⟨stops,t.2,_,rfl,rfl,quiet⟩,?_⟩
    · rw [next.called,split]
      simp
    · have parts : items = (front ++ [a]) ++ left := by simpa using split
      rw [parts]
      exact next.whole

end

open TimeServer in
-- Of two clients that wait, the first runs out.
theorem forallSafeForTwo : ∃ s' calls,
    qForall (fun s => s.1.mem) (tsManagedelay blank) 3 (twoWaiting,[]) tsWaitQ = some (s',0) ∧
    calls.map Call.item = [100,200] ∧ WellFormed s'.1.mem tsWaitQ (remaining [100,200] calls) := by
  have formed : WellFormed twoWaiting.mem tsWaitQ [100,200] :=
    ⟨by decide,⟨rfl,by decide,rfl,by decide,rfl⟩,⟨rfl,by decide,rfl,by decide,rfl⟩,by decide⟩
  have contract : ∀ (s : Ts × List Pid) (items : List Nat) (a : Nat), True → WellFormed s.1.mem tsWaitQ items →
      a ∈ items → True ∧ Edits s.1.mem (tsManagedelay blank s a).1.1.mem tsWaitQ a items (runsOut s a) :=
    fun s items a _ _ _ => ⟨trivial,managedelayEdits blank s items a⟩
  obtain ⟨s',r,calls,rest,walk,-,split,ended,left⟩ :=
    @forallSafe (Ts × List Pid) (fun s => s.1.mem) (tsManagedelay blank) runsOut (fun _ => True) tsWaitQ 3 [100,200]
      (twoWaiting,[]) tsWaitQReal formed trivial contract (by decide)
  have zero : r = 0 := by
    have told : (qForall (fun s => s.1.mem) (tsManagedelay blank) 3 (twoWaiting,[]) tsWaitQ).map Prod.snd = some 0 := rfl
    rw [walk] at told
    exact Option.some.inj told
  subst zero
  rcases ended with ⟨-,rfl,-⟩ | ⟨stops,-⟩
  · exact ⟨s',calls,walk,by simpa using split.symm,left⟩
  · exact absurd rfl stops

end Avros.QueueLinks
