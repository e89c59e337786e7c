import Avros.Links
import Avros.Queue
import Avros.Run
import Mathlib.Algebra.GroupWithZero.Nat

/-! `lib/queue.c` on the memory: items carry two links, queue heads two pointers. 0 is NULL.
Every store of the source is one here, in its order. -/
namespace Avros.QueueLinks
open Run Links

structure Item where
  next : Nat
  prev : Nat
  deriving DecidableEq, Repr

structure Head where
  head : Nat
  tail : Nat
  deriving DecidableEq, Repr

structure Mem where
  item : Nat → Item
  que : Nat → Head

section
variable (s : Mem) (a v : Nat)

def setNext : Mem := { s with item := fun x => if x = a then { s.item x with next := v } else s.item x }
def setPrev : Mem := { s with item := fun x => if x = a then { s.item x with prev := v } else s.item x }
def setHead : Mem := { s with que := fun x => if x = a then { s.que x with head := v } else s.que x }
def setTail : Mem := { s with que := fun x => if x = a then { s.que x with tail := v } else s.que x }

@[simp] theorem setNextItem (x : Nat) :
    (setNext s a v).item x = if x = a then { s.item x with next := v } else s.item x := rfl
@[simp] theorem setNextQue : (setNext s a v).que = s.que := rfl
@[simp] theorem setPrevItem (x : Nat) :
    (setPrev s a v).item x = if x = a then { s.item x with prev := v } else s.item x := rfl
@[simp] theorem setPrevQue : (setPrev s a v).que = s.que := rfl
@[simp] theorem setHeadItem : (setHead s a v).item = s.item := rfl
@[simp] theorem setHeadQue (x : Nat) :
    (setHead s a v).que x = if x = a then { s.que x with head := v } else s.que x := rfl
@[simp] theorem setTailItem : (setTail s a v).item = s.item := rfl
@[simp] theorem setTailQue (x : Nat) :
    (setTail s a v).que x = if x = a then { s.que x with tail := v } else s.que x := rfl

end

def qInit (s : Mem) (que : Nat) : Mem := if que ≠ 0 then setTail (setHead s que 0) que 0 else s

def qFront (s : Mem) (que item : Nat) : Mem × Nat :=
  if item = 0 ∨ que = 0 then (s,0)
  else if (s.que que).head ≠ 0 then
    let s := setNext s item (s.que que).head
    let s := setPrev s item (s.item (s.item item).next).prev
    let s := setPrev s (s.item item).next item
    (setHead s que item,item)
  else
    let s := setNext s item (s.que que).tail
    let s := setPrev s item (s.que que).head
    let s := setTail s que item
    (setHead s que item,item)

def qEnd (s : Mem) (que item : Nat) : Mem × Nat :=
  if item = 0 ∨ que = 0 then (s,0)
  else if (s.que que).tail ≠ 0 then
    let s := setPrev s item (s.que que).tail
    let s := setNext s item (s.item (s.item item).prev).next
    let s := setNext s (s.item item).prev item
    (setTail s que item,item)
  else
    let s := setNext s item (s.que que).tail
    let s := setPrev s item (s.que que).head
    let s := setHead s que item
    (setTail s que item,item)

def qRemv (s : Mem) (que item : Nat) : Mem × Nat :=
  if item = 0 ∨ que = 0 then (s,0)
  else
    let s := if (s.item item).prev ≠ 0 then setNext s (s.item item).prev (s.item item).next
      else setHead s que (s.item item).next
    let s := if (s.item item).next ≠ 0 then setPrev s (s.item item).next (s.item item).prev
      else setTail s que (s.item item).prev
    (s,item)

/- The callback may change the memory, and the successor was fetched before. A walk of more
than `fuel` items has no result. -/
def qForallFrom {σ : Type} (links : σ → Mem) (callback : σ → Nat → σ × Nat) : Nat → σ → Nat → Option (σ × Nat)
  | 0,_,_ => none
  | fuel + 1,s,it =>
    if it = 0 then some (s,0)
    else
      let next := ((links s).item it).next
      let (s,ret) := callback s it
      if ret ≠ 0 then some (s,ret) else qForallFrom links callback fuel s next

def qForall {σ : Type} (links : σ → Mem) (callback : σ → Nat → σ × Nat) (fuel : Nat) (s : σ) (que : Nat) :
    Option (σ × Nat) :=
  if que = 0 then some (s,0) else qForallFrom links callback fuel s ((links s).que que).head

-- The next-chain from the head is the prev-chain from the tail, turned round.
structure WellFormed (s : Mem) (que : Nat) (items : List Nat) : Prop where
  ends : (s.que que).head = 0 ↔ (s.que que).tail = 0
  forward : Path 0 (fun a => (s.item a).next) (s.que que).head items 0
  back : Path 0 (fun a => (s.item a).prev) (s.que que).tail items.reverse 0
  once : items.Nodup

structure Family (s : Mem) (ques : List Nat) (lists : Nat → List Nat) : Prop where
  heads : ques.Nodup
  real : 0 ∉ ques
  formed : ∀ que ∈ ques, WellFormed s que (lists que)
  apart : ∀ que ∈ ques, ∀ other ∈ ques, que ≠ other → (lists que).Disjoint (lists other)

section
variable {s s' : Mem} {que item a v x : Nat} {items : List Nat}

abbrev Linked (s : Mem) (p o : Nat) (items : List Nat) (q r : Nat) : Prop :=
  Seg 0 (fun a => (s.item a).next) (fun a => (s.item a).prev) p o items q r

theorem wellFormedLinked :
    WellFormed s que items ↔ Linked s (s.que que).head 0 items 0 (s.que que).tail ∧ items.Nodup := by
  constructor
  · intro formed
    exact ⟨segPaths.mpr ⟨formed.forward,formed.back⟩,formed.once⟩
  · rintro ⟨seg,once⟩
    obtain ⟨forward,back⟩ := segPaths.mp seg
    exact ⟨(seg.ends.1 rfl).trans (seg.ends.2 rfl).symm,forward,back,once⟩

theorem WellFormed.frame (formed : WellFormed s que items) (head : s'.que que = s.que que)
    (same : ∀ a ∈ items, s'.item a = s.item a) : WellFormed s' que items := by
  obtain ⟨seg,once⟩ := wellFormedLinked.mp formed
  refine wellFormedLinked.mpr ⟨?_,once⟩
  rw [head]
  exact seg.frame (fun a member => by rw [same a member]) (fun a member => by rw [same a member])

/-! Both ends at once: an item is put between `o` and `p`, of which either may be NULL, or
taken from between them. -/

-- From `o` the way now goes to `u`, and from `p` back to `w`; the links of `item` are open.
structure Rejoined (s s' : Mem) (que item o p u w : Nat) : Prop where
  next : ∀ x, x ≠ item → (s'.item x).next = if x = o ∧ o ≠ 0 then u else (s.item x).next
  prev : ∀ x, x ≠ item → (s'.item x).prev = if x = p ∧ p ≠ 0 then w else (s.item x).prev
  head : (s'.que que).head = if o = 0 then u else (s.que que).head
  tail : (s'.que que).tail = if p = 0 then w else (s.que que).tail
  others : ∀ q, q ≠ que → s'.que q = s.que q

structure Inserted (s s' : Mem) (que item o p : Nat) : Prop extends Rejoined s s' que item o p item item where
  own : s'.item item = ⟨p,o⟩

theorem frontInserted (real : item ≠ 0) (head : que ≠ 0) (formed : WellFormed s que items) (fresh : item ∉ items) :
    Inserted s (qFront s que item).1 que item 0 (s.que que).head := by
  obtain ⟨seg,-⟩ := wellFormedLinked.mp formed
  unfold qFront
  rw [if_neg (by simp [real,head])]
  cases items with
  | nil =>
    have first : (s.que que).head = 0 := seg.1
    have last : (s.que que).tail = 0 := seg.2
    rw [if_neg (not_not.mpr first),first,last]
    refine ⟨?_,by simp [first]⟩
    constructor
    case next =>
      intro x other
      simp [other]
    case prev =>
      intro x other
      simp [other]
    case head => simp
    case tail => simp
    case others =>
      intro q other
      simp [other]
  | cons a rest =>
    obtain ⟨first,some_,before,-⟩ := seg
    have apart : a ≠ item := fun same => fresh (same ▸ List.mem_cons_self)
    rw [first,if_pos some_]
    refine ⟨?_,by simp [Ne.symm apart,apart,before]⟩
    constructor
    case next =>
      intro x other
      by_cases here : x = a
      · simp [here,apart]
      · simp [other,here]
    case prev =>
      intro x other
      by_cases here : x = a
      · simp [here,apart,some_]
      · simp [other,here]
    case head => simp
    case tail => simp [some_]
    case others =>
      intro q other
      simp [other]

theorem endInserted (real : item ≠ 0) (head : que ≠ 0) (formed : WellFormed s que items) (fresh : item ∉ items) :
    Inserted s (qEnd s que item).1 que item (s.que que).tail 0 := by
  obtain ⟨seg,-⟩ := wellFormedLinked.mp formed
  unfold qEnd
  rw [if_neg (by simp [real,head])]
  rcases List.eq_nil_or_concat items with rfl | ⟨front,z,rfl⟩
  · have first : (s.que que).head = 0 := seg.1
    have last : (s.que que).tail = 0 := seg.2
    rw [if_neg (not_not.mpr last),last]
    refine ⟨?_,by simp [first]⟩
    constructor
    case next =>
      intro x other
      simp [other]
    case prev =>
      intro x other
      simp [other]
    case head => simp
    case tail => simp
    case others =>
      intro q other
      simp [other]
  · rw [List.concat_eq_append] at seg fresh
    obtain ⟨last,after,-,some_⟩ := segLast seg
    have apart : z ≠ item := fun same => fresh (by simp [same])
    rw [← last,if_pos some_]
    refine ⟨?_,by simp [Ne.symm apart,apart,after]⟩
    constructor
    case next =>
      intro x other
      by_cases here : x = z
      · simp [here,apart,some_]
      · simp [other,here]
    case prev =>
      intro x other
      by_cases here : x = z
      · simp [here,apart]
      · simp [other,here]
    case head => simp [some_]
    case tail => simp
    case others =>
      intro q other
      simp [other]

theorem remvRemoved (real : item ≠ 0) (head : que ≠ 0) (apart : (s.item item).prev ≠ item) :
    Rejoined s (qRemv s que item).1 que item (s.item item).prev (s.item item).next (s.item item).next
      (s.item item).prev := by
  unfold qRemv
  rw [if_neg (by simp [real,head])]
  -- The first store leaves the links of the item alone.
  generalize before : (if (s.item item).prev ≠ 0 then setNext s (s.item item).prev (s.item item).next
    else setHead s que (s.item item).next) = t
  have kept : t.item item = s.item item := by
    rw [← before]
    split
    · simp [Ne.symm apart]
    · rfl
  have next : ∀ x, (t.item x).next =
      if x = (s.item item).prev ∧ (s.item item).prev ≠ 0 then (s.item item).next else (s.item x).next := by
    intro x
    rw [← before]
    split
    · by_cases here : x = (s.item item).prev <;> simp [*]
    · simp [*]
  have prev : ∀ x, (t.item x).prev = (s.item x).prev := by
    intro x
    rw [← before]
    split
    · by_cases here : x = (s.item item).prev <;> simp [here]
    · rfl
  have heads : (t.que que).head = if (s.item item).prev = 0 then (s.item item).next else (s.que que).head := by
    rw [← before]
    split <;> simp [*]
  have tails : (t.que que).tail = (s.que que).tail := by
    rw [← before]
    split <;> simp
  have others : ∀ q, q ≠ que → t.que q = s.que q := by
    intro q other
    rw [← before]
    split <;> simp [other]
  change Rejoined s (if (t.item item).next ≠ 0 then setPrev t (t.item item).next (t.item item).prev
    else setTail t que (t.item item).prev) que item _ _ _ _
  rw [kept]
  constructor
  case next =>
    intro x _
    rw [← next x]
    split
    · by_cases here : x = (s.item item).next <;> simp [here]
    · rfl
  case prev =>
    intro x _
    rw [← prev x]
    split
    · by_cases here : x = (s.item item).next <;> simp [*]
    · simp [*]
  case head =>
    rw [← heads]
    split <;> simp
  case tail =>
    rw [← tails]
    split <;> simp [*]
  case others =>
    intro q other
    rw [← others q other]
    split <;> simp [other]

variable {o p u w m n : Nat} {left right : List Nat}

theorem Rejoined.parts (joined : Rejoined s s' que item o p u w)
    (before : Linked s (s.que que).head 0 left m o) (after : Linked s p n right 0 (s.que que).tail)
    (once : (left ++ right).Nodup) (fresh : item ∉ left ++ right) :
    Linked s' (s'.que que).head 0 left u o ∧ Linked s' p w right 0 (s'.que que).tail := by
  obtain ⟨onceLeft,onceRight,apart⟩ := List.nodup_append.mp once
  have awayLeft : ∀ x ∈ left, x ≠ item := fun x member same => fresh (List.mem_append_left _ (same ▸ member))
  have awayRight : ∀ x ∈ right, x ≠ item := fun x member same => fresh (List.mem_append_right _ (same ▸ member))
  have noLeft := before.ends.2 rfl
  have noRight := after.ends.1 rfl
  constructor
  · rw [joined.head,if_congr noLeft rfl rfl]
    refine before.retarget onceLeft ?_ ?_ ?_
    · intro some_
      rw [joined.next o (awayLeft o (before.last some_)),if_pos ⟨rfl,fun none => some_ (noLeft.mp none)⟩]
    · intro x member other
      rw [joined.next x (awayLeft x member),if_neg (fun both => other both.1)]
    · intro x member
      rw [joined.prev x (awayLeft x member),if_neg]
      rintro ⟨rfl,some_⟩
      exact apart x member x (after.first (fun none => some_ (noRight.mpr none))) rfl
  · rw [joined.tail,if_congr noRight rfl rfl]
    refine after.resource onceRight ?_ ?_ ?_
    · intro some_
      rw [joined.prev p (awayRight p (after.first some_)),if_pos ⟨rfl,fun none => some_ (noRight.mp none)⟩]
    · intro x member other
      rw [joined.prev x (awayRight x member),if_neg (fun both => other both.1)]
    · intro x member
      rw [joined.next x (awayRight x member),if_neg]
      rintro ⟨rfl,some_⟩
      exact apart x (before.last (fun none => some_ (noLeft.mpr none))) x member rfl

theorem Rejoined.elsewhere (joined : Rejoined s s' que item o p u w)
    (before : Linked s (s.que que).head 0 left m o) (after : Linked s p n right 0 (s.que que).tail)
    (other : x ≠ item) (away : x ∉ left ++ right) : s'.item x = s.item x := by
  have next : (s'.item x).next = (s.item x).next := by
    rw [joined.next x other,if_neg]
    rintro ⟨rfl,some_⟩
    exact away (List.mem_append_left _ (before.last (fun none => some_ ((before.ends.2 rfl).mpr none))))
  have prev : (s'.item x).prev = (s.item x).prev := by
    rw [joined.prev x other,if_neg]
    rintro ⟨rfl,some_⟩
    exact away (List.mem_append_right _ (after.first (fun none => some_ ((after.ends.1 rfl).mpr none))))
  exact (Item.mk.injEq _ _ _ _).mpr ⟨next,prev⟩

theorem Inserted.formed (put : Inserted s s' que item o p) (real : item ≠ 0)
    (before : Linked s (s.que que).head 0 left p o) (after : Linked s p o right 0 (s.que que).tail)
    (once : (left ++ right).Nodup) (fresh : item ∉ left ++ right) : WellFormed s' que (left ++ item::right) := by
  obtain ⟨first,second⟩ := put.toRejoined.parts before after once fresh
  have ahead : (s'.item item).next = p := congrArg Item.next put.own
  have behind : (s'.item item).prev = o := congrArg Item.prev put.own
  rw [← ahead] at second
  refine wellFormedLinked.mpr ⟨segAppend.mpr ⟨item,o,first,rfl,real,behind,second⟩,?_⟩
  exact List.nodup_middle.mpr (List.nodup_cons.mpr ⟨fresh,once⟩)

structure Local (s s' : Mem) (que item : Nat) (items items' : List Nat) : Prop where
  formed : WellFormed s' que items'
  heads : ∀ q, q ≠ que → s'.que q = s.que q
  elsewhere : ∀ x, x ≠ item → x ∉ items → s'.item x = s.item x

theorem frontLocal (real : item ≠ 0) (head : que ≠ 0) (formed : WellFormed s que items) (fresh : item ∉ items) :
    Local s (qFront s que item).1 que item items (item::items) := by
  obtain ⟨seg,once⟩ := wellFormedLinked.mp formed
  have put := frontInserted real head formed fresh
  have before : Linked s (s.que que).head 0 [] (s.que que).head 0 := ⟨rfl,rfl⟩
  exact ⟨put.formed real before seg once fresh,put.others,
    fun x other away => put.toRejoined.elsewhere before seg other away⟩

theorem endLocal (real : item ≠ 0) (head : que ≠ 0) (formed : WellFormed s que items) (fresh : item ∉ items) :
    Local s (qEnd s que item).1 que item items (items ++ [item]) := by
  obtain ⟨seg,once⟩ := wellFormedLinked.mp formed
  have put := endInserted real head formed fresh
  have after : Linked s 0 (s.que que).tail [] 0 (s.que que).tail := ⟨rfl,rfl⟩
  have whole : items ++ [] = items := List.append_nil items
  refine ⟨put.formed real seg after (by rwa [whole]) (by rwa [whole]),put.others,fun x other away => ?_⟩
  exact put.toRejoined.elsewhere seg after other (by rwa [whole])

theorem remvLocal (head : que ≠ 0) (formed : WellFormed s que items) (member : item ∈ items) :
    Local s (qRemv s que item).1 que item items (items.erase item) := by
  obtain ⟨seg,once⟩ := wellFormedLinked.mp formed
  obtain ⟨left,right,rfl⟩ := List.append_of_mem member
  obtain ⟨m,n,before,rfl,real,behind,after⟩ := segAppend.mp seg
  obtain ⟨fresh,rest⟩ := List.nodup_cons.mp (List.nodup_middle.mp once)
  have apart : (s.item m).prev ≠ m := by
    intro same
    have last : m = n := same.symm.trans behind
    have some_ : left ≠ [] := fun none => real (last.trans ((before.ends.2 rfl).mpr none))
    rw [last] at fresh
    exact fresh (List.mem_append_left _ (before.last some_))
  have joined := remvRemoved real head apart
  rw [← behind] at before
  obtain ⟨first,second⟩ := joined.parts before after rest fresh
  have erased : (left ++ m::right).erase m = left ++ right := by
    rw [List.erase_append_right _ (fun old => fresh (List.mem_append_left _ old)),List.erase_cons_head]
  rw [erased]
  refine ⟨wellFormedLinked.mpr ⟨segAppend.mpr ⟨_,_,first,second⟩,rest⟩,joined.others,fun x other away => ?_⟩
  refine joined.elsewhere before after other (fun old => away ?_)
  rcases List.mem_append.mp old with left | right
  · exact List.mem_append_left _ left
  · exact List.mem_append_right _ (List.mem_cons_of_mem _ right)

theorem initFormed (s : Mem) (head : que ≠ 0) : WellFormed (qInit s que) que [] := by
  unfold qInit
  rw [if_pos head]
  refine wellFormedLinked.mpr ⟨⟨?_,?_⟩,List.nodup_nil⟩
  · simp
  · simp

/- A walk meets the items that were linked when it began, each once and in order, as long as
the callback lets it go on and leaves the items ahead linked. It ends with the last of them
or with the first that the callback answers for. -/
theorem forallWalks {σ : Type} {links : σ → Mem} {callback : σ → Nat → σ × Nat} {P : List Nat → List Nat → σ → Prop}
    (ahead : ∀ done rest s, P done rest s → ∃ m, Path 0 (fun a => ((links s).item a).next) m rest 0)
    (visit : ∀ done a rest s, P done (a::rest) s → (callback s a).2 = 0 → P (done ++ [a]) rest (callback s a).1)
    {fuel : Nat} {done rest : List Nat} {s : σ} (enough : rest.length < fuel) (held : P done rest s) :
    (∃ s', qForallFrom links callback fuel s (rest.headD 0) = some (s',0) ∧ P (done ++ rest) [] s') ∨
    ∃ front a left t, rest = front ++ a::left ∧ P (done ++ front) (a::left) t ∧ (callback t a).2 ≠ 0 ∧
      qForallFrom links callback fuel s (rest.headD 0) = some (callback t a) := by
  induction rest generalizing fuel done s with
  | nil =>
    obtain ⟨fuel,rfl⟩ := Nat.exists_eq_add_of_lt enough
    refine .inl ⟨s,by simp [qForallFrom],?_⟩
    rwa [List.append_nil]
  | cons a rest ih =>
    obtain ⟨fuel,rfl⟩ : ∃ n, fuel = n + 1 := ⟨fuel - 1,by omega⟩
    obtain ⟨m,path⟩ := ahead done (a::rest) s held
    have real : a ≠ 0 := path.2.1
    have fetched : ((links s).item a).next = rest.headD 0 := pathHead path.2.2
    rw [List.headD_cons,qForallFrom,if_neg real]
    simp only [fetched]
    by_cases goes : (callback s a).2 = 0
    · rw [if_neg (not_not.mpr goes)]
      rcases ih (Nat.lt_of_succ_lt_succ enough) (visit done a rest s held goes) with ⟨s',walk,last⟩ | stopped
      · exact .inl ⟨s',walk,by simpa using last⟩
      · obtain ⟨front,b,left,t,split,held',stops,walk⟩ := stopped
        exact .inr ⟨a::front,b,left,t,by rw [split]; rfl,by simpa using held',stops,walk⟩
    · rw [if_pos goes]
      exact .inr ⟨[],a,rest,s,rfl,by simpa using held,goes,rfl⟩

theorem forallVisits {σ : Type} {links : σ → Mem} {callback : σ → Nat → σ × Nat} {P : List Nat → List Nat → σ → Prop}
    (ahead : ∀ done rest s, P done rest s → ∃ m, Path 0 (fun a => ((links s).item a).next) m rest 0)
    (visit : ∀ done a rest s, P done (a::rest) s → (callback s a).2 = 0 ∧ P (done ++ [a]) rest (callback s a).1)
    {fuel : Nat} {done rest : List Nat} {s : σ} (enough : rest.length < fuel) (held : P done rest s) :
    ∃ s', qForallFrom links callback fuel s (rest.headD 0) = some (s',0) ∧ P (done ++ rest) [] s' := by
  rcases forallWalks ahead (fun done a rest s held _ => (visit done a rest s held).2) enough held with all | stopped
  · exact all
  · obtain ⟨front,a,left,t,-,held',stops,-⟩ := stopped
    exact absurd (visit _ a left t held').1 stops

theorem forallKeeps {σ : Type} {links : σ → Mem} {callback : σ → Nat → σ × Nat} {P : σ → Prop}
    (keeps : ∀ s a, P s → P (callback s a).1) {fuel r : Nat} {s s' : σ} (held : P s)
    (walk : qForall links callback fuel s que = some (s',r)) : P s' := by
  have from_ : ∀ (fuel : Nat) (s : σ) (it : Nat), P s → qForallFrom links callback fuel s it = some (s',r) → P s' := by
    intro fuel
    induction fuel with
    | zero =>
      intro s it _ walk
      contradiction
    | succ fuel ih =>
      intro s it held walk
      rw [qForallFrom] at walk
      split at walk
      · cases Option.some.inj walk
        exact held
      · simp only at walk
        split at walk
        · have last : (callback s it).1 = s' := congrArg Prod.fst (Option.some.inj walk)
          exact last ▸ keeps s it held
        · exact ih _ _ (keeps s it held) walk
  unfold qForall at walk
  split at walk
  · cases Option.some.inj walk
    exact held
  · exact from_ fuel s _ held walk

variable {ques : List Nat} {lists : Nat → List Nat} {items' : List Nat}

theorem Family.edit (family : Family s ques lists) (member : que ∈ ques)
    (changed : Local s s' que item (lists que) items') (from_ : ∀ x ∈ items', x = item ∨ x ∈ lists que)
    (home : ∀ q ∈ ques, q ≠ que → item ∉ lists q) : Family s' ques (Function.update lists que items') := by
  have shared : ∀ other ∈ ques, other ≠ que → items'.Disjoint (lists other) := by
    intro other member' differs x new old
    rcases from_ x new with rfl | own
    · exact home other member' differs old
    · exact family.apart que member other member' differs.symm own old
  refine ⟨family.heads,family.real,?_,?_⟩
  · intro q member'
    by_cases same : q = que
    · rw [same,Function.update_self]
      exact changed.formed
    · rw [Function.update_of_ne same]
      refine (family.formed q member').frame (changed.heads q same) (fun a old => changed.elsewhere a ?_ ?_)
      · rintro rfl
        exact home q member' same old
      · exact fun own => family.apart q member' que member same old own
  · intro q member' other member'' differs
    by_cases same : q = que
    · cases same
      rw [Function.update_self,Function.update_of_ne differs.symm]
      exact shared other member'' differs.symm
    · rw [Function.update_of_ne same]
      by_cases same' : other = que
      · cases same'
        rw [Function.update_self]
        exact fun x old new => shared q member' same new old
      · rw [Function.update_of_ne same']
        exact family.apart q member' other member'' differs

theorem Family.front (family : Family s ques lists) (member : que ∈ ques) (real : item ≠ 0)
    (fresh : ∀ q ∈ ques, item ∉ lists q) :
    Family (qFront s que item).1 ques (Function.update lists que (item::lists que)) := by
  have head : que ≠ 0 := fun none => family.real (none ▸ member)
  have changed := frontLocal real head (family.formed que member) (fresh que member)
  exact family.edit member changed (fun x new => List.mem_cons.mp new) (fun q member _ => fresh q member)

theorem Family.ending (family : Family s ques lists) (member : que ∈ ques) (real : item ≠ 0)
    (fresh : ∀ q ∈ ques, item ∉ lists q) :
    Family (qEnd s que item).1 ques (Function.update lists que (lists que ++ [item])) := by
  have head : que ≠ 0 := fun none => family.real (none ▸ member)
  have changed := endLocal real head (family.formed que member) (fresh que member)
  refine family.edit member changed (fun x new => ?_) (fun q member _ => fresh q member)
  rcases List.mem_append.mp new with old | new
  · exact .inr old
  · exact .inl (List.mem_singleton.mp new)

theorem Family.remv (family : Family s ques lists) (member : que ∈ ques) (listed : item ∈ lists que) :
    Family (qRemv s que item).1 ques (Function.update lists que ((lists que).erase item)) := by
  have head : que ≠ 0 := fun none => family.real (none ▸ member)
  have changed := remvLocal head (family.formed que member) listed
  refine family.edit member changed (fun x old => .inr (List.mem_of_mem_erase old)) (fun q member' differs old => ?_)
  exact family.apart q member' que member differs old listed

inductive Op where
  | front (que item : Nat)
  | ending (que item : Nat)
  | remv (que item : Nat)
  deriving DecidableEq, Repr

def step : Step Mem Op Op := fun s op =>
  match op with
  | .front que item => some ((qFront s que item).1,[op])
  | .ending que item => some ((qEnd s que item).1,[op])
  | .remv que item => some ((qRemv s que item).1,[op])

def Holds (s : Mem) (que item : Nat) : Prop :=
  ∃ items, Path 0 (fun a => (s.item a).next) (s.que que).head items 0 ∧ item ∈ items

def Legal (ques : List Nat) (s : Mem) : Op → Prop
  | .front que item => que ∈ ques ∧ item ≠ 0 ∧ ∀ q ∈ ques, ¬ Holds s q item
  | .ending que item => que ∈ ques ∧ item ≠ 0 ∧ ∀ q ∈ ques, ¬ Holds s q item
  | .remv que item => que ∈ ques ∧ Holds s que item

def act (lists : Nat → List Nat) : Op → Nat → List Nat
  | .front que item => Function.update lists que (Queue.qFront (lists que) item)
  | .ending que item => Function.update lists que (Queue.qEnd (lists que) item)
  | .remv que item => Function.update lists que (Queue.qRemv (lists que) item)

def places (ques : List Nat) (lists : Nat → List Nat) (x : Nat) : Nat := (ques.map (fun q => (lists q).count x)).sum

def puts (x : Nat) : Op → Bool
  | .front _ item => item = x
  | .ending _ item => item = x
  | .remv _ _ => false

def takes (x : Nat) : Op → Bool
  | .remv _ item => item = x
  | _ => false

theorem Family.holds (family : Family s ques lists) (member : que ∈ ques) : Holds s que item ↔ item ∈ lists que := by
  have forward := (family.formed que member).forward
  constructor
  · rintro ⟨items,path,inside⟩
    rwa [pathUnique forward path]
  · intro inside
    exact ⟨lists que,forward,inside⟩

theorem Family.step {op : Op} {out : List Op} (family : Family s ques lists) (legal : Legal ques s op)
    (taken : QueueLinks.step s op = some (s',out)) : out = [op] ∧ Family s' ques (act lists op) := by
  cases op with
  | front que item =>
    obtain ⟨member,real,away⟩ := legal
    cases taken
    refine ⟨rfl,?_⟩
    rw [act,Queue.qFront,if_neg real]
    exact family.front member real (fun q inside old => away q inside ((family.holds inside).mpr old))
  | ending que item =>
    obtain ⟨member,real,away⟩ := legal
    cases taken
    refine ⟨rfl,?_⟩
    rw [act,Queue.qEnd,if_neg real]
    exact family.ending member real (fun q inside old => away q inside ((family.holds inside).mpr old))
  | remv que item =>
    obtain ⟨member,inside⟩ := legal
    cases taken
    have listed := (family.holds member).mp inside
    have real : item ≠ 0 := fun none => pathReal (family.formed que member).forward (none ▸ listed)
    refine ⟨rfl,?_⟩
    rw [act,Queue.qRemv,if_neg real]
    exact family.remv member listed

theorem placesUpdate (lists : Nat → List Nat) (heads : ques.Nodup) (member : que ∈ ques) (items : List Nat) (x : Nat) :
    places ques (Function.update lists que items) x + (lists que).count x = places ques lists x + items.count x := by
  induction ques with
  | nil => contradiction
  | cons q rest ih =>
    obtain ⟨fresh,heads⟩ := List.nodup_cons.mp heads
    simp only [places,List.map_cons,List.sum_cons] at ih ⊢
    rcases List.mem_cons.mp member with rfl | member
    · have same : rest.map (fun q => (Function.update lists que items q).count x) =
          rest.map (fun q => (lists q).count x) := by
        refine List.map_congr_left (fun q old => ?_)
        have other : q ≠ que := fun same => fresh (same ▸ old)
        rw [Function.update_of_ne other]
      rw [same,Function.update_self]
      omega
    · have other : q ≠ que := fun same => fresh (same ▸ member)
      have later := ih heads member
      rw [Function.update_of_ne other]
      omega

theorem actPlaces {op : Op} (family : Family s ques lists) (legal : Legal ques s op) (x : Nat) :
    places ques (act lists op) x + (if takes x op then 1 else 0) =
      places ques lists x + (if puts x op then 1 else 0) := by
  cases op with
  | front que item =>
    obtain ⟨member,real,-⟩ := legal
    have moved := placesUpdate lists family.heads member (Queue.qFront (lists que) item) x
    rw [Queue.countFront _ real] at moved
    simp only [act,takes,puts,decide_eq_true_eq,Bool.false_eq_true,if_false]
    omega
  | ending que item =>
    obtain ⟨member,real,-⟩ := legal
    have moved := placesUpdate lists family.heads member (Queue.qEnd (lists que) item) x
    rw [Queue.countEnd _ real] at moved
    simp only [act,takes,puts,decide_eq_true_eq,Bool.false_eq_true,if_false]
    omega
  | remv que item =>
    obtain ⟨member,inside⟩ := legal
    have listed := (family.holds member).mp inside
    have real : item ≠ 0 := fun none => pathReal (family.formed que member).forward (none ▸ listed)
    have moved := placesUpdate lists family.heads member (Queue.qRemv (lists que) item) x
    have count := Queue.countRemv real listed x
    simp only [act,takes,puts,decide_eq_true_eq,Bool.false_eq_true,if_false]
    omega

theorem Family.placesOnce (family : Family s ques lists) (x : Nat) : places ques lists x ≤ 1 := by
  obtain ⟨heads,-,formed,apart⟩ := family
  induction ques with
  | nil => exact Nat.zero_le 1
  | cons q rest ih =>
    obtain ⟨fresh,heads⟩ := List.nodup_cons.mp heads
    have first : (lists q).count x ≤ 1 := List.nodup_iff_count_le_one.mp (formed q List.mem_cons_self).once x
    have later := ih heads (fun que member => formed que (List.mem_cons_of_mem q member))
      (fun que member other member' => apart que (List.mem_cons_of_mem q member) other (List.mem_cons_of_mem q member'))
    simp only [places,List.map_cons,List.sum_cons] at later ⊢
    by_cases here : x ∈ lists q
    · have nowhere : (rest.map (fun q => (lists q).count x)).sum = 0 := by
        refine List.sum_eq_zero_iff_forall_eq_nat.mpr (fun k member => ?_)
        obtain ⟨other,old,rfl⟩ := List.mem_map.mp member
        have differs : q ≠ other := fun same => fresh (same ▸ old)
        exact List.count_eq_zero.mpr (apart q List.mem_cons_self other (List.mem_cons_of_mem q old) differs here)
      omega
    · rw [List.count_eq_zero.mpr here]
      omega

theorem Family.run {history : List Op} (family : Family s ques lists)
    (run : Reaches QueueLinks.step (Legal ques) (· = s) s' history) :
    Family s' ques (history.foldl act lists) ∧ ∀ x,
      places ques (history.foldl act lists) x + history.countP (takes x) =
        places ques lists x + history.countP (puts x) := by
  refine run.invariant (P := fun s' history => Family s' ques (history.foldl act lists) ∧ ∀ x,
    places ques (history.foldl act lists) x + history.countP (takes x) =
      places ques lists x + history.countP (puts x)) ?_ ?_
  · rintro _ rfl
    exact ⟨family,fun x => rfl⟩
  · rintro t history op t' out ⟨held,counted⟩ legal taken
    obtain ⟨rfl,next⟩ := held.step legal taken
    rw [List.foldl_append]
    refine ⟨next,fun x => ?_⟩
    have moved := actPlaces held legal x
    have before := counted x
    rw [List.countP_append,List.countP_append,List.countP_singleton,List.countP_singleton]
    change places ques (act (history.foldl act lists) op) x + _ = _
    omega

/-- The queues of a family act as lists, and whatever is moved between them an item stands
where it was last put. -/
theorem queuesRefineLists (family : Family s ques lists) :
    (∀ que ∈ ques, ∀ item, item ≠ 0 → (∀ q ∈ ques, item ∉ lists q) →
      Family (qFront s que item).1 ques (Function.update lists que (item::lists que)) ∧
      Family (qEnd s que item).1 ques (Function.update lists que (lists que ++ [item]))) ∧
    (∀ que ∈ ques, ∀ item ∈ lists que,
      Family (qRemv s que item).1 ques (Function.update lists que ((lists que).erase item))) ∧
    ∀ s' history, Reaches QueueLinks.step (Legal ques) (· = s) s' history →
      ∃ lists', lists' = history.foldl act lists ∧ Family s' ques lists' ∧
        ∀ x, places ques lists' x ≤ 1 ∧
          places ques lists' x + history.countP (takes x) = places ques lists x + history.countP (puts x) := by
  refine ⟨?_,?_,?_⟩
  · intro que member item real fresh
    exact ⟨family.front member real fresh,family.ending member real fresh⟩
  · intro que member item listed
    exact family.remv member listed
  · intro s' history run
    obtain ⟨last,counted⟩ := family.run run
    exact ⟨_,rfl,last,fun x => ⟨last.placesOnce x,counted x⟩⟩

end

/-! Two queues, the first with two items, of which the first is moved to the other queue. -/

def twoQueues : Mem :=
  ⟨fun a => if a = 10 then ⟨20,0⟩ else if a = 20 then ⟨0,10⟩ else ⟨7,7⟩,fun q => if q = 1 then ⟨10,20⟩ else ⟨0,0⟩⟩

def twoLists (q : Nat) : List Nat := if q = 1 then [10,20] else []

theorem twoFamily : Family twoQueues [1,2] twoLists := by
  have first : ∀ q x, x ∈ twoLists q → q = 1 := by
    intro q x member
    unfold twoLists at member
    split at member
    · assumption
    · contradiction
  refine ⟨by decide,by decide,?_,?_⟩
  · intro que member
    rcases List.mem_cons.mp member with rfl | member
    · exact ⟨by decide,⟨rfl,by decide,rfl,by decide,rfl⟩,⟨rfl,by decide,rfl,by decide,rfl⟩,by decide⟩
    · cases List.mem_singleton.mp member
      exact ⟨by decide,rfl,rfl,by decide⟩
  · intro que _ other _ differs x left right
    exact differs ((first que x left).trans (first other x right).symm)

theorem queuesRefineListsMoved : ∃ lists, lists 1 = [20] ∧ lists 2 = [10] ∧
    Family (qEnd (qRemv twoQueues 1 10).1 2 10).1 [1,2] lists := by
  have taken := (queuesRefineLists twoFamily).2.1 1 (by decide) 10 (by decide)
  have put := ((queuesRefineLists taken).1 2 (by decide) 10 (by decide) (by decide)).2
  exact ⟨_,by decide,by decide,put⟩

end Avros.QueueLinks
