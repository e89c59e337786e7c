import Avros.Malloc

/-! `misc/malloc.c`, one call: do_free takes back what do_malloc has just done, and
do_malloc answers for what fits as long as its sums fit a size_t. -/
namespace Avros.Malloc
open Run Tiling

section
variable {T : Target} {noise mem mem' : Mem} {it heapSize len p : Nat} {cells cells' : List (Cell Nat)}
  {s s' : Heap} {history : List Nat}

theorem laidSame (laid : Laid mem it cells) (laid' : Laid mem' it cells) :
    ∀ a ∈ (placed it cells).map Prod.fst, mem' a = mem a := by
  induction cells generalizing it with
  | nil => simp [placed]
  | cons c rest ih =>
    intro a member
    rcases List.mem_cons.mp member with here | later
    · rw [here]
      exact laid'.1.trans laid.1.symm
    · exact ih laid.2 laid'.2 a later

theorem Kept.listed (kept : Kept T it heapSize s cells) (real : it ≠ 0) :
    Listed s.mem it ((placed it cells).map Prod.fst) := by
  have begins : start it cells = it := if_neg kept.nonempty
  have listed := laidListed kept.laid real
  rwa [begins] at listed

/-- do_free right after do_malloc: the chunks are where they were, with their sizes and
flags. -/
theorem freeUndoes (run : Reaches (step T it) (Legal T) (Opened T it heapSize) s history)
    (legal : Legal T s (.malloc len noise)) (taken : step T it s (.malloc len noise) = some (s',[p]))
    (given : p ≠ 0) (noise' : Mem) :
    ∃ s'' list, step T it s' (.free p noise') = some (s'',[]) ∧ s''.held = s.held ∧
      Listed s.mem it list ∧ Listed s''.mem it list ∧ ∀ a ∈ list, s''.mem a = s.mem a := by
  obtain ⟨⟨real,inside⟩,cells,kept⟩ := keptRun run
  have small : len + 2 * T.header < 2 ^ T.bits := legal
  have asked : len ≠ 0 := by
    rintro rfl
    have null : step T it s (.malloc 0 noise) = some (s,[0]) := by simp [step,doMalloc]
    rw [null] at taken
    exact given (List.cons.inj (Prod.mk.inj (Option.some.inj taken)).2).1.symm
  obtain ⟨mem',p',walk,answer⟩ := kept.answered noise real inside asked small
  have called : step T it s (.malloc len noise) = some (⟨mem',if p' = 0 then s.held else (p',len)::s.held⟩,[p']) := by
    simp [step,walk]
  obtain ⟨same,out⟩ := Prod.mk.inj (Option.some.inj (called.symm.trans taken))
  obtain ⟨rfl,-⟩ := List.cons.inj out
  rw [if_neg given] at same
  cases took : allocate T.header (len + T.header) len it cells with
  | none =>
    rw [took] at answer
    exact absurd answer.1 given
  | some x =>
    obtain ⟨q,cells'⟩ := x
    rw [took] at answer
    obtain ⟨rfl,-,row,nonempty,-⟩ := answer
    have kept' : Kept T it heapSize s' cells' := same ▸ kept.allocated took row nonempty
    have used : (q,len) ∈ users it cells' := (allocateUsers took).mem_iff.mpr List.mem_cons_self
    obtain ⟨mem'',d,rest,left,freed,laid⟩ := kept'.released noise' real inside used
    obtain ⟨d',rest',left',joined⟩ := allocateReleased T.positive kept.wide kept.spaced took
    obtain ⟨rfl,rfl⟩ := List.cons.inj (left.symm.trans left')
    rw [joined] at laid
    have begins : start it cells = it := if_neg kept.nonempty
    have after := laidListed laid real
    rw [begins] at after
    refine ⟨⟨mem'',s.held⟩,(placed it cells).map Prod.fst,?_,rfl,kept.listed real,after,laidSame kept.laid laid⟩
    have held : s'.held.eraseP (·.1 = q + T.header) = s.held := by
      rw [← same]
      simp
    change (doFree T noise' s'.mem it (q + T.header)).bind _ = _
    rw [freed]
    change some ((⟨mem'',s'.held.eraseP (·.1 = q + T.header)⟩ : Heap),[]) = _
    rw [held]

-- What do_malloc is to answer, by sums of whole numbers.
structure Honest (T : Target) (mem mem' : Mem) (len p : Nat) (list : List Nat) : Prop where
  null : p = 0 ↔ len = 0 ∨ ∀ a ∈ list, (mem a).free → (mem a).size < len + T.header
  block : p ≠ 0 → ∃ a ∈ list, p = a + T.header ∧ (mem a).free ∧ len + T.header ≤ (mem a).size ∧
    (∀ b ∈ list, (mem b).free → len + T.header ≤ (mem b).size → a ≤ b) ∧
    (mem' a).free = false ∧ len + T.header ≤ (mem' a).size ∧ (mem' a).size ≤ (mem a).size

def AnswersHonestly (T : Target) (mem : Mem) (it len : Nat) : Prop :=
  ∀ noise, ∃ mem' p list, doMalloc T noise mem it len = some (mem',p) ∧ Listed mem it list ∧
    Honest T mem mem' len p list

/- The sums of do_malloc fit a size_t, or no free chunk is as large as what is left of the
first of them. -/
def Answerable (T : Target) (mem : Mem) (it len : Nat) : Prop :=
  len = 0 ∨ len + 2 * T.header < 2 ^ T.bits ∨
    ∀ list, Listed mem it list → ∀ a ∈ list, (mem a).free → (mem a).size < (len + T.header) % 2 ^ T.bits

-- Any size_t that the condition lets pass may be asked for.
def Fair (T : Target) (it : Nat) (s : Heap) : Op → Prop
  | .malloc len _ => len < 2 ^ T.bits ∧ Answerable T s.mem it len
  | op => Legal T s op

theorem listedUnique {list list' : List Nat} (listed : Listed mem it list) (listed' : Listed mem it list') :
    list = list' := by
  induction list generalizing it list' with
  | nil =>
    cases list' with
    | nil => rfl
    | cons a rest => exact absurd (listed'.1.symm.trans listed) listed'.2.1
  | cons a rest ih =>
    cases list' with
    | nil => exact absurd (listed.1.symm.trans listed') listed.2.1
    | cons b rest' =>
      have same : a = b := listed.1.symm.trans listed'.1
      cases same
      rw [ih listed.2.2 listed'.2.2]

theorem refused (noise : Mem) {fuel : Nat} (enough : cells.length < fuel) (laid : Laid mem it cells) (real : it ≠ 0)
    (short : ∀ c ∈ cells, c.user = none → c.size < T.add len T.header) :
    doMallocFrom T noise len fuel mem (start it cells) = some (mem,0) := by
  induction cells generalizing it fuel with
  | nil =>
    obtain ⟨fuel,rfl⟩ := Nat.exists_eq_add_of_lt enough
    rfl
  | cons c rest ih =>
    obtain ⟨fuel,rfl⟩ : ∃ n, fuel = n + 1 := ⟨fuel - 1,by omega⟩
    obtain ⟨first,rests⟩ := List.forall_mem_cons.mp short
    have begins : start it (c::rest) = it := if_neg (by simp)
    rw [begins,mallocPasses noise real laid.1 (fun free => first (of_decide_eq_true free))]
    exact ih (Nat.lt_of_succ_lt_succ enough) laid.2 (by omega) rests

theorem granted (noise : Mem) {fuel : Nat} (enough : cells.length < fuel) (laid : Laid mem it cells) (real : it ≠ 0)
    (fits : ∃ c ∈ cells, c.user = none ∧ T.add len T.header ≤ c.size) :
    ∃ q c mem', (q,c) ∈ placed it cells ∧
      doMallocFrom T noise len fuel mem (start it cells) = some (mem',T.add q T.header) := by
  induction cells generalizing it fuel with
  | nil =>
    obtain ⟨c,member,-⟩ := fits
    contradiction
  | cons d rest ih =>
    obtain ⟨fuel,rfl⟩ : ∃ n, fuel = n + 1 := ⟨fuel - 1,by omega⟩
    have begins : start it (d::rest) = it := if_neg (by simp)
    rw [begins]
    by_cases here : d.user = none ∧ T.add len T.header ≤ d.size
    · obtain ⟨free,large⟩ := here
      rw [doMallocFrom,if_neg real,laid.1,if_neg (by simp [free]),if_neg (Nat.not_lt.mpr large)]
      by_cases tight : d.size ≤ T.add (T.add len T.header) T.header
      · exact ⟨it,d,_,List.mem_cons_self,if_pos tight⟩
      · exact ⟨it,d,_,List.mem_cons_self,if_neg tight⟩
    · have later : ∃ c ∈ rest, c.user = none ∧ T.add len T.header ≤ c.size := by
        obtain ⟨c,member,both⟩ := fits
        rcases List.mem_cons.mp member with rfl | old
        · exact absurd both here
        · exact ⟨c,old,both⟩
      obtain ⟨q,c,mem',place,walk⟩ := ih (Nat.lt_of_succ_lt_succ enough) laid.2 (by omega) later
      refine ⟨q,c,mem',List.mem_cons_of_mem _ place,?_⟩
      rw [mallocPasses noise real laid.1 (fun free => Nat.lt_of_not_le (fun large =>
        here ⟨of_decide_eq_true free,large⟩))]
      exact walk

theorem Kept.freeChunks (kept : Kept T it heapSize s cells) (P : Nat → Prop) :
    (∀ a ∈ (placed it cells).map Prod.fst, (s.mem a).free → P (s.mem a).size) ↔
      ∀ c ∈ cells, c.user = none → P c.size := by
  constructor
  · intro chunks c member free
    obtain ⟨x,place⟩ := placedAt it member
    obtain ⟨size,flag⟩ := laidPlaced kept.laid place
    rw [← size]
    exact chunks x (List.mem_map.mpr ⟨_,place,rfl⟩) (by rw [flag]; exact decide_eq_true free)
  · intro every a member free
    obtain ⟨⟨x,c⟩,place,rfl⟩ := List.mem_map.mp member
    obtain ⟨size,flag⟩ := laidPlaced kept.laid place
    change P (s.mem x).size
    rw [size]
    exact every c (placedInside place).1 (of_decide_eq_true (flag ▸ free))

theorem Kept.refuses (kept : Kept T it heapSize s cells) (real : it ≠ 0) (inside : it + heapSize ≤ 2 ^ T.bits)
    (noise : Mem) (short : ∀ c ∈ cells, c.user = none → c.size < (len + T.header) % 2 ^ T.bits) :
    doMalloc T noise s.mem it len = some (s.mem,0) := by
  have begins : start it cells = it := if_neg kept.nonempty
  have walk := refused noise (kept.short real inside) kept.laid real short
  rw [begins] at walk
  unfold doMalloc
  split
  · rfl
  · exact walk

theorem Kept.fair {op : Op} (kept : Kept T it heapSize s cells) (real : it ≠ 0) (inside : it + heapSize ≤ 2 ^ T.bits)
    (fair : Fair T it s op) :
    ∃ s' out cells', Malloc.step T it s op = some (s',out) ∧ Kept T it heapSize s' cells' ∧
      (Wide (T.header + 1) cells → Wide (T.header + 1) cells') := by
  cases op with
  | malloc len noise =>
    obtain ⟨-,none_ | small | short⟩ := fair
    · refine ⟨s,[0],cells,?_,kept,id⟩
      simp [Malloc.step,doMalloc,none_]
    · exact kept.malloc real inside small
    · refine ⟨s,[0],cells,?_,kept,id⟩
      have cellsShort := (kept.freeChunks (· < (len + T.header) % 2 ^ T.bits)).mp (short _ (kept.listed real))
      simp [Malloc.step,kept.refuses real inside noise cellsShort]
  | free p noise => exact kept.step real inside fair
  | write mem => exact kept.step real inside fair

theorem fairRun (run : Reaches (step T it) (Fair T it) (Opened T it heapSize) s history) :
    (it ≠ 0 ∧ it + heapSize ≤ 2 ^ T.bits) ∧ ∃ cells, Kept T it heapSize s cells ∧ Wide (T.header + 1) cells := by
  refine run.stateInvariant (P := fun s => (it ≠ 0 ∧ it + heapSize ≤ 2 ^ T.bits) ∧
    ∃ cells, Kept T it heapSize s cells ∧ Wide (T.header + 1) cells) ?_ ?_
  · intro s opened
    refine ⟨⟨opened.real,opened.inside⟩,_,opened.kept,?_⟩
    intro c member
    rw [List.mem_singleton.mp member]
    exact opened.larger
  · intro s op s' out held fair taken
    obtain ⟨bounds,cells,kept,wide⟩ := held
    obtain ⟨t,more,cells',taken',kept',wider⟩ := kept.fair bounds.1 bounds.2 fair
    cases taken.symm.trans taken'
    exact ⟨bounds,cells',kept',wider wide⟩

theorem tookHonestly (asked : len ≠ 0) (laid : Laid s.mem it cells) (row : Laid mem' it cells')
    (took : allocate T.header (len + T.header) len it cells = some (p,cells')) (given : p + T.header ≠ 0) :
    Honest T s.mem mem' len (p + T.header) ((placed it cells).map Prod.fst) := by
  obtain ⟨c,c',place,free,fits,place',user,enough,within⟩ := allocateTaken took
  obtain ⟨size,flag⟩ := laidPlaced laid place
  obtain ⟨size',flag'⟩ := laidPlaced row place'
  have unused : (s.mem p).free = true := flag.trans (decide_eq_true free)
  have large : len + T.header ≤ (s.mem p).size := by rwa [size]
  have member : p ∈ (placed it cells).map Prod.fst := List.mem_map.mpr ⟨_,place,rfl⟩
  refine ⟨⟨fun null => absurd null given,?_⟩,fun _ => ⟨p,member,rfl,unused,large,?_,?_,?_,?_⟩⟩
  · rintro (none_ | short)
    · exact absurd none_ asked
    · exact absurd (short p member unused) (Nat.not_lt.mpr large)
  · intro b listed unused' fits'
    obtain ⟨⟨x,d⟩,other,rfl⟩ := List.mem_map.mp listed
    obtain ⟨size_,flag_⟩ := laidPlaced laid other
    change (s.mem x).free = true at unused'
    change len + T.header ≤ (s.mem x).size at fits'
    rw [size_] at fits'
    exact allocateFirst took x d other (of_decide_eq_true (flag_ ▸ unused')) fits'
  · rw [flag',user]
    rfl
  · rwa [size']
  · rw [size,size']
    exact within

theorem nullHonestly {list : List Nat}
    (short : len = 0 ∨ ∀ a ∈ list, (mem a).free → (mem a).size < len + T.header) : Honest T mem mem' len 0 list :=
  ⟨⟨fun _ => short,fun _ => rfl⟩,fun given => absurd rfl given⟩

theorem Kept.honest (kept : Kept T it heapSize s cells) (real : it ≠ 0) (inside : it + heapSize ≤ 2 ^ T.bits)
    (answerable : Answerable T s.mem it len) : AnswersHonestly T s.mem it len := by
  intro noise
  by_cases asked : len = 0
  · exact ⟨s.mem,0,_,if_pos asked,kept.listed real,nullHonestly (.inl asked)⟩
  rcases answerable with none_ | small | short
  · exact absurd none_ asked
  · obtain ⟨mem',p,walk,answer⟩ := kept.answered noise real inside asked small
    refine ⟨mem',p,_,walk,kept.listed real,?_⟩
    cases took : allocate T.header (len + T.header) len it cells with
    | none =>
      rw [took] at answer
      obtain ⟨rfl,rfl⟩ := answer
      exact nullHonestly (.inr ((kept.freeChunks (· < len + T.header)).mpr (allocateNone.mp took)))
    | some x =>
      obtain ⟨q,cells'⟩ := x
      rw [took] at answer
      obtain ⟨rfl,given,row,-,-⟩ := answer
      exact tookHonestly asked kept.laid row took given
  · have none_ := short _ (kept.listed real)
    have cellsShort := (kept.freeChunks (· < (len + T.header) % 2 ^ T.bits)).mp none_
    have smaller : (len + T.header) % 2 ^ T.bits ≤ len + T.header := Nat.mod_le _ _
    refine ⟨s.mem,0,_,kept.refuses real inside noise cellsShort,kept.listed real,nullHonestly (.inr ?_)⟩
    exact fun a member free => Nat.lt_of_lt_of_le (none_ a member free) smaller

/- Beyond the condition the sum of the length and the header wraps, and a chunk that is
nowhere near large enough is given out. -/
theorem Kept.dishonest (kept : Kept T it heapSize s cells) (wide : Wide (T.header + 1) cells) (real : it ≠ 0)
    (inside : it + heapSize ≤ 2 ^ T.bits) (high : T.header < it) (small : len < 2 ^ T.bits)
    (honest : AnswersHonestly T s.mem it len) : Answerable T s.mem it len := by
  by_contra not
  unfold Answerable at not
  push Not at not
  obtain ⟨asked,wraps,list,listed,a,member,free,large⟩ := not
  cases listedUnique listed (kept.listed real)
  obtain ⟨⟨x,c⟩,place,rfl⟩ := List.mem_map.mp member
  obtain ⟨size,flag⟩ := laidPlaced kept.laid place
  obtain ⟨member',low,top⟩ := placedInside place
  rw [kept.whole] at top
  change (len + T.header) % 2 ^ T.bits ≤ (s.mem x).size at large
  rw [size] at large
  have above : 2 ^ T.bits ≤ len + T.header := by
    refine Nat.le_of_not_lt (fun fits => ?_)
    rw [Nat.mod_eq_of_lt fits] at large
    omega
  have begins : start it cells = it := if_neg kept.nonempty
  have unused : c.user = none := of_decide_eq_true (flag ▸ free)
  have fits : ∃ c ∈ cells, c.user = none ∧ T.add len T.header ≤ c.size := ⟨c,member',unused,large⟩
  obtain ⟨q,d,mem',place',walk⟩ := granted s.mem (kept.short real inside) kept.laid real fits
  obtain ⟨own,low',top'⟩ := placedInside place'
  rw [kept.whole] at top'
  have wider := wide d own
  have sum : T.add q T.header = q + T.header := addSmall (by omega)
  obtain ⟨mem'',p,list',called,listed',answer⟩ := honest s.mem
  cases listedUnique listed' (kept.listed real)
  rw [begins,sum] at walk
  rw [doMalloc,if_neg asked,walk] at called
  obtain ⟨-,rfl⟩ := Prod.mk.inj (Option.some.inj called)
  have none_ : ∀ a ∈ (placed it cells).map Prod.fst, (s.mem a).free → (s.mem a).size < len + T.header := by
    refine (kept.freeChunks (· < len + T.header)).mpr (fun e inside' _ => ?_)
    obtain ⟨y,there⟩ := placedAt it inside'
    obtain ⟨-,behind,last⟩ := placedInside there
    rw [kept.whole] at last
    omega
  have null := answer.null.mpr (.inr none_)
  omega

/-- What is asked for within the condition is answered honestly, whatever was asked for within
it before; beyond it nothing is, on a heap that starts above the address sizeof(chunk_t). -/
theorem mallocHonest (run : Reaches (step T it) (Fair T it) (Opened T it heapSize) s history)
    (small : len < 2 ^ T.bits) :
    (Answerable T s.mem it len → AnswersHonestly T s.mem it len) ∧
    (T.header < it → AnswersHonestly T s.mem it len → Answerable T s.mem it len) := by
  obtain ⟨⟨real,inside⟩,cells,kept,wide⟩ := fairRun run
  exact ⟨kept.honest real inside,fun high honest => kept.dishonest wide real inside high small honest⟩

end

theorem freeUndoesFirst : ∃ s' s'', step atmega 512 opened (.malloc 128 blank) = some (s',[517]) ∧
    step atmega 512 s' (.free 517 blank) = some (s'',[]) ∧ s''.mem 512 = ⟨0,1024,true⟩ := by
  have called : (step atmega 512 opened (.malloc 128 blank)).map Prod.snd = some [517] := by decide +kernel
  obtain ⟨⟨s',out⟩,taken,rfl⟩ := Option.map_eq_some_iff.mp called
  obtain ⟨s'',list,freed,-,listed,-,same⟩ :=
    freeUndoes (.start openedStarts) (show 128 + 2 * 5 < 2 ^ 16 by decide) taken (by decide) blank
  have first : (512 : Nat) ∈ list := by
    cases list with
    | nil => cases listed
    | cons a rest =>
      rw [listed.1]
      exact List.mem_cons_self
  exact ⟨s',s'',taken,freed,(same 512 first).trans (by decide +kernel)⟩

theorem mallocHonestHere : AnswersHonestly atmega opened.mem 512 128 :=
  (mallocHonest (.start openedStarts) (show 128 < 2 ^ 16 by decide)).1 (.inr (.inl (by decide)))

-- do_malloc(65535) gives out a block of a heap of 1024 bytes.
theorem hugeGranted : ¬ AnswersHonestly atmega opened.mem 512 65535 := by
  intro honest
  obtain ⟨mem',p,list,called,listed,answer⟩ := honest blank
  have given : (doMalloc atmega blank opened.mem 512 65535).map Prod.snd = some 517 := by decide +kernel
  rw [called] at given
  obtain rfl : p = 517 := Option.some.inj given
  obtain ⟨a,member,same,-,large,-⟩ := answer.block (by decide)
  have first : a = 512 := by
    change 517 = a + 5 at same
    omega
  rw [first] at large
  exact absurd large (by decide +kernel)

end Avros.Malloc
