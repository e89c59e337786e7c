import Avros.Tiling
import Avros.Run

/-! `misc/malloc.c`: the chunk list lives in the memory it manages. A store into a chunk
changes what is read through a chunk_t pointer at the addresses nearby, and the clients
write into their blocks as they like. A loop that takes more steps than there are
addresses does not end. Addresses are numbers, 0 is NULL. -/
namespace Avros.Malloc
open Run Tiling

structure Chunk where
  next : Nat
  size : Nat
  free : Bool
  deriving DecidableEq, Repr

-- What a chunk_t pointer to each address reads.
abbrev Mem := Nat → Chunk

-- sizeof(chunk_t), and the width of a pointer and of size_t.
structure Target where
  header : Nat
  bits : Nat
  positive : 0 < header

def Target.add (T : Target) (x y : Nat) : Nat := (x + y) % 2 ^ T.bits
def Target.sub (T : Target) (x y : Nat) : Nat := (x + (2 ^ T.bits - y)) % 2 ^ T.bits

/- `noise` is what is found where a chunk would overlap the stored one. -/
def put (T : Target) (noise mem : Mem) (it : Nat) (c : Chunk) : Mem := fun a =>
  if a = it then c else if a < it + T.header ∧ it < a + T.header then noise a else mem a

-- "free but big, split it!"
def split (T : Target) (noise mem : Mem) (it len : Nat) : Mem :=
  let ch := T.add (T.add it len) T.header
  let mem := put T noise mem ch { mem ch with next := (mem it).next }
  let mem := put T noise mem it { mem it with next := ch }
  let mem := put T noise mem ch { mem ch with free := (mem it).free }
  let mem := put T noise mem ch { mem ch with size := T.sub (mem it).size (T.add len T.header) }
  let mem := put T noise mem it { mem it with size := T.sub (mem it).size (mem ch).size }
  put T noise mem it { mem it with free := false }

def doMallocFrom (T : Target) (noise : Mem) (len : Nat) : Nat → Mem → Nat → Option (Mem × Nat)
  | 0,_,_ => none
  | fuel + 1,mem,it =>
    if it = 0 then some (mem,0)
    else if (mem it).free = false then doMallocFrom T noise len fuel mem (mem it).next
    else if T.add len T.header > (mem it).size then doMallocFrom T noise len fuel mem (mem it).next
    else if T.add (T.add len T.header) T.header ≥ (mem it).size then
      some (put T noise mem it { mem it with free := false },T.add it T.header)
    else some (split T noise mem it len,T.add it T.header)

def doMalloc (T : Target) (noise mem : Mem) (it : Nat) (len : Nat) : Option (Mem × Nat) :=
  if len = 0 then some (mem,0) else doMallocFrom T noise len (2 ^ T.bits) mem it

-- "merge with next free"
def mergeOne (T : Target) (noise mem : Mem) (it : Nat) : Mem :=
  let mem := put T noise mem it { mem it with size := T.add (mem it).size (mem (mem it).next).size }
  put T noise mem it { mem it with next := (mem (mem it).next).next }

-- The inner loop of do_free: `it` takes in the free chunks that follow.
def mergeNext (T : Target) (noise : Mem) : Nat → Mem → Nat → Option Mem
  | 0,_,_ => none
  | fuel + 1,mem,it =>
    if (mem it).free ∧ (mem it).next ≠ 0 ∧ (mem (mem it).next).free then
      mergeNext T noise fuel (mergeOne T noise mem it) it
    else some mem

def merge (T : Target) (noise : Mem) : Nat → Mem → Nat → Option Mem
  | 0,_,_ => none
  | fuel + 1,mem,it =>
    if it = 0 then some mem
    else do
      let mem ← mergeNext T noise (2 ^ T.bits) mem it
      merge T noise fuel mem (mem it).next

def doFree (T : Target) (noise mem : Mem) (it p : Nat) : Option Mem :=
  if p = 0 then some mem
  else
    let ch := T.sub p T.header
    merge T noise (2 ^ T.bits) (put T noise mem ch { mem ch with free := true }) it

def chunklistInit (T : Target) (noise mem : Mem) (it : Nat) (heapSize : Nat) : Mem :=
  let mem := put T noise mem it { mem it with free := true }
  let mem := put T noise mem it { mem it with size := heapSize }
  put T noise mem it { mem it with next := 0 }

/-! A heap and its clients: `held` are the pointers they have got and not given back, each
with the length that was asked for. -/

structure Heap where
  mem : Mem
  held : List (Nat × Nat)

inductive Op where
  | malloc (len : Nat) (noise : Mem)
  | free (p : Nat) (noise : Mem)
  | write (mem : Mem)

-- A step reports what do_malloc returns.
def step (T : Target) (it : Nat) : Step Heap Op Nat := fun s op =>
  match op with
  | .malloc len noise => do
    let (mem,p) ← doMalloc T noise s.mem it len
    some (⟨mem,if p = 0 then s.held else (p,len)::s.held⟩,[p])
  | .free p noise => do
    let mem ← doFree T noise s.mem it p
    some (⟨mem,s.held.eraseP (·.1 = p)⟩,[])
  | .write mem => some (⟨mem,s.held⟩,[])

-- Clients write into their own blocks, and free what they hold.
def Legal (T : Target) (s : Heap) : Op → Prop
  | .malloc len _ => len + 2 * T.header < 2 ^ T.bits
  | .free p _ => ∃ len, (p,len) ∈ s.held
  | .write mem => ∀ a, (∀ b ∈ s.held, a + T.header ≤ b.1 ∨ b.1 + b.2 ≤ a) → mem a = s.mem a

structure Opened (T : Target) (it : Nat) (heapSize : Nat) (s : Heap) : Prop where
  real : it ≠ 0
  inside : it + heapSize ≤ 2 ^ T.bits
  larger : T.header < heapSize
  fresh : ∃ noise mem, s = ⟨chunklistInit T noise mem it heapSize,[]⟩

/-! The chunk list is a row of cells. -/

section
variable {T : Target} {noise mem mem' : Mem} {it a : Nat} {len : Nat} {cells : List (Cell Nat)}

def Laid (mem : Mem) : Nat → List (Cell Nat) → Prop
  | _,[] => True
  | it,c::rest =>
    mem it = ⟨if rest = [] then 0 else it + c.size,c.size,decide (c.user = none)⟩ ∧ Laid mem (it + c.size) rest

@[simp] theorem putAt (c : Chunk) : put T noise mem it c it = c := if_pos rfl

theorem putAway (c : Chunk) (away : a + T.header ≤ it ∨ it + T.header ≤ a) : put T noise mem it c a = mem a := by
  have positive := T.positive
  unfold put
  rw [if_neg (by omega),if_neg (by omega)]

theorem Laid.frame (laid : Laid mem it cells) (same : ∀ a, it ≤ a → mem' a = mem a) : Laid mem' it cells := by
  induction cells generalizing it with
  | nil => trivial
  | cons c rest ih =>
    exact ⟨(same it (Nat.le_refl it)).trans laid.1,ih laid.2 (fun a later => same a (by omega))⟩

theorem Laid.only (laid : Laid mem it cells) (same : ∀ x c, (x,c) ∈ placed it cells → mem' x = mem x) :
    Laid mem' it cells := by
  induction cells generalizing it with
  | nil => trivial
  | cons c rest ih =>
    refine ⟨(same it c List.mem_cons_self).trans laid.1,?_⟩
    exact ih laid.2 (fun x d member => same x d (List.mem_cons_of_mem _ member))

theorem laidPlaced {x : Nat} {c : Cell Nat} (laid : Laid mem it cells) (member : (x,c) ∈ placed it cells) :
    (mem x).size = c.size ∧ (mem x).free = decide (c.user = none) := by
  induction cells generalizing it with
  | nil => contradiction
  | cons d rest ih =>
    rcases List.mem_cons.mp member with same | old
    · cases same
      rw [laid.1]
      exact ⟨rfl,rfl⟩
    · exact ih laid.2 old

theorem addSmall {x y : Nat} (small : x + y < 2 ^ T.bits) : T.add x y = x + y := Nat.mod_eq_of_lt small

theorem subSmall {x y : Nat} (small : x < 2 ^ T.bits) (less : y ≤ x) : T.sub x y = x - y := by
  unfold Target.sub
  have whole : x + (2 ^ T.bits - y) = x - y + 2 ^ T.bits := by omega
  rw [whole,Nat.add_mod_right,Nat.mod_eq_of_lt (by omega)]

theorem splitChunks (noise : Mem) {size : Nat} {free : Bool} {next : Nat} (chunk : mem it = ⟨next,size,free⟩)
    (real : it ≠ 0) (inside : it + size ≤ 2 ^ T.bits) (loose : len + T.header + T.header < size) :
    split T noise mem it len it = ⟨it + (len + T.header),len + T.header,false⟩ ∧
    split T noise mem it len (it + (len + T.header)) = ⟨next,size - (len + T.header),free⟩ ∧
    ∀ a, a + T.header ≤ it ∨ it + size ≤ a → split T noise mem it len a = mem a := by
  have positive := T.positive
  have apart : it + T.header ≤ it + (len + T.header) := by omega
  have place : T.add (T.add it len) T.header = it + (len + T.header) := by
    rw [addSmall (x := it) (by omega),addSmall (by omega),Nat.add_assoc]
  have need : T.add len T.header = len + T.header := addSmall (by omega)
  have rest : T.sub size (len + T.header) = size - (len + T.header) := subSmall (by omega) (by omega)
  have left : T.sub size (size - (len + T.header)) = len + T.header := by
    rw [subSmall (by omega) (by omega)]
    omega
  have below : it + (len + T.header) + T.header ≤ it + size := by omega
  unfold split
  rw [place,need]
  generalize it + (len + T.header) = ch at apart below
  have front : ∀ mem c, put T noise mem ch c it = mem it := fun mem c => putAway c (.inl apart)
  have behind : ∀ mem c, put T noise mem it c ch = mem ch := fun mem c => putAway c (.inr apart)
  refine ⟨?_,?_,?_⟩
  · simp [front,behind,chunk,rest,left]
  · simp [front,behind,chunk,rest]
  · intro a away
    have old : ∀ mem c, put T noise mem it c a = mem a := fun mem c => putAway c (by omega)
    have new : ∀ mem c, put T noise mem ch c a = mem a := fun mem c => putAway c (by omega)
    simp [old,new]

def start (it : Nat) (cells : List (Cell Nat)) : Nat := if cells = [] then 0 else it

def Answered (T : Target) (mem mem' : Mem) (it p : Nat) : Option (Nat × List (Cell Nat)) → Prop
  | none => p = 0 ∧ mem' = mem
  | some (q,cells') => p = q + T.header ∧ p ≠ 0 ∧ Laid mem' it cells' ∧ cells' ≠ [] ∧
      ∀ a, a + T.header ≤ it → mem' a = mem a

theorem mallocPasses (noise : Mem) {fuel size next : Nat} {free : Bool} (real : it ≠ 0)
    (chunk : mem it = ⟨next,size,free⟩) (short : free = true → size < T.add len T.header) :
    doMallocFrom T noise len (fuel + 1) mem it = doMallocFrom T noise len fuel mem next := by
  rw [doMallocFrom,if_neg real,chunk]
  cases free with
  | false => rw [if_pos rfl]
  | true => rw [if_neg (by simp),if_pos (short rfl)]

theorem mallocLaid (noise : Mem) {fuel : Nat} (enough : cells.length < fuel) (laid : Laid mem it cells) (real : it ≠ 0)
    (inside : it + total cells ≤ 2 ^ T.bits) (wide : Wide T.header cells) (asked : len ≠ 0)
    (small : len + 2 * T.header < 2 ^ T.bits) :
    ∃ mem' p, doMallocFrom T noise len fuel mem (start it cells) = some (mem',p) ∧
      Answered T mem mem' it p (allocate T.header (len + T.header) len it cells) := by
  have positive := T.positive
  induction cells generalizing it fuel with
  | nil =>
    obtain ⟨fuel,rfl⟩ := Nat.exists_eq_add_of_lt enough
    exact ⟨mem,0,rfl,rfl,rfl⟩
  | cons c rest ih =>
    obtain ⟨fuel,rfl⟩ : ∃ n, fuel = n + 1 := ⟨fuel - 1,by omega⟩
    obtain ⟨chunk,later⟩ := laid
    obtain ⟨first,rests⟩ := List.forall_mem_cons.mp wide
    rw [totalCons] at inside
    have begins : start it (c::rest) = it := if_neg (by simp)
    have need : T.add len T.header = len + T.header := addSmall (by omega)
    have spare : T.add (len + T.header) T.header = len + T.header + T.header := addSmall (by omega)
    have head : T.header < c.size → T.add it T.header = it + T.header := fun wider => addSmall (by omega)
    have passes : ¬ (c.user = none ∧ len + T.header ≤ c.size) →
        doMallocFrom T noise len (fuel + 1) mem it = doMallocFrom T noise len fuel mem (start (it + c.size) rest) := by
      intro not
      refine mallocPasses noise real chunk (fun free => ?_)
      rw [need]
      exact Nat.lt_of_not_le (fun large => not ⟨of_decide_eq_true free,large⟩)
    rw [begins,allocate]
    by_cases fits : c.user = none ∧ len + T.header ≤ c.size
    · rw [if_pos fits]
      obtain ⟨free,fits⟩ := fits
      have own : (decide (c.user = none)) = true := decide_eq_true free
      rw [doMallocFrom,if_neg real,chunk,need,spare,if_neg (by simp [free]),if_neg (Nat.not_lt.mpr fits),
        head (by omega)]
      by_cases tight : c.size ≤ len + T.header + T.header
      · rw [if_pos tight,if_pos tight]
        refine ⟨_,_,rfl,rfl,by omega,⟨?_,?_⟩,by simp,fun a before => putAway _ (.inl before)⟩
        · simp
        · exact later.frame (fun a after => putAway _ (.inr (by omega)))
      · rw [if_neg tight,if_neg tight]
        have cuts := splitChunks noise chunk real (by omega) (Nat.lt_of_not_le tight)
        refine ⟨_,_,rfl,rfl,by omega,⟨?_,?_,?_⟩,by simp,fun a before => cuts.2.2 a (.inl before)⟩
        · rw [cuts.1]
          simp
        · rw [cuts.2.1,own]
          have whole : it + (len + T.header) + (c.size - (len + T.header)) = it + c.size := by omega
          simp [whole]
        · have whole : it + (len + T.header) + (c.size - (len + T.header)) = it + c.size := by omega
          change Laid _ (it + (len + T.header) + (c.size - (len + T.header))) rest
          rw [whole]
          exact later.frame (fun a after => cuts.2.2 a (.inr after))
    · rw [if_neg fits]
      have shorter : rest.length < fuel := by simpa using enough
      obtain ⟨mem',p,walk,out⟩ := ih shorter later (by omega) (by omega) rests
      refine ⟨mem',p,(passes fits).trans walk,?_⟩
      cases took : allocate T.header (len + T.header) len (it + c.size) rest with
      | none =>
        rw [took] at out
        exact out
      | some x =>
        rw [took] at out
        obtain ⟨same,given,rows,some_,frame⟩ := out
        refine ⟨same,given,⟨?_,rows⟩,by simp,fun a before => frame a (by omega)⟩
        rw [frame it (by omega),chunk]
        have nonempty : rest ≠ [] := by
          rintro rfl
          contradiction
        rw [if_neg nonempty,if_neg some_]

theorem mergeOneChunks (noise : Mem) {size next more : Nat} {free right : Bool} {next' : Nat}
    (chunk : mem it = ⟨next,size,free⟩) (behind : mem next = ⟨next',more,right⟩) (apart : it + T.header ≤ next)
    (small : size + more < 2 ^ T.bits) :
    mergeOne T noise mem it it = ⟨next',size + more,free⟩ ∧
    ∀ a, a + T.header ≤ it ∨ it + T.header ≤ a → mergeOne T noise mem it a = mem a := by
  unfold mergeOne
  constructor
  · have ahead : ∀ mem c, put T noise mem it c next = mem next := fun mem c => putAway c (.inr apart)
    simp [ahead,chunk,behind,addSmall small]
  · intro a away
    have kept : ∀ mem c, put T noise mem it c a = mem a := fun mem c => putAway c away
    simp [kept]

theorem mergeNextLaid (noise : Mem) {fuel : Nat} {c : Cell Nat} {rest : List (Cell Nat)} (enough : rest.length < fuel)
    (laid : Laid mem it (c::rest)) (real : it ≠ 0) (inside : it + total (c::rest) ≤ 2 ^ T.bits)
    (wide : Wide T.header (c::rest)) :
    ∃ mem', mergeNext T noise fuel mem it = some mem' ∧ Laid mem' it ((absorb c rest).1::(absorb c rest).2) ∧
      ∀ a, a + T.header ≤ it → mem' a = mem a := by
  have positive := T.positive
  induction rest generalizing c fuel mem with
  | nil =>
    obtain ⟨fuel,rfl⟩ : ∃ n, fuel = n + 1 := ⟨fuel - 1,by omega⟩
    refine ⟨mem,?_,laid,fun _ _ => rfl⟩
    rw [mergeNext,laid.1]
    simp
  | cons d rest ih =>
    obtain ⟨fuel,rfl⟩ : ∃ n, fuel = n + 1 := ⟨fuel - 1,by omega⟩
    obtain ⟨chunk,next,later⟩ := laid
    obtain ⟨first,rests⟩ := List.forall_mem_cons.mp wide
    obtain ⟨second,more⟩ := List.forall_mem_cons.mp rests
    rw [totalCons,totalCons] at inside
    rw [if_neg (by simp)] at chunk
    have behind : it + c.size ≠ 0 := by omega
    rw [mergeNext,absorb]
    by_cases free : c.user = none ∧ d.user = none
    · have joins : (mem it).free = true ∧ (mem it).next ≠ 0 ∧ (mem (mem it).next).free = true := by
        rw [chunk]
        exact ⟨decide_eq_true free.1,behind,by rw [next]; exact decide_eq_true free.2⟩
      rw [if_pos joins,if_pos free]
      have beyond : it + T.header ≤ it + c.size := Nat.add_le_add_left first it
      have small : c.size + d.size < 2 ^ T.bits := by omega
      obtain ⟨joined,away⟩ := mergeOneChunks noise chunk next beyond small
      have row : Laid (mergeOne T noise mem it) it (⟨c.size + d.size,none⟩::rest) := by
        refine ⟨?_,?_⟩
        · rw [joined,Nat.add_assoc]
          simp [free.1]
        · rw [Nat.add_assoc] at later
          exact later.frame (fun a after => away a (.inr (by omega)))
      have wider : Wide T.header (⟨c.size + d.size,none⟩::rest) :=
        List.forall_mem_cons.mpr ⟨Nat.le_add_right_of_le first,more⟩
      have room : it + total (⟨c.size + d.size,none⟩::rest : List (Cell Nat)) ≤ 2 ^ T.bits := by
        change it + (c.size + d.size + total rest) ≤ 2 ^ T.bits
        omega
      obtain ⟨mem',walk,rows,frame⟩ := ih (Nat.lt_of_succ_lt_succ enough) row room wider
      exact ⟨mem',walk,rows,fun a before => (frame a before).trans (away a (.inl before))⟩
    · have apart : ¬ ((mem it).free = true ∧ (mem it).next ≠ 0 ∧ (mem (mem it).next).free = true) := by
        rw [chunk]
        rintro ⟨left,-,right⟩
        rw [next] at right
        exact free ⟨of_decide_eq_true left,of_decide_eq_true right⟩
      rw [if_neg apart,if_neg free]
      exact ⟨mem,rfl,⟨by rw [chunk,if_neg (by simp)],next,later⟩,fun _ _ => rfl⟩

theorem settleNonempty (c : Cell Nat) (rest : List (Cell Nat)) : settle c rest ≠ [] := by
  obtain ⟨d,more,same,-⟩ := settleHead c rest
  rw [same]
  exact List.cons_ne_nil d more

theorem mergeLaid (noise : Mem) {fuel : Nat} {c : Cell Nat} {rest : List (Cell Nat)} (enough : rest.length + 1 < fuel)
    (laid : Laid mem it (c::rest)) (real : it ≠ 0) (inside : it + total (c::rest) ≤ 2 ^ T.bits)
    (wide : Wide T.header (c::rest)) :
    ∃ mem', merge T noise fuel mem it = some mem' ∧ Laid mem' it (settle c rest) ∧
      ∀ a, a + T.header ≤ it → mem' a = mem a := by
  have positive := T.positive
  induction fuel generalizing c rest it mem with
  | zero => contradiction
  | succ fuel ih =>
    have steps : rest.length < 2 ^ T.bits := by
      have bound := lengthBound positive wide
      rw [List.length_cons] at bound
      omega
    obtain ⟨mem1,inner,row,frame⟩ := mergeNextLaid noise steps laid real inside wide
    have shorter := absorbShorter c rest
    have same := absorbTotal c rest
    have wider := absorbWide wide
    rw [totalCons] at inside
    rw [merge,if_neg real,inner,settleAbsorb]
    change ∃ mem', merge T noise fuel mem1 (mem1 it).next = some mem' ∧ _
    generalize (absorb c rest).1 = e at row same wider
    generalize (absorb c rest).2 = more at row shorter same wider
    obtain ⟨chunk,later⟩ := row
    obtain ⟨first,rests⟩ := List.forall_mem_cons.mp wider
    obtain ⟨fuel,rfl⟩ : ∃ n, fuel = n + 1 := ⟨fuel - 1,by omega⟩
    cases more with
    | nil =>
      refine ⟨mem1,?_,⟨chunk,trivial⟩,frame⟩
      rw [chunk]
      rfl
    | cons d more =>
      rw [List.length_cons] at shorter
      have beyond : it + e.size ≠ 0 := by omega
      have room : it + e.size + total (d::more) ≤ 2 ^ T.bits := by omega
      obtain ⟨mem2,outer,rows,frame'⟩ := ih (by omega) later beyond room rests
      refine ⟨mem2,?_,⟨?_,rows⟩,fun a before => (frame' a (by omega)).trans (frame a before)⟩
      · rw [chunk]
        exact outer
      · rw [frame' it (by omega),chunk,if_neg (List.cons_ne_nil d more),if_neg (settleNonempty d more)]

theorem markLaid (noise : Mem) {q : Nat} (positive : Wide T.header cells) (laid : Laid mem it cells)
    (member : ∃ b, (q,b) ∈ users it cells) :
    Laid (put T noise mem q { mem q with free := true }) it (release q it cells) := by
  have large := T.positive
  obtain ⟨b,member⟩ := member
  induction cells generalizing it with
  | nil => contradiction
  | cons c rest ih =>
    obtain ⟨first,rests⟩ := List.forall_mem_cons.mp positive
    obtain ⟨chunk,later⟩ := laid
    unfold release
    by_cases here : it = q
    · rw [if_pos here]
      cases here
      refine ⟨?_,later.frame (fun a after => putAway _ (.inr (by omega)))⟩
      simp [chunk]
    · rw [if_neg here]
      have old : (q,b) ∈ users (it + c.size) rest := by
        cases used : c.user with
        | none =>
          rw [usersFree used] at member
          exact member
        | some x =>
          rw [usersUsed used] at member
          rcases List.mem_cons.mp member with same | old
          · cases same
            contradiction
          · exact old
      have after := usersFrom old
      refine ⟨?_,ih rests later old⟩
      have nonempty : rest ≠ [] := by
        rintro rfl
        contradiction
      rw [putAway _ (.inl (by omega)),chunk,if_neg nonempty,if_neg (releaseNonempty nonempty)]

/-! What holds after every step. -/

def block (T : Target) (u : Nat × Nat) : Nat × Nat := (u.1 + T.header,u.2)

structure Kept (T : Target) (it heapSize : Nat) (s : Heap) (cells : List (Cell Nat)) : Prop where
  laid : Laid s.mem it cells
  nonempty : cells ≠ []
  whole : total cells = heapSize
  wide : Wide T.header cells
  roomy : Roomy (fun len => len + T.header) cells
  spaced : Spaced cells
  owned : s.held.Perm ((users it cells).map (block T))

variable {heapSize : Nat} {s s' : Heap} {op : Op} {out history : List Nat}

theorem Opened.kept (opened : Opened T it heapSize s) : Kept T it heapSize s [⟨heapSize,none⟩] := by
  obtain ⟨noise,mem,rfl⟩ := opened.fresh
  have larger := opened.larger
  refine ⟨⟨?_,trivial⟩,by simp,by simp,?_,?_,List.isChain_singleton _,.refl _⟩
  · simp [chunklistInit]
  · intro c member
    rw [List.mem_singleton.mp member]
    exact Nat.le_of_lt larger
  · intro c member len used
    rw [List.mem_singleton.mp member] at used
    contradiction

theorem Kept.inside (kept : Kept T it heapSize s cells) (inside : it + heapSize ≤ 2 ^ T.bits) :
    it + total cells ≤ 2 ^ T.bits := by
  rwa [kept.whole]

theorem Kept.short (kept : Kept T it heapSize s cells) (real : it ≠ 0) (inside : it + heapSize ≤ 2 ^ T.bits) :
    cells.length < 2 ^ T.bits := by
  have bound := lengthBound T.positive kept.wide
  rw [kept.whole] at bound
  omega

theorem Kept.answered {len : Nat} (noise : Mem) (kept : Kept T it heapSize s cells) (real : it ≠ 0)
    (inside : it + heapSize ≤ 2 ^ T.bits) (asked : len ≠ 0) (small : len + 2 * T.header < 2 ^ T.bits) :
    ∃ mem' p, doMalloc T noise s.mem it len = some (mem',p) ∧
      Answered T s.mem mem' it p (allocate T.header (len + T.header) len it cells) := by
  obtain ⟨mem',p,walk,answer⟩ :=
    mallocLaid noise (kept.short real inside) kept.laid real (kept.inside inside) kept.wide asked small
  have begins : start it cells = it := if_neg kept.nonempty
  rw [begins] at walk
  exact ⟨mem',p,by rw [doMalloc,if_neg asked,walk],answer⟩

theorem Kept.allocated {len q : Nat} {cells' : List (Cell Nat)} (kept : Kept T it heapSize s cells)
    (took : allocate T.header (len + T.header) len it cells = some (q,cells')) (row : Laid mem' it cells')
    (nonempty : cells' ≠ []) : Kept T it heapSize ⟨mem',(q + T.header,len)::s.held⟩ cells' := by
  refine ⟨row,nonempty,(allocateTotal took).trans kept.whole,
    allocateWide kept.wide (Nat.le_add_left _ _) (Nat.le_succ _) took,allocateRoomy kept.roomy took,
    allocateSpaced kept.spaced took,?_⟩
  have added : ((users it cells').map (block T)).Perm ((q + T.header,len)::(users it cells).map (block T)) :=
    (allocateUsers took).map (block T)
  exact (kept.owned.cons _).trans added.symm

theorem Kept.malloc {len : Nat} (kept : Kept T it heapSize s cells) (real : it ≠ 0)
    (inside : it + heapSize ≤ 2 ^ T.bits) (small : len + 2 * T.header < 2 ^ T.bits) :
    ∃ s' out cells', step T it s (.malloc len noise) = some (s',out) ∧ Kept T it heapSize s' cells' ∧
      (Wide (T.header + 1) cells → Wide (T.header + 1) cells') := by
  by_cases asked : len = 0
  · refine ⟨s,[0],cells,?_,kept,id⟩
    simp [step,doMalloc,asked]
  obtain ⟨mem',p,walk,answer⟩ := kept.answered noise real inside asked small
  have taken : step T it s (.malloc len noise) = some (⟨mem',if p = 0 then s.held else (p,len)::s.held⟩,[p]) := by
    simp [step,walk]
  refine ⟨⟨mem',if p = 0 then s.held else (p,len)::s.held⟩,[p],?_⟩
  cases took : allocate T.header (len + T.header) len it cells with
  | none =>
    rw [took] at answer
    obtain ⟨rfl,rfl⟩ := answer
    exact ⟨cells,taken,kept,id⟩
  | some x =>
    obtain ⟨q,cells'⟩ := x
    rw [took] at answer
    obtain ⟨rfl,given,row,nonempty,-⟩ := answer
    rw [if_neg given] at taken ⊢
    exact ⟨cells',taken,kept.allocated took row nonempty,
      fun wider => allocateWide wider (by omega) (Nat.le_refl _) took⟩

theorem Kept.released {q len : Nat} (noise : Mem) (kept : Kept T it heapSize s cells) (real : it ≠ 0)
    (inside : it + heapSize ≤ 2 ^ T.bits) (used : (q,len) ∈ users it cells) :
    ∃ mem' d rest, release q it cells = d::rest ∧ doFree T noise s.mem it (q + T.header) = some mem' ∧
      Laid mem' it (settle d rest) := by
  have positive := T.positive
  obtain ⟨c,place,user⟩ := usersPlaced.mp used
  obtain ⟨old,low,high⟩ := placedInside place
  have fits := kept.roomy c old _ user
  rw [kept.whole] at high
  change len + T.header ≤ c.size at fits
  have small : q < 2 ^ T.bits := by omega
  have chunk : T.sub (q + T.header) T.header = q := by
    have wraps : q + T.header + (2 ^ T.bits - T.header) = q + 2 ^ T.bits := by omega
    rw [Target.sub,wraps,Nat.add_mod_right,Nat.mod_eq_of_lt small]
  have marked := markLaid noise kept.wide kept.laid ⟨_,used⟩
  have total' := releaseTotal q it cells
  have wide' := releaseWide (q := q) (p := it) kept.wide
  obtain ⟨d,rest,same⟩ := List.exists_cons_of_ne_nil (releaseNonempty (q := q) (p := it) kept.nonempty)
  rw [same] at marked total' wide'
  have bound := lengthBound positive wide'
  rw [total',kept.whole] at bound
  have steps : rest.length + 1 < 2 ^ T.bits := by
    rw [List.length_cons] at bound
    omega
  have room : it + total (d::rest) ≤ 2 ^ T.bits := by rwa [total',kept.whole]
  obtain ⟨mem',walk,laid',-⟩ := mergeLaid noise steps marked real room wide'
  have given : q + T.header ≠ 0 := by omega
  refine ⟨mem',d,rest,same,?_,laid'⟩
  rw [doFree,if_neg given,chunk]
  exact walk

theorem Kept.free {p len : Nat} (kept : Kept T it heapSize s cells) (real : it ≠ 0)
    (inside : it + heapSize ≤ 2 ^ T.bits) (member : (p,len) ∈ s.held) :
    ∃ s' out cells', step T it s (.free p noise) = some (s',out) ∧ Kept T it heapSize s' cells' ∧
      (Wide (T.header + 1) cells → Wide (T.header + 1) cells') := by
  have positive := T.positive
  obtain ⟨⟨q,len'⟩,used,same⟩ := List.mem_map.mp (kept.owned.mem_iff.mp member)
  obtain ⟨rfl,rfl⟩ := Prod.mk.inj same
  obtain ⟨mem',d,rest,left,freed,laid'⟩ := kept.released noise real inside used
  have total' := releaseTotal q it cells
  have wide' := releaseWide (q := q) (p := it) kept.wide
  have roomy' := releaseRoomy (q := q) (p := it) kept.roomy
  have users' := releaseUsers positive kept.wide used
  rw [left] at total' wide' roomy' users'
  refine ⟨⟨mem',s.held.eraseP (·.1 = q + T.header)⟩,[],settle d rest,?_,⟨laid',settleNonempty d rest,?_,
    settleWide wide',settleRoomy roomy',settleSpaced d rest,?_⟩,?_⟩
  · change (doFree T noise s.mem it (q + T.header)).bind _ = _
    rw [freed]
    rfl
  · rw [settleTotal]
    exact total'.trans kept.whole
  · have apart : s.held.Pairwise (fun b b' => b.1 ≠ b'.1) := by
      have order := usersOrder (p := it) positive kept.wide
      have distinct : ((users it cells).map (block T)).Pairwise (fun b b' => b.1 ≠ b'.1) :=
        List.pairwise_map.mpr (order.imp (fun {u v} less same => by
          have equal : u.1 + T.header = v.1 + T.header := same
          omega))
      exact (kept.owned.pairwise_iff (fun differs same => differs same.symm)).mpr distinct
    have once : s.held.Pairwise (fun b b' => decide (b.1 = q + T.header) → decide (b'.1 = q + T.header) → False) :=
      apart.imp (fun differs left right => differs ((of_decide_eq_true left).trans (of_decide_eq_true right).symm))
    have listed : s.held.Perm ((q + T.header,len')::(users it (d::rest)).map (block T)) :=
      kept.owned.trans (users'.map (block T))
    have erased := List.Perm.eraseP (fun b => decide (b.1 = q + T.header)) once listed
    rw [settleUsers]
    simpa using erased
  · intro wider
    have larger := releaseWide (q := q) (p := it) wider
    rw [left] at larger
    exact settleWide larger

theorem Kept.clear {b : Nat × Nat} {x : Nat} {c : Cell Nat} (kept : Kept T it heapSize s cells) (held : b ∈ s.held)
    (member : (x,c) ∈ placed it cells) : x + T.header ≤ b.1 ∨ b.1 + b.2 ≤ x := by
  obtain ⟨⟨q,len⟩,used,rfl⟩ := List.mem_map.mp (kept.owned.mem_iff.mp held)
  obtain ⟨d,place,user⟩ := usersPlaced.mp used
  have least := kept.wide c (placedInside member).1
  have fits := kept.roomy d (placedInside place).1 _ user
  change x + T.header ≤ q + T.header ∨ q + T.header + len ≤ x
  change len + T.header ≤ d.size at fits
  rcases placedApart member place with same | left | right
  · cases same
    exact .inl (Nat.le_refl _)
  · exact .inl (by omega)
  · exact .inr (by omega)

theorem Kept.write (kept : Kept T it heapSize s cells) (own : Legal T s (.write mem)) :
    Kept T it heapSize ⟨mem,s.held⟩ cells :=
  { kept with laid := kept.laid.only (fun x _ member => own x (fun _ held => kept.clear held member)) }

theorem Kept.step (kept : Kept T it heapSize s cells) (real : it ≠ 0) (inside : it + heapSize ≤ 2 ^ T.bits)
    (legal : Legal T s op) :
    ∃ s' out cells', Malloc.step T it s op = some (s',out) ∧ Kept T it heapSize s' cells' ∧
      (Wide (T.header + 1) cells → Wide (T.header + 1) cells') := by
  cases op with
  | malloc len noise => exact kept.malloc real inside legal
  | free p noise =>
    obtain ⟨len,member⟩ := legal
    exact kept.free real inside member
  | write mem => exact ⟨_,_,cells,rfl,kept.write legal,id⟩

theorem keptRun (run : Reaches (step T it) (Legal T) (Opened T it heapSize) s history) :
    (it ≠ 0 ∧ it + heapSize ≤ 2 ^ T.bits) ∧ ∃ cells, Kept T it heapSize s cells := by
  refine run.stateInvariant (P := fun s => (it ≠ 0 ∧ it + heapSize ≤ 2 ^ T.bits) ∧
    ∃ cells, Kept T it heapSize s cells) ?_ ?_
  · intro s opened
    exact ⟨⟨opened.real,opened.inside⟩,_,opened.kept⟩
  · intro s op s' out held legal taken
    obtain ⟨bounds,cells,kept⟩ := held
    obtain ⟨t,more,cells',taken',kept',-⟩ := kept.step bounds.1 bounds.2 legal
    cases taken.symm.trans taken'
    exact ⟨bounds,cells',kept'⟩

/-! The chunk list as do_malloc and do_free walk it. -/

def Listed (mem : Mem) : Nat → List Nat → Prop
  | p,[] => p = 0
  | p,a::rest => p = a ∧ a ≠ 0 ∧ Listed mem (mem a).next rest

structure Tiled (T : Target) (it heapSize : Nat) (s : Heap) (list : List Nat) : Prop where
  listed : Listed s.mem it list
  order : list.Pairwise (· < ·)
  first : list.head? = some it
  tiles : list.IsChain (fun a b => b = a + (s.mem a).size)
  wide : ∀ a ∈ list, T.header ≤ (s.mem a).size
  whole : (list.map (fun a => (s.mem a).size)).sum = heapSize
  owned : ∀ b ∈ s.held, ∃! a, a ∈ list ∧ b.1 = a + T.header ∧ (s.mem a).free = false ∧
    b.2 + T.header ≤ (s.mem a).size
  used : ∀ a ∈ list, (s.mem a).free = false → ∃ b ∈ s.held, b.1 = a + T.header
  apart : s.held.Pairwise (fun b c => b.1 ≠ c.1 ∧ (b.1 + b.2 ≤ c.1 ∨ c.1 + c.2 ≤ b.1))
  clear : ∀ b ∈ s.held, ∀ a ∈ list, a + T.header ≤ b.1 ∨ b.1 + b.2 ≤ a

theorem laidListed (laid : Laid mem it cells) (real : it ≠ 0) :
    Listed mem (start it cells) ((placed it cells).map Prod.fst) := by
  induction cells generalizing it with
  | nil => rfl
  | cons c rest ih =>
    refine ⟨if_neg (by simp),real,?_⟩
    rw [laid.1]
    exact ih laid.2 (by omega)

theorem Kept.blocksApart (kept : Kept T it heapSize s cells) :
    s.held.Pairwise (fun b c => b.1 ≠ c.1 ∧ (b.1 + b.2 ≤ c.1 ∨ c.1 + c.2 ≤ b.1)) := by
  refine (kept.owned.pairwise_iff (fun apart => ⟨apart.1.symm,apart.2.symm⟩)).mpr (List.pairwise_map.mpr ?_)
  refine (usersOrder T.positive kept.wide).imp_of_mem (fun {u v} left right less => ?_)
  obtain ⟨c,place,user⟩ := usersPlaced.mp left
  obtain ⟨d,place',-⟩ := usersPlaced.mp right
  have fits := kept.roomy c (placedInside place).1 _ user
  change u.1 + T.header ≠ v.1 + T.header ∧
    (u.1 + T.header + u.2 ≤ v.1 + T.header ∨ v.1 + T.header + v.2 ≤ u.1 + T.header)
  change u.2 + T.header ≤ c.size at fits
  rcases placedApart place place' with same | left | right
  · have equal : u.1 = v.1 := (Prod.mk.inj same).1
    omega
  · omega
  · omega

theorem Kept.tiled (kept : Kept T it heapSize s cells) (real : it ≠ 0) :
    Tiled T it heapSize s ((placed it cells).map Prod.fst) := by
  have positive := T.positive
  have begins : start it cells = it := if_neg kept.nonempty
  have sizes : ∀ x c, (x,c) ∈ placed it cells → (s.mem x).size = c.size :=
    fun x c member => (laidPlaced kept.laid member).1
  constructor
  case listed =>
    have listed := laidListed kept.laid real
    rwa [begins] at listed
  case order =>
    refine List.pairwise_map.mpr ((placedOrder it cells).imp_of_mem (fun {u v} left _ before => ?_))
    have least := kept.wide u.2 (placedInside left).1
    change u.1 < v.1
    omega
  case first =>
    obtain ⟨c,rest,same⟩ := List.exists_cons_of_ne_nil kept.nonempty
    rw [same]
    rfl
  case tiles => exact placedChain sizes
  case wide =>
    intro a member
    obtain ⟨⟨x,c⟩,place,rfl⟩ := List.mem_map.mp member
    rw [sizes x c place]
    exact kept.wide c (placedInside place).1
  case whole =>
    rw [List.map_map,← kept.whole,← placedTotal it cells]
    exact congrArg List.sum (List.map_congr_left (fun u member => sizes u.1 u.2 member))
  case owned =>
    intro b held
    obtain ⟨⟨q,len⟩,used,rfl⟩ := List.mem_map.mp (kept.owned.mem_iff.mp held)
    obtain ⟨c,place,user⟩ := usersPlaced.mp used
    have fits := kept.roomy c (placedInside place).1 _ user
    refine ⟨q,⟨List.mem_map.mpr ⟨(q,c),place,rfl⟩,rfl,?_,?_⟩,?_⟩
    · rw [(laidPlaced kept.laid place).2]
      exact decide_eq_false (by simp [user])
    · rw [sizes q c place]
      exact fits
    · intro a other
      have same : q + T.header = a + T.header := other.2.1
      omega
  case used =>
    intro a member taken
    obtain ⟨⟨x,c⟩,place,rfl⟩ := List.mem_map.mp member
    rw [(laidPlaced kept.laid place).2] at taken
    obtain ⟨len,user⟩ := Option.ne_none_iff_exists'.mp (of_decide_eq_false taken)
    have own : block T (x,len) ∈ (users it cells).map (block T) :=
      List.mem_map_of_mem (usersPlaced.mpr ⟨c,place,user⟩)
    exact ⟨_,kept.owned.mem_iff.mpr own,rfl⟩
  case apart => exact kept.blocksApart
  case clear =>
    intro b held a member
    obtain ⟨⟨x,c⟩,place,rfl⟩ := List.mem_map.mp member
    exact kept.clear held place

/-- The chunks tile the heap after any calls, and no legal call fails to return. -/
theorem chunksTile (run : Reaches (step T it) (Legal T) (Opened T it heapSize) s history) :
    (∃ list, Tiled T it heapSize s list) ∧ ∀ op, Legal T s op → (step T it s op).isSome := by
  obtain ⟨⟨real,inside⟩,cells,kept⟩ := keptRun run
  refine ⟨⟨_,kept.tiled real⟩,fun op legal => ?_⟩
  obtain ⟨s',out,cells',taken,-⟩ := kept.step real inside legal
  rw [taken]
  rfl

theorem Kept.freeApart (kept : Kept T it heapSize s cells) :
    ((placed it cells).map Prod.fst).IsChain (fun a b => (s.mem a).free → ¬ (s.mem b).free) := by
  obtain ⟨laid,-,-,-,-,spaced,-⟩ := kept
  induction cells generalizing it with
  | nil => exact .nil
  | cons c rest ih =>
    have later := ih laid.2 (List.IsChain.tail spaced)
    cases rest with
    | nil => exact List.isChain_singleton _
    | cons d more =>
      refine List.isChain_cons_cons.mpr ⟨fun left right => ?_,later⟩
      rw [laid.1] at left
      rw [laid.2.1] at right
      exact (List.isChain_cons_cons.mp spaced).1 (of_decide_eq_true left) (of_decide_eq_true right)

/-- Free chunks never stand side by side, so once all is given back there is the one chunk again. -/
theorem freeChunksMerge (run : Reaches (step T it) (Legal T) (Opened T it heapSize) s history) :
    ∃ list, Listed s.mem it list ∧ list.IsChain (fun a b => (s.mem a).free → ¬ (s.mem b).free) ∧
      (s.held = [] → list = [it] ∧ s.mem it = ⟨0,heapSize,true⟩) := by
  obtain ⟨⟨real,-⟩,cells,kept⟩ := keptRun run
  refine ⟨_,(kept.tiled real).listed,kept.freeApart,fun given => ?_⟩
  have unused : users it cells = [] := by
    have owned := kept.owned
    rw [given] at owned
    exact List.map_eq_nil_iff.mp (List.nil_perm.mp owned)
  have whole := spacedWhole kept.spaced unused kept.nonempty
  have laid := kept.laid
  rw [whole,kept.whole] at laid ⊢
  exact ⟨rfl,laid.1⟩

end

/-! As in `misc/malloc_test.c`: a heap of 1024 bytes and blocks given back in another order
than they were taken in. A chunk_t of the atmega1284 takes five bytes. -/

theorem atmegaHeader : 0 < 5 := by decide

def atmega : Target := ⟨5,16,atmegaHeader⟩

def blank : Mem := fun _ => ⟨0,0,false⟩

def opened : Heap := ⟨chunklistInit atmega blank blank 512 1024,[]⟩

theorem openedStarts : Opened atmega 512 1024 opened :=
  ⟨by decide,by decide,by decide,blank,blank,rfl⟩

def checkOp (s : Heap) : Op → Bool
  | .malloc len _ => len + 2 * 5 < 2 ^ 16
  | .free p _ => s.held.any (·.1 = p)
  | .write _ => false

theorem checkOpSound (s : Heap) (op : Op) (ok : checkOp s op = true) : Legal atmega s op := by
  cases op with
  | malloc len noise =>
    have small : len + 2 * 5 < 2 ^ 16 := of_decide_eq_true ok
    exact small
  | free p noise =>
    obtain ⟨b,held,same⟩ := List.any_eq_true.mp ok
    have equal : b.1 = p := of_decide_eq_true same
    exact ⟨b.2,by rw [← equal]; exact held⟩
  | write mem => contradiction

structure Seen where
  out : List Nat
  held : List (Nat × Nat)
  deriving DecidableEq

def seen (ops : List Op) : Option Seen :=
  (follow (step atmega 512) checkOp opened ops).map (fun x => ⟨x.2,x.1.held⟩)

theorem seenReached {ops : List Op} {out : List Nat} {held : List (Nat × Nat)} (ran : seen ops = some ⟨out,held⟩) :
    ∃ s, Reaches (step atmega 512) (Legal atmega) (Opened atmega 512 1024) s out ∧ s.held = held := by
  obtain ⟨⟨s,more⟩,followed,same⟩ := Option.map_eq_some_iff.mp ran
  cases same
  have run := Reaches.follows checkOpSound ops (.start openedStarts) followed
  exact ⟨s,run,rfl⟩

theorem threeBlocks : seen [.malloc 128 blank,.malloc 128 blank,.malloc 128 blank,.free 650 blank] =
    some ⟨[517,650,783],[(783,128),(517,128)]⟩ := by
  decide +kernel

theorem threeGiven : seen [.malloc 128 blank,.malloc 128 blank,.malloc 128 blank,.free 517 blank,.free 783 blank,
    .free 650 blank] = some ⟨[517,650,783],[]⟩ := by
  decide +kernel

theorem chunksTileAround : ∃ s : Heap, s.held = [(783,128),(517,128)] ∧ (∃ list, Tiled atmega 512 1024 s list) ∧
    ∀ op, Legal atmega s op → (step atmega 512 s op).isSome := by
  obtain ⟨s,run,held⟩ := seenReached threeBlocks
  exact ⟨s,held,chunksTile run⟩

theorem freeChunksMergeBack : ∃ s : Heap, s.held = [] ∧ ∃ list, Listed s.mem 512 list ∧
    list.IsChain (fun a b => (s.mem a).free → ¬ (s.mem b).free) ∧
    (s.held = [] → list = [512] ∧ s.mem 512 = ⟨0,1024,true⟩) := by
  obtain ⟨s,run,held⟩ := seenReached threeGiven
  exact ⟨s,held,freeChunksMerge run⟩

end Avros.Malloc
