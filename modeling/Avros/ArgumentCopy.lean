import Avros.ArgumentVector

/-! argc, pm_argstack_size and cook_argstack over the memory, loop by loop: what they make of
an argv is what the rest of PM has of its list of strings. Pointers and size_t have two
bytes; a loop that takes more steps than there are addresses has no result. -/
namespace Avros.Pm.Argv

structure Ram where
  bytes : Nat → Nat
  stores : List (Nat × Nat)

def Ram.store (m : Ram) (a v : Nat) : Ram := ⟨Function.update m.bytes a v,m.stores ++ [(a,v)]⟩

def turns : Nat := 65536

def argcFrom (bytes : Nat → Nat) (argv : Nat) : Nat → Nat → Option Nat
  | 0,_ => none
  | fuel + 1,i =>
    if argv ≠ 0 ∧ pointerAt bytes (argv + 2 * i) ≠ 0 then argcFrom bytes argv fuel (i + 1) else some i

def argc (bytes : Nat → Nat) (argv : Nat) : Option Nat := argcFrom bytes argv turns 0

def strlenFrom (bytes : Nat → Nat) (p : Nat) : Nat → Nat → Option Nat
  | 0,_ => none
  | fuel + 1,n => if bytes (p + n) ≠ 0 then strlenFrom bytes p fuel (n + 1) else some n

def strlen (bytes : Nat → Nat) (p : Nat) : Option Nat := strlenFrom bytes p turns 0

def sizeFrom (bytes : Nat → Nat) (orgargv : Nat) : Nat → Nat → Nat → Option Nat
  | 0,_,_ => none
  | fuel + 1,i,size =>
    if orgargv ≠ 0 ∧ pointerAt bytes (orgargv + 2 * i) ≠ 0 then do
      let len ← strlen bytes (pointerAt bytes (orgargv + 2 * i))
      sizeFrom bytes orgargv fuel (i + 1) ((size + (len + 1)) % 65536)
    else some ((size + 2 * (i + 1)) % 65536)

def pmArgstackSize (bytes : Nat → Nat) (orgargv : Nat) : Option Nat := sizeFrom bytes orgargv turns 0 0

-- Each byte is read from the memory as the bytes before it have left it.
def strcpyFrom (dst src : Nat) : Nat → Nat → Ram → Option Ram
  | 0,_,_ => none
  | fuel + 1,n,m =>
    let c := m.bytes (src + n)
    let m := m.store (dst + n) c
    if c = 0 then some m else strcpyFrom dst src fuel (n + 1) m

def setPointer (m : Ram) (a v : Nat) : Ram := (m.store a (v % 256)).store (a + 1) (v / 256 % 256)

def cookFrom (newargv orgargv num : Nat) : Nat → Nat → Nat → Ram → Option Ram
  | 0,_,_,_ => none
  | fuel + 1,i,bottom,m =>
    if i < num ∧ orgargv ≠ 0 ∧ pointerAt m.bytes (orgargv + 2 * i) ≠ 0 then do
      let m := setPointer m (newargv + 2 * i) bottom
      let m ← strcpyFrom bottom (pointerAt m.bytes (orgargv + 2 * i)) turns 0 m
      let len ← strlen m.bytes (pointerAt m.bytes (orgargv + 2 * i))
      cookFrom newargv orgargv num fuel (i + 1) (bottom + (len + 1)) m
    else some (setPointer m (newargv + 2 * i) 0)

def cookArgstack (bottom orgargv : Nat) (m : Ram) : Option Ram := do
  let num ← argc m.bytes orgargv
  cookFrom bottom orgargv num turns 0 (bottom + 2 * (num + 1)) m

section
variable {bytes bytes' : Nat → Nat} {m : Ram} {argv slot p lo hi fuel : Nat} {s : List Nat} {list : List (List Nat)}

theorem strlenString {n : Nat} (string : StringAt bytes (p + n) s) (enough : s.length < fuel) :
    strlenFrom bytes p fuel n = some (n + s.length) := by
  induction s generalizing n fuel with
  | nil =>
    obtain ⟨fuel,rfl⟩ := Nat.exists_eq_add_of_lt enough
    have last : bytes (p + n) = 0 := string
    simp [strlenFrom,last]
  | cons c rest ih =>
    obtain ⟨fuel,rfl⟩ : ∃ k, fuel = k + 1 := ⟨fuel - 1,by omega⟩
    obtain ⟨first,real,later⟩ := string
    rw [strlenFrom,first,if_pos real,ih (n := n + 1) later (Nat.lt_of_succ_lt_succ enough),List.length_cons]
    congr 1
    omega

theorem argcVector {i : Nat} (real : argv ≠ 0) (vector : VectorAt bytes (argv + 2 * i) list)
    (enough : list.length < fuel) : argcFrom bytes argv fuel i = some (i + list.length) := by
  induction list generalizing i fuel with
  | nil =>
    obtain ⟨fuel,rfl⟩ := Nat.exists_eq_add_of_lt enough
    have last : pointerAt bytes (argv + 2 * i) = 0 := vector
    simp [argcFrom,last]
  | cons s rest ih =>
    obtain ⟨fuel,rfl⟩ : ∃ k, fuel = k + 1 := ⟨fuel - 1,by omega⟩
    obtain ⟨some_,-,later⟩ := vector
    rw [argcFrom,if_pos ⟨real,some_⟩,ih (i := i + 1) later (Nat.lt_of_succ_lt_succ enough),List.length_cons]
    congr 1
    omega

theorem sizeVector {i size : Nat} (real : argv ≠ 0) (vector : VectorAt bytes (argv + 2 * i) list)
    (enough : list.length < fuel) (short : stringsSize list ≤ turns) :
    sizeFrom bytes argv fuel i size = some ((size + stringsSize list + 2 * (i + list.length + 1)) % 65536) := by
  induction list generalizing i size fuel with
  | nil =>
    obtain ⟨fuel,rfl⟩ := Nat.exists_eq_add_of_lt enough
    have last : pointerAt bytes (argv + 2 * i) = 0 := vector
    simp [sizeFrom,last,stringsSize]
  | cons s rest ih =>
    obtain ⟨fuel,rfl⟩ : ∃ k, fuel = k + 1 := ⟨fuel - 1,by omega⟩
    obtain ⟨some_,string,later⟩ := vector
    rw [stringsCons] at short
    have length : strlen bytes (pointerAt bytes (argv + 2 * i)) = some (0 + s.length) :=
      strlenString string (by omega)
    have next : sizeFrom bytes argv fuel (i + 1) ((size + (s.length + 1)) % 65536) =
        some (((size + (s.length + 1)) % 65536 + stringsSize rest + 2 * (i + 1 + rest.length + 1)) % 65536) :=
      ih later (Nat.lt_of_succ_lt_succ enough) (by omega)
    rw [sizeFrom,if_pos ⟨real,some_⟩,length]
    simp only [bind,Option.bind_some,Nat.zero_add]
    rw [next,stringsCons,List.length_cons]
    congr 1
    omega

def Ram.all (m : Ram) (stores : List (Nat × Nat)) : Ram := ⟨poke m.bytes stores,m.stores ++ stores⟩

theorem Ram.allAppend (m : Ram) (stores more : List (Nat × Nat)) : (m.all stores).all more = m.all (stores ++ more) := by
  simp [Ram.all,pokeAppend]

theorem setPointerAll (m : Ram) (a v : Nat) : setPointer m a v = m.all (pointerBytes a v) := by
  simp [setPointer,Ram.store,Ram.all,poke,pointerBytes]

theorem strcpyString {dst src n : Nat} (string : StringAt m.bytes (src + n) s)
    (apart : src + n + s.length < dst + n ∨ dst + n + s.length < src + n) (enough : s.length < fuel) :
    strcpyFrom dst src fuel n m = some (m.all (stringBytes (dst + n) s)) := by
  induction s generalizing n fuel m with
  | nil =>
    obtain ⟨fuel,rfl⟩ := Nat.exists_eq_add_of_lt enough
    have last : m.bytes (src + n) = 0 := string
    simp [strcpyFrom,last,Ram.store,Ram.all,poke,stringBytesNil]
  | cons c rest ih =>
    obtain ⟨fuel,rfl⟩ : ∃ k, fuel = k + 1 := ⟨fuel - 1,by omega⟩
    obtain ⟨first,real,later⟩ := string
    rw [List.length_cons] at apart
    have after : StringAt (m.store (dst + n) c).bytes (src + (n + 1)) rest := by
      refine later.same (fun k short => Function.update_of_ne ?_ _ _)
      omega
    have next := ih (n := n + 1) after (by omega) (Nat.lt_of_succ_lt_succ enough)
    rw [strcpyFrom,first]
    simp only [if_neg real]
    rw [next,stringBytesCons]
    simp [Ram.store,Ram.all,poke,Nat.add_assoc]

/- No part of the vector lies in the bytes from `lo` to `hi`. -/
def Away (bytes : Nat → Nat) (lo hi : Nat) : Nat → List (List Nat) → Prop
  | slot,[] => slot + 2 ≤ lo ∨ hi ≤ slot
  | slot,s::rest => (slot + 2 ≤ lo ∨ hi ≤ slot) ∧
      (pointerAt bytes slot + (s.length + 1) ≤ lo ∨ hi ≤ pointerAt bytes slot) ∧ Away bytes lo hi (slot + 2) rest

theorem pointerSame (same : ∀ x, x < lo ∨ hi ≤ x → bytes' x = bytes x) (apart : slot + 2 ≤ lo ∨ hi ≤ slot) :
    pointerAt bytes' slot = pointerAt bytes slot := by
  unfold pointerAt
  rw [same slot (by omega),same (slot + 1) (by omega)]

theorem vectorSame (same : ∀ x, x < lo ∨ hi ≤ x → bytes' x = bytes x) (vector : VectorAt bytes slot list)
    (away : Away bytes lo hi slot list) : VectorAt bytes' slot list ∧ Away bytes' lo hi slot list := by
  induction list generalizing slot with
  | nil => exact ⟨(pointerSame same away).trans vector,away⟩
  | cons s rest ih =>
    obtain ⟨some_,string,later⟩ := vector
    obtain ⟨beside,outside,others⟩ := away
    obtain ⟨later',others'⟩ := ih later others
    have pointer := pointerSame same beside
    refine ⟨⟨?_,?_,later'⟩,beside,?_,others'⟩
    · rwa [pointer]
    · rw [pointer]
      exact string.same (fun n short => same _ (by omega))
    · rwa [pointer]

theorem allSame {stores : List (Nat × Nat)} (inside : ∀ b ∈ stores, lo ≤ b.1 ∧ b.1 < hi) :
    ∀ x, x < lo ∨ hi ≤ x → (m.all stores).bytes x = m.bytes x := by
  intro x outside
  refine pokeOther (fun b member => ?_)
  have := inside b member
  omega

theorem cookVector {newargv orgargv num i bottom : Nat} (real : orgargv ≠ 0)
    (vector : VectorAt m.bytes (orgargv + 2 * i) list) (away : Away m.bytes lo hi (orgargv + 2 * i) list)
    (count : num = i + list.length) (enough : list.length < fuel) (low : lo ≤ newargv + 2 * i)
    (slots : newargv + 2 * i + 2 * (list.length + 1) ≤ bottom) (top : bottom + stringsSize list ≤ hi)
    (inside : hi ≤ turns) :
    cookFrom newargv orgargv num fuel i bottom m = some (m.all (cookStrings (newargv + 2 * i) bottom list)) := by
  induction list generalizing i fuel bottom m with
  | nil =>
    obtain ⟨fuel,rfl⟩ := Nat.exists_eq_add_of_lt enough
    rw [cookFrom,if_neg (fun more => by simp [count] at more),setPointerAll]
    rfl
  | cons s rest ih =>
    obtain ⟨fuel,rfl⟩ : ∃ k, fuel = k + 1 := ⟨fuel - 1,by omega⟩
    rw [List.length_cons] at count slots
    rw [stringsCons] at top
    have goes : i < num ∧ orgargv ≠ 0 ∧ pointerAt m.bytes (orgargv + 2 * i) ≠ 0 := ⟨by omega,real,vector.1⟩
    -- The pointer is stored, then the string: neither touches what is still to be read.
    have first : ∀ x, x < lo ∨ hi ≤ x → (m.all (pointerBytes (newargv + 2 * i) bottom)).bytes x = m.bytes x := by
      refine allSame (fun b member => ?_)
      simp only [pointerBytes,List.mem_cons,List.not_mem_nil,or_false] at member
      rcases member with rfl | rfl <;> simp <;> omega
    obtain ⟨vector1,away1⟩ := vectorSame first vector away
    have copied : strcpyFrom bottom (pointerAt (m.all (pointerBytes (newargv + 2 * i) bottom)).bytes (orgargv + 2 * i))
        turns 0 (m.all (pointerBytes (newargv + 2 * i) bottom)) = some _ :=
      strcpyString vector1.2.1 (by have := away1.2.1; omega) (by omega)
    rw [Nat.add_zero] at copied
    have second : ∀ x, x < lo ∨ hi ≤ x →
        ((m.all (pointerBytes (newargv + 2 * i) bottom)).all (stringBytes bottom s)).bytes x =
          (m.all (pointerBytes (newargv + 2 * i) bottom)).bytes x := by
      refine allSame (fun b member => ?_)
      have := stringBytesRange b member
      omega
    obtain ⟨vector2,away2⟩ := vectorSame second vector1 away1
    have length : strlen _ _ = some (0 + s.length) := strlenString (p := pointerAt _ _) vector2.2.1 (by omega)
    have next : cookFrom newargv orgargv num fuel (i + 1) (bottom + (s.length + 1)) _ = some _ :=
      ih vector2.2.2 away2.2.2 (by omega) (Nat.lt_of_succ_lt_succ enough) (by omega) (by omega) (by omega)
    rw [cookFrom,if_pos goes,setPointerAll]
    simp only [copied,length,bind,Option.bind_some,Nat.zero_add]
    rw [next,Ram.allAppend,Ram.allAppend]
    rfl

-- The strings stand one behind the other, from `p` to `q`.
def Adjoining (bytes : Nat → Nat) : Nat → Nat → List (List Nat) → Nat → Prop
  | _,p,[],q => p = q
  | slot,p,s::rest,q => pointerAt bytes slot = p ∧ Adjoining bytes (slot + 2) (p + (s.length + 1)) rest q

-- Each string with its NUL: where it stands and how many bytes it takes.
def places (bytes : Nat → Nat) : Nat → List (List Nat) → List (Nat × Nat)
  | _,[] => []
  | slot,s::rest => (pointerAt bytes slot,s.length + 1)::places bytes (slot + 2) rest

theorem Adjoining.apart {q : Nat} (row : Adjoining bytes slot p list q) :
    (places bytes slot list).Pairwise (fun u v => u.1 + u.2 ≤ v.1) ∧ ∀ u ∈ places bytes slot list, p ≤ u.1 := by
  induction list generalizing slot p with
  | nil => exact ⟨.nil,by simp [places]⟩
  | cons s rest ih =>
    obtain ⟨here,later⟩ := row
    obtain ⟨apart,behind⟩ := ih later
    refine ⟨.cons (fun v member => ?_) apart,fun u member => ?_⟩
    · have := behind v member
      change pointerAt bytes slot + (s.length + 1) ≤ v.1
      omega
    · rcases List.mem_cons.mp member with rfl | old
      · exact Nat.le_of_eq here.symm
      · have := behind u old
        omega

theorem adjoiningWritten {bottom : Nat} (apart : slot + 2 * (list.length + 1) ≤ bottom)
    (inside : bottom + stringsSize list ≤ 65536) :
    Adjoining (poke bytes (cookStrings slot bottom list)) slot bottom list (bottom + stringsSize list) := by
  induction list generalizing bytes slot bottom with
  | nil => rfl
  | cons s rest ih =>
    rw [stringsCons] at inside ⊢
    have pointer := cookPointer (m := bytes) apart (by omega)
    rw [List.length_cons] at apart
    have later : Adjoining (poke (poke bytes (pointerBytes slot bottom ++ stringBytes bottom s))
        (cookStrings (slot + 2) (bottom + (s.length + 1)) rest)) (slot + 2) (bottom + (s.length + 1)) rest
        (bottom + (s.length + 1) + stringsSize rest) := ih (by omega) (by omega)
    rw [← pokeAppend,Nat.add_assoc] at later
    exact ⟨pointer,later⟩

/- argv is NULL, or it leads to the pointers of the strings, and nothing it leads to is in the
bytes from `lo` to `hi`. -/
def Source (bytes : Nat → Nat) (argv : Nat) (list : List (List Nat)) (lo hi : Nat) : Prop :=
  argv = 0 ∧ list = [] ∨ argv ≠ 0 ∧ VectorAt bytes argv list ∧ Away bytes lo hi argv list

theorem vectorStrings (vector : VectorAt bytes slot list) : Strings list := by
  have plain : ∀ (p : Nat) (s : List Nat), StringAt bytes p s → ∀ c ∈ s, c ≠ 0 := by
    intro p s string
    induction s generalizing p with
    | nil => simp
    | cons c rest ih => exact List.forall_mem_cons.mpr ⟨string.2.1,ih _ string.2.2⟩
  induction list generalizing slot with
  | nil => simp [Strings]
  | cons s rest ih => exact List.forall_mem_cons.mpr ⟨plain _ s vector.2.1,ih vector.2.2⟩

theorem lengthSize (list : List (List Nat)) : list.length ≤ stringsSize list := by
  induction list with
  | nil => exact Nat.zero_le _
  | cons s rest ih =>
    rw [stringsCons,List.length_cons]
    omega

/-- cook_argstack fills the block of pm_argstack_size bytes at `a`, which lies inside the
memory, and nothing else; read back, it is the vector that argv leads to. -/
theorem argvCopied {a : Nat} (source : Source bytes argv list a (a + argvSize list)) (real : a ≠ 0)
    (inside : a + argvSize list ≤ 65536) :
    argc bytes argv = some list.length ∧ pmArgstackSize bytes argv = some (argvSize list) ∧
    ∃ m, cookArgstack a argv ⟨bytes,[]⟩ = some m ∧ m.stores = Pm.cookArgstack a list ∧
      (∀ b ∈ m.stores, a ≤ b.1 ∧ b.1 < a + argvSize list) ∧
      VectorAt m.bytes a list ∧ argc m.bytes a = some list.length ∧
      Adjoining m.bytes a (a + 2 * (list.length + 1)) list (a + argvSize list) ∧
      (places m.bytes a list).Pairwise (fun u v => u.1 + u.2 ≤ v.1) := by
  have short := lengthSize list
  have sum : argvSize list = stringsSize list + 2 * (list.length + 1) := rfl
  have few : list.length < turns := by
    unfold turns
    omega
  have plain : Strings list := by
    rcases source with ⟨-,rfl⟩ | ⟨-,vector,-⟩
    · simp [Strings]
    · exact vectorStrings vector
  have counted : argc bytes argv = some list.length := by
    rcases source with ⟨rfl,rfl⟩ | ⟨some_,vector,-⟩
    · rfl
    · exact (argcVector (i := 0) some_ vector few).trans (congrArg some (Nat.zero_add _))
  have sized : pmArgstackSize bytes argv = some (argvSize list) := by
    rcases source with ⟨rfl,rfl⟩ | ⟨some_,vector,-⟩
    · rfl
    · have size : pmArgstackSize bytes argv = some ((0 + stringsSize list + 2 * (0 + list.length + 1)) % 65536) :=
        sizeVector some_ vector few (by unfold turns; omega)
      rw [size,Nat.zero_add,Nat.zero_add,← sum,Nat.mod_eq_of_lt (by omega)]
  have cooked : cookArgstack a argv ⟨bytes,[]⟩ = some ((⟨bytes,[]⟩ : Ram).all (Pm.cookArgstack a list)) := by
    unfold cookArgstack
    simp only [counted,bind,Option.bind_some]
    rcases source with ⟨rfl,rfl⟩ | ⟨some_,vector,away⟩
    · simp [cookFrom,turns,setPointerAll,Pm.cookArgstack,cookStrings]
    · exact @cookVector ⟨bytes,[]⟩ a (a + argvSize list) turns list a argv list.length 0 _ some_ vector away
        (Nat.zero_add _).symm few (Nat.le_refl a) (Nat.le_refl _) (by omega) inside
  have vector : VectorAt (poke bytes (Pm.cookArgstack a list)) a list := argstackCooked plain inside bytes
  have row : Adjoining (poke bytes (Pm.cookArgstack a list)) a (a + 2 * (list.length + 1)) list (a + argvSize list) := by
    have written : Adjoining (poke bytes (Pm.cookArgstack a list)) a (a + 2 * (list.length + 1)) list
      (a + 2 * (list.length + 1) + stringsSize list) := adjoiningWritten (Nat.le_refl _) (by omega)
    have end_ : a + 2 * (list.length + 1) + stringsSize list = a + argvSize list := by omega
    rwa [end_] at written
  refine ⟨counted,sized,_,cooked,List.nil_append _,?_,vector,?_,row,row.apart.1⟩
  · intro b member
    have := cookStringsRange b member
    omega
  · exact (argcVector (i := 0) real vector few).trans (congrArg some (Nat.zero_add _))

end

-- The arguments "ls" and "a", the second one below the first, copied to a block behind both.
def twoArguments : Nat → Nat := fun x => ([(100,200),(102,190),(200,108),(201,115),(190,97)].lookup x).getD 0

theorem argvCopiedTwo : argc twoArguments 100 = some 2 ∧ pmArgstackSize twoArguments 100 = some 11 ∧
    ∃ m, cookArgstack 300 100 ⟨twoArguments,[]⟩ = some m ∧ VectorAt m.bytes 300 [[108,115],[97]] ∧
      pointerAt m.bytes 300 = 306 ∧ pointerAt m.bytes 302 = 309 ∧
      (places m.bytes 300 [[108,115],[97]]).Pairwise (fun u v => u.1 + u.2 ≤ v.1) := by
  have vector : VectorAt twoArguments 100 [[108,115],[97]] :=
    ⟨by decide,⟨rfl,by decide,rfl,by decide,rfl⟩,by decide,⟨rfl,by decide,rfl⟩,rfl⟩
  have away : Away twoArguments 300 311 100 [[108,115],[97]] :=
    ⟨.inl (by decide),.inl (by decide),.inl (by decide),.inl (by decide),.inl (by decide)⟩
  obtain ⟨counted,sized,m,cooked,-,-,copy,-,⟨first,second,-⟩,apart⟩ := @argvCopied twoArguments 100 [[108,115],[97]] 300
    (.inr ⟨by decide,vector,away⟩) (by decide) (by decide)
  exact ⟨counted,sized,m,cooked,copy,first,second,apart⟩

end Avros.Pm.Argv
