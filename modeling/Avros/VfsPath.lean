import Avros.DirectoryRuns

/-! vfs_get_dir, basename and vfs_get_node as they walk over the characters of a path.
Each read of `path` may find that the string is over; the one character behind the
string is its NUL. The rest of VFS has the same functions over the list of characters,
and a path is the list of its components. -/
namespace Avros.Vfs.Path

def nul : Char := '\x00'

-- `path[i]`
def charAt (path : List Char) (i : Nat) : Option Char := (path ++ [nul])[i]?

theorem charInside {path : List Char} {i : Nat} {c : Char} (read : charAt path i = some c) : i < path.length + 1 := by
  have inside := (List.getElem?_eq_some_iff.mp read).1
  rwa [List.length_append] at inside

/- The inner loop of vfs_get_dir, `path` having moved on by `p`. -/
def componentLen (path : List Char) (p len : Nat) : Option Nat :=
  match read : charAt path (p + len) with
  | none => none
  | some c => if c ≠ '/' ∧ c ≠ nul then componentLen path p (len + 1) else some len
termination_by path.length + 1 - (p + len)
decreasing_by
  have inside := charInside read
  omega

-- `for (i = 0; i != nlen; i++) n[i] = name[i]`
def copyName (path : List Char) (p : Nat) : Nat → Option (List Char)
  | 0 => some []
  | nlen + 1 => do
    let c ← charAt path p
    let rest ← copyName path (p + 1) nlen
    some (c::rest)

section
variable {σ : Type} (D : Drivers σ)

/- The outer loop. It also answers where `path` points when the loop is left. -/
def dirLoop (dev : Int) (kmalloc : Nat → Bool) (path : List Char) (p n : Nat) (ino : Int) (x : Tx σ) :
    Option (Nat × Int × Tx σ) :=
  if ino < 0 then some (p,ino,x) else
    match componentLen path p 0 with
    | none => none
    | some len =>
      match read : charAt path (p + len) with
      | none => none
      | some c =>
        if c = nul then some (p,ino,x) else
          match copyName path p len with
          | none => none
          | some name =>
            match vfsGetDirentry D dev ino name (kmalloc n) x with
            | none => none
            | some (next,x) => dirLoop dev kmalloc path (p + (len + 1)) (n + 1) next x
termination_by path.length + 1 - p
decreasing_by
  have inside := charInside read
  omega

def vfsGetDir (t : VfsTask) (path : Option (List Char)) (kmalloc : Nat → Bool) (x : Tx σ) :
    Option (Nat × Int × Int × Tx σ) :=
  match path with
  | none => some (0,0,-1,x)
  | some path => do
    let first ← charAt path 0
    if first = nul then some (0,0,-1,x)
    else if first = '/' then do
      let (p,ino,x) ← dirLoop D t.rdev kmalloc path 1 0 t.rino x
      some (p,t.rdev,ino,x)
    else do
      let (p,ino,x) ← dirLoop D t.wdev kmalloc path 0 0 t.wino x
      some (p,t.wdev,ino,x)

/- basename: the offset of the last component, and its length. -/
def basename (path : List Char) (p bn : Nat) (len : Int) : Option (Nat × Int) :=
  match read : charAt path p with
  | none => none
  | some c =>
    if c = nul then some (bn,len)
    else if c = '/' then basename path (p + 1) (p + 1) (-1 + 1)
    else basename path (p + 1) bn (len + 1)
termination_by path.length + 1 - p
decreasing_by all_goals
  have inside := charInside read
  omega

def vfsGetNode (t : VfsTask) (path : Option (List Char)) (kmalloc : Nat → Bool) (x : Tx σ) :
    Option (Int × Int × Tx σ) := do
  let (_,dev,ino,x) ← vfsGetDir D t path kmalloc x
  if ino < 0 then some (dev,-1,x) else do
    let (bn,len) ← basename (path.getD []) 0 0 0
    if len > 0 then do
      let name ← copyName (path.getD []) bn len.toNat
      let (node,x) ← vfsGetDirentry D dev ino name (kmalloc (path.getD []).length) x
      some (dev,node,x)
    else some (dev,ino,x)

end

/-! A path is its components, and each loop takes them one at a time. -/

theorem bySlash {P : List Char → Prop} (word : ∀ w, '/' ∉ w → P w)
    (slash : ∀ w tail, '/' ∉ w → P tail → P (w ++ '/'::tail)) (path : List Char) : P path := by
  induction h : path.length using Nat.strongRecOn generalizing path with
  | ind n ih =>
    by_cases there : '/' ∈ path
    · obtain ⟨w,tail,rfl,plain⟩ := List.eq_append_cons_of_mem there
      refine slash w tail plain (ih tail.length ?_ tail rfl)
      simp only [List.length_append,List.length_cons] at h
      omega
    · exact word path there

theorem splitSome (path : List Char) : path.splitOn '/' ≠ [] := List.splitOn_ne_nil _ path

def lastName (path : List Char) : List Char := (path.splitOn '/').getLast (splitSome path)

theorem lastWord {w : List Char} (plain : '/' ∉ w) : lastName w = w := by
  simp [lastName,List.splitOn_eq_singleton plain]

theorem lastSlash {w : List Char} (plain : '/' ∉ w) (tail : List Char) :
    lastName (w ++ '/'::tail) = lastName tail := by
  simp [lastName,List.splitOn_append_cons_self_of_not_mem plain,List.getLast_cons (splitSome tail)]

section
variable {path w tail : List Char} {p : Nat}

theorem charCons {c : Char} (rest : path.drop p = c::tail) : charAt path p = some c := by
  have here : path[p]? = some c := by
    have first : (path.drop p)[0]? = path[p]? := List.getElem?_drop
    rw [rest] at first
    exact first.symm
  have inside := (List.getElem?_eq_some_iff.mp here).1
  rw [charAt,List.getElem?_append_left inside,here]

theorem charEnd (rest : path.drop p = []) (inside : p ≤ path.length) : charAt path p = some nul := by
  have atEnd : p = path.length := by
    have length := congrArg List.length rest
    rw [List.length_drop,List.length_nil] at length
    omega
  rw [charAt,atEnd,List.getElem?_concat_length]

theorem dropMore {c : Char} (rest : path.drop p = c::tail) : path.drop (p + 1) = tail := by
  rw [← List.drop_drop,rest,List.drop_one,List.tail_cons]

theorem dropWord (rest : path.drop p = w ++ tail) : path.drop (p + w.length) = tail := by
  rw [← List.drop_drop,rest,List.drop_left]

theorem copyWord (rest : path.drop p = w ++ tail) : copyName path p w.length = some w := by
  induction w generalizing p with
  | nil => rfl
  | cons c w ih =>
    have next := ih (dropMore rest)
    simp only [List.length_cons,copyName,charCons rest,next,bind,Option.bind_some]

theorem componentWord {len : Nat} (rest : path.drop (p + len) = w ++ tail) (inside : p + len ≤ path.length)
    (plain : '/' ∉ w) (text : nul ∉ w) (stop : tail = [] ∨ tail.head? = some '/') :
    componentLen path p len = some (len + w.length) := by
  induction w generalizing len with
  | nil =>
    have read : ∃ c, charAt path (p + len) = some c ∧ ¬ (c ≠ '/' ∧ c ≠ nul) := by
      cases tail with
      | nil => exact ⟨nul,charEnd rest inside,by simp⟩
      | cons c tail =>
        obtain rfl : c = '/' := by simpa using stop
        exact ⟨'/',charCons rest,by simp⟩
    obtain ⟨c,read,last⟩ := read
    rw [componentLen,read]
    exact if_neg last
  | cons c w ih =>
    have read := charCons rest
    have next : p + len < path.length := by
      have length := congrArg List.length rest
      simp only [List.length_drop,List.cons_append,List.length_cons] at length
      omega
    have later := @ih (len + 1) (dropMore rest) next (fun h => plain (List.mem_cons_of_mem _ h))
      (fun h => text (List.mem_cons_of_mem _ h))
    have more : c ≠ '/' ∧ c ≠ nul :=
      ⟨fun same => plain (same ▸ List.mem_cons_self),fun same => text (same ▸ List.mem_cons_self)⟩
    rw [componentLen,read]
    simp only [if_pos more,later,List.length_cons]
    congr 1
    omega

theorem basenameWord {bn : Nat} {len : Int} (rest : path.drop p = w ++ tail) (plain : '/' ∉ w) (text : nul ∉ w) :
    basename path p bn len = basename path (p + w.length) bn (len + w.length) := by
  induction w generalizing p len with
  | nil => simp
  | cons c w ih =>
    have notSlash : c ≠ '/' := fun same => plain (same ▸ List.mem_cons_self)
    have notNul : c ≠ nul := fun same => text (same ▸ List.mem_cons_self)
    have later := @ih _ (len + 1) (dropMore rest) (fun h => plain (List.mem_cons_of_mem _ h))
      (fun h => text (List.mem_cons_of_mem _ h))
    rw [basename,charCons rest]
    simp only [if_neg notSlash,if_neg notNul,later,List.length_cons]
    push_cast
    congr 1
    · omega
    · omega

theorem basenameEnd {bn : Nat} {len : Int} (rest : path.drop p = w) (inside : p ≤ path.length) (plain : '/' ∉ w)
    (text : nul ∉ w) : basename path p bn len = some (bn,len + w.length) := by
  have whole : path.drop p = w ++ [] := by rw [rest,List.append_nil]
  have length := congrArg List.length rest
  rw [List.length_drop] at length
  rw [basenameWord whole plain text,basename,charEnd (dropWord whole) (by omega)]
  rfl

theorem basenameSlash {bn : Nat} {len : Int} (rest : path.drop p = w ++ '/'::tail) (plain : '/' ∉ w)
    (text : nul ∉ w) : basename path p bn len =
      basename path (p + w.length + 1) (p + w.length + 1) 0 := by
  rw [basenameWord rest plain text,basename,charCons (dropWord rest)]
  rfl

theorem basenameFinds {rest : List Char} (left : path.drop p = rest) (inside : p ≤ path.length) (text : nul ∉ rest) :
    basename path p p 0 = some (path.length - (lastName rest).length,((lastName rest).length : Int)) := by
  induction rest using bySlash generalizing p with
  | word w plain =>
    have length := congrArg List.length left
    rw [List.length_drop] at length
    rw [basenameEnd left inside plain text,lastWord plain]
    congr 2
    · omega
    · omega
  | slash w tail plain ih =>
    have next : path.drop (p + w.length + 1) = tail := dropMore (dropWord left)
    have length := congrArg List.length left
    simp only [List.length_drop,List.length_append,List.length_cons] at length
    rw [basenameSlash left plain (fun h => text (List.mem_append_left _ h)),lastSlash plain]
    exact ih next (by omega) (fun h => text (List.mem_append_right _ (List.mem_cons_of_mem _ h)))

end

section
variable {σ : Type} {D : Drivers σ} {dev : Int} {kmalloc : Nat → Bool}

/- The lookups of a walk: one component after the other, as long as each is found. -/
def lookups (D : Drivers σ) (dev : Int) (kmalloc : Nat → Bool) :
    List (List Char) → Nat → Int → Tx σ → Option (Int × Tx σ)
  | [],_,ino,x => some (ino,x)
  | name::rest,n,ino,x =>
    if ino < 0 then some (ino,x) else do
      let (next,x) ← vfsGetDirentry D dev ino name (kmalloc n) x
      lookups D dev kmalloc rest (n + 1) next x

theorem lookupsFailed {names : List (List Char)} {n : Nat} {ino : Int} {x : Tx σ} (failed : ino < 0) :
    lookups D dev kmalloc names n ino x = some (ino,x) := by
  cases names with
  | nil => rfl
  | cons name rest => simp [lookups,failed]

theorem walkWord {w tail word : List Char} {n : Nat} {ino : Int} {x : Tx σ} (plain : '/' ∉ w) :
    walkDir D dev kmalloc (w ++ tail) word n ino x = walkDir D dev kmalloc tail (w.reverse ++ word) n ino x := by
  induction w generalizing word with
  | nil => rfl
  | cons c w ih =>
    have other : c ≠ '/' := fun same => plain (same ▸ List.mem_cons_self)
    have later := @ih (c::word) (fun h => plain (List.mem_cons_of_mem _ h))
    rw [List.cons_append,walkDir,later,List.reverse_cons,List.append_assoc]
    · rfl
    · exact other

theorem walkLookups (path : List Char) (n : Nat) (ino : Int) (x : Tx σ) :
    walkDir D dev kmalloc path [] n ino x = lookups D dev kmalloc (path.splitOn '/').dropLast n ino x := by
  induction path using bySlash generalizing n ino x with
  | word w plain =>
    have whole : walkDir D dev kmalloc (w ++ []) [] n ino x = walkDir D dev kmalloc [] (w.reverse ++ []) n ino x :=
      walkWord plain
    rw [List.append_nil] at whole
    rw [List.splitOn_eq_singleton plain,whole]
    rfl
  | slash w tail plain ih =>
    rw [List.splitOn_append_cons_self_of_not_mem plain,List.dropLast_cons_of_ne_nil (splitSome tail),walkWord plain,
      walkDir,lookups]
    split
    · rfl
    · simp only [List.append_nil,List.reverse_reverse,ih]

theorem dirLoopAt {path : List Char} {p n len : Nat} {ino : Int} {x : Tx σ} {c : Char} (real : ¬ ino < 0)
    (stop : componentLen path p 0 = some len) (read : charAt path (p + len) = some c) :
    dirLoop D dev kmalloc path p n ino x =
      if c = nul then some (p,ino,x) else (do
        let name ← copyName path p len
        let (next,x) ← vfsGetDirentry D dev ino name (kmalloc n) x
        dirLoop D dev kmalloc path (p + (len + 1)) (n + 1) next x) := by
  rw [dirLoop,if_neg real]
  simp only [stop]
  split
  · rename_i missing
    rw [read] at missing
    contradiction
  · rename_i c' read'
    rw [read] at read'
    cases Option.some.inj read'
    split
    · rfl
    · cases copyName path p len with
      | none => rfl
      | some name =>
        simp only [bind,Option.bind_some]
        cases vfsGetDirentry D dev ino name (kmalloc n) x <;> rfl

theorem dirLoopLookups {path rest : List Char} {p n : Nat} {ino : Int} {x : Tx σ} (left : path.drop p = rest)
    (inside : p ≤ path.length) (text : nul ∉ rest) :
    (∀ ino' y, lookups D dev kmalloc (rest.splitOn '/').dropLast n ino x = some (ino',y) →
      ∃ q, dirLoop D dev kmalloc path p n ino x = some (q,ino',y) ∧
        (0 ≤ ino' → q = path.length - (lastName rest).length)) ∧
    (lookups D dev kmalloc (rest.splitOn '/').dropLast n ino x = none → dirLoop D dev kmalloc path p n ino x = none) := by
  induction rest using bySlash generalizing p n ino x with
  | word w plain =>
    have length := congrArg List.length left
    rw [List.length_drop] at length
    rw [List.splitOn_eq_singleton plain]
    refine ⟨?_,by simp [lookups]⟩
    intro ino' y found
    obtain ⟨rfl,rfl⟩ := Prod.mk.inj (Option.some.inj found)
    refine ⟨p,?_,fun _ => by rw [lastWord plain]; omega⟩
    have whole : path.drop p = w ++ [] := by rw [left,List.append_nil]
    have stop : componentLen path p 0 = some (0 + w.length) := componentWord whole inside plain text (Or.inl rfl)
    have read := charEnd (dropWord whole) (by omega)
    by_cases failed : ino < 0
    · rw [dirLoop,if_pos failed]
    · rw [Nat.zero_add] at stop
      rw [dirLoopAt failed stop read,if_pos rfl]
  | slash w tail plain ih =>
    have read := charCons (dropWord left)
    have next : path.drop (p + (w.length + 1)) = tail := dropMore (dropWord left)
    have length := congrArg List.length left
    simp only [List.length_drop,List.length_append,List.length_cons] at length
    have stop : componentLen path p 0 = some (0 + w.length) :=
      componentWord left inside plain (fun h => text (List.mem_append_left _ h)) (Or.inr rfl)
    rw [List.splitOn_append_cons_self_of_not_mem plain,List.dropLast_cons_of_ne_nil (splitSome tail),lookups,
      lastSlash plain]
    by_cases failed : ino < 0
    · rw [if_pos failed,dirLoop,if_pos failed]
      refine ⟨?_,by simp⟩
      intro ino' y found
      obtain ⟨rfl,rfl⟩ := Prod.mk.inj (Option.some.inj found)
      exact ⟨p,rfl,fun real => absurd failed (Int.not_lt.mpr real)⟩
    · have more : ('/' : Char) ≠ nul := by decide
      rw [Nat.zero_add] at stop
      rw [if_neg failed,dirLoopAt failed stop read,if_neg more,copyWord left]
      simp only [bind,Option.bind_some]
      cases vfsGetDirentry D dev ino w (kmalloc n) x with
      | none => exact ⟨by simp,fun _ => rfl⟩
      | some found =>
        exact ih next (by omega) (fun h => text (List.mem_append_right _ (List.mem_cons_of_mem _ h)))

end

/-! Where a walk starts, and what is left to walk. -/

def startDev (t : VfsTask) (path : List Char) : Int := if path.head? = some '/' then t.rdev else t.wdev
def startIno (t : VfsTask) (path : List Char) : Int := if path.head? = some '/' then t.rino else t.wino
def relative (path : List Char) : List Char := if path.head? = some '/' then path.tail else path

theorem lastRelative (path : List Char) : lastName (relative path) = lastName path := by
  unfold relative
  split
  · rename_i slash
    obtain ⟨rest,rfl⟩ := List.head?_eq_some_iff.mp slash
    exact (lastSlash (w := []) (by simp) rest).symm
  · rfl

theorem lastShort (path : List Char) : (lastName path).length ≤ path.length := by
  induction path using bySlash with
  | word w plain => exact Nat.le_of_eq (congrArg List.length (lastWord plain))
  | slash w tail plain ih =>
    rw [lastSlash plain,List.length_append,List.length_cons]
    omega

theorem lastDrop (path : List Char) : path.drop (path.length - (lastName path).length) = lastName path := by
  induction path using bySlash with
  | word w plain => rw [lastWord plain,Nat.sub_self,List.drop_zero]
  | slash w tail plain ih =>
    have short := lastShort tail
    have behind : (w ++ '/'::tail).length - (lastName tail).length =
        w.length + 1 + (tail.length - (lastName tail).length) := by
      rw [List.length_append,List.length_cons]
      omega
    have first : (w ++ '/'::tail).drop (w.length + 1) = tail := by
      rw [← List.drop_drop,List.drop_left,List.drop_one,List.tail_cons]
    rw [lastSlash plain,behind,← List.drop_drop,first,ih]

theorem basenameWordList {w tail word : List Char} (plain : '/' ∉ w) :
    Vfs.basename (w ++ tail) word = Vfs.basename tail (w.reverse ++ word) := by
  induction w generalizing word with
  | nil => rfl
  | cons c w ih =>
    have other : c ≠ '/' := fun same => plain (same ▸ List.mem_cons_self)
    rw [List.cons_append,Vfs.basename,ih (fun h => plain (List.mem_cons_of_mem _ h)),List.reverse_cons,
      List.append_assoc]
    · rfl
    · exact other

theorem basenameLast (path : List Char) : Vfs.basename path [] = lastName path := by
  induction path using bySlash with
  | word w plain =>
    have whole : Vfs.basename (w ++ []) [] = Vfs.basename [] (w.reverse ++ []) := basenameWordList plain
    rw [List.append_nil] at whole
    rw [whole,lastWord plain]
    simp [Vfs.basename]
  | slash w tail plain ih => rw [basenameWordList plain,Vfs.basename,ih,lastSlash plain]

section
variable {σ : Type} {D : Drivers σ} {t : VfsTask} {path : List Char} {kmalloc : Nat → Bool} {x : Tx σ}

-- What vfs_get_dir looks up.
def dirLookups (D : Drivers σ) (t : VfsTask) (path : List Char) (kmalloc : Nat → Bool) (x : Tx σ) : Option (Int × Tx σ) :=
  lookups D (startDev t path) kmalloc ((relative path).splitOn '/').dropLast 0 (startIno t path) x

theorem getDirLookups (some_ : path ≠ []) (text : nul ∉ path) :
    (∀ ino y, dirLookups D t path kmalloc x = some (ino,y) →
      ∃ q, vfsGetDir D t (some path) kmalloc x = some (q,startDev t path,ino,y) ∧
        (0 ≤ ino → q = path.length - (lastName path).length)) ∧
    (dirLookups D t path kmalloc x = none → vfsGetDir D t (some path) kmalloc x = none) := by
  obtain ⟨c,rest,rfl⟩ := List.exists_cons_of_ne_nil some_
  have first : charAt (c::rest) 0 = some c := charCons rfl
  have notNul : c ≠ nul := fun same => text (same ▸ List.mem_cons_self)
  have short := lastRelative (c::rest)
  by_cases slash : c = '/'
  · subst slash
    obtain ⟨found,missing⟩ := @dirLoopLookups σ D t.rdev kmalloc ('/'::rest) rest 1 0 t.rino x rfl (by simp)
      (fun h => text (List.mem_cons_of_mem _ h))
    refine ⟨?_,?_⟩
    · intro ino y looked
      obtain ⟨q,walked,at_⟩ := found ino y looked
      refine ⟨q,?_,fun real => (at_ real).trans ?_⟩
      · simp only [vfsGetDir,first,bind,Option.bind_some,if_neg notNul,if_true,walked]
        rfl
      · exact congrArg _ (congrArg _ short)
    · intro looked
      simp only [vfsGetDir,first,bind,Option.bind_some,if_neg notNul,if_true,missing looked,Option.bind_none]
  · have other : ¬ (c::rest).head? = some '/' := by simpa using slash
    obtain ⟨found,missing⟩ := @dirLoopLookups σ D t.wdev kmalloc (c::rest) (c::rest) 0 0 t.wino x rfl (by simp) text
    unfold dirLookups startDev startIno relative
    rw [if_neg other,if_neg other,if_neg other]
    refine ⟨?_,?_⟩
    · intro ino y looked
      obtain ⟨q,walked,at_⟩ := found ino y looked
      refine ⟨q,?_,at_⟩
      simp only [vfsGetDir,first,bind,Option.bind_some,if_neg notNul,if_neg slash,walked]
    · intro looked
      simp only [vfsGetDir,first,bind,Option.bind_some,if_neg notNul,if_neg slash,missing looked,Option.bind_none]

-- The last component, looked up in the directory of the others unless it is empty.
def lastLookup (D : Drivers σ) (t : VfsTask) (path : List Char) (kmalloc : Nat → Bool) (dir : Int × Tx σ) :
    Option (Int × Int × Tx σ) :=
  if dir.1 < 0 then some (startDev t path,-1,dir.2)
  else if lastName path = [] then some (startDev t path,dir.1,dir.2)
  else (vfsGetDirentry D (startDev t path) dir.1 (lastName path) (kmalloc path.length) dir.2).map
    (fun r => (startDev t path,r.1,r.2))

theorem getNodeLookups (some_ : path ≠ []) (text : nul ∉ path) :
    vfsGetNode D t (some path) kmalloc x = (dirLookups D t path kmalloc x).bind (lastLookup D t path kmalloc) := by
  obtain ⟨found,missing⟩ := @getDirLookups σ D t path kmalloc x some_ text
  cases looked : dirLookups D t path kmalloc x with
  | none => simp only [vfsGetNode,missing looked,bind,Option.bind_none]
  | some dir =>
    obtain ⟨ino,y⟩ := dir
    obtain ⟨q,walked,at_⟩ := found ino y looked
    simp only [vfsGetNode,walked,bind,Option.bind_some,lastLookup,Option.getD_some]
    split
    · rfl
    · rename_i real
      have base := @basenameFinds path 0 path rfl (Nat.zero_le _) text
      have behind : path.drop (path.length - (lastName path).length) = lastName path ++ [] := by
        rw [List.append_nil,lastDrop]
      have copied : copyName path (path.length - (lastName path).length) (lastName path).length =
          some (lastName path) := copyWord behind
      simp only [base,Option.bind_some,Int.toNat_natCast,copied]
      by_cases empty : lastName path = []
      · simp [empty]
      · have positive : 0 < (lastName path).length := List.length_pos_iff.mpr empty
        rw [if_pos (by omega),if_neg empty]
        cases vfsGetDirentry D (startDev t path) ino (lastName path) (kmalloc path.length) y <;> rfl

theorem getDirRefines (some_ : path ≠ []) : Vfs.vfsGetDir D t (some path) kmalloc x =
    (dirLookups D t path kmalloc x).map (fun r => (startDev t path,r.1,r.2)) := by
  obtain ⟨c,rest,rfl⟩ := List.exists_cons_of_ne_nil some_
  unfold dirLookups startDev startIno relative
  by_cases slash : c = '/'
  · subst slash
    simp only [Vfs.vfsGetDir,walkLookups,List.head?_cons,if_true,List.tail_cons]
    cases lookups D t.rdev kmalloc (rest.splitOn '/').dropLast 0 t.rino x <;> rfl
  · have other : ¬ (c::rest).head? = some '/' := by simpa using slash
    have plain : Vfs.vfsGetDir D t (some (c::rest)) kmalloc x =
        (walkDir D t.wdev kmalloc (c::rest) [] 0 t.wino x).bind (fun r => some (t.wdev,r.1,r.2)) := by
      rw [Vfs.vfsGetDir]
      · rfl
      · simp
      · simpa using slash
    rw [plain,walkLookups,if_neg other,if_neg other,if_neg other]
    cases lookups D t.wdev kmalloc ((c::rest).splitOn '/').dropLast 0 t.wino x <;> rfl

theorem getNodeRefines (some_ : path ≠ []) (text : nul ∉ path) :
    vfsGetNode D t (some path) kmalloc x = Vfs.vfsGetNode D t (some path) kmalloc x := by
  rw [getNodeLookups some_ text]
  unfold Vfs.vfsGetNode
  rw [getDirRefines some_]
  cases dirLookups D t path kmalloc x with
  | none => rfl
  | some r =>
    simp only [Option.map_some,bind,Option.bind_some,lastLookup,Option.getD_some,basenameLast]
    split
    · rfl
    · split
      · rfl
      · cases vfsGetDirentry D (startDev t path) r.1 (lastName path) (kmalloc path.length) r.2 <;> rfl

end

/-! Devices that answer as a function says. -/

def step (lookup : Int → List Char → Int) (ino : Int) (name : List Char) : Int :=
  if ino < 0 then ino else lookup ino name

def resolve (lookup : Int → List Char → Int) (ino : Int) (names : List (List Char)) : Int :=
  names.foldl (step lookup) ino

def questions (lookup : Int → List Char → Int) : Int → List (List Char) → List (Int × List Char)
  | _,[] => []
  | ino,name::rest => if ino < 0 then [] else (ino,name)::questions lookup (lookup ino name) rest

def components (path : List Char) : List (List Char) :=
  let names := (relative path).splitOn '/'
  if lastName path = [] then names.dropLast else names

def question {σ : Type} : Event σ → Option (Int × List Char)
  | .asked _ _ m => if m.cmd = .getDirentry then some (m.w1,m.name.getD []) else none
  | .sent _ _ => none

/- The device `dev` answers questions about the directories it knows, and what it finds
it knows. Being asked does not change what it answers. -/
structure Answering {σ : Type} (D : Drivers σ) (s : Tables) (dev : Int) (lookup : Int → List Char → Int)
    (known : Int → Prop) (kept : σ → Prop) : Prop where
  answers : ∃ pid, device s dev = some pid ∧ ∀ drv m, kept drv → m.cmd = .getDirentry → known m.w1 →
    Text (m.name.getD []) → ∃ drv', kept drv' ∧ D.ask drv pid m = some (drv',[{ m with w1 := lookup m.w1 (m.name.getD []) }])
  finds : ∀ ino name, Text name → known ino → 0 ≤ lookup ino name → known (lookup ino name)

theorem resolveFailed {lookup : Int → List Char → Int} {ino : Int} (names : List (List Char)) (failed : ino < 0) :
    resolve lookup ino names = ino := by
  induction names with
  | nil => rfl
  | cons name rest ih =>
    rw [resolve,List.foldl_cons,step,if_pos failed]
    exact ih

section
variable {σ : Type} {D : Drivers σ} {s : Tables} {dev : Int} {lookup : Int → List Char → Int} {known : Int → Prop}
  {kept : σ → Prop} {kmalloc : Nat → Bool}

theorem Answering.entry (dir : Answering D s dev lookup known kept) {ino : Int} {name : List Char} (text : Text name)
    {x : Tx σ} (same : x.vfs = s) (there : known ino) (held : kept x.drv) :
    ∃ y e, vfsGetDirentry D dev ino name true x = some (lookup ino name,y) ∧ y.vfs = s ∧ y.msg = x.msg ∧
      kept y.drv ∧ y.log = x.log ++ [e] ∧ question e = some (ino,name) := by
  obtain ⟨pid,registered,answers⟩ := dir.answers
  obtain ⟨drv',held',asked⟩ :=
    answers x.drv { x.msg with cmd := .getDirentry, w1 := ino, name := some name } held rfl there text
  refine ⟨{ x with drv := drv', log := x.log ++ [_] },.asked x.drv pid { x.msg with
    cmd := .getDirentry, w1 := ino, name := some name },?_,same,rfl,held',rfl,rfl⟩
  rw [← same] at registered
  simp only [vfsGetDirentry,if_true,registered,sendrec,asked,bind,Option.bind_some]
  rfl

theorem Answering.walk (dir : Answering D s dev lookup known kept) (memory : ∀ n, kmalloc n = true)
    {names : List (List Char)} (texts : ∀ name ∈ names, Text name) {n : Nat} {ino : Int} {x : Tx σ} (same : x.vfs = s)
    (there : known ino) (held : kept x.drv) :
    ∃ y more, lookups D dev kmalloc names n ino x = some (resolve lookup ino names,y) ∧ y.vfs = s ∧ y.msg = x.msg ∧
      kept y.drv ∧ y.log = x.log ++ more ∧ more.map question = (questions lookup ino names).map some ∧
      (0 ≤ resolve lookup ino names → known (resolve lookup ino names)) := by
  induction names generalizing n ino x with
  | nil => exact ⟨x,[],rfl,same,rfl,held,by simp,rfl,fun _ => there⟩
  | cons name rest ih =>
    by_cases failed : ino < 0
    · refine ⟨x,[],?_,same,rfl,held,by simp,?_,?_⟩
      · rw [resolveFailed _ failed,lookups,if_pos failed]
      · rw [questions,if_pos failed]
        rfl
      · rw [resolveFailed _ failed]
        exact fun _ => there
    · obtain ⟨y,e,entry,vfs,msg,held',log,asked⟩ := dir.entry (texts name List.mem_cons_self) same there held
      have next : resolve lookup ino (name::rest) = resolve lookup (lookup ino name) rest := by
        rw [resolve,List.foldl_cons,step,if_neg failed]
        rfl
      rw [next,lookups,if_neg failed,questions,if_neg failed,memory n,entry]
      by_cases missing : lookup ino name < 0
      · rw [resolveFailed _ missing]
        refine ⟨y,[e],lookupsFailed missing,vfs,msg,held',log,?_,fun real => absurd missing (Int.not_lt.mpr real)⟩
        have last : questions lookup (lookup ino name) rest = [] := by
          cases rest with
          | nil => rfl
          | cons _ _ => rw [questions,if_pos missing]
        simp [last,asked]
      · obtain ⟨z,more,walked,vfs',msg',held'',log',asked',known'⟩ :=
          ih (fun w member => texts w (List.mem_cons_of_mem _ member)) (n := n + 1) vfs
            (dir.finds ino name (texts name List.mem_cons_self) there (Int.not_lt.mp missing)) held'
        refine ⟨z,e::more,walked,vfs',msg'.trans msg,held'',?_,?_,known'⟩
        · rw [log',log,List.append_assoc]
          rfl
        · rw [List.map_cons,List.map_cons,asked,asked']

end

theorem questionsSnoc {lookup : Int → List Char → Int} (names : List (List Char)) (ino : Int) (last : List Char) :
    questions lookup ino (names ++ [last]) = questions lookup ino names ++
      if resolve lookup ino names < 0 then [] else [(resolve lookup ino names,last)] := by
  induction names generalizing ino with
  | nil => rfl
  | cons name rest ih =>
    rw [List.cons_append,questions,questions]
    by_cases failed : ino < 0
    · rw [if_pos failed,if_pos failed,resolveFailed _ failed,if_pos failed]
      rfl
    · have next : resolve lookup ino (name::rest) = resolve lookup (lookup ino name) rest := by
        rw [resolve,List.foldl_cons,step,if_neg failed]
        rfl
      rw [if_neg failed,if_neg failed,next,ih]
      rfl

/-! memfile is such a device, as long as its directories are in order. -/

def memfileLookup (nodes : MfNodes) (ino : Int) (name : List Char) : Int :=
  match nodeAt nodes ino with
  | some (some node) => if node.dir then (mfGetDirentry node name).getD (-1) else -1
  | _ => -1

def Exists (nodes : MfNodes) (ino : Int) : Prop := ∃ node, nodeAt nodes ino = some (some node)

theorem rootLookup {node : MfNode} (held : Vfs.Directory node rootEntries) {name : List Char} (text : Text name) :
    mfGetDirentry node name = some (if name.map charByte = ['.'].map charByte then 0 else -1) := by
  have one : table rootEntries = rootEntries := by decide
  rw [looked held text,one,rootEntries,List.lookup_cons]
  by_cases dot : name.map charByte = ['.'].map charByte
  · simp [dot,listed]
  · have other : (name.map charByte == ['.'].map charByte) = false := by simpa using dot
    simp only [other,if_neg dot]
    rfl

theorem memfileAnswers {s : Tables} {dev : Int} {pid : Pid} {nodes : MfNodes} (rooted : Rooted nodes)
    (there : device s dev = some pid) :
    Answering drivers s dev (memfileLookup nodes) (Exists nodes) (fun drv => drv.task pid = some (.memfile nodes)) where
  answers := by
    refine ⟨pid,there,?_⟩
    rintro drv m task call ⟨node,found⟩ text
    refine ⟨putDevice drv pid (.memfile nodes),putSelf _ _ _,?_⟩
    have turn : memfile nodes m = some (nodes,[{ m with w1 := memfileLookup nodes m.w1 (m.name.getD []) }]) := by
      simp only [memfile,call,found,bind,Option.bind_some,memfileLookup]
      cases dir : node.dir with
      | false => rfl
      | true =>
        obtain ⟨i,named,-,at_⟩ := nodeAtIndex found
        obtain rfl := rooted.files i node at_ dir
        obtain ⟨root,at',held,-⟩ := rooted.root
        rw [at_] at at'
        cases Option.some.inj (Option.some.inj at')
        rw [rootLookup held text]
        rfl
    simp only [drivers,task,askDevice,turn,bind,Option.bind_some,Option.map_some]
  finds := by
    rintro ino name text ⟨node,found⟩ real
    obtain ⟨root,at_,held,-⟩ := rooted.root
    have zero : memfileLookup nodes ino name = 0 := by
      simp only [memfileLookup,found] at real ⊢
      cases dir : node.dir with
      | false => simp [dir] at real
      | true =>
        obtain ⟨i,named,-,there'⟩ := nodeAtIndex found
        obtain rfl := rooted.files i node there' dir
        rw [there'] at at_
        cases Option.some.inj (Option.some.inj at_)
        rw [rootLookup held text] at real ⊢
        by_cases dot : name.map charByte = ['.'].map charByte
        · rw [if_pos dot]
          rfl
        · rw [if_neg dot] at real
          simp [dir] at real
    rw [zero]
    exact ⟨root,at_⟩

theorem componentText {path : List Char} (text : Text path) : ∀ name ∈ path.splitOn '/', Text name := by
  induction path using bySlash with
  | word w plain =>
    rw [List.splitOn_eq_singleton plain]
    intro name member
    rw [List.mem_singleton.mp member]
    exact text
  | slash w tail plain ih =>
    rw [List.splitOn_append_cons_self_of_not_mem plain]
    intro name member
    rcases List.mem_cons.mp member with rfl | later
    · exact fun c there => text c (List.mem_append_left _ there)
    · exact ih (fun c there => text c (List.mem_append_right _ (List.mem_cons_of_mem _ there))) name later

theorem relativeText {path : List Char} (text : Text path) : Text (relative path) := by
  unfold relative
  split
  · exact fun c member => text c (List.mem_of_mem_tail member)
  · exact text

theorem lastText {path : List Char} (text : Text path) : Text (lastName path) :=
  componentText text _ (List.getLast_mem (splitSome path))

theorem componentsEmpty {path : List Char} (empty : lastName path = []) :
    components path = ((relative path).splitOn '/').dropLast := by
  simp only [components,if_pos empty]

theorem componentsLast {path : List Char} (named : lastName path ≠ []) :
    components path = ((relative path).splitOn '/').dropLast ++ [lastName path] := by
  rw [components,if_neg named,← lastRelative path,lastName]
  exact (List.dropLast_append_getLast _).symm

/-- A path leads where its components lead, one lookup after the other. -/
theorem pathResolved {σ : Type} (D : Drivers σ) (t : VfsTask) {kmalloc : Nat → Bool} (memory : ∀ n, kmalloc n = true)
    (x : Tx σ) :
    vfsGetNode D t none kmalloc x = some (0,-1,x) ∧ vfsGetNode D t (some []) kmalloc x = some (0,-1,x) ∧
    ∀ path, path ≠ [] → Text path → ∀ lookup known kept, Answering D x.vfs (startDev t path) lookup known kept →
      known (startIno t path) → kept x.drv →
      ∃ ino y more, vfsGetNode D t (some path) kmalloc x = some (startDev t path,ino,y) ∧
        Vfs.vfsGetNode D t (some path) kmalloc x = some (startDev t path,ino,y) ∧
        y.vfs = x.vfs ∧ y.msg = x.msg ∧ y.log = x.log ++ more ∧
        more.map question = (questions lookup (startIno t path) (components path)).map some ∧
        (0 ≤ resolve lookup (startIno t path) (components path) →
          ino = resolve lookup (startIno t path) (components path)) ∧
        (resolve lookup (startIno t path) (components path) < 0 → ino < 0) ∧
        ∃ start dir z, vfsGetDir D t (some path) kmalloc x = some (start,startDev t path,dir,z) ∧
          (0 ≤ dir → basename path 0 0 0 = some (start,((path.length - start : Nat) : Int))) := by
  refine ⟨rfl,rfl,?_⟩
  intro path some_ chars lookup known kept dirs there held
  have text : nul ∉ path := fun member => chars nul member rfl
  have texts : ∀ name ∈ ((relative path).splitOn '/').dropLast, Text name :=
    fun name member => componentText (relativeText chars) name ((List.dropLast_sublist _).subset member)
  obtain ⟨y,more,walked,vfs,msg,held',log,asked,known'⟩ :=
    dirs.walk memory texts (n := 0) rfl there held
  generalize reached : resolve lookup (startIno t path) ((relative path).splitOn '/').dropLast = dir at walked known'
  have agree : ∃ start dir z, vfsGetDir D t (some path) kmalloc x = some (start,startDev t path,dir,z) ∧
      (0 ≤ dir → basename path 0 0 0 = some (start,((path.length - start : Nat) : Int))) := by
    obtain ⟨q,found,at_⟩ := (getDirLookups some_ text).1 dir y walked
    refine ⟨q,dir,y,found,?_⟩
    intro real
    have short := lastShort path
    rw [at_ real,@basenameFinds path 0 path rfl (Nat.zero_le _) text]
    congr 2
    omega
  rw [← getNodeRefines some_ text,getNodeLookups some_ text,dirLookups,walked,Option.bind_some]
  by_cases empty : lastName path = []
  · rw [componentsEmpty empty,reached]
    by_cases failed : dir < 0
    · have left : lastLookup D t path kmalloc (dir,y) = some (startDev t path,-1,y) := by rw [lastLookup,if_pos failed]
      exact ⟨-1,y,more,left,left,vfs,msg,log,asked,fun real => absurd failed (Int.not_lt.mpr real),
        fun _ => by decide,agree⟩
    · have left : lastLookup D t path kmalloc (dir,y) = some (startDev t path,dir,y) := by
        rw [lastLookup,if_neg failed,if_pos empty]
      exact ⟨dir,y,more,left,left,vfs,msg,log,asked,fun _ => rfl,id,agree⟩
  · have all : resolve lookup (startIno t path) (components path) = step lookup dir (lastName path) := by
      rw [componentsLast empty,resolve,List.foldl_append,← reached]
      rfl
    rw [all,componentsLast empty,questionsSnoc,reached]
    by_cases failed : dir < 0
    · have left : lastLookup D t path kmalloc (dir,y) = some (startDev t path,-1,y) := by rw [lastLookup,if_pos failed]
      rw [step,if_pos failed,if_pos failed,List.append_nil]
      exact ⟨-1,y,more,left,left,vfs,msg,log,asked,fun real => absurd failed (Int.not_lt.mpr real),
        fun _ => by decide,agree⟩
    · obtain ⟨z,e,entry,vfs',msg',-,log',last⟩ :=
        dirs.entry (lastText chars) vfs (known' (Int.not_lt.mp failed)) held'
      have left : lastLookup D t path kmalloc (dir,y) = some (startDev t path,lookup dir (lastName path),z) := by
        rw [lastLookup,if_neg failed,if_neg empty,memory,entry]
        rfl
      rw [step,if_neg failed,if_neg failed]
      refine ⟨lookup dir (lastName path),z,more ++ [e],left,left,vfs',msg'.trans msg,?_,?_,fun _ => rfl,id,agree⟩
      · rw [log',log,List.append_assoc]
      · rw [List.map_append,List.map_append,asked,List.map_singleton,last]
        rfl

-- "/./." on memfile: one lookup after the other, both in the root directory.
theorem pathResolvedToRoot : ∃ y more, vfsGetNode drivers ⟨0x10,List.replicate maxFd (-1),1,0,1,0⟩ (some ['/','.','/','.'])
    (fun _ => true) ⟨⟨[1,2,0,0,0,0],0,[],[],0⟩,putDevice noDevices 2 (.memfile memfileStart),demoMsg .stat 0 0 0,[]⟩ =
      some (1,0,y) ∧ y.log = more ∧ more.map question = [some (0,['.']),some (0,['.'])] := by
  have paths := @pathResolved Devices drivers ⟨0x10,List.replicate maxFd (-1),1,0,1,0⟩ (fun _ => true) (fun _ => rfl)
    ⟨⟨[1,2,0,0,0,0],0,[],[],0⟩,putDevice noDevices 2 (.memfile memfileStart),demoMsg .stat 0 0 0,[]⟩
  obtain ⟨ino,y,more,walked,-,-,-,log,asked,found,-⟩ := paths.2.2 ['/','.','/','.'] (by decide) (by decide) _ _ _
    (memfileAnswers memfileStartRooted rfl) ⟨_,rfl⟩ (putSelf _ _ _)
  have zero : resolve (memfileLookup memfileStart) 0 (components ['/','.','/','.']) = 0 := by decide +kernel
  have both : questions (memfileLookup memfileStart) 0 (components ['/','.','/','.']) = [(0,['.']),(0,['.'])] := by
    decide +kernel
  change _ = (questions (memfileLookup memfileStart) 0 (components ['/','.','/','.'])).map some at asked
  change 0 ≤ resolve (memfileLookup memfileStart) 0 (components ['/','.','/','.']) →
    ino = resolve (memfileLookup memfileStart) 0 (components ['/','.','/','.']) at found
  rw [both] at asked
  rw [zero] at found
  have reached : ino = 0 := found (by decide)
  rw [reached] at walked
  exact ⟨y,more,walked,log,asked⟩

end Avros.Vfs.Path
