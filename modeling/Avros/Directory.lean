import Mathlib.Data.List.Induction
import Mathlib.Data.List.Nodup
import Avros.MemFile

/-! A directory of `drivers/ramdisk.c` after calls of mf_link. Its bytes are rows of eight,
one for each entry; strcmp() reads from the start of a row to the first NUL, wherever
that is. -/
namespace Avros.Vfs

def Text (name : List Char) : Prop := ∀ c ∈ name, charByte c ≠ 0

instance (name : List Char) : Decidable (Text name) := List.decidableBAll (fun c => charByte c ≠ 0) name

def spelled (l : List Char × Int) : List Int × Int := (l.1.map charByte,l.2)

-- What a NUL ends.
def cstring (bytes : List Int) : List Int := bytes.takeWhile (· ≠ 0)

theorem sameNameString {bytes name : List Int} (ends : 0 ∈ bytes) (free : ∀ b ∈ name, b ≠ 0) :
    sameName bytes name = some (decide (name = cstring bytes)) := by
  induction bytes generalizing name with
  | nil => contradiction
  | cons b bytes ih =>
    cases name with
    | nil =>
      by_cases zero : b = 0
      · simp [sameName,cstring,zero]
      · simp [sameName,cstring,zero]
    | cons c name =>
      have notNul := free c List.mem_cons_self
      by_cases same : b = c
      · subst same
        have later : 0 ∈ bytes := (List.mem_cons.mp ends).resolve_left (fun h => notNul h.symm)
        rw [sameName,if_pos rfl,ih later (fun d member => free d (List.mem_cons_of_mem _ member))]
        simp [cstring,notNul]
      · rw [sameName,if_neg same]
        by_cases zero : b = 0
        · simp [cstring,zero]
        · have other : c ≠ b := fun h => same h.symm
          simp [cstring,zero,other]

def fresh : List Int := [0,0,0,0,0,0,-1,-1]

def row (l : List Int × Int) : List Int :=
  (l.1 ++ List.replicate mfNameLen 0).take mfNameLen ++ [toChar l.2,toChar (l.2 / 256)]

def rows (ls : List (List Int × Int)) (free : Nat) : List Int :=
  (ls.map row).flatten ++ (List.replicate free fresh).flatten

/- Each entry in use: the string that stands there, and the inode number. `after` are
the bytes behind the last of them. -/
def standing : List (List Int × Int) → List Int → List (List Int × Int)
  | [],_ => []
  | l::rest,after => (cstring (row l ++ (rest.map row).flatten ++ after),l.2)::standing rest after

-- The bytes behind the entries in use: the others, then the word `entries`.
def behind (ls : List (List Int × Int)) : List Int :=
  (List.replicate (mfMaxEntries - ls.length) fresh).flatten ++ [toChar ls.length,toChar ((ls.length : Int) / 256)]

def table (ls : List (List Int × Int)) : List (List Int × Int) := standing ls (behind ls)

def Number (ino : Int) : Prop := 0 ≤ ino ∧ ino < 32768

instance (ino : Int) : Decidable (Number ino) := inferInstanceAs (Decidable (_ ∧ _))

structure Directory (node : MfNode) (ls : List (List Int × Int)) : Prop where
  dir : node.dir = true
  file : node.file = rows ls (mfMaxEntries - ls.length)
  size : node.size = ls.length
  room : ls.length ≤ mfMaxEntries
  numbers : ∀ l ∈ ls, Number l.2

theorem rowLength (l : List Int × Int) : (row l).length = mfEntrySize := by
  simp [row,mfNameLen,mfEntrySize]

theorem rowsLength (ls : List (List Int × Int)) : (ls.map row).flatten.length = mfEntrySize * ls.length := by
  induction ls with
  | nil => rfl
  | cons l rest ih =>
    rw [List.map_cons,List.flatten_cons,List.length_append,rowLength,ih,List.length_cons,Nat.mul_add_one,
      Nat.add_comm]

theorem entryDrop (file : List Int) (i : Nat) : entryIno file i = entryIno (file.drop (mfEntrySize * i)) 0 := by
  have at_ : ∀ j, (file.drop (mfEntrySize * i)).getD j 0 = file.getD (mfEntrySize * i + j) 0 := by
    intro j
    rw [List.getD_eq_getElem?_getD,List.getElem?_drop,← List.getD_eq_getElem?_getD]
  unfold entryIno
  rw [Nat.mul_zero,Nat.zero_add,at_,at_,Nat.add_assoc]

theorem freshIno (rest : List Int) : entryIno (fresh ++ rest) 0 = -1 := rfl

theorem rowShape (l : List Int × Int) : ∃ a b c d e f : Int,
    (l.1 ++ List.replicate mfNameLen 0).take mfNameLen = [a,b,c,d,e,f] := by
  have length : ((l.1 ++ List.replicate mfNameLen 0).take mfNameLen).length = 6 := by simp [mfNameLen]
  match h : (l.1 ++ List.replicate mfNameLen 0).take mfNameLen,length with
  | [a,b,c,d,e,f],_ => exact ⟨a,b,c,d,e,f,rfl⟩

theorem rowIno {l : List Int × Int} (number : Number l.2) (rest : List Int) : entryIno (row l ++ rest) 0 = l.2 := by
  obtain ⟨a,b,c,d,e,f,shape⟩ := rowShape l
  have bytes : entryIno (row l ++ rest) 0 = toInt16 (toChar l.2 % 256 + 256 * (toChar (l.2 / 256) % 256)) := by
    rw [row,shape]
    rfl
  rw [bytes]
  unfold Number at number
  unfold toInt16 toChar
  omega

/-! mf_link takes the first free entry. -/

theorem replicateFlat (n : Nat) : (List.replicate (n + 1) fresh).flatten = fresh ++ (List.replicate n fresh).flatten := by
  rw [List.replicate_succ,List.flatten_cons]

theorem directoryEntry {node : MfNode} {ls : List (List Int × Int)} (held : Directory node ls) (i : Nat)
    (inside : i < mfMaxEntries) : entryIno node.file i = ((ls.map Prod.snd)[i]?).getD (-1) := by
  rw [entryDrop,held.file,rows]
  have ends := rowsLength (ls.take i)
  by_cases used : i < ls.length
  · have split : ls = ls.take i ++ ls[i]::ls.drop (i + 1) := by
      rw [List.getElem_cons_drop,List.take_append_drop]
    have skip : ((ls.map row).flatten ++ (List.replicate (mfMaxEntries - ls.length) fresh).flatten).drop (mfEntrySize * i) =
        row ls[i] ++ (((ls.drop (i + 1)).map row).flatten ++
          (List.replicate (mfMaxEntries - ls.length) fresh).flatten) := by
      have whole : (ls.map row).flatten = ((ls.take i).map row).flatten ++
          (row ls[i] ++ ((ls.drop (i + 1)).map row).flatten) := by
        refine (congrArg (fun l => (l.map row).flatten) split).trans ?_
        simp only [List.map_append,List.map_cons,List.flatten_append,List.flatten_cons]
      have length : (((ls.take i).map row).flatten).length = mfEntrySize * i := by
        rw [ends,List.length_take_of_le (Nat.le_of_lt used)]
      rw [whole,List.append_assoc,List.append_assoc,← length,List.drop_left]
    rw [skip,rowIno (held.numbers _ (List.getElem_mem used)),List.getElem?_map,List.getElem?_eq_getElem used]
    rfl
  · obtain ⟨d,total⟩ : ∃ d, mfMaxEntries - ls.length = (i - ls.length) + (d + 1) :=
      ⟨mfMaxEntries - i - 1,by omega⟩
    have skip : ((ls.map row).flatten ++ (List.replicate (mfMaxEntries - ls.length) fresh).flatten).drop (mfEntrySize * i) =
        fresh ++ (List.replicate d fresh).flatten := by
      have length : ((ls.map row).flatten ++ (List.replicate (i - ls.length) fresh).flatten).length = mfEntrySize * i := by
        rw [List.length_append,rowsLength,List.length_flatten,List.map_replicate,List.sum_replicate_nat]
        have width : fresh.length = mfEntrySize := rfl
        rw [width,Nat.mul_comm (i - ls.length),← Nat.mul_add]
        congr 1
        omega
      rw [total,List.replicate_add,List.flatten_append,← List.append_assoc,← length,List.drop_left,replicateFlat]
    rw [skip,freshIno,List.getElem?_eq_none_iff.mpr (by simpa using used)]
    rfl

theorem linkRow {pre post : List Int} {k : Nat} (start : pre.length = mfEntrySize * k) (name : List Char) (ino : Int) :
    setBytes (setEntryIno (pre ++ (fresh ++ post)) k ino) (mfEntrySize * k) (strncpyName name) =
      pre ++ (row (name.map charByte,ino) ++ post) := by
  have bytes : strncpyName name = ((name.map charByte,ino).1 ++ List.replicate mfNameLen 0).take mfNameLen := rfl
  obtain ⟨a,b,c,d,e,f,shape⟩ := rowShape (name.map charByte,ino)
  have at_ : ∀ (rest : List Int) (j : Nat) (v : Int), (pre ++ rest).set (mfEntrySize * k + j) v = pre ++ rest.set j v := by
    intro rest j v
    rw [List.set_append_right _ _ (by omega),start,Nat.add_sub_cancel_left]
  have first : ∀ (rest : List Int) (v : Int), (pre ++ rest).set (mfEntrySize * k) v = pre ++ rest.set 0 v :=
    fun rest v => at_ rest 0 v
  rw [bytes,row,shape]
  simp only [setEntryIno,setBytes,Nat.add_assoc,at_,first]
  rfl

theorem linked {node : MfNode} {ls : List (List Int × Int)} (held : Directory node ls) (name : List Char) {ino : Int}
    (number : Number ino) :
    (ls.length = mfMaxEntries ∧ mfLink node name ino = (node,-1)) ∨
    (ls.length < mfMaxEntries ∧ (mfLink node name ino).2 = ls.length ∧
      Directory (mfLink node name ino).1 (ls ++ [(name.map charByte,ino)])) := by
  have room := held.room
  by_cases full : ls.length = mfMaxEntries
  · refine Or.inl ⟨full,?_⟩
    have none : (List.range mfMaxEntries).find? (fun i => entryIno node.file i = -1) = none := by
      rw [List.find?_eq_none]
      intro i member
      have inside : i < ls.length := full ▸ List.mem_range.mp member
      have natural := (held.numbers _ (List.getElem_mem inside)).1
      rw [directoryEntry held i (List.mem_range.mp member),List.getElem?_map,List.getElem?_eq_getElem inside]
      simp only [Option.map_some,Option.getD_some,decide_eq_true_eq]
      omega
    rw [mfLink,none]
  · have some_ : (List.range mfMaxEntries).find? (fun i => entryIno node.file i = -1) = some ls.length := by
      rw [List.find?_range_eq_some]
      refine ⟨?_,by rw [List.mem_range]; omega,?_⟩
      · rw [directoryEntry held _ (by omega),List.getElem?_eq_none_iff.mpr (by simp)]
        rfl
      · intro i inside
        have natural := (held.numbers _ (List.getElem_mem inside)).1
        rw [directoryEntry held i (by omega),List.getElem?_map,List.getElem?_eq_getElem inside]
        simp only [Option.map_some,Option.getD_some,Bool.not_eq_true',decide_eq_false_iff_not]
        omega
    refine Or.inr ⟨by omega,?_,?_⟩
    · rw [mfLink,some_]
    · rw [mfLink,some_]
      obtain ⟨d,total⟩ : ∃ d, mfMaxEntries - ls.length = d + 1 := ⟨mfMaxEntries - ls.length - 1,by omega⟩
      have less : mfMaxEntries - (ls.length + 1) = d := by omega
      refine ⟨held.dir,?_,?_,?_,?_⟩
      · dsimp only
        rw [held.file,rows,total,replicateFlat,linkRow (rowsLength ls)]
        simp [rows,less]
      · dsimp only
        rw [held.size,List.length_append,List.length_singleton]
        have small : ls.length < 16 := by unfold mfMaxEntries at room full; omega
        unfold toInt16
        omega
      · rw [List.length_append,List.length_singleton]
        omega
      · intro l member
        rcases List.mem_append.mp member with old | new
        · exact held.numbers l old
        · rw [List.mem_singleton.mp new]
          exact number

/-! mf_get_direntry finds the first entry whose string is the name. -/

def listed (found : Option Int) : Int := found.getD (-1)

theorem searchFresh {node : MfNode} {name : List Char} (n k : Nat)
    (left : node.file.drop (mfEntrySize * k) = (List.replicate n fresh).flatten) :
    mfGetDirentry.search node name (List.range' k n) = some (-1) := by
  induction n generalizing k with
  | zero => rfl
  | succ n ih =>
    rw [replicateFlat] at left
    have free : entryIno node.file k = -1 := by rw [entryDrop,left,freshIno]
    have next : node.file.drop (mfEntrySize * (k + 1)) = (List.replicate n fresh).flatten := by
      rw [Nat.mul_add_one,← List.drop_drop,left]
      rfl
    rw [List.range'_succ,mfGetDirentry.search,if_pos free,ih (k + 1) next]

theorem searchStanding {node : MfNode} {name : List Char} (text : Text name) {post : List Int} (n k : Nat)
    (rest : List (List Int × Int)) (numbers : ∀ l ∈ rest, Number l.2)
    (left : node.file.drop (mfEntrySize * k) = (rest.map row).flatten ++ (List.replicate n fresh).flatten)
    (tail : post = [toChar node.size,toChar (node.size / 256)]) (ends : 0 ∈ post) :
    mfGetDirentry.search node name (List.range' k (rest.length + n)) =
      some (listed ((standing rest ((List.replicate n fresh).flatten ++ post)).lookup (name.map charByte))) := by
  induction rest generalizing k with
  | nil =>
    rw [List.length_nil,Nat.zero_add]
    exact searchFresh n k left
  | cons l rest ih =>
    rw [List.map_cons,List.flatten_cons,List.append_assoc] at left
    have number := numbers l List.mem_cons_self
    have used : entryIno node.file k = l.2 := by rw [entryDrop,left,rowIno number]
    have real : entryIno node.file k ≠ -1 := by
      rw [used]
      unfold Number at number
      omega
    have next : node.file.drop (mfEntrySize * (k + 1)) = (rest.map row).flatten ++ (List.replicate n fresh).flatten := by
      rw [Nat.mul_add_one,← List.drop_drop,left,← rowLength l,List.drop_left]
    have later := ih (k + 1) (fun m member => numbers m (List.mem_cons_of_mem _ member)) next
    have bytes : entryBytes node k = row l ++ (rest.map row).flatten ++ ((List.replicate n fresh).flatten ++ post) := by
      rw [entryBytes,left,tail]
      simp only [List.append_assoc]
    have same : sameName (entryBytes node k) (name.map charByte) =
        some (decide (name.map charByte = cstring (entryBytes node k))) := sameNameString
      (by rw [bytes]; simp [ends]) (by
        intro b member
        obtain ⟨c,there,rfl⟩ := List.mem_map.mp member
        exact text c there)
    have more : (l::rest).length + n = (rest.length + n) + 1 := by
      rw [List.length_cons]
      omega
    rw [more,List.range'_succ,mfGetDirentry.search,if_neg real,same,standing,List.lookup_cons,used,later,bytes]
    generalize cstring _ = here
    by_cases found : name.map charByte = here
    · subst here
      simp [listed]
    · have other : (name.map charByte == here) = false := by simpa using found
      simp [found,other]

theorem looked {node : MfNode} {ls : List (List Int × Int)} (held : Directory node ls) {name : List Char}
    (text : Text name) : mfGetDirentry node name = some (listed ((table ls).lookup (name.map charByte))) := by
  have room := held.room
  have size : toChar ((ls.length : Int) / 256) = 0 := by
    unfold mfMaxEntries at room
    unfold toChar
    omega
  have found := @searchStanding node _ text _ (mfMaxEntries - ls.length) 0 ls held.numbers held.file rfl
    (by rw [held.size,size]; simp)
  rw [Nat.add_sub_cancel' room,← List.range_eq_range'] at found
  rw [mfGetDirentry,found,held.size]
  rfl

/-! A sequence of calls, from the empty directory on. -/

def linkAll (links : List (List Char × Int)) : MfNode :=
  links.foldl (fun node l => (mfLink node l.1 l.2).1) (mfNewNode true)

def accepted (links : List (List Char × Int)) : List (List Int × Int) := (links.take mfMaxEntries).map spelled

theorem emptyDirectory : Directory (mfNewNode true) [] := ⟨rfl,rfl,rfl,by decide,by simp⟩

theorem linkAllSnoc (links : List (List Char × Int)) (l : List Char × Int) :
    linkAll (links ++ [l]) = (mfLink (linkAll links) l.1 l.2).1 := by
  simp [linkAll]

theorem acceptedSnoc {links : List (List Char × Int)} (l : List Char × Int) (room : links.length < mfMaxEntries) :
    accepted (links ++ [l]) = accepted links ++ [spelled l] := by
  rw [accepted,List.take_of_length_le (by rw [List.length_append]; exact room),List.map_append,accepted,
    List.take_of_length_le (by omega)]
  rfl

theorem acceptedFull {links : List (List Char × Int)} (l : List Char × Int) (full : mfMaxEntries ≤ links.length) :
    accepted (links ++ [l]) = accepted links := by
  rw [accepted,List.take_append_of_le_length full]
  rfl

theorem acceptedLength (links : List (List Char × Int)) : (accepted links).length = min mfMaxEntries links.length := by
  rw [accepted,List.length_map,List.length_take]

theorem linkAllDirectory {links : List (List Char × Int)} (numbers : ∀ l ∈ links, Number l.2) :
    Directory (linkAll links) (accepted links) := by
  induction links using List.reverseRecOn with
  | nil => exact emptyDirectory
  | append_singleton links l ih =>
    have held := ih (fun m member => numbers m (List.mem_append_left _ member))
    have length := acceptedLength links
    rw [linkAllSnoc]
    rcases linked held l.1 (numbers l (by simp)) with ⟨full,same⟩ | ⟨room,-,more⟩
    · rw [same,acceptedFull l (by omega)]
      exact held
    · rw [acceptedSnoc l (by omega)]
      exact more

/- What mf_get_direntry is for: each call is undone by a lookup of its name, the other
names lead where they led, and nothing else is found. -/
structure Undoes (links : List (List Char × Int)) : Prop where
  full : ∀ before l after, links = before ++ l::after → mfMaxEntries ≤ before.length →
    mfLink (linkAll before) l.1 l.2 = (linkAll before,-1)
  found : ∀ before l after, links = before ++ l::after → before.length < mfMaxEntries →
    0 ≤ (mfLink (linkAll before) l.1 l.2).2 ∧ mfGetDirentry (mfLink (linkAll before) l.1 l.2).1 l.1 = some l.2 ∧
    ∀ k ∈ before, mfGetDirentry (mfLink (linkAll before) l.1 l.2).1 k.1 = mfGetDirentry (linkAll before) k.1
  others : ∀ before after name, links = before ++ after → Text name →
    name.map charByte ∉ (accepted before).map Prod.fst → mfGetDirentry (linkAll before) name = some (-1)

/- Each time, the strings in the table include each name, beside its inode number. -/
def Legible (links : List (List Char × Int)) : Prop :=
  ∀ before, before <+: links → before.length ≤ mfMaxEntries → ∀ l ∈ before, spelled l ∈ table (accepted before)

theorem lookupMember {α : Type} {keyed : List (List Int × α)} (unique : (keyed.map Prod.fst).Nodup) (key : List Int) (v : α) :
    keyed.lookup key = some v ↔ (key,v) ∈ keyed := by
  rw [List.lookup_eq_some_iff]
  constructor
  · rintro ⟨front,rest,rfl,-⟩
    simp
  · intro member
    obtain ⟨front,rest,rfl⟩ := List.append_of_mem member
    refine ⟨front,rest,rfl,?_⟩
    intro p there
    rw [List.map_append,List.map_cons] at unique
    have apart := (List.nodup_middle.mp unique).notMem
    have other : key ≠ p.1 := by
      intro same
      subst same
      exact apart (List.mem_append_left _ (List.mem_map.mpr ⟨p,there,rfl⟩))
    simpa using other

theorem standingLength (ls : List (List Int × Int)) (after : List Int) : (standing ls after).length = ls.length := by
  induction ls with
  | nil => rfl
  | cons l rest ih => rw [standing,List.length_cons,ih,List.length_cons]

theorem tableLookup {ls : List (List Int × Int)} (unique : (ls.map Prod.fst).Nodup) (legible : ∀ l ∈ ls, l ∈ table ls)
    (key : List Int) : (table ls).lookup key = ls.lookup key := by
  have same : ls.Perm (table ls) :=
    (List.subperm_of_subset (List.Nodup.of_map _ unique) legible).perm_of_length_le (Nat.le_of_eq (standingLength _ _))
  have unique' : ((table ls).map Prod.fst).Nodup := (same.map Prod.fst).nodup_iff.mp unique
  refine Option.ext (fun v => ?_)
  rw [lookupMember unique',lookupMember unique,same.mem_iff]

section
variable {links : List (List Char × Int)} (numbers : ∀ l ∈ links, Number l.2) (texts : ∀ l ∈ links, Text l.1)
  (distinct : (links.map (fun l => l.1.map charByte)).Nodup)

include numbers in
theorem lookedAll {before : List (List Char × Int)} (front : before <+: links) {name : List Char} (text : Text name) :
    mfGetDirentry (linkAll before) name = some (listed ((table (accepted before)).lookup (name.map charByte))) :=
  looked (linkAllDirectory (fun l member => numbers l (front.subset member))) text

include distinct in
theorem acceptedUnique {before : List (List Char × Int)} (front : before <+: links) :
    ((accepted before).map Prod.fst).Nodup := by
  have some_ : (accepted before).map Prod.fst =
      ((links.map (fun l => l.1.map charByte)).take before.length).take mfMaxEntries := by
    obtain ⟨after,rfl⟩ := front
    rw [accepted,List.map_map,← List.map_take,List.take_left,← List.map_take]
    rfl
  rw [some_]
  exact (distinct.sublist (List.take_sublist _ _)).sublist (List.take_sublist _ _)

include numbers texts distinct in
theorem legibleUndoes (legible : Legible links) : Undoes links := by
  have few : ∀ before, before <+: links → ∀ key, (table (accepted before)).lookup key = (accepted before).lookup key := by
    intro before front
    refine tableLookup (acceptedUnique distinct front) ?_
    intro l member
    obtain ⟨m,there,rfl⟩ := List.mem_map.mp member
    have short : before.take mfMaxEntries <+: links := (List.take_prefix _ _).trans front
    have same : accepted (before.take mfMaxEntries) = accepted before := by
      rw [accepted,List.take_take,Nat.min_self]
      rfl
    rw [← same]
    exact legible _ short (by rw [List.length_take]; omega) m there
  have finds : ∀ before, before <+: links → before.length ≤ mfMaxEntries → ∀ k ∈ before,
      mfGetDirentry (linkAll before) k.1 = some k.2 := by
    intro before front short k member
    have there : spelled k ∈ accepted before := by
      rw [accepted,List.take_of_length_le short]
      exact List.mem_map_of_mem member
    rw [lookedAll numbers front (texts k (front.subset member)),few before front,
      (lookupMember (acceptedUnique distinct front) _ k.2).mpr there]
    rfl
  refine ⟨?_,?_,?_⟩
  · rintro before l after rfl full
    have held : Directory (linkAll before) (accepted before) := linkAllDirectory (fun m member => numbers m (by simp [member]))
    rcases linked held l.1 (numbers l (by simp)) with ⟨-,same⟩ | ⟨room,-⟩
    · exact same
    · rw [acceptedLength] at room
      omega
  · rintro before l after rfl room
    have held : Directory (linkAll before) (accepted before) := linkAllDirectory (fun m member => numbers m (by simp [member]))
    have front : before <+: before ++ l::after := List.prefix_append _ _
    have next : before ++ [l] <+: before ++ l::after := ⟨after,by simp⟩
    have short : (before ++ [l]).length ≤ mfMaxEntries := by
      rw [List.length_append]
      exact room
    refine ⟨?_,?_,?_⟩
    · rcases linked held l.1 (numbers l (by simp)) with ⟨full,-⟩ | ⟨-,index,-⟩
      · rw [acceptedLength] at full
        omega
      · rw [index]
        exact Int.natCast_nonneg _
    · rw [← linkAllSnoc]
      exact finds _ next short l (by simp)
    · intro k member
      rw [← linkAllSnoc,finds _ next short k (List.mem_append_left _ member),
        finds _ front (Nat.le_of_lt room) k member]
  · rintro before after name rfl text absent
    have front : before <+: before ++ after := List.prefix_append _ _
    have none : (accepted before).lookup (name.map charByte) = none := by
      rw [List.lookup_eq_none_iff]
      intro p member
      have other : name.map charByte ≠ p.1 := by
        intro same
        exact absent (same ▸ List.mem_map_of_mem member)
      simpa using other
    rw [lookedAll numbers front text,few before front,none]
    rfl

include numbers texts in
theorem undoesLegible (undoes : Undoes links) : Legible links := by
  have finds : ∀ before, before <+: links → before.length ≤ mfMaxEntries → ∀ k ∈ before,
      mfGetDirentry (linkAll before) k.1 = some k.2 := by
    intro before
    induction before using List.reverseRecOn with
    | nil => simp
    | append_singleton before l ih =>
      rintro ⟨after,rfl⟩ short k member
      rw [List.length_append,List.length_singleton] at short
      obtain ⟨-,own,kept⟩ := undoes.found before l after (by simp) (by omega)
      rw [linkAllSnoc]
      rcases List.mem_append.mp member with old | new
      · rw [kept k old]
        exact ih ⟨l::after,by simp⟩ (by omega) k old
      · rw [List.mem_singleton.mp new]
        exact own
  intro before front short l member
  have natural := (numbers l (front.subset member)).1
  have found := finds before front short l member
  rw [lookedAll numbers front (texts l (front.subset member))] at found
  cases there : (table (accepted before)).lookup (l.1.map charByte) with
  | none =>
    rw [there] at found
    have missing : (-1 : Int) = l.2 := Option.some.inj found
    omega
  | some ino =>
    rw [there] at found
    obtain ⟨pre,post,split,-⟩ := List.lookup_eq_some_iff.mp there
    have same : ino = l.2 := Option.some.inj found
    rw [split,spelled,← same]
    simp

end

/-! Which names a row can hold. -/

theorem cstringStop {name : List Int} (free : ∀ b ∈ name, b ≠ 0) (rest : List Int) : cstring (name ++ 0::rest) = name := by
  unfold cstring
  rw [List.takeWhile_append_of_pos (by simpa using free)]
  simp

theorem shortStanding {l : List Int × Int} (free : ∀ b ∈ l.1, b ≠ 0) (short : l.1.length ≤ 5) (rest : List Int) :
    cstring (row l ++ rest) = l.1 := by
  obtain ⟨n,zeros⟩ : ∃ n, mfNameLen - l.1.length = n + 1 := ⟨mfNameLen - l.1.length - 1,by unfold mfNameLen; omega⟩
  have padded : (l.1 ++ List.replicate mfNameLen 0).take mfNameLen = l.1 ++ 0::List.replicate n 0 := by
    rw [List.take_append,List.take_of_length_le (by unfold mfNameLen; omega),List.take_replicate,zeros,
      Nat.min_eq_left (by omega)]
    rfl
  rw [row,padded,List.append_assoc,List.append_assoc,List.cons_append]
  exact cstringStop free _

theorem standingSource {ls : List (List Int × Int)} {after : List Int} {e : List Int × Int} (member : e ∈ standing ls after) :
    ∃ l ∈ ls, ∃ rest, e = (cstring (row l ++ rest),l.2) := by
  induction ls with
  | nil => contradiction
  | cons l ls ih =>
    rcases List.mem_cons.mp member with rfl | later
    · exact ⟨l,List.mem_cons_self,(ls.map row).flatten ++ after,by rw [List.append_assoc]⟩
    · obtain ⟨m,there,rest,same⟩ := ih later
      exact ⟨m,List.mem_cons_of_mem _ there,rest,same⟩

theorem standingShort {ls : List (List Int × Int)} (after : List Int)
    (short : ∀ l ∈ ls, (∀ b ∈ l.1, b ≠ 0) ∧ l.1.length ≤ 5) : standing ls after = ls := by
  induction ls with
  | nil => rfl
  | cons l ls ih =>
    obtain ⟨free,few⟩ := short l List.mem_cons_self
    rw [standing,List.append_assoc,shortStanding free few,ih (fun m member => short m (List.mem_cons_of_mem _ member))]

theorem cstringLength (front rest : List Int) : (cstring (front ++ 0::rest)).length ≤ front.length := by
  unfold cstring
  rw [List.takeWhile_append]
  split
  · simp
  · exact (List.takeWhile_sublist _).length_le

-- Inode number 0 ends a row's string by its sixth byte; inode number 1 has no NUL there.
theorem numberZero (name rest : List Int) : (cstring (row (name,0) ++ rest)).length ≤ 6 := by
  obtain ⟨a,b,c,d,e,f,shape⟩ := rowShape (name,0)
  have bytes : row (name,0) ++ rest = [a,b,c,d,e,f] ++ 0::(0::rest) := by
    rw [row,shape]
    rfl
  rw [bytes]
  exact cstringLength _ _

theorem numberOne (name rest : List Int) : (cstring (row (name,1) ++ rest)).length ≠ 6 := by
  obtain ⟨a,b,c,d,e,f,shape⟩ := rowShape (name,1)
  have bytes : row (name,1) ++ rest = [a,b,c,d,e,f] ++ ([1] ++ 0::rest) := by
    rw [row,shape]
    rfl
  rw [bytes]
  unfold cstring
  rw [List.takeWhile_append]
  split
  · simp
  · rename_i cut
    intro six
    exact cut six

section
variable {names : List (List Char)}

theorem shortLegible {links : List (List Char × Int)} (texts : ∀ l ∈ links, Text l.1)
    (short : ∀ l ∈ links.take mfMaxEntries, l.1.length ≤ 5) : Legible links := by
  intro before front few l member
  have own : ∀ m ∈ before, m.1.length ≤ 5 := by
    intro m there
    obtain ⟨after,rfl⟩ := front
    refine short m ?_
    rw [List.take_append,List.take_of_length_le few]
    exact List.mem_append_left _ there
  rw [accepted,List.take_of_length_le few,table,standingShort]
  · exact List.mem_map_of_mem member
  · intro m there
    obtain ⟨k,among,rfl⟩ := List.mem_map.mp there
    refine ⟨?_,by simpa [spelled] using own k among⟩
    intro b byte
    obtain ⟨c,char,rfl⟩ := List.mem_map.mp byte
    exact texts k (front.subset among) c char

theorem sameNumber (names : List (List Char)) (ino : Int) :
    names.zip (List.replicate names.length ino) = names.map (fun n => (n,ino)) := by
  induction names with
  | nil => rfl
  | cons n rest ih => simp [List.replicate_succ,ih]

theorem legibleShort (all : ∀ ino, Number ino → Legible (names.map (fun n => (n,ino)))) :
    ∀ n ∈ names.take mfMaxEntries, n.length ≤ 5 := by
  intro n member
  have found : ∀ ino, Number ino → ∃ name rest, n.map charByte = cstring (row (name,ino) ++ rest) := by
    intro ino number
    have front : (names.take mfMaxEntries).map (fun n => (n,ino)) <+: names.map (fun n => (n,ino)) :=
      (List.take_prefix _ _).map _
    have there := all ino number _ front (by rw [List.length_map,List.length_take]; omega) (n,ino)
      (List.mem_map_of_mem member)
    obtain ⟨l,among,rest,same⟩ := standingSource there
    obtain ⟨string,own⟩ := Prod.mk.inj same
    have numbered : (l.1,ino) = l := Prod.ext rfl own
    exact ⟨l.1,rest,by rw [numbered]; exact string⟩
  obtain ⟨name,rest,zero⟩ := found 0 (by unfold Number; omega)
  obtain ⟨name',rest',one⟩ := found 1 (by unfold Number; omega)
  have most := numberZero name rest
  have other := numberOne name' rest'
  rw [← zero,List.length_map] at most
  rw [← one,List.length_map] at other
  omega

end

/-- A sequence of calls is undone if and only if the strings that stand in the table are the
names; whatever the inode numbers, they are if and only if no name is longer than five. -/
theorem directoryUndoesLinks {names : List (List Char)} (texts : ∀ n ∈ names, Text n)
    (distinct : (names.map (fun n => n.map charByte)).Nodup) :
    (∀ numbers : List Int, numbers.length = names.length → (∀ ino ∈ numbers, Number ino) →
      (Undoes (names.zip numbers) ↔ Legible (names.zip numbers))) ∧
    ((∀ numbers : List Int, numbers.length = names.length → (∀ ino ∈ numbers, Number ino) →
      Undoes (names.zip numbers)) ↔ ∀ n ∈ names.take mfMaxEntries, n.length ≤ 5) := by
  have exact_ : ∀ numbers : List Int, numbers.length = names.length → (∀ ino ∈ numbers, Number ino) →
      (Undoes (names.zip numbers) ↔ Legible (names.zip numbers)) := by
    intro numbers length valid
    have texts' : ∀ l ∈ names.zip numbers, Text l.1 := fun l member => texts l.1 (List.of_mem_zip member).1
    have numbers' : ∀ l ∈ names.zip numbers, Number l.2 := fun l member => valid l.2 (List.of_mem_zip member).2
    have distinct' : ((names.zip numbers).map (fun l => l.1.map charByte)).Nodup := by
      have first : (names.zip numbers).map (fun l => l.1.map charByte) =
          ((names.zip numbers).map Prod.fst).map (fun n => n.map charByte) := by
        rw [List.map_map]
        rfl
      rw [first,List.map_fst_zip (Nat.le_of_eq length.symm)]
      exact distinct
    exact ⟨undoesLegible numbers' texts',legibleUndoes numbers' texts' distinct'⟩
  refine ⟨exact_,?_,?_⟩
  · intro all
    refine legibleShort (fun ino number => ?_)
    have valid : ∀ i ∈ List.replicate names.length ino, Number i := by
      intro i member
      rw [List.eq_of_mem_replicate member]
      exact number
    rw [← sameNumber]
    exact (exact_ _ (List.length_replicate) valid).mp (all _ (List.length_replicate) valid)
  · intro short numbers length valid
    refine (exact_ numbers length valid).mpr (shortLegible (fun l member => texts l.1 (List.of_mem_zip member).1) ?_)
    intro l member
    refine short l.1 ?_
    rw [List.zip,List.take_zipWith] at member
    exact (List.of_mem_zip member).1

-- Two files beside ".".
theorem directoryUndoesThree : Undoes [(['.'],0),(['a','b'],1),(['a'],300)] := by
  have three := @directoryUndoesLinks [['.'],['a','b'],['a']] (by decide) (by decide)
  exact three.2.mpr (by decide) [0,1,300] rfl (by decide)

/- A name of six characters has no NUL: the inode number's low byte becomes a part of it. -/
theorem sixCharactersLost : (∀ n ∈ [['r','e','a','d','m','e']], Text n) ∧ Number 1 ∧
    mfGetDirentry (linkAll [(['r','e','a','d','m','e'],1)]) ['r','e','a','d','m','e'] = some (-1) ∧
    ¬ Undoes [(['r','e','a','d','m','e'],1)] := by
  have lost : mfGetDirentry (linkAll [(['r','e','a','d','m','e'],1)]) ['r','e','a','d','m','e'] = some (-1) := by
    decide +kernel
  refine ⟨by decide,by decide,lost,?_⟩
  intro undoes
  have found := (undoes.found [] _ [] rfl (by decide)).2.1
  change mfGetDirentry (linkAll [(['r','e','a','d','m','e'],1)]) ['r','e','a','d','m','e'] = some 1 at found
  exact absurd (Option.some.inj (lost.symm.trans found)) (by decide)

end Avros.Vfs
