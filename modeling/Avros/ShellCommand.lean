import Avros.ShellLine

/-! `usr/sh.c`, getcmd(): where it stores, and what it leaves of a line in a buffer of any
length. The buffer begins at 0 of the memory around it. -/
namespace Avros.Pipeline.Command
open Pipeline Vfs

-- `cmd[i] = c`
def charOf (c : Int) : Char := Char.ofNat (c % 256).toNat

def isBreak (c : Int) : Prop := c = 13 ∨ c = 10

-- The indexes of all stores, in their order, and what is still to be read.
structure Filled where
  rc : Int
  cmd : Int → Char
  stores : List Int
  fin : List Int

/- `fin` is what readc() answers, up to an EOF that may be the end of the list. An index is
never above len, so no sum leaves an int. -/
def getcmd (len : Int) : List Int → Int → (Int → Char) → List Int → Filled
  | [],_,cmd,stores => ⟨eof,cmd,stores,[]⟩
  | c::fin,i,cmd,stores =>
    if c = eof then ⟨eof,cmd,stores,fin⟩
    else
      let i := if i ≥ len - 1 then i - 1 else i
      if c = 13 ∨ c = 10 then ⟨0,Function.update cmd i nul,stores ++ [i],fin⟩
      else
        let cmd := Function.update cmd i (charOf c)
        getcmd len fin (if i + 1 = len - 1 then i + 1 - 1 else i + 1) cmd (stores ++ [i])

def held (cmd : Int → Char) (n : Nat) : List Char := (List.range n).map fun k : Nat => cmd (k : Int)

def kept (len : Int) (line : List Int) : List Char := (line.take (len - 2).toNat).map charOf

structure Inside (len : Int) (start cmd : Int → Char) (stores : List Int) : Prop where
  low : ∀ k ∈ stores, 0 ≤ k
  high : ∀ k ∈ stores, k ≤ len - 2
  others : ∀ k, k ∉ stores → cmd k = start k

structure Standing (len : Int) (start : Int → Char) (line : List Int) (i : Int) (cmd : Int → Char) (stores : List Int) :
    Prop where
  place : i = (kept len line).length
  text : held cmd (kept len line).length = kept len line
  inside : Inside len start cmd stores

section
variable {i len : Int} {start cmd : Int → Char} {stores line fin rest : List Int}

theorem heldStored (cmd : Int → Char) (n : Nat) (c : Char) :
    held (Function.update cmd n c) n = held cmd n ∧ held (Function.update cmd n c) (n + 1) = held cmd n ++ [c] := by
  have same : held (Function.update cmd n c) n = held cmd n := by
    refine List.map_congr_left fun k member => Function.update_of_ne ?_ _ _
    have below := List.mem_range.mp member
    omega
  refine ⟨same,?_⟩
  rw [held,List.range_succ,List.map_append]
  change held (Function.update cmd n c) n ++ [Function.update cmd n c n] = _
  rw [same,Function.update_self]

theorem Inside.stored (inside : Inside len start cmd stores) (low : 0 ≤ i) (high : i ≤ len - 2) (c : Char) :
    Inside len start (Function.update cmd i c) (stores ++ [i]) := by
  refine ⟨fun k member => ?_,fun k member => ?_,fun k away => ?_⟩
  · rcases List.mem_append.mp member with old | last
    · exact inside.low k old
    · exact List.mem_singleton.mp last ▸ low
  · rcases List.mem_append.mp member with old | last
    · exact inside.high k old
    · exact List.mem_singleton.mp last ▸ high
  · simp only [List.mem_append,List.mem_singleton,not_or] at away
    rw [Function.update_of_ne away.2]
    exact inside.others k away.1

theorem keptLength (len : Int) (line : List Int) : (kept len line).length = min (len - 2).toNat line.length := by
  simp [kept]

theorem Standing.room (standing : Standing len start line i cmd stores) (room : 2 ≤ len) : 0 ≤ i ∧ i ≤ len - 2 := by
  have place := standing.place
  rw [keptLength] at place
  omega

theorem Standing.next (standing : Standing len start line i cmd stores) (room : 2 ≤ len) (c : Int) :
    Standing len start (line ++ [c]) (if i = len - 2 then i else i + 1) (Function.update cmd i (charOf c))
      (stores ++ [i]) := by
  obtain ⟨low,high⟩ := standing.room room
  have inside := standing.inside.stored low high (charOf c)
  obtain ⟨place,text,-⟩ := standing
  by_cases full : (len - 2).toNat ≤ line.length
  · have same : kept len (line ++ [c]) = kept len line := by rw [kept,kept,List.take_append_of_le_length full]
    have last : i = len - 2 := by
      rw [place,keptLength]
      omega
    rw [if_pos last]
    refine ⟨by rw [same,place],?_,inside⟩
    rw [same,place,(heldStored cmd _ _).1,text]
  · have more : kept len (line ++ [c]) = kept len line ++ [charOf c] := by
      rw [kept,kept,List.take_of_length_le (by simp; omega),List.take_of_length_le (by omega),List.map_append]
      rfl
    have below : i ≠ len - 2 := by
      rw [place,keptLength]
      omega
    rw [if_neg below]
    refine ⟨by rw [more,place]; simp,?_,inside⟩
    rw [more,place,List.length_append,List.length_singleton,(heldStored cmd _ _).2,text]

def Plain (c : Int) : Prop := c ≠ eof ∧ ¬ isBreak c

theorem getcmdPlain {c : Int} (plain : Plain c) (high : i ≤ len - 2) (fin : List Int) : getcmd len (c::fin) i cmd stores =
    getcmd len fin (if i = len - 2 then i else i + 1) (Function.update cmd i (charOf c)) (stores ++ [i]) := by
  obtain ⟨real,more⟩ := plain
  unfold isBreak at more
  have inside : ¬ i ≥ len - 1 := by omega
  have index : (if i + 1 = len - 1 then i + 1 - 1 else i + 1) = if i = len - 2 then i else i + 1 := by
    split <;> split <;> omega
  simp only [getcmd,if_neg real,if_neg inside,if_neg more,index]

theorem Standing.reads (standing : Standing len start line i cmd stores) (room : 2 ≤ len) (more rest : List Int)
    (plain : ∀ c ∈ more, Plain c) : ∃ i' cmd' stores', Standing len start (line ++ more) i' cmd' stores' ∧
      getcmd len (more ++ rest) i cmd stores = getcmd len rest i' cmd' stores' := by
  induction more generalizing line i cmd stores with
  | nil => exact ⟨i,cmd,stores,by rwa [List.append_nil],rfl⟩
  | cons c more ih =>
    obtain ⟨first,others⟩ := List.forall_mem_cons.mp plain
    obtain ⟨i',cmd',stores',stands,same⟩ := ih (standing.next room c) others
    refine ⟨i',cmd',stores',?_,?_⟩
    · rwa [List.append_assoc] at stands
    · rw [List.cons_append,getcmdPlain first (standing.room room).2]
      exact same

theorem standingStart (len : Int) (cmd : Int → Char) : Standing len cmd [] 0 cmd [] :=
  ⟨by simp [kept],by simp [kept,held],⟨by simp,by simp,fun _ _ => rfl⟩⟩

/-- Whatever line is read, the stores are at 0 to len - 2. A line that is ended is left as far as
it fits, with its terminator behind it; at EOF nothing is promised of the buffer. -/
theorem commandTruncated (room : 2 ≤ len) (plain : ∀ c ∈ line, Plain c) (cmd : Int → Char) :
    (∀ brk rest, isBreak brk →
      let r := getcmd len (line ++ brk::rest) 0 cmd []
      r.rc = 0 ∧ r.fin = rest ∧ Inside len cmd r.cmd r.stores ∧
        held r.cmd ((kept len line).length + 1) = kept len line ++ [nul]) ∧
    ∀ rest, rest.head?.getD eof = eof →
      let r := getcmd len (line ++ rest) 0 cmd []
      r.rc = eof ∧ Inside len cmd r.cmd r.stores := by
  constructor
  · intro brk rest ended
    obtain ⟨i,cmd',stores,standing,same⟩ := (standingStart len cmd).reads room line (brk::rest) plain
    obtain ⟨low,high⟩ := standing.room room
    have real : brk ≠ eof := by rcases ended with rfl | rfl <;> decide
    have below : ¬ i ≥ len - 1 := by omega
    unfold isBreak at ended
    simp only [same,getcmd,if_neg real,if_neg below,if_pos ended]
    refine ⟨trivial,trivial,standing.inside.stored low high nul,?_⟩
    have text := standing.text
    rw [List.nil_append] at text
    rw [standing.place,List.nil_append,(heldStored cmd' _ _).2,text]
  · intro rest ends
    obtain ⟨i,cmd',stores,standing,same⟩ := (standingStart len cmd).reads room line rest plain
    cases rest with
    | nil => simp only [same,getcmd]; exact ⟨trivial,standing.inside⟩
    | cons c rest =>
      have last : c = eof := ends
      simp only [same,getcmd,if_pos last]
      exact ⟨trivial,standing.inside⟩

-- "abc" in a buffer of four bytes
theorem commandTruncatedFour :
    let r := getcmd 4 [97,98,99,13,10] 0 (fun _ => nul) []
    r.rc = 0 ∧ r.fin = [10] ∧ Inside 4 (fun _ => nul) r.cmd r.stores ∧ held r.cmd 3 = ['a','b',nul] :=
  (@commandTruncated 4 [97,98,99] (by decide) (by simp [Plain,isBreak,eof]) fun _ => nul).1 13 [10] (.inl rfl)

end

end Avros.Pipeline.Command
