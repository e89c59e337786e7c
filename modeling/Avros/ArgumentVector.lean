import Avros.ProcessManager

/-! The block cook_argstack fills: the pointers in front, closed by NULL, and the strings
behind them. Read back, it is the vector that was copied. -/
namespace Avros.Pm

def poke (mem : Nat → Nat) (bytes : List (Nat × Nat)) : Nat → Nat :=
  bytes.foldl (fun m b => Function.update m b.1 b.2) mem

def pointerAt (mem : Nat → Nat) (a : Nat) : Nat := mem a + 256 * mem (a + 1)

def StringAt (mem : Nat → Nat) : Nat → List Nat → Prop
  | a,[] => mem a = 0
  | a,c::rest => mem a = c ∧ c ≠ 0 ∧ StringAt mem (a + 1) rest

def VectorAt (mem : Nat → Nat) : Nat → List (List Nat) → Prop
  | slot,[] => pointerAt mem slot = 0
  | slot,s::rest => pointerAt mem slot ≠ 0 ∧ StringAt mem (pointerAt mem slot) s ∧ VectorAt mem (slot + 2) rest

def stringsSize (argv : List (List Nat)) : Nat := (argv.map (fun s => s.length + 1)).sum
def argvSize (argv : List (List Nat)) : Nat := stringsSize argv + 2 * (argv.length + 1)

-- No string ends before its terminator.
def Strings (argv : List (List Nat)) : Prop := ∀ s ∈ argv, ∀ c ∈ s, c ≠ 0

section
variable {m m' : Nat → Nat} {a slot bottom : Nat} {bytes : List (Nat × Nat)} {s : List Nat}
  {argv : List (List Nat)}

theorem argstackSize (argv : List (List Nat)) : pmArgstackSize argv = argvSize argv % 65536 := rfl

theorem stringsCons (s : List Nat) (rest : List (List Nat)) : stringsSize (s::rest) = s.length + 1 + stringsSize rest := by
  simp [stringsSize]

theorem pokeAppend (m : Nat → Nat) (bytes more : List (Nat × Nat)) :
    poke m (bytes ++ more) = poke (poke m bytes) more :=
  List.foldl_append

theorem pokeOther (away : ∀ b ∈ bytes, b.1 ≠ a) : poke m bytes a = m a := by
  induction bytes generalizing m with
  | nil => rfl
  | cons b rest ih =>
    have later := ih (m := Function.update m b.1 b.2) (fun x member => away x (List.mem_cons_of_mem _ member))
    rw [Function.update_of_ne (away b List.mem_cons_self).symm] at later
    exact later

theorem stringBytesNil (a : Nat) : stringBytes a [] = [(a,0)] := rfl

theorem stringBytesCons (a c : Nat) (s : List Nat) : stringBytes a (c::s) = (a,c)::stringBytes (a + 1) s := by
  unfold stringBytes
  rw [List.cons_append,List.mapIdx_cons]
  have shift : (fun i c => (a + (i + 1),c)) = fun (i : Nat) (c : Nat) => (a + 1 + i,c) := by
    funext i c
    rw [Nat.add_assoc,Nat.add_comm 1 i]
  rw [shift]
  rfl

theorem stringBytesRange : ∀ b : Nat × Nat, b ∈ stringBytes a s → a ≤ b.1 ∧ b.1 ≤ a + s.length := by
  induction s generalizing a with
  | nil =>
    intro b member
    rw [stringBytesNil] at member
    cases List.mem_singleton.mp member
    simp
  | cons c rest ih =>
    intro b member
    rw [stringBytesCons] at member
    rw [List.length_cons]
    rcases List.mem_cons.mp member with rfl | later
    · omega
    · have := ih b later
      omega

theorem cookStringsRange : ∀ b : Nat × Nat, b ∈ cookStrings slot bottom argv →
    slot ≤ b.1 ∧ b.1 < slot + 2 * (argv.length + 1) ∨ bottom ≤ b.1 ∧ b.1 < bottom + stringsSize argv := by
  induction argv generalizing slot bottom with
  | nil =>
    intro b member
    simp only [cookStrings,pointerBytes,List.mem_cons,List.not_mem_nil,or_false] at member
    rcases member with rfl | rfl <;> simp
  | cons s rest ih =>
    intro b member
    rw [stringsCons,List.length_cons]
    rcases List.mem_append.mp member with first | later
    · rcases List.mem_append.mp first with pointer | string
      · simp only [pointerBytes,List.mem_cons,List.not_mem_nil,or_false] at pointer
        rcases pointer with rfl | rfl
        · simp
        · simp
          omega
      · have := stringBytesRange b string
        omega
    · have := ih b later
      omega

theorem pointerWritten (small : a < 65536) : pointerAt (poke m (pointerBytes slot a)) slot = a := by
  have low : poke m (pointerBytes slot a) slot = a % 256 := by simp [poke,pointerBytes]
  have high : poke m (pointerBytes slot a) (slot + 1) = a / 256 % 256 := by simp [poke,pointerBytes]
  unfold pointerAt
  rw [low,high]
  omega

theorem stringWritten (plain : ∀ c ∈ s, c ≠ 0) : StringAt (poke m (stringBytes a s)) a s := by
  induction s generalizing m a with
  | nil => simp [StringAt,stringBytesNil,poke]
  | cons c rest ih =>
    rw [stringBytesCons]
    have later := ih (m := Function.update m a c) (a := a + 1) (fun d member => plain d (List.mem_cons_of_mem _ member))
    refine ⟨?_,plain c List.mem_cons_self,later⟩
    have kept : poke (Function.update m a c) (stringBytes (a + 1) rest) a = Function.update m a c a :=
      pokeOther (fun b member => by have := stringBytesRange b member; omega)
    exact kept.trans (Function.update_self a c m)

theorem StringAt.same (string : StringAt m a s) (agree : ∀ n ≤ s.length, m' (a + n) = m (a + n)) :
    StringAt m' a s := by
  induction s generalizing a with
  | nil => exact (agree 0 (Nat.le_refl 0)).trans string
  | cons c rest ih =>
    obtain ⟨first,real,later⟩ := string
    refine ⟨(agree 0 (Nat.zero_le _)).trans first,real,ih later (fun n inside => ?_)⟩
    have next := agree (n + 1) (Nat.succ_le_succ inside)
    rwa [Nat.add_comm n 1,← Nat.add_assoc] at next

theorem cookKept {rest : List (List Nat)} {x : Nat} (apart : slot + 2 * ((s::rest).length + 1) ≤ bottom)
    (place : x < slot + 2 ∨ bottom ≤ x ∧ x ≤ bottom + s.length) :
    poke m (cookStrings (slot + 2) (bottom + (s.length + 1)) rest) x = m x := by
  refine pokeOther (fun b member => ?_)
  have := cookStringsRange b member
  rw [List.length_cons] at apart
  omega

theorem cookPointer {rest : List (List Nat)} (apart : slot + 2 * ((s::rest).length + 1) ≤ bottom)
    (small : bottom < 65536) : pointerAt (poke m (cookStrings slot bottom (s::rest))) slot = bottom := by
  have before : ∀ x, x < slot + 2 →
      poke (poke m (pointerBytes slot bottom)) (stringBytes bottom s) x = poke m (pointerBytes slot bottom) x := by
    intro x place
    refine pokeOther (fun b member => ?_)
    have := stringBytesRange b member
    rw [List.length_cons] at apart
    omega
  rw [cookStrings,pokeAppend,pokeAppend]
  unfold pointerAt
  rw [cookKept apart (.inl (by omega)),cookKept apart (.inl (by omega)),before slot (by omega),
    before (slot + 1) (by omega)]
  exact pointerWritten small

theorem vectorWritten (plain : Strings argv) (apart : slot + 2 * (argv.length + 1) ≤ bottom)
    (inside : bottom + stringsSize argv ≤ 65536) : VectorAt (poke m (cookStrings slot bottom argv)) slot argv := by
  induction argv generalizing m slot bottom with
  | nil =>
    have null : pointerAt (poke m (pointerBytes slot 0)) slot = 0 := pointerWritten (by decide)
    exact null
  | cons s rest ih =>
    rw [stringsCons] at inside
    have others : Strings rest := fun u member => plain u (List.mem_cons_of_mem _ member)
    have pointer := cookPointer (m := m) apart (by omega)
    rw [List.length_cons] at apart
    have later : VectorAt (poke (poke m (pointerBytes slot bottom ++ stringBytes bottom s))
        (cookStrings (slot + 2) (bottom + (s.length + 1)) rest)) (slot + 2) rest := ih others (by omega) (by omega)
    rw [← pokeAppend] at later
    refine ⟨?_,?_,later⟩
    · rw [pointer]
      omega
    · rw [pointer,cookStrings,pokeAppend,pokeAppend]
      refine (stringWritten (m := poke m (pointerBytes slot bottom)) (plain s List.mem_cons_self)).same (fun n short => ?_)
      exact cookKept apart (.inr ⟨by omega,by omega⟩)

theorem argstackCooked (plain : Strings argv) (inside : a + argvSize argv ≤ 65536) (m : Nat → Nat) :
    VectorAt (poke m (cookArgstack a argv)) a argv := by
  unfold argvSize at inside
  exact vectorWritten plain (Nat.le_refl _) (by omega)
end

end Avros.Pm
