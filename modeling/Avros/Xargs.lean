import Mathlib.Data.List.Forall2
import Avros.Printing

/-! `usr/apps.c`, xargs(): the operands and the words of the input, put together in an array of
16 pointers and a buffer of 256 bytes. -/
namespace Avros.Usr.Xargs
open Print
open Vfs (eof charByte)
open Vfs.Path (nul)

-- What args points to: a word of argv, or what begins at an index of buf.
inductive Pointer where
  | argv (k : Nat)
  | buf (i : Nat)
  deriving DecidableEq, Repr

-- The variables of xargs(), and every index that has been stored at.
structure Build where
  args : Nat → Option Pointer
  ac : Nat
  buf : Nat → Char
  i : Nat
  lastwrd : Option Nat
  argStores : List Nat
  bufStores : List Nat

def maxArgs : Nat := 16
def bufSize : Nat := 256

-- `args[ac++] = p`
def Build.push (b : Build) (p : Pointer) : Build :=
  { b with args := Function.update b.args b.ac (some p), ac := b.ac + 1, argStores := b.argStores ++ [b.ac] }

-- `buf[i++] = c`
def Build.put (b : Build) (c : Char) : Build :=
  { b with buf := Function.update b.buf b.i c, i := b.i + 1, bufStores := b.bufStores ++ [b.i] }

-- `switch (c)`
def take (b : Build) (c : Int) : Build :=
  if c = charByte ' ' ∨ c = charByte '\t' ∨ c = charByte '\n' ∨ c = charByte '\r' ∨ c = eof then
    match b.lastwrd with
    | some word => { b.push (.buf word) with lastwrd := none }.put nul
    | none => b
  else
    match b.lastwrd with
    | some _ => b.put (byteChar c)
    | none => { b with lastwrd := some b.i }.put (byteChar c)

-- `do .. while (c != EOF)`
def collect : Nat → Build → Task Build
  | 0,_ => outside
  | n + 1,b => do
    let c ← mgetc
    if c = eof then pure (take b c) else collect n (take b c)

-- `for (ac = 0; argv[ac + 1]; ac++)`
def operands (n : Nat) (b : Build) : Build := (List.range n).foldl (fun b _ => b.push (.argv (b.ac + 1))) b

/- Up to execv(); there is none without an operand. What stands behind args and in buf is
whatever the memory holds. -/
def xargs (w : World) (argv : List (List Char)) (behind : Nat → Option Pointer) (buf : Nat → Char) : Task (Option Build) := do
  if argv.length < 2 then
    noargs w argv
    pure none
  else
    let s ← get
    let b := operands (argv.length - 1) ⟨fun k => if k < maxArgs then none else behind k,0,buf,0,none,[],[]⟩
    let b ← collect (s.input.length + 1) b
    pure (some b)

def isSpace (c : Char) : Bool := c = ' ' || c = '\t' || c = '\n' || c = '\r'

def words (input : List Char) : List (List Char) := (input.splitOnP isSpace).filter (· ≠ [])

structure Holds (buf : Nat → Char) (i : Nat) (s : List Char) : Prop where
  text : ∀ k, (inside : k < s.length) → buf (i + k) = s[k]
  ends : buf (i + s.length) = nul
  plain : nul ∉ s

def Points (argv : List (List Char)) (buf : Nat → Char) : Pointer → List Char → Prop
  | .argv k,s => argv[k]? = some s
  | .buf i,s => Holds buf i s

def Build.IsVector (b : Build) (argv ws : List (List Char)) : Prop :=
  ∃ ps : List Pointer, (∀ k ≤ ps.length, b.args k = ps[k]?) ∧ List.Forall₂ (Points argv b.buf) ps ws

structure Build.Right (b : Build) (argv ws : List (List Char)) : Prop where
  args : ∀ k ∈ b.argStores, k < maxArgs
  buf : ∀ k ∈ b.bufStores, k < bufSize
  vector : b.IsVector argv ws

def Builds (argv : List (List Char)) (input : List Char) : Prop :=
  ∀ w behind buf s, s.input = input →
    ∃ b s', outcome (xargs w argv behind buf) s = some (.ok (some b),s') ∧ b.Right argv (argv.tail ++ words input)

def fill {α : Type} (l : List α) (old : Nat → α) : Nat → α := fun k => l[k]?.getD (old k)

def layout (ws : List (List Char)) : List Char := ws.flatMap (· ++ [nul])

def offsets : Nat → List (List Char) → List Pointer
  | _,[] => []
  | i,word::ws => .buf i::offsets (i + word.length + 1) ws

def pointers (n : Nat) (ws : List (List Char)) : List Pointer :=
  (List.range n).map (fun k => .argv (k + 1)) ++ offsets 0 ws

def built (n : Nat) (behind : Nat → Option Pointer) (buf : Nat → Char) (ws : List (List Char)) (word : List Char) : Build where
  args := fill ((pointers n ws).map some) fun k => if k < maxArgs then none else behind k
  ac := (pointers n ws).length
  buf := fill (layout ws ++ word) buf
  i := (layout ws ++ word).length
  lastwrd := if word = [] then none else some (layout ws).length
  argStores := List.range (pointers n ws).length
  bufStores := List.range (layout ws ++ word).length

section
variable {α : Type} {n : Nat} {behind : Nat → Option Pointer} {buf : Nat → Char} {ws : List (List Char)}
  {word input rest : List Char} {c : Char} {s : Io} {argv : List (List Char)}

theorem fillSnoc (l : List α) (old : Nat → α) (a : α) : Function.update (fill l old) l.length a = fill (l ++ [a]) old := by
  funext k
  unfold fill
  by_cases last : k = l.length
  · subst last
    simp
  · rw [Function.update_of_ne last]
    rcases Nat.lt_or_gt_of_ne last with inside | beyond
    · rw [List.getElem?_append_left inside]
    · rw [List.getElem?_eq_none (by omega),List.getElem?_eq_none (by simp; omega)]

theorem offsetsSnoc (i : Nat) (ws : List (List Char)) (word : List Char) :
    offsets i (ws ++ [word]) = offsets i ws ++ [.buf (i + (layout ws).length)] := by
  induction ws generalizing i with
  | nil => rfl
  | cons first ws ih =>
    have size : i + first.length + 1 + (layout ws).length = i + (layout (first::ws)).length := by
      simp only [layout,List.flatMap_cons,List.length_append,List.length_singleton]
      omega
    rw [List.cons_append,offsets,offsets,ih,size]
    rfl

theorem offsetsLength (i : Nat) (ws : List (List Char)) : (offsets i ws).length = ws.length := by
  induction ws generalizing i with
  | nil => rfl
  | cons first ws ih => rw [offsets,List.length_cons,ih,List.length_cons]

theorem pointersSnoc (n : Nat) (ws : List (List Char)) (word : List Char) :
    pointers n (ws ++ [word]) = pointers n ws ++ [.buf (layout ws).length] := by
  rw [pointers,pointers,offsetsSnoc,Nat.zero_add,List.append_assoc]

theorem layoutSnoc (ws : List (List Char)) (word : List Char) : layout (ws ++ [word]) = layout ws ++ word ++ [nul] := by
  simp [layout]

theorem spaceByte (byte : c.toNat < 256) (real : charByte c ≠ eof) :
    (charByte c = charByte ' ' ∨ charByte c = charByte '\t' ∨ charByte c = charByte '\n' ∨ charByte c = charByte '\r' ∨
      charByte c = eof) ↔ isSpace c = true := by
  have same : ∀ d : Char, d.toNat < 256 → (charByte c = charByte d ↔ c = d) :=
    fun d byte' => ⟨byteInj byte byte',fun eq => by rw [eq]⟩
  rw [same ' ' (by decide),same '\t' (by decide),same '\n' (by decide),same '\r' (by decide)]
  simp [isSpace,real,or_assoc]

theorem lastNone : (built n behind buf ws []).lastwrd = none := rfl

theorem lastSome (some_ : word ≠ []) : (built n behind buf ws word).lastwrd = some (layout ws).length := by
  simp [built,some_]

theorem putBuilt (n : Nat) (behind : Nat → Option Pointer) (buf : Nat → Char) (ws : List (List Char)) (word : List Char)
    (c : Char) : { built n behind buf ws word with lastwrd := some (layout ws).length }.put c =
      built n behind buf ws (word ++ [c]) := by
  have whole : layout ws ++ (word ++ [c]) = layout ws ++ word ++ [c] := (List.append_assoc _ _ _).symm
  have some_ : word ++ [c] ≠ [] := by simp
  simp only [built,Build.put,fillSnoc,whole,if_neg some_]
  simp only [List.length_append,List.length_singleton,List.range_succ]

theorem takeLetter (byte : c.toNat < 256) (real : charByte c ≠ eof) (text : isSpace c = false) :
    take (built n behind buf ws word) (charByte c) = built n behind buf ws (word ++ [c]) := by
  have apart := (not_congr (spaceByte byte real)).mpr (by rw [text]; decide)
  rw [take,if_neg apart,byteOf byte,← putBuilt]
  by_cases none_ : word = []
  · subst none_
    rw [lastNone]
    simp [built]
  · have own : { built n behind buf ws word with lastwrd := some (layout ws).length } = built n behind buf ws word := by
      rw [← lastSome none_]
    rw [own,lastSome none_]

theorem takeEnd {v : Int} (ends : v = charByte ' ' ∨ v = charByte '\t' ∨ v = charByte '\n' ∨ v = charByte '\r' ∨ v = eof) :
    take (built n behind buf ws word) v = if word = [] then built n behind buf ws []
      else built n behind buf (ws ++ [word]) [] := by
  rw [take,if_pos ends]
  by_cases none_ : word = []
  · subst none_
    rw [lastNone,if_pos rfl]
  · have args : (pointers n ws).length = ((pointers n ws).map some).length := by rw [List.length_map]
    rw [lastSome none_,if_neg none_]
    simp only [built,Build.push,Build.put,pointersSnoc,layoutSnoc,List.append_nil,List.map_append,List.map_singleton,
      fillSnoc]
    rw [args,fillSnoc]
    simp only [List.length_append,List.length_map,List.length_singleton,List.range_succ,if_true]

theorem wordsPlain (plain : ∀ c ∈ word, isSpace c = false) : words word = if word = [] then [] else [word] := by
  rw [words,List.splitOnP_eq_singleton plain]
  by_cases none_ : word = [] <;> simp [none_]

theorem wordsSpace (plain : ∀ c ∈ word, isSpace c = false) (space : isSpace c = true) (rest : List Char) :
    words (word ++ c::rest) = (if word = [] then [] else [word]) ++ words rest := by
  rw [words,List.splitOnP_append_cons_of_forall_mem plain c space]
  by_cases none_ : word = [] <;> simp [none_,words]

theorem collectRun (plain : ∀ c ∈ word, isSpace c = false) (bytes : ∀ c ∈ input, c.toNat < 256)
    (real : eof ∉ input.map charByte) (left : s.input = input) :
    ∃ s', outcome (collect (input.length + 1) (built n behind buf ws word)) s =
      some (.ok (built n behind buf (ws ++ words (word ++ input)) []),s') := by
  induction input generalizing s ws word with
  | nil =>
    refine ⟨⟨s.calls ++ [.readc 0 eof],[]⟩,?_⟩
    rw [collect,bindReturned (mgetcEnd left),if_pos rfl,takeEnd (.inr (.inr (.inr (.inr rfl)))),List.append_nil,
      wordsPlain plain,outcomePure]
    by_cases none_ : word = [] <;> simp [none_]
  | cons c rest ih =>
    obtain ⟨byte,bytes'⟩ := List.forall_mem_cons.mp bytes
    rw [List.map_cons,List.mem_cons,not_or] at real
    have apart : charByte c ≠ eof := Ne.symm real.1
    rw [collect,bindReturned (mgetcRead left),if_neg apart]
    cases space : isSpace c with
    | true =>
      rw [takeEnd ((spaceByte byte apart).mpr space),wordsSpace plain space]
      have fresh : ∀ d ∈ ([] : List Char), isSpace d = false := fun _ member => absurd member List.not_mem_nil
      by_cases none_ : word = []
      · rw [if_pos none_,if_pos none_,List.nil_append]
        exact ih fresh bytes' real.2 rfl
      · rw [if_neg none_,if_neg none_,← List.append_assoc]
        exact ih fresh bytes' real.2 rfl
    | false =>
      have longer : ∀ d ∈ word ++ [c], isSpace d = false := by
        intro d member
        rcases List.mem_append.mp member with old | new
        · exact plain d old
        · exact List.mem_singleton.mp new ▸ space
      rw [takeLetter byte apart space,List.append_cons word c rest]
      exact ih longer bytes' real.2 rfl

theorem operandsBuilt (n : Nat) (behind : Nat → Option Pointer) (buf : Nat → Char) :
    operands n ⟨fun k => if k < maxArgs then none else behind k,0,buf,0,none,[],[]⟩ = built n behind buf [] [] := by
  induction n with
  | zero => rfl
  | succ n ih =>
    have next : pointers (n + 1) [] = pointers n [] ++ [.argv (n + 1)] := by simp [pointers,offsets,List.range_succ]
    have size : (pointers n []).length = n := by simp [pointers,offsets]
    have args : (pointers n []).length = ((pointers n []).map some).length := by rw [List.length_map]
    rw [operands,List.range_succ,List.foldl_append,← operands,ih,List.foldl_cons,List.foldl_nil]
    simp only [built,Build.push,next,List.map_append,List.map_singleton]
    rw [← fillSnoc,← args]
    simp only [size,List.length_append,List.length_singleton,List.range_succ]

theorem xargsBuilt (some_ : 2 ≤ argv.length) (bytes : ∀ c ∈ input, c.toNat < 256) (real : eof ∉ input.map charByte)
    (left : s.input = input) (w : World) (behind : Nat → Option Pointer) (buf : Nat → Char) :
    ∃ s', outcome (xargs w argv behind buf) s =
      some (.ok (some (built (argv.length - 1) behind buf (words input) [])),s') := by
  subst left
  have fresh : ∀ d ∈ ([] : List Char), isSpace d = false := fun _ member => absurd member List.not_mem_nil
  obtain ⟨s',ran⟩ := @collectRun (argv.length - 1) behind buf [] [] s.input s fresh bytes real rfl
  refine ⟨s',?_⟩
  rw [xargs,if_neg (by omega),operandsBuilt]
  exact bindReturned ran

theorem holdsWords (argv : List (List Char)) (before : List Char) (buf : Nat → Char)
    (plain : ∀ word ∈ ws, nul ∉ word) :
    List.Forall₂ (Points argv (fill (before ++ layout ws) buf)) (offsets before.length ws) ws := by
  induction ws generalizing before with
  | nil => exact .nil
  | cons word ws ih =>
    obtain ⟨own,others⟩ := List.forall_mem_cons.mp plain
    have whole : before ++ layout (word::ws) = before ++ word ++ [nul] ++ layout ws := by simp [layout]
    have next : before.length + word.length + 1 = (before ++ word ++ [nul]).length := by
      simp only [List.length_append,List.length_singleton]
    refine .cons ⟨?_,?_,own⟩ ?_
    · intro k inside
      simp [fill,layout,inside,List.getElem?_append]
    · simp [fill,layout]
    · rw [whole,next]
      exact ih (before ++ word ++ [nul]) others

theorem offsetsPlain {i : Nat} (points : List.Forall₂ (Points argv buf) (offsets i ws) ws) : ∀ word ∈ ws, nul ∉ word := by
  induction ws generalizing i with
  | nil => exact fun word member => absurd member List.not_mem_nil
  | cons word ws ih =>
    obtain ⟨own,others⟩ := List.forall₂_cons.mp points
    exact List.forall_mem_cons.mpr ⟨own.plain,ih others⟩

theorem holdsOperands (argv : List (List Char)) (buf : Nat → Char) :
    List.Forall₂ (Points argv buf) ((List.range (argv.length - 1)).map fun k => .argv (k + 1)) argv.tail := by
  rw [List.forall₂_iff_get]
  refine ⟨by simp,?_⟩
  intro k low high
  have inside : k + 1 < argv.length := by simp at high; omega
  simp [Points,inside]

theorem pointersLength (n : Nat) (ws : List (List Char)) : (pointers n ws).length = n + ws.length := by
  rw [pointers,List.length_append,List.length_map,List.length_range,offsetsLength]

theorem layoutLength (ws : List (List Char)) : (layout ws).length = (ws.map fun word => word.length + 1).sum := by
  simp [layout,List.length_flatMap]

theorem builtArgs {k : Nat} (inside : k < (pointers n ws).length) :
    (built n behind buf ws []).args k = (pointers n ws)[k]? := by
  simp [built,fill,inside]

theorem builtBehind (n : Nat) (behind : Nat → Option Pointer) (buf : Nat → Char) (ws : List (List Char)) :
    (built n behind buf ws []).args (n + ws.length) = if n + ws.length < maxArgs then none else behind (n + ws.length) := by
  have size := pointersLength n ws
  simp [built,fill,List.getElem?_eq_none (Nat.le_of_eq size)]

theorem builtRight (few : argv.length - 1 + ws.length < maxArgs) (short : (ws.map fun word => word.length + 1).sum ≤ bufSize)
    (plain : ∀ word ∈ ws, nul ∉ word) (behind : Nat → Option Pointer) (buf : Nat → Char) :
    (built (argv.length - 1) behind buf ws []).Right argv (argv.tail ++ ws) := by
  refine ⟨?_,?_,pointers (argv.length - 1) ws,?_,?_⟩
  · intro k stored
    have inside : k < (pointers (argv.length - 1) ws).length := List.mem_range.mp stored
    rw [pointersLength] at inside
    omega
  · intro k stored
    have inside : k < (layout ws ++ []).length := List.mem_range.mp stored
    rw [List.append_nil,layoutLength] at inside
    omega
  · intro k inside
    rcases Nat.lt_or_eq_of_le inside with low | last
    · exact builtArgs low
    · rw [last,List.getElem?_eq_none (Nat.le_refl _),pointersLength,builtBehind,if_pos few]
  · refine List.rel_append (holdsOperands argv _) ?_
    have words := holdsWords argv [] buf plain
    simpa [built] using words

theorem rightBuilt (right : (built (argv.length - 1) (fun _ => some (.argv 0)) buf ws []).Right argv (argv.tail ++ ws)) :
    argv.length - 1 + ws.length < maxArgs ∧ (ws.map fun word => word.length + 1).sum ≤ bufSize ∧
      ∀ word ∈ ws, nul ∉ word := by
  obtain ⟨-,inBuf,ps,vector,points⟩ := right
  have size : ps.length = argv.length - 1 + ws.length := by
    rw [points.length_eq,List.length_append,List.length_tail]
  have few : argv.length - 1 + ws.length < maxArgs := by
    by_contra many
    have last := vector ps.length (Nat.le_refl _)
    rw [List.getElem?_eq_none (Nat.le_refl _),size,builtBehind,if_neg many] at last
    contradiction
  refine ⟨few,?_,?_⟩
  · by_contra long
    have stored : bufSize ∈ (built (argv.length - 1) (fun _ => some (.argv 0)) buf ws []).bufStores := by
      refine List.mem_range.mpr ?_
      rw [List.append_nil,layoutLength]
      omega
    exact Nat.lt_irrefl _ (inBuf _ stored)
  · have same : ps = pointers (argv.length - 1) ws := by
      refine List.ext_getElem? fun k => ?_
      rcases Nat.lt_or_ge k ps.length with low | high
      · rw [← vector k (Nat.le_of_lt low),builtArgs (by rw [pointersLength,← size]; exact low)]
      · rw [List.getElem?_eq_none high,List.getElem?_eq_none (by rw [pointersLength,← size]; exact high)]
    have words := List.forall₂_drop (argv.length - 1) points
    rw [same,pointers,List.drop_left' (by simp),List.drop_left' (by simp)] at words
    exact offsetsPlain words

/-- The vector is the operands and the words of the input, put together inside args and buf,
exactly when they leave room for the NULL, the words fit with their terminators, and no word
has a NUL. -/
theorem xargsBuilds (some_ : 2 ≤ argv.length) (bytes : ∀ c ∈ input, c.toNat < 256) (real : eof ∉ input.map charByte) :
    Builds argv input ↔ argv.length - 1 + (words input).length < maxArgs ∧
      ((words input).map fun word => word.length + 1).sum ≤ bufSize ∧ ∀ word ∈ words input, nul ∉ word := by
  constructor
  · intro builds
    obtain ⟨b,s',ran,right⟩ := builds (fun _ _ data => data) (fun _ => some (.argv 0)) (fun _ => nul) ⟨[],input⟩ rfl
    obtain ⟨s1,done⟩ := @xargsBuilt input ⟨[],input⟩ argv some_ bytes real rfl (fun _ _ data => data)
      (fun _ => some (.argv 0)) fun _ => nul
    cases done.symm.trans ran
    exact rightBuilt right
  · rintro ⟨few,short,plain⟩ w behind buf s left
    obtain ⟨s',ran⟩ := xargsBuilt some_ bytes real left w behind buf
    exact ⟨_,s',ran,builtRight few short plain behind buf⟩

end

-- `echo a b | xargs echo`
theorem xargsBuildsTwo : Builds [['x'],['e','c','h','o']] ['a',' ','b',' ','\n'] :=
  (xargsBuilds (by decide) (by simp) (by decide)).mpr ⟨by decide,by decide,by decide⟩

-- Sixteen words behind the command: the last pointers are stored behind args.
theorem xargsOverflows : ¬ Builds [['x'],['e']] (List.replicate 16 ['a',' ']).flatten := by
  intro builds
  obtain ⟨b,s',ran,right⟩ := builds (fun _ _ data => data) (fun _ => some (.argv 0)) (fun _ => nul)
    ⟨[],(List.replicate 16 ['a',' ']).flatten⟩ rfl
  obtain ⟨s1,done⟩ := @xargsBuilt (List.replicate 16 ['a',' ']).flatten ⟨[],(List.replicate 16 ['a',' ']).flatten⟩
    [['x'],['e']] (by decide) (by simp) (by decide) rfl (fun _ _ data => data) (fun _ => some (.argv 0)) fun _ => nul
  cases done.symm.trans ran
  exact absurd (rightBuilt right).1 (by decide)

end Avros.Usr.Xargs
