import Mathlib.Data.List.Infix
import Mathlib.Data.List.TakeWhile
import Avros.Printing

/-! `usr/apps.c`, dogrep(): a line is put together in memory that pmmalloc() hands out for it,
and strstr() and mfprintf() read it up to a terminator. -/
namespace Avros.Usr.Grep
open Print
open Vfs (eof charByte)
open Vfs.Path (nul)

def lineSize : Nat := 128

-- Whether strstr() finds t in s.
def strstr (s t : List Char) : Bool := decide (t <:+: s)

-- `while ((c = mgetc()) != EOF)`; the line with the memory behind it.
def assemble : Nat → List Char → Nat → Task (Int × List Char × Nat)
  | 0,_,_ => outside
  | n + 1,line,pos => do
    let c ← mgetc
    if c = eof then pure (c,line,pos)
    else if lineSize ≤ pos then outside
    else
      let line := line.set pos (byteChar c)
      if c = charByte '\n' ∨ c = charByte '\r' then pure (c,line.set pos nul,pos)
      else assemble n line (pos + 1)

-- `if (pos)`, for a line in memory.
def matchLine (w : World) (regexp : List Char) (inv : Bool) (line : List Char) (rc : Int) : Task Int :=
  if nul ∈ line then do
    let pos := strstr (line.takeWhile (· ≠ nul)) regexp
    if if inv then !pos else pos then mfprintf w 1 ['%','s','\n',nul] [.str line]
    pure (if pos then 0 else rc)
  else outside

-- `while (c != EOF)`; the k-th line gets the memory that is there for it.
def lines (w : World) (memory : Nat → List Char) (regexp : List Char) (inv : Bool) : Nat → Nat → Int → Task Int
  | 0,_,_ => outside
  | n + 1,k,rc => do
    let (c,line,pos) ← assemble (n + 1) (memory k) 0
    let rc ← if pos ≠ 0 then matchLine w regexp inv line rc else pure rc
    if c = eof then pure rc else lines w memory regexp inv n (k + 1) rc

def dogrep (w : World) (memory : Nat → List Char) (regexp : List Char) (inv : Bool) : Task Int := do
  let s ← get
  lines w memory regexp inv (s.input.length + 1) 0 1

-- 128 bytes of any contents, with a terminator somewhere behind them.
def Memory (memory : Nat → List Char) : Prop := ∀ k, lineSize ≤ (memory k).length ∧ nul ∈ (memory k).drop lineSize

/-! What is to be printed -/

def isBreak (c : Char) : Bool := c = '\n' || c = '\r'

structure Line where
  text : List Char
  ended : Bool
  number : Nat
  deriving DecidableEq, Repr

def cut : Nat → List Char → List Char → List Line
  | k,text,[] => [⟨text,false,k⟩]
  | k,text,c::rest => if isBreak c then ⟨text,true,k⟩::cut (k + 1) [] rest else cut k (text ++ [c]) rest

def putting (text : List Char) : List Call := (text.map charByte).map (.writec 1)

def calls (out : Line → List Char) : Nat → List Char → List Char → List Call
  | k,text,[] => .readc 0 eof::putting (out ⟨text,false,k⟩)
  | k,text,c::rest => .readc 0 (charByte c)::
    if isBreak c then putting (out ⟨text,true,k⟩) ++ calls out (k + 1) [] rest else calls out k (text ++ [c]) rest

def selected (regexp : List Char) (inv : Bool) (text : List Char) : Bool := decide (regexp <:+: text) != inv

def Line.given (l : Line) : Bool := l.ended || l.text ≠ []

def expected (regexp : List Char) (inv : Bool) (l : Line) : List Char :=
  if l.given && selected regexp inv l.text then l.text ++ ['\n'] else []

structure Stream (input : List Char) : Prop where
  bytes : ∀ c ∈ input, c.toNat < 256
  real : eof ∉ input.map charByte
  short : ∀ l ∈ cut 0 [] input, l.text.length < lineSize

def Filters (regexp : List Char) (inv : Bool) (input : List Char) : Prop :=
  ∀ w memory s, Takes w 1 → Memory memory → s.input = input →
    ∃ rc s', outcome (dogrep w memory regexp inv) s = some (.ok rc,s') ∧
      s'.calls = s.calls ++ calls (expected regexp inv) 0 [] input ∧
      (rc = 0 ↔ ∃ l ∈ cut 0 [] input, l.given ∧ selected regexp inv l.text)

def seen (memory : Nat → List Char) (l : Line) : List Char :=
  (if l.ended then l.text else l.text ++ (memory l.number).drop l.text.length).takeWhile (· ≠ nul)

def putOut (memory : Nat → List Char) (regexp : List Char) (inv : Bool) (l : Line) : List Char :=
  if l.text ≠ [] ∧ selected regexp inv (seen memory l) then seen memory l ++ ['\n'] else []

def matched (memory : Nat → List Char) (regexp : List Char) (l : Line) : Bool :=
  l.text ≠ [] ∧ regexp <:+: seen memory l

def emit (w : World) (memory : Nat → List Char) (regexp : List Char) (inv : Bool) (l : Line) (rc : Int) : Task Int := do
  puts w 1 ((putOut memory regexp inv l).map charByte)
  pure (if matched memory regexp l then 0 else rc)

def reads (text : List Char) : List Call := text.map fun c => .readc 0 (charByte c)

section
variable {w : World} {memory : Nat → List Char} {regexp text rest line input : List Char} {inv : Bool} {k n pos : Nat}
  {c : Char} {rc : Int} {s : Io} {out out' : Line → List Char} {l : Line}

theorem breakByte (byte : c.toNat < 256) : charByte c = charByte '\n' ∨ charByte c = charByte '\r' ↔ isBreak c = true := by
  simp only [isBreak,Bool.or_eq_true,decide_eq_true_eq]
  constructor
  · rintro (same | same)
    · exact .inl (byteInj byte (by decide) same)
    · exact .inr (byteInj byte (by decide) same)
  · rintro (rfl | rfl)
    · exact .inl rfl
    · exact .inr rfl

theorem breakReal (ends : isBreak c = true) : charByte c ≠ eof := by
  simp only [isBreak,Bool.or_eq_true,decide_eq_true_eq] at ends
  rcases ends with rfl | rfl <;> decide

theorem takeString (text more : List Char) : (text ++ nul::more).takeWhile (· ≠ nul) = text.takeWhile (· ≠ nul) := by
  induction text with
  | nil => simp
  | cons c text ih =>
    rw [List.cons_append,List.takeWhile_cons,List.takeWhile_cons,ih]

structure Within (c : Char) : Prop where
  byte : c.toNat < 256
  real : charByte c ≠ eof
  inside : isBreak c = false

theorem assembleNext (left : s.input = c::rest) (within : Within c) (low : pos < lineSize) (n : Nat) (line : List Char) :
    outcome (assemble (n + 1) line pos) s =
      outcome (assemble n (line.set pos c) (pos + 1)) ⟨s.calls ++ [.readc 0 (charByte c)],rest⟩ := by
  have apart : ¬ (charByte c = charByte '\n' ∨ charByte c = charByte '\r') := by
    rw [breakByte within.byte,within.inside]
    decide
  rw [assemble,bindReturned (mgetcRead left),if_neg within.real,if_neg (Nat.not_le.mpr low)]
  simp only [if_neg apart,byteOf within.byte]

theorem assembleText (left : s.input = text ++ rest) (within : ∀ c ∈ text, Within c) (low : pos + text.length ≤ lineSize)
    (room : lineSize ≤ line.length) (n : Nat) : outcome (assemble (text.length + n) line pos) s =
      outcome (assemble n (line.take pos ++ text ++ line.drop (pos + text.length)) (pos + text.length))
        ⟨s.calls ++ reads text,rest⟩ := by
  induction text generalizing s line pos with
  | nil =>
    obtain ⟨calls,input⟩ := s
    cases left
    simp [reads]
  | cons c text ih =>
    obtain ⟨first,others⟩ := List.forall_mem_cons.mp within
    rw [List.length_cons] at low
    have stored : (line.set pos c).take (pos + 1) ++ text ++ (line.set pos c).drop (pos + 1 + text.length) =
        line.take pos ++ c::text ++ line.drop (pos + (c::text).length) := by
      rw [List.take_add_one,List.take_set_of_le (Nat.le_refl pos),List.drop_set_of_lt (by omega)]
      have here : (line.set pos c)[pos]? = some c := List.getElem?_set_self (by omega)
      rw [here,List.length_cons,Nat.add_right_comm]
      simp [Nat.add_assoc]
    have size : (c::text).length + n = text.length + n + 1 := by
      rw [List.length_cons]
      omega
    have calls : s.calls ++ [Call.readc 0 (charByte c)] ++ reads text = s.calls ++ reads (c::text) := by simp [reads]
    have index : pos + 1 + text.length = pos + (c::text).length := by
      rw [List.length_cons]
      omega
    rw [size,assembleNext left first (by omega),ih rfl others (by omega) (by rw [List.length_set]; exact room),stored,
      calls,index]

theorem assembleBreak (left : s.input = text ++ c::rest) (within : ∀ c ∈ text, Within c) (byte : c.toNat < 256)
    (ends : isBreak c = true) (short : text.length < lineSize) (room : lineSize ≤ line.length) (n : Nat) :
    outcome (assemble (text.length + (n + 1)) line 0) s =
      some (.ok (charByte c,text ++ nul::line.drop (text.length + 1),text.length),
        ⟨s.calls ++ reads (text ++ [c]),rest⟩) := by
  rw [assembleText left within (by omega) room,assemble,bindReturned (mgetcRead rfl),
    if_neg (breakReal ends),if_neg (by omega)]
  simp only [if_pos ((breakByte byte).mpr ends),List.set_set]
  have stored : (line.take 0 ++ text ++ line.drop (0 + text.length)).set (0 + text.length) nul =
      text ++ nul::line.drop (text.length + 1) := by
    have more : text.length < line.length := by omega
    rw [List.take_zero,List.nil_append,Nat.zero_add,List.set_append_right _ _ (Nat.le_refl _),Nat.sub_self,
      List.drop_eq_getElem_cons more]
    rfl
  rw [stored,Nat.zero_add,outcomePure]
  simp [reads]

theorem assembleEnd (left : s.input = text) (within : ∀ c ∈ text, Within c) (short : text.length < lineSize)
    (room : lineSize ≤ line.length) (n : Nat) : outcome (assemble (text.length + (n + 1)) line 0) s =
      some (.ok (eof,text ++ line.drop text.length,text.length),⟨s.calls ++ (reads text ++ [.readc 0 eof]),[]⟩) := by
  rw [assembleText (left.trans (List.append_nil text).symm) within (by omega) room,assemble,bindReturned (mgetcEnd rfl),
    if_pos rfl,outcomePure]
  simp [reads]

theorem matchEmit (ends : nul ∈ line) (own : line.takeWhile (· ≠ nul) = seen memory l) (some_ : l.text ≠ []) (w : World)
    (regexp : List Char) (inv : Bool) (rc : Int) : matchLine w regexp inv line rc = emit w memory regexp inv l rc := by
  have print : mfprintf w 1 ['%','s','\n',nul] [.str line] = puts w 1 ((seen memory l ++ ['\n']).map charByte) := by
    have found : items (pieces ['%','s','\n']) [.str line] = some ([.str (seen memory l),.char '\n'],[]) := by
      simp [items,pieces,supplied,ends,← own]
    have run := @mfprintfPuts w 1 ['%','s','\n'] [] [] _ _ (by decide) found
    refine run.trans ((bind_pure _).trans ?_)
    simp [Item.printed,Item.text]
  have flag : (strstr (seen memory l) regexp = true) ↔ matched memory regexp l = true := by
    simp [strstr,matched,some_]
  have chosen : ((if inv then !strstr (seen memory l) regexp else strstr (seen memory l) regexp) = true) ↔
      l.text ≠ [] ∧ selected regexp inv (seen memory l) = true := by
    cases inv <;> simp [strstr,selected,some_]
  rw [matchLine,if_pos ends,own,emit,putOut,print]
  simp only [chosen,flag]
  by_cases yes : l.text ≠ [] ∧ selected regexp inv (seen memory l) = true
  · rw [if_pos yes,if_pos yes]
  · rw [if_neg yes,if_neg yes]
    rfl

theorem emptyEmit (none_ : l.text = []) (w : World) (memory : Nat → List Char) (regexp : List Char) (inv : Bool) (rc : Int) :
    emit w memory regexp inv l rc = pure rc := by
  have nothing : putOut memory regexp inv l = [] := if_neg (fun both => both.1 none_)
  have idle : matched memory regexp l = false := by simp [matched,none_]
  rw [emit,nothing,idle,if_neg (by decide)]
  rfl

theorem linesBreak (fresh : Memory memory) (left : s.input = text ++ c::rest) (within : ∀ c ∈ text, Within c)
    (byte : c.toNat < 256) (ends : isBreak c = true) (short : text.length < lineSize) (enough : s.input.length ≤ n) :
    outcome (lines w memory regexp inv (n + 1) k rc) s = outcome (do
      let rc ← emit w memory regexp inv ⟨text,true,k⟩ rc
      lines w memory regexp inv n (k + 1) rc) ⟨s.calls ++ reads (text ++ [c]),rest⟩ := by
  have size : text.length + (n - text.length + 1) = n + 1 := by
    rw [left,List.length_append] at enough
    omega
  have put := assembleBreak left within byte ends short (fresh k).1 (n - text.length)
  rw [size] at put
  rw [lines,bindReturned put]
  by_cases some_ : text = []
  · subst some_
    rw [emptyEmit rfl]
    simp only [List.length_nil,ne_eq,not_true_eq_false,if_false,pure_bind,if_neg (breakReal ends)]
  · have long : text.length ≠ 0 := fun none_ => some_ (List.length_eq_zero_iff.mp none_)
    have own : (text ++ nul::(memory k).drop (text.length + 1)).takeWhile (· ≠ nul) = seen memory ⟨text,true,k⟩ := by
      rw [takeString]
      rfl
    simp only [if_pos long,if_neg (breakReal ends)]
    rw [matchEmit (by simp) own some_]

theorem linesEnd (fresh : Memory memory) (left : s.input = text) (within : ∀ c ∈ text, Within c)
    (short : text.length < lineSize) (enough : s.input.length ≤ n) :
    outcome (lines w memory regexp inv (n + 1) k rc) s =
      outcome (emit w memory regexp inv ⟨text,false,k⟩ rc) ⟨s.calls ++ (reads text ++ [.readc 0 eof]),[]⟩ := by
  have size : text.length + (n - text.length + 1) = n + 1 := by
    rw [left] at enough
    omega
  have put := assembleEnd left within short (fresh k).1 (n - text.length)
  rw [size] at put
  rw [lines,bindReturned put]
  by_cases some_ : text = []
  · subst some_
    rw [emptyEmit rfl]
    simp only [List.length_nil,ne_eq,not_true_eq_false,if_false,pure_bind,if_true]
  · have long : text.length ≠ 0 := fun none_ => some_ (List.length_eq_zero_iff.mp none_)
    have ends : nul ∈ text ++ (memory k).drop text.length := by
      have later : nul ∈ (memory k).drop text.length := by
        have inside := (fresh k).2
        rw [← Nat.add_sub_cancel' (Nat.le_of_lt short),← List.drop_drop] at inside
        exact List.mem_of_mem_drop inside
      exact List.mem_append_right _ later
    simp only [if_pos long,if_true]
    rw [matchEmit (l := ⟨text,false,k⟩) ends rfl some_]
    exact congrArg (fun p => outcome p _) (bind_pure _)

theorem cutText (within : ∀ c ∈ text, Within c) (k : Nat) (before rest : List Char) :
    cut k before (text ++ rest) = cut k (before ++ text) rest := by
  induction text generalizing before with
  | nil => rw [List.nil_append,List.append_nil]
  | cons c text ih =>
    obtain ⟨first,others⟩ := List.forall_mem_cons.mp within
    rw [List.cons_append,cut,first.inside,if_neg (by decide),ih others,List.append_assoc]
    rfl

theorem callsText (within : ∀ c ∈ text, Within c) (out : Line → List Char) (k : Nat) (before rest : List Char) :
    calls out k before (text ++ rest) = reads text ++ calls out k (before ++ text) rest := by
  induction text generalizing before with
  | nil =>
    rw [List.nil_append,List.append_nil]
    rfl
  | cons c text ih =>
    obtain ⟨first,others⟩ := List.forall_mem_cons.mp within
    rw [List.cons_append,calls,first.inside,if_neg (by decide),ih others,List.append_assoc]
    rfl

def code (memory : Nat → List Char) (regexp : List Char) (ls : List Line) (rc : Int) : Int :=
  if ls.any (matched memory regexp) then 0 else rc

def Answers (memory : Nat → List Char) (regexp : List Char) (inv : Bool) (ls : List Line) : Prop :=
  ∀ l ∈ ls, eof ∉ (putOut memory regexp inv l).map charByte

theorem emitTaken (takes : Takes w 1) (real : eof ∉ (putOut memory regexp inv l).map charByte) (rc : Int) (s : Io) :
    outcome (emit w memory regexp inv l rc) s =
      some (.ok (if matched memory regexp l then 0 else rc),⟨s.calls ++ putting (putOut memory regexp inv l),s.input⟩) := by
  rw [emit,bindReturned (putsTaken takes real s)]
  rfl

theorem firstBreak (input : List Char) : ∃ text rest, input = text ++ rest ∧ (∀ c ∈ text, isBreak c = false) ∧
    (rest = [] ∨ ∃ c more, rest = c::more ∧ isBreak c = true) := by
  induction input with
  | nil => exact ⟨[],[],rfl,fun _ member => absurd member List.not_mem_nil,.inl rfl⟩
  | cons c input ih =>
    by_cases ends : isBreak c = true
    · exact ⟨[],c::input,rfl,fun _ member => absurd member List.not_mem_nil,.inr ⟨c,input,rfl,ends⟩⟩
    · obtain ⟨text,rest,rfl,plain,last⟩ := ih
      exact ⟨c::text,rest,rfl,List.forall_mem_cons.mpr ⟨Bool.eq_false_iff.mpr ends,plain⟩,last⟩

/- The run returns with what each line puts out behind it. Where EOF is put out and handed back,
it ends there. -/
structure Ends (w : World) (memory : Nat → List Char) (regexp : List Char) (inv : Bool) (n k : Nat) (rc : Int)
    (input : List Char) (s : Io) : Prop where
  whole : Answers memory regexp inv (cut k [] input) → outcome (lines w memory regexp inv (n + 1) k rc) s =
    some (.ok (code memory regexp (cut k [] input) rc),⟨s.calls ++ calls (putOut memory regexp inv) k [] input,[]⟩)
  stopped : Echoes w 1 → ¬ Answers memory regexp inv (cut k [] input) →
    ∃ s', outcome (lines w memory regexp inv (n + 1) k rc) s = some (.error 0,s')

theorem endsLast (takes : Takes w 1) (fresh : Memory memory) (within : ∀ c ∈ text, Within c) (short : text.length < lineSize)
    (left : s.input = text) (enough : text.length ≤ n) : Ends w memory regexp inv n k rc text s := by
  have cuts : cut k [] text = [⟨text,false,k⟩] := by
    have last := cutText within k [] []
    rwa [List.append_nil] at last
  have called : calls (putOut memory regexp inv) k [] text =
      reads text ++ .readc 0 eof::putting (putOut memory regexp inv ⟨text,false,k⟩) := by
    have last := callsText within (putOut memory regexp inv) k [] []
    rwa [List.append_nil] at last
  have turn : outcome (lines w memory regexp inv (n + 1) k rc) s = _ :=
    linesEnd fresh left within short (by rw [left]; exact enough)
  refine ⟨fun all => ?_,fun echoes some_ => ?_⟩
  · rw [cuts] at all
    rw [cuts,called,turn,emitTaken takes (all _ List.mem_cons_self)]
    simp [code]
  · rw [cuts] at some_
    have odd : eof ∈ (putOut memory regexp inv ⟨text,false,k⟩).map charByte := by
      by_contra plain
      exact some_ (List.forall_mem_singleton.mpr plain)
    obtain ⟨out,exited,-⟩ := putsEof echoes odd ⟨s.calls ++ (reads text ++ [.readc 0 eof]),[]⟩
    exact ⟨_,turn.trans (bindExited exited)⟩

theorem endsBreak {more : List Char} (takes : Takes w 1) (fresh : Memory memory) (within : ∀ c ∈ text, Within c)
    (byte : c.toNat < 256) (ends : isBreak c = true) (short : text.length < lineSize) (left : s.input = text ++ c::more)
    (enough : s.input.length ≤ n + 1)
    (ih : ∀ rc s, s.input = more → Ends w memory regexp inv n (k + 1) rc more s) :
    Ends w memory regexp inv (n + 1) k rc (text ++ c::more) s := by
  have cuts : cut k [] (text ++ c::more) = ⟨text,true,k⟩::cut (k + 1) [] more := by
    rw [cutText within,List.nil_append,cut,if_pos ends]
  have called : calls (putOut memory regexp inv) k [] (text ++ c::more) = reads (text ++ [c]) ++
      (putting (putOut memory regexp inv ⟨text,true,k⟩) ++ calls (putOut memory regexp inv) (k + 1) [] more) := by
    rw [callsText within,List.nil_append,calls,if_pos ends]
    simp [reads]
  have turn : outcome (lines w memory regexp inv (n + 1 + 1) k rc) s = _ :=
    linesBreak fresh left within byte ends short enough
  have later := ih (if matched memory regexp ⟨text,true,k⟩ then 0 else rc) ⟨s.calls ++ reads (text ++ [c]) ++
    putting (putOut memory regexp inv ⟨text,true,k⟩),more⟩ rfl
  refine ⟨fun all => ?_,fun echoes some_ => ?_⟩
  · rw [cuts] at all
    obtain ⟨plain,others⟩ := List.forall_mem_cons.mp all
    rw [cuts,called,turn,bindReturned (emitTaken takes plain rc _)]
    refine (later.whole others).trans ?_
    have value : code memory regexp (cut (k + 1) [] more) (if matched memory regexp ⟨text,true,k⟩ then 0 else rc) =
        code memory regexp (⟨text,true,k⟩::cut (k + 1) [] more) rc := by
      cases first : matched memory regexp ⟨text,true,k⟩ <;> simp [code,first]
    rw [value]
    simp
  · rw [cuts] at some_
    rw [turn]
    by_cases odd : eof ∈ (putOut memory regexp inv ⟨text,true,k⟩).map charByte
    · obtain ⟨out,exited,-⟩ := putsEof echoes odd ⟨s.calls ++ reads (text ++ [c]),more⟩
      exact ⟨_,bindExited (bindExited exited)⟩
    · rw [bindReturned (emitTaken takes odd rc _)]
      exact later.stopped echoes fun all => some_ (List.forall_mem_cons.mpr ⟨odd,all⟩)

theorem linesRun (takes : Takes w 1) (fresh : Memory memory) (bytes : ∀ c ∈ input, c.toNat < 256)
    (real : eof ∉ input.map charByte) (short : ∀ l ∈ cut k [] input, l.text.length < lineSize) (left : s.input = input)
    (enough : input.length ≤ n) : Ends w memory regexp inv n k rc input s := by
  induction n generalizing k rc s input with
  | zero =>
    have none_ : input = [] := List.length_eq_zero_iff.mp (Nat.le_zero.mp enough)
    subst none_
    exact endsLast takes fresh (fun _ member => absurd member List.not_mem_nil) (by decide) left (Nat.le_refl 0)
  | succ n ih =>
    obtain ⟨text,rest,rfl,plain,last⟩ := firstBreak input
    have within : ∀ c ∈ text, Within c := by
      intro c member
      refine ⟨bytes c (List.mem_append_left rest member),fun same => ?_,plain c member⟩
      exact real (same ▸ List.mem_map_of_mem (List.mem_append_left rest member))
    rw [cutText within] at short
    rcases last with rfl | ⟨c,more,rfl,ends⟩
    · rw [List.append_nil] at left enough ⊢
      exact endsLast takes fresh within (short _ List.mem_cons_self) left enough
    · rw [List.nil_append,cut,if_pos ends] at short
      obtain ⟨own,others⟩ := List.forall_mem_cons.mp short
      have bytes' : ∀ d ∈ more, d.toNat < 256 := fun d member =>
        bytes d (List.mem_append_right text (List.mem_cons_of_mem c member))
      have real' : eof ∉ more.map charByte := by
        rw [List.map_append,List.map_cons] at real
        exact fun member => real (List.mem_append_right _ (List.mem_cons_of_mem _ member))
      have size : more.length ≤ n := by
        rw [List.length_append,List.length_cons] at enough
        omega
      exact endsBreak takes fresh within (bytes c (List.mem_append_right text List.mem_cons_self)) ends own left
        (left ▸ enough) fun rc s left' => ih bytes' real' others left' size

theorem putsApart {text text' : List Char} {v v' : Int} {more more' : List Call} :
    putting text ++ .readc 0 v::more = putting text' ++ .readc 0 v'::more' ↔
      text.map charByte = text'.map charByte ∧ v = v' ∧ more = more' := by
  induction text generalizing text' with
  | nil => cases text' <;> simp [putting]
  | cons c text ih =>
    cases text' with
    | nil => simp [putting]
    | cons d text' =>
      have step : putting (c::text) = .writec 1 (charByte c)::putting text := rfl
      have step' : putting (d::text') = .writec 1 (charByte d)::putting text' := rfl
      rw [step,step',List.cons_append,List.cons_append,List.cons.injEq,ih]
      simp [and_assoc]

theorem puttingEq {text text' : List Char} : putting text = putting text' ↔ text.map charByte = text'.map charByte := by
  have both := @putsApart text text' 0 0 [] []
  simpa using both

theorem callsHead (out : Line → List Char) (k : Nat) (text input : List Char) :
    ∃ v more, calls out k text input = .readc 0 v::more := by
  cases input with
  | nil => exact ⟨_,_,rfl⟩
  | cons c input => exact ⟨_,_,rfl⟩

theorem callsEq (out out' : Line → List Char) (k : Nat) (text input : List Char) :
    calls out k text input = calls out' k text input ↔
      ∀ l ∈ cut k text input, (out l).map charByte = (out' l).map charByte := by
  induction input generalizing k text with
  | nil => rw [calls,calls,cut,List.forall_mem_singleton,List.cons.injEq,and_iff_right rfl,puttingEq]
  | cons c input ih =>
    rw [calls,calls,cut,List.cons.injEq,and_iff_right rfl]
    by_cases ends : isBreak c = true
    · rw [if_pos ends,if_pos ends,if_pos ends,List.forall_mem_cons,← ih]
      obtain ⟨v,more,head⟩ := callsHead out (k + 1) [] input
      obtain ⟨v',more',head'⟩ := callsHead out' (k + 1) [] input
      rw [head,head',putsApart]
      simp
    · rw [if_neg ends,if_neg ends,if_neg ends,ih]

theorem cutInput {before : List Char} (member : l ∈ cut k before input) : ∀ c ∈ l.text, c ∈ before ++ input := by
  induction input generalizing k before with
  | nil =>
    rw [cut,List.mem_singleton] at member
    subst member
    exact fun c inside => List.mem_append_left _ inside
  | cons c input ih =>
    rw [cut] at member
    split at member
    · rcases List.mem_cons.mp member with rfl | later
      · exact fun d inside => List.mem_append_left _ inside
      · intro d inside
        exact List.mem_append_right _ (List.mem_cons_of_mem c (ih later d inside))
    · intro d inside
      have whole := ih member d inside
      rwa [List.append_assoc] at whole

/-! When the lines are right -/

def string (text : List Char) : List Char := text.takeWhile (· ≠ nul)

/- Of a selected line all is seen; nothing is seen of a line that should not be; the code tells
of the matches, as it should tell of the selected lines. -/
structure Sound (regexp : List Char) (inv : Bool) (input : List Char) : Prop where
  ended : ∀ l ∈ cut 0 [] input, l.ended → selected regexp inv l.text → l.text ≠ [] ∧ nul ∉ l.text
  last : ∀ l ∈ cut 0 [] input, l.ended = false → l.text ≠ [] →
    selected regexp inv l.text = false ∧ (inv = false → nul ∈ l.text)
  inverted : inv = true → ∀ l ∈ cut 0 [] input, regexp <:+: l.text → regexp <:+: string l.text
  code : inv = true → ((∃ l ∈ cut 0 [] input, l.given ∧ ¬ regexp <:+: l.text) ↔
    ∃ l ∈ cut 0 [] input, l.text ≠ [] ∧ regexp <:+: string l.text)

theorem stringPrefix (memory : Nat → List Char) (l : Line) : string l.text <+: seen memory l := by
  unfold seen string
  split
  · exact List.prefix_refl _
  · rw [List.takeWhile_append]
    split
    next whole =>
      have same := (List.takeWhile_prefix (fun x => decide (x ≠ nul))).eq_of_length whole
      rw [same]
      exact List.prefix_append _ _
    next => exact List.prefix_refl _

theorem stringSeen (known : l.ended = true ∨ nul ∈ l.text) (memory : Nat → List Char) : seen memory l = string l.text := by
  unfold seen string
  split
  · rfl
  next open_ =>
    have inside := known.resolve_left open_
    obtain ⟨before,after,same⟩ := List.append_of_mem inside
    rw [same,List.append_assoc,List.cons_append,takeString,takeString]

theorem stringWhole : string text = text ↔ nul ∉ text := by
  unfold string
  rw [List.takeWhile_eq_self_iff]
  constructor
  · intro all member
    exact absurd (all nul member) (by decide)
  · intro none_ c member
    exact decide_eq_true fun same => none_ (same ▸ member)

theorem selectedIff : selected regexp inv text = true ↔ (regexp <:+: text ↔ inv = false) := by
  unfold selected
  cases inv <;> simp

theorem putOutSelected : putOut memory regexp inv l ≠ [] ↔ l.text ≠ [] ∧ selected regexp inv (seen memory l) = true := by
  unfold putOut
  split
  next both => simp [both]
  next not => simp [not]

theorem expectedSelected : expected regexp inv l ≠ [] ↔ l.given = true ∧ selected regexp inv l.text = true := by
  unfold expected
  split
  next both =>
    rw [Bool.and_eq_true] at both
    simp [both]
  next not =>
    rw [Bool.and_eq_true] at not
    simp [not]

theorem givenSome (some_ : l.text ≠ []) : l.given = true := by simp [Line.given,some_]

theorem someSame (same : (putOut memory regexp inv l).map charByte = (expected regexp inv l).map charByte) :
    putOut memory regexp inv l ≠ [] ↔ expected regexp inv l ≠ [] := by
  rw [ne_eq,ne_eq,← List.map_eq_nil_iff (f := charByte),same,List.map_eq_nil_iff]

theorem sameSelected (same : (putOut memory regexp inv l).map charByte = (expected regexp inv l).map charByte)
    (some_ : l.text ≠ []) : selected regexp inv (seen memory l) = true ↔ selected regexp inv l.text = true := by
  have both := (putOutSelected.symm.trans (someSame same)).trans expectedSelected
  simpa [some_,givenSome some_] using both

theorem soundLine (sound : Sound regexp inv input) (member : l ∈ cut 0 [] input) (memory : Nat → List Char) :
    putOut memory regexp inv l = expected regexp inv l := by
  by_cases some_ : l.text = []
  · have nothing : putOut memory regexp inv l = [] := if_neg (fun both => both.1 some_)
    rw [nothing]
    symm
    by_contra chosen
    obtain ⟨given_,yes⟩ := expectedSelected.mp chosen
    have ends : l.ended = true := by simpa [Line.given,some_] using given_
    exact (sound.ended l member ends yes).1 some_
  · cases yes : selected regexp inv l.text with
    | true =>
      have ends : l.ended = true := by
        by_contra open_
        have none_ := (sound.last l member (Bool.eq_false_iff.mpr open_) some_).1
        exact Bool.noConfusion (none_.symm.trans yes)
      have whole : seen memory l = l.text :=
        (stringSeen (.inl ends) memory).trans (stringWhole.mpr (sound.ended l member ends yes).2)
      rw [putOut,expected,whole,yes,givenSome some_]
      simp [some_]
    | false =>
      have idle : expected regexp inv l = [] := by
        rw [expected,yes,Bool.and_false]
        rfl
      have hidden : ¬ selected regexp inv (seen memory l) = true := by
        rw [selectedIff]
        rw [← Bool.not_eq_true,selectedIff] at yes
        cases inv with
        | true =>
          have found : regexp <:+: l.text := by
            by_contra none_
            exact yes ⟨fun found => absurd found none_,fun odd => Bool.noConfusion odd⟩
          have there := (sound.inverted rfl l member found).trans (stringPrefix memory l).isInfix
          exact fun both => Bool.noConfusion (both.mp there)
        | false =>
          have known : l.ended = true ∨ nul ∈ l.text := by
            cases ends : l.ended with
            | true => exact .inl rfl
            | false => exact .inr ((sound.last l member ends some_).2 rfl)
          rw [stringSeen known]
          exact fun both => yes ⟨fun _ => rfl,fun _ => (both.mpr rfl).trans (List.takeWhile_prefix _).isInfix⟩
      rw [idle]
      exact if_neg fun both => hidden both.2

theorem matchedInverted (same : (putOut memory regexp true l).map charByte = (expected regexp true l).map charByte)
    (inverted : regexp <:+: l.text → regexp <:+: string l.text) :
    matched memory regexp l = true ↔ l.text ≠ [] ∧ regexp <:+: string l.text := by
  unfold matched
  rw [decide_eq_true_iff]
  refine and_congr_right fun some_ => ?_
  have both := sameSelected same some_
  rw [selectedIff,selectedIff] at both
  have inside := fun found : regexp <:+: string l.text => found.trans (stringPrefix memory l).isInfix
  have whole : regexp <:+: string l.text → regexp <:+: l.text := fun found => found.trans (List.takeWhile_prefix _).isInfix
  tauto

theorem matchedCode
    (same : ∀ l ∈ cut 0 [] input, (putOut memory regexp inv l).map charByte = (expected regexp inv l).map charByte)
    (inverted : inv = true → ∀ l ∈ cut 0 [] input, regexp <:+: l.text → regexp <:+: string l.text) :
    ((∃ l ∈ cut 0 [] input, matched memory regexp l = true) ↔ ∃ l ∈ cut 0 [] input, l.given ∧ selected regexp inv l.text) ↔
      (inv = true → ((∃ l ∈ cut 0 [] input, l.given ∧ ¬ regexp <:+: l.text) ↔
        ∃ l ∈ cut 0 [] input, l.text ≠ [] ∧ regexp <:+: string l.text)) := by
  cases inv with
  | true =>
    have left : (∃ l ∈ cut 0 [] input, matched memory regexp l = true) ↔
        ∃ l ∈ cut 0 [] input, l.text ≠ [] ∧ regexp <:+: string l.text := by
      refine exists_congr fun l => and_congr_right fun member => ?_
      exact matchedInverted (same l member) (inverted rfl l member)
    have right : (∃ l ∈ cut 0 [] input, l.given ∧ selected regexp true l.text) ↔
        ∃ l ∈ cut 0 [] input, l.given ∧ ¬ regexp <:+: l.text := by
      refine exists_congr fun l => and_congr_right fun _ => and_congr_right fun _ => ?_
      rw [selectedIff]
      simp
    rw [left,right]
    exact ⟨fun both _ => both.symm,fun both => (both rfl).symm⟩
  | false =>
    refine ⟨fun _ odd => Bool.noConfusion odd,fun _ => exists_congr fun l => and_congr_right fun member => ?_⟩
    have both := (putOutSelected.symm.trans (someSame (same l member))).trans expectedSelected
    rw [← both,selectedIff]
    simp [matched]

def behind (n : Nat) (junk : List Char) : Nat → List Char :=
  fun _ => List.replicate n nul ++ junk ++ List.replicate lineSize nul

theorem behindMemory (some_ : 0 < n) (junk : List Char) : Memory (behind n junk) := by
  intro k
  refine ⟨by simp [behind,← Nat.add_assoc],?_⟩
  have size : lineSize < (behind n junk k).length := by
    simp only [behind,List.length_append,List.length_replicate]
    omega
  have last : (behind n junk k).getLast? = some nul := by simp [behind,lineSize,List.getLast?_append]
  have later : ((behind n junk k).drop lineSize).getLast? = some nul := by
    rw [List.getLast?_drop,if_neg (by omega),last]
  exact List.mem_of_getLast? later

theorem seenBehind {junk : List Char} (open_ : l.ended = false) (plain : nul ∉ l.text) (plain' : nul ∉ junk) :
    seen (behind l.text.length junk) l = l.text ++ junk := by
  have drop : (behind l.text.length junk l.number).drop l.text.length = junk ++ nul::List.replicate 127 nul := by
    rw [behind,List.append_assoc,List.drop_append_of_le_length (by simp)]
    simp [lineSize,List.replicate_succ]
  have both : nul ∉ l.text ++ junk := fun member => (List.mem_append.mp member).elim plain plain'
  rw [seen,open_,if_neg (by decide),drop,← List.append_assoc,takeString]
  exact stringWhole.mpr both

theorem seenBlank (memory : Nat → List Char) (blank : memory = behind l.text.length []) : seen memory l = string l.text := by
  cases ends : l.ended with
  | true => exact stringSeen (.inl ends) memory
  | false =>
    by_cases inside : nul ∈ l.text
    · exact stringSeen (.inr inside) memory
    · rw [blank,seenBehind ends inside (by simp),List.append_nil,stringWhole.mpr inside]

def LinesRight (regexp : List Char) (inv : Bool) (input : List Char) (memory : Nat → List Char) : Prop :=
  (∀ l ∈ cut 0 [] input, (putOut memory regexp inv l).map charByte = (expected regexp inv l).map charByte) ∧
  ((∃ l ∈ cut 0 [] input, matched memory regexp l = true) ↔ ∃ l ∈ cut 0 [] input, l.given ∧ selected regexp inv l.text)

theorem linesCode (ls : List Line) : code memory regexp ls 1 = 0 ↔ ∃ l ∈ ls, matched memory regexp l = true := by
  unfold code
  split
  next some_ => simpa using some_
  next none_ => simpa using none_

theorem dogrepRun (stream : Stream input) (takes : Takes w 1) (fresh : Memory memory) (left : s.input = input) :
    Ends w memory regexp inv input.length 0 1 input s ∧
      outcome (dogrep w memory regexp inv) s = outcome (lines w memory regexp inv (input.length + 1) 0 1) s := by
  refine ⟨linesRun takes fresh stream.bytes stream.real stream.short left (Nat.le_refl _),?_⟩
  subst left
  rfl

theorem filtersRight (stream : Stream input) (filters : Filters regexp inv input) (fresh : Memory memory) :
    LinesRight regexp inv input memory := by
  have echoes := echoingEchoes 1
  obtain ⟨rc,s',ran,traced,told⟩ := filters echoing memory ⟨[],input⟩ echoes.takes fresh rfl
  obtain ⟨ends,same⟩ := @dogrepRun _ memory regexp input inv ⟨[],input⟩ stream echoes.takes fresh rfl
  rw [same] at ran
  by_cases all : Answers memory regexp inv (cut 0 [] input)
  · cases (ends.whole all).symm.trans ran
    rw [List.append_cancel_left_eq,callsEq] at traced
    exact ⟨traced,(linesCode _).symm.trans told⟩
  · obtain ⟨s1,stopped⟩ := ends.stopped echoes all
    cases stopped.symm.trans ran

theorem sameSeen (same : (putOut memory regexp inv l).map charByte = (expected regexp inv l).map charByte)
    (given_ : l.given = true) (yes : selected regexp inv l.text = true) :
    l.text ≠ [] ∧ (seen memory l).length = l.text.length := by
  obtain ⟨some_,chosen⟩ := putOutSelected.mp ((someSame same).mpr (expectedSelected.mpr ⟨given_,yes⟩))
  have size := congrArg List.length same
  rw [putOut,if_pos ⟨some_,chosen⟩,expected,given_,yes] at size
  exact ⟨some_,by simpa using size⟩

theorem rightSound (plain : nul ∉ regexp) (right : ∀ memory, Memory memory → LinesRight regexp inv input memory) :
    Sound regexp inv input := by
  have inverted : inv = true → ∀ l ∈ cut 0 [] input, regexp <:+: l.text → regexp <:+: string l.text := by
    rintro rfl l member found
    by_cases some_ : l.text = []
    · rw [some_] at found ⊢
      exact found
    · have same := (right _ (behindMemory (List.length_pos_of_ne_nil some_) [])).1 l member
      have both := @sameSelected (behind l.text.length []) _ _ _ same some_
      rw [seenBlank _ rfl,selectedIff,selectedIff] at both
      by_contra none_
      exact Bool.noConfusion ((both.mp (by simp [none_])).mp found)
  refine ⟨?_,?_,inverted,(matchedCode (right _ (behindMemory Nat.one_pos [])).1 inverted).mp
    (right _ (behindMemory Nat.one_pos [])).2⟩
  · intro l member ends yes
    have same := (right _ (behindMemory Nat.one_pos [])).1 l member
    obtain ⟨some_,size⟩ := sameSeen same (by simp [Line.given,ends]) yes
    rw [stringSeen (.inl ends)] at size
    exact ⟨some_,stringWhole.mp ((List.takeWhile_prefix _).eq_of_length size)⟩
  · intro l member open_ some_
    have behind_ := behindMemory (List.length_pos_of_ne_nil some_)
    have hidden : selected regexp inv l.text = false := by
      by_contra chosen
      obtain ⟨-,size⟩ := sameSeen ((right _ (behind_ ['x'])).1 l member) (givenSome some_) (Bool.not_eq_false _ ▸ chosen)
      by_cases inside : nul ∈ l.text
      · rw [stringSeen (.inr inside)] at size
        exact stringWhole.mp ((List.takeWhile_prefix _).eq_of_length size) inside
      · rw [seenBehind open_ inside (by decide)] at size
        simp at size
    refine ⟨hidden,?_⟩
    rintro rfl
    by_contra none_
    have both := sameSelected ((right _ (behind_ regexp)).1 l member) some_
    rw [seenBehind open_ none_ plain,selectedIff,hidden] at both
    exact Bool.noConfusion (both.mp ⟨fun _ => rfl,fun _ => (List.suffix_append _ _).isInfix⟩)

/-- dogrep filters the lines, whatever its buffers hold, exactly when every selected line has
something in it, no NUL and a line break behind it; when a last line without one is not
selected and, without -v, has a NUL; and when with -v no match is behind a NUL and some line
is without a match exactly if some line has one. -/
theorem grepFilters (stream : Stream input) (plain : nul ∉ regexp) : Filters regexp inv input ↔ Sound regexp inv input := by
  constructor
  · exact fun filters => rightSound plain fun memory fresh => filtersRight stream filters fresh
  · intro sound w memory s takes fresh left
    have same : ∀ l ∈ cut 0 [] input, putOut memory regexp inv l = expected regexp inv l :=
      fun l member => soundLine sound member memory
    have answers : Answers memory regexp inv (cut 0 [] input) := by
      intro l member odd
      rw [same l member,expected] at odd
      split at odd
      · rw [List.map_append] at odd
        rcases List.mem_append.mp odd with inside | last
        · obtain ⟨c,own,value⟩ := List.mem_map.mp inside
          exact stream.real (value ▸ List.mem_map_of_mem (cutInput member c own))
        · exact absurd last (by decide)
      · contradiction
    obtain ⟨ends,start⟩ := @dogrepRun _ memory regexp input inv s stream takes fresh left
    refine ⟨_,_,start.trans (ends.whole answers),?_,?_⟩
    · have traced := (callsEq (putOut memory regexp inv) (expected regexp inv) 0 [] input).mpr fun l member => by
        rw [same l member]
      exact congrArg (s.calls ++ ·) traced
    · rw [linesCode]
      exact (matchedCode (fun l member => by rw [same l member]) sound.inverted).mpr sound.code

end

-- `grep h` of two lines
theorem grepFiltersTwo : Filters ['h'] false ['h','i','\n','n','o','\n'] := by
  refine (grepFilters ⟨by simp,by decide,by decide⟩ (by decide)).mpr ⟨by decide,by decide,?_,?_⟩
  · exact fun odd => Bool.noConfusion odd
  · exact fun odd => Bool.noConfusion odd

/- A last line without a break takes along what the buffer held; with -v the code tells of the
lines that are not printed. -/
theorem grepMisses : ¬ Filters ['b'] false ['a'] ∧ ¬ Filters ['b'] true ['a','\n'] := by
  constructor
  · intro filters
    have sound := rightSound (by decide) fun memory fresh => filtersRight ⟨by simp,by decide,by decide⟩ filters fresh
    exact absurd ((sound.last ⟨['a'],false,0⟩ (by decide) rfl (by decide)).2 rfl) (by decide)
  · intro filters
    have sound := rightSound (by decide) fun memory fresh => filtersRight ⟨by simp,by decide,by decide⟩ filters fresh
    exact absurd ((sound.code rfl).mp ⟨⟨['a'],true,0⟩,by decide,by decide,by decide⟩) (by decide)

end Avros.Usr.Grep
