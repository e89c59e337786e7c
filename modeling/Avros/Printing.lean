import Avros.UserTask

/-! `usr/lib/mstdlib.c`, the output. A number is put out from its first digit on; a format is
read where it stands, as the memory from there on. An int has two bytes. -/
namespace Avros.Usr.Print
open Vfs (eof toChar charByte toInt16)
open Vfs.Path (nul)
open Vfs.OpenName (atoi decimal Digits)

-- What va_arg() finds: an int, or the memory behind a pointer.
inductive Arg where
  | int (v : Int)
  | str (s : List Char)
  deriving DecidableEq, Repr

def unsigned (v : Int) : Nat := (v % 65536).toNat

def mfputu (w : World) (fd : Int) (num : Nat) : Task Unit := do
  if num / 10 ≠ 0 then mfputu w fd (num / 10)
  mfputc w fd (num % 10 + 48 : Nat)
termination_by num
decreasing_by omega

def mfputxInternal (w : World) (fd : Int) (num : Nat) : Task Unit := do
  if num / 16 ≠ 0 then mfputxInternal w fd (num / 16)
  mfputc w fd (num % 16 + (if num % 16 > 9 then 97 - 10 else 48) : Nat)
termination_by num
decreasing_by omega

def mfputx (w : World) (fd : Int) (num : Nat) : Task Unit := do
  mfputc w fd 48
  mfputc w fd 120
  mfputxInternal w fd num

-- `while (*s)`
def mfputs (w : World) (fd : Int) : List Char → Task Unit
  | [] => outside
  | c::s => if c = nul then pure () else do
    mfputc w fd (charByte c)
    mfputs w fd s

-- `switch (*fmt)` behind a '%': what is left of the arguments.
def convert (w : World) (fd : Int) (c : Char) (ap : List Arg) : Task (List Arg) :=
  if c = 'c' then
    match ap with
    | .int v::ap => do mfputc w fd (toChar v); pure ap
    | _ => outside
  else if c = 's' then
    match ap with
    | .str s::ap => do mfputs w fd s; pure ap
    | _ => outside
  else if c = 'x' ∨ c = 'X' then
    match ap with
    | .int v::ap => do mfputx w fd (unsigned v); pure ap
    | _ => outside
  else if c = 'd' ∨ c = 'i' then
    match ap with
    | .int v::ap => do mfputu w fd (unsigned v); pure ap
    | _ => outside
  else pure ap

def mfprintf (w : World) (fd : Int) : List Char → List Arg → Task Unit
  | [],_ => outside
  | c::fmt,ap =>
    if c = nul then pure ()
    else if c ≠ '%' then do
      mfputc w fd (charByte c)
      mfprintf w fd fmt ap
    else
      match fmt with
      | [] => outside
      | d::fmt => do
        let ap ← convert w fd d ap
        mfprintf w fd fmt ap

def noargs (w : World) (argv : List (List Char)) : Task Unit :=
  match argv with
  | [] => outside
  | name::_ => mfprintf w 2 ['%','s',':',' ','a','r','g','s','?','\n',nul] [.str (name ++ [nul])]

inductive Piece where
  | char (c : Char)
  | conversion (c : Char)
  deriving DecidableEq, Repr

def pieces : List Char → List Piece
  | [] => []
  | [c] => if c = '%' then [] else [.char c]
  | c::d::rest => if c = '%' then .conversion d::pieces rest else .char c::pieces (d::rest)

-- The last character is a '%' that no other one is before.
def endsOpen : List Char → Bool
  | [] => false
  | [c] => c = '%'
  | c::d::rest => if c = '%' then endsOpen rest else endsOpen (d::rest)

inductive Item where
  | char (c : Char)
  | charArg (v : Int)
  | str (s : List Char)
  | hex (v : Int)
  | signed (v : Int)
  deriving DecidableEq, Repr

def supplied (c : Char) (ap : List Arg) : Option (List Item × List Arg) :=
  if c = 'c' then
    match ap with
    | .int v::ap => some ([.charArg v],ap)
    | _ => none
  else if c = 's' then
    match ap with
    | .str s::ap => if nul ∈ s then some ([.str (s.takeWhile (· ≠ nul))],ap) else none
    | _ => none
  else if c = 'x' ∨ c = 'X' then
    match ap with
    | .int v::ap => some ([.hex v],ap)
    | _ => none
  else if c = 'd' ∨ c = 'i' then
    match ap with
    | .int v::ap => some ([.signed v],ap)
    | _ => none
  else some ([],ap)

def items : List Piece → List Arg → Option (List Item × List Arg)
  | [],ap => some ([],ap)
  | .char c::ps,ap => do
    let (its,ap) ← items ps ap
    some (.char c::its,ap)
  | .conversion c::ps,ap => do
    let (it,ap) ← supplied c ap
    let (its,ap) ← items ps ap
    some (it ++ its,ap)

def numeral (v : Int) : List Char :=
  if v < 0 then '-'::Nat.toDigits 10 v.natAbs else Nat.toDigits 10 v.natAbs

def Item.text : Item → List Int
  | .char c => [charByte c]
  | .charArg v => [toChar v]
  | .str s => s.map charByte
  | .hex v => (['0','x'] ++ Nat.toDigits 16 (unsigned v)).map charByte
  | .signed v => (numeral v).map charByte

-- What comes out for it: the number of a %d goes through an unsigned parameter.
def Item.printed : Item → List Int
  | .signed v => (Nat.toDigits 10 (unsigned v)).map charByte
  | it => it.text

section
variable {w : World} {fd : Int} {c : Char} {text rest : List Char} {ap ap' : List Arg} {it its : List Item} {s s' : Io}

theorem digitByte : ∀ d < 16, charByte (Nat.digitChar d) = (d + (if d > 9 then 97 - 10 else 48) : Nat) := by decide

theorem mfputuPuts (w : World) (fd : Int) (num : Nat) :
    mfputu w fd num = puts w fd ((Nat.toDigits 10 num).map charByte) := by
  induction num using Nat.strongRecOn with
  | ind num ih =>
    rw [mfputu,Nat.toDigits_eq_if (by decide)]
    by_cases small : num < 10
    · have none_ : num / 10 = 0 := Nat.div_eq_of_lt small
      have byte := digitByte num (by omega)
      rw [if_neg (by omega)] at byte
      rw [if_neg (not_not.mpr none_),if_pos small,Nat.mod_eq_of_lt small,List.map_singleton,putsOne,byte]
    · have byte := digitByte (num % 10) (by omega)
      rw [if_neg (by omega)] at byte
      rw [if_pos (by omega),if_neg small,List.map_append,putsAppend,ih (num / 10) (by omega),List.map_singleton,
        putsOne,byte]

theorem mfputxPuts (w : World) (fd : Int) (num : Nat) :
    mfputx w fd num = puts w fd ((['0','x'] ++ Nat.toDigits 16 num).map charByte) := by
  have internal : ∀ num, mfputxInternal w fd num = puts w fd ((Nat.toDigits 16 num).map charByte) := by
    intro num
    induction num using Nat.strongRecOn with
    | ind num ih =>
      rw [mfputxInternal,Nat.toDigits_eq_if (by decide)]
      by_cases small : num < 16
      · have none_ : num / 16 = 0 := Nat.div_eq_of_lt small
        rw [if_neg (not_not.mpr none_),if_pos small,Nat.mod_eq_of_lt small,List.map_singleton,putsOne,
          digitByte num small]
      · rw [if_pos (by omega),if_neg small,List.map_append,putsAppend,ih (num / 16) (by omega),List.map_singleton,
          putsOne,digitByte (num % 16) (by omega)]
  rw [mfputx,internal]
  rfl

theorem mfputsPuts (ends : nul ∈ text) : mfputs w fd text = puts w fd ((text.takeWhile (· ≠ nul)).map charByte) := by
  induction text with
  | nil => contradiction
  | cons c text ih =>
    by_cases last : c = nul
    · rw [mfputs,if_pos last,List.takeWhile_cons_of_neg (by simp [last])]
      rfl
    · have later := (List.mem_cons.mp ends).resolve_left (Ne.symm last)
      rw [mfputs,if_neg last,List.takeWhile_cons_of_pos (by simp [last]),List.map_cons,putsCons,ih later]

theorem convertPuts (found : supplied c ap = some (it,ap')) :
    convert w fd c ap = (do puts w fd (it.flatMap Item.printed); pure ap') := by
  unfold supplied at found
  unfold convert
  split at found
  next isc =>
    rw [if_pos isc]
    split at found <;> try contradiction
    cases found
    exact (congrArg (· >>= fun _ => pure ap') (putsOne w fd _)).symm
  next notc =>
    rw [if_neg notc]
    split at found
    next iss =>
      rw [if_pos iss]
      split at found <;> try contradiction
      split at found <;> try contradiction
      next ends =>
        cases found
        simp [mfputsPuts ends,Item.printed,Item.text]
    next nots =>
      rw [if_neg nots]
      split at found
      next isx =>
        rw [if_pos isx]
        split at found <;> try contradiction
        cases found
        simp [mfputxPuts,Item.printed,Item.text]
      next notx =>
        rw [if_neg notx]
        split at found
        next isd =>
          rw [if_pos isd]
          split at found <;> try contradiction
          cases found
          simp [mfputuPuts,Item.printed]
        next notd =>
          rw [if_neg notd]
          cases found
          exact (pure_bind _ _).symm

theorem mfprintfEnd (rest : List Char) (ap : List Arg) : mfprintf w fd (nul::rest) ap = pure () := by
  rw [mfprintf.eq_def]
  exact if_pos rfl

theorem mfprintfChar (real : c ≠ nul) (plain : c ≠ '%') (rest : List Char) (ap : List Arg) :
    mfprintf w fd (c::rest) ap = (do mfputc w fd (charByte c); mfprintf w fd rest ap) := by
  rw [mfprintf.eq_def]
  exact (if_neg real).trans (if_pos plain)

theorem mfprintfPercent (c : Char) (rest : List Char) (ap : List Arg) :
    mfprintf w fd ('%'::c::rest) ap = (do let ap ← convert w fd c ap; mfprintf w fd rest ap) := by
  rw [mfprintf.eq_def]
  exact (if_neg (by decide)).trans (if_neg (by decide))

theorem piecesPlain (plain : c ≠ '%') (text : List Char) : pieces (c::text) = .char c::pieces text := by
  cases text <;> simp [pieces,plain]

theorem endsPlain (plain : c ≠ '%') (text : List Char) : endsOpen (c::text) = endsOpen text := by
  cases text <;> simp [endsOpen,plain]

/- The scan of a format stops at its terminator, unless it ends in an open '%': then it goes on
behind it. -/
def PutsOut (w : World) (fd : Int) (rest : List Char) (ap' : List Arg) (text : List Char) : Prop :=
  ∀ ap its, nul ∉ text → items (pieces text) ap = some (its,ap') →
    mfprintf w fd (text ++ nul::rest) ap = (do
      puts w fd (its.flatMap Item.printed)
      if endsOpen text then mfprintf w fd rest ap' else pure ())

theorem emptyPuts : PutsOut w fd rest ap' [] := by
  intro ap its _ found
  cases found
  rw [List.nil_append,mfprintfEnd]
  exact (pure_bind _ _).symm

theorem plainPuts (other : c ≠ '%') (ih : PutsOut w fd rest ap' text) : PutsOut w fd rest ap' (c::text) := by
  intro ap its plain found
  rw [piecesPlain other,items] at found
  obtain ⟨⟨more,left⟩,later,last⟩ := Option.bind_eq_some_iff.mp found
  cases last
  have real : c ≠ nul := fun same => plain (same ▸ List.mem_cons_self)
  have others : nul ∉ text := fun member => plain (List.mem_cons_of_mem _ member)
  rw [List.cons_append,mfprintfChar real other,ih _ _ others later,endsPlain other,List.flatMap_cons]
  change _ = (do puts w fd ([charByte c] ++ more.flatMap Item.printed); _)
  rw [putsAppend,putsOne,bind_assoc]

theorem mfprintfPuts (text rest : List Char) (ap' : List Arg) : PutsOut w fd rest ap' text := by
  induction text using pieces.induct with
  | case1 => exact emptyPuts
  | case2 =>
    intro ap its _ found
    cases found
    change mfprintf w fd ('%'::nul::rest) ap' = _
    rw [mfprintfPercent]
    rfl
  | case3 c other => exact plainPuts other emptyPuts
  | case4 d rest' ih =>
    intro ap its plain found
    rw [pieces,if_pos rfl,items] at found
    obtain ⟨⟨it,middle⟩,first,found⟩ := Option.bind_eq_some_iff.mp found
    obtain ⟨⟨more,left⟩,later,last⟩ := Option.bind_eq_some_iff.mp found
    cases last
    have ends : endsOpen ('%'::d::rest') = endsOpen rest' := if_pos rfl
    have others : nul ∉ rest' := fun member => plain (List.mem_cons_of_mem _ (List.mem_cons_of_mem _ member))
    rw [List.cons_append,List.cons_append,mfprintfPercent,convertPuts first,bind_assoc,ends,List.flatMap_append,
      putsAppend,bind_assoc]
    simp only [pure_bind,ih _ _ others later]
  | case5 c d rest' other ih => exact plainPuts other ih

def StaysInside (text : List Char) : Prop :=
  ∀ w fd ap its ap' s, items (pieces text) ap = some (its,ap') → (outcome (mfprintf w fd (text ++ [nul]) ap) s).isSome

def sample (c : Char) : List Arg :=
  if c = 's' then [.str [nul]] else if c = 'c' ∨ c = 'x' ∨ c = 'X' ∨ c = 'd' ∨ c = 'i' then [.int 0] else []

def supply : List Piece → List Arg
  | [] => []
  | .char _::ps => supply ps
  | .conversion c::ps => sample c ++ supply ps

theorem sampleSupplied (c : Char) (ap : List Arg) : ∃ it, supplied c (sample c ++ ap) = some (it,ap) := by
  by_cases known : c ∈ ['c','s','x','X','d','i']
  · simp only [List.mem_cons,List.not_mem_nil,or_false] at known
    rcases known with rfl | rfl | rfl | rfl | rfl | rfl
    · exact ⟨[.charArg 0],rfl⟩
    · exact ⟨[.str []],rfl⟩
    · exact ⟨[.hex 0],rfl⟩
    · exact ⟨[.hex 0],rfl⟩
    · exact ⟨[.signed 0],rfl⟩
    · exact ⟨[.signed 0],rfl⟩
  · simp only [List.mem_cons,List.not_mem_nil,or_false,not_or] at known
    exact ⟨[],by simp [sample,supplied,known]⟩

theorem supplyItems (ps : List Piece) : ∃ its, items ps (supply ps) = some (its,[]) := by
  induction ps with
  | nil => exact ⟨[],rfl⟩
  | cons p ps ih =>
    obtain ⟨its,found⟩ := ih
    cases p with
    | char c => exact ⟨.char c::its,by simp [items,supply,found]⟩
    | conversion c =>
      obtain ⟨it,given⟩ := sampleSupplied c (supply ps)
      exact ⟨it ++ its,by simp [items,supply,given,found]⟩

/-- mfprintf stays inside the format exactly when it does not end in a '%' that no other one is
before. -/
theorem formatInside (plain : nul ∉ text) : StaysInside text ↔ endsOpen text = false := by
  constructor
  · intro stays
    cases ends : endsOpen text with
    | false => rfl
    | true =>
      obtain ⟨its,found⟩ := supplyItems (pieces text)
      have inside := stays (fun _ _ _ => 0) 1 _ its [] ⟨[],[]⟩ found
      obtain ⟨end_,out,written,-,returns⟩ := putsAnswered (fun _ _ _ => 0) 1 (its.flatMap Item.printed) ⟨[],[]⟩
      cases returns (fun _ _ _ same => absurd same (by decide))
      rw [mfprintfPuts text [] [] _ its plain found,ends,bindReturned written] at inside
      contradiction
  · intro ends w fd ap its ap' s found
    obtain ⟨end_,out,written,-⟩ := putsAnswered w fd (its.flatMap Item.printed) s
    rw [mfprintfPuts text [] ap' ap its plain found,ends,outcomeBind,written]
    cases end_ <;> rfl

end

theorem formatInsideNumber : StaysInside ['(','%','d',')'] :=
  (formatInside (by decide)).mpr (by decide)

-- `echo 100%`
theorem percentRunsOn : ¬ StaysInside ['1','0','0','%'] := by
  intro stays
  have inside := stays (fun _ _ _ => 0) 1 [] [.char '1',.char '0',.char '0'] [] ⟨[],[]⟩ rfl
  exact absurd inside (by decide)

end Avros.Usr.Print
