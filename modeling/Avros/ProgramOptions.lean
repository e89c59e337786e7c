import Avros.OptionScan

/-! `usr/apps.c`: how the programs go through their options. Each of them has one. -/
namespace Avros.Usr.Options
open Vfs (eof charByte)

-- `while ((c = getopt(argv, opts, opt_p)) != EOF)`, with mexit(1) for '?'.
def flagged (w : World) (argv : List (List Char)) (flag : Char) : Nat → Getopt → Bool → Task (Bool × Getopt)
  | 0,_,_ => outside
  | n + 1,g,o => do
    let (c,g) ← getopt w argv [flag] g
    if c = eof then pure (o,g)
    else if c = charByte flag then flagged w argv flag n g true
    else if c = charByte '?' then mexit 1
    else flagged w argv flag n g o

structure Flag (flag : Char) : Prop where
  real : charByte flag ≠ eof
  other : charByte flag ≠ charByte '?'

def refused (fs : List Found) : Bool := fs.any fun
  | .letter _ _ => false
  | _ => true

def Found.Declared (opts : List Char) : Found → Prop
  | .letter c optarg => declared opts c = some optarg.isSome
  | .unknown c => declared opts c = none
  | .missing c => declared opts c = some true

section
variable {w : World} {argv words : List (List Char)} {opts letters : List Char} {flag c : Char} {g last : Getopt}
  {i : Nat} {o : Bool} {fs : List Found} {s : Io}

theorem scanDeclared (opts letters : List Char) (words : List (List Char)) (i : Nat) :
    ∀ f ∈ (scan opts letters words i).1, f.Declared opts := by
  fun_induction scan opts letters words i <;> simp_all [reporting,Found.Declared]

theorem declaredFlag {takes : Bool} (found : declared [flag] c = some takes) : c = flag ∧ takes = false := by
  unfold declared at found
  by_cases same : flag = c
  · split at found <;> simp_all
  · split at found <;> simp_all

theorem flaggedNext {v : Int} {n : Nat} {g' : Getopt} (called : getopt w argv [flag] g = pure (v,g')) :
    flagged w argv flag (n + 1) g o =
      (if v = eof then pure (o,g')
      else if v = charByte flag then flagged w argv flag n g' true
      else if v = charByte '?' then mexit 1
      else flagged w argv flag n g' o) := by
  rw [flagged,called]
  exact pure_bind _ _

theorem flaggedTold (own : Flag flag) (session : Session w argv [flag] g fs last)
    (declared_ : ∀ f ∈ fs, f.Declared [flag]) (taken : refused fs = false) (n : Nat) (o : Bool) :
    flagged w argv flag n g o = if fs.length < n then pure (o || !fs.isEmpty,last) else outside := by
  induction session generalizing n o with
  | ended called =>
    cases n with
    | zero => rfl
    | succ n =>
      rw [flaggedNext called,if_pos rfl]
      simp
  | @letter g g' last c fs called _ ih =>
    have same := (declaredFlag (declared_ _ List.mem_cons_self)).1
    subst same
    cases n with
    | zero => rfl
    | succ n =>
      have taken' : refused fs = false := by simpa [refused] using taken
      have others := fun f member => declared_ f (List.mem_cons_of_mem _ member)
      rw [flaggedNext called,if_neg own.real,if_pos rfl,ih others taken']
      simp
  | unknown => simp [refused] at taken
  | missing => simp [refused] at taken

theorem flaggedRefused (own : Flag flag) (session : Session w argv [flag] g fs last) {name : List Char}
    {more : List (List Char)} (named : argv = name::more) (plain : Vfs.Path.nul ∉ name)
    (declared_ : ∀ f ∈ fs, f.Declared [flag]) (taken : refused fs = true) (o : Bool) (s : Io) :
    ∃ n code out, outcome (flagged w argv flag n g o) s = some (.error code,s.wrote 2 out) := by
  induction session generalizing o with
  | ended => contradiction
  | @letter g g' last c fs called _ ih =>
    have same := (declaredFlag (declared_ _ List.mem_cons_self)).1
    subst same
    have taken' : refused fs = true := by simpa [refused] using taken
    obtain ⟨n,code,out,exited⟩ := ih (fun f member => declared_ f (List.mem_cons_of_mem _ member)) taken' true
    refine ⟨n + 1,code,out,?_⟩
    rw [flaggedNext called,if_neg own.real,if_pos rfl,exited]
  | @unknown g g' last c fs called =>
    obtain ⟨text,written,-⟩ := complainPuts plain more c (.inl rfl)
    obtain ⟨end_,out,answered,-⟩ := putsAnswered w 2 text s
    rw [named,written,← named] at called
    cases end_ with
    | error code =>
      refine ⟨1,code,out,?_⟩
      rw [flagged,called,bind_assoc,bindExited answered]
    | ok =>
      refine ⟨1,1,out,?_⟩
      rw [flagged,called,bind_assoc,bindReturned answered]
      have question : charByte '?' ≠ eof := by decide
      rw [pure_bind]
      change outcome (if charByte '?' = eof then _ else _) _ = _
      rw [if_neg question,if_neg own.other.symm,if_pos rfl]
      rfl
  | missing =>
    have none_ := (declaredFlag (declared_ _ List.mem_cons_self)).2
    contradiction

theorem optionsTaken (own : Flag flag) (strings : ∀ word ∈ argv, Vfs.Path.nul ∉ word)
    (taken : refused (scan [flag] [] argv.tail 1).1 = false) (w : World) :
    ∃ g, g.optind = (scan [flag] [] argv.tail 1).2 ∧ ∀ n, flagged w argv flag n initgetopt false =
      if (scan [flag] [] argv.tail 1).1.length < n then pure (!(scan [flag] [] argv.tail 1).1.isEmpty,g) else outside := by
  obtain ⟨last,session,index⟩ := @initSession w argv [flag] strings
  exact ⟨last,index,fun n => flaggedTold own session (scanDeclared _ _ _ _) taken n false⟩

theorem optionsRefused (own : Flag flag) (strings : ∀ word ∈ argv, Vfs.Path.nul ∉ word)
    (taken : refused (scan [flag] [] argv.tail 1).1 = true) (w : World) (s : Io) :
    ∃ n code out, outcome (flagged w argv flag n initgetopt false) s = some (.error code,s.wrote 2 out) := by
  cases argv with
  | nil =>
    rw [List.tail_nil,scan] at taken
    contradiction
  | cons name more =>
    obtain ⟨last,session,-⟩ := @initSession w (name::more) [flag] strings
    exact flaggedRefused own session rfl (strings name List.mem_cons_self) (scanDeclared _ _ _ _) taken false s

end

end Avros.Usr.Options
