import Avros.Printing

/-! `usr/lib/mstdlib.c`, getopt(): each call goes on where the last one stopped, at the character
`sp` of the word `optind`. -/
namespace Avros.Usr.Options
open Print
open Vfs (eof charByte)
open Vfs.Path (nul)

structure Getopt where
  optarg : Option (List Char)
  optind : Nat
  sp : Nat
  deriving DecidableEq, Repr

def initgetopt : Getopt := ⟨none,1,1⟩

-- argv[i][j]: a word ends with its terminator, and argv after argc words.
def at_ (argv : List (List Char)) (i j : Nat) : Option Char := do
  let word ← argv[i]?
  if j = word.length then some nul else word[j]?

def charAt (argv : List (List Char)) (i j : Nat) : Task Char :=
  match at_ argv i j with
  | some c => pure c
  | none => outside

-- From the character that is found on, up to the terminator; empty for NULL.
def strchr (s : List Char) (c : Char) : List Char := (s ++ [nul]).dropWhile (· ≠ c)

-- The complaint goes to STDERR, with the name of the program before it.
def complain (w : World) (argv : List (List Char)) (fmt : List Char) (c : Char) : Task Unit :=
  match argv with
  | [] => outside
  | name::_ => mfprintf w 2 (fmt ++ [nul]) [.str (name ++ [nul]),.int (charByte c)]

def unknownOption : List Char := ['%','s',':',' ','-','%','c','?','\n']
def needsArg : List Char :=
  ['%','s',':',' ','-','%','c',' ','n','e','e','d','s',' ','a','r','g','\n']

-- `if (opt_p->sp == 1)`: what is left in the record if the scan ends here.
def ends (argv : List (List Char)) (g : Getopt) : Task (Option Getopt) :=
  if g.sp = 1 then
    if argv.length ≤ g.optind then pure (some g)
    else do
      if (← charAt argv g.optind 0) ≠ '-' then pure (some g)
      else if (← charAt argv g.optind 1) = nul then pure (some g)
      else if argv[g.optind]? = some ['-','-'] then pure (some { g with optind := g.optind + 1 })
      else pure none
  else pure none

-- `++opt_p->sp`, and on to the next word at the end of this one.
def advance (argv : List (List Char)) (g : Getopt) : Task Getopt := do
  if (← charAt argv g.optind (g.sp + 1)) = nul then pure { g with optind := g.optind + 1, sp := 1 }
  else pure { g with sp := g.sp + 1 }

def letter (w : World) (argv : List (List Char)) (opts : List Char) (g : Getopt) : Task (Int × Getopt) := do
  let c ← charAt argv g.optind g.sp
  match if c = ':' then [] else strchr opts c with
  | [] => do
    complain w argv unknownOption c
    let g ← advance argv g
    pure (charByte '?',g)
  | [_] => outside
  | _::cp::_ =>
    if cp = ':' then do
      if (← charAt argv g.optind (g.sp + 1)) ≠ nul then
        pure (charByte c,⟨some ((argv.getD g.optind []).drop (g.sp + 1)),g.optind + 1,1⟩)
      else if argv.length ≤ g.optind + 1 then do
        complain w argv needsArg c
        pure (charByte '?',⟨g.optarg,g.optind + 1,1⟩)
      else pure (charByte c,⟨argv[g.optind + 1]?,g.optind + 2,1⟩)
    else do
      let g ← advance argv g
      pure (charByte c,{ g with optarg := none })

def getopt (w : World) (argv : List (List Char)) (opts : List Char) (g : Getopt) : Task (Int × Getopt) := do
  match ← ends argv g with
  | some g => pure (eof,g)
  | none => letter w argv opts g

-- Call after call up to the first EOF: the results, each with its optarg.
def getoptAll (w : World) (argv : List (List Char)) (opts : List Char) :
    Nat → Getopt → Task (List (Int × Option (List Char)) × Getopt)
  | 0,_ => outside
  | n + 1,g => do
    let (c,g) ← getopt w argv opts g
    if c = eof then pure ([],g)
    else do
      let (more,last) ← getoptAll w argv opts n g
      pure ((c,g.optarg)::more,last)

inductive Found where
  | letter (c : Char) (optarg : Option (List Char))
  | unknown (c : Char)
  | missing (c : Char)
  deriving DecidableEq, Repr

def declared (opts : List Char) (c : Char) : Option Bool :=
  if c = ':' then none
  else
    match opts.dropWhile (· ≠ c) with
    | [] => none
    | _::more => some (more.head? = some ':')

def reporting (f : Found) (more : List Found × Nat) : List Found × Nat := (f::more.1,more.2)

/- The letters that are left of a word, the words behind it and the index of the first of
them; with it the index of the first operand. -/
def scan (opts : List Char) : List Char → List (List Char) → Nat → List Found × Nat
  | [],[],i => ([],i)
  | [],['-','-']::_,i => ([],i + 1)
  | [],('-'::c::cs)::words,i => scan opts (c::cs) words (i + 1)
  | [],_::_,i => ([],i)
  | c::cs,words,i =>
    match declared opts c with
    | none => reporting (.unknown c) (scan opts cs words i)
    | some false => reporting (.letter c none) (scan opts cs words i)
    | some true =>
      if cs ≠ [] then reporting (.letter c (some cs)) (scan opts [] words i)
      else
        match words with
        | [] => ([.missing c],i)
        | word::words => reporting (.letter c (some word)) (scan opts [] words (i + 1))
termination_by letters words => (words.length,letters.length)

-- getopt answers '?' for what it refuses, and leaves optarg as it was.
def told : Option (List Char) → List Found → List (Int × Option (List Char))
  | _,[] => []
  | _,.letter c optarg::more => (charByte c,optarg)::told optarg more
  | optarg,.unknown _::more => (charByte '?',optarg)::told optarg more
  | optarg,.missing _::more => (charByte '?',optarg)::told optarg more

inductive Session (w : World) (argv : List (List Char)) (opts : List Char) : Getopt → List Found → Getopt → Prop where
  | ended {g g' : Getopt} : getopt w argv opts g = pure (eof,g') → Session w argv opts g [] g'
  | letter {g g' last : Getopt} {c : Char} {fs : List Found} : getopt w argv opts g = pure (charByte c,g') →
      Session w argv opts g' fs last → Session w argv opts g (.letter c g'.optarg::fs) last
  | unknown {g g' last : Getopt} {c : Char} {fs : List Found} :
      getopt w argv opts g = (do complain w argv unknownOption c; pure (charByte '?',g')) → g'.optarg = g.optarg →
      Session w argv opts g' fs last → Session w argv opts g (.unknown c::fs) last
  | missing {g g' last : Getopt} {c : Char} {fs : List Found} :
      getopt w argv opts g = (do complain w argv needsArg c; pure (charByte '?',g')) → g'.optarg = g.optarg →
      Session w argv opts g' fs last → Session w argv opts g (.missing c::fs) last

section
variable {w : World} {argv words : List (List Char)} {opts name word cs fmt : List Char} {c : Char} {g g' : Getopt}
  {i sp : Nat} {f : Found} {fs : List Found} {s s' : Io}

theorem scanUnknown (none_ : declared opts c = none) :
    scan opts (c::cs) words i = reporting (.unknown c) (scan opts cs words i) := by
  cases words <;> rw [scan,none_]

theorem scanPlain (found : declared opts c = some false) :
    scan opts (c::cs) words i = reporting (.letter c none) (scan opts cs words i) := by
  cases words <;> rw [scan,found]

theorem scanRest (found : declared opts c = some true) (some_ : cs ≠ []) :
    scan opts (c::cs) words i = reporting (.letter c (some cs)) (scan opts [] words i) := by
  cases words with
  | nil =>
    rw [scan.eq_5,found]
    exact if_pos some_
  | cons word words =>
    rw [scan.eq_6,found]
    exact if_pos some_

theorem charAtHere (here : argv[i]? = some word) (rest : word.drop sp = c::cs) : charAt argv i sp = pure c := by
  have inside : sp < word.length := by
    by_contra beyond
    rw [List.drop_eq_nil_of_le (Nat.le_of_not_lt beyond)] at rest
    contradiction
  have own : word[sp]? = some c := by
    have first : (word.drop sp)[0]? = word[sp]? := List.getElem?_drop
    rw [← first,rest]
    rfl
  simp [charAt,at_,here,Nat.ne_of_lt inside,own]

theorem charAtNext (here : argv[i]? = some word) (rest : word.drop sp = c::cs) :
    charAt argv i (sp + 1) = pure (cs.headD nul) := by
  have next : word.drop (sp + 1) = cs := by
    rw [← List.drop_drop,rest]
    rfl
  cases cs with
  | cons d more => exact charAtHere here next
  | nil =>
    have size := congrArg List.length rest
    rw [List.length_drop,List.length_singleton] at size
    have last : sp + 1 = word.length := by omega
    simp [charAt,at_,here,last]

theorem strchrNone (real : c ≠ nul) (none_ : declared opts c = none) : (if c = ':' then [] else strchr opts c) = [] := by
  unfold declared at none_
  split at none_
  next colon => exact if_pos colon
  next other =>
    rw [if_neg other,strchr]
    split at none_ <;> try contradiction
    next absent =>
      rw [List.dropWhile_append,absent]
      simp [Ne.symm real]

theorem strchrSome {takes : Bool} (found : declared opts c = some takes) :
    ∃ x cp more, (if c = ':' then [] else strchr opts c) = x::cp::more ∧ (cp = ':' ↔ takes = true) := by
  unfold declared at found
  split at found <;> try contradiction
  next other =>
    rw [if_neg other,strchr]
    split at found <;> try contradiction
    next x more present =>
      cases found
      rw [List.dropWhile_append,present]
      cases more with
      | nil => exact ⟨x,nul,[],rfl,by simp [nul]⟩
      | cons d more => exact ⟨x,d,more ++ [nul],rfl,by simp⟩

theorem complainPuts (plain : nul ∉ name) (more : List (List Char)) (c : Char)
    (known : fmt = unknownOption ∨ fmt = needsArg) :
    ∃ text, complain w (name::more) fmt c = puts w 2 text ∧ (eof ∈ text ↔ eof ∈ name.map charByte ∨ charByte c = eof) := by
  have string : (name ++ [nul]).takeWhile (fun x => !decide (x = nul)) = name := by
    have text : ∀ x ∈ name, (!decide (x = nul)) = true := by
      intro x member
      have real : x ≠ nul := fun same => plain (same ▸ member)
      simp [real]
    rw [List.takeWhile_append_of_pos text]
    simp
  have ends : nul ∈ name ++ [nul] := by simp
  have made : ∀ its, items (pieces fmt) [.str (name ++ [nul]),.int (charByte c)] = some (its,[]) →
      endsOpen fmt = false → nul ∉ fmt → complain w (name::more) fmt c = puts w 2 (its.flatMap Item.printed) := by
    intro its found closed inside
    have run := @mfprintfPuts w 2 fmt [] [] _ its inside found
    rw [closed] at run
    exact run.trans (bind_pure _)
  rcases known with rfl | rfl
  · refine ⟨_,made [.str name,.char ':',.char ' ',.char '-',.charArg (charByte c),.char '?',.char '\n'] ?_
      (by decide) (by decide),?_⟩
    · simp [items,pieces,supplied,unknownOption,ends,string]
    · simp [Item.printed,Item.text,charByte,Vfs.toChar,eof]
      exact or_congr Iff.rfl eq_comm
  · refine ⟨_,made [.str name,.char ':',.char ' ',.char '-',.charArg (charByte c),.char ' ',.char 'n',.char 'e',
      .char 'e',.char 'd',.char 's',.char ' ',.char 'a',.char 'r',.char 'g',.char '\n'] ?_ (by decide) (by decide),?_⟩
    · simp [items,pieces,supplied,needsArg,ends,string]
    · simp [Item.printed,Item.text,charByte,Vfs.toChar,eof]
      exact or_congr Iff.rfl eq_comm

structure Inside (argv : List (List Char)) (g : Getopt) (letters : List Char) (words : List (List Char)) (i : Nat) :
    Prop where
  word : ∃ word, argv[g.optind]? = some word ∧ word.drop g.sp = letters
  sp : 1 ≤ g.sp
  next : g.optind + 1 = i
  rest : argv.drop i = words

structure Stands (argv : List (List Char)) (g : Getopt) (letters : List Char) (words : List (List Char)) (i : Nat) :
    Prop where
  fresh : letters = [] → g.sp = 1 ∧ g.optind = i ∧ argv.drop i = words
  middle : letters ≠ [] → g.sp ≠ 1 ∧ Inside argv g letters words i

theorem standsFresh {optarg : Option (List Char)} (rest : argv.drop i = words) : Stands argv ⟨optarg,i,1⟩ [] words i :=
  ⟨fun _ => ⟨rfl,rfl,rest⟩,fun some_ => absurd rfl some_⟩

theorem advanceStands (inside : Inside argv g (c::cs) words i) (plain : nul ∉ cs) :
    ∃ g', advance argv g = pure g' ∧ g'.optarg = g.optarg ∧ Stands argv g' cs words i := by
  obtain ⟨⟨word,here,rest⟩,low,rfl,words'⟩ := inside
  unfold advance
  rw [charAtNext here rest,pure_bind]
  cases cs with
  | nil => exact ⟨_,if_pos rfl,rfl,standsFresh words'⟩
  | cons d more =>
    have real : d ≠ nul := fun same => plain (same ▸ List.mem_cons_self)
    have next : word.drop (g.sp + 1) = d::more := by
      rw [← List.drop_drop,rest]
      rfl
    refine ⟨_,if_neg real,rfl,⟨fun none_ => by contradiction,fun _ => ⟨?_,⟨word,here,next⟩,?_,rfl,words'⟩⟩⟩
    · change g.sp + 1 ≠ 1
      omega
    · exact Nat.le_succ_of_le low

theorem letterUnknown (inside : Inside argv g (c::cs) words i) (plain : nul ∉ c::cs) (none_ : declared opts c = none) :
    ∃ g', letter w argv opts g = (do complain w argv unknownOption c; pure (charByte '?',g')) ∧
      g'.optarg = g.optarg ∧ Stands argv g' cs words i := by
  obtain ⟨g',moved,same,stands⟩ := advanceStands inside (fun member => plain (List.mem_cons_of_mem _ member))
  obtain ⟨word,here,rest⟩ := inside.word
  have real : c ≠ nul := fun same => plain (same ▸ List.mem_cons_self)
  refine ⟨g',?_,same,stands⟩
  unfold letter
  rw [charAtHere here rest,pure_bind,strchrNone real none_,moved]
  simp only [pure_bind]

theorem letterPlain (inside : Inside argv g (c::cs) words i) (plain : nul ∉ c::cs)
    (found : declared opts c = some false) :
    ∃ g', letter w argv opts g = pure (charByte c,g') ∧ g'.optarg = none ∧ Stands argv g' cs words i := by
  obtain ⟨g',moved,-,stands⟩ := advanceStands inside (fun member => plain (List.mem_cons_of_mem _ member))
  obtain ⟨word,here,rest⟩ := inside.word
  obtain ⟨x,cp,more,string,colon⟩ := strchrSome found
  have other : cp ≠ ':' := fun same => absurd (colon.mp same) (by decide)
  refine ⟨{ g' with optarg := none },?_,rfl,⟨stands.fresh,?_⟩⟩
  · unfold letter
    rw [charAtHere here rest,pure_bind,string]
    simp only [if_neg other,moved,pure_bind]
  · intro some_
    obtain ⟨apart,word,sp,next,rest⟩ := stands.middle some_
    exact ⟨apart,word,sp,next,rest⟩

theorem letterTakes (inside : Inside argv g (c::cs) words i) (plain : nul ∉ cs) (found : declared opts c = some true) :
    letter w argv opts g =
      if cs ≠ [] then pure (charByte c,⟨some cs,i,1⟩)
      else
        match words with
        | [] => do complain w argv needsArg c; pure (charByte '?',⟨g.optarg,i,1⟩)
        | word::_ => pure (charByte c,⟨some word,i + 1,1⟩) := by
  obtain ⟨⟨word,here,rest⟩,low,rfl,words'⟩ := inside
  obtain ⟨x,cp,more,string,colon⟩ := strchrSome found
  unfold letter
  rw [charAtHere here rest,pure_bind,string]
  simp only [if_pos (colon.mpr rfl),charAtNext here rest,pure_bind]
  have whole : (argv.getD g.optind []).drop (g.sp + 1) = cs := by
    rw [List.getD_eq_getElem?_getD,here,Option.getD_some,← List.drop_drop,rest]
    rfl
  cases cs with
  | cons d more' =>
    have real : d ≠ nul := fun same => plain (same ▸ List.mem_cons_self)
    rw [whole]
    exact (if_pos real).trans (if_pos (by simp)).symm
  | nil =>
    have size : (argv.drop (g.optind + 1)).length = argv.length - (g.optind + 1) := List.length_drop
    rw [words'] at size
    refine (if_neg (not_not.mpr rfl)).trans (Eq.trans ?_ (if_neg (not_not.mpr rfl)).symm)
    cases words with
    | nil =>
      rw [List.length_nil] at size
      exact if_pos (by omega)
    | cons word' words =>
      rw [List.length_cons] at size
      have next : argv[g.optind + 1]? = some word' := by
        have first : (argv.drop (g.optind + 1))[0]? = argv[g.optind + 1]? := List.getElem?_drop
        rw [← first,words']
        rfl
      rw [if_neg (by omega),next]

theorem headWord (rest : argv.drop i = word::words) : argv[i]? = some word ∧ argv.drop (i + 1) = words := by
  constructor
  · have first : (argv.drop i)[0]? = argv[i]? := List.getElem?_drop
    rw [← first,rest]
    rfl
  · rw [← List.drop_drop,rest]
    rfl

theorem endsMiddle (apart : g.sp ≠ 1) : ends argv g = pure none := if_neg apart

theorem endsEmpty (fresh : g.sp = 1) (rest : argv.drop g.optind = []) : ends argv g = pure (some g) := by
  unfold ends
  rw [if_pos fresh,if_pos (List.drop_eq_nil_iff.mp rest)]

theorem endsWord (fresh : g.sp = 1) (rest : argv.drop g.optind = word::words) : ends argv g = (do
    if (← charAt argv g.optind 0) ≠ '-' then pure (some g)
    else if (← charAt argv g.optind 1) = nul then pure (some g)
    else if word = ['-','-'] then pure (some { g with optind := g.optind + 1 })
    else pure none) := by
  have inside : ¬ argv.length ≤ g.optind := by
    intro beyond
    rw [List.drop_eq_nil_of_le beyond] at rest
    contradiction
  unfold ends
  rw [if_pos fresh,if_neg inside,(headWord rest).1]
  simp only [Option.some.injEq]

theorem endsDashes (fresh : g.sp = 1) (rest : argv.drop g.optind = ['-','-']::words) :
    ends argv g = pure (some { g with optind := g.optind + 1 }) := by
  have here := (headWord rest).1
  rw [endsWord fresh rest,charAtHere here rfl,charAtNext here rfl]
  rfl

theorem endsOptions (fresh : g.sp = 1) (rest : argv.drop g.optind = ('-'::c::cs)::words) (real : c ≠ nul)
    (other : '-'::c::cs ≠ ['-','-']) : ends argv g = pure none := by
  have here := (headWord rest).1
  rw [endsWord fresh rest,charAtHere here rfl,charAtNext here rfl]
  exact (if_neg real).trans (if_neg other)

theorem endsOperand (fresh : g.sp = 1) (rest : argv.drop g.optind = word::words) (other : ∀ c cs, word ≠ '-'::c::cs) :
    ends argv g = pure (some g) := by
  have here := (headWord rest).1
  rw [endsWord fresh rest]
  match word with
  | [] =>
    have none_ : charAt argv g.optind 0 = pure nul := by simp [charAt,at_,here]
    rw [none_,pure_bind,if_pos (show nul ≠ '-' by decide)]
  | [d] =>
    rw [charAtHere here rfl,charAtNext here rfl,pure_bind,pure_bind]
    by_cases dash : d = '-'
    · rw [if_neg (not_not.mpr dash)]
      exact if_pos rfl
    · exact if_pos dash
  | d::c::cs =>
    rw [charAtHere here rfl]
    have dash : d ≠ '-' := fun same => other c cs (by rw [same])
    exact if_pos dash

/-! All calls -/

def Found.Clean (name : List Char) : Found → Prop
  | .letter c _ => charByte c ≠ eof
  | .unknown c => charByte c ≠ eof ∧ eof ∉ name.map charByte
  | .missing c => charByte c ≠ eof ∧ eof ∉ name.map charByte

def Tells (w : World) (argv : List (List Char)) (opts : List Char) (g : Getopt) (s : Io) (r : List Found × Nat) : Prop :=
  ∃ n g' s', outcome (getoptAll w argv opts n g) s = some (.ok (told g.optarg r.1,g'),s') ∧ g'.optind = r.2

theorem tellsEnd (called : getopt w argv opts g = pure (eof,g')) (s : Io) : Tells w argv opts g s ([],g'.optind) := by
  refine ⟨1,g',s,?_,rfl⟩
  rw [getoptAll,called,pure_bind]
  rfl

theorem tellsNext {v : Int} {last : Nat} (called : outcome (getopt w argv opts g) s = some (.ok (v,g'),s'))
    (real : v ≠ eof) (same : told g.optarg (f::fs) = (v,g'.optarg)::told g'.optarg fs) :
    Tells w argv opts g s (f::fs,last) ↔ Tells w argv opts g' s' (fs,last) := by
  have step : ∀ n, outcome (getoptAll w argv opts (n + 1) g) s =
      outcome (do
        let (more,last) ← getoptAll w argv opts n g'
        pure ((v,g'.optarg)::more,last)) s' := by
    intro n
    rw [getoptAll,bindReturned called]
    exact congrArg (fun p => outcome p s') (if_neg real)
  constructor
  · rintro ⟨n,g'',s'',ran,index⟩
    cases n with
    | zero => cases ran
    | succ n =>
      rw [step,outcomeBind,same] at ran
      split at ran
      next r s1 later =>
        obtain ⟨more,g1⟩ := r
        cases ran
        exact ⟨n,_,_,later,index⟩
      next => cases ran
      next => cases ran
  · rintro ⟨n,g'',s'',ran,index⟩
    refine ⟨n + 1,g'',s'',?_,index⟩
    rw [step,bindReturned ran,same]
    rfl

theorem tellsStopped {last : Nat} (called : outcome (getopt w argv opts g) s = some (.ok (eof,g'),s')) :
    ¬ Tells w argv opts g s (f::fs,last) := by
  rintro ⟨n,g'',s'',ran,-⟩
  cases n with
  | zero => cases ran
  | succ n =>
    rw [getoptAll,bindReturned called] at ran
    cases f <;> cases ran

theorem tellsExited {code : Int} (called : outcome (getopt w argv opts g) s = some (.error code,s'))
    (r : List Found × Nat) : ¬ Tells w argv opts g s r := by
  rintro ⟨n,g'',s'',ran,-⟩
  cases n with
  | zero => cases ran
  | succ n =>
    rw [getoptAll,bindExited called] at ran
    cases ran

structure Reads (w : World) (argv : List (List Char)) (opts : List Char) (g : Getopt) (letters : List Char)
    (words : List (List Char)) (i : Nat) : Prop where
  fresh : letters = [] → g.sp = 1 ∧ g.optind = i ∧ argv.drop i = words
  middle : letters ≠ [] → Inside argv g letters words i ∧ getopt w argv opts g = letter w argv opts g

theorem Stands.reads {letters : List Char} (stands : Stands argv g letters words i) :
    Reads w argv opts g letters words i := by
  refine ⟨stands.fresh,fun some_ => ?_⟩
  obtain ⟨apart,inside⟩ := stands.middle some_
  refine ⟨inside,?_⟩
  rw [getopt,endsMiddle apart]
  rfl

theorem Inside.plain {letters : List Char} (inside : Inside argv g letters words i)
    (strings : ∀ word ∈ argv, nul ∉ word) : nul ∉ letters := by
  obtain ⟨⟨word,here,rest⟩,-⟩ := inside
  intro member
  rw [← rest] at member
  exact strings word (List.mem_of_getElem? here) (List.mem_of_mem_drop member)

theorem complaint {more : List (List Char)} (plain : nul ∉ name) (known : fmt = unknownOption ∨ fmt = needsArg)
    (named : argv = name::more) (called : getopt w argv opts g = (do complain w argv fmt c; pure (charByte '?',g')))
    (refuses : f = .unknown c ∨ f = .missing c) :
    ∃ text, getopt w argv opts g = (do puts w 2 text; pure (charByte '?',g')) ∧ (f.Clean name ↔ eof ∉ text) := by
  obtain ⟨text,written,odd⟩ := complainPuts plain more c known
  rw [named,written,← named] at called
  refine ⟨text,called,?_⟩
  rw [odd,not_or]
  rcases refuses with rfl | rfl <;> exact And.comm

theorem complained {more : List (List Char)} (takes : Takes w 2) (plain : nul ∉ name)
    (known : fmt = unknownOption ∨ fmt = needsArg) (named : argv = name::more)
    (called : getopt w argv opts g = (do complain w argv fmt c; pure (charByte '?',g'))) (same : g'.optarg = g.optarg)
    (refuses : f = .unknown c ∨ f = .missing c) (clean : f.Clean name) (r : List Found × Nat) (s : Io) :
    ∃ s', Tells w argv opts g s (reporting f r) ↔ Tells w argv opts g' s' r := by
  obtain ⟨text,writes,whole⟩ := complaint plain known named called refuses
  have value : told g.optarg (f::r.1) = (charByte '?',g'.optarg)::told g'.optarg r.1 := by
    rw [same]
    rcases refuses with rfl | rfl <;> rfl
  have went : outcome (getopt w argv opts g) s = some (.ok (charByte '?',g'),s.wrote 2 text) := by
    rw [writes,bindReturned (putsTaken takes (whole.mp clean) s)]
    rfl
  exact ⟨s.wrote 2 text,tellsNext went (by decide) value⟩

theorem complaintEnds {more : List (List Char)} (echoes : Echoes w 2) (plain : nul ∉ name)
    (known : fmt = unknownOption ∨ fmt = needsArg) (named : argv = name::more)
    (called : getopt w argv opts g = (do complain w argv fmt c; pure (charByte '?',g')))
    (refuses : f = .unknown c ∨ f = .missing c) (odd : ¬ f.Clean name) (r : List Found × Nat) (s : Io) :
    ¬ Tells w argv opts g s r := by
  obtain ⟨text,writes,whole⟩ := complaint plain known named called refuses
  obtain ⟨out,exited,-⟩ := putsEof echoes (not_not.mp (mt whole.mpr odd)) s
  exact tellsExited (writes ▸ bindExited exited) r

theorem accepted {optarg : Option (List Char)} (called : getopt w argv opts g = pure (charByte c,g'))
    (same : g'.optarg = optarg) (real : charByte c ≠ eof) (r : List Found × Nat) (s : Io) :
    Tells w argv opts g s (reporting (.letter c optarg) r) ↔ Tells w argv opts g' s r := by
  have went : outcome (getopt w argv opts g) s = some (.ok (charByte c,g'),s) := by
    rw [called]
    rfl
  exact tellsNext went real (by rw [same]; rfl)

theorem letterEnds {last : Nat} (called : getopt w argv opts g = pure (charByte c,g')) (odd : charByte c = eof) (s : Io) :
    ¬ Tells w argv opts g s (f::fs,last) := by
  have went : outcome (getopt w argv opts g) s = some (.ok (charByte c,g'),s) := by
    rw [called]
    rfl
  rw [odd] at went
  exact tellsStopped went

theorem scanSession {letters : List Char} (strings : ∀ word ∈ argv, nul ∉ word)
    (reads : Reads w argv opts g letters words i) :
    ∃ last, Session w argv opts g (scan opts letters words i).1 last ∧ last.optind = (scan opts letters words i).2 := by
  induction letters, words, i using scan.induct opts generalizing g with
  | case1 i =>
    obtain ⟨fresh,rfl,rest⟩ := reads.fresh rfl
    rw [scan]
    refine ⟨g,.ended ?_,rfl⟩
    rw [getopt,endsEmpty fresh rest]
    rfl
  | case2 tail i =>
    obtain ⟨fresh,rfl,rest⟩ := reads.fresh rfl
    rw [scan]
    refine ⟨{ g with optind := g.optind + 1 },.ended ?_,rfl⟩
    rw [getopt,endsDashes fresh rest]
    rfl
  | case3 c cs words i other ih =>
    obtain ⟨fresh,rfl,rest⟩ := reads.fresh rfl
    obtain ⟨here,behind⟩ := headWord rest
    have real : c ≠ nul := by
      intro same
      exact strings _ (List.mem_of_getElem? here) (same ▸ List.mem_cons_of_mem _ List.mem_cons_self)
    have apart : '-'::c::cs ≠ ['-','-'] := by
      intro same
      obtain ⟨dash,none_⟩ := List.cons.inj (List.cons.inj same).2
      exact other dash none_
    rw [scan.eq_3 _ _ _ _ _ other]
    refine ih ⟨fun none_ => by contradiction,fun _ => ⟨?_,?_⟩⟩
    · exact ⟨⟨_,here,by rw [fresh]; rfl⟩,Nat.le_of_eq fresh.symm,rfl,behind⟩
    · rw [getopt,endsOptions fresh rest real apart]
      rfl
  | case4 head tail i dashes options =>
    obtain ⟨fresh,rfl,rest⟩ := reads.fresh rfl
    rw [scan.eq_4 _ _ _ _ dashes options]
    refine ⟨g,.ended ?_,rfl⟩
    rw [getopt,endsOperand fresh rest options]
    rfl
  | case5 c cs words i none_ ih =>
    obtain ⟨inside,called⟩ := reads.middle (List.cons_ne_nil _ _)
    obtain ⟨g',goes,same,stands⟩ := letterUnknown inside (inside.plain strings) none_
    obtain ⟨last,more,index⟩ := ih stands.reads
    rw [scanUnknown none_]
    exact ⟨last,.unknown (called.trans goes) same more,index⟩
  | case6 c cs words i found ih =>
    obtain ⟨inside,called⟩ := reads.middle (List.cons_ne_nil _ _)
    obtain ⟨g',goes,same,stands⟩ := letterPlain inside (inside.plain strings) found
    obtain ⟨last,more,index⟩ := ih stands.reads
    rw [scanPlain found,← same]
    exact ⟨last,.letter (called.trans goes) more,index⟩
  | case7 c cs words i found some_ ih =>
    obtain ⟨inside,called⟩ := reads.middle (List.cons_ne_nil _ _)
    have plain := fun member => inside.plain strings (List.mem_cons_of_mem c member)
    rw [letterTakes inside plain found,if_pos some_] at called
    obtain ⟨last,more,index⟩ := ih (standsFresh inside.rest).reads
    rw [scanRest found some_]
    exact ⟨last,.letter called more,index⟩
  | case8 c cs i found none_ =>
    obtain ⟨inside,called⟩ := reads.middle (List.cons_ne_nil _ _)
    have plain := fun member => inside.plain strings (List.mem_cons_of_mem c member)
    rw [letterTakes inside plain found,if_neg none_] at called
    have after : getopt w argv opts ⟨g.optarg,i,1⟩ = pure (eof,⟨g.optarg,i,1⟩) := by
      rw [getopt,endsEmpty rfl inside.rest]
      rfl
    rw [scan,found]
    simp only [if_neg none_]
    exact ⟨_,.missing called rfl (.ended after),rfl⟩
  | case9 c cs i found none_ word tail ih =>
    obtain ⟨inside,called⟩ := reads.middle (List.cons_ne_nil _ _)
    have plain := fun member => inside.plain strings (List.mem_cons_of_mem c member)
    have behind : argv.drop (i + 1) = tail := by rw [← List.drop_drop,inside.rest]; rfl
    rw [letterTakes inside plain found,if_neg none_] at called
    obtain ⟨last,more,index⟩ := ih (standsFresh behind).reads
    rw [scan,found]
    simp only [if_neg none_]
    exact ⟨last,.letter called more,index⟩

theorem initSession (strings : ∀ word ∈ argv, nul ∉ word) :
    ∃ last, Session w argv opts initgetopt (scan opts [] argv.tail 1).1 last ∧ last.optind = (scan opts [] argv.tail 1).2 :=
  scanSession strings (standsFresh List.drop_one).reads

/- Call after call the results are those of the scan, as long as all that is found is clean. -/
theorem sessionTells {more : List (List Char)} {last : Getopt} (takes : Takes w 2) (plain : nul ∉ name)
    (named : argv = name::more) (session : Session w argv opts g fs last) (clean : ∀ f ∈ fs, f.Clean name) (s : Io) :
    Tells w argv opts g s (fs,last.optind) := by
  induction session generalizing s with
  | ended called => exact tellsEnd called s
  | letter called _ ih =>
    obtain ⟨here,others⟩ := List.forall_mem_cons.mp clean
    exact (accepted called rfl here _ s).mpr (ih others s)
  | unknown called same _ ih =>
    obtain ⟨here,others⟩ := List.forall_mem_cons.mp clean
    obtain ⟨s',next⟩ := complained takes plain (.inl rfl) named called same (.inl rfl) here _ s
    exact next.mpr (ih others s')
  | missing called same _ ih =>
    obtain ⟨here,others⟩ := List.forall_mem_cons.mp clean
    obtain ⟨s',next⟩ := complained takes plain (.inr rfl) named called same (.inr rfl) here _ s
    exact next.mpr (ih others s')

/- Where EOF is handed back, they are the scan's only then. -/
theorem sessionClean {more : List (List Char)} {last : Getopt} (echoes : Echoes w 2) (plain : nul ∉ name)
    (named : argv = name::more) (session : Session w argv opts g fs last) (s : Io)
    (tells : Tells w argv opts g s (fs,last.optind)) : ∀ f ∈ fs, f.Clean name := by
  induction session generalizing s with
  | ended called => exact fun f member => absurd member List.not_mem_nil
  | @letter _ _ _ c _ called _ ih =>
    by_cases odd : charByte c = eof
    · exact absurd tells (letterEnds called odd s)
    · exact List.forall_mem_cons.mpr ⟨odd,ih s ((accepted called rfl odd _ s).mp tells)⟩
  | @unknown _ _ _ c _ called same _ ih =>
    by_cases clean : (Found.unknown c).Clean name
    · obtain ⟨s',next⟩ := complained echoes.takes plain (.inl rfl) named called same (.inl rfl) clean _ s
      exact List.forall_mem_cons.mpr ⟨clean,ih s' (next.mp tells)⟩
    · exact absurd tells (complaintEnds echoes plain (.inl rfl) named called (.inl rfl) clean _ s)
  | @missing _ _ _ c _ called same _ ih =>
    by_cases clean : (Found.missing c).Clean name
    · obtain ⟨s',next⟩ := complained echoes.takes plain (.inr rfl) named called same (.inr rfl) clean _ s
      exact List.forall_mem_cons.mpr ⟨clean,ih s' (next.mp tells)⟩
    · exact absurd tells (complaintEnds echoes plain (.inr rfl) named called (.inr rfl) clean _ s)

/-- Called until EOF, getopt tells what the words say, stays inside them and ends at the first
operand, exactly when no letter is taken for EOF and every complaint goes out whole. -/
theorem optionsTold (strings : ∀ word ∈ argv, nul ∉ word) :
    (∀ w s, Takes w 2 → Tells w argv opts initgetopt s (scan opts [] argv.tail 1)) ↔
      ∀ f ∈ (scan opts [] argv.tail 1).1, f.Clean (argv.headD []) := by
  have session : ∀ w, ∃ last, Session w argv opts initgetopt (scan opts [] argv.tail 1).1 last ∧
      scan opts [] argv.tail 1 = ((scan opts [] argv.tail 1).1,last.optind) := by
    intro w
    obtain ⟨last,run,index⟩ := @initSession w argv opts strings
    exact ⟨last,run,Prod.ext rfl index.symm⟩
  cases argv with
  | nil =>
    have none_ : (scan opts [] [] 1).1 = [] := by rw [scan]
    refine ⟨fun _ f member => ?_,fun _ w s _ => ?_⟩
    · rw [List.tail_nil,none_] at member
      contradiction
    · obtain ⟨last,run,both⟩ := session w
      rw [List.tail_nil] at run both ⊢
      rw [none_] at run both
      cases run with
      | ended called => rw [both]; exact tellsEnd called s
  | cons name more =>
    have plain := strings name List.mem_cons_self
    constructor
    · intro all
      obtain ⟨last,run,both⟩ := session echoing
      have tells := all echoing ⟨[],[]⟩ (echoingEchoes 2).takes
      rw [both] at tells
      exact sessionClean (echoingEchoes 2) plain rfl run _ tells
    · intro clean w s takes
      obtain ⟨last,run,both⟩ := session w
      rw [both]
      exact sessionTells takes plain rfl run clean s

end

-- `echo -n hi`
theorem optionsToldEcho : Tells echoing [['e','c','h','o'],['-','n'],['h','i']] ['n'] initgetopt ⟨[],[]⟩
    ([.letter 'n' none],2) := by
  have found : scan ['n'] [] [['-','n'],['h','i']] 1 = ([.letter 'n' none],2) := by
    rw [scan,scanPlain (by decide),scan] <;> simp [reporting]
  have clean : ∀ f ∈ (scan ['n'] [] [['-','n'],['h','i']] 1).1, f.Clean ['e','c','h','o'] := by
    intro f member
    rw [found,List.mem_singleton] at member
    subst member
    exact show charByte 'n' ≠ eof by decide
  have told := (@optionsTold [['e','c','h','o'],['-','n'],['h','i']] ['n'] (by decide)).mpr clean echoing ⟨[],[]⟩
    (echoingEchoes 2).takes
  rwa [List.tail_cons,found] at told

-- The letter 255 is EOF when the complaint about it is written.
theorem oddLetter : ¬ ∀ w s, Takes w 2 → Tells w [['e','c','h','o'],['-',Char.ofNat 255]] ['n'] initgetopt s
    (scan ['n'] [] [['-',Char.ofNat 255]] 1) := by
  intro tells
  have found : scan ['n'] [] [['-',Char.ofNat 255]] 1 = ([.unknown (Char.ofNat 255)],2) := by
    rw [scan,scanUnknown (by decide),scan]
    rfl
    decide
  have called := tells echoing ⟨[],[]⟩ (echoingEchoes 2).takes
  have stopped : ∃ s', outcome (getopt echoing [['e','c','h','o'],['-',Char.ofNat 255]] ['n'] initgetopt)
      ⟨[],[]⟩ = some (.error 0,s') := ⟨_,rfl⟩
  obtain ⟨s',exited⟩ := stopped
  exact tellsExited exited _ called

end Avros.Usr.Options
