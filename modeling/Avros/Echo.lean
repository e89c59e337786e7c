import Mathlib.Algebra.Order.BigOperators.Group.List
import Avros.ProgramOptions

/-! `usr/apps.c`, echo(): the options, and then each operand as a format of its own. -/
namespace Avros.Usr.Echo
open Options Print
open Vfs (eof charByte)
open Vfs.Path (nul)

def operand (w : World) (word : List Char) : Task Unit := do
  mfprintf w 1 (word ++ [nul]) []
  mfputc w 1 (charByte ' ')

def printed (w : World) (words : List (List Char)) (o : Bool) : Task Int := do
  words.forM (operand w)
  if o = false then mfputc w 1 (charByte '\n')
  pure 0

-- `argv[i]`: there is nothing to read behind argv[argc].
def echo (w : World) (argv : List (List Char)) (n : Nat) : Task Int := do
  let (o,g) ← flagged w argv 'n' n initgetopt false
  if argv.length < g.optind then outside else printed w (argv.drop g.optind) o

def spaced (word : List Char) : List Int := word.map charByte ++ [charByte ' ']

def line (words : List (List Char)) (o : Bool) : List Int :=
  words.flatMap spaced ++ if o = false then [charByte '\n'] else []

def found (argv : List (List Char)) : List Found × Nat := scan ['n'] [] argv.tail 1

-- A vector with another option than -n is refused.
def verbatim (argv : List (List Char)) : List Int :=
  if refused (found argv).1 then [] else line (argv.drop (found argv).2) (!(found argv).1.isEmpty)

def Verbatim (argv : List (List Char)) : Prop :=
  ∀ w s, Takes w 1 → Takes w 2 →
    ∃ n end_ s', outcome (echo w argv n) s = some (end_,s') ∧ s'.written 1 = s.written 1 ++ verbatim argv

-- A character that the formatter takes for something else, or the descriptor for EOF.
def Plain (word : List Char) : Prop := '%' ∉ word ∧ eof ∉ word.map charByte
instance (word) : Decidable (Plain word) := by unfold Plain; infer_instance

section
variable {w : World} {argv words : List (List Char)} {word text : List Char} {o : Bool} {s : Io}

theorem optionN : Flag 'n' := ⟨by decide,by decide⟩

theorem scanIndex (opts letters : List Char) (words : List (List Char)) (i : Nat) :
    (scan opts letters words i).2 ≤ i + words.length := by
  fun_induction scan opts letters words i <;> simp_all [reporting] <;> omega

theorem plainFormat (real : nul ∉ text) (plain : '%' ∉ text) (w : World) (fd : Int) :
    mfprintf w fd (text ++ [nul]) [] = puts w fd (text.map charByte) := by
  induction text with
  | nil => exact mfprintfEnd [] []
  | cons c text ih =>
    rw [List.mem_cons,not_or] at real plain
    rw [List.cons_append,mfprintfChar (Ne.symm real.1) (Ne.symm plain.1),ih real.2 plain.2]
    rfl

theorem plainOperand (real : nul ∉ word) (plain : '%' ∉ word) : operand w word = puts w 1 (spaced word) := by
  rw [operand,plainFormat real plain,spaced,putsAppend,putsOne]

theorem convertNone (w : World) (fd : Int) (c : Char) : convert w fd c [] = outside ∨ convert w fd c [] = pure [] := by
  unfold convert
  split
  · exact .inl rfl
  · split
    · exact .inl rfl
    · split
      · exact .inl rfl
      · split
        · exact .inl rfl
        · exact .inr rfl

-- A '%' is never put out itself, and a conversion without its argument does not return.
theorem formatAtMost (real : nul ∉ text) (w : World) (fd : Int) :
    AtMost (mfprintf w fd (text ++ [nul]) []) fd (text.countP (· ≠ '%')) := by
  induction text using pieces.induct with
  | case1 =>
    rw [List.nil_append,mfprintfEnd]
    exact pureAtMost ()
  | case2 =>
    intro s end_ s' ran
    contradiction
  | case3 c other =>
    rw [List.mem_singleton] at real
    rw [List.singleton_append,mfprintfChar (Ne.symm real) other,mfprintfEnd,List.countP_singleton,
      if_pos (by simpa using other)]
    exact bindAtMost (mfputcAtMost w fd _) fun _ => pureAtMost ()
  | case4 d rest ih =>
    have later := ih fun member => real (List.mem_cons_of_mem _ (List.mem_cons_of_mem _ member))
    rw [List.cons_append,List.cons_append,mfprintfPercent]
    rcases convertNone w fd d with stuck | goes
    · rw [stuck,outsideBind]
      exact outsideAtMost _
    · rw [goes,pure_bind]
      refine later.mono ?_
      rw [List.countP_cons,List.countP_cons]
      omega
  | case5 c d rest other ih =>
    rw [List.mem_cons,not_or] at real
    rw [List.cons_append,mfprintfChar (Ne.symm real.1) other,List.countP_cons_of_pos (by simpa using other),Nat.add_comm]
    exact bindAtMost (mfputcAtMost w fd _) fun _ => ih real.2

theorem operandAtMost (real : nul ∉ word) (w : World) : AtMost (operand w word) 1 (word.length + 1) :=
  bindAtMost ((formatAtMost real w 1).mono List.countP_le_length) fun _ => mfputcAtMost w 1 _

theorem spoiltAtMost (echoes : Echoes w 1) (real : nul ∉ word) (spoilt : ¬ Plain word) :
    AtMost (operand w word) 1 word.length := by
  by_cases percent : '%' ∈ word
  · have less : word.countP (· ≠ '%') < word.length := by
      refine Nat.lt_of_le_of_ne List.countP_le_length fun all => ?_
      have other := List.countP_eq_length.mp all '%' percent
      contradiction
    exact (bindAtMost (formatAtMost real w 1) fun _ => mfputcAtMost w 1 _).mono less
  · have odd : eof ∈ word.map charByte := by
      by_contra none_
      exact spoilt ⟨percent,none_⟩
    intro s end_ s' ran
    obtain ⟨out,exited,size⟩ := putsEof echoes odd s
    rw [operand,plainFormat real percent,bindExited exited] at ran
    cases ran
    exact ⟨out,rfl,by rw [List.length_map] at size; exact size⟩

def cost (word : List Char) : Nat := if Plain word then word.length + 1 else word.length

theorem wordsAtMost (echoes : Echoes w 1) (strings : ∀ word ∈ words, nul ∉ word) :
    AtMost (words.forM (operand w)) 1 (words.map cost).sum := by
  induction words with
  | nil => exact pureAtMost ()
  | cons word words ih =>
    obtain ⟨real,others⟩ := List.forall_mem_cons.mp strings
    have first : AtMost (operand w word) 1 (cost word) := by
      unfold cost
      split
      · exact operandAtMost real w
      · next spoilt => exact spoiltAtMost echoes real spoilt
    exact bindAtMost first fun _ => ih others

theorem costLess (spoilt : ∃ word ∈ words, ¬ Plain word) (o : Bool) :
    (words.map cost).sum + (if o = false then 1 else 0) < (line words o).length := by
  have size : (line words o).length = (words.map fun word => word.length + 1).sum + if o = false then 1 else 0 := by
    have each : ∀ word : List Char, (spaced word).length = word.length + 1 := fun word => by simp [spaced]
    rw [line,List.length_append,List.length_flatMap]
    simp only [each]
    cases o <;> rfl
  obtain ⟨word,member,odd⟩ := spoilt
  have less : (words.map cost).sum < (words.map fun word => word.length + 1).sum := by
    refine List.sum_lt_sum _ _ (fun x _ => ?_) ⟨word,member,?_⟩
    · unfold cost
      split <;> omega
    · rw [cost,if_neg odd]
      exact Nat.lt_succ_self _
  omega

theorem printedAtMost (echoes : Echoes w 1) (strings : ∀ word ∈ words, nul ∉ word) (o : Bool) :
    AtMost (printed w words o) 1 ((words.map cost).sum + if o = false then 1 else 0) := by
  refine bindAtMost (wordsAtMost echoes strings) fun _ => ?_
  cases o with
  | true => exact pureAtMost 0
  | false => exact bindAtMost (mfputcAtMost w 1 _) fun _ => pureAtMost 0

theorem wordsPuts (strings : ∀ word ∈ words, nul ∉ word) (plain : ∀ word ∈ words, '%' ∉ word) :
    words.forM (operand w) = puts w 1 (words.flatMap spaced) := by
  induction words with
  | nil => rfl
  | cons word words ih =>
    obtain ⟨real,strings'⟩ := List.forall_mem_cons.mp strings
    obtain ⟨other,plain'⟩ := List.forall_mem_cons.mp plain
    rw [List.flatMap_cons,putsAppend,← ih strings' plain',← plainOperand real other]
    rfl

theorem printedLine (takes : Takes w 1) (strings : ∀ word ∈ words, nul ∉ word) (plain : ∀ word ∈ words, Plain word)
    (o : Bool) (s : Io) : outcome (printed w words o) s = some (.ok 0,s.wrote 1 (line words o)) := by
  have whole : printed w words o = (do puts w 1 (line words o); pure 0) := by
    rw [printed,wordsPuts strings fun word member => (plain word member).1,line,putsAppend,bind_assoc]
    cases o with
    | true => rfl
    | false =>
      have last : puts w 1 [charByte '\n'] = mfputc w 1 (charByte '\n') := putsOne w 1 _
      rw [if_pos rfl,if_pos rfl,last]
  have real : eof ∉ line words o := by
    have each : eof ∉ words.flatMap spaced := by
      intro member
      obtain ⟨word,own,odd⟩ := List.mem_flatMap.mp member
      rcases List.mem_append.mp odd with inside | blank
      · exact (plain word own).2 inside
      · exact absurd (List.mem_singleton.mp blank) (by decide)
    intro member
    rcases List.mem_append.mp member with inside | last
    · exact each inside
    · cases o with
      | true => contradiction
      | false => exact absurd (List.mem_singleton.mp last) (by decide)
  rw [whole,bindReturned (putsTaken takes real s)]
  rfl

theorem echoRuns (strings : ∀ word ∈ argv, nul ∉ word) (taken : refused (found argv).1 = false) (w : World) (n : Nat) :
    echo w argv n =
      if (found argv).1.length < n ∧ (found argv).2 ≤ argv.length then
        printed w (argv.drop (found argv).2) (!(found argv).1.isEmpty)
      else outside := by
  obtain ⟨last,index,loop⟩ := optionsTaken optionN strings taken w
  rw [echo,loop,← found]
  by_cases enough : (found argv).1.length < n
  · rw [if_pos enough,pure_bind]
    change (if argv.length < last.optind then outside else _) = _
    rw [index,← found]
    by_cases inside : (found argv).2 ≤ argv.length
    · rw [if_neg (Nat.not_lt.mpr inside),if_pos ⟨enough,inside⟩]
    · rw [if_pos (Nat.lt_of_not_le inside),if_neg (fun both => inside both.2)]
  · rw [if_neg enough,if_neg (fun both => enough both.1)]
    rfl

/-- echo prints its operands as they are exactly when an option is refused, or no operand has a
'%' or the character 255. -/
theorem echoVerbatim (strings : ∀ word ∈ argv, nul ∉ word) : Verbatim argv ↔
    argv ≠ [] ∧ (refused (found argv).1 = true ∨ ∀ word ∈ argv.drop (found argv).2, Plain word) := by
  have words : ∀ word ∈ argv.drop (found argv).2, nul ∉ word := fun word member => strings word (List.mem_of_mem_drop member)
  cases refuses : refused (found argv).1 with
  | true =>
    have named : argv ≠ [] := by
      rintro rfl
      rw [found,List.tail_nil,scan] at refuses
      contradiction
    refine ⟨fun _ => ⟨named,.inl rfl⟩,fun _ w s takes takes' => ?_⟩
    obtain ⟨n,code,out,exited⟩ := optionsRefused optionN strings refuses w s
    refine ⟨n,.error code,s.wrote 2 out,bindExited exited,?_⟩
    rw [verbatim,if_pos refuses,writtenOther (by decide),List.append_nil]
  | false =>
    rw [or_iff_right (by decide)]
    constructor
    · intro all
      obtain ⟨n,end_,s',ran,text⟩ := all _ ⟨[],[]⟩ (echoingEchoes 1).takes (echoingEchoes 2).takes
      rw [echoRuns strings refuses] at ran
      split at ran <;> try contradiction
      next both =>
        refine ⟨?_,?_⟩
        · rintro rfl
          rw [found,List.tail_nil,scan] at both
          exact absurd both.2 (by decide)
        · by_contra spoilt
          simp only [not_forall,exists_prop] at spoilt
          obtain ⟨out,rfl,size⟩ := printedAtMost (echoingEchoes 1) words _ _ _ _ ran
          rw [writtenWrote,List.append_cancel_left_eq,verbatim,refuses,if_neg (by decide)] at text
          have less := costLess spoilt (!(found argv).1.isEmpty)
          rw [← text] at less
          omega
    · rintro ⟨named,plain⟩ w s takes takes'
      have inside : (found argv).2 ≤ argv.length := by
        have bound := scanIndex ['n'] [] argv.tail 1
        have size := List.length_pos_of_ne_nil named
        rw [List.length_tail] at bound
        unfold found
        omega
      have ran := printedLine takes words plain (!(found argv).1.isEmpty) s
      refine ⟨(found argv).1.length + 1,.ok 0,s.wrote 1 (line (argv.drop (found argv).2) (!(found argv).1.isEmpty)),?_,?_⟩
      · rw [echoRuns strings refuses,if_pos ⟨Nat.lt_succ_self _,inside⟩]
        exact ran
      · rw [writtenWrote,verbatim,refuses,if_neg (by decide)]

end

-- `echo hi`
theorem echoVerbatimHi : Verbatim [['e','c','h','o'],['h','i']] := by
  have none_ : found [['e','c','h','o'],['h','i']] = ([],1) := by
    rw [found,List.tail_cons,scan] <;> simp
  refine (echoVerbatim (by decide)).mpr ⟨by decide,.inr ?_⟩
  rw [none_]
  decide

-- `echo 5%%` loses its last two characters.
theorem percentLost : ¬ Verbatim [['e','c','h','o'],['5','%','%']] := by
  have none_ : found [['e','c','h','o'],['5','%','%']] = ([],1) := by
    rw [found,List.tail_cons,scan] <;> simp
  intro all
  obtain ⟨n,end_,s',ran,text⟩ := all echoing ⟨[],[]⟩ (echoingEchoes 1).takes (echoingEchoes 2).takes
  rw [echoRuns (by decide) (by rw [none_]; rfl),none_] at ran
  rw [verbatim,none_] at text
  split at ran <;> try contradiction
  have done : outcome (printed echoing [['5','%','%']] false) ⟨[],[]⟩ =
      some (.ok 0,Io.wrote ⟨[],[]⟩ 1 [53,32,10]) := rfl
  cases done.symm.trans ran
  exact absurd text (by decide)

end Avros.Usr.Echo
