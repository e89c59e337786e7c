import Mathlib.Data.List.Forall2
import Mathlib.Logic.Relation
import Avros.ShellArgs

/-! What parse_args makes of a job: its arguments, and the files its input and output are
redirected to. -/
namespace Avros.Pipeline.Args
open Pipeline

def isPlain (c : Char) : Bool := !isBlank c && !isSign c

def wordsBefore (s : List Char) : List (List Char) :=
  ((s.takeWhile (!isSign ·)).splitOnP isBlank).filter (!·.isEmpty)

def following (s : List Char) : Option (List Char) :=
  let word := (s.dropWhile isBlank).takeWhile isPlain
  if word = [] then none else some word

-- The word that follows the last of the signs that one follows.
def target (sign : Char) : List Char → Option (List Char)
  | [] => none
  | c::rest => (target sign rest).or (if c = sign then following rest else none)

structure Told where
  args : List (List Char)
  stin : Option (List Char)
  stout : Option (List Char)
  deriving DecidableEq, Repr

def told (s : List Char) : Told := ⟨wordsBefore s,target '<' s,target '>' s⟩

def Holds (text : List Char) (t : Nat) (word : List Char) : Prop :=
  cString (text.drop t) = word ∧ nul ∈ text.drop t

def Denotes (text : List Char) : Option Nat → Option (List Char) → Prop
  | none,none => True
  | some t,some word => Holds text t word
  | _,_ => False

structure Gives (told : Told) (stin stout : Bool) (p : Parse) : Prop where
  args : ∀ k ≤ told.args.length, Denotes p.text (p.args k) told.args[k]?
  stin : Denotes p.text p.stin (if stin then told.stin else none)
  stout : Denotes p.text p.stout (if stout then told.stout else none)

def ParsedAs (told : Told) (s : List Char) : Prop :=
  ∀ stin stout more behind, Gives told stin stout (parseArgs stin stout (s ++ nul::more) behind)

structure JobLine (s : List Char) : Prop where
  noNul : nul ∉ s
  oneLine : ∀ c ∈ s, isEol c = false
  few : (wordsBefore s).length ≤ maxArgs

-- A blank more or less beside a redirection sign.
inductive Beside : List Char → List Char → Prop where
  | before {sign blank : Char} (isSign : isSign sign = true) (isBlank : isBlank blank = true) (s : List Char) :
      Beside (sign::s) (blank::sign::s)
  | behind {sign blank : Char} (isSign : isSign sign = true) (isBlank : isBlank blank = true) (s : List Char) :
      Beside (sign::s) (sign::blank::s)
  | further (c : Char) {s s' : List Char} (beside : Beside s s') : Beside (c::s) (c::s')

def Respaced : List Char → List Char → Prop := Relation.EqvGen Beside

/- A blank or nothing stands before the first redirection sign, or behind the word that begins
with it no word comes next that is not a redirection itself. -/
def Apart (s : List Char) : Bool :=
  isBlank ((s.takeWhile (!isSign ·)).getLastD ' ') ||
    (arguments (tokens false (s.dropWhile (!isSign ·))).tail).isEmpty

section
variable {ph : Phase} {n t : Nat} {p : Parse} {c sign : Char} {stin stout : Bool} {s s' rest more : List Char}

def storedAt : Phase → Nat → List Char → List Nat
  | _,_,[] => []
  | ph,t,c::rest =>
    if (turn ph c).2 = 1 then t::storedAt (turn ph c).1 (t + 1) rest else storedAt (turn ph c).1 (t + 1) rest

theorem storedLength (ph : Phase) (t : Nat) (s : List Char) : (storedAt ph t s).length = toCome ph s := by
  induction s generalizing ph t with
  | nil => cases ph <;> rfl
  | cons c rest ih =>
    rw [toComeTurn,storedAt]
    rcases turnCounts ph c with zero | ⟨one,-⟩
    · simp [zero,ih]
    · simp [one,ih,Nat.add_comm]

def Past (p : Parse) : Prop := maxArgs < p.i ∨ p.i = maxArgs ∧ p.state ≠ .none

theorem argsChar (stin stout : Bool) (p : Parse) (t : Nat) (c : Char) :
    (parseChar stin stout p t c).args = p.args ∨
      p.state = .none ∧ isSign c = false ∧ isBlank c = false ∧ isEol c = false ∧
        (parseChar stin stout p t c).args = Function.update p.args p.i (some t) := by
  by_cases plain : p.state = .none ∧ isSign c = false ∧ isBlank c = false ∧ isEol c = false
  · obtain ⟨fresh,sign,blank,eol⟩ := plain
    exact .inr ⟨fresh,sign,blank,eol,by rw [parseFirst sign blank eol fresh]⟩
  left
  unfold isSign isBlank isEol at plain
  unfold parseChar
  grind

variable (stin stout) in
theorem Past.next (past : Past p) (t : Nat) (c : Char) : Past (parseChar stin stout p t c) ∧
    ∀ k ≤ maxArgs, (parseChar stin stout p t c).args k = p.args k := by
  unfold Past at past ⊢
  constructor
  · unfold parseChar
    grind
  · intro k inside
    rcases argsChar stin stout p t c with same | ⟨fresh,-,-,-,stored⟩
    · rw [same]
    have beyond : k ≠ p.i := by
      rcases past with beyond | ⟨-,begun⟩
      · omega
      · exact absurd fresh begun
    rw [stored,Function.update_of_ne beyond]

theorem Past.kept (past : Past p) (t : Nat) (s : List Char) :
    ∀ k ≤ maxArgs, (parseLoop stin stout s t p).args k = p.args k := by
  induction s generalizing t p with
  | nil => exact fun _ _ => rfl
  | cons c rest ih =>
    intro k inside
    rw [parseLoop]
    split
    · rfl
    obtain ⟨next,same⟩ := past.next stin stout t c
    exact (ih next (t + 1) k inside).trans (same k inside)

variable (stin stout) in
theorem argsSame (stands : Stands ph n p) (quiet : (turn ph c).2 = 0) (t : Nat) :
    (parseChar stin stout p t c).args = p.args := by
  rcases argsChar stin stout p t c with same | ⟨fresh,sign,blank,eol,-⟩
  · exact same
  have place := stands.place
  cases ph with
  | fresh => simp [turn,sign,blank,eol] at quiet
  | word => simp [fresh] at place
  | redirected => simp [fresh] at place
  | dead => exact absurd fresh place.1

variable (stin stout) in
theorem argsStored (stands : Stands ph n p) {done : List Nat} (count : done.length = n) (few : n ≤ maxArgs)
    (order : ∀ k ≤ maxArgs, p.args k = done[k]?) (t : Nat) (noNul : nul ∉ s) (more : List Char) :
    ∀ k ≤ maxArgs, (parseLoop stin stout (s ++ nul::more) t p).args k = (done ++ storedAt ph t s)[k]? := by
  induction s generalizing ph n p done t with
  | nil => simpa [parseLoop,storedAt] using order
  | cons c rest ih =>
    have other := List.ne_of_not_mem_cons noNul
    replace noNul := List.not_mem_of_not_mem_cons noNul
    have next := stands.next stin stout few t c
    rw [List.cons_append,parseLoop,if_neg (Ne.symm other),storedAt]
    rcases turnCounts ph c with zero | ⟨one,rfl,sign,blank,eol⟩
    · rw [if_neg (by simp [zero])]
      rw [zero] at next
      exact ih next count few (by rwa [argsSame stin stout stands zero t]) (t + 1) noNul
    · rw [if_pos one]
      obtain ⟨fresh,here⟩ := stands.place
      have stored : parseChar stin stout p t c = _ := parseFirst sign blank eol fresh t
      rw [one] at next
      have order : ∀ k ≤ maxArgs, (parseChar stin stout p t c).args k = (done ++ [t])[k]? := by
        intro k inside
        simp only [stored,Function.update_apply,here,← count,order k inside]
        grind
      rw [List.append_cons done t]
      by_cases full : n + 1 ≤ maxArgs
      · exact ih next (by simp [count]) full order (t + 1) noNul
      -- the array is full, and its last pointer is one of them
      have past : Past (parseChar stin stout p t c) := by
        rw [stored]
        exact .inr ⟨here.trans (by omega),by simp⟩
      intro k inside
      rw [past.kept (t + 1) _ k inside,List.getElem?_append_left (by grind)]
      exact order k inside

/-! The words before the first redirection sign -/

def wordsLater (s : List Char) : List (List Char) :=
  ((s.takeWhile (!isSign ·)).splitOnP isBlank).tail.filter (!·.isEmpty)

theorem wordsSign (sign : isSign c = true) (rest : List Char) :
    wordsBefore (c::rest) = [] ∧ wordsLater (c::rest) = [] := by
  simp [wordsBefore,wordsLater,sign]

theorem wordsBlank (blank : isBlank c = true) (plain : isSign c = false) (rest : List Char) :
    wordsBefore (c::rest) = wordsBefore rest ∧ wordsLater (c::rest) = wordsBefore rest := by
  simp [wordsBefore,wordsLater,plain,blank,List.splitOnP_cons_eq_if_modifyHead]

theorem wordGoesOn (s : List Char) :
    ∃ words, (s.takeWhile (!isSign ·)).splitOnP isBlank = s.takeWhile isPlain::words := by
  induction s with
  | nil => exact ⟨[],rfl⟩
  | cons c rest ih =>
    obtain ⟨words,same⟩ := ih
    cases sign : isSign c with
    | true => exact ⟨[],by simp [isPlain,sign]⟩
    | false =>
      cases blank : isBlank c with
      | true => exact ⟨_,by simp [isPlain,sign,blank,List.splitOnP_cons_eq_if_modifyHead]; rfl⟩
      | false => exact ⟨words,by simp [isPlain,sign,blank,List.splitOnP_cons_eq_if_modifyHead,same]⟩

theorem wordsLetter (sign : isSign c = false) (blank : isBlank c = false) (rest : List Char) :
    wordsBefore (c::rest) = (c::rest.takeWhile isPlain)::wordsLater rest ∧
      wordsLater (c::rest) = wordsLater rest := by
  obtain ⟨words,same⟩ := wordGoesOn rest
  simp [wordsBefore,wordsLater,sign,blank,List.splitOnP_cons_eq_if_modifyHead,same]

def wordsAt : Bool → Nat → List Char → List Nat
  | _,_,[] => []
  | inside,t,c::rest =>
    if isSign c then []
    else if isBlank c then wordsAt false (t + 1) rest
    else if inside then wordsAt true (t + 1) rest
    else t::wordsAt true (t + 1) rest

theorem storedDead (t : Nat) (s : List Char) : storedAt .dead t s = [] :=
  List.length_eq_zero_iff.mp (storedLength .dead t s)

/- Those are the arguments stored first. The others are those behind a redirection that has
begun inside a word; `prev` stands before the text. -/
theorem storedBefore (prev : Char) (t : Nat) (oneLine : ∀ c ∈ s, isEol c = false) :
    ∃ extra, storedAt (if isBlank prev then .fresh else .word) t s = wordsAt (!isBlank prev) t s ++ extra ∧
      (extra = [] ↔ isBlank ((s.takeWhile (!isSign ·)).getLastD prev) = true ∨
        arguments (tokens false (s.dropWhile (!isSign ·))).tail = []) := by
  induction s generalizing prev t with
  | nil => exact ⟨[],rfl,by simp [tokens,joined,arguments]⟩
  | cons c rest ih =>
    obtain ⟨eol,oneLine⟩ := List.forall_mem_cons.mp oneLine
    cases sign : isSign c with
    | true =>
      have text := (signText sign).1
      cases before : isBlank prev with
      | true => exact ⟨[],by simp [storedAt,wordsAt,turn,sign,storedDead],by simp [sign,before]⟩
      | false =>
        refine ⟨storedAt .redirected (t + 1) rest,by simp [storedAt,wordsAt,turn,sign],?_⟩
        rw [← List.length_eq_zero_iff,storedLength]
        simp [sign,before,tokensLetter eol text,toCome]
    | false =>
      obtain ⟨extra,same,none⟩ := ih c (t + 1) oneLine
      refine ⟨extra,?_,?_⟩
      · cases blank : isBlank c <;> cases before : isBlank prev <;>
          simpa [storedAt,wordsAt,turn,sign,blank,eol] using same
      · simpa only [List.takeWhile_cons,List.dropWhile_cons,sign,Bool.not_false,if_true,List.getLastD_cons] using none

def blanked (c : Char) : Char := if isBlank c || isSign c then nul else c

theorem parseText (p : Parse) (t : Nat) (eol : isEol c = false) :
    (parseChar stin stout p t c).text = if isPlain c then p.text else p.text.set t nul := by
  unfold isEol at eol
  unfold parseChar isPlain isBlank isSign
  grind

theorem textLeft (before : List Char) (count : before.length = t) (text : p.text = before ++ s ++ nul::more)
    (noNul : nul ∉ s) (oneLine : ∀ c ∈ s, isEol c = false) :
    (parseLoop stin stout (s ++ nul::more) t p).text = before ++ s.map blanked ++ nul::more := by
  induction s generalizing before t p with
  | nil => simpa [parseLoop] using text
  | cons c rest ih =>
    have other := List.ne_of_not_mem_cons noNul
    replace noNul := List.not_mem_of_not_mem_cons noNul
    obtain ⟨eol,oneLine⟩ := List.forall_mem_cons.mp oneLine
    rw [List.cons_append,parseLoop,if_neg (Ne.symm other)]
    have next : (parseChar stin stout p t c).text = (before ++ [blanked c]) ++ rest ++ nul::more := by
      rw [parseText p t eol,text,← count]
      cases plain : isPlain c <;> simp_all [isPlain,blanked]
    rw [ih (before ++ [blanked c]) (by simp [count]) next noNul oneLine]
    simp

theorem blankedWord (noNul : nul ∉ s) (more : List Char) :
    cString (s.map blanked ++ nul::more) = s.takeWhile isPlain := by
  induction s with
  | nil => rfl
  | cons c rest ih =>
    have other := List.ne_of_not_mem_cons noNul
    replace noNul := List.not_mem_of_not_mem_cons noNul
    have ih := ih noNul
    unfold cString at ih ⊢
    cases plain : isPlain c <;> simp_all [isPlain,blanked,Ne.symm other]

theorem holdsHere {text before : List Char} (same : text = before ++ (c::rest).map blanked ++ nul::more)
    (count : before.length = t) (noNul : nul ∉ c::rest) (plain : isPlain c = true) :
    Holds text t (c::rest.takeWhile isPlain) := by
  have behind : text.drop t = (c::rest).map blanked ++ nul::more := by
    rw [same,← count,List.append_assoc,List.drop_left]
  refine ⟨?_,by simp [behind]⟩
  rw [behind,blankedWord noNul,List.takeWhile_cons_of_pos plain]

theorem blankedFurther {text before : List Char} (same : text = before ++ (c::rest).map blanked ++ nul::more) :
    text = (before ++ [blanked c]) ++ rest.map blanked ++ nul::more := by
  simp [same]

theorem wordsHeld {text : List Char} (before : List Char) (same : text = before ++ s.map blanked ++ nul::more)
    (count : before.length = t) (noNul : nul ∉ s) :
    List.Forall₂ (Holds text) (wordsAt false t s) (wordsBefore s) ∧
      List.Forall₂ (Holds text) (wordsAt true t s) (wordsLater s) := by
  induction s generalizing before t with
  | nil => exact ⟨.nil,.nil⟩
  | cons c rest ih =>
    obtain ⟨fresh,inside⟩ := ih (before ++ [blanked c]) (blankedFurther same) (t := t + 1) (by simp [count])
      (List.not_mem_of_not_mem_cons noNul)
    cases sign : isSign c with
    | true => simp [wordsAt,wordsSign sign rest,sign]
    | false =>
      cases blank : isBlank c with
      | true =>
        rw [(wordsBlank blank sign rest).1,(wordsBlank blank sign rest).2]
        simpa [wordsAt,sign,blank] using fresh
      | false =>
        rw [(wordsLetter sign blank rest).1,(wordsLetter sign blank rest).2]
        simp only [wordsAt,sign,blank,Bool.false_eq_true,if_false,if_true]
        exact ⟨.cons (holdsHere same count noNul (by simp [isPlain,sign,blank])) inside,inside⟩

/-! The files of the redirections -/

-- Where the word begins that the last sign is followed by; one may still be to come for a sign before.
def targetAt (sign : Char) : Bool → Nat → List Char → Option Nat
  | _,_,[] => none
  | pending,t,c::rest =>
    if isSign c then targetAt sign (c = sign) (t + 1) rest
    else if isBlank c then targetAt sign pending (t + 1) rest
    else (targetAt sign false (t + 1) rest).or (if pending then some t else none)

theorem Denotes.or {text : List Char} {a b : Option Nat} {v w : Option (List Char)} (first : Denotes text a v)
    (second : Denotes text b w) : Denotes text (a.or b) (v.or w) := by
  cases a with
  | none =>
    cases v with
    | none => exact second
    | some v => exact first.elim
  | some a =>
    cases v with
    | none => exact first.elim
    | some v => exact first

theorem followingSign (sign : isSign c = true) (rest : List Char) : following (c::rest) = none := by
  simp [following,isPlain,sign,(signText sign).1]

theorem followingBlank (blank : isBlank c = true) (rest : List Char) : following (c::rest) = following rest := by
  simp [following,blank]

theorem followingLetter (sign : isSign c = false) (blank : isBlank c = false) (rest : List Char) :
    following (c::rest) = some (c::rest.takeWhile isPlain) := by
  simp [following,isPlain,sign,blank]

theorem blankText (blank : isBlank c = true) : isSign c = false := by
  cases sign : isSign c with
  | false => rfl
  | true => exact absurd blank (by simp [(signText sign).1])

theorem notSign (known : isSign sign = true) (plain : isSign c = false) : c ≠ sign := by
  rintro rfl
  rw [known] at plain
  contradiction

theorem targetOther (other : c ≠ sign) (rest : List Char) : target sign (c::rest) = target sign rest := by
  simp [target,other]

theorem targetHeld {text : List Char} (known : isSign sign = true) (before : List Char)
    (same : text = before ++ s.map blanked ++ nul::more) (count : before.length = t) (noNul : nul ∉ s) (pending : Bool) :
    Denotes text (targetAt sign pending t s) ((target sign s).or (if pending then following s else none)) := by
  induction s generalizing before t pending with
  | nil => cases pending <;> trivial
  | cons c rest ih =>
    have ih := ih (before ++ [blanked c]) (blankedFurther same) (t := t + 1) (by simp [count])
      (List.not_mem_of_not_mem_cons noNul)
    cases plain : isSign c with
    | true =>
      simpa [targetAt,plain,target,followingSign plain] using ih (c = sign)
    | false =>
      rw [targetOther (notSign known plain)]
      cases blank : isBlank c with
      | true => simpa [targetAt,plain,blank,followingBlank blank] using ih pending
      | false =>
        simp only [targetAt,plain,blank,Bool.false_eq_true,if_false,followingLetter plain blank]
        refine .or (by simpa using ih false) ?_
        cases pending with
        | true => exact holdsHere same count noNul (by simp [isPlain,plain,blank])
        | false => trivial

theorem targetFound (found : Parse → Option Nat) (here : ParseState) (wanted : Bool)
    (set : ∀ p t c, isEol c = false → found (parseChar stin stout p t c) =
      if isPlain c = true ∧ p.state = here ∧ wanted = true then some t else found p)
    (state : ∀ p t c, isEol c = false →
      ((parseChar stin stout p t c).state = here ↔ c = sign ∨ isBlank c = true ∧ p.state = here))
    (known : isSign sign = true) (noNul : nul ∉ s) (oneLine : ∀ c ∈ s, isEol c = false) (p : Parse) (t : Nat) :
    found (parseLoop stin stout (s ++ nul::more) t p) =
      if wanted then (targetAt sign (p.state = here) t s).or (found p) else found p := by
  induction s generalizing p t with
  | nil => cases wanted <;> rfl
  | cons c rest ih =>
    have other := List.ne_of_not_mem_cons noNul
    replace noNul := List.not_mem_of_not_mem_cons noNul
    obtain ⟨eol,oneLine⟩ := List.forall_mem_cons.mp oneLine
    rw [List.cons_append,parseLoop,if_neg (Ne.symm other),ih noNul oneLine,set p t c eol,targetAt]
    simp only [state p t c eol]
    cases plain : isSign c with
    | true => simp [isPlain,plain,(signText plain).1]
    | false =>
      have unsigned := notSign known plain
      cases blank : isBlank c with
      | true => simp [isPlain,blank,unsigned]
      | false => by_cases awaited : p.state = here <;> cases wanted <;> simp [isPlain,plain,blank,unsigned,awaited]

theorem stinChar (p : Parse) (t : Nat) (c : Char) (eol : isEol c = false) : (parseChar stin stout p t c).stin =
    if isPlain c = true ∧ p.state = .sin ∧ stin = true then some t else p.stin := by
  unfold isEol at eol
  unfold parseChar isPlain isBlank isSign
  grind

theorem stoutChar (p : Parse) (t : Nat) (c : Char) (eol : isEol c = false) : (parseChar stin stout p t c).stout =
    if isPlain c = true ∧ p.state = .sout ∧ stout = true then some t else p.stout := by
  unfold isEol at eol
  unfold parseChar isPlain isBlank isSign
  grind

theorem stateChar {here : ParseState} (known : here = .sin ∧ sign = '<' ∨ here = .sout ∧ sign = '>') (p : Parse) (t : Nat)
    (c : Char) (eol : isEol c = false) :
    (parseChar stin stout p t c).state = here ↔ c = sign ∨ isBlank c = true ∧ p.state = here := by
  unfold isEol at eol
  unfold parseChar isBlank
  grind

/-! Blanks beside a redirection sign -/

structure Alike (s s' : List Char) : Prop where
  here : s.takeWhile isPlain = s'.takeWhile isPlain
  before : wordsBefore s = wordsBefore s'
  later : wordsLater s = wordsLater s'
  next : following s = following s'
  file : ∀ sign, isSign sign = true → target sign s = target sign s'

theorem Alike.further (alike : Alike s s') (c : Char) : Alike (c::s) (c::s') := by
  have file : ∀ sign, isSign sign = true → target sign (c::s) = target sign (c::s') := by
    intro sign known
    simp only [target,alike.file sign known,alike.next]
  cases sign : isSign c with
  | true =>
    obtain ⟨before,later⟩ := wordsSign sign s
    obtain ⟨before',later'⟩ := wordsSign sign s'
    refine ⟨by simp [isPlain,sign],before.trans before'.symm,later.trans later'.symm,?_,file⟩
    rw [followingSign sign,followingSign sign]
  | false =>
    cases blank : isBlank c with
    | true =>
      obtain ⟨before,later⟩ := wordsBlank blank sign s
      obtain ⟨before',later'⟩ := wordsBlank blank sign s'
      refine ⟨by simp [isPlain,blank],by rw [before,before',alike.before],by rw [later,later',alike.before],?_,file⟩
      rw [followingBlank blank,followingBlank blank,alike.next]
    | false =>
      obtain ⟨before,later⟩ := wordsLetter sign blank s
      obtain ⟨before',later'⟩ := wordsLetter sign blank s'
      refine ⟨by simp [isPlain,sign,blank,alike.here],by rw [before,before',alike.here,alike.later],
        by rw [later,later',alike.later],?_,file⟩
      rw [followingLetter sign blank,followingLetter sign blank,alike.here]

theorem Beside.alike (beside : Beside s s') : Alike s s' := by
  induction beside with
  | before known blank s =>
    rename_i sign space
    obtain ⟨before,later⟩ := wordsSign known s
    obtain ⟨before',later'⟩ := wordsBlank blank (blankText blank) (sign::s)
    refine ⟨by simp [isPlain,known,blank],before'.symm,by rw [later',later,before],(followingBlank blank _).symm,?_⟩
    intro other found
    exact (targetOther (notSign found (blankText blank)) _).symm
  | behind known blank s =>
    rename_i sign space
    obtain ⟨before,later⟩ := wordsSign known s
    obtain ⟨before',later'⟩ := wordsSign known (space::s)
    refine ⟨by simp [isPlain,known],before.trans before'.symm,later.trans later'.symm,?_,?_⟩
    · rw [followingSign known,followingSign known]
    intro other found
    rw [target,target,targetOther (notSign found (blankText blank)),followingBlank blank]
  | further c beside ih => exact ih.further c

theorem respacedTold (respaced : Respaced s s') : told s = told s' := by
  induction respaced with
  | rel s s' beside =>
    obtain ⟨-,before,-,-,file⟩ := beside.alike
    rw [told,told,before,file '<' rfl,file '>' rfl]
  | refl s => rfl
  | symm s s' _ ih => exact ih.symm
  | trans s s' s'' _ _ first second => exact first.trans second

theorem denotesHeld {text : List Char} {places : List Nat} {words : List (List Char)}
    (held : List.Forall₂ (Holds text) places words) (k : Nat) : Denotes text places[k]? words[k]? := by
  induction held generalizing k with
  | nil => trivial
  | cons first rest ih =>
    cases k with
    | zero => exact first
    | succ k => exact ih k

theorem fileGiven {text : List Char} (known : isSign sign = true) (line : JobLine s)
    (same : text = [] ++ s.map blanked ++ nul::more) (wanted : Bool) {found : Option Nat}
    (place : found = if wanted then (targetAt sign false 0 s).or none else none) :
    Denotes text found (if wanted then target sign s else none) := by
  rw [place]
  cases wanted with
  | true => simpa using targetHeld known [] same rfl line.noNul false
  | false => trivial

theorem argsGiven {text : List Char} (line : JobLine s) (same : text = [] ++ s.map blanked ++ nul::more)
    {args : Nat → Option Nat} (places : ∀ k ≤ maxArgs, args k = (storedAt .fresh 0 s)[k]?) :
    (∀ k ≤ (wordsBefore s).length, Denotes text (args k) (wordsBefore s)[k]?) ↔ Apart s = true := by
  have held := (wordsHeld [] same rfl line.noNul).1
  obtain ⟨extra,stored,none⟩ := storedBefore ' ' 0 line.oneLine
  have count : (wordsAt false 0 s).length = (wordsBefore s).length := held.length_eq
  replace stored : storedAt .fresh 0 s = wordsAt false 0 s ++ extra := stored
  have apart : Apart s = true ↔ extra = [] := by simp [none,Apart]
  rw [apart]
  constructor
  · intro given
    -- an argument too many stands where the vector should end
    cases extra with
    | nil => rfl
    | cons more extra =>
      have last := given _ (Nat.le_refl _)
      rw [places _ line.few,stored,List.getElem?_append_right (Nat.le_of_eq count)] at last
      simp [count,Denotes] at last
  · rintro rfl k inside
    rw [places k (Nat.le_trans inside line.few),stored,List.append_nil]
    exact denotesHeld held k

/-- parse_args makes of a job, and of any other way to write it with blanks beside its signs,
what the job says, exactly if behind a redirection that touches a word no word comes next. -/
theorem redirectionsParsed (line : JobLine s) (respaced : Respaced s' s) :
    ParsedAs (told s') s ↔ Apart s = true := by
  rw [respacedTold respaced]
  have text : ∀ stin stout more behind, (parseArgs stin stout (s ++ nul::more) behind).text =
      [] ++ s.map blanked ++ nul::more :=
    fun stin stout more behind => textLeft [] rfl rfl line.noNul line.oneLine
  have args : ∀ stin stout more behind, ∀ k ≤ maxArgs, (parseArgs stin stout (s ++ nul::more) behind).args k =
      (storedAt .fresh 0 s)[k]? := by
    intro stin stout more behind
    have begins : ∀ k ≤ maxArgs, (if k < maxArgs + 1 then none else behind k) = ([] : List Nat)[k]? :=
      fun k inside => if_pos (Nat.lt_succ_of_le inside)
    exact argsStored stin stout (argsBegin behind _) rfl (Nat.zero_le _) begins 0 line.noNul more
  constructor
  · intro parsed
    exact (argsGiven line (text false false [] _) (args false false [] _)).mp (parsed false false [] (fun _ => none)).args
  · intro apart stin stout more behind
    refine ⟨(argsGiven line (text stin stout more behind) (args stin stout more behind)).mpr apart,?_,?_⟩
    · exact fileGiven rfl line (text stin stout more behind) stin
        (targetFound Parse.stin .sin stin stinChar (stateChar (.inl ⟨rfl,rfl⟩)) rfl line.noNul line.oneLine _ 0)
    · exact fileGiven rfl line (text stin stout more behind) stout
        (targetFound Parse.stout .sout stout stoutChar (stateChar (.inr ⟨rfl,rfl⟩)) rfl line.noNul line.oneLine _ 0)

-- "a<f" for "a < f"
theorem redirectionsParsedNone : ParsedAs (told ['a',' ','<',' ','f']) ['a','<','f'] ↔ Apart ['a','<','f'] = true := by
  have behind : Beside ['<','f'] ['<',' ','f'] := .behind rfl rfl ['f']
  have before : Beside ['<',' ','f'] [' ','<',' ','f'] := .before rfl rfl [' ','f']
  refine redirectionsParsed ⟨by decide,by simp [isEol],by decide +kernel⟩ ?_
  exact .trans _ _ _ (.symm _ _ (.rel _ _ (before.further 'a'))) (.symm _ _ (.rel _ _ (behind.further 'a')))

-- "a<f b": the word behind the file is taken for an argument.
theorem wordBehindFile : ¬ ∀ s, JobLine s → ParsedAs (told s) s := by
  intro parsed
  have given := parsed ['a','<','f',' ','b'] ⟨by decide,by simp [isEol],by decide +kernel⟩ true true [] (fun _ => none)
  exact given.args 1 (by decide +kernel)

end

end Avros.Pipeline.Args
