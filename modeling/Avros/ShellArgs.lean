import Avros.ShellPipeline

/-! `usr/sh.c`, parse_args(): the text of a job is cut into arguments where it stands, and
args gets a pointer to each. A pointer into the text is an offset. -/
namespace Avros.Pipeline.Args
open Pipeline

def maxArgs : Nat := 8

inductive ParseState where | none | letter | sin | sout
  deriving DecidableEq, Repr

/- The variables of parse_args. args is what stands from the array on; `stores` lists the
indexes at which an argument has been stored. -/
structure Parse where
  text : List Char
  stin : Option Nat
  stout : Option Nat
  args : Nat → Option Nat
  i : Nat
  state : ParseState
  stores : List Nat

-- `switch (*t)`; a caller without stin or stout passes NULL for them.
def parseChar (stin stout : Bool) (p : Parse) (t : Nat) (c : Char) : Parse :=
  let text := p.text.set t nul
  if c = '<' then { p with text := text, state := .sin }
  else if c = '>' then { p with text := text, state := .sout }
  else if c = ' ' ∨ c = '\t' then
    if (p.args p.i).isSome ∧ p.state = .letter then { p with text := text, i := p.i + 1, state := .none }
    else { p with text := text }
  else if c = '\n' ∨ c = '\r' then { p with text := text }
  else if p.state = .none then
    { p with args := Function.update p.args p.i (some t), stores := p.stores ++ [p.i], state := .letter }
  else if p.state = .sin ∧ stin then { p with stin := some t, state := .letter }
  else if p.state = .sout ∧ stout then { p with stout := some t, state := .letter }
  else { p with state := .letter }

-- `while (*t)`: what is written stands behind t.
def parseLoop (stin stout : Bool) : List Char → Nat → Parse → Parse
  | [],_,p => p
  | c::rest,t,p => if c = nul then p else parseLoop stin stout rest (t + 1) (parseChar stin stout p t c)

-- `behind` is what the memory behind the array holds.
def parseArgs (stin stout : Bool) (text : List Char) (behind : Nat → Option Nat) : Parse :=
  parseLoop stin stout text 0 ⟨text,none,none,fun k => if k < maxArgs + 1 then none else behind k,0,.none,[]⟩

/-! The words of a job that are its arguments. -/

def isBlank (c : Char) : Bool := c = ' ' || c = '\t'
def isSign (c : Char) : Bool := c = '<' || c = '>'
def isEol (c : Char) : Bool := c = '\n' || c = '\r'

-- Blanks behind a redirection sign do not end a word.
def joined : Bool → List Char → List Char
  | _,[] => []
  | sign,c::rest => if sign && isBlank c then joined true rest else c::joined (isSign c) rest

def tokens (sign : Bool) (s : List Char) : List (List Char) :=
  (joined sign (s.filter (!isEol ·))).splitOnP isBlank

-- None is taken from the first word on that is a redirection.
def arguments (words : List (List Char)) : List (List Char) :=
  (words.filter (!·.isEmpty)).takeWhile (fun w => !w.head?.any isSign)

def argWords (s : List Char) : List (List Char) := arguments (tokens false s)

/-! Where parse_args is in the text: between words, in a word, behind a redirection sign in
a word, or behind the last argument. -/

inductive Phase where | fresh | word | redirected | dead
  deriving DecidableEq, Repr

def turn (ph : Phase) (c : Char) : Phase × Nat :=
  if isSign c then
    match ph with
    | .fresh | .dead => (.dead,0)
    | .word | .redirected => (.redirected,0)
  else if isBlank c then
    match ph with
    | .fresh | .word => (.fresh,0)
    | .redirected => (.redirected,0)
    | .dead => (.dead,0)
  else if isEol c then (ph,0)
  else
    match ph with
    | .fresh => (.word,1)
    | .word | .redirected => (.word,0)
    | .dead => (.dead,0)

def toCome : Phase → List Char → Nat
  | .fresh,s => (argWords s).length
  | .word,s => (arguments (tokens false s).tail).length
  | .redirected,s => (arguments (tokens true s).tail).length
  | .dead,_ => 0

structure Stands (ph : Phase) (n : Nat) (p : Parse) : Prop where
  stored : ∀ k ∈ p.stores, k < n
  null : ∀ k, n ≤ k → k ≤ maxArgs → p.args k = none
  place : match ph with
    | .fresh => p.state = .none ∧ p.i = n
    | .word => p.state = .letter ∧ p.i + 1 = n ∧ (p.args p.i).isSome
    | .redirected => (p.state = .sin ∨ p.state = .sout) ∧ p.i + 1 = n ∧ (p.args p.i).isSome
    | .dead => p.state ≠ .none ∧ p.i = n

section
variable {ph : Phase} {n t : Nat} {p : Parse} {c : Char} {stin stout sign : Bool} {s rest : List Char}

theorem tokensEol (eol : isEol c = true) : tokens sign (c::rest) = tokens sign rest := by
  simp [tokens,eol]

theorem tokensBlank (eol : isEol c = false) (blank : isBlank c = true) (plain : isSign c = false) :
    tokens false (c::rest) = []::tokens false rest := by
  simp [tokens,eol,joined,blank,plain,List.splitOnP_cons_eq_if_modifyHead]

theorem tokensSkip (eol : isEol c = false) (blank : isBlank c = true) : tokens true (c::rest) = tokens true rest := by
  simp [tokens,eol,joined,blank]

theorem tokensLetter (eol : isEol c = false) (text : isBlank c = false) :
    tokens sign (c::rest) = (tokens (isSign c) rest).modifyHead (c::·) := by
  simp [tokens,eol,joined,text,List.splitOnP_cons_eq_if_modifyHead]

theorem tokensSome (sign : Bool) (s : List Char) : tokens sign s ≠ [] := List.splitOnP_ne_nil _ _

theorem argumentsBlank (words : List (List Char)) : arguments ([]::words) = arguments words := by
  simp [arguments]

theorem argumentsSign (sign : isSign c = true) (w : List Char) (words : List (List Char)) :
    arguments ((c::w)::words) = [] := by
  simp [arguments,sign]

theorem argumentsLetter (letter : isSign c = false) (w : List Char) (words : List (List Char)) :
    arguments ((c::w)::words) = (c::w)::arguments words := by
  simp [arguments,letter]

theorem signText (sign : isSign c = true) : isBlank c = false ∧ isEol c = false := by
  simp only [isSign,Bool.or_eq_true,decide_eq_true_eq] at sign
  rcases sign with rfl | rfl <;> exact ⟨rfl,rfl⟩

theorem eolText (eol : isEol c = true) : isBlank c = false ∧ isSign c = false := by
  simp only [isEol,Bool.or_eq_true,decide_eq_true_eq] at eol
  rcases eol with rfl | rfl <;> exact ⟨rfl,rfl⟩

theorem toComeTurn (ph : Phase) (c : Char) (rest : List Char) :
    toCome ph (c::rest) = (turn ph c).2 + toCome (turn ph c).1 rest := by
  unfold turn
  cases sign : isSign c with
  | true =>
    obtain ⟨blank,eol⟩ := signText sign
    cases ph with
    | fresh =>
      obtain ⟨w,words,same⟩ := List.exists_cons_of_ne_nil (tokensSome true rest)
      simp [toCome,argWords,tokensLetter eol blank,sign,same,argumentsSign sign]
    | word => simp [toCome,tokensLetter eol blank,sign]
    | redirected => simp [toCome,tokensLetter eol blank,sign]
    | dead => rfl
  | false =>
    cases blank : isBlank c with
    | true =>
      have eol : isEol c = false := by
        cases eol : isEol c with
        | false => rfl
        | true => exact absurd blank (by simp [(eolText eol).1])
      cases ph with
      | fresh => simp [toCome,argWords,tokensBlank eol blank sign,argumentsBlank]
      | word => simp [toCome,argWords,tokensBlank eol blank sign]
      | redirected => simp [toCome,tokensSkip eol blank]
      | dead => rfl
    | false =>
      cases eol : isEol c with
      | true => cases ph <;> simp [toCome,argWords,tokensEol eol]
      | false =>
        cases ph with
        | fresh =>
          obtain ⟨w,words,same⟩ := List.exists_cons_of_ne_nil (tokensSome false rest)
          simp [toCome,argWords,tokensLetter eol blank,sign,same,argumentsLetter sign,Nat.add_comm]
        | word => simp [toCome,tokensLetter eol blank,sign]
        | redirected => simp [toCome,tokensLetter eol blank,sign]
        | dead => rfl

structure Same (p q : Parse) : Prop where
  args : q.args = p.args
  i : q.i = p.i
  stores : q.stores = p.stores

variable (stin stout) in
theorem parseSign (sign : isSign c = true) (p : Parse) (t : Nat) :
    Same p (parseChar stin stout p t c) ∧
      ((parseChar stin stout p t c).state = .sin ∨ (parseChar stin stout p t c).state = .sout) := by
  simp only [isSign,Bool.or_eq_true,decide_eq_true_eq] at sign
  rcases sign with rfl | rfl
  · exact ⟨⟨rfl,rfl,rfl⟩,.inl rfl⟩
  · exact ⟨⟨rfl,rfl,rfl⟩,.inr rfl⟩

theorem parseBlank (blank : isBlank c = true) (inside : ¬((p.args p.i).isSome ∧ p.state = .letter)) (t : Nat) :
    parseChar stin stout p t c = { p with text := p.text.set t nul } := by
  simp only [isBlank,Bool.or_eq_true,decide_eq_true_eq] at blank
  rcases blank with rfl | rfl <;> exact if_neg inside

theorem parseEnds (blank : isBlank c = true) (word : (p.args p.i).isSome ∧ p.state = .letter) (t : Nat) :
    parseChar stin stout p t c = { p with text := p.text.set t nul, i := p.i + 1, state := .none } := by
  simp only [isBlank,Bool.or_eq_true,decide_eq_true_eq] at blank
  rcases blank with rfl | rfl <;> exact if_pos word

theorem parseEol (eol : isEol c = true) (p : Parse) (t : Nat) :
    parseChar stin stout p t c = { p with text := p.text.set t nul } := by
  simp only [isEol,Bool.or_eq_true,decide_eq_true_eq] at eol
  rcases eol with rfl | rfl <;> rfl

theorem parseFirst (sign : isSign c = false) (blank : isBlank c = false) (eol : isEol c = false) (fresh : p.state = .none)
    (t : Nat) : parseChar stin stout p t c =
      { p with args := Function.update p.args p.i (some t), stores := p.stores ++ [p.i], state := .letter } := by
  simp only [isSign,isBlank,isEol,Bool.or_eq_false_iff,decide_eq_false_iff_not] at sign blank eol
  simp [parseChar,sign,blank,eol,fresh]

variable (stin stout) in
theorem parseLetter (sign : isSign c = false) (blank : isBlank c = false) (eol : isEol c = false) (begun : p.state ≠ .none)
    (t : Nat) : Same p (parseChar stin stout p t c) ∧ (parseChar stin stout p t c).state = .letter := by
  simp only [isSign,isBlank,isEol,Bool.or_eq_false_iff,decide_eq_false_iff_not] at sign blank eol
  simp only [parseChar,sign,blank,eol,begun,or_self,if_false]
  split
  · exact ⟨⟨rfl,rfl,rfl⟩,rfl⟩
  split <;> exact ⟨⟨rfl,rfl,rfl⟩,rfl⟩

theorem Stands.begins (stands : Stands .fresh n p) (t : Nat) :
    Stands .word (n + 1)
      { p with args := Function.update p.args p.i (some t), stores := p.stores ++ [p.i], state := .letter } := by
  obtain ⟨stored,null,-,here⟩ := stands
  refine ⟨?_,?_,rfl,by simp [here],by simp⟩
  · intro k member
    rcases List.mem_append.mp member with old | last
    · exact Nat.lt_succ_of_lt (stored k old)
    · rw [List.mem_singleton.mp last,here]
      exact Nat.lt_succ_self n
  · intro k behind inside
    have other : k ≠ p.i := by
      rw [here]
      exact Nat.ne_of_gt behind
    exact (Function.update_of_ne other _ _).trans (null k (Nat.le_of_succ_le behind) inside)

variable (stin stout) in
theorem Stands.next (stands : Stands ph n p) (few : n ≤ maxArgs) (t : Nat) (c : Char) :
    Stands (turn ph c).1 (n + (turn ph c).2) (parseChar stin stout p t c) := by
  obtain ⟨stored,null,place⟩ := stands
  have free : p.args n = none := null n (Nat.le_refl n) few
  unfold turn
  cases sign : isSign c with
  | true =>
    obtain ⟨⟨args,i,stores⟩,state⟩ := parseSign stin stout sign p t
    have begun : (parseChar stin stout p t c).state ≠ .none := by rcases state with same | same <;> simp [same]
    cases ph with
    | fresh => exact ⟨stores ▸ stored,args ▸ null,begun,i.trans place.2⟩
    | word => exact ⟨stores ▸ stored,args ▸ null,state,by rw [i,args]; exact place.2⟩
    | redirected => exact ⟨stores ▸ stored,args ▸ null,state,by rw [i,args]; exact place.2⟩
    | dead => exact ⟨stores ▸ stored,args ▸ null,begun,i.trans place.2⟩
  | false =>
    cases blank : isBlank c with
    | true =>
      cases ph with
      | fresh =>
        rw [parseBlank blank (by simp [place.1])]
        exact ⟨stored,null,place⟩
      | word =>
        rw [parseEnds blank ⟨place.2.2,place.1⟩]
        exact ⟨stored,null,rfl,place.2.1⟩
      | redirected =>
        rw [parseBlank blank (by rcases place.1 with same | same <;> simp [same])]
        exact ⟨stored,null,place⟩
      | dead =>
        rw [parseBlank blank (by simp [place.2,free])]
        exact ⟨stored,null,place⟩
    | false =>
      cases eol : isEol c with
      | true =>
        rw [parseEol eol]
        cases ph <;> exact ⟨stored,null,place⟩
      | false =>
        cases ph with
        | fresh =>
          rw [parseFirst sign blank eol place.1]
          exact Stands.begins ⟨stored,null,place⟩ t
        | word =>
          obtain ⟨⟨args,i,stores⟩,state⟩ := parseLetter stin stout sign blank eol
            (by simp [place.1] : p.state ≠ .none) t
          exact ⟨stores ▸ stored,args ▸ null,state,by rw [i,args]; exact place.2⟩
        | redirected =>
          obtain ⟨⟨args,i,stores⟩,state⟩ := parseLetter stin stout sign blank eol
            (by rcases place.1 with same | same <;> simp [same] : p.state ≠ .none) t
          exact ⟨stores ▸ stored,args ▸ null,state,by rw [i,args]; exact place.2⟩
        | dead =>
          obtain ⟨⟨args,i,stores⟩,state⟩ := parseLetter stin stout sign blank eol place.1 t
          exact ⟨stores ▸ stored,args ▸ null,by simp [state],i.trans place.2⟩

theorem turnCounts (ph : Phase) (c : Char) : (turn ph c).2 = 0 ∨
    (turn ph c).2 = 1 ∧ ph = .fresh ∧ isSign c = false ∧ isBlank c = false ∧ isEol c = false := by
  cases sign : isSign c <;> cases blank : isBlank c <;> cases eol : isEol c <;> cases ph <;> simp [turn,sign,blank,eol]

variable (stin stout) in
theorem Stands.stores (stands : Stands ph n p) (t : Nat) (c : Char) :
    (turn ph c).2 = 0 ∨ (turn ph c).2 = 1 ∧ n ∈ (parseChar stin stout p t c).stores := by
  rcases turnCounts ph c with zero | ⟨one,rfl,sign,blank,eol⟩
  · exact .inl zero
  · obtain ⟨fresh,here⟩ := stands.place
    rw [parseFirst sign blank eol fresh]
    exact .inr ⟨one,by simp [here]⟩

theorem storesGrow (p : Parse) (t : Nat) (c : Char) : p.stores <+: (parseChar stin stout p t c).stores := by
  unfold parseChar
  grind

theorem storesKept (s : List Char) (t : Nat) (p : Parse) : p.stores <+: (parseLoop stin stout s t p).stores := by
  induction s generalizing t p with
  | nil => exact List.prefix_refl _
  | cons c rest ih =>
    rw [parseLoop]
    split
    · exact List.prefix_refl _
    · exact (storesGrow p t c).trans (ih (t + 1) _)

def InArray (p : Parse) : Prop := (∀ k ∈ p.stores, k ≤ maxArgs - 1) ∧ p.args maxArgs = none

def ArgsFit (text : List Char) : Prop := ∀ stin stout behind, InArray (parseArgs stin stout text behind)

theorem Stands.ends (stands : Stands ph n p) (few : n ≤ maxArgs) : InArray p ↔ n + toCome ph [] ≤ maxArgs := by
  have none : toCome ph [] = 0 := by cases ph <;> rfl
  rw [none]
  refine ⟨fun _ => few,fun _ => ⟨fun k member => ?_,stands.null maxArgs few (Nat.le_refl _)⟩⟩
  exact Nat.le_sub_one_of_lt (Nat.lt_of_lt_of_le (stands.stored k member) few)

variable (stin stout) in
theorem parseFits (stands : Stands ph n p) (few : n ≤ maxArgs) (t : Nat) (text : List Char) :
    InArray (parseLoop stin stout text t p) ↔ n + toCome ph (cString text) ≤ maxArgs := by
  induction text generalizing ph n p t with
  | nil => exact stands.ends few
  | cons c rest ih =>
    rw [parseLoop]
    by_cases last : c = nul
    · rw [if_pos last,last]
      exact stands.ends few
    have text : cString (c::rest) = c::cString rest := List.takeWhile_cons_of_pos (by simp [last])
    rw [if_neg last,text,toComeTurn,← Nat.add_assoc]
    have next := stands.next stin stout few t c
    rcases stands.stores stin stout t c with zero | ⟨one,member⟩
    · rw [zero] at next ⊢
      exact ih next few (t + 1)
    · rw [one] at next ⊢
      by_cases full : n + 1 ≤ maxArgs
      · exact ih next full (t + 1)
      -- the last place of the array is taken, and nothing clears it again
      have kept : n ∈ (parseLoop stin stout rest (t + 1) (parseChar stin stout p t c)).stores :=
        (storesKept rest (t + 1) _).subset member
      refine ⟨fun inside => ?_,fun small => absurd (Nat.le_of_add_right_le small) full⟩
      have low := inside.1 n kept
      simp only [maxArgs] at few full low
      omega

theorem argsBegin (behind : Nat → Option Nat) (text : List Char) : Stands .fresh 0
    ⟨text,none,none,fun k => if k < maxArgs + 1 then none else behind k,0,.none,[]⟩ := by
  refine ⟨by simp,fun k _ inside => if_pos (Nat.lt_succ_of_le inside),rfl,rfl⟩

/-- parse_args stays inside the array exactly when the text has no more arguments than it has
places. -/
theorem argsInArray (text : List Char) : ArgsFit text ↔ (argWords (cString text)).length ≤ maxArgs := by
  have fits : ∀ stin stout behind, InArray (parseArgs stin stout text behind) ↔
      (argWords (cString text)).length ≤ maxArgs := by
    intro stin stout behind
    have fits := parseFits stin stout (argsBegin behind text) (Nat.zero_le _) 0 text
    rwa [Nat.zero_add] at fits
  exact ⟨fun inside => (fits true true (fun _ => none)).mp (inside _ _ _),fun few _ _ _ => (fits _ _ _).mpr few⟩

end

-- Nine words: the ninth is stored over the pointer that ends the vector.
theorem nineArguments :
    ¬ ArgsFit ['a',' ','b',' ','c',' ','d',' ','e',' ','f',' ','g',' ','h',' ','i',nul] := by
  intro fits
  have ninth : (8 : Nat) ≤ maxArgs - 1 := (fits true true (fun _ => none)).1 8 (by decide +kernel)
  exact absurd ninth (by decide)

end Avros.Pipeline.Args
