import Avros.VfsPath

/-! open() of `servers/vfs.c`, the library call: it cuts the name at its first '/' where the
name stands, and both parts go through atoi(). An int has two bytes. -/
namespace Avros.Vfs.OpenName
open Vfs.Path (nul)

def isSpace (c : Char) : Bool := c ∈ [' ','\t','\n','\x0b','\x0c','\r']

-- The digits atoi() takes, and their value.
def decimal (s : List Char) : Int := (s.takeWhile Char.isDigit).foldl (fun n c => 10 * n + (c.toNat - 48 : Nat)) 0

-- It does not detect overflow: the int wraps.
def atoi (s : List Char) : Int :=
  match s.dropWhile isSpace with
  | '-'::rest => toInt16 (-decimal rest)
  | '+'::rest => toInt16 (decimal rest)
  | rest => toInt16 (decimal rest)

-- The string at `&name[i]`.
def stringAt (name : List Char) (i : Nat) : List Char := (name.drop i).takeWhile (· ≠ nul)

/- `for (i = 0; name[i]; i++)`: the buffer afterwards, and i. The name ends inside it. -/
def cutName (name : List Char) : Nat → Nat → Option (List Char × Nat)
  | 0,_ => none
  | fuel + 1,i => do
    let c ← name[i]?
    if c = nul then some (name,i)
    else if c = '/' then some (name.set i nul,i + 1)
    else cutName name fuel (i + 1)

def open_ (msg : Msg) (name : List Char) : Option (List Char × Msg) := do
  let (name,i) ← cutName name (name.length + 1) 0
  some (name,{ msg with cmd := .open_, w0 := atoi (stringAt name 0), w1 := atoi (stringAt name i) })

-- What `<dev>/<ino>` says, in a buffer that may be longer.
def named (dev ino more : List Char) : List Char := dev ++ '/'::(ino ++ nul::more)

def Digits (s : List Char) : Prop := ∀ c ∈ s, c.isDigit = true

section
variable {dev ino more s w : List Char} {msg : Msg}

theorem digitPlain {c : Char} (digit : c.isDigit = true) : c ≠ nul ∧ c ≠ '/' ∧ c ≠ '-' ∧ c ≠ '+' ∧ isSpace c = false := by
  refine ⟨?_,?_,?_,?_,?_⟩
  · rintro rfl
    contradiction
  · rintro rfl
    contradiction
  · rintro rfl
    contradiction
  · rintro rfl
    contradiction
  · by_contra space
    have member : c ∈ [' ','\t','\n','\x0b','\x0c','\r'] := of_decide_eq_true (Bool.eq_true_of_not_eq_false space)
    simp only [List.mem_cons,List.not_mem_nil,or_false] at member
    rcases member with rfl | rfl | rfl | rfl | rfl | rfl <;> contradiction

theorem decimalNonneg (s : List Char) : 0 ≤ decimal s := by
  have from_ : ∀ (digits : List Char) (n : Int), 0 ≤ n →
      0 ≤ digits.foldl (fun (n : Int) (c : Char) => 10 * n + (c.toNat - 48 : Nat)) n := by
    intro digits
    induction digits with
    | nil => exact fun n positive => positive
    | cons c rest ih =>
      intro n positive
      have next : 0 ≤ 10 * n + ((c.toNat - 48 : Nat) : Int) := by omega
      exact ih _ next
  exact from_ _ 0 (Int.le_refl 0)

theorem oneDigit {c : Char} (digit : c.isDigit = true) : Digits [c] := by
  intro x member
  rw [List.mem_singleton.mp member]
  exact digit

theorem atoiDigits (digits : Digits s) : atoi s = toInt16 (decimal s) := by
  unfold atoi
  cases s with
  | nil => rfl
  | cons c rest =>
    obtain ⟨-,-,minus,plus,plain⟩ := digitPlain (digits c List.mem_cons_self)
    rw [List.dropWhile_cons_of_neg (by simp [plain])]
    split
    · rename_i same
      exact absurd (List.cons.inj same).1 minus
    · rename_i same
      exact absurd (List.cons.inj same).1 plus
    · rfl

theorem stringWord {name : List Char} {i : Nat} (plain : nul ∉ w) (rest : name.drop i = w ++ nul::more) :
    stringAt name i = w := by
  have text : ∀ c ∈ w, decide (c ≠ nul) = true := fun c member => decide_eq_true (fun same => plain (same ▸ member))
  rw [stringAt,rest,List.takeWhile_append_of_pos text]
  simp

theorem cutWord {name : List Char} {c : Char} {i fuel : Nat} (text : ∀ x ∈ w, x ≠ nul ∧ x ≠ '/')
    (rest : name.drop i = w ++ c::more) (enough : w.length < fuel) (stop : c = nul ∨ c = '/') :
    cutName name fuel i =
      some (if c = nul then (name,i + w.length) else (name.set (i + w.length) nul,i + w.length + 1)) := by
  induction w generalizing i fuel with
  | nil =>
    obtain ⟨fuel,rfl⟩ := Nat.exists_eq_add_of_lt enough
    have here : name[i]? = some c := by
      have first : (name.drop i)[0]? = name[i]? := List.getElem?_drop
      rw [← first,rest]
      rfl
    simp only [cutName,here,bind,Option.bind_some]
    by_cases last : c = nul
    · rw [if_pos last,if_pos last]
      rfl
    · rw [if_neg last,if_neg last,if_pos (stop.resolve_left last)]
      rfl
  | cons d w ih =>
    obtain ⟨fuel,rfl⟩ : ∃ k, fuel = k + 1 := ⟨fuel - 1,by omega⟩
    obtain ⟨⟨real,slash⟩,others⟩ := List.forall_mem_cons.mp text
    have here : name[i]? = some d := by
      have first : (name.drop i)[0]? = name[i]? := List.getElem?_drop
      rw [← first,rest]
      rfl
    have next : name.drop (i + 1) = w ++ c::more := by
      rw [← List.drop_drop,rest]
      rfl
    have shift : i + 1 + w.length = i + (d::w).length := by
      rw [List.length_cons]
      omega
    simp only [cutName,here,bind,Option.bind_some]
    rw [if_neg real,if_neg slash,ih others next (Nat.lt_of_succ_lt_succ enough),shift]

theorem digitsText (digits : Digits dev) : ∀ x ∈ dev, x ≠ nul ∧ x ≠ '/' :=
  fun x member => ⟨(digitPlain (digits x member)).1,(digitPlain (digits x member)).2.1⟩

theorem digitsString (digits : Digits dev) (here : name.drop i = dev ++ nul::more) : stringAt name i = dev :=
  stringWord (fun member => (digitsText digits nul member).1 rfl) here

def left (dev ino more : List Char) : List Char := dev ++ nul::(ino ++ nul::more)

variable (msg) in
theorem openFirst (devices : Digits dev) (inodes : Digits ino) : open_ msg (named dev ino more) =
    some (left dev ino more,{ msg with cmd := .open_, w0 := toInt16 (decimal dev), w1 := toInt16 (decimal ino) }) := by
  have room : dev.length < (named dev ino more).length + 1 := by
    simp only [named,List.length_append,List.length_cons]
    omega
  have whole : (named dev ino more).drop 0 = dev ++ '/'::(ino ++ nul::more) := rfl
  have cut := cutWord (digitsText devices) whole room (.inr rfl)
  have slash : ('/' : Char) ≠ nul := by decide
  have cleared : (named dev ino more).set (0 + dev.length) nul = left dev ino more := by simp [named,left]
  rw [if_neg slash,cleared,Nat.zero_add] at cut
  have first : stringAt (left dev ino more) 0 = dev := digitsString devices rfl
  have second : stringAt (left dev ino more) (dev.length + 1) = ino := by
    have behind : (left dev ino more).drop (dev.length + 1) = ino ++ nul::more := by simp [left,← List.drop_drop]
    exact digitsString inodes behind
  simp only [open_,cut,bind,Option.bind_some,first,second,atoiDigits devices,atoiDigits inodes]

variable (msg) in
/- From then on the scan stops behind the device, and atoi() is given the empty string. -/
theorem openAgain (devices : Digits dev) : open_ msg (left dev ino more) =
    some (left dev ino more,{ msg with cmd := .open_, w0 := toInt16 (decimal dev), w1 := 0 }) := by
  have room : dev.length < (left dev ino more).length + 1 := by
    simp only [left,List.length_append,List.length_cons]
    omega
  have whole : (left dev ino more).drop 0 = dev ++ nul::(ino ++ nul::more) := rfl
  have cut := cutWord (digitsText devices) whole room (.inl rfl)
  rw [if_pos rfl,Nat.zero_add] at cut
  have first : stringAt (left dev ino more) 0 = dev := digitsString devices rfl
  have second : stringAt (left dev ino more) dev.length = [] := by simp [stringAt,left]
  have zero : atoi [] = 0 := rfl
  simp only [open_,cut,bind,Option.bind_some,first,second,atoiDigits devices,zero]

end

def OpensTwice (dev ino more : List Char) : Prop :=
  ∀ msg msg', ∃ name m name' m', open_ msg (named dev ino more) = some (name,m) ∧ open_ msg' name = some (name',m') ∧
    (m.w0 = decimal dev ∧ m.w1 = decimal ino) ∧ (m'.w0 = decimal dev ∧ m'.w1 = decimal ino)

/-- The second call is right about the inode if that is 0, and about the device as the first
is. -/
theorem openedTwice {dev ino : List Char} (more : List Char) (devices : Digits dev) (inodes : Digits ino) :
    OpensTwice dev ino more ↔ decimal dev ≤ 32767 ∧ decimal ino = 0 := by
  have low := decimalNonneg dev
  constructor
  · intro twice
    have blank : Msg := ⟨.final,0,0,0,0,none,.pipedev⟩
    obtain ⟨name,m,name',m',first,second,⟨device,-⟩,-,inode⟩ := twice blank blank
    rw [openFirst blank devices inodes] at first
    obtain ⟨rfl,rfl⟩ := Prod.mk.inj (Option.some.inj first)
    rw [openAgain blank devices] at second
    obtain ⟨rfl,rfl⟩ := Prod.mk.inj (Option.some.inj second)
    change toInt16 (decimal dev) = decimal dev at device
    unfold toInt16 at device
    exact ⟨by omega,inode.symm⟩
  · rintro ⟨small,zero⟩ msg msg'
    have fits : toInt16 (decimal dev) = decimal dev := by
      unfold toInt16
      omega
    refine ⟨_,_,_,_,openFirst msg devices inodes,openAgain msg' devices,⟨fits,?_⟩,fits,zero.symm⟩
    change toInt16 (decimal ino) = decimal ino
    rw [zero]
    rfl

-- The name getty is given at boot.
theorem openedTwiceAtBoot : OpensTwice ['2'] ['0'] [] :=
  (openedTwice [] (oneDigit rfl) (oneDigit rfl)).mpr ⟨by decide,by decide⟩

-- "1/1" opens 1/1 and then 1/0.
theorem otherInodeOpened : ¬ OpensTwice ['1'] ['1'] [] := by
  intro twice
  obtain ⟨name,m,name',m',first,second,-,-,inode⟩ :=
    twice ⟨.final,0,0,0,0,none,.pipedev⟩ ⟨.final,0,0,0,0,none,.pipedev⟩
  have cut : open_ ⟨.final,0,0,0,0,none,.pipedev⟩ (named ['1'] ['1'] []) =
      some (left ['1'] ['1'] [],⟨.open_,0,1,1,0,none,.pipedev⟩) := by decide +kernel
  have again : open_ ⟨.final,0,0,0,0,none,.pipedev⟩ (left ['1'] ['1'] []) =
      some (left ['1'] ['1'] [],⟨.open_,0,1,0,0,none,.pipedev⟩) := by decide +kernel
  rw [cut] at first
  obtain ⟨rfl,-⟩ := Prod.mk.inj (Option.some.inj first)
  rw [again] at second
  obtain ⟨-,rfl⟩ := Prod.mk.inj (Option.some.inj second)
  exact absurd inode (by decide)

end Avros.Vfs.OpenName
