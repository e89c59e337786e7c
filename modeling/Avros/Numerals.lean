import Mathlib.Data.List.TakeWhile
import Avros.Printing

/-! What a format with its numbers comes out as, against the numerals of the arguments. An int
has two bytes. -/
namespace Avros.Usr.Print
open Vfs (eof toChar charByte toInt16)
open Vfs.Path (nul)
open Vfs.OpenName (atoi decimal Digits atoiDigits)

def IsInt (v : Int) : Prop := -32768 ≤ v ∧ v ≤ 32767

def Faithful (text : List Char) (ap : List Arg) (its : List Item) : Prop :=
  ∀ w fd rest s, Takes w fd →
    outcome (mfprintf w fd (text ++ nul::rest) ap) s = some (.ok (),s.wrote fd (its.flatMap Item.text))

section
variable {v : Int} {n : Nat} {text s : List Char} {ap ap' : List Arg} {its : List Item}

theorem digitsDecimal (n : Nat) : Digits (Nat.toDigits 10 n) :=
  fun _ member => Nat.isDigit_of_mem_toDigits (by decide) (by decide) member

theorem digitRange {c : Char} (digit : c.isDigit = true) : charByte c = c.toNat ∧ 48 ≤ c.toNat ∧ c.toNat ≤ 57 := by
  have range : 48 ≤ c.toNat ∧ c.toNat ≤ 57 := by simpa [Char.isDigit,UInt32.le_iff_toNat_le] using digit
  refine ⟨?_,range⟩
  unfold charByte toChar
  omega

theorem decimalSnoc (digits : Digits s) {d : Nat} (small : d < 10) :
    decimal (s ++ [Nat.digitChar d]) = 10 * decimal s + d := by
  have last : (Nat.digitChar d).isDigit = true := digitsDecimal d _ (by rw [Nat.toDigits_of_lt_base small]; simp)
  have whole : ∀ t : List Char, (∀ c ∈ t, c.isDigit = true) → t.takeWhile Char.isDigit = t :=
    fun t all => List.takeWhile_eq_self_iff.mpr all
  have both : ∀ c ∈ s ++ [Nat.digitChar d], c.isDigit = true := by
    intro c member
    rcases List.mem_append.mp member with old | new
    · exact digits c old
    · rw [List.mem_singleton.mp new]
      exact last
  rw [decimal,decimal,whole _ both,whole _ digits,List.foldl_append,List.foldl_cons,List.foldl_nil,
    Nat.toNat_digitChar_sub_48_of_lt_ten small]

theorem decimalNumeral (n : Nat) : decimal (Nat.toDigits 10 n) = n := by
  induction n using Nat.strongRecOn with
  | ind n ih =>
    rw [Nat.toDigits_eq_if (by decide)]
    by_cases small : n < 10
    · have alone := decimalSnoc (s := []) (fun _ member => absurd member List.not_mem_nil) small
      rw [if_pos small]
      exact alone.trans (Int.zero_add _)
    · have parts := ih (n / 10) (by omega)
      rw [if_neg small,decimalSnoc (digitsDecimal _) (Nat.mod_lt n (by decide)),parts]
      omega

theorem numeralRead (range : IsInt v) : atoi (numeral v) = v := by
  obtain ⟨low,high⟩ := range
  unfold numeral
  by_cases negative : v < 0
  · have read : atoi ('-'::Nat.toDigits 10 v.natAbs) = toInt16 (-decimal (Nat.toDigits 10 v.natAbs)) := rfl
    rw [if_pos negative,read,decimalNumeral]
    unfold toInt16
    omega
  · rw [if_neg negative,atoiDigits (digitsDecimal _),decimalNumeral]
    unfold toInt16
    omega

theorem digitZero : ∀ d < 16, Nat.digitChar d = '0' → d = 0 := by decide

theorem noLeadingZero {b : Nat} (base : 1 < b) (known : b ≤ 16) (n : Nat) (zero : (Nat.toDigits b n).head? = some '0') :
    n = 0 := by
  induction n using Nat.strongRecOn with
  | ind n ih =>
    rw [Nat.toDigits_eq_if base] at zero
    by_cases small : n < b
    · rw [if_pos small] at zero
      exact digitZero n (by omega) (Option.some.inj zero)
    · have less : n / b < n := Nat.div_lt_self (by omega) base
      have first : (Nat.toDigits b (n / b)).head? = some '0' := by
        rw [if_neg small] at zero
        obtain ⟨c,more,same⟩ := List.exists_cons_of_ne_nil (Nat.toDigits_ne_nil (n := n / b) (b := b))
        rw [same] at zero ⊢
        exact zero
      have none_ := ih _ less first
      rw [Nat.div_eq_zero_iff] at none_
      omega

theorem printedNonneg (range : IsInt v) (positive : 0 ≤ v) : Item.printed (.signed v) = Item.text (.signed v) := by
  obtain ⟨low,high⟩ := range
  have same : unsigned v = v.natAbs := by
    unfold unsigned
    omega
  rw [Item.printed,Item.text,numeral,if_neg (by omega),same]

theorem printedNegative (negative : v < 0) {more more' : List Int} :
    Item.printed (.signed v) ++ more ≠ Item.text (.signed v) ++ more' := by
  obtain ⟨c,rest,same⟩ := List.exists_cons_of_ne_nil (Nat.toDigits_ne_nil (n := unsigned v) (b := 10))
  have digit : c.isDigit = true := digitsDecimal (unsigned v) c (same ▸ List.mem_cons_self)
  rw [Item.printed,Item.text,numeral,if_pos negative,same]
  intro equal
  have first : charByte c = charByte '-' := (List.cons.inj equal).1
  obtain ⟨byte,low,-⟩ := digitRange digit
  have minus : charByte '-' = 45 := by decide
  omega

theorem printedText (ints : ∀ v, .signed v ∈ its → IsInt v) :
    its.flatMap Item.printed = its.flatMap Item.text ↔ ∀ v, .signed v ∈ its → 0 ≤ v := by
  induction its with
  | nil => simp
  | cons it its ih =>
    have others := ih (fun v member => ints v (List.mem_cons_of_mem _ member))
    have cons : it.printed = it.text → (its.flatMap Item.printed = its.flatMap Item.text ↔
        (it::its).flatMap Item.printed = (it::its).flatMap Item.text) := by
      intro same
      rw [List.flatMap_cons,List.flatMap_cons,same,List.append_cancel_left_eq]
    cases it with
    | signed v =>
      by_cases positive : 0 ≤ v
      · rw [← cons (printedNonneg (ints v List.mem_cons_self) positive),others]
        simp [positive]
      · refine ⟨fun same => absurd same (printedNegative (by omega)),fun all => ?_⟩
        exact absurd (all v List.mem_cons_self) positive
    | _ =>
      rw [← cons rfl,others]
      simp

/-- What comes out is the format with its arguments exactly when no argument of a %d is negative
and none of its characters is EOF. The numerals are those of the arguments, and atoi() reads
them back. -/
theorem numbersPrinted (plain : nul ∉ text) (closed : endsOpen text = false)
    (found : items (pieces text) ap = some (its,ap')) (ints : ∀ v, .signed v ∈ its → IsInt v) :
    (Faithful text ap its ↔ (∀ v, .signed v ∈ its → 0 ≤ v) ∧ eof ∉ its.flatMap Item.text) ∧
    (∀ v, IsInt v → atoi (numeral v) = v ∧ ((Nat.toDigits 10 v.natAbs).head? = some '0' → v = 0)) ∧
    ∀ v, (Nat.toDigits 16 (unsigned v)).head? = some '0' → unsigned v = 0 := by
  have run : ∀ w fd rest, mfprintf w fd (text ++ nul::rest) ap = puts w fd (its.flatMap Item.printed) := by
    intro w fd rest
    rw [mfprintfPuts text rest ap' ap its plain found,closed]
    exact bind_pure _
  refine ⟨⟨fun faithful => ?_,fun right w fd rest s takes => ?_⟩,fun v range => ⟨numeralRead range,fun zero => ?_⟩,
    fun v => noLeadingZero (by decide) (by decide) _⟩
  · have echoes := echoingEchoes 1
    have written := faithful _ 1 [] ⟨[],[]⟩ echoes.takes
    rw [run] at written
    by_cases odd : eof ∈ its.flatMap Item.printed
    · obtain ⟨out,exited,-⟩ := putsEof echoes odd ⟨[],[]⟩
      cases exited.symm.trans written
    · rw [putsTaken echoes.takes odd] at written
      have calls := congrArg Io.calls (Prod.mk.inj (Option.some.inj written)).2
      have same : its.flatMap Item.printed = its.flatMap Item.text := by
        simpa [Io.wrote,List.map_inj_right] using calls
      exact ⟨(printedText ints).mp same,same ▸ odd⟩
  · have same := (printedText ints).mpr right.1
    rw [run,same]
    exact putsTaken takes right.2 s
  · have none_ := noLeadingZero (by decide) (by decide) _ zero
    omega

end

/-! A text with every conversion, and what the shell says of a job that has ended -/

def report : List Char := ['%','s',':',' ','%','d',' ','%','i',' ','%','x','%','c']

def reported : List Item :=
  [.str ['a','b'],.char ':',.char ' ',.signed 1024,.char ' ',.signed 32767,.char ' ',.hex 255,.charArg 33]

theorem numbersPrintedReport : Faithful report [.str ['a','b',nul],.int 1024,.int 32767,.int 255,.int 33] reported ∧
    reported.flatMap Item.text = ['a','b',':',' ','1','0','2','4',' ','3','2','7','6','7',' ','0','x','f','f','!'].map
      charByte := by
  have bytes : reported.flatMap Item.text =
      ['a','b',':',' ','1','0','2','4',' ','3','2','7','6','7',' ','0','x','f','f','!'].map charByte := by decide
  have numbers : ∀ v, .signed v ∈ reported → v = 1024 ∨ v = 32767 := by simp [reported]
  refine ⟨(@numbersPrinted _ _ [] _ (by decide) (by decide) rfl ?_).1.mpr ⟨?_,?_⟩,bytes⟩
  · intro v member
    rcases numbers v member with rfl | rfl
    · exact ⟨by decide,by decide⟩
    · exact ⟨by decide,by decide⟩
  · intro v member
    rcases numbers v member with rfl | rfl
    · decide
    · decide
  · rw [bytes]
    decide

def ended (code : Int) : List Item := [.char ' ',.char '(',.signed code,.char ')',.char '\n']

-- The code -1 comes out as 65535.
theorem negativePrinted : ¬ Faithful [' ','(','%','d',')','\n'] [.int (-1)] (ended (-1)) := by
  intro faithful
  have takes := (echoingEchoes 1).takes
  have written := faithful _ 1 [] ⟨[],[]⟩ takes
  have run := @mfprintfPuts echoing 1 [' ','(','%','d',')','\n'] [] [] [.int (-1)]
    (ended (-1)) (by decide) rfl
  have plain : eof ∉ (ended (-1)).flatMap Item.printed := by decide
  rw [run,bindReturned (putsTaken takes plain ⟨[],[]⟩)] at written
  have calls := congrArg Io.calls (Prod.mk.inj (Option.some.inj written)).2
  exact absurd calls (by decide)

end Avros.Usr.Print
