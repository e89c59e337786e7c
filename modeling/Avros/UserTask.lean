import Avros.OpenName

/-! The programs under `usr/`: a task makes its calls one after the other, and ends by
returning or by mexit(). -/
namespace Avros.Usr
open Vfs (eof charByte)

inductive Call where
  | writec (fd data : Int)
  | readc (fd data : Int)
  deriving DecidableEq, Repr

-- The calls so far, and what is still to be read from descriptor 0.
structure Io where
  calls : List Call
  input : List Char

/- An exception is mexit(), with its code. There is no result where the program leaves the
memory that it was given. -/
abbrev Task := ExceptT Int (StateT Io Option)

-- What writec() answers after the calls so far.
abbrev World := List Call → Int → Int → Int

def mexit {α : Type} (code : Int) : Task α := throw code
def outside {α : Type} : Task α := ExceptT.mk (fun _ => none)

def writec (w : World) (fd data : Int) : Task Int := do
  let s ← get
  set (⟨s.calls ++ [.writec fd data],s.input⟩ : Io)
  pure (w s.calls fd data)

def mfputc (w : World) (fd data : Int) : Task Unit := do
  if (← writec w fd data) = eof then mexit 0

-- The end of the input is EOF, and so is a byte that a `char` makes negative by one.
def mgetc : Task Int := do
  let s ← get
  match s.input with
  | [] =>
    set (⟨s.calls ++ [.readc 0 eof],[]⟩ : Io)
    pure eof
  | c::rest =>
    set (⟨s.calls ++ [.readc 0 (charByte c)],rest⟩ : Io)
    pure (charByte c)

def byteChar (v : Int) : Char := Char.ofNat (v % 256).toNat

def outcome {α : Type} (p : Task α) (s : Io) : Option (Except Int α × Io) := (ExceptT.run p).run s

-- A descriptor that refuses nothing but EOF: what else writec() hands back is not said, as on a terminal.
def Takes (w : World) (fd : Int) : Prop := ∀ calls data, data ≠ eof → w calls fd data ≠ eof

-- A pipe or a file, of which writec() hands back the data.
def Echoes (w : World) (fd : Int) : Prop := ∀ calls data, w calls fd data = data

def echoing : World := fun _ _ data => data

def puts (w : World) (fd : Int) (text : List Int) : Task Unit := text.forM (mfputc w fd)

def Io.wrote (s : Io) (fd : Int) (text : List Int) : Io := { s with calls := s.calls ++ text.map (.writec fd) }

def Io.written (s : Io) (fd : Int) : List Int := s.calls.filterMap fun
  | .writec own data => if own = fd then some data else none
  | .readc _ _ => none

def AtMost {α : Type} (p : Task α) (fd : Int) (n : Nat) : Prop :=
  ∀ s end_ s', outcome p s = some (end_,s') → ∃ out, s' = s.wrote fd out ∧ out.length ≤ n

section
variable {α β : Type} {w : World} {fd data : Int} {text more : List Int} {s s' : Io} {p : Task α} {f : α → Task β}

theorem outcomePure (a : α) (s : Io) : outcome (pure a) s = some (.ok a,s) := rfl

theorem outcomeBind (p : Task α) (f : α → Task β) (s : Io) : outcome (p >>= f) s =
    match outcome p s with
    | some (.ok a,s') => outcome (f a) s'
    | some (.error code,s') => some (.error code,s')
    | none => none := by
  unfold outcome
  rw [ExceptT.run_bind,StateT.run_bind]
  cases (ExceptT.run p).run s with
  | none => rfl
  | some r =>
    obtain ⟨end_,s'⟩ := r
    cases end_ <;> rfl

theorem bindReturned {a : α} (returned : outcome p s = some (.ok a,s')) : outcome (p >>= f) s = outcome (f a) s' := by
  rw [outcomeBind,returned]

theorem bindExited {code : Int} (exited : outcome p s = some (.error code,s')) :
    outcome (p >>= f) s = some (.error code,s') := by
  rw [outcomeBind,exited]

theorem outsideBind (f : α → Task β) : (outside >>= f) = outside := rfl

theorem mfputcOutcome (w : World) (fd data : Int) (s : Io) : outcome (mfputc w fd data) s =
    some (if w s.calls fd data = eof then .error 0 else .ok (),s.wrote fd [data]) := by
  by_cases closed : w s.calls fd data = eof
  · rw [if_pos closed]
    change outcome (if w s.calls fd data = eof then mexit 0 else pure ()) _ = _
    rw [if_pos closed]
    rfl
  · rw [if_neg closed]
    change outcome (if w s.calls fd data = eof then mexit 0 else pure ()) _ = _
    rw [if_neg closed]
    rfl

theorem Echoes.takes (echoes : Echoes w fd) : Takes w fd := fun calls data real => by rw [echoes]; exact real

theorem echoingEchoes (fd : Int) : Echoes echoing fd := fun _ _ => rfl

theorem byteOf {c : Char} (byte : c.toNat < 256) : byteChar (charByte c) = c := by
  have same : (charByte c % 256).toNat = c.toNat := by
    unfold charByte Vfs.toChar
    omega
  rw [byteChar,same,Char.ofNat_toNat]

theorem byteInj {c d : Char} (byte : c.toNat < 256) (byte' : d.toNat < 256) (same : charByte c = charByte d) : c = d := by
  rw [← byteOf byte,same,byteOf byte']

theorem mgetcRead {c : Char} {rest : List Char} (left : s.input = c::rest) :
    outcome mgetc s = some (.ok (charByte c),⟨s.calls ++ [.readc 0 (charByte c)],rest⟩) := by
  obtain ⟨calls,input⟩ := s
  cases left
  rfl

theorem mgetcEnd (left : s.input = []) : outcome mgetc s = some (.ok eof,⟨s.calls ++ [.readc 0 eof],[]⟩) := by
  obtain ⟨calls,input⟩ := s
  cases left
  rfl

theorem putsNil (w : World) (fd : Int) : puts w fd [] = pure () := rfl

theorem putsCons (w : World) (fd data : Int) (text : List Int) :
    puts w fd (data::text) = (do mfputc w fd data; puts w fd text) := rfl

theorem putsAppend (w : World) (fd : Int) (text more : List Int) :
    puts w fd (text ++ more) = (do puts w fd text; puts w fd more) := by
  induction text with
  | nil => rw [List.nil_append,putsNil,pure_bind]
  | cons data text ih => rw [List.cons_append,putsCons,putsCons,ih,bind_assoc]

theorem putsOne (w : World) (fd data : Int) : puts w fd [data] = mfputc w fd data := by
  rw [putsCons,putsNil]
  exact bind_pure _

theorem wroteWrote (s : Io) (fd : Int) (text more : List Int) :
    (s.wrote fd text).wrote fd more = s.wrote fd (text ++ more) := by
  simp [Io.wrote]

theorem wroteNothing (s : Io) (fd : Int) : s.wrote fd [] = s := by simp [Io.wrote]

theorem writtenWrote (s : Io) (fd : Int) (text : List Int) : (s.wrote fd text).written fd = s.written fd ++ text := by
  have whole : (text.map (Call.writec fd)).filterMap (fun
      | .writec own data => if own = fd then some data else none
      | .readc _ _ => none) = text := by
    induction text with
    | nil => rfl
    | cons data text ih => simp [ih]
  exact (List.filterMap_append).trans (congrArg (s.written fd ++ ·) whole)

theorem writtenOther {other : Int} (apart : other ≠ fd) (s : Io) (text : List Int) :
    (s.wrote other text).written fd = s.written fd := by
  have none_ : (text.map (Call.writec other)).filterMap (fun
      | .writec own data => if own = fd then some data else none
      | .readc _ _ => none) = [] := by
    induction text with
    | nil => rfl
    | cons data text ih => simp [apart,ih]
  exact (List.filterMap_append).trans ((congrArg (s.written fd ++ ·) none_).trans (List.append_nil _))

theorem putsTaken (takes : Takes w fd) (plain : eof ∉ text) (s : Io) :
    outcome (puts w fd text) s = some (.ok (),s.wrote fd text) := by
  induction text generalizing s with
  | nil => simp [putsNil,outcomePure,Io.wrote]
  | cons data text ih =>
    have other : w s.calls fd data ≠ eof := takes s.calls data fun same => plain (same ▸ List.mem_cons_self)
    have first := mfputcOutcome w fd data s
    rw [if_neg other] at first
    rw [putsCons,bindReturned first,ih (fun member => plain (List.mem_cons_of_mem _ member)),wroteWrote]
    rfl

theorem putsAnswered (w : World) (fd : Int) (text : List Int) (s : Io) :
    ∃ end_ out, outcome (puts w fd text) s = some (end_,s.wrote fd out) ∧ out.length ≤ text.length ∧
      ((∀ calls fd data, w calls fd data ≠ eof) → end_ = .ok ()) := by
  induction text generalizing s with
  | nil => exact ⟨.ok (),[],by simp [putsNil,outcomePure,Io.wrote],Nat.le_refl 0,fun _ => rfl⟩
  | cons data text ih =>
    have first := mfputcOutcome w fd data s
    by_cases closed : w s.calls fd data = eof
    · rw [if_pos closed] at first
      exact ⟨.error 0,[data],by rw [putsCons,bindExited first],by simp,fun open_ => absurd closed (open_ _ _ _)⟩
    · rw [if_neg closed] at first
      obtain ⟨end_,out,later,size,returns⟩ := ih (s.wrote fd [data])
      rw [wroteWrote] at later
      exact ⟨end_,data::out,by rw [putsCons,bindReturned first,later]; rfl,Nat.succ_le_succ size,returns⟩

-- EOF is not a character: the task ends as if nobody read what it writes.
theorem putsEof (echoes : Echoes w fd) (member : eof ∈ text) (s : Io) :
    ∃ out, outcome (puts w fd text) s = some (.error 0,s.wrote fd out) ∧ out.length ≤ text.length := by
  induction text generalizing s with
  | nil => contradiction
  | cons data text ih =>
    have first := mfputcOutcome w fd data s
    rw [echoes] at first
    by_cases last : data = eof
    · rw [if_pos last] at first
      exact ⟨[data],by rw [putsCons,bindExited first],by simp⟩
    · rw [if_neg last] at first
      obtain ⟨out,rest,size⟩ := ih ((List.mem_cons.mp member).resolve_left (Ne.symm last)) (s.wrote fd [data])
      rw [wroteWrote] at rest
      exact ⟨data::out,by rw [putsCons,bindReturned first,rest]; rfl,Nat.succ_le_succ size⟩

theorem pureAtMost (a : α) : AtMost (pure a) fd 0 := by
  intro s end_ s' ran
  cases ran
  exact ⟨[],(wroteNothing s fd).symm,Nat.le_refl 0⟩

theorem outsideAtMost (n : Nat) : AtMost (outside : Task α) fd n := by
  intro s end_ s' ran
  contradiction

theorem putsAtMost (w : World) (fd : Int) (text : List Int) : AtMost (puts w fd text) fd text.length := by
  intro s end_ s' ran
  obtain ⟨end',out,answered,size,-⟩ := putsAnswered w fd text s
  cases answered.symm.trans ran
  exact ⟨out,rfl,size⟩

theorem mfputcAtMost (w : World) (fd data : Int) : AtMost (mfputc w fd data) fd 1 :=
  putsOne w fd data ▸ putsAtMost w fd [data]

theorem bindAtMost {m n : Nat} (first : AtMost p fd m) (next : ∀ a, AtMost (f a) fd n) : AtMost (p >>= f) fd (m + n) := by
  intro s end_ s' ran
  rw [outcomeBind] at ran
  cases done : outcome p s with
  | none => rw [done] at ran; contradiction
  | some r =>
    obtain ⟨end',s1⟩ := r
    obtain ⟨out,rfl,size⟩ := first s end' s1 done
    rw [done] at ran
    cases end' with
    | error code =>
      cases ran
      exact ⟨out,rfl,Nat.le_add_right_of_le size⟩
    | ok a =>
      obtain ⟨more,rfl,size'⟩ := next a _ _ _ ran
      exact ⟨out ++ more,wroteWrote s fd out more,by rw [List.length_append]; exact Nat.add_le_add size size'⟩

theorem AtMost.mono {m n : Nat} (most : AtMost p fd m) (le : m ≤ n) : AtMost p fd n := by
  intro s end_ s' ran
  obtain ⟨out,same,size⟩ := most s end_ s' ran
  exact ⟨out,same,Nat.le_trans size le⟩

end

end Avros.Usr
