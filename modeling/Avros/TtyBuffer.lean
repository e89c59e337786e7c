import Avros.TtyLine

/-! `idx` and the stores at `tbuf[idx]`. tty_usart0 counts `idx` up for every byte it keeps
and does not look at the 128 bytes it has allocated: what bounds `idx` is the line that is
being typed. -/
namespace Avros.Vfs

/- One received byte: `idx` after it, and the index it is stored at, if it is stored. Ctrl+D
and a newline end in tty_flush, which leaves `idx` at 0. -/
def ttyIdx (idx : Nat) (c : Int) : Nat × Option Nat :=
  if c = 0x04 then (0,none)
  else if c = 0x03 then (0,none)
  else if c = 0x08 then (idx - 1,none)
  else if c = 13 ∨ c = 10 then (0,some idx)
  else (idx + 1,some idx)

def tbufStores : Nat → List Int → List Nat
  | _,[] => []
  | idx,c::rest => (ttyIdx idx c).2.toList ++ tbufStores (ttyIdx idx c).1 rest

def arrived (inputs : List TtyInput) : List Int := (inputs.filter (·.msg.cmd = .rdInterrupt)).map (·.rx)

def Kept (b : Int) : Prop := b ≠ 0x04 ∧ b ≠ 0x03 ∧ b ≠ 0x08

/- Each byte that is kept finds the typed line shorter than the buffer. -/
def RoomForEach (bytes : List Int) : Prop :=
  ∀ before b after, bytes = before ++ b::after → Kept b → (uncommitted before).length < tbufSize

section
variable {line : List Int} {b : Int} {bytes seen : List Int}

theorem idxTyped : (ttyIdx line.length b).1 = (typeInto line b).1.length := by
  unfold ttyIdx typeInto
  split
  · rfl
  split
  · rfl
  split
  · exact List.length_dropLast.symm
  split
  · rfl
  · simp

theorem idxStores (idx : Nat) : (∀ n ∈ (ttyIdx idx b).2.toList, n < tbufSize) ↔ (Kept b → idx < tbufSize) := by
  unfold ttyIdx Kept
  split
  · rename_i eot
    simp [eot]
  rename_i eot
  split
  · rename_i etx
    simp [etx]
  rename_i etx
  split
  · rename_i backspace
    simp [backspace]
  rename_i backspace
  split <;> simp [eot,etx,backspace]

theorem storesInRoom : (∀ n ∈ tbufStores (uncommitted seen).length bytes, n < tbufSize) ↔
    ∀ before b after, bytes = before ++ b::after → Kept b → (uncommitted (seen ++ before)).length < tbufSize := by
  induction bytes generalizing seen with
  | nil => simp [tbufStores]
  | cons c rest ih =>
    have next : (ttyIdx (uncommitted seen).length c).1 = (uncommitted (seen ++ [c])).length := by
      rw [idxTyped,uncommittedSnoc]
    simp only [tbufStores,next,List.mem_append,or_imp,forall_and,idxStores,ih]
    constructor
    · rintro ⟨first,others⟩ before b after split kept
      cases before with
      | nil =>
        obtain ⟨rfl,-⟩ := List.cons.inj split
        simpa using first kept
      | cons d before =>
        obtain ⟨rfl,tail⟩ := List.cons.inj split
        simpa using others before b after tail kept
    · intro room
      refine ⟨fun kept => by simpa using room [] c rest rfl kept,?_⟩
      intro before b after split kept
      have inside := room (c::before) b after (by rw [split]; rfl) kept
      simpa using inside

end

section
variable {t t' : Tty} {i : TtyInput} {seen : List Int}

theorem ttyLineServed {c : Int} : (ttyLine t c).isSome ↔ (Kept c → t.tbuf.length < tbufSize) := by
  have stored : (ttyStore t c).isSome ↔ t.tbuf.length < tbufSize := by
    unfold ttyStore
    split <;> simp_all
  unfold ttyLine Kept
  split
  · rename_i eot
    split <;> simp [eot]
  rename_i eot
  split
  · rename_i etx
    simp [etx]
  rename_i etx
  split
  · rename_i backspace
    simp [backspace]
  rename_i backspace
  split
  · simpa [eot,etx,backspace] using stored
  · simpa [eot,etx,backspace] using stored

theorem ttyTurnServed (mode : t.ttymode = true) :
    (ttyTurn t i).isSome ↔ (i.msg.cmd = .rdInterrupt → Kept i.rx → t.tbuf.length < tbufSize) := by
  have turn : (ttyTurn t i).isSome = (ttyUsart0 i.rx t i.msg).isSome := by
    unfold ttyTurn
    cases ttyUsart0 i.rx t i.msg <;> rfl
  rw [turn]
  unfold ttyUsart0
  split
  case h_3 call =>
    have line : ((ttyLine t i.rx).bind (fun r => some (r.1,r.2 ++ [{ i.msg with w0 := i.rx, cmd := .hold }]))).isSome =
        (ttyLine t i.rx).isSome := by cases ttyLine t i.rx <;> rfl
    simp only [if_pos mode,call,forall_const,← ttyLineServed,← line]
    rfl
  all_goals simp_all

theorem ttyTurnLine (mode : t.ttymode = true) (buffer : t.tbuf = (uncommitted seen).map toChar)
    {out : List TtyEvent} (taken : ttyTurn t i = some (t',out)) :
    t'.ttymode = true ∧ t'.tbuf = (uncommitted (seen ++ arrived [i])).map toChar := by
  simp only [ttyTurn,bind,Option.bind_eq_some_iff] at taken
  obtain ⟨⟨after,replies⟩,ok,last⟩ := taken
  obtain ⟨rfl,-⟩ := Prod.mk.inj (Option.some.inj last)
  refine ⟨ttymodeKept mode ok,?_⟩
  unfold ttyUsart0 at ok
  unfold arrived
  split at ok
  case h_1 call =>
    obtain ⟨rfl,-⟩ := Prod.mk.inj (Option.some.inj ok)
    simpa [call] using (serveReadBuffer t _ _).trans buffer
  case h_2 call =>
    obtain ⟨rfl,-⟩ := Prod.mk.inj (Option.some.inj ok)
    rw [usart0ServeWriteMeets]
    split <;> simpa [call] using buffer
  case h_3 call =>
    dsimp only at ok
    rw [if_pos mode] at ok
    simp only [bind,Option.bind_eq_some_iff] at ok
    obtain ⟨⟨next,answers⟩,typed,last⟩ := ok
    obtain ⟨rfl,-⟩ := Prod.mk.inj (Option.some.inj last)
    have line := (ttyLineSource buffer typed).1
    simpa [call,uncommittedSnoc] using line
  case h_4 call =>
    obtain ⟨rfl,-⟩ := Prod.mk.inj (Option.some.inj ok)
    rw [usart0ServeWriteMeets]
    split <;> simpa [call] using buffer
  case h_5 read write readInterrupt writeInterrupt =>
    obtain ⟨rfl,-⟩ := Prod.mk.inj (Option.some.inj ok)
    have nothing : i.msg.cmd ≠ .rdInterrupt := readInterrupt
    simpa [nothing] using buffer

end

theorem arrivedCons (i : TtyInput) (rest : List TtyInput) : arrived (i::rest) = arrived [i] ++ arrived rest := by
  unfold arrived
  rw [← List.map_append,← List.filter_append]
  rfl

theorem tbufStoresAppend (seen bytes rest : List Int) :
    tbufStores (uncommitted seen).length (bytes ++ rest) =
      tbufStores (uncommitted seen).length bytes ++ tbufStores (uncommitted (seen ++ bytes)).length rest := by
  induction bytes generalizing seen with
  | nil => simp [tbufStores]
  | cons c bytes ih =>
    have next : (ttyIdx (uncommitted seen).length c).1 = (uncommitted (seen ++ [c])).length := by
      rw [idxTyped,uncommittedSnoc]
    rw [List.cons_append,tbufStores,tbufStores,next,ih,List.append_assoc]
    simp

theorem ttyServesInside {t : Tty} {seen : List Int} (mode : t.ttymode = true)
    (buffer : t.tbuf = (uncommitted seen).map toChar) (inputs : List TtyInput) :
    (Run.follow ttyTurn (fun _ _ => true) t inputs).isSome ↔
      ∀ n ∈ tbufStores (uncommitted seen).length (arrived inputs), n < tbufSize := by
  induction inputs generalizing t seen with
  | nil => simp [Run.follow,arrived,tbufStores]
  | cons i rest ih =>
    have size : t.tbuf.length = (uncommitted seen).length := by rw [buffer,List.length_map]
    have one : (ttyTurn t i).isSome ↔ ∀ n ∈ tbufStores (uncommitted seen).length (arrived [i]), n < tbufSize := by
      rw [ttyTurnServed mode,size]
      unfold arrived
      by_cases call : i.msg.cmd = .rdInterrupt
      · simpa [call,tbufStores] using (idxStores (b := i.rx) (uncommitted seen).length).symm
      · simp [call,tbufStores]
    rw [arrivedCons,tbufStoresAppend]
    simp only [List.mem_append,or_imp,forall_and,← one,Run.follow,if_true]
    cases taken : ttyTurn t i with
    | none => simp
    | some r =>
      obtain ⟨t',out⟩ := r
      obtain ⟨mode',buffer'⟩ := ttyTurnLine mode buffer taken
      rw [← ih mode' buffer']
      simp only [bind,Option.bind_some]
      cases Run.follow ttyTurn (fun _ _ => true) t' rest <;> simp

/-- The stores are inside the buffer if no byte that is kept is typed behind 128 others. -/
theorem storesInsideBuffer (inputs : List TtyInput) :
    ((∀ n ∈ tbufStores 0 (arrived inputs), n < tbufSize) ↔ RoomForEach (arrived inputs)) ∧
    ((Run.follow ttyTurn (fun _ _ => true) ttyStart inputs).isSome ↔
      ∀ n ∈ tbufStores 0 (arrived inputs), n < tbufSize) :=
  ⟨@storesInRoom (arrived inputs) [],@ttyServesInside ttyStart [] rfl rfl inputs⟩

def keystroke (b : Int) : TtyInput := ⟨⟨.rdInterrupt,0x20,0,0,0,none,.ttyUsart0⟩,b⟩

-- 129 characters without a newline.
theorem storeBehindBuffer : 128 ∈ tbufStores 0 (arrived (List.replicate 129 (keystroke 97))) ∧
    ¬ ∀ inputs, ∀ n ∈ tbufStores 0 (arrived inputs), n < tbufSize := by
  have behind : 128 ∈ tbufStores 0 (arrived (List.replicate 129 (keystroke 97))) := by decide +kernel
  exact ⟨behind,fun inside => absurd (inside _ 128 behind) (by decide)⟩

end Avros.Vfs
