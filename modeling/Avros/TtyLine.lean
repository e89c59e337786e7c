import Avros.TtyTurns

/-! The input of the terminal. `edited` says what the typed bytes mean to a reader; the
driver hands the k-th character of it to the k-th reader. -/
namespace Avros.Vfs

def typeInto (line : List Int) (b : Int) : List Int × List Int :=
  if b = 0x04 then ([],if line = [] then [eof] else line.map toChar)
  else if b = 0x03 then ([],[])
  else if b = 0x08 then (line.dropLast,[])
  else if b = 13 ∨ b = 10 then ([],(line ++ [b]).map toChar)
  else (line ++ [b],[])

def typeAll (s : List Int × List Int) (b : Int) : List Int × List Int :=
  ((typeInto s.1 b).1,s.2 ++ (typeInto s.1 b).2)

def uncommitted (bytes : List Int) : List Int := (bytes.foldl typeAll ([],[])).1
def edited (bytes : List Int) : List Int := (bytes.foldl typeAll ([],[])).2

theorem uncommittedSnoc (bytes : List Int) (b : Int) :
    uncommitted (bytes ++ [b]) = (typeInto (uncommitted bytes) b).1 := by
  simp [uncommitted,typeAll]

theorem editedSnoc (bytes : List Int) (b : Int) :
    edited (bytes ++ [b]) = edited bytes ++ (typeInto (uncommitted bytes) b).2 := by
  simp [edited,uncommitted,typeAll]

-- The message in which usart_reply_char wraps a character.
def charToken (c : Int) : Msg := ⟨.rdInterrupt,0,c,0,0,none,.ttyUsart0⟩

def handed (r c : Msg) : Pid × Int := (r.client,c.w0)

abbrev Readers (queue asks tokens : List Msg) : Prop :=
  Pairing.Shared Msg.cmd .readc .rdInterrupt queue asks tokens

section
variable {t : Tty} {asks tokens : List Msg}

theorem readMeets (held : Readers t.rdQ asks tokens) {m : Msg} (call : m.cmd = .readc) (real : m.client ≠ 0) :
    Readers (usartServeRead t m .rdInterrupt).1.rdQ (asks ++ [m]) tokens ∧
    List.zipWith handed (asks ++ [m]) tokens =
      List.zipWith handed asks tokens ++ [(usartServeRead t m .rdInterrupt).2].filterMap heard := by
  obtain ⟨line,met⟩ := held.left (by decide) call handed
  rw [usartServeReadMeets]
  cases meeting : Pairing.meet Msg.cmd .rdInterrupt t.rdQ m with
  | mk queue container =>
    rw [meeting] at line met
    cases container with
    | none => exact ⟨line,by simpa [heard] using met⟩
    | some c => exact ⟨line,by simpa [heard,handed,call,real] using met⟩

theorem charMeets (held : Readers t.rdQ asks tokens) (real : ∀ m ∈ asks, m.client ≠ 0) (c : Int) :
    Readers (usartReplyChar t c).1.rdQ asks (tokens ++ [charToken c]) ∧
    List.zipWith handed asks (tokens ++ [charToken c]) =
      List.zipWith handed asks tokens ++ (usartReplyChar t c).2.filterMap heard := by
  obtain ⟨line,met⟩ := held.right (by decide) (rfl : (charToken c).cmd = .rdInterrupt) handed
  unfold usartReplyChar
  rw [usartServeReadMeets]
  change Readers (Pairing.meet Msg.cmd .readc t.rdQ (charToken c)).1 asks (tokens ++ [charToken c]) at line
  cases meeting : Pairing.meet Msg.cmd .readc t.rdQ (charToken c) with
  | mk queue container =>
    have partner := fun a => held.partner (by decide) (a := a) (b := charToken c)
    rw [meeting] at line met partner
    unfold charToken at meeting
    rw [meeting]
    cases container with
    | none => exact ⟨line,by simpa using met⟩
    | some reader =>
      have client : reader.client ≠ 0 := real reader (partner reader rfl)
      exact ⟨line,by simpa [heard,handed,charToken,client] using met⟩

theorem charsMeet (chars : List Int) (held : Readers t.rdQ asks tokens) (real : ∀ m ∈ asks, m.client ≠ 0) :
    Readers (replyChars t chars).1.rdQ asks (tokens ++ chars.map charToken) ∧
    List.zipWith handed asks (tokens ++ chars.map charToken) =
      List.zipWith handed asks tokens ++ (replyChars t chars).2.filterMap heard := by
  induction chars generalizing t tokens with
  | nil => exact ⟨by simpa [replyChars] using held,by simp [replyChars]⟩
  | cons c rest ih =>
    obtain ⟨line,met⟩ := charMeets held real c
    obtain ⟨later,others⟩ := ih line
    rw [List.append_assoc] at later others
    refine ⟨later,?_⟩
    simp only [replyChars,List.filterMap_append,List.map_cons]
    rw [← List.append_assoc,← met]
    exact others

end

/-! One byte in line mode does to the buffer and to the readers what it does to the line. -/

theorem printCharInput (t : Tty) (c : Int) : (usart0PrintChar t c).rdQ = t.rdQ ∧ (usart0PrintChar t c).tbuf = t.tbuf := by
  unfold usart0PrintChar
  rw [usart0ServeWriteMeets]
  split <;> exact ⟨rfl,rfl⟩

theorem serveReadBuffer (t : Tty) (msg : Msg) (kind : Cmd) : (usartServeRead t msg kind).1.tbuf = t.tbuf := by
  rw [usartServeReadMeets]
  split <;> rfl

theorem ttyStoreSource {t t' : Tty} {c : Int} (ok : ttyStore t c = some t') :
    t' = { t with tbuf := t.tbuf ++ [toChar c] } := by
  unfold ttyStore at ok
  split at ok <;> try contradiction
  exact (Option.some.inj ok).symm

theorem ttyLineSource {t t' : Tty} {c : Int} {line : List Int} {replies : List Msg}
    (buffer : t.tbuf = line.map toChar) (ok : ttyLine t c = some (t',replies)) :
    t'.tbuf = (typeInto line c).1.map toChar ∧ ∃ u : Tty, u.rdQ = t.rdQ ∧
      t'.rdQ = (replyChars u (typeInto line c).2).1.rdQ ∧ replies = (replyChars u (typeInto line c).2).2 := by
  have none : t.tbuf = [] ↔ line = [] := by rw [buffer,List.map_eq_nil_iff]
  unfold ttyLine at ok
  unfold typeInto
  split at ok
  · rename_i eot
    rw [if_pos eot]
    split at ok
    · rename_i empty
      rw [if_pos (none.mp empty)]
      obtain ⟨rfl,rfl⟩ := Prod.mk.inj (Option.some.inj ok)
      exact ⟨(serveReadBuffer t _ _).trans empty,t,rfl,rfl,by simp [replyChars,usartReplyChar]⟩
    · rename_i full
      rw [if_neg (fun empty => full (none.mpr empty))]
      obtain ⟨queue,kept⟩ := printCharInput t 10
      have flushed : ttyFlush (usart0PrintChar t 10) = (t',replies) := Option.some.inj ok
      unfold ttyFlush at flushed
      rw [kept,buffer] at flushed
      obtain ⟨rfl,rfl⟩ := Prod.mk.inj flushed
      exact ⟨rfl,usart0PrintChar t 10,queue,rfl,rfl⟩
  rename_i other
  rw [if_neg other]
  split at ok
  · rename_i etx
    rw [if_pos etx]
    obtain ⟨rfl,rfl⟩ := Prod.mk.inj (Option.some.inj ok)
    obtain ⟨queue,kept⟩ := printCharInput { t with tbuf := [] } 10
    exact ⟨kept,t,rfl,queue,rfl⟩
  rename_i other
  rw [if_neg other]
  split at ok
  · rename_i backspace
    rw [if_pos backspace]
    obtain ⟨rfl,rfl⟩ := Prod.mk.inj (Option.some.inj ok)
    refine ⟨?_,t,rfl,rfl,rfl⟩
    dsimp only
    rw [buffer,List.map_dropLast]
  rename_i other
  rw [if_neg other]
  split at ok
  · rename_i newline
    rw [if_pos newline]
    obtain ⟨next,stored,flushed⟩ := Option.map_eq_some_iff.mp ok
    rw [ttyStoreSource stored,buffer] at flushed
    obtain ⟨rfl,rfl⟩ := Prod.mk.inj flushed
    refine ⟨rfl,{ t with tbuf := line.map toChar ++ [toChar c] },rfl,?_,?_⟩
    all_goals
      rw [List.map_append]
      rfl
  · rename_i plain
    rw [if_neg plain]
    obtain ⟨next,stored,same⟩ := Option.map_eq_some_iff.mp ok
    obtain ⟨rfl,rfl⟩ := Prod.mk.inj same
    rw [ttyStoreSource stored]
    refine ⟨?_,t,rfl,rfl,rfl⟩
    dsimp only
    rw [buffer,List.map_append]
    rfl

structure Lined (t : Tty) (asks : List Msg) (bytes : List Int) (told : List (Pid × Int)) : Prop where
  buffer : t.tbuf = (uncommitted bytes).map toChar
  real : ∀ m ∈ asks, m.client ≠ 0
  line : Readers t.rdQ asks ((edited bytes).map charToken)
  told : told = List.zipWith handed asks ((edited bytes).map charToken)

-- VFS names the client of every read.
def FromClients (_ : Tty) (i : TtyInput) : Prop := i.msg.cmd = .readc → i.msg.client ≠ 0

section
variable {t t' : Tty} {asks : List Msg} {bytes : List Int} {told : List (Pid × Int)}

theorem Lined.read (held : Lined t asks bytes told) {m : Msg} (call : m.cmd = .readc) (real : m.client ≠ 0) :
    Lined (usartServeRead t m .rdInterrupt).1 (asks ++ [m]) bytes
      (told ++ [(usartServeRead t m .rdInterrupt).2].filterMap heard) := by
  obtain ⟨line,met⟩ := readMeets held.line call real
  refine ⟨(serveReadBuffer t m _).trans held.buffer,?_,line,?_⟩
  · intro k member
    rcases List.mem_append.mp member with old | new
    · exact held.real k old
    · rw [List.mem_singleton.mp new]
      exact real
  · rw [held.told,met]

theorem Lined.typed (held : Lined t asks bytes told) {b : Int} {replies : List Msg}
    (ok : ttyLine t b = some (t',replies)) : Lined t' asks (bytes ++ [b]) (told ++ replies.filterMap heard) := by
  obtain ⟨buffer,u,same,queue,rfl⟩ := ttyLineSource held.buffer ok
  obtain ⟨line,met⟩ := charsMeet (typeInto (uncommitted bytes) b).2 (same.symm ▸ held.line) held.real
  refine ⟨?_,held.real,?_,?_⟩
  · rw [uncommittedSnoc]
    exact buffer
  · rw [queue,editedSnoc,List.map_append]
    exact line
  · rw [held.told,editedSnoc,List.map_append]
    exact met.symm

theorem Lined.output (held : Lined t asks bytes told) (msg : Msg) (kind : Cmd) :
    Lined (usart0ServeWrite t msg kind).1 asks bytes told := by
  rw [usart0ServeWriteMeets]
  split <;> exact ⟨held.buffer,held.real,held.line,held.told⟩

theorem ttyUsart0Input {i : TtyInput} {replies : List Msg} (mode : t.ttymode = true)
    (held : Lined t asks bytes told) (legal : FromClients t i) (ok : ttyUsart0 i.rx t i.msg = some (t',replies)) :
    Lined t' (asks ++ asked (ttyArrivals t i)) (bytes ++ Vfs.typed (ttyArrivals t i))
      (told ++ if requestOf i.msg.cmd = some .readc then replies.filterMap heard else []) := by
  unfold ttyUsart0 at ok
  unfold ttyArrivals
  split at ok
  case h_1 call =>
    obtain ⟨rfl,rfl⟩ := Prod.mk.inj (Option.some.inj ok)
    simpa [asked,typed,requestOf,call] using held.read call (legal call)
  case h_2 call =>
    obtain ⟨rfl,rfl⟩ := Prod.mk.inj (Option.some.inj ok)
    simpa [asked,typed,requestOf,call] using held.output i.msg .wrInterrupt
  case h_3 call =>
    dsimp only at ok
    rw [if_pos mode] at ok
    simp only [bind,Option.bind_eq_some_iff] at ok
    obtain ⟨⟨after,answers⟩,line,last⟩ := ok
    obtain ⟨rfl,rfl⟩ := Prod.mk.inj (Option.some.inj last)
    simpa [asked,typed,requestOf,call,heard,List.filterMap_map,Function.comp_def] using held.typed line
  case h_4 call =>
    obtain ⟨rfl,rfl⟩ := Prod.mk.inj (Option.some.inj ok)
    simpa [asked,typed,requestOf,call] using held.output i.msg .writec
  case h_5 read write readInterrupt writeInterrupt =>
    obtain ⟨rfl,rfl⟩ := Prod.mk.inj (Option.some.inj ok)
    have none : requestOf i.msg.cmd ≠ some .readc := by
      unfold requestOf
      split <;> simp_all
    rw [if_neg none]
    simpa [asked,typed,read,write,readInterrupt,writeInterrupt] using held

end

def Disciplined (t : Tty) (history : List TtyEvent) : Prop :=
  t.ttymode = true ∧ Lined t (asked history) (typed history) (ttyAnswered .readc history)

theorem ttyTurnInput {t t' : Tty} {i : TtyInput} {history out : List TtyEvent} (held : Disciplined t history)
    (legal : FromClients t i) (taken : ttyTurn t i = some (t',out)) : Disciplined t' (history ++ out) := by
  obtain ⟨mode,lined⟩ := held
  simp only [ttyTurn,bind,Option.bind_eq_some_iff] at taken
  obtain ⟨⟨after,replies⟩,ok,last⟩ := taken
  obtain ⟨rfl,rfl⟩ := Prod.mk.inj (Option.some.inj last)
  refine ⟨ttymodeKept mode ok,?_⟩
  rw [askedAppend,turnAsked,typedAppend,turnTyped,ttyAnsweredAppend,turnAnswered]
  exact ttyUsart0Input mode lined legal ok

-- Room in the buffer is all a turn needs.
theorem ttyTurnServes {t : Tty} (room : t.tbuf.length < tbufSize) (i : TtyInput) : (ttyTurn t i).isSome := by
  have stored : ttyStore t i.rx = some { t with tbuf := t.tbuf ++ [toChar i.rx] } := if_pos room
  have line : (ttyLine t i.rx).isSome := by
    unfold ttyLine
    rw [stored]
    repeat' split
    all_goals rfl
  obtain ⟨r,typed⟩ := Option.isSome_iff_exists.mp line
  have turn : (ttyUsart0 i.rx t i.msg).isSome := by
    unfold ttyUsart0
    rw [typed]
    repeat' split
    all_goals rfl
  obtain ⟨r,taken⟩ := Option.isSome_iff_exists.mp turn
  simp [ttyTurn,taken]

theorem disciplined {t : Tty} {history : List TtyEvent}
    (run : Run.Reaches ttyTurn FromClients (· = ttyStart) t history) : Disciplined t history :=
  run.invariant (P := Disciplined)
    (by
      rintro t rfl
      exact ⟨rfl,rfl,by simp [asked],Pairing.sharedNil,rfl⟩)
    (fun _ _ _ _ _ held legal taken => ttyTurnInput held legal taken)

theorem readersGetEditedStream {t : Tty} {history : List TtyEvent}
    (run : Run.Reaches ttyTurn FromClients (· = ttyStart) t history) :
    ttyAnswered .readc history =
      List.zipWith (fun r c => (r.client,c)) (asked history) (edited (typed history)) ∧
    t.tbuf.length = (uncommitted (typed history)).length ∧
    ((uncommitted (typed history)).length ≤ 127 → ∀ i, (ttyTurn t i).isSome) := by
  obtain ⟨-,lined⟩ := disciplined run
  have size : t.tbuf.length = (uncommitted (typed history)).length := by rw [lined.buffer,List.length_map]
  refine ⟨?_,size,?_⟩
  · rw [lined.told,List.zipWith_map_right]
    rfl
  · intro few i
    refine ttyTurnServes ?_ i
    rw [size]
    exact Nat.lt_succ_of_le few

-- A reader waits; "a", a backspace, "b" and a newline are typed; the reader gets the "b".
theorem readersGetEditedStreamAfterBackspace : ∃ t history,
    Run.Reaches ttyTurn FromClients (· = ttyStart) t history ∧ typed history = [97,8,98,10] ∧
    ttyAnswered .readc history = [(0x10,98)] := by
  have start : Run.Reaches ttyTurn FromClients (· = ttyStart) ttyStart [] := .start rfl
  have key : ∀ {t : Tty} {history : List TtyEvent} (b : Int) {t' : Tty} {out : List TtyEvent},
      Run.Reaches ttyTurn FromClients (· = ttyStart) t history →
      ttyTurn t ⟨⟨.rdInterrupt,0x20,0,0,0,none,.ttyUsart0⟩,b⟩ = some (t',out) →
      Run.Reaches ttyTurn FromClients (· = ttyStart) t' (history ++ out) := by
    intro t history b t' out before taken
    exact before.next (by simp [FromClients]) taken
  have waits := start.next (i := ⟨⟨.readc,0x10,0,0,0,none,.ttyUsart0⟩,0⟩) (by simp [FromClients]) rfl
  have line := key 10 (key 98 (key 8 (key 97 waits rfl) rfl) rfl) rfl
  exact ⟨_,_,line,rfl,(readersGetEditedStream line).1.trans rfl⟩

end Avros.Vfs
