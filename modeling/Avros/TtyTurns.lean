import Avros.PipeFifo

/-! The turns of the terminal's driver as a history: what reaches it (requests to write
and to read, transmitter interrupts, typed bytes), what it stores to UDR0 and what VFS
sends to the clients it answers. A character that usart0_print_char prints is a request
to write without a client. -/
namespace Avros.Vfs

-- A message of VFS, and what UDR0 holds while it is served.
structure TtyInput where
  msg : Msg
  rx : Int

inductive TtyEvent where
  | wants (m : Msg)
  | ready (m : Msg)
  | asks (m : Msg)
  | typed (b : Int)
  | stored (b : Int)
  | answered (request : Cmd) (client : Pid) (data : Int)
  deriving DecidableEq, Repr

def echo (c : Int) : Msg := ⟨.writec,0,0,0,c,none,.ttyUsart0⟩

def ttyEchoes (t : Tty) (c : Int) : List Int :=
  if c = 0x04 then if t.tbuf = [] then [] else [10]
  else if c = 0x03 then [10]
  else []

def ttyArrivals (t : Tty) (i : TtyInput) : List TtyEvent :=
  match i.msg.cmd with
  | .readc => [.asks i.msg]
  | .writec => [.wants i.msg]
  | .rdInterrupt => .typed i.rx::(ttyEchoes t i.rx).map (fun c => .wants (echo c))
  | .wrInterrupt => [.ready i.msg]
  | _ => []

-- Answers to other requests are not answers to a read or a write.
def ttyAnswers (cmd : Cmd) (replies : List Msg) : List TtyEvent :=
  match cmd with
  | .readc => (replies.filterMap heard).map (fun a => .answered .readc a.1 a.2)
  | .rdInterrupt => (replies.filterMap heard).map (fun a => .answered .readc a.1 a.2)
  | .writec => (replies.filterMap heard).map (fun a => .answered .writec a.1 a.2)
  | .wrInterrupt => (replies.filterMap heard).map (fun a => .answered .writec a.1 a.2)
  | _ => []

def ttyTurn : Run.Step Tty TtyInput TtyEvent := fun t i => do
  let (after,replies) ← ttyUsart0 i.rx t i.msg
  some (after,ttyArrivals t i ++ (after.out.drop t.out.length).map .stored ++ ttyAnswers i.msg.cmd replies)

def wanted (history : List TtyEvent) : List Msg :=
  history.filterMap (fun e => match e with | .wants m => some m | _ => none)

def asked (history : List TtyEvent) : List Msg :=
  history.filterMap (fun e => match e with | .asks m => some m | _ => none)

def typed (history : List TtyEvent) : List Int :=
  history.filterMap (fun e => match e with | .typed b => some b | _ => none)

def stores (history : List TtyEvent) : List Int :=
  history.filterMap (fun e => match e with | .stored b => some b | _ => none)

def ttyAnswered (request : Cmd) (history : List TtyEvent) : List (Pid × Int) :=
  history.filterMap (fun e => match e with
    | .answered r client data => if r = request then some (client,data) else none
    | _ => none)

/-! What one turn adds to each list. -/

section
variable (history more : List TtyEvent)

theorem askedAppend : asked (history ++ more) = asked history ++ asked more := List.filterMap_append
theorem typedAppend : typed (history ++ more) = typed history ++ typed more := List.filterMap_append
theorem ttyAnsweredAppend (request : Cmd) : ttyAnswered request (history ++ more) =
    ttyAnswered request history ++ ttyAnswered request more := List.filterMap_append

end

def requestOf : Cmd → Option Cmd
  | .readc => some .readc
  | .rdInterrupt => some .readc
  | .writec => some .writec
  | .wrInterrupt => some .writec
  | _ => none

theorem ttyAnswersAs (cmd : Cmd) (replies : List Msg) : ttyAnswers cmd replies =
    (requestOf cmd).toList.flatMap (fun k => (replies.filterMap heard).map (fun a => .answered k a.1 a.2)) := by
  cases cmd <;> simp [ttyAnswers,requestOf]

section
variable (t : Tty) (i : TtyInput) (bytes : List Int) (replies : List Msg)

theorem turnAsked : asked (ttyArrivals t i ++ bytes.map .stored ++ ttyAnswers i.msg.cmd replies) =
    asked (ttyArrivals t i) := by
  simp [asked,ttyAnswersAs,List.filterMap_map,List.filterMap_flatMap]

theorem turnTyped : typed (ttyArrivals t i ++ bytes.map .stored ++ ttyAnswers i.msg.cmd replies) =
    typed (ttyArrivals t i) := by
  simp [typed,ttyAnswersAs,List.filterMap_map,List.filterMap_flatMap]

theorem turnAnswered (request : Cmd) :
    ttyAnswered request (ttyArrivals t i ++ bytes.map .stored ++ ttyAnswers i.msg.cmd replies) =
      if requestOf i.msg.cmd = some request then replies.filterMap heard else [] := by
  have none : ttyAnswered request (ttyArrivals t i ++ bytes.map .stored) = [] := by
    unfold ttyArrivals
    split <;> simp [ttyAnswered,List.filterMap_map]
  rw [ttyAnsweredAppend,none,List.nil_append,ttyAnswersAs]
  cases kind : requestOf i.msg.cmd with
  | none => simp [ttyAnswered]
  | some k =>
    by_cases same : k = request
    · simp [ttyAnswered,List.filterMap_map,same]
    · simp [ttyAnswered,List.filterMap_map,same]

end

section
variable (t : Tty) (msg : Msg) (kind : Cmd)

/- Both routines look at the first container only. -/
theorem usart0ServeWriteMeets : usart0ServeWrite t msg kind =
    match Pairing.meet Msg.cmd kind t.wrQ msg with
    | (queue,some container) =>
      ({ t with wrQ := queue, out := t.out ++ [(if msg.cmd = .wrInterrupt then container else msg).w2 % 256] },
        { msg with client := (if msg.cmd = .wrInterrupt then container else msg).client, w1 := 0, cmd := .final })
    | (queue,none) => ({ t with wrQ := queue },{ msg with cmd := .hold }) := by
  unfold usart0ServeWrite Pairing.meet
  cases t.wrQ with
  | nil => rfl
  | cons container rest =>
    by_cases served : container.cmd = kind
    · simp only [if_pos served]
    · simp only [if_neg served]

theorem usartServeReadMeets : usartServeRead t msg kind =
    match Pairing.meet Msg.cmd kind t.rdQ msg with
    | (queue,some container) => ({ t with rdQ := queue },{ msg with
        client := if msg.cmd = .rdInterrupt then container.client else msg.client
        w2 := if msg.cmd = .rdInterrupt then msg.w0 else container.w0
        w1 := 0
        cmd := .final })
    | (queue,none) => ({ t with rdQ := queue },{ msg with cmd := .hold }) := by
  unfold usartServeRead Pairing.meet
  cases t.rdQ with
  | nil => rfl
  | cons container rest =>
    by_cases served : container.cmd = kind
    · simp only [if_pos served]
    · simp only [if_neg served]

end

/-! Line mode is never left. -/

theorem serveWriteMode (t : Tty) (msg : Msg) (kind : Cmd) : (usart0ServeWrite t msg kind).1.ttymode = t.ttymode := by
  rw [usart0ServeWriteMeets]
  split <;> rfl

theorem serveReadMode (t : Tty) (msg : Msg) (kind : Cmd) : (usartServeRead t msg kind).1.ttymode = t.ttymode := by
  rw [usartServeReadMeets]
  split <;> rfl

theorem replyCharsMode (chars : List Int) (t : Tty) : (replyChars t chars).1.ttymode = t.ttymode := by
  induction chars generalizing t with
  | nil => rfl
  | cons c rest ih => exact (ih _).trans (serveReadMode t _ _)

theorem ttyLineMode {t t' : Tty} {c : Int} {replies : List Msg} (ok : ttyLine t c = some (t',replies)) :
    t'.ttymode = t.ttymode := by
  have flushed : ∀ u : Tty, (ttyFlush u).1.ttymode = u.ttymode := fun u => replyCharsMode u.tbuf u
  have stored : ∀ u, ttyStore t c = some u → u.ttymode = t.ttymode := by
    intro u ok
    unfold ttyStore at ok
    split at ok <;> try contradiction
    cases Option.some.inj ok
    rfl
  unfold ttyLine at ok
  split at ok
  · split at ok
    · cases Option.some.inj ok
      exact serveReadMode t _ _
    · have mode := flushed (usart0PrintChar t 10)
      rw [Option.some.inj ok] at mode
      exact mode.trans (serveWriteMode t _ _)
  split at ok
  · cases Option.some.inj ok
    exact serveWriteMode { t with tbuf := [] } _ _
  split at ok
  · cases Option.some.inj ok
    rfl
  split at ok
  · obtain ⟨next,kept,same⟩ := Option.map_eq_some_iff.mp ok
    have mode := flushed next
    rw [same] at mode
    exact mode.trans (stored next kept)
  · obtain ⟨next,kept,same⟩ := Option.map_eq_some_iff.mp ok
    cases same
    exact stored t' kept

theorem ttymodeKept {t t' : Tty} {i : TtyInput} {replies : List Msg} (mode : t.ttymode = true)
    (ok : ttyUsart0 i.rx t i.msg = some (t',replies)) : t'.ttymode = true := by
  unfold ttyUsart0 at ok
  split at ok
  case h_1 =>
    obtain ⟨rfl,-⟩ := Prod.mk.inj (Option.some.inj ok)
    exact (serveReadMode t _ _).trans mode
  case h_2 =>
    obtain ⟨rfl,-⟩ := Prod.mk.inj (Option.some.inj ok)
    exact (serveWriteMode t _ _).trans mode
  case h_3 =>
    dsimp only at ok
    rw [if_pos mode] at ok
    simp only [bind,Option.bind_eq_some_iff] at ok
    obtain ⟨⟨after,answers⟩,typed,last⟩ := ok
    obtain ⟨rfl,-⟩ := Prod.mk.inj (Option.some.inj last)
    exact (ttyLineMode typed).trans mode
  case h_4 =>
    obtain ⟨rfl,-⟩ := Prod.mk.inj (Option.some.inj ok)
    exact (serveWriteMode t _ _).trans mode
  case h_5 =>
    obtain ⟨rfl,-⟩ := Prod.mk.inj (Option.some.inj ok)
    exact mode

end Avros.Vfs
