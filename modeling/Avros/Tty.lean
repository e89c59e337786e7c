import Avros.Vfs

/-! `drivers/tty.c`, the driver task. `rx` is what it reads from UDR0, `out` collects
what it stores there. As in pipe.c a turn answers with the messages it sends to VFS. -/
namespace Avros.Vfs

def tbufSize : Nat := 128

structure Tty where
  rdQ : List Msg
  wrQ : List Msg
  tbuf : List Int
  ttymode : Bool
  out : List Int
  deriving DecidableEq, Repr

def usart0ServeWrite (t : Tty) (msg : Msg) (cmdToBeServed : Cmd) : Tty × Msg :=
  match t.wrQ with
  | container::rest =>
    if container.cmd = cmdToBeServed then
      let source := if msg.cmd = .wrInterrupt then container else msg
      ({ t with wrQ := rest, out := t.out ++ [source.w2 % 256] },
        { msg with client := source.client, w1 := 0, cmd := .final })
    else ({ t with wrQ := t.wrQ ++ [msg] },{ msg with cmd := .hold })
  | [] => ({ t with wrQ := t.wrQ ++ [msg] },{ msg with cmd := .hold })

-- Only the command, the client and the data of this local message are ever set.
def usart0PrintChar (t : Tty) (c : Int) : Tty :=
  (usart0ServeWrite t ⟨.writec,0,0,0,c,none,.ttyUsart0⟩ .wrInterrupt).1

def usartServeRead (t : Tty) (msg : Msg) (cmdToBeServed : Cmd) : Tty × Msg :=
  match t.rdQ with
  | container::rest =>
    if container.cmd = cmdToBeServed then
      let interrupt := msg.cmd = .rdInterrupt
      ({ t with rdQ := rest },{ msg with
        client := if interrupt then container.client else msg.client
        w2 := if interrupt then msg.w0 else container.w0
        w1 := 0
        cmd := .final })
    else ({ t with rdQ := t.rdQ ++ [msg] },{ msg with cmd := .hold })
  | [] => ({ t with rdQ := t.rdQ ++ [msg] },{ msg with cmd := .hold })

def usartReplyChar (t : Tty) (c : Int) : Tty × List Msg :=
  let r := usartServeRead t ⟨.rdInterrupt,0,c,0,0,none,.ttyUsart0⟩ .readc
  (r.1,if r.2.cmd ≠ .hold then [{ r.2 with cmd := .repeat_ }] else [])

def replyChars (t : Tty) : List Int → Tty × List Msg
  | [] => (t,[])
  | c::rest =>
    let first := usartReplyChar t c
    let others := replyChars first.1 rest
    (others.1,first.2 ++ others.2)

def ttyFlush (t : Tty) : Tty × List Msg :=
  let r := replyChars t t.tbuf
  ({ r.1 with tbuf := [] },r.2)

def ttyStore (t : Tty) (c : Int) : Option Tty :=
  if t.tbuf.length < tbufSize then some { t with tbuf := t.tbuf ++ [toChar c] } else none

/- One character in line mode. -/
def ttyLine (t : Tty) (c : Int) : Option (Tty × List Msg) :=
  if c = 0x04 then
    if t.tbuf = [] then some (usartReplyChar t eof) else some (ttyFlush (usart0PrintChar t 10))
  else if c = 0x03 then some (usart0PrintChar { t with tbuf := [] } 10,[])
  else if c = 0x08 then some ({ t with tbuf := t.tbuf.dropLast },[])
  else if c = 13 ∨ c = 10 then (ttyStore t c).map ttyFlush
  else (ttyStore t c).map (·,[])

def ttyUsart0 (rx : Int) (t : Tty) (msg : Msg) : Option (Tty × List Msg) :=
  match msg.cmd with
  | .readc =>
    let r := usartServeRead t msg .rdInterrupt
    some (r.1,[r.2])
  | .writec =>
    let r := usart0ServeWrite t msg .wrInterrupt
    some (r.1,[r.2])
  | .rdInterrupt =>
    let msg := { msg with w0 := rx }
    if t.ttymode then do
      let r ← ttyLine t rx
      some (r.1,r.2 ++ [{ msg with cmd := .hold }])
    else
      let r := usartServeRead t msg .readc
      some (r.1,[r.2])
  | .wrInterrupt =>
    let r := usart0ServeWrite t msg .writec
    some (r.1,[r.2])
  | _ => some (t,[msg])

def ttyStart : Tty := ⟨[],[],[],true,[]⟩

end Avros.Vfs
