import Mathlib.Data.List.TakeWhile
import Avros.ShellArgs
import Avros.ShellLine

/-! `usr/sh.c`, the way of a job's text: builtin() and execute() copy it into buffers of
MAX_JOBLEN bytes, and it goes as a message to exec_job, or through launch_job to exec_job. -/
namespace Avros.Pipeline.Buffers
open Pipeline Line Args

def maxJoblen : Nat := 32

-- None if the copy runs past the end of the buffer.
def strcpy (dst src : List Char) : Option (List Char) :=
  if (cString src).length < dst.length then some (cString src ++ nul::dst.drop ((cString src).length + 1)) else none

-- `receive(TASK_ANY,cmd,MAX_JOBLEN)`: the kernel copies as much as the receiver asks for.
def receive (message : List Char) : List Char := message.take maxJoblen

-- What the heap holds where the buffers are, behind args, and at the address 0.
structure Heap where
  line : List Char
  job : List Char
  behind : Nat → Option Nat
  atNull : List Char

def arg0 (h : Heap) (p : Parse) : List Char :=
  match p.args 0 with
  | some t => cString (p.text.drop t)
  | none => cString h.atNull

def builtin (h : Heap) (cmd : List Char) : Option Bool := do
  let line ← strcpy h.line cmd
  let p := parseArgs false false line h.behind
  some (arg0 h p = ['e','x','i','t'] || arg0 h p = ['c','d'])

-- What exec_job receives; nothing is sent for a builtin.
def execute (h : Heap) (direct : Bool) (line : List Char) : Option (Option (List Char)) := do
  let done ← if direct then builtin h line else some false
  if done then some none
  else
    let job ← strcpy h.job line
    some (some (if direct then receive job else receive (receive job)))

structure Heap.Sized (h : Heap) : Prop where
  line : h.line.length = maxJoblen
  job : h.job.length = maxJoblen

section
variable {n : Nat} {text line dst cmd cmdline junk : List Char} {job : Job} {jobs : List Job} {h : Heap}

def long : List Char := List.replicate maxJoblen 'a'

end

end Avros.Pipeline.Buffers
