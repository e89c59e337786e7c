import Avros.Pairing
import Avros.Run
import Avros.Vfs

/-! What a pipe is for: a line of callers. A call that finds a caller of the other kind
at the head of the line takes the byte across, and any other call joins the line. When
one end is left there is nobody to wait for. -/
namespace Avros.Vfs
open Run

structure Conduit where
  ends : Nat
  callers : List (Pid × Option Int)
  deriving DecidableEq, Repr

-- A READC, a WRITEC of one byte, or a change of the number of open ends.
inductive Use where
  | call (client : Pid) (byte : Option Int)
  | ends (n : Nat)
  deriving DecidableEq, Repr

structure Used where
  use : Use
  told : List (Pid × Int)
  deriving DecidableEq, Repr

def writes (c : Pid × Option Int) : Bool := c.2.isSome

def across (first last : Pid × Option Int) : List (Pid × Int) :=
  let byte := (first.2.or last.2).getD eof
  [(first.1,byte),(last.1,byte)]

def Conduit.turn (p : Conduit) : Use → Conduit × List (Pid × Int)
  | .call client byte =>
    if p.callers = [] ∧ p.ends ≤ 1 then (p,[(client,eof)])
    else
      let (callers,met) := Pairing.meet writes (!byte.isSome) p.callers (client,byte)
      ({ p with callers := callers },met.elim [] (fun first => across first (client,byte)))
  | .ends n =>
    if n ≤ 1 ∧ 1 < p.ends then (⟨n,[]⟩,p.callers.map (fun c => (c.1,eof))) else ({ p with ends := n },[])

def callersOf (kind : Bool) (log : List Used) : List (Pid × Option Int) :=
  log.filterMap (fun e => match e.use with
    | .call client byte => if byte.isSome = kind then some (client,byte) else none
    | .ends _ => none)

def Wide (e : Used) : Prop := ∀ n, e.use = .ends n → 2 ≤ n

/- As long as there are two ends, the k-th reader and the k-th writer meet, and both are told
the byte by the call of the later one. At the end of that, those that have not met are told EOF. -/
def paired (before : List Used) (e : Used) : Prop := (∀ f ∈ before, Wide f) →
  match e.use with
  | .call client byte => e.told =
      (callersOf (!byte.isSome) before)[(callersOf byte.isSome before).length]?.elim []
        (fun first => across first (client,byte))
  | .ends n => e.told = if 2 ≤ n then [] else
      ((callersOf false before).drop (callersOf true before).length ++
        (callersOf true before).drop (callersOf false before).length).map (fun c => (c.1,eof))

/- From there on, until there are two ends again, each call is told EOF. -/
def shut (before : List Used) (e : Used) : Prop :=
  ∀ front mid n told, before = front ++ ⟨.ends n,told⟩ :: mid → n ≤ 1 → (∀ f ∈ mid, ∀ k, f.use = .ends k → k ≤ 1) →
    ∀ client byte, e.use = .call client byte → e.told = [(client,eof)]

section
variable {p p' : Conduit} {n : Nat} {log : List Used}

theorem callersOfSnoc (kind : Bool) (log : List Used) (e : Used) :
    callersOf kind (log ++ [e]) = callersOf kind log ++ callersOf kind [e] := List.filterMap_append

/- Two ends, and the line holds who has not met. -/
structure Flows (p : Conduit) (log : List Used) : Prop where
  ends : 2 ≤ p.ends
  line : Pairing.Shared writes false true p.callers (callersOf false log) (callersOf true log)

theorem Flows.told (flows : Flows p log) (u : Use) : paired log ⟨u,(p.turn u).2⟩ := by
  intro _
  have two := flows.ends
  cases u with
  | call client byte =>
    have open_ : ¬ (p.callers = [] ∧ p.ends ≤ 1) := by omega
    simp only [Conduit.turn,if_neg open_]
    cases byte with
    | none => rw [Option.isSome_none,Bool.not_false,flows.line.across (by decide)]
    | some b => rw [Option.isSome_some,Bool.not_true,flows.line.flip.across (by decide)]
  | ends n =>
    simp only [Conduit.turn]
    by_cases few : n ≤ 1
    · rw [if_pos ⟨few,two⟩,if_neg (by omega),flows.line.line]
    · rw [if_neg (fun both => few both.1),if_pos (by omega)]

theorem Flows.keep (flows : Flows p log) (u : Use) (wide : Wide ⟨u,(p.turn u).2⟩) :
    Flows (p.turn u).1 (log ++ [⟨u,(p.turn u).2⟩]) := by
  have two := flows.ends
  cases u with
  | call client byte =>
    have open_ : ¬ (p.callers = [] ∧ p.ends ≤ 1) := by omega
    simp only [Conduit.turn,if_neg open_]
    refine ⟨two,?_⟩
    cases byte with
    | none =>
      have joined := (flows.line.left (by decide) (a := (client,none)) rfl (fun _ _ => ())).1
      simpa [callersOfSnoc,callersOf] using joined
    | some b =>
      have joined := (flows.line.right (by decide) (b := (client,some b)) rfl (fun _ _ => ())).1
      simpa [callersOfSnoc,callersOf] using joined
  | ends n =>
    have more : 2 ≤ n := wide n rfl
    simp only [Conduit.turn,if_neg (fun both : n ≤ 1 ∧ 1 < p.ends => by omega)]
    exact ⟨more,by simpa [callersOfSnoc,callersOf] using flows.line⟩

end

end Avros.Vfs
