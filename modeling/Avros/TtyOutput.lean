import Avros.TtyTurns

/-! The output of the terminal. A request to write and a transmitter interrupt meet in
order of arrival, whichever waits for the other, and only then is a byte stored. -/
namespace Avros.Vfs

structure Paced (queue wants readies : List Msg) (out : List Int) (told : List Pid) : Prop where
  line : Pairing.Shared Msg.cmd .writec .wrInterrupt queue wants readies
  stored : out = (List.zipWith (fun w _ => w) wants readies).map (fun w => w.w2 % 256)
  told : told = ((List.zipWith (fun w _ => w) wants readies).map (·.client)).filter (· ≠ 0)

def toldBy (m : Msg) : List Pid := ([m].filterMap heard).map (·.1)

theorem toldByHeld (m : Msg) : toldBy { m with cmd := .hold } = [] := by simp [toldBy,heard]

theorem toldByFinal {m : Msg} (final : m.cmd = .final) : toldBy m = [m.client].filter (· ≠ 0) := by
  by_cases null : m.client = 0 <;> simp [toldBy,heard,final,null]

section
variable {t : Tty} {wants readies : List Msg} {told : List Pid}

theorem Paced.request (held : Paced t.wrQ wants readies t.out told) {w : Msg} (call : w.cmd = .writec) :
    Paced (usart0ServeWrite t w .wrInterrupt).1.wrQ (wants ++ [w]) readies
      (usart0ServeWrite t w .wrInterrupt).1.out (told ++ toldBy (usart0ServeWrite t w .wrInterrupt).2) := by
  obtain ⟨line,met⟩ := held.line.left (by decide) call (fun w _ => w)
  have own : ¬ w.cmd = .wrInterrupt := by rw [call]; decide
  rw [usart0ServeWriteMeets]
  cases meeting : Pairing.meet Msg.cmd .wrInterrupt t.wrQ w with
  | mk queue container =>
    rw [meeting] at line met
    cases container with
    | none =>
      refine ⟨line,?_,?_⟩
      · rw [met,held.stored]
        simp
      · rw [met,held.told,toldByHeld]
        simp
    | some c =>
      refine ⟨line,?_,?_⟩
      · rw [met,held.stored]
        simp [own]
      · rw [met,held.told,toldByFinal rfl]
        simp [own]

theorem Paced.ready (held : Paced t.wrQ wants readies t.out told) {r : Msg} (call : r.cmd = .wrInterrupt) :
    Paced (usart0ServeWrite t r .writec).1.wrQ wants (readies ++ [r])
      (usart0ServeWrite t r .writec).1.out (told ++ toldBy (usart0ServeWrite t r .writec).2) := by
  obtain ⟨line,met⟩ := held.line.right (by decide) call (fun w _ => w)
  rw [usart0ServeWriteMeets]
  cases meeting : Pairing.meet Msg.cmd .writec t.wrQ r with
  | mk queue container =>
    rw [meeting] at line met
    cases container with
    | none =>
      refine ⟨line,?_,?_⟩
      · rw [met,held.stored]
        simp
      · rw [met,held.told,toldByHeld]
        simp
    | some c =>
      refine ⟨line,?_,?_⟩
      · rw [met,held.stored]
        simp [call]
      · rw [met,held.told,toldByFinal rfl]
        simp [call]

theorem Paced.printed (held : Paced t.wrQ wants readies t.out told) (c : Int) :
    Paced (usart0PrintChar t c).wrQ (wants ++ [echo c]) readies (usart0PrintChar t c).out told := by
  have nobody : toldBy (usart0ServeWrite t (echo c) .wrInterrupt).2 = [] := by
    have client : (usart0ServeWrite t (echo c) .wrInterrupt).2.client = 0 := by
      rw [usart0ServeWriteMeets]
      split <;> rfl
    simp [toldBy,heard,client]
  have printed := held.request (w := echo c) rfl
  rw [nobody,List.append_nil] at printed
  exact printed

end

/-! Reading leaves the output alone. -/

theorem Paced.echoes {t : Tty} {wants readies : List Msg} {told : List Pid} (chars : List Int)
    (held : Paced t.wrQ wants readies t.out told) :
    Paced (chars.foldl usart0PrintChar t).wrQ (wants ++ chars.map echo) readies
      (chars.foldl usart0PrintChar t).out told := by
  induction chars generalizing t wants with
  | nil => simpa using held
  | cons c rest ih =>
    have later := ih (held.printed c)
    rw [List.append_assoc] at later
    exact later

end Avros.Vfs
