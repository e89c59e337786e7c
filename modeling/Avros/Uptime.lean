import Avros.Clock
import Avros.Numerals
import Avros.ProgramOptions

/-! `usr/apps.c`, pr_uptime(): what the time server answers, put together in ints of two
bytes. -/
namespace Avros.Usr.Uptime
open Options Print TimeServer Run
open Vfs (charByte toInt16)
open Vfs.Path (nul)

-- `ut.sec + ut.min * 60 + ut.hour * 3600`
def seconds (ut : Time) : Int := toInt16 (toInt16 (ut.sec + toInt16 (ut.min * 60)) + toInt16 (ut.hour * 3600))

-- `ut` is what getuptime() brings, once the options have been read.
def prUptime (w : World) (argv : List (List Char)) (ut : Time) (n : Nat) : Task Int := do
  let (opt,_) ← flagged w argv 's' n initgetopt false
  if opt then mfputu w 1 (unsigned (seconds ut))
  else mfprintf w 1 ['%','d',':','%','d',':','%','d',nul] [.int ut.hour,.int ut.min,.int ut.sec]
  mfputc w 1 (charByte '\n')
  pure 0

def inSeconds : List (List Char) := [['u','p','t','i','m','e'],['-','s']]

/- After `n` ticks of the server the program prints the seconds of the day, as its clock
shows them. -/
def TellsSeconds (n : Nat) : Prop :=
  ∀ ts history, Reaches step TimeServer.Any Started ts history → ticksIn history = n →
    ∀ i, i.request = .getUptime → ∃ ut, step ts i = some (ts,[.replied i.client (some ut)]) ∧
      ut.sec + 60 * ut.min + 3600 * ut.hour = n / 30 % 86400 ∧
      ∀ w s, Takes w 1 → ∃ k, outcome (prUptime w inSeconds ut k) s =
        some (.ok 0,s.wrote 1 ((Nat.toDigits 10 (n / 30 % 86400) ++ ['\n']).map charByte))

section
variable {ut : Time} {n k : Nat} {w : World} {s : Io}

theorem secondsWrap (ut : Time) : unsigned (seconds ut) = ut.seconds % 65536 := by
  unfold unsigned seconds Time.seconds toInt16
  omega

theorem optionS : Flag 's' := ⟨by decide,by decide⟩

theorem scanSeconds : scan ['s'] [] inSeconds.tail 1 = ([.letter 's' none],2) := by
  rw [inSeconds,List.tail_cons,scan,scanPlain (by decide),scan] <;> simp [reporting]

theorem prUptimePuts (w : World) (ut : Time) (k : Nat) : prUptime w inSeconds ut k = if 1 < k then (do
    puts w 1 ((Nat.toDigits 10 (ut.seconds % 65536) ++ ['\n']).map charByte)
    pure 0) else outside := by
  obtain ⟨last,-,loop⟩ := @optionsTaken inSeconds 's' optionS (by decide) (by rw [scanSeconds]; rfl) w
  rw [scanSeconds] at loop
  rw [prUptime,loop]
  by_cases enough : 1 < k
  · rw [if_pos enough,if_pos (show [Found.letter 's' none].length < k from enough),pure_bind,List.map_append,putsAppend,
      bind_assoc,← secondsWrap,← mfputuPuts,List.map_singleton]
    have last : puts w 1 [charByte '\n'] = mfputc w 1 (charByte '\n') := putsOne w 1 _
    rw [last]
    rfl
  · rw [if_neg enough,if_neg (show ¬ [Found.letter 's' none].length < k from enough)]
    rfl

theorem digitsPlain (n : Nat) : Vfs.eof ∉ (Nat.toDigits 10 n ++ ['\n']).map charByte := by
  intro member
  obtain ⟨c,inside,byte⟩ := List.mem_map.mp member
  rcases List.mem_append.mp inside with digit | last
  · obtain ⟨value,low,-⟩ := digitRange (digitsDecimal n c digit)
    rw [value] at byte
    exact absurd byte (by unfold Vfs.eof; omega)
  · rw [List.mem_singleton.mp last] at byte
    exact absurd byte (by decide)

theorem numeralOnly {a b : Nat}
    (same : (Nat.toDigits 10 a ++ ['\n']).map charByte = (Nat.toDigits 10 b ++ ['\n']).map charByte) : a = b := by
  have back : ∀ n, ((Nat.toDigits 10 n).map charByte).map byteChar = Nat.toDigits 10 n := by
    intro n
    have own : ∀ c ∈ Nat.toDigits 10 n, (byteChar ∘ charByte) c = id c := by
      intro c member
      obtain ⟨-,-,high⟩ := digitRange (digitsDecimal n c member)
      exact byteOf (by omega)
    rw [List.map_map,List.map_congr_left own,List.map_id]
  rw [List.map_append,List.map_append,List.append_cancel_right_eq] at same
  have digits : Nat.toDigits 10 a = Nat.toDigits 10 b := by rw [← back a,same,back]
  calc
    a = Nat.ofDigitChars 10 (Nat.toDigits 10 a) 0 := Nat.ofDigitChars_ten_toDigits.symm
    _ = Nat.ofDigitChars 10 (Nat.toDigits 10 b) 0 := by rw [digits]
    _ = b := Nat.ofDigitChars_ten_toDigits

theorem prUptimeRun (takes : Takes w 1) (ut : Time) (s : Io) : outcome (prUptime w inSeconds ut 2) s =
    some (.ok 0,s.wrote 1 ((Nat.toDigits 10 (ut.seconds % 65536) ++ ['\n']).map charByte)) := by
  rw [prUptimePuts,if_pos (by decide),bindReturned (putsTaken takes (digitsPlain _) s)]
  rfl

theorem clockSeconds {ts : Ts} {history : List Event} (run : Reaches step TimeServer.Any Started ts history)
    (counted : ticksIn history = n) : ts.uptime.seconds = n / 30 % 86400 := by
  rw [(uptimeRun run).2.seconds,counted]

theorem tellsLow (tells : TellsSeconds n) : n / 30 % 86400 < 65536 := by
  obtain ⟨ts,history,-,ticked,counted,-⟩ := ticksOnward idleQueued n
  have run : Reaches step TimeServer.Any Started ts history :=
    ticked.weaken (fun _ _ _ => trivial) (fun s same => by rw [same]; exact ⟨_,_,rfl⟩)
  obtain ⟨ut,taken,-,prints⟩ := tells ts history run counted ⟨0,.getUptime,0,blank⟩ rfl
  cases taken
  have takes := (echoingEchoes 1).takes
  obtain ⟨k,ran⟩ := prints _ ⟨[],[]⟩ takes
  rw [prUptimePuts] at ran
  split at ran <;> try contradiction
  rw [bindReturned (putsTaken takes (digitsPlain _) _)] at ran
  have calls := congrArg Io.calls (Prod.mk.inj (Option.some.inj ran)).2
  have writes : Function.Injective (Call.writec 1) := fun a b eq => (Call.writec.inj eq).2
  have same := numeralOnly (List.map_injective_iff.mpr writes (List.append_cancel_left calls))
  rw [clockSeconds run counted] at same
  omega

/-- `uptime -s` tells the seconds of the day exactly while they are below 65536, until 18:12:16. -/
theorem secondsTold (n : Nat) : TellsSeconds n ↔ n / 30 % 86400 < 65536 := by
  refine ⟨tellsLow,fun low ts history run counted i asked => ?_⟩
  have value := clockSeconds run counted
  refine ⟨ts.uptime,by rw [step,asked],?_,fun w s takes => ⟨2,?_⟩⟩
  · rw [← value]
    unfold Time.seconds
    omega
  · rw [prUptimeRun takes,value,Nat.mod_eq_of_lt low]

-- At 18:12:16 it starts again from 0.
theorem secondsWrapped : ¬ TellsSeconds 1966080 := fun tells => absurd (tellsLow tells) (by decide)

end

end Avros.Usr.Uptime
