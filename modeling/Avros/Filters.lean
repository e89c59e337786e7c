import Mathlib.Data.List.Induction
import Avros.SharedFile

/-! `usr/apps.c`, docat() and docap(): the loop that reads a byte, changes it and writes it, one
call of VFS after the other. Between two files of memfile such a loop copies, whatever the other
tasks do meanwhile to other files. -/
namespace Avros.Filters
open Vfs Run

/- A call to make, a call that has no answer yet, or the end of the loop. -/
inductive Phase where
  | get
  | getting
  | put (c : Int)
  | putting (c : Int)
  | returned
  | exited
  deriving DecidableEq, Repr

-- readc(STDIN), or writec(1,c)
def Phase.asks : Phase → Msg → Prop
  | .get,m => m.cmd = .readc ∧ m.w0 = 0
  | .put c,m => m.cmd = .writec ∧ m.w0 = 1 ∧ m.w2 = c
  | _,_ => False

def Phase.asked : Phase → Phase
  | .get => .getting
  | .put c => .putting c
  | ph => ph

/- mgetc() hands over what is read, and the loop ends at EOF; mfputc() calls mexit() when
EOF is what writec() answers. -/
def Phase.answered (tr : Int → Int) (v : Int) : Phase → Phase
  | .getting => if v = eof then .returned else .put (tr v)
  | .putting _ => if v = eof then .exited else .get
  | ph => ph

def capital (c : Int) : Int := if 97 ≤ c ∧ c ≤ 122 then c - (97 - 65) else c

def docat : Int → Phase → Phase := Phase.answered id
def docap : Int → Phase → Phase := Phase.answered capital

-- A task that runs no such loop has returned from it.
structure Session where
  sys : System Devices
  phase : Pid → Phase

def heard (loop : Pid → Int → Phase → Phase) (phase : Pid → Phase) (told : List (Pid × Int)) : Pid → Phase :=
  told.foldl (fun phase m => Function.update phase m.1 (loop m.1 m.2 (phase m.1))) phase

-- Who asks, and who is told what.
abbrev Said := Pid × List (Pid × Int)

def working (loop : Pid → Int → Phase → Phase) : Step Session Input Said := fun s i => do
  let (sys,out) ← served s.sys i
  let asked := Function.update s.phase i.request.client (s.phase i.request.client).asked
  some (⟨sys,heard loop asked (sends out)⟩,[(i.request.client,sends out)])

section
variable {loop : Pid → Int → Phase → Phase} {tr : Int → Int} {phase : Pid → Phase} {told : List (Pid × Int)} {p : Pid}

def toldTo (p : Pid) (told : List (Pid × Int)) : List Int := told.filterMap (fun m => if m.1 = p then some m.2 else none)

theorem heardAt (loop : Pid → Int → Phase → Phase) (phase : Pid → Phase) (told : List (Pid × Int)) (p : Pid) :
    heard loop phase told p = (toldTo p told).foldl (fun ph v => loop p v ph) (phase p) := by
  induction told generalizing phase with
  | nil => rfl
  | cons m rest ih =>
    rw [heard,List.foldl_cons]
    refine (ih _).trans ?_
    by_cases mine : m.1 = p
    · subst mine
      simp [toldTo]
    · simp [toldTo,mine,Function.update_of_ne (Ne.symm mine)]

def Phase.Idle (ph : Phase) : Prop := ph ≠ .getting ∧ ∀ c, ph ≠ .putting c

theorem heardIdle (loops : loop p = Phase.answered tr) (idle : (phase p).Idle) (told : List (Pid × Int)) :
    heard loop phase told p = phase p := by
  have deaf : ∀ v, (phase p).answered tr v = phase p := by
    intro v
    cases at_ : phase p with
    | getting => exact absurd at_ idle.1
    | putting c => exact absurd at_ (idle.2 c)
    | get | put c | returned | exited => rfl
  rw [heardAt,loops]
  induction toldTo p told with
  | nil => rfl
  | cons v rest ih =>
    rw [List.foldl_cons,deaf]
    exact ih

theorem heardOne (v : Int) : heard loop phase [(p,v)] p = loop p v (phase p) := by
  simp [heard]

theorem capitalEof {v : Int} (real : v ≠ eof) : capital v ≠ eof := by
  unfold capital eof at *
  split <;> omega
end

def puts (t : Tape) (out : List Int) : Tape := out.foldl (fun t b => (t.turn (some b)).1) t

theorem putsSnoc (t : Tape) (out : List Int) (b : Int) : puts t (out ++ [b]) = ((puts t out).turn (some b)).1 := by
  simp [puts]

theorem putsRun (t : Tape) (p : Pid) (out : List Int) : ∃ log, Reaches tape (fun _ _ => True) (· = t) (puts t out) log ∧
    log.map Transfer.call = out.map some := by
  induction out using List.reverseRecOn with
  | nil => exact ⟨[],.start rfl,rfl⟩
  | append_singleton out b ih =>
    obtain ⟨log,run,calls⟩ := ih
    rw [putsSnoc]
    exact ⟨_,run.next (i := (p,some b)) trivial rfl,by simp [calls]⟩

theorem putsFits {t : Tape} {out : List Int} (room : t.pos + out.length ≤ 127) (array : t.bytes.length = 128) :
    (puts t out).pos = t.pos + out.length ∧ (puts t out).bytes.length = 128 ∧
    (∀ j < t.pos, (puts t out).bytes[j]? = t.bytes[j]?) ∧
    ∀ (k : Nat) b, out[k]? = some b → (puts t out).bytes[t.pos + k]? = some (toChar b) := by
  obtain ⟨log,run,calls⟩ := putsRun t 0 out
  have size : log.length = out.length := by
    have same := congrArg List.length calls
    simpa using same
  have writes : ∀ e ∈ log, e.call ≠ none := by
    intro e member
    have there : e.call ∈ out.map some := calls ▸ List.mem_map_of_mem member
    obtain ⟨b,-,same⟩ := List.mem_map.mp there
    simp [← same]
  obtain ⟨pos,array',front,told⟩ := tapeWritten run writes (by omega) array
  refine ⟨by omega,array',front,?_⟩
  intro k b at_
  have inside := (List.getElem?_eq_some_iff.mp at_).1
  obtain ⟨e,entry⟩ : ∃ e, log[k]? = some e := ⟨_,List.getElem?_eq_getElem (by omega)⟩
  have call : e.call = some b := by
    have same := congrArg (fun l => l[k]?) calls
    simpa [entry,at_] using same
  exact (told k e b entry call).2 (by omega)

theorem putsSize {t : Tape} {out : List Int} (room : t.pos + out.length ≤ 127) (array : t.bytes.length = 128)
    (some_ : out ≠ []) : (puts t out).size = (t.pos + out.length : Nat) := by
  obtain ⟨front,b,rfl⟩ := (List.eq_nil_or_concat' out).resolve_left some_
  rw [List.length_append,List.length_singleton] at room ⊢
  have space : t.pos + front.length ≤ 127 := by omega
  have before := (putsFits space array).1
  rw [putsSnoc,Tape.turn,if_neg (by omega)]
  simp only [before]
  rfl

structure Place where
  fp : Nat
  pid : Pid
  dev : Int
  ino : Int
  links : Int

structure OnFile (s : System Devices) (p : Pid) (fd : Nat) (at_ : Place) (t : Tape) : Prop where
  leads : Leads s.vfs p fd at_.fp
  plays : Plays at_.fp at_.pid at_.dev at_.ino at_.links s t
  named : at_.links ≠ 0

def Apart (src dst : Place) : Prop := ¬ (src.pid = dst.pid ∧ src.ino = dst.ino)

def Away (at_ : Place) (s : System Devices) (i : Input) : Prop :=
  callThrough at_.fp s.vfs i.request = none ∧ ∀ k f b, callThrough k s.vfs i.request = some (some b) →
    s.vfs.filp[k]? = some f → device s.vfs f.dev = some at_.pid → f.ino ≠ at_.ino

/- What is asked of the requests: the task p follows its loop, and the others leave it, its two
entries and their files alone. -/
structure Works (p : Pid) (src dst : Place) (s : Session) (i : Input) : Prop where
  counting : Counting 255 s.sys i.request
  real : i.request.client ≠ 0
  follows : i.request.client = p → (s.phase p).asks i.request.msg
  stays : i.request.msg.cmd = .addtask ∨ i.request.msg.cmd = .deltask → about i.request ≠ p
  others : i.request.client ≠ p → Away src s.sys i ∧ Away dst s.sys i
  fresh : i.request.msg.cmd = .mkdev → i.request.newtask ≠ src.pid ∧ i.request.newtask ≠ dst.pid

def copied (tr : Int → Int) (bytes : List Int) (a n : Nat) : List Int :=
  (List.range n).map (fun k => tr (bytes.getD (a + k) 0))

/- Where the loop stands when it has copied n bytes: how far it has read, and how many calls
it has made. -/
inductive Stage (tr : Int → Int) (bytes : List Int) (top a b n : Nat) : Phase → Nat → Nat → Prop where
  | get (inside : a + n ≤ top) : Stage tr bytes top a b n .get (a + n) (2 * n)
  | put (inside : a + n < top) (real : bytes.getD (a + n) 0 ≠ eof) :
      Stage tr bytes top a b n (.put (tr (bytes.getD (a + n) 0))) (a + n + 1) (2 * n + 1)
  | ended (last : a + n = top) : Stage tr bytes top a b n .returned (a + n) (2 * n + 1)
  | broken (inside : a + n < top) (byte : bytes.getD (a + n) 0 = eof) :
      Stage tr bytes top a b n .returned (a + n + 1) (2 * n + 1)
  | full (inside : a + n < top) (real : bytes.getD (a + n) 0 ≠ eof) (last : b + n = 127) :
      Stage tr bytes top a b n .exited (a + n + 1) (2 * n + 2)

structure Copies (p : Pid) (tr : Int → Int) (src dst : Place) (bytes : List Int) (top a : Nat) (t : Tape) (s : Session)
    (calls n : Nat) : Prop where
  source : ∃ pos, OnFile s.sys p 0 src ⟨bytes,top,pos⟩ ∧ Stage tr bytes top a t.pos n (s.phase p) pos calls
  target : OnFile s.sys p 1 dst (puts t (copied tr bytes a n))
  clean : ∀ k < n, bytes.getD (a + k) 0 ≠ eof
  fits : t.pos + n ≤ 127

section
variable {loop : Pid → Int → Phase → Phase} {tr : Int → Int} {p : Pid} {src dst at_ : Place} {s s' : Session} {i : Input}
  {t u : Tape} {fd : Nat} {sys : System Devices} {out : List (Event Devices)}

theorem copiedSnoc (tr : Int → Int) (bytes : List Int) (a n : Nat) :
    copied tr bytes a (n + 1) = copied tr bytes a n ++ [tr (bytes.getD (a + n) 0)] := by
  simp [copied,List.range_succ]

theorem copiedLength (tr : Int → Int) (bytes : List Int) (a n : Nat) : (copied tr bytes a n).length = n := by
  simp [copied]

theorem OnFile.used (file : OnFile sys p fd at_ t) : ¬ Unreferenced sys.vfs at_.fp := by
  obtain ⟨u,found,held⟩ := file.leads
  exact fun none => none u (foundMember found).1 (List.mem_of_getElem? held)

theorem OnFile.through (file : OnFile sys p fd at_ t) (mine : i.request.client = p) (named : i.request.msg.w0 = fd)
    (call : i.request.msg.cmd = .readc ∨ i.request.msg.cmd = .writec) :
    callThrough at_.fp sys.vfs i.request = some (if i.request.msg.cmd = .readc then none else some i.request.msg.w2) := by
  have moves : Moves sys.vfs i.request at_.fp := ⟨call,fd,named,mine ▸ file.leads⟩
  obtain ⟨byte,through⟩ := moves.through file.plays.counted.shaped
  obtain ⟨-,-,-,-,-,kind⟩ := callThroughSource through
  rw [through]
  rcases kind with ⟨kind,rfl⟩ | ⟨kind,rfl⟩ <;> simp [kind]

theorem entriesApart (apart : Apart src dst) (source : OnFile sys p fd src t) {q : Pid} {fd' : Nat}
    (target : OnFile sys q fd' dst u) : src.fp ≠ dst.fp := by
  intro same
  obtain ⟨f,entry,dev,ino,-⟩ := source.plays.entry
  obtain ⟨g,entry',dev',ino',-⟩ := target.plays.entry
  rw [← same,entry] at entry'
  cases Option.some.inj entry'
  have there := source.plays.there
  rw [← dev,dev',target.plays.there] at there
  exact apart ⟨(Option.some.inj there).symm,ino.symm.trans ino'⟩

theorem Away.sharing (away : Away at_ sys i) (counting : Counting 255 sys i.request) (real : i.request.client ≠ 0)
    (used : ¬ Unreferenced sys.vfs at_.fp) (fresh : i.request.msg.cmd = .mkdev → i.request.newtask ≠ at_.pid) :
    Sharing at_.fp at_.pid at_.ino sys i :=
  ⟨counting,real,used,fun k f b through entry there onto => absurd onto (away.2 k f b through entry there),fresh⟩

theorem Works.kept (works : Works p src dst s i) (fd : Nat) : ¬ Takes p fd i.request := by
  rintro (⟨close,mine,-⟩ | ⟨call,about_⟩)
  · have asks := works.follows mine
    cases at_ : s.phase p with
    | get => rw [at_] at asks; simp [Phase.asks,close] at asks
    | put c => rw [at_] at asks; simp [Phase.asks,close] at asks
    | getting | putting c | returned | exited => rw [at_] at asks; exact asks
  · exact works.stays call about_

theorem OnFile.keeps (file : OnFile s.sys p fd at_ t) (works : Works p src dst s i) (taken : served s.sys i = some (sys,out))
    (plays : Plays at_.fp at_.pid at_.dev at_.ino at_.links sys u) : OnFile sys p fd at_ u := by
  obtain ⟨y,processed,rfl,-⟩ := servedSource taken
  exact ⟨processLeads (x := received s.sys i) rfl file.leads (works.kept fd) processed,plays,file.named⟩

theorem OnFile.turned (file : OnFile s.sys p fd at_ t) (works : Works p src dst s i) (mine : i.request.client = p)
    (sharing : Sharing at_.fp at_.pid at_.ino s.sys i) {byte : Option Int}
    (through : callThrough at_.fp s.sys.vfs i.request = some byte) :
    ∃ sys out, served s.sys i = some (sys,out) ∧ OnFile sys p fd at_ (t.turn byte).1 ∧ sends out = [(p,(t.turn byte).2)] := by
  obtain ⟨sys,out,taken,plays,told⟩ := file.plays.turned file.named sharing through
  exact ⟨sys,out,taken,file.keeps works taken plays,by rw [told,mine]⟩

theorem OnFile.still (file : OnFile s.sys p fd at_ t) (works : Works p src dst s i)
    (sharing : Sharing at_.fp at_.pid at_.ino s.sys i) (elsewhere : callThrough at_.fp s.sys.vfs i.request = none)
    (taken : served s.sys i = some (sys,out)) : OnFile sys p fd at_ t :=
  file.keeps works taken (file.plays.still file.named sharing elsewhere taken)

theorem entryAway (apart : Apart src dst) (file : OnFile sys p fd src t) {f : Filp} (entry : sys.vfs.filp[src.fp]? = some f)
    (there : device sys.vfs f.dev = some dst.pid) : f.ino ≠ dst.ino := by
  intro onto
  obtain ⟨g,entry',dev,ino,-⟩ := file.plays.entry
  cases Option.some.inj (entry.symm.trans entry')
  rw [dev,file.plays.there] at there
  exact apart ⟨Option.some.inj there,ino.symm.trans onto⟩

theorem Works.sharing (works : Works p src dst s i) (used : ¬ Unreferenced s.sys.vfs at_.fp)
    (fresh : i.request.msg.cmd = .mkdev → i.request.newtask ≠ at_.pid) {k : Nat} {byte : Option Int}
    (through : callThrough k s.sys.vfs i.request = some byte)
    (own : k = at_.fp ∨ ∀ f, s.sys.vfs.filp[k]? = some f → device s.sys.vfs f.dev = some at_.pid → f.ino ≠ at_.ino) :
    Sharing at_.fp at_.pid at_.ino s.sys i := by
  refine ⟨works.counting,works.real,used,?_,fresh⟩
  intro j f b through' entry there onto
  have only : j = k := callThroughOnly through through'
  subst only
  rcases own with same | away
  · exact same
  · exact absurd onto (away f entry there)

variable {bytes : List Int} {top a calls n : Nat}

theorem Stage.idle {b pos : Nat} {ph : Phase} (stage : Stage tr bytes top a b n ph pos calls) : ph.Idle := by
  cases stage <;> exact ⟨nofun,nofun⟩

-- A call of p gets one answer, in the turn of VFS that takes it.
def AnsweredOnce (p : Pid) (said : List Said) : Prop := ∀ e ∈ said, e.1 = p → ∃ v, e.2 = [(p,v)]

theorem copiesMine (loops : loop p = Phase.answered tr) (clean : ∀ v, v ≠ eof → tr v ≠ eof) (apart : Apart src dst)
    (few : top ≤ 127) (array : t.bytes.length = 128) (copies : Copies p tr src dst bytes top a t s calls n)
    (works : Works p src dst s i) (mine : i.request.client = p) :
    ∃ sys out, served s.sys i = some (sys,out) ∧ (∃ v, sends out = [(p,v)]) ∧
      ∃ n', Copies p tr src dst bytes top a t
        ⟨sys,heard loop (Function.update s.phase p (s.phase p).asked) (sends out)⟩ (calls + 1) n' := by
  obtain ⟨pos,source,stage⟩ := copies.source
  have target := copies.target
  have asks := works.follows mine
  have apart' : Apart dst src := fun both => apart ⟨both.1.symm,both.2.symm⟩
  have other := entriesApart apart source target
  generalize phase : s.phase p = ph at stage asks
  cases stage with
  | get inside =>
    obtain ⟨cmd,fd⟩ := asks
    have through := source.through mine fd (.inl cmd)
    rw [if_pos cmd] at through
    have sharing := works.sharing source.used (fun made => (works.fresh made).1) through (.inl rfl)
    have sharing' := works.sharing target.used (fun made => (works.fresh made).2) through
      (.inr fun f entry there => entryAway apart source entry there)
    obtain ⟨sys,out,taken,source',told⟩ := source.turned works mine sharing through
    have elsewhere : callThrough dst.fp s.sys.vfs i.request = none := by
      cases through' : callThrough dst.fp s.sys.vfs i.request with
      | none => rfl
      | some byte => exact absurd (callThroughOnly through' through) other
    have target' := target.still works sharing' elsewhere taken
    rw [readTurn rfl few inside] at source' told
    refine ⟨sys,out,taken,⟨_,told⟩,n,⟨_,source',?_⟩,target',copies.clean,copies.fits⟩
    dsimp only
    rw [told,heardOne,loops,Function.update_self]
    by_cases more : a + n < top
    · have next : min (a + n + 1) top = a + n + 1 := Nat.min_eq_left more
      simp only [if_pos more,next,Phase.asked,Phase.answered]
      by_cases byte : bytes.getD (a + n) 0 = eof
      · rw [if_pos byte]
        exact .broken more byte
      · rw [if_neg byte]
        exact .put more byte
    · have last : a + n = top := by omega
      have stays : min (a + n + 1) top = a + n := by omega
      simp only [if_neg more,stays,Phase.asked,Phase.answered,if_true]
      exact .ended last
  | put inside real =>
    obtain ⟨cmd,fd,data⟩ := asks
    have through := target.through mine fd (.inr cmd)
    rw [if_neg (by simp [cmd]),data] at through
    have sharing := works.sharing target.used (fun made => (works.fresh made).2) through (.inl rfl)
    have sharing' := works.sharing source.used (fun made => (works.fresh made).1) through
      (.inr fun f entry there => entryAway apart' target entry there)
    obtain ⟨sys,out,taken,target',told⟩ := target.turned works mine sharing through
    have elsewhere : callThrough src.fp s.sys.vfs i.request = none := by
      cases through' : callThrough src.fp s.sys.vfs i.request with
      | none => rfl
      | some byte => exact absurd (callThroughOnly through through') other
    have source' := source.still works sharing' elsewhere taken
    have space : t.pos + (copied tr bytes a n).length ≤ 127 := by rw [copiedLength]; exact copies.fits
    obtain ⟨reached,-⟩ := putsFits space array
    rw [copiedLength] at reached
    by_cases room : t.pos + n < 127
    · have open_ : ¬ 127 ≤ (puts t (copied tr bytes a n)).pos := by omega
      have answer : ((puts t (copied tr bytes a n)).turn (some (tr (bytes.getD (a + n) 0)))).2 =
          tr (bytes.getD (a + n) 0) := by rw [Tape.turn,if_neg open_]
      rw [answer] at told
      rw [← putsSnoc,← copiedSnoc] at target'
      refine ⟨sys,out,taken,⟨_,told⟩,n + 1,⟨_,source',?_⟩,target',?_,room⟩
      · dsimp only
        rw [told,heardOne,loops,Function.update_self]
        simp only [Phase.asked,Phase.answered,if_neg (clean _ real)]
        have next : Stage tr bytes top a t.pos (n + 1) .get (a + (n + 1)) (2 * (n + 1)) := .get inside
        exact next
      · intro k below
        rcases Nat.lt_succ_iff_lt_or_eq.mp below with old | rfl
        · exact copies.clean k old
        · exact real
    · have full : 127 ≤ (puts t (copied tr bytes a n)).pos := by omega
      rw [Tape.turn,if_pos full] at target' told
      refine ⟨sys,out,taken,⟨_,told⟩,n,⟨_,source',?_⟩,target',copies.clean,copies.fits⟩
      dsimp only
      rw [told,heardOne,loops,Function.update_self]
      simp only [Phase.asked,Phase.answered,if_true]
      have fits := copies.fits
      exact .full inside real (by omega)
  | ended => exact asks.elim
  | broken => exact asks.elim
  | full => exact asks.elim

theorem copiesStep (loops : loop p = Phase.answered tr) (clean : ∀ v, v ≠ eof → tr v ≠ eof) (apart : Apart src dst)
    (few : top ≤ 127) (array : t.bytes.length = 128) (copies : Copies p tr src dst bytes top a t s calls n)
    (works : Works p src dst s i) {said : List Said} (taken : working loop s i = some (s',said)) :
    AnsweredOnce p said ∧ ∃ n', Copies p tr src dst bytes top a t s' (calls + said.countP (·.1 = p)) n' := by
  simp only [working,bind,Option.bind_eq_some_iff] at taken
  obtain ⟨⟨sys,out⟩,ran,last⟩ := taken
  obtain ⟨rfl,rfl⟩ := Prod.mk.inj (Option.some.inj last)
  by_cases mine : i.request.client = p
  · obtain ⟨sys',out',ran',told,n',copies'⟩ := copiesMine loops clean apart few array copies works mine
    obtain ⟨rfl,rfl⟩ := Prod.mk.inj (Option.some.inj (ran.symm.trans ran'))
    refine ⟨fun e member _ => by rw [List.mem_singleton.mp member]; exact told,n',?_⟩
    simp only [mine,List.countP_singleton,decide_true,if_true]
    exact copies'
  · obtain ⟨pos,source,stage⟩ := copies.source
    obtain ⟨away,away'⟩ := works.others mine
    refine ⟨fun e member own => absurd own (by rwa [List.mem_singleton.mp member]),n,⟨pos,?_,?_⟩,?_,copies.clean,copies.fits⟩
    · exact source.still works (away.sharing works.counting works.real source.used (fun made => (works.fresh made).1))
        away.1 ran
    · have idle : (Function.update s.phase i.request.client (s.phase i.request.client).asked p).Idle := by
        rw [Function.update_of_ne (Ne.symm mine)]
        exact stage.idle
      dsimp only
      rw [heardIdle loops idle,Function.update_of_ne (Ne.symm mine)]
      simp only [mine,List.countP_singleton,decide_false,Bool.false_eq_true,if_false,Nat.add_zero]
      exact stage
    · exact copies.target.still works
        (away'.sharing works.counting works.real copies.target.used (fun made => (works.fresh made).2)) away'.1 ran

theorem Stage.bounds {b pos : Nat} {ph : Phase} (stage : Stage tr bytes top a b n ph pos calls) :
    a + n ≤ top ∧ calls ≤ 2 * (top - a) + 1 := by
  cases stage <;> omega

theorem Stage.returned {b pos : Nat} (stage : Stage tr bytes top a b n .returned pos calls) :
    a + n = top ∨ bytes.getD (a + n) 0 = eof := by
  cases stage with
  | ended last => exact .inl last
  | broken inside byte => exact .inr byte

theorem Stage.exited {b pos : Nat} (stage : Stage tr bytes top a b n .exited pos calls) : b + n = 127 := by
  cases stage with
  | full inside real last => exact last

structure Opened (s : System Devices) (p : Pid) (fd : Nat) (at_ : Place) (t : Tape) : Prop where
  leads : Leads s.vfs p fd at_.fp
  there : device s.vfs at_.dev = some at_.pid
  entry : ∃ f, s.vfs.filp[at_.fp]? = some f ∧ f.dev = at_.dev ∧ f.ino = at_.ino ∧ f.pos = (t.pos : Int)
  node : Stores at_.pid at_.ino at_.links t.bytes t.size s.drv
  named : at_.links ≠ 0

theorem Opened.onFile (opened : Opened sys p fd at_ t) (counted : Counted sys.vfs) : OnFile sys p fd at_ t :=
  ⟨opened.leads,⟨counted,opened.there,opened.entry,opened.node⟩,opened.named⟩

theorem OnFile.opened (file : OnFile sys p fd at_ t) : Opened sys p fd at_ t :=
  ⟨file.leads,file.plays.there,file.plays.entry,file.plays.node,file.named⟩

theorem copiesRun {log : List Said} (loops : loop p = Phase.answered tr) (clean : ∀ v, v ≠ eof → tr v ≠ eof)
    (apart : Apart src dst) (few : top ≤ 127) (array : t.bytes.length = 128)
    (start : Copies p tr src dst bytes top a t s 0 0)
    (later : Reaches (working loop) (Works p src dst) (· = s) s' log) :
    AnsweredOnce p log ∧ ∃ n, Copies p tr src dst bytes top a t s' (log.countP (·.1 = p)) n := by
  refine later.invariant (P := fun u log => AnsweredOnce p log ∧
    ∃ n, Copies p tr src dst bytes top a t u (log.countP (·.1 = p)) n) ?_ ?_
  · rintro _ rfl
    exact ⟨nofun,0,start⟩
  · rintro u log i u' said ⟨answered,n,copies⟩ works taken
    obtain ⟨answered',n',copies'⟩ := copiesStep loops clean apart few array copies works taken
    rw [List.countP_append]
    refine ⟨fun e member => ?_,n',copies'⟩
    rcases List.mem_append.mp member with old | new
    · exact answered e old
    · exact answered' e new

/- The n bytes that have gone from one file to the other: what is written, where the loop has
got to, and that each call has had its answer. -/
structure Filtered (p : Pid) (tr : Int → Int) (src dst : Place) (bytes : List Int) (top a : Nat) (start : Tape)
    (s : Session) (log : List Said) (n : Nat) : Prop where
  inside : a + n ≤ top
  room : start.pos + n ≤ 127
  source : ∃ pos, Opened s.sys p 0 src ⟨bytes,top,pos⟩
  target : ∃ file, Opened s.sys p 1 dst ⟨file,if n = 0 then start.size else (start.pos + n : Nat),start.pos + n⟩ ∧
    (∀ j < start.pos, file[j]? = start.bytes[j]?) ∧
    ∀ k < n, file[start.pos + k]? = some (toChar (tr (bytes.getD (a + k) 0)))
  clean : ∀ k < n, bytes.getD (a + k) 0 ≠ eof
  idle : (s.phase p).Idle
  answered : AnsweredOnce p log
  calls : log.countP (·.1 = p) ≤ 2 * (top - a) + 1
  returned : s.phase p = .returned → a + n = top ∨ bytes.getD (a + n) 0 = eof
  exited : s.phase p = .exited → start.pos + n = 127

theorem Copies.filtered {log : List Said} (array : t.bytes.length = 128)
    (copies : Copies p tr src dst bytes top a t s (log.countP (·.1 = p)) n) (answered : AnsweredOnce p log) :
    Filtered p tr src dst bytes top a t s log n := by
  obtain ⟨pos,source,stage⟩ := copies.source
  have fits := copies.fits
  have space : t.pos + (copied tr bytes a n).length ≤ 127 := by rw [copiedLength]; exact fits
  obtain ⟨reached,-,front,told⟩ := putsFits space array
  rw [copiedLength] at reached
  have size : (puts t (copied tr bytes a n)).size = if n = 0 then t.size else (t.pos + n : Nat) := by
    by_cases none : n = 0
    · subst none
      rw [if_pos rfl]
      rfl
    · have some_ : copied tr bytes a n ≠ [] := fun empty => none (by rw [← copiedLength tr bytes a n,empty]; rfl)
      have last := putsSize space array some_
      rw [copiedLength] at last
      rw [if_neg none]
      exact last
  have target := copies.target.opened
  generalize puts t (copied tr bytes a n) = u at reached front told size target
  obtain ⟨file,size',pos'⟩ := u
  obtain rfl : pos' = t.pos + n := reached
  obtain rfl : size' = _ := size
  obtain ⟨inside,few⟩ := stage.bounds
  refine ⟨inside,fits,⟨pos,source.opened⟩,⟨file,target,front,?_⟩,copies.clean,stage.idle,answered,few,?_,?_⟩
  · intro k below
    exact told k _ (by simp [copied,below])
  · intro ended
    rw [ended] at stage
    exact stage.returned
  · intro ended
    rw [ended] at stage
    exact stage.exited

/-- docat, docap, or any such loop, that reads one file and writes another, in any order of the
steps of all the tasks: what it has written, where it ends, and that its calls are answered. -/
theorem filterCopies {history : List (Event Devices)} {log : List Said} {b : Nat} {file : List Int} {size : Int}
    (run : Reaches served (fun s i => Counting 255 s i.request) Started s.sys history) (begins : s.phase p = .get)
    (apart : Apart src dst) (source : Opened s.sys p 0 src ⟨bytes,top,a⟩) (target : Opened s.sys p 1 dst ⟨file,size,b⟩)
    (few : top ≤ 127) (below : a ≤ top) (room : b ≤ 127) (array : file.length = 128)
    (later : Reaches (working loop) (Works p src dst) (· = s) s' log) :
    (loop p = docat → ∃ n, Filtered p id src dst bytes top a ⟨file,size,b⟩ s' log n) ∧
    (loop p = docap → ∃ n, Filtered p capital src dst bytes top a ⟨file,size,b⟩ s' log n) ∧
    ∀ tr, loop p = Phase.answered tr → (∀ v, v ≠ eof → tr v ≠ eof) →
      (∃ n, Filtered p tr src dst bytes top a ⟨file,size,b⟩ s' log n) ∧
      ∀ i, Works p src dst s' i → i.request.client = p → ∃ s'' said, working loop s' i = some (s'',said) := by
  have counted : Counted s.sys.vfs := run.stateInvariant (P := fun s => Counted s.vfs) (fun _ start => startedCounted start)
    (fun _ i _ _ held counting taken => vfsCounted (D := drivers) (s := { vfs := _, drv := { task := _, rx := i.rx } }) held
      counting.small (closeInside counting.index) taken)
  have any : ∀ tr, loop p = Phase.answered tr → (∀ v, v ≠ eof → tr v ≠ eof) →
      (∃ n, Filtered p tr src dst bytes top a ⟨file,size,b⟩ s' log n) ∧
      ∀ i, Works p src dst s' i → i.request.client = p → ∃ s'' said, working loop s' i = some (s'',said) := by
    intro tr loops clean
    have first : Stage tr bytes top a b 0 (s.phase p) a 0 := by
      rw [begins]
      exact .get below
    have start : Copies p tr src dst bytes top a ⟨file,size,b⟩ s 0 0 :=
      ⟨⟨a,source.onFile counted,first⟩,target.onFile counted,nofun,room⟩
    obtain ⟨answered,n,copies⟩ := copiesRun loops clean apart few array start later
    refine ⟨⟨n,copies.filtered array answered⟩,fun i works mine => ?_⟩
    obtain ⟨sys,out,taken,-⟩ := copiesMine loops clean apart few array copies works mine
    exact ⟨_,_,by simp only [working,taken,bind,Option.bind_some]; rfl⟩
  exact ⟨fun cat => (any id cat (fun _ real => real)).1,fun cap => (any capital cap (fun _ => capitalEof)).1,any⟩
end

/- cap on a file of one byte, while another task makes a file. -/
theorem filterCopiesOne : ∃ s s' history log,
    Reaches served (fun s i => Counting 255 s i.request) Started s.sys history ∧
    Reaches (working (fun _ => docap)) (Works 0x10 ⟨0,2,1,1,1⟩ ⟨1,2,1,2,1⟩) (· = s) s' log ∧
    log.countP (·.1 = 0x10) = 3 ∧ s'.phase 0x10 = .returned ∧
    ∃ file, Opened s'.sys 0x10 1 ⟨1,2,1,2,1⟩ ⟨file,1,1⟩ ∧ file[0]? = some 72 := by
  have start : Reaches served (fun s i => Counting 255 s i.request) Started (vfsInit drivers 1 noDevices) [] :=
    .start ⟨1,by decide,rfl⟩
  have added := start.next (i := demoInput 2 (demoMsg .addtask 0x10 0 0)) ⟨by decide,fewTasks (by decide) (by decide)⟩ rfl
  have disk := added.next (i := ⟨⟨2,{ demoMsg .mkdev 0 0 0 with driver := .memfile },2,fun _ => true⟩,0⟩)
    ⟨by decide,fewTasks (by decide) (by decide)⟩ rfl
  have named := disk.next (i := demoInput 0x10 { demoMsg .mknod 0 0 0 with name := some ['a'] })
    ⟨by decide,fewTasks (by decide) (by decide)⟩ rfl
  have both := named.next (i := demoInput 0x10 { demoMsg .mknod 0 0 0 with name := some ['b'] })
    ⟨by decide,fewTasks (by decide) (by decide)⟩ rfl
  have opened := both.next (i := demoInput 0x10 (demoMsg .open_ 1 1 0)) ⟨by decide,fewTasks (by decide) (by decide)⟩ rfl
  have stored := opened.next (i := demoInput 0x10 (demoMsg .writec 0 0 104)) ⟨by decide,fewTasks (by decide) (by decide)⟩ rfl
  have closed := stored.next (i := demoInput 0x10 (demoMsg .close 0 0 0)) ⟨by decide,fewTasks (by decide) (by decide)⟩ rfl
  have again := closed.next (i := demoInput 0x10 (demoMsg .open_ 1 1 0)) ⟨by decide,fewTasks (by decide) (by decide)⟩ rfl
  have ready := again.next (i := demoInput 0x10 (demoMsg .open_ 1 2 0)) ⟨by decide,fewTasks (by decide) (by decide)⟩ rfl
  let phase : Pid → Phase := fun q => if q = 0x10 then .get else .returned
  have here : ∀ {s history}, Reaches served (fun s i => Counting 255 s i.request) Started s history →
      Reaches (working (fun _ => docap)) (Works 0x10 ⟨0,2,1,1,1⟩ ⟨1,2,1,2,1⟩) (· = ⟨s,phase⟩) ⟨s,phase⟩ [] :=
    fun _ => .start rfl
  have read := (here ready).next (i := demoInput 0x10 (demoMsg .readc 0 0 0))
    ⟨⟨by decide,fewTasks (by decide) (by decide)⟩,by decide,fun _ => ⟨rfl,rfl⟩,nofun,nofun,nofun⟩ rfl
  have forked := read.next (i := demoInput 2 (demoMsg .addtask 0x11 0x10 0))
    ⟨⟨by decide,fewTasks (by decide) (by decide)⟩,by decide,nofun,fun _ => by decide,
      fun _ => ⟨⟨rfl,fun _ _ _ through => by cases through⟩,⟨rfl,fun _ _ _ through => by cases through⟩⟩,nofun⟩ rfl
  have written := forked.next (i := demoInput 0x10 (demoMsg .writec 1 0 72))
    ⟨⟨by decide,fewTasks (by decide) (by decide)⟩,by decide,fun _ => ⟨rfl,rfl,rfl⟩,nofun,nofun,nofun⟩ rfl
  have ended := written.next (i := demoInput 0x10 (demoMsg .readc 0 0 0))
    ⟨⟨by decide,fewTasks (by decide) (by decide)⟩,by decide,fun _ => ⟨rfl,rfl⟩,nofun,nofun,nofun⟩ rfl
  let at_ {s history} (_ : Reaches served (fun s i => Counting 255 s i.request) Started s history) := s
  have source : Opened (at_ ready) 0x10 0 ⟨0,2,1,1,1⟩ ⟨(List.replicate 128 0).set 0 104,(1 : Nat),0⟩ :=
    ⟨⟨_,rfl,rfl⟩,rfl,⟨_,rfl,rfl,rfl,rfl⟩,⟨_,nodeOfSome.mpr ⟨_,rfl,rfl⟩,rfl,rfl,rfl⟩,by decide⟩
  have target : Opened (at_ ready) 0x10 1 ⟨1,2,1,2,1⟩ ⟨List.replicate 128 0,0,0⟩ :=
    ⟨⟨_,rfl,rfl⟩,rfl,⟨_,rfl,rfl,rfl,rfl⟩,⟨_,nodeOfSome.mpr ⟨_,rfl,rfl⟩,rfl,rfl,rfl⟩,by decide⟩
  have apart : Apart ⟨0,2,1,1,1⟩ ⟨1,2,1,2,1⟩ := fun both => absurd both.2 (by decide)
  obtain ⟨-,filters,-⟩ := filterCopies ready rfl apart source target (by decide) (by decide) (by decide)
    List.length_replicate ended
  obtain ⟨n,filtered⟩ := filters rfl
  have inside := filtered.inside
  obtain rfl : n = 1 := by
    rcases filtered.returned rfl with done | broken
    · omega
    · obtain rfl | rfl : n = 0 ∨ n = 1 := by omega
      · exact absurd broken (by decide)
      · rfl
  obtain ⟨file,copy,-,told⟩ := filtered.target
  exact ⟨_,_,_,_,ready,ended,rfl,rfl,file,copy,told 0 Nat.one_pos⟩

end Avros.Filters
