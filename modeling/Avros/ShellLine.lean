import Avros.ShellPipeline

/-! `usr/sh.c`, from getcmd() to the jobs: which bytes the loop of sh() looks at, and what
it makes of a line. -/
namespace Avros.Pipeline.Line
open Pipeline Vfs

/- `cmd` is the buffer, of `len` bytes, and `fin` what readc() answers one after the other.
The result is the buffer and what is still to be read; none if the input ends before. -/
def getcmd (len : Nat) : List Int → Nat → List Char → Option (List Char × List Int)
  | [],_,_ => none
  | c::fin,i,cmd =>
    if c = eof then none
    else
      let i := if len - 1 ≤ i then i - 1 else i
      if c = 13 ∨ c = 10 then some (cmd.set i nul,fin)
      else getcmd len fin (if i + 1 = len - 1 then i else i + 1) (cmd.set i (Char.ofNat (c % 256).toNat))

-- A byte, and whether it belongs to the line; its terminator does.
structure Cell where
  byte : Char
  own : Bool
  deriving DecidableEq, Repr

def bytes (b : List Cell) : List Char := b.map (·.byte)
def cellsOf (own : Bool) (b : List Char) : List Cell := b.map (⟨·,own⟩)

def cells (cmdline : List Char) : List Cell :=
  cellsOf true (cmdline.take ((cString cmdline).length + 1)) ++
    cellsOf false (cmdline.drop ((cString cmdline).length + 1))

-- What strlen() looks at.
def strlenReads (b : List Cell) : List Cell := b.take ((cString (bytes b)).length + 1)

def shift (b : List Cell) : List Cell :=
  (b.drop 1).take ((cString (bytes b)).length + 1) ++ b.drop ((cString (bytes b)).length + 1)

def after (seen : List Cell) (jobs : List Job) (more : List Cell × List Job) : List Cell × List Job :=
  (seen ++ more.1,jobs ++ more.2)

-- The loop, and every byte that it looks at.
def scan : Nat → List Char → List Cell → Option (List Cell × List Job)
  | 0,_,_ => none
  | _ + 1,_,[] => none
  | n + 1,text,c::rest =>
    if c.byte = nul then some ([c],[⟨cString text,.eol⟩])
    else if c.byte = '\\' then
      match shift (c::rest) with
      | [] => none
      | next::rest' => (scan n (text ++ [next.byte]) rest').map (after (c::strlenReads (c::rest)) [])
    else if c.byte = '#' then some ([c],[⟨cString text,.eol⟩])
    else if c.byte = '|' then (scan n [] rest).map (after [c] [⟨cString text,.pipe⟩])
    else if c.byte = '&' then (scan n [] rest).map (after [c] [⟨cString text,.amp⟩])
    else if c.byte = ';' then (scan n [] rest).map (after [c] [⟨cString text,.semi⟩])
    else (scan n (text ++ [c.byte]) rest).map (after [c] [])

def literal : List Char → List (Char × Bool)
  | [] => []
  | [c] => if c = '\\' then [] else [(c,false)]
  | c::d::rest => if c = '\\' then (d,true)::literal rest else (c,false)::literal (d::rest)

def sepOf (c : Char) : Option Sep :=
  if c = '|' then some .pipe else if c = '&' then some .amp else if c = ';' then some .semi else none

-- `text` is what of the first job has been read.
def cut : List Char → List (Char × Bool) → List Job
  | text,[] => [⟨text,.eol⟩]
  | text,(c,escaped)::rest =>
    match (if escaped then none else sepOf c) with
    | some sep => ⟨text,sep⟩::cut [] rest
    | none => cut (text ++ [c]) rest

/- A pipe is made for a job before '|' alone; the others find the descriptors as they were.
The shell spawns exec_job itself or through launch_job. -/
def launch (job : Job) : List Op :=
  (if job.sep = .pipe then jobPipe else jobNopipe) ++ .execute job::(if direct job.sep then [] else [.relay job]) ++
    (if job.sep = .pipe then [] else jobInit)

def endsEscaped : List Char → Bool
  | [] => false
  | [c] => c = '\\'
  | c::d::rest => if c = '\\' then endsEscaped rest else if c = '#' then false else endsEscaped (d::rest)

section
variable {n : Nat} {text line tail junk cmd cmdline : List Char} {b : List Cell} {seen : List Cell} {jobs : List Job}
  {c : Char}

theorem scanPlain (real : c ≠ nul) (plain : c ≠ '\\') (text_ : c ≠ '#') (n : Nat) (text : List Char) (own : Bool)
    (b : List Cell) : scan (n + 1) text (⟨c,own⟩::b) = match sepOf c with
      | some sep => (scan n [] b).map (after [⟨c,own⟩] [⟨cString text,sep⟩])
      | none => (scan n (text ++ [c]) b).map (after [⟨c,own⟩] []) := by
  simp only [scan,real,plain,text_,if_false,sepOf]
  split
  · rfl
  split
  · rfl
  split <;> rfl

theorem endsPlain (plain : c ≠ '\\') (rest : List Char) :
    endsEscaped (c::rest) = if c = '#' then false else endsEscaped rest := by
  cases rest <;> simp [endsEscaped,plain]

def Inside (line : List Char) : Prop :=
  endsEscaped line = false → nul ∉ line → ∀ n text junk, nul ∉ text → line.length < n →
    ∃ seen, scan n text (cellsOf true line ++ ⟨nul,true⟩::junk) =
      some (seen,cut text ((literal line).takeWhile (· ≠ ('#',false)))) ∧ ∀ c ∈ seen, c.own

def Outside (line : List Char) : Prop :=
  endsEscaped line = true → nul ∉ line → ∀ n text c junk seen jobs, c.own = false →
    scan n text (cellsOf true line ++ ⟨nul,true⟩::c::junk) = some (seen,jobs) → ∃ d ∈ seen, d.own = false

theorem afterSeen {front : List Cell} {jobs' : List Job} {more : Option (List Cell × List Job)}
    (found : more.map (after front jobs') = some (seen,jobs)) :
    front ⊆ seen ∧ ∃ seen' more', more = some (seen',more') ∧ seen' ⊆ seen := by
  obtain ⟨⟨seen',more'⟩,same,last⟩ := Option.map_eq_some_iff.mp found
  obtain ⟨rfl,-⟩ := Prod.mk.inj last
  exact ⟨List.subset_append_left _ _,seen',more',same,List.subset_append_right _ _⟩

theorem Outside.goesOn {front : List Cell} {jobs' : List Job} {d : Cell} {junk : List Cell} (outside : Outside line)
    (ends : endsEscaped line = true) (plain : nul ∉ line) (foreign : d.own = false)
    (found : (scan n text (cellsOf true line ++ ⟨nul,true⟩::d::junk)).map (after front jobs') = some (seen,jobs)) :
    ∃ x ∈ seen, x.own = false := by
  obtain ⟨-,seen',more,next,kept⟩ := afterSeen found
  obtain ⟨x,member,other⟩ := outside ends plain _ _ d junk seen' more foreign next
  exact ⟨x,kept member,other⟩

end

/-! The buffer holds what is left of an earlier command. -/

end Avros.Pipeline.Line
