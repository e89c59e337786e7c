import Mathlib.Data.List.Basic
import Mathlib.Data.List.Nodup

/-! Segments of a doubly linked list. Nodes are addresses of any type, one of which is no
node; `next` and `prev` are what is stored in the nodes. -/
namespace Avros.Links

variable {α : Type} {nil : α} {next prev next' prev' : α → α} {p q r o : α} {nodes left right : List α}

-- The nodes passed on the way from `p` to `q` along `f`.
def Path (nil : α) (f : α → α) (p : α) : List α → α → Prop
  | [],q => p = q
  | a::rest,q => p = a ∧ a ≠ nil ∧ Path nil f (f a) rest q

/- `p` points to the first node, whose predecessor is `o`; `r` to the last one, whose
successor is `q`. -/
def Seg (nil : α) (next prev : α → α) (p o : α) : List α → α → α → Prop
  | [],q,r => p = q ∧ r = o
  | a::rest,q,r => p = a ∧ a ≠ nil ∧ prev a = o ∧ Seg nil next prev (next a) a rest q r

theorem pathAppend {f : α → α} :
    Path nil f p (left ++ right) q ↔ ∃ m, Path nil f p left m ∧ Path nil f m right q := by
  induction left generalizing p with
  | nil => simp [Path]
  | cons a rest ih =>
    simp only [List.cons_append,Path,ih]
    constructor
    · rintro ⟨same,real,m,before,after⟩
      exact ⟨m,⟨same,real,before⟩,after⟩
    · rintro ⟨m,⟨same,real,before⟩,after⟩
      exact ⟨same,real,m,before,after⟩

theorem pathUnique {f : α → α} {nodes' : List α} (path : Path nil f p nodes nil) (path' : Path nil f p nodes' nil) :
    nodes = nodes' := by
  induction nodes generalizing p nodes' with
  | nil =>
    cases nodes' with
    | nil => rfl
    | cons b rest' => exact absurd (path'.1.symm.trans path) path'.2.1
  | cons a rest ih =>
    cases nodes' with
    | nil => exact absurd (path.1.symm.trans path') path.2.1
    | cons b rest' =>
      have same : a = b := path.1.symm.trans path'.1
      cases same
      rw [ih path.2.2 path'.2.2]

theorem pathHead {f : α → α} (path : Path nil f p nodes nil) : p = nodes.headD nil := by
  cases nodes with
  | nil => exact path
  | cons a rest => exact path.1

theorem pathReal {f : α → α} (path : Path nil f p nodes q) : nil ∉ nodes := by
  induction nodes generalizing p with
  | nil => exact List.not_mem_nil
  | cons a rest ih =>
    intro member
    rcases List.mem_cons.mp member with same | old
    · exact path.2.1 same.symm
    · exact ih path.2.2 old

theorem segPaths : Seg nil next prev p o nodes q r ↔ Path nil next p nodes q ∧ Path nil prev r nodes.reverse o := by
  induction nodes generalizing p o with
  | nil => rfl
  | cons a rest ih =>
    simp only [Seg,Path,List.reverse_cons,pathAppend,ih]
    constructor
    · rintro ⟨same,real,before,forward,back⟩
      exact ⟨⟨same,real,forward⟩,a,back,rfl,real,before⟩
    · rintro ⟨⟨same,real,forward⟩,m,back,here,-,before⟩
      cases here
      exact ⟨same,real,before,forward,back⟩

theorem segAppend : Seg nil next prev p o (left ++ right) q r ↔
    ∃ m n, Seg nil next prev p o left m n ∧ Seg nil next prev m n right q r := by
  induction left generalizing p o with
  | nil =>
    constructor
    · intro seg
      exact ⟨p,o,⟨rfl,rfl⟩,seg⟩
    · rintro ⟨m,n,⟨rfl,rfl⟩,seg⟩
      exact seg
  | cons a rest ih =>
    simp only [List.cons_append,Seg,ih]
    constructor
    · rintro ⟨same,real,before,m,n,first,second⟩
      exact ⟨m,n,⟨same,real,before,first⟩,second⟩
    · rintro ⟨m,n,⟨same,real,before,first⟩,second⟩
      exact ⟨same,real,before,m,n,first,second⟩

theorem Seg.frame (seg : Seg nil next prev p o nodes q r) (forward : ∀ a ∈ nodes, next' a = next a)
    (back : ∀ a ∈ nodes, prev' a = prev a) : Seg nil next' prev' p o nodes q r := by
  induction nodes generalizing p o with
  | nil => exact seg
  | cons a rest ih =>
    obtain ⟨same,real,before,later⟩ := seg
    refine ⟨same,real,(back a List.mem_cons_self).trans before,?_⟩
    rw [forward a List.mem_cons_self]
    exact ih later (fun b member => forward b (List.mem_cons_of_mem a member))
      (fun b member => back b (List.mem_cons_of_mem a member))

theorem segLast {front : List α} {z : α} (seg : Seg nil next prev p o (front ++ [z]) q r) :
    z = r ∧ next z = q ∧ Seg nil next prev p o front z (prev z) ∧ z ≠ nil := by
  obtain ⟨m,n,before,here,real,back,after,last⟩ := segAppend.mp seg
  rw [here,← back] at before
  exact ⟨last.symm,after,before,real⟩

theorem Seg.ends (seg : Seg nil next prev p o nodes q r) :
    (q = nil → (p = nil ↔ nodes = [])) ∧ (o = nil → (r = nil ↔ nodes = [])) := by
  rcases List.eq_nil_or_concat nodes with rfl | ⟨front,z,rfl⟩
  · exact ⟨fun none => ⟨fun _ => rfl,fun _ => seg.1.trans none⟩,fun none => ⟨fun _ => rfl,fun _ => seg.2.trans none⟩⟩
  · rw [List.concat_eq_append] at *
    obtain ⟨rfl,-,-,last⟩ := segLast seg
    have first : p ≠ nil := by
      cases front with
      | nil => exact fun none => seg.2.1 (seg.1.symm.trans none)
      | cons a rest => exact fun none => seg.2.1 (seg.1.symm.trans none)
    exact ⟨fun _ => by simp [first],fun _ => by simp [last]⟩

theorem Seg.first (seg : Seg nil next prev p o nodes q r) (some_ : nodes ≠ []) : p ∈ nodes := by
  cases nodes with
  | nil => contradiction
  | cons a rest =>
    rw [seg.1]
    exact List.mem_cons_self

theorem Seg.last (seg : Seg nil next prev p o nodes q r) (some_ : nodes ≠ []) : r ∈ nodes := by
  rcases List.eq_nil_or_concat nodes with rfl | ⟨front,z,rfl⟩
  · contradiction
  · rw [List.concat_eq_append] at *
    rw [← (segLast seg).1]
    simp

theorem Seg.retarget {q' : α} (seg : Seg nil next prev p o nodes q r) (once : nodes.Nodup)
    (last : nodes ≠ [] → next' r = q') (forward : ∀ a ∈ nodes, a ≠ r → next' a = next a)
    (back : ∀ a ∈ nodes, prev' a = prev a) : Seg nil next' prev' (if nodes = [] then q' else p) o nodes q' r := by
  rcases List.eq_nil_or_concat nodes with rfl | ⟨front,z,rfl⟩
  · exact ⟨if_pos rfl,seg.2⟩
  · rw [List.concat_eq_append] at *
    have some_ : front ++ [z] ≠ [] := by simp
    obtain ⟨rfl,after,before,real⟩ := segLast seg
    have apart := (List.nodup_append.mp once).2.2
    have own : z ∈ front ++ [z] := by simp
    rw [if_neg some_]
    refine segAppend.mpr ⟨z,prev z,before.frame ?_ ?_,rfl,real,back z own,last some_,rfl⟩
    · intro a member
      exact forward a (List.mem_append_left _ member) (apart a member z List.mem_cons_self)
    · intro a member
      exact back a (List.mem_append_left _ member)

theorem Seg.resource {o' : α} (seg : Seg nil next prev p o nodes q r) (once : nodes.Nodup)
    (first : nodes ≠ [] → prev' p = o') (back : ∀ a ∈ nodes, a ≠ p → prev' a = prev a)
    (forward : ∀ a ∈ nodes, next' a = next a) : Seg nil next' prev' p o' nodes q (if nodes = [] then o' else r) := by
  cases nodes with
  | nil => exact ⟨seg.1,if_pos rfl⟩
  | cons a rest =>
    obtain ⟨rfl,real,-,later⟩ := seg
    obtain ⟨fresh,-⟩ := List.nodup_cons.mp once
    rw [if_neg (List.cons_ne_nil p rest)]
    refine ⟨rfl,real,first (List.cons_ne_nil p rest),?_⟩
    rw [forward p List.mem_cons_self]
    refine later.frame ?_ ?_
    · intro b member
      exact forward b (List.mem_cons_of_mem p member)
    · intro b member
      refine back b (List.mem_cons_of_mem p member) ?_
      rintro rfl
      exact fresh member

end Avros.Links
