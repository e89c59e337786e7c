import Mathlib.Data.List.Basic

/-! Runs of a system that takes one input at a time and reports what it did.
A step may have no result: the run then stops there. A history lists the
reports of all steps, the oldest first. -/
namespace Avros.Run

variable {State Input Event : Type}

abbrev Step (State Input Event : Type) := State → Input → Option (State × List Event)

inductive Reaches (step : Step State Input Event) (legal : State → Input → Prop)
    (init : State → Prop) : State → List Event → Prop where
  | start {s} (first : init s) : Reaches step legal init s []
  | next {s history i s' out} (before : Reaches step legal init s history)
      (allowed : legal s i) (taken : step s i = some (s',out)) :
      Reaches step legal init s' (history ++ out)

variable {step : Step State Input Event} {legal : State → Input → Prop} {init : State → Prop}

theorem Reaches.invariant {P : State → List Event → Prop}
    (base : ∀ s, init s → P s [])
    (keep : ∀ s history i s' out, P s history → legal s i → step s i = some (s',out) →
      P s' (history ++ out))
    {s history} (run : Reaches step legal init s history) : P s history := by
  induction run with
  | start first => exact base _ first
  | next before allowed taken ih => exact keep _ _ _ _ _ ih allowed taken

theorem Reaches.stateInvariant {P : State → Prop}
    (base : ∀ s, init s → P s)
    (keep : ∀ s i s' out, P s → legal s i → step s i = some (s',out) → P s')
    {s history} (run : Reaches step legal init s history) : P s :=
  run.invariant (P := fun s _ => P s) base
    (fun s _ i s' out held allowed taken => keep s i s' out held allowed taken)

theorem Reaches.weaken {legal' : State → Input → Prop} {init' : State → Prop}
    (inputs : ∀ s i, legal s i → legal' s i) (starts : ∀ s, init s → init' s)
    {s history} (run : Reaches step legal init s history) :
    Reaches step legal' init' s history := by
  induction run with
  | start first => exact .start (starts _ first)
  | next before allowed taken ih => exact .next ih (inputs _ _ allowed) taken

theorem Reaches.strengthen {P : State → Prop} {legal' : State → Input → Prop}
    (base : ∀ s, init s → P s)
    (keep : ∀ s i s' out, P s → legal s i → step s i = some (s',out) → P s')
    (inputs : ∀ s i, P s → legal s i → legal' s i)
    {s history} (run : Reaches step legal init s history) : P s ∧ Reaches step legal' init s history := by
  induction run with
  | start first => exact ⟨base _ first,.start first⟩
  | next before allowed taken ih =>
    obtain ⟨held,run⟩ := ih
    exact ⟨keep _ _ _ _ held allowed taken,run.next (inputs _ _ held allowed) taken⟩

/- The run along given inputs, each of which is checked to be legal. -/
def follow (step : Step State Input Event) (check : State → Input → Bool) :
    State → List Input → Option (State × List Event)
  | s,[] => some (s,[])
  | s,i::rest =>
    if check s i then do
      let (s',out) ← step s i
      let (last,more) ← follow step check s' rest
      some (last,out ++ more)
    else none

theorem Reaches.follows {check : State → Input → Bool} (sound : ∀ s i, check s i = true → legal s i)
    {s s' : State} {history out : List Event} (inputs : List Input) (run : Reaches step legal init s history)
    (ok : follow step check s inputs = some (s',out)) : Reaches step legal init s' (history ++ out) := by
  induction inputs generalizing s history out with
  | nil =>
    obtain ⟨rfl,rfl⟩ := Prod.mk.inj (Option.some.inj ok)
    simpa using run
  | cons i rest ih =>
    rw [follow] at ok
    split at ok <;> try contradiction
    rename_i checked
    simp only [bind,Option.bind_eq_some_iff] at ok
    obtain ⟨⟨t,first⟩,taken,⟨last,more⟩,followed,same⟩ := ok
    obtain ⟨rfl,rfl⟩ := Prod.mk.inj (Option.some.inj same)
    rw [← List.append_assoc]
    exact ih (run.next (sound s i checked) taken) followed

theorem snocSplit {history before after : List Event} {e x : Event} (split : history ++ [e] = before ++ x::after) :
    history = before ∧ e = x ∧ after = [] ∨ ∃ init, after = init ++ [e] ∧ history = before ++ x::init := by
  rcases List.eq_nil_or_concat after with rfl | ⟨init,y,rfl⟩
  · obtain ⟨same,last⟩ := List.append_inj' split rfl
    cases last
    exact .inl ⟨same,rfl,rfl⟩
  · rw [List.concat_eq_append,← List.cons_append,← List.append_assoc] at split
    obtain ⟨same,last⟩ := List.append_inj' split rfl
    cases last
    exact .inr ⟨init,List.concat_eq_append,same⟩

def Always (law : List Event → Event → Prop) (history : List Event) : Prop :=
  ∀ before e after, history = before ++ e :: after → law before e

theorem alwaysNil (law : List Event → Event → Prop) : Always law [] := by
  intro before e after split
  simp at split

theorem Always.snoc {law : List Event → Event → Prop} {history : List Event} {e : Event}
    (held : Always law history) (last : law history e) : Always law (history ++ [e]) := by
  intro before x after split
  rcases snocSplit split with ⟨rfl,rfl,-⟩ | ⟨init,-,old⟩
  · exact last
  · exact held before x init old

/-! One system of steps watched through another. A relation between their states is kept by
each step of the first, which the second answers with a run of its own. -/

variable {State' Input' Event' : Type} {step' : Step State' Input' Event'} {legal' : State' → Input' → Prop}
  {init' : State' → Prop}

/- The histories go along: `shows` says which pairs of them belong together. -/
structure Simulates (step : Step State Input Event) (legal : State → Input → Prop) (init : State → Prop)
    (step' : Step State' Input' Event') (legal' : State' → Input' → Prop) (init' : State' → Prop)
    (related : State → State' → Prop) (shows_ : List Event → List Event' → Prop) : Prop where
  base : ∀ s, init s → ∃ a, init' a ∧ related s a
  empty : shows_ [] []
  keep : ∀ s a i s' out history history', related s a → shows_ history history' → legal s i →
    step s i = some (s',out) → Reaches step' legal' init' a history' →
      ∃ a' more, related s' a' ∧ shows_ (history ++ out) (history' ++ more) ∧
        Reaches step' legal' init' a' (history' ++ more)

variable {related : State → State' → Prop} {shows_ : List Event → List Event' → Prop}

theorem Simulates.reaches (simulates : Simulates step legal init step' legal' init' related shows_) {s : State}
    {history : List Event} (run : Reaches step legal init s history) :
    ∃ a history', Reaches step' legal' init' a history' ∧ related s a ∧ shows_ history history' := by
  induction run with
  | start first =>
    obtain ⟨a,first',holds⟩ := simulates.base _ first
    exact ⟨a,[],.start first',holds,simulates.empty⟩
  | next before allowed taken ih =>
    obtain ⟨a,history',run',holds,shown⟩ := ih
    obtain ⟨a',more,holds',shown',run''⟩ := simulates.keep _ _ _ _ _ _ _ holds shown allowed taken run'
    exact ⟨a',history' ++ more,run'',holds',shown'⟩

theorem Simulates.stepwise {step' : Step State' Input Event}
    (base : ∀ s, init s → ∃ a, init' a ∧ related s a)
    (keep : ∀ s a i s' out, related s a → legal s i → step s i = some (s',out) →
      ∃ a', step' a i = some (a',out) ∧ related s' a') :
    Simulates step legal init step' (fun _ _ => True) init' related Eq := by
  refine ⟨base,rfl,?_⟩
  rintro s a i s' out history _ holds rfl allowed taken run
  obtain ⟨a',taken',holds'⟩ := keep s a i s' out holds allowed taken
  exact ⟨a',out,holds',rfl,run.next trivial taken'⟩

end Avros.Run
