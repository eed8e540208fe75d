import Mathlib

/-!
# Transducers that may not return

A transducer consumes its inputs one at a time; each step changes its state and
gives one output, or does not return at all (`none`). `runSteps` runs one over a
list of inputs and returns the final state and the outputs, or `none` when a step
did not return.

## What is proved

`runSteps_inv` is the invariant rule: what every step keeps holds after every run
that returns. `runSteps_outputsAfter_of_forall` is its form for a specification read
off the history of inputs: a state that holds the history gives the outputs it says.
`runSteps_forall₂` is a lockstep simulation of two transducers fed related inputs;
`runSteps_rel` one of two fed the same inputs, where a step may fail as long as both
fail. `runSteps_focus` runs a transducer that acts on one part of its
state as one over that part.
-/

namespace Synapse.Theory

variable {S I O : Type*}

/-- Run `step` over the inputs: the final state and one output for each input, or
`none` when a step does not return. -/
def runSteps (step : S → I → Option (S × O)) : S → List I → Option (S × List O)
  | s, [] => some (s, [])
  | s, i :: is =>
    (step s i).bind fun r => (runSteps step r.1 is).map fun r' => (r'.1, r.2 :: r'.2)

variable {step : S → I → Option (S × O)}

@[simp] theorem runSteps_nil (s : S) : runSteps step s [] = some (s, []) := rfl

theorem runSteps_cons (s : S) (i : I) (is : List I) :
    runSteps step s (i :: is) = (step s i).bind fun r => (runSteps step r.1 is).map fun r' => (r'.1, r.2 :: r'.2) :=
  rfl

theorem runSteps_cons_of_eq {s s' s'' : S} {i : I} {is : List I} {o : O} {os : List O}
    (h₁ : step s i = some (s', o)) (h₂ : runSteps step s' is = some (s'', os)) :
    runSteps step s (i :: is) = some (s'', o :: os) := by
  simp [runSteps_cons, h₁, h₂]

/-- A run over `i :: is` that returns is a step on `i` that returns, then a run over
`is` from where it left. -/
theorem runSteps_cons_eq_some {s s'' : S} {i : I} {is : List I} {os'' : List O} :
    runSteps step s (i :: is) = some (s'', os'') ↔
      ∃ s' o os, step s i = some (s', o) ∧ runSteps step s' is = some (s'', os) ∧ os'' = o :: os := by
  constructor
  · intro h
    rw [runSteps_cons] at h
    obtain ⟨⟨s₁, o⟩, h₁, hrest⟩ := Option.bind_eq_some_iff.1 h
    obtain ⟨⟨s₂, os₂⟩, h₂, heq⟩ := Option.map_eq_some_iff.1 hrest
    simp only [Prod.mk.injEq] at heq
    obtain ⟨rfl, rfl⟩ := heq
    exact ⟨s₁, o, os₂, h₁, h₂, rfl⟩
  · rintro ⟨s', o, os, h₁, h₂, rfl⟩
    exact runSteps_cons_of_eq h₁ h₂

/-- A run that returns on a first piece goes on as the run of the second from
where it stopped. -/
theorem runSteps_append {s s' : S} {xs : List I} {os : List O} (h : runSteps step s xs = some (s', os))
    (ys : List I) : runSteps step s (xs ++ ys) = (runSteps step s' ys).map fun r => (r.1, os ++ r.2) := by
  induction xs generalizing s os with
  | nil =>
    simp only [runSteps_nil, Option.some.injEq, Prod.mk.injEq] at h
    obtain ⟨rfl, rfl⟩ := h
    simp
  | cons i is ih =>
    obtain ⟨s₁, o, os₂, hs, hrun, rfl⟩ := runSteps_cons_eq_some.1 h
    simp [runSteps_cons, hs, ih hrun, Option.map_map, Function.comp_def]

/-- A run that returns on each of two pieces returns on the whole, with the outputs
of both. -/
theorem runSteps_append_of_eq {s s' s'' : S} {xs ys : List I} {os os' : List O}
    (h₁ : runSteps step s xs = some (s', os)) (h₂ : runSteps step s' ys = some (s'', os')) :
    runSteps step s (xs ++ ys) = some (s'', os ++ os') := by
  rw [runSteps_append h₁, h₂]
  rfl

/-- A run of one step. -/
theorem runSteps_singleton (s : S) (i : I) :
    runSteps step s [i] = (step s i).map fun r => (r.1, [r.2]) := by
  rw [runSteps_cons]
  cases step s i <;> rfl

/-- A transducer whose every step returns returns from every run. -/
theorem runSteps_isSome (hstep : ∀ s i, (step s i).isSome) : ∀ (s : S) (is : List I), (runSteps step s is).isSome
  | _, [] => rfl
  | s, i :: is => by
    obtain ⟨⟨s₁, o⟩, h₁⟩ := Option.isSome_iff_exists.1 (hstep s i)
    obtain ⟨⟨s₂, os⟩, h₂⟩ := Option.isSome_iff_exists.1 (runSteps_isSome hstep s₁ is)
    rw [runSteps_cons_of_eq h₁ h₂]
    rfl

/-- **The invariant rule.** A predicate `Inv` of the state that every step on an
input of the class `P` keeps, each output it gives meeting `Q`, holds after a run
that returns over such inputs, and so does `Q` of every output. -/
theorem runSteps_inv (Inv : S → Prop) (P : I → Prop) (Q : O → Prop)
    (hstep : ∀ s i s' o, Inv s → P i → step s i = some (s', o) → Inv s' ∧ Q o) :
    ∀ (is : List I) (s s' : S) (os : List O), Inv s → (∀ i ∈ is, P i) →
      runSteps step s is = some (s', os) → Inv s' ∧ ∀ o ∈ os, Q o := by
  intro is
  induction is with
  | nil =>
    intro s s' os hs _ h
    simp only [runSteps_nil, Option.some.injEq, Prod.mk.injEq] at h
    obtain ⟨rfl, rfl⟩ := h
    exact ⟨hs, by simp⟩
  | cons i is ih =>
    intro s s' os hs hP h
    obtain ⟨s₁, o, os₂, h₁, h₂, rfl⟩ := runSteps_cons_eq_some.1 h
    -- the first step keeps the invariant, the rest of the run by induction
    obtain ⟨hs₁, ho⟩ := hstep s i s₁ o hs (hP i List.mem_cons_self) h₁
    obtain ⟨hs₂, hos⟩ := ih s₁ s' os₂ hs₁ (fun j hj => hP j (List.mem_cons_of_mem _ hj)) h₂
    refine ⟨hs₂, fun o' ho' => ?_⟩
    rcases List.mem_cons.1 ho' with rfl | ho'
    · exact ho
    · exact hos o' ho'

/-- The outputs a specification `out` gives for each input of a run, each read after the
inputs before it, the run starting after the history `hist`. -/
def outputsAfter (out : List I → I → O) : List I → List I → List O
  | _, [] => []
  | hist, i :: is => out hist i :: outputsAfter out (hist ++ [i]) is

/-- **The history rule.** If every step on an input of the class `P` from a state that
holds a history returns the output `out` gives after that history, and a state that
holds the history with the input, then every run over such inputs from a state that
holds `hist` returns, with the outputs `outputsAfter out hist`. -/
theorem runSteps_outputsAfter_of_forall (P : I → Prop) (Holds : S → List I → Prop) (out : List I → I → O)
    (hstep : ∀ s hist i, P i → Holds s hist → ∃ s', step s i = some (s', out hist i) ∧ Holds s' (hist ++ [i])) :
    ∀ (is : List I), (∀ i ∈ is, P i) → ∀ (s : S) (hist : List I), Holds s hist →
      ∃ s', runSteps step s is = some (s', outputsAfter out hist is)
  | [], _, s, _, _ => ⟨s, rfl⟩
  | i :: is, hP, s, hist, h => by
    obtain ⟨s₁, h₁, hh₁⟩ := hstep s hist i (hP i List.mem_cons_self) h
    obtain ⟨s₂, h₂⟩ := runSteps_outputsAfter_of_forall P Holds out hstep is
      (fun j hj => hP j (List.mem_cons_of_mem _ hj)) s₁ (hist ++ [i]) hh₁
    exact ⟨s₂, runSteps_cons_of_eq h₁ h₂⟩

/-- The history rule for a transducer whose every input is of the class. -/
theorem runSteps_outputsAfter (Holds : S → List I → Prop) (out : List I → I → O)
    (hstep : ∀ s hist i, Holds s hist → ∃ s', step s i = some (s', out hist i) ∧ Holds s' (hist ++ [i])) :
    ∀ (is : List I) (s : S) (hist : List I), Holds s hist →
      ∃ s', runSteps step s is = some (s', outputsAfter out hist is) :=
  fun is => runSteps_outputsAfter_of_forall (fun _ => True) Holds out (fun s hist i _ h => hstep s hist i h) is
    fun _ _ => trivial

/-- **Lockstep simulation.** Two transducers are fed related inputs, one pair at a
time. If a step from related states on related inputs returns in both, with related
outputs, and leaves related states, then so does every run over related lists. -/
theorem runSteps_forall₂ {T J O' : Type*} {g : T → J → Option (T × O')} (R : S → T → Prop)
    (Q : I → J → Prop) (E : O → O' → Prop)
    (hstep : ∀ s t i j, R s t → Q i j →
      ∃ s' t' o o', step s i = some (s', o) ∧ g t j = some (t', o') ∧ R s' t' ∧ E o o') :
    ∀ {is : List I} {js : List J}, List.Forall₂ Q is js → ∀ s t, R s t →
      ∃ s' t' os os', runSteps step s is = some (s', os) ∧ runSteps g t js = some (t', os') ∧
        R s' t' ∧ List.Forall₂ E os os' := by
  intro is js hQ
  induction hQ with
  | nil => exact fun s t hR => ⟨s, t, [], [], rfl, rfl, hR, .nil⟩
  | cons hij _ ih =>
    intro s t hR
    obtain ⟨s₁, t₁, o, o', h₁, h₁', hR₁, hE⟩ := hstep _ _ _ _ hR hij
    obtain ⟨s₂, t₂, os, os', h₂, h₂', hR₂, hEs⟩ := ih s₁ t₁ hR₁
    exact ⟨s₂, t₂, o :: os, o' :: os', runSteps_cons_of_eq h₁ h₂, runSteps_cons_of_eq h₁' h₂', hR₂,
      .cons hE hEs⟩

/-- **Simulation with the same outputs.** If from related states a step of `step` and
one of `g` on the same input both fail, or both return the same output and related
states, then so do the runs from related states. -/
theorem runSteps_rel {T : Type*} {g : T → I → Option (T × O)} (R : S → T → Prop)
    (hstep : ∀ s t i, R s t → Option.Rel (fun a b => R a.1 b.1 ∧ a.2 = b.2) (step s i) (g t i)) :
    ∀ (is : List I) (s : S) (t : T), R s t →
      Option.Rel (fun a b => R a.1 b.1 ∧ a.2 = b.2) (runSteps step s is) (runSteps g t is)
  | [], _, _, h => .some ⟨h, rfl⟩
  | i :: is, s, t, h => by
    rw [runSteps_cons, runSteps_cons]
    have hi := hstep s t i h
    generalize step s i = x at hi ⊢
    generalize g t i = y at hi ⊢
    cases hi with
    | none => exact .none
    | some hr =>
      obtain ⟨hR, ho⟩ := hr
      simp only [Option.bind_some]
      -- the rest of the runs, from the related states the first steps leave
      have hrest := runSteps_rel R hstep is _ _ hR
      generalize runSteps step _ is = x at hrest ⊢
      generalize runSteps g _ is = y at hrest ⊢
      cases hrest with
      | none => exact .none
      | some hr' => exact .some ⟨hr'.1, by dsimp only; rw [hr'.2, ho]⟩

/-- Two results that pair the same outputs with related states. -/
theorem rel_map_pair {T : Type*} {R : S → T → Prop} {s : S} {t : T} (h : R s t) (r : Option O) :
    Option.Rel (fun a b => R a.1 b.1 ∧ a.2 = b.2) (r.map fun o => (s, o)) (r.map fun o => (t, o)) := by
  cases r with
  | none => exact .none
  | some o => exact .some ⟨h, rfl⟩

/-- Related results give the same outputs. -/
theorem map_snd_eq_of_rel {T : Type*} {R : S → T → Prop} {x : Option (S × O)} {y : Option (T × O)}
    (h : Option.Rel (fun a b => R a.1 b.1 ∧ a.2 = b.2) x y) : x.map Prod.snd = y.map Prod.snd := by
  cases h with
  | none => rfl
  | some hr => exact congrArg some hr.2

/-- **A step on one part of the state.** A transducer whose states are `set s`, each
step acting on the part `s` as `step` does, runs as `step` does on that part. -/
theorem runSteps_focus {T : Type*} {step' : T → I → Option (T × O)} (set : S → T)
    (h : ∀ s i, step' (set s) i = (step s i).map fun r => (set r.1, r.2)) :
    ∀ (is : List I) (s : S), runSteps step' (set s) is = (runSteps step s is).map fun r => (set r.1, r.2)
  | [], _ => rfl
  | i :: is, s => by
    rw [runSteps_cons, runSteps_cons, h]
    cases step s i with
    | none => rfl
    | some r =>
      simp only [Option.map_some, Option.bind_some]
      rw [runSteps_focus set h is r.1]
      cases runSteps step r.1 is <;> rfl

end Synapse.Theory
