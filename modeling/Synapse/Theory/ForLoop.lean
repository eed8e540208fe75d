import Mathlib

/-!
# Loops that may return early or go wrong

A C `for (i = start; i < start + n; ++i)` loop whose body may `return` from the
enclosing function, or do something the language leaves undefined (read past a
buffer). A piece of such code gives a `Flow`: it goes on with a state, it has
returned a value, or its behaviour is undefined. `forRange` runs a body over an
index range.

## What is proved

`forRange_add` cuts a loop into two consecutive ranges, and `forRange_succ_right`
takes its last index apart; `forRange_of_forall_cont` says a range on which the
body only goes on, leaving the state as it is, does nothing.
-/

namespace Synapse.Theory

universe u v w

/-- What running a piece of a C function gives. -/
inductive Flow (σ : Type u) (ρ : Type v) where
  /-- It goes on, with the state `s`. -/
  | cont (s : σ)
  /-- It has left the function, returning `r`. -/
  | ret (r : ρ)
  /-- Its behaviour is undefined. -/
  | undef
  deriving DecidableEq, Repr

namespace Flow

variable {σ : Type u} {τ : Type w} {ρ : Type v}

/-- Run `k` after `f`, if `f` goes on. -/
def bind : Flow σ ρ → (σ → Flow τ ρ) → Flow τ ρ
  | cont s, k => k s
  | ret r, _ => ret r
  | undef, _ => undef

@[simp] theorem cont_bind (s : σ) (k : σ → Flow τ ρ) : (cont s).bind k = k s := rfl
@[simp] theorem ret_bind (r : ρ) (k : σ → Flow τ ρ) : (ret r : Flow σ ρ).bind k = ret r := rfl
@[simp] theorem undef_bind (k : σ → Flow τ ρ) : (undef : Flow σ ρ).bind k = undef := rfl

@[simp] theorem bind_cont (f : Flow σ ρ) : f.bind cont = f := by
  cases f <;> rfl

theorem bind_assoc {υ : Type*} (f : Flow σ ρ) (k : σ → Flow τ ρ) (k' : τ → Flow υ ρ) :
    (f.bind k).bind k' = f.bind fun s => (k s).bind k' := by
  cases f <;> rfl

/-- The state `f` goes on with, seen through `g`. -/
def map (g : σ → τ) : Flow σ ρ → Flow τ ρ
  | cont s => cont (g s)
  | ret r => ret r
  | undef => undef

@[simp] theorem map_cont (g : σ → τ) (s : σ) : (cont s : Flow σ ρ).map g = cont (g s) := rfl
@[simp] theorem map_ret (g : σ → τ) (r : ρ) : (ret r : Flow σ ρ).map g = ret r := rfl
@[simp] theorem map_undef (g : σ → τ) : (undef : Flow σ ρ).map g = undef := rfl

theorem map_bind {υ : Type*} (g : τ → υ) (f : Flow σ ρ) (k : σ → Flow τ ρ) :
    (f.bind k).map g = f.bind fun s => (k s).map g := by
  cases f <;> rfl

theorem bind_map {υ : Type*} (g : σ → τ) (f : Flow σ ρ) (k : τ → Flow υ ρ) :
    (f.map g).bind k = f.bind (k ∘ g) := by
  cases f <;> rfl

end Flow

variable {σ : Type u} {ρ : Type v}

/-- `for (i = start; i < start + n; ++i) body (i)`, from the state `s`. -/
def forRange (body : ℕ → σ → Flow σ ρ) (start : ℕ) : ℕ → σ → Flow σ ρ
  | 0, s => .cont s
  | n + 1, s => (body start s).bind (forRange body (start + 1) n)

variable {body : ℕ → σ → Flow σ ρ}

@[simp] theorem forRange_zero (start : ℕ) (s : σ) : forRange body start 0 s = .cont s := rfl

theorem forRange_succ (start n : ℕ) (s : σ) :
    forRange body start (n + 1) s = (body start s).bind (forRange body (start + 1) n) := rfl

/-- A loop over `m + n` indices is the loop over the first `m`, then over the rest. -/
theorem forRange_add (start m n : ℕ) (s : σ) :
    forRange body start (m + n) s = (forRange body start m s).bind (forRange body (start + m) n) := by
  induction m generalizing start s with
  | zero => simp
  | succ m ih =>
    rw [Nat.add_right_comm, forRange_succ, forRange_succ, Flow.bind_assoc]
    congr 1
    funext s'
    rw [ih, Nat.add_right_comm, Nat.add_assoc]

/-- The last index of a range. -/
theorem forRange_succ_right (start n : ℕ) (s : σ) :
    forRange body start (n + 1) s = (forRange body start n s).bind (body (start + n)) := by
  rw [forRange_add]
  congr 1
  funext s'
  rw [forRange_succ]
  cases body (start + n) s' <;> rfl

/-- A range on which the body goes on and keeps the state does nothing. -/
theorem forRange_of_forall_cont {start n : ℕ} {s : σ}
    (h : ∀ i, start ≤ i → i < start + n → body i s = .cont s) : forRange body start n s = .cont s := by
  induction n generalizing start with
  | zero => rfl
  | succ n ih =>
    rw [forRange_succ, h start (Nat.le_refl start) (by omega), Flow.cont_bind]
    exact ih fun i hi hi' => h i (by omega) (by omega)

end Synapse.Theory
