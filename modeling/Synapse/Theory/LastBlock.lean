import Mathlib

/-!
# The last block of a list

A list of records, each with a key, falls into maximal blocks of consecutive records
with the same key. `lastBlock key l` is the last of them, and `beforeLastBlock key l`
everything before it. A record appended with the key of the last block extends the
block; one with another key starts a new block, and the whole list before it becomes
what comes before (`lastBlock_concat`, `beforeLastBlock_concat`).
-/

namespace Synapse.Theory

variable {α κ : Type*} [DecidableEq κ] (key : α → κ)

/-- The last maximal block of records with the key of the last one. -/
def lastBlock (l : List α) : List α :=
  match l.getLast? with
  | none => []
  | some x => l.rtakeWhile fun y => decide (key y = key x)

/-- The records before the last block. -/
def beforeLastBlock (l : List α) : List α :=
  match l.getLast? with
  | none => []
  | some x => l.rdropWhile fun y => decide (key y = key x)

@[simp] theorem lastBlock_nil : lastBlock key ([] : List α) = [] := rfl

@[simp] theorem beforeLastBlock_nil : beforeLastBlock key ([] : List α) = [] := rfl

variable {key}

theorem lastBlock_concat (l : List α) (x : α) :
    lastBlock key (l ++ [x]) = if l.getLast?.map key = some (key x) then lastBlock key l ++ [x] else [x] := by
  rw [lastBlock, List.getLast?_concat]
  dsimp only
  rw [List.rtakeWhile_concat_pos _ _ _ (by simp)]
  obtain rfl | ⟨l, y, rfl⟩ := List.eq_nil_or_concat' l
  · simp
  · rw [List.getLast?_concat, lastBlock, List.getLast?_concat, List.rtakeWhile_concat]
    by_cases hxy : key y = key x
    · simp [hxy]
    · simp [hxy]

theorem beforeLastBlock_concat (l : List α) (x : α) :
    beforeLastBlock key (l ++ [x]) = if l.getLast?.map key = some (key x) then beforeLastBlock key l else l := by
  rw [beforeLastBlock, List.getLast?_concat]
  dsimp only
  rw [List.rdropWhile_concat_pos _ _ _ (by simp)]
  obtain rfl | ⟨l, y, rfl⟩ := List.eq_nil_or_concat' l
  · simp
  · rw [List.getLast?_concat, beforeLastBlock, List.getLast?_concat, List.rdropWhile_concat]
    by_cases hxy : key y = key x
    · simp [hxy]
    · simp [hxy]

/-- A list with a record has a last block. -/
theorem lastBlock_ne_nil {l : List α} (hl : l ≠ []) : lastBlock key l ≠ [] := by
  obtain ⟨l, x, rfl⟩ := (List.eq_nil_or_concat' l).resolve_left hl
  rw [lastBlock_concat]
  split_ifs <;> simp

end Synapse.Theory
