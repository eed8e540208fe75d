import Mathlib

/-!
# Writes into a bounded buffer

A C loop that formats texts one after another into a buffer of `size` bytes with
`snprintf (buf + size - remaining, remaining, ...)`, takes the length `snprintf`
returns off `remaining` and stops once `remaining` drops below `1`. Each call writes
as much of its text as fits before a NUL, and returns the length of the whole text.

## What is proved

`boundedWrites_eq_take`: what the buffer holds before its NUL is the concatenation of
the texts, cut to `size - 1` characters, whether or not the loop stops early.
-/

namespace Synapse.Theory

variable {α : Type*}

/-- What the calls of such a loop write before the last NUL, starting with `remaining`
bytes left, for the texts `ts`. -/
def boundedWrites : ℤ → List (List α) → List α
  | _, [] => []
  | remaining, t :: ts =>
    t.take (remaining - 1).toNat ++ if remaining - t.length < 1 then [] else boundedWrites (remaining - t.length) ts

/-- **The buffer holds the texts, cut.** With at least one byte left, the writes leave
the first `remaining - 1` characters of the concatenated texts. -/
theorem boundedWrites_eq_take : ∀ (ts : List (List α)) (remaining : ℤ), 1 ≤ remaining →
    boundedWrites remaining ts = ts.flatten.take (remaining - 1).toNat
  | [], _, _ => by simp [boundedWrites]
  | t :: ts, remaining, h => by
    rw [boundedWrites, List.flatten_cons]
    split_ifs with hfull
    · -- the text fills the buffer: only its start is written
      rw [List.append_nil, List.take_append_of_le_length (by omega)]
    · -- the text fits, and the rest is written into what is left
      have hfits : t.length ≤ (remaining - 1).toNat := by omega
      rw [boundedWrites_eq_take ts _ (by omega), List.take_append, List.take_of_length_le hfits]
      congr 2
      omega

end Synapse.Theory
