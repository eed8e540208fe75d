import Mathlib

/-!
# Finite maps with a traversal order

A hash map of a C++ program, seen through what its code does with it: `find`,
`insert` of a key absent or present, `erase`, and a walk over all entries in the map's
own order, which may touch each value. `KeyMap` keeps its entries, each key once, in
the order of first insertion. The hash maps of the sources walk their buckets
instead, in an order set by the hash function and the table's size; a result about
the model that depends on the order of a walk holds of the code only up to a
permutation of the walk, and is stated so where the walk's output is the point.

## What is proved

`find?_insert` and `find?_erase` say what a lookup sees after an update;
`keys_insert_of_mem`, `keys_insert_of_not_mem` and `keys_mapVals` how the walk's
order changes, and `map_entries_eq_map_keys` that a walk meets each key with its
value; `mem_entries_insert` and `mem_entries_mapVals` which entries a walk meets
after one; `countVals_insert_of_not_mem` and `countVals_insert_of_find?`
how an insert changes the number of values of a kind.
-/

namespace Synapse.Theory

universe u v

/-- A finite map whose entries are listed in traversal order, each key once. -/
structure KeyMap (κ : Type u) (β : Type v) where
  /-- The entries, in the order a walk over the map visits them. -/
  entries : List (κ × β)
  /-- No key twice. -/
  nodup : (entries.map Prod.fst).Nodup

namespace KeyMap

variable {κ : Type u} {β : Type v} [DecidableEq κ]

/-- The keys, in traversal order. -/
def keys (m : KeyMap κ β) : List κ := m.entries.map Prod.fst

/-- The value at `k`. -/
def find? (m : KeyMap κ β) (k : κ) : Option β := m.entries.lookup k

/-- The map with no entries. -/
def empty : KeyMap κ β := ⟨[], List.nodup_nil⟩

/-- The entry of a key set to `v` in place. -/
def setAt (k : κ) (v : β) (e : κ × β) : κ × β := if e.1 = k then (k, v) else e

theorem setAt_of_eq {k : κ} {e : κ × β} (h : e.1 = k) (v : β) : setAt k v e = (k, v) := if_pos h

theorem setAt_of_ne {k : κ} {e : κ × β} (h : e.1 ≠ k) (v : β) : setAt k v e = e := if_neg h

@[simp] theorem fst_setAt (k : κ) (v : β) (e : κ × β) : (setAt k v e).1 = e.1 := by
  by_cases h : e.1 = k
  · rw [setAt_of_eq h, h]
  · rw [setAt_of_ne h]

/-- `m [k] = v`: the value of a key already there is replaced in place; a new key
goes last. -/
def insert (m : KeyMap κ β) (k : κ) (v : β) : KeyMap κ β :=
  if h : k ∈ m.keys then
    ⟨m.entries.map (setAt k v), by simpa [Function.comp_def] using m.nodup⟩
  else
    ⟨m.entries ++ [(k, v)], by
      rw [List.map_append, List.nodup_append]
      refine ⟨m.nodup, List.nodup_singleton _, fun a ha b hb hab => h ?_⟩
      simp only [List.map_singleton, List.mem_singleton] at hb
      rw [keys, ← hb, ← hab]
      exact ha⟩

/-- `m.erase k`: the entry of `k` removed, the others in their order. -/
def erase (m : KeyMap κ β) (k : κ) : KeyMap κ β :=
  ⟨m.entries.filter (·.1 != k), (List.filter_sublist.map Prod.fst).nodup m.nodup⟩

/-- A walk that replaces each value `v` at `k` by `f k v`. -/
def mapVals (m : KeyMap κ β) (f : κ → β → β) : KeyMap κ β :=
  ⟨m.entries.map fun e => (e.1, f e.1 e.2), by simpa [Function.comp_def] using m.nodup⟩

/-! ### Lookups on lists of pairs -/

theorem lookup_cons_of_ne {k a : κ} (h : k ≠ a) (b : β) (l : List (κ × β)) :
    ((a, b) :: l).lookup k = l.lookup k := by
  rw [List.lookup_cons, beq_eq_false_iff_ne.2 h]

theorem lookup_map_setAt_ne (l : List (κ × β)) {k k' : κ} (h : k' ≠ k) (v : β) :
    (l.map (setAt k v)).lookup k' = l.lookup k' := by
  induction l with
  | nil => rfl
  | cons e l ih =>
    obtain ⟨a, b⟩ := e
    by_cases ha : a = k
    · subst ha
      rw [List.map_cons, setAt_of_eq (e := (a, b)) rfl, lookup_cons_of_ne h, lookup_cons_of_ne h, ih]
    · rw [List.map_cons, setAt_of_ne (e := (a, b)) ha]
      by_cases h' : k' = a
      · subst h'
        simp
      · rw [lookup_cons_of_ne h', lookup_cons_of_ne h', ih]

theorem lookup_map_setAt_self (l : List (κ × β)) {k : κ} (hk : k ∈ l.map Prod.fst) (v : β) :
    (l.map (setAt k v)).lookup k = some v := by
  induction l with
  | nil => simp at hk
  | cons e l ih =>
    obtain ⟨a, b⟩ := e
    by_cases ha : a = k
    · subst ha
      simp [setAt_of_eq]
    · have hk' : k ∈ l.map Prod.fst := by simpa [Ne.symm ha] using hk
      rw [List.map_cons, setAt_of_ne (e := (a, b)) ha, lookup_cons_of_ne (Ne.symm ha), ih hk']

theorem map_setAt_of_not_mem (l : List (κ × β)) {k : κ} (hk : k ∉ l.map Prod.fst) (v : β) :
    l.map (setAt k v) = l := by
  induction l with
  | nil => rfl
  | cons e l ih =>
    have he : e.1 ≠ k := fun h => hk (by simp [← h])
    rw [List.map_cons, setAt_of_ne he, ih (by simp_all)]

theorem lookup_map_vals (l : List (κ × β)) (f : κ → β → β) (k : κ) :
    (l.map fun e => (e.1, f e.1 e.2)).lookup k = (l.lookup k).map (f k) := by
  induction l with
  | nil => rfl
  | cons e l ih =>
    obtain ⟨a, b⟩ := e
    by_cases h : k = a
    · subst h
      simp
    · rw [List.map_cons, lookup_cons_of_ne h, lookup_cons_of_ne h, ih]

theorem lookup_filter_ne (l : List (κ × β)) (k k' : κ) :
    (l.filter (·.1 != k)).lookup k' = if k' = k then none else l.lookup k' := by
  induction l with
  | nil => simp
  | cons e l ih =>
    obtain ⟨a, b⟩ := e
    by_cases ha : a = k
    · -- the entry of `k` is dropped
      subst ha
      rw [List.filter_cons_of_neg (by simp), ih]
      by_cases h' : k' = a
      · rw [if_pos h', if_pos h']
      · rw [if_neg h', if_neg h', lookup_cons_of_ne h']
    · rw [List.filter_cons_of_pos (by simpa using ha)]
      by_cases h' : k' = a
      · subst h'
        simp [ha]
      · rw [lookup_cons_of_ne h', lookup_cons_of_ne h', ih]

/-! ### The map's operations -/

variable (m : KeyMap κ β)

@[simp] theorem find?_empty (k : κ) : (empty : KeyMap κ β).find? k = none := rfl

omit [DecidableEq κ] in
@[simp] theorem keys_empty : (empty : KeyMap κ β).keys = [] := rfl

theorem mem_keys {k : κ} : k ∈ m.keys ↔ (m.find? k).isSome := by
  simp [keys, find?, List.lookup_isSome_iff]

theorem find?_eq_none {k : κ} : m.find? k = none ↔ k ∉ m.keys := by
  rw [mem_keys, Option.not_isSome_iff_eq_none]

theorem any_keys_eq (k : κ) : (m.keys.any fun k' => decide (k' = k)) = (m.find? k).isSome :=
  Bool.eq_iff_iff.2 (by simpa only [List.any_eq_true, decide_eq_true_eq, exists_eq_right] using mem_keys m)

theorem entries_insert_of_mem {k : κ} (h : k ∈ m.keys) (v : β) :
    (m.insert k v).entries = m.entries.map (setAt k v) := by
  unfold insert
  rw [dif_pos h]

theorem entries_insert_of_not_mem {k : κ} (h : k ∉ m.keys) (v : β) :
    (m.insert k v).entries = m.entries ++ [(k, v)] := by
  unfold insert
  rw [dif_neg h]

theorem find?_insert (k k' : κ) (v : β) :
    (m.insert k v).find? k' = if k' = k then some v else m.find? k' := by
  unfold find?
  by_cases hk : k ∈ m.keys
  · -- a key already there: its value is set in place
    rw [entries_insert_of_mem m hk]
    by_cases hk' : k' = k
    · subst hk'
      rw [if_pos rfl, lookup_map_setAt_self _ hk]
    · rw [if_neg hk', lookup_map_setAt_ne _ hk']
  · -- a new key: appended after the others
    rw [entries_insert_of_not_mem m hk, List.lookup_append]
    by_cases hk' : k' = k
    · subst hk'
      have hnone : m.entries.lookup k' = none := (find?_eq_none m).2 hk
      simp [hnone]
    · rw [if_neg hk', lookup_cons_of_ne hk', List.lookup_nil, Option.or_none]

@[simp] theorem find?_insert_self (k : κ) (v : β) : (m.insert k v).find? k = some v := by
  rw [find?_insert, if_pos rfl]

theorem keys_insert_of_mem {k : κ} (h : k ∈ m.keys) (v : β) : (m.insert k v).keys = m.keys := by
  simp [keys, entries_insert_of_mem m h, Function.comp_def]

theorem keys_insert_of_not_mem {k : κ} (h : k ∉ m.keys) (v : β) : (m.insert k v).keys = m.keys ++ [k] := by
  simp [keys, entries_insert_of_not_mem m h]

theorem length_keys_le_insert (k : κ) (v : β) : m.keys.length ≤ (m.insert k v).keys.length := by
  by_cases h : k ∈ m.keys
  · exact Nat.le_of_eq (by rw [keys_insert_of_mem m h])
  · rw [keys_insert_of_not_mem m h, List.length_append]
    exact Nat.le_add_right _ _

theorem find?_erase (k k' : κ) : (m.erase k).find? k' = if k' = k then none else m.find? k' :=
  lookup_filter_ne _ k k'

@[simp] theorem find?_erase_self (k : κ) : (m.erase k).find? k = none := by
  rw [find?_erase, if_pos rfl]

omit [DecidableEq κ] in
@[simp] theorem keys_mapVals (f : κ → β → β) : (m.mapVals f).keys = m.keys := by
  simp [mapVals, keys, Function.comp_def]

theorem find?_mapVals (f : κ → β → β) (k : κ) : (m.mapVals f).find? k = (m.find? k).map (f k) :=
  lookup_map_vals _ f k

/-! ### The entries -/

theorem find?_of_mem_entries {e : κ × β} (h : e ∈ m.entries) : m.find? e.1 = some e.2 := by
  obtain ⟨l₁, l₂, hl⟩ := List.append_of_mem h
  have hnd := m.nodup
  rw [hl, List.map_append, List.nodup_append] at hnd
  refine List.lookup_eq_some_iff.2 ⟨l₁, l₂, hl, fun p hp => ?_⟩
  -- the keys before the entry are not its key
  have hne : p.1 ≠ e.1 := hnd.2.2 _ (List.mem_map_of_mem hp) _ List.mem_cons_self
  simpa [bne_iff_ne] using hne.symm

/-- A walk over the entries is one over the keys, each with the value a lookup gives. -/
theorem map_entries_eq_map_keys {γ : Type*} (d : β) (f : κ × β → γ) :
    m.entries.map f = m.keys.map fun k => f (k, (m.find? k).getD d) := by
  rw [keys, List.map_map]
  refine List.map_congr_left fun e he => ?_
  rw [Function.comp_apply, find?_of_mem_entries m he, Option.getD_some]

theorem mem_entries_of_find? {k : κ} {v : β} (h : m.find? k = some v) : (k, v) ∈ m.entries := by
  obtain ⟨l₁, l₂, hl, -⟩ := List.lookup_eq_some_iff.1 h
  rw [hl]
  simp

/-- An entry after an insert is the new one or one from before. -/
theorem mem_entries_insert {k : κ} {v : β} {e : κ × β} (h : e ∈ (m.insert k v).entries) :
    e = (k, v) ∨ e ∈ m.entries := by
  by_cases hk : k ∈ m.keys
  · rw [entries_insert_of_mem m hk] at h
    obtain ⟨e', he', rfl⟩ := List.mem_map.1 h
    by_cases he : e'.1 = k
    · exact .inl (setAt_of_eq he v)
    · exact .inr ((setAt_of_ne he v).symm ▸ he')
  · rw [entries_insert_of_not_mem m hk] at h
    rcases List.mem_append.1 h with h | h
    · exact .inr h
    · exact .inl (List.mem_singleton.1 h)

omit [DecidableEq κ] in
theorem mem_entries_mapVals {f : κ → β → β} {e : κ × β} (h : e ∈ (m.mapVals f).entries) :
    ∃ e' ∈ m.entries, e = (e'.1, f e'.1 e'.2) := by
  obtain ⟨e', he', rfl⟩ := List.mem_map.1 h
  exact ⟨e', he', rfl⟩

/-! ### Counting values -/

/-- The number of entries whose value satisfies `p`. -/
def countVals (m : KeyMap κ β) (p : β → Bool) : ℕ := m.entries.countP fun e => p e.2

omit [DecidableEq κ] in
theorem countVals_le_length (p : β → Bool) : m.countVals p ≤ m.keys.length := by
  rw [countVals, keys, List.length_map]
  exact List.countP_le_length

theorem countVals_insert_of_not_mem {k : κ} (h : k ∉ m.keys) (v : β) (p : β → Bool) :
    (m.insert k v).countVals p = m.countVals p + if p v then 1 else 0 := by
  simp only [countVals, entries_insert_of_not_mem m h, List.countP_append, List.countP_singleton]

/-- Over a list with each key once, setting the value at `k` from `w` to `v` moves
one entry out of the count of `p` if `w` satisfied it and one in if `v` does. -/
theorem countP_map_setAt (p : β → Bool) {k : κ} {w v : β} :
    ∀ (l : List (κ × β)), (l.map Prod.fst).Nodup → l.lookup k = some w →
      (l.map (setAt k v)).countP (fun e => p e.2) + (if p w then 1 else 0) =
        l.countP (fun e => p e.2) + if p v then 1 else 0
  | [], _, h => by simp at h
  | (a, b) :: l, hnd, h => by
    rw [List.map_cons, List.nodup_cons] at hnd
    by_cases ha : a = k
    · -- the entry of `k`: the rest of the list does not hold `k` again
      subst ha
      have hw : b = w := by simpa using h
      subst hw
      rw [List.map_cons, setAt_of_eq (e := (a, b)) rfl, map_setAt_of_not_mem l hnd.1, List.countP_cons, List.countP_cons]
      split_ifs <;> omega
    · rw [lookup_cons_of_ne (Ne.symm ha)] at h
      rw [List.map_cons, setAt_of_ne (e := (a, b)) ha, List.countP_cons, List.countP_cons]
      have := countP_map_setAt p (v := v) l hnd.2 h
      omega

theorem countVals_insert_of_find? {k : κ} {w : β} (h : m.find? k = some w) (v : β) (p : β → Bool) :
    (m.insert k v).countVals p + (if p w then 1 else 0) = m.countVals p + if p v then 1 else 0 := by
  have hk : k ∈ m.keys := (mem_keys m).2 (by rw [h]; rfl)
  rw [countVals, entries_insert_of_mem m hk]
  exact countP_map_setAt p m.entries m.nodup h

end KeyMap

end Synapse.Theory
