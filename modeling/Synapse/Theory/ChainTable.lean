import Synapse.Theory.KeyMap

/-!
# Chained hash tables

A hash table with chaining, seen through what a program does with it: `find` walks
the chain of the key's bucket and stops at the first entry whose key the table's
equality calls equal; `insert` of a key `find` missed adds an entry; a write
through the iterator `find` returned replaces that entry's value. The bucket of a
key is a function of its hash and of the current number of buckets, which the
table changes as it grows; the operations here take it as a parameter.

Whether such a table is a map depends on its hash and its equality agreeing: keys
the equality calls equal must hash alike, or `find` looks in the wrong chain and
`insert` adds a second entry for a key already there.

## What is proved

Let the equality compare the meanings `abs k` of keys, and let keys of the same
meaning in `P` fall into the same bucket. Then a table whose keys are in `P`
refines the `KeyMap` of their meanings (`Refines`): `Refines.find?`,
`Refines.insertNew` and `Refines.setFound` say that each operation is the map's.
-/

namespace Synapse.Theory

universe u v w

/-- A chained hash table: its entries, each key with its value. -/
structure ChainTable (κ : Type u) (β : Type v) where
  /-- The entries, in the order they were added. -/
  entries : List (κ × β)

namespace ChainTable

variable {κ : Type u} {β : Type v} {α : Type w}

section Ops

variable (bucket : κ → ℕ) (eq : κ → κ → Bool)

/-- Where the walk of the chain of `k` stops: an entry in `k`'s bucket whose key is
equal to `k`. -/
def chainMatch (k : κ) (e : κ × β) : Bool := bucket e.1 == bucket k && eq e.1 k

/-- `find (k)`: the value of the first entry of `k`'s chain equal to `k`. -/
def find? (t : ChainTable κ β) (k : κ) : Option β :=
  (t.entries.find? (chainMatch bucket eq k)).map Prod.snd

/-- `*find (k) = v`: the entry `find` stopped at gets the value `v`. -/
def setFound (t : ChainTable κ β) (k : κ) (v : β) : ChainTable κ β :=
  ⟨t.entries.replaceF fun e => if chainMatch bucket eq k e then some (e.1, v) else none⟩

end Ops

/-- `insert (k, v)` of a key that `find` missed: a new entry. -/
def insertNew (t : ChainTable κ β) (k : κ) (v : β) : ChainTable κ β := ⟨t.entries ++ [(k, v)]⟩

/-- The entries, each key replaced by its meaning. -/
def view (abs : κ → α) (t : ChainTable κ β) : List (α × β) := t.entries.map fun e => (abs e.1, e.2)

theorem map_fst_setFound (bucket : κ → ℕ) (eq : κ → κ → Bool) (t : ChainTable κ β) (k : κ) (v : β) :
    (t.setFound bucket eq k v).entries.map Prod.fst = t.entries.map Prod.fst := by
  obtain ⟨l⟩ := t
  simp only [setFound]
  induction l with
  | nil => rfl
  | cons e l ih =>
    rw [List.replaceF_cons]
    split_ifs
    · rfl
    · simp [ih]

/-! ### Agreeing hash and equality -/

section Agree

variable [DecidableEq α] {bucket : κ → ℕ} {eq : κ → κ → Bool} {abs : κ → α} {P : κ → Prop}

/-- `t` stands for the map `m`: its entries read through `abs` are `m`'s, and its
keys are in `P`. -/
structure Refines (abs : κ → α) (P : κ → Prop) (t : ChainTable κ β) (m : KeyMap α β) : Prop where
  view_eq : view abs t = m.entries
  keys_mem : ∀ e ∈ t.entries, P e.1

variable (heq : ∀ a b, eq a b = decide (abs a = abs b))
  (hbucket : ∀ a b, P a → P b → abs a = abs b → bucket a = bucket b)
include heq hbucket

theorem chainMatch_eq {k : κ} (hk : P k) {e : κ × β} (he : P e.1) :
    chainMatch bucket eq k e = decide (abs e.1 = abs k) := by
  rw [chainMatch, heq]
  by_cases h : abs e.1 = abs k
  · simp [h, hbucket _ _ he hk h]
  · simp [h]

theorem find?_eq_lookup {k : κ} (hk : P k) :
    ∀ (l : List (κ × β)), (∀ e ∈ l, P e.1) →
      (l.find? (chainMatch bucket eq k)).map Prod.snd = (l.map fun e => (abs e.1, e.2)).lookup (abs k)
  | [], _ => rfl
  | e :: l, hl => by
    rw [List.find?_cons, chainMatch_eq heq hbucket hk (hl e List.mem_cons_self), List.map_cons]
    by_cases h : abs e.1 = abs k
    · simp [h]
    · rw [decide_eq_false h, KeyMap.lookup_cons_of_ne (Ne.symm h)]
      exact find?_eq_lookup hk l fun e he => hl e (List.mem_cons_of_mem _ he)

theorem view_setFound {k : κ} (hk : P k) (v : β) :
    ∀ (l : List (κ × β)), (∀ e ∈ l, P e.1) → ((l.map fun e => (abs e.1, e.2)).map Prod.fst).Nodup →
      (l.replaceF fun e => if chainMatch bucket eq k e then some (e.1, v) else none).map
          (fun e => (abs e.1, e.2)) =
        (l.map fun e => (abs e.1, e.2)).map (KeyMap.setAt (abs k) v)
  | [], _, _ => rfl
  | e :: l, hl, hnd => by
    rw [List.map_cons, List.map_cons, List.nodup_cons] at hnd
    have he := hl e List.mem_cons_self
    have hl' : ∀ e ∈ l, P e.1 := fun e he => hl e (List.mem_cons_of_mem _ he)
    rw [List.replaceF_cons, chainMatch_eq heq hbucket hk he]
    by_cases h : abs e.1 = abs k
    · -- the walk stops here; `k` has no other entry to change
      have hrest := KeyMap.map_setAt_of_not_mem _ (h ▸ hnd.1) v
      simp only [h, decide_true, List.map_cons, KeyMap.setAt, if_pos, hrest]
    · have hrest := view_setFound hk v l hl' hnd.2
      simp only [h, decide_false, Bool.false_eq_true, if_false, List.map_cons, KeyMap.setAt, hrest]

theorem Refines.find? {t : ChainTable κ β} {m : KeyMap α β} (h : Refines abs P t m) {k : κ} (hk : P k) :
    t.find? bucket eq k = m.find? (abs k) := by
  rw [ChainTable.find?, find?_eq_lookup heq hbucket hk _ h.keys_mem, KeyMap.find?, ← h.view_eq]
  rfl

theorem Refines.insertNew {t : ChainTable κ β} {m : KeyMap α β} (h : Refines abs P t m) {k : κ} (hk : P k)
    (hnone : t.find? bucket eq k = none) (v : β) : Refines abs P (t.insertNew k v) (m.insert (abs k) v) := by
  have hk' : abs k ∉ m.keys := (KeyMap.find?_eq_none m).1 (by rw [← h.find? heq hbucket hk, hnone])
  refine ⟨?_, ?_⟩
  · rw [KeyMap.entries_insert_of_not_mem m hk', ← h.view_eq]
    simp [view, ChainTable.insertNew]
  · intro e he
    rcases List.mem_append.1 he with he | he
    · exact h.keys_mem e he
    · rw [List.mem_singleton.1 he]
      exact hk

theorem Refines.setFound {t : ChainTable κ β} {m : KeyMap α β} (h : Refines abs P t m) {k : κ} (hk : P k)
    (hsome : (t.find? bucket eq k).isSome) (v : β) :
    Refines abs P (t.setFound bucket eq k v) (m.insert (abs k) v) := by
  have hk' : abs k ∈ m.keys := (KeyMap.mem_keys m).2 (by rwa [← h.find? heq hbucket hk])
  refine ⟨?_, ?_⟩
  · have hnd : ((view abs t).map Prod.fst).Nodup := by
      rw [h.view_eq]
      exact m.nodup
    rw [KeyMap.entries_insert_of_mem m hk', ← h.view_eq]
    exact view_setFound heq hbucket hk v t.entries h.keys_mem hnd
  · intro e he
    have hfst : e.1 ∈ t.entries.map Prod.fst := by
      rw [← map_fst_setFound bucket eq t k v]
      exact List.mem_map_of_mem he
    obtain ⟨e', he', hee⟩ := List.mem_map.1 hfst
    rw [← hee]
    exact h.keys_mem e' he'

end Agree

end ChainTable

end Synapse.Theory
