import Synapse.Theory.Transducer

/-!
# Joining two stamped streams through one slot

Two streams of messages, on a first and a second port (`true` and `false`), arrive
interleaved, each with strictly increasing stamps. The join keeps at most one
message. A message on the port of the kept one replaces it. A message on the other
port is dropped when it is older than the kept one and kept in its place when it is
newer; when the two stamps are equal, the two are joined and the slot is emptied.

`joined seen x` says, without the slot, what the join emits for `x` after the
messages `seen`: `x` with the message of the other port that has its stamp, when
there is one and no message of `seen` is later than `x`.

## What is proved

* `joinStep_spec`: a step emits `joined` and keeps `SlotInv`, which says what the
  slot holds after the messages seen; `runSteps_joinStep`: so does every run.
* `joined_eq_some`: what is emitted is a message of each port with one stamp.
* `joined_of_pair`: a stamp that both ports deliver is emitted at its second message
  exactly when no later message came before it; `slotInv_none_of_joined`: the slot is
  empty after an emission.
-/

namespace Synapse.Theory

variable {M τ : Type*} [LinearOrder τ] (stamp : M → τ)

/-- One message on the slot, with its port: the new slot and the pair joined, the
kept message first. -/
def joinStep : Option (Bool × M) → Bool × M → Option (Bool × M) × Option (M × M)
  | none, x => (some x, none)
  | some (s, m), (s', m') =>
    if s = s' then (some (s', m'), none)
    else if stamp m' < stamp m then (some (s, m), none)
    else if stamp m < stamp m' then (some (s', m'), none)
    else (none, some (m, m'))

/-- What the join emits for `x` after the messages `seen`. -/
def joined (seen : List (Bool × M)) (x : Bool × M) : Option (M × M) :=
  if ∀ y ∈ seen, stamp y.2 ≤ stamp x.2 then
    (seen.find? fun y => y.1 ≠ x.1 ∧ stamp y.2 = stamp x.2).map fun y => (y.2, x.2)
  else none

theorem joined_eq (seen : List (Bool × M)) (x : Bool × M) :
    joined stamp seen x =
      if ∀ y ∈ seen, stamp y.2 ≤ stamp x.2 then
        (seen.find? fun y => y.1 ≠ x.1 ∧ stamp y.2 = stamp x.2).map fun y => (y.2, x.2)
      else none :=
  rfl

/-- What the join emits for each of `xs` after the messages `seen`. -/
def joinedAll : List (Bool × M) → List (Bool × M) → List (Option (M × M))
  | _, [] => []
  | seen, x :: xs => joined stamp seen x :: joinedAll (seen ++ [x]) xs

/-- Each port's stamps strictly increase. -/
def PortMono (xs : List (Bool × M)) : Prop :=
  xs.Pairwise fun a b => a.1 = b.1 → stamp a.2 < stamp b.2

/-- What the slot holds after `seen`: nothing when each message seen has a message
of each port at least as late, and otherwise the latest message, later than every
message of the other port. -/
def SlotInv (seen : List (Bool × M)) : Option (Bool × M) → Prop
  | none => ∀ y ∈ seen, ∀ p, ∃ z ∈ seen, z.1 = p ∧ stamp y.2 ≤ stamp z.2
  | some (s, m) => (s, m) ∈ seen ∧ ∀ y ∈ seen, stamp y.2 ≤ stamp m ∧ (y.1 ≠ s → stamp y.2 < stamp m)

variable {stamp}

/-! ### Stamps on one port -/

section PortMono

variable {xs : List (Bool × M)}

/-- Two positions with messages of one port and one stamp are the same. -/
theorem PortMono.index_eq (h : PortMono stamp xs) {k j : ℕ} {y z : Bool × M} (hy : xs[k]? = some y)
    (hz : xs[j]? = some z) (hp : y.1 = z.1) (hs : stamp y.2 = stamp z.2) : k = j := by
  obtain ⟨hk, rfl⟩ := List.getElem?_eq_some_iff.1 hy
  obtain ⟨hj, rfl⟩ := List.getElem?_eq_some_iff.1 hz
  have hR := List.pairwise_iff_getElem.1 h
  rcases Nat.lt_trichotomy k j with hkj | rfl | hjk
  · exact absurd hs (ne_of_lt (hR k j hk hj hkj hp))
  · rfl
  · exact absurd hs.symm (ne_of_lt (hR j k hj hk hjk hp.symm))

theorem PortMono.eq_of_stamp_eq (h : PortMono stamp xs) {y z : Bool × M} (hy : y ∈ xs) (hz : z ∈ xs)
    (hp : y.1 = z.1) (hs : stamp y.2 = stamp z.2) : y = z := by
  obtain ⟨k, hk⟩ := List.mem_iff_getElem?.1 hy
  obtain ⟨j, hj⟩ := List.mem_iff_getElem?.1 hz
  have hkj : k = j := h.index_eq hk hj hp hs
  subst hkj
  exact Option.some.inj (hk.symm.trans hj)

theorem PortMono.append_left {ys : List (Bool × M)} (h : PortMono stamp (xs ++ ys)) : PortMono stamp xs :=
  h.sublist (List.sublist_append_left xs ys)

/-- A message of one port is later than every earlier message of that port. -/
theorem PortMono.lt_last {x : Bool × M} (h : PortMono stamp (xs ++ [x])) {y : Bool × M} (hy : y ∈ xs)
    (hp : y.1 = x.1) : stamp y.2 < stamp x.2 :=
  (List.pairwise_append.1 h).2.2 y hy x (List.mem_singleton_self x) hp

end PortMono

/-- A message among the first `k` is at a position below `k`. -/
theorem exists_index_of_mem_take {xs : List (Bool × M)} {k : ℕ} {y : Bool × M} (hy : y ∈ xs.take k) :
    ∃ i < k, xs[i]? = some y := by
  obtain ⟨i, hi⟩ := List.mem_iff_getElem?.1 hy
  rw [List.getElem?_take] at hi
  split_ifs at hi with hik
  exact ⟨i, hik, hi⟩

/-! ### What is emitted -/

section Joined

variable {seen : List (Bool × M)} {x : Bool × M}

/-- Nothing is emitted for a message later than every one seen. -/
theorem joined_of_lt (h : ∀ y ∈ seen, stamp y.2 < stamp x.2) : joined stamp seen x = none := by
  have hnone : (seen.find? fun y => y.1 ≠ x.1 ∧ stamp y.2 = stamp x.2) = none := by
    rw [List.find?_eq_none]
    intro y hy hp
    have heq : stamp y.2 = stamp x.2 := (of_decide_eq_true hp).2
    exact absurd heq (ne_of_lt (h y hy))
  rw [joined_eq]
  split_ifs
  · rw [hnone, Option.map_none]
  · rfl

/-- Nothing is emitted for a message older than one seen. -/
theorem joined_of_later {y : Bool × M} (hy : y ∈ seen) (h : stamp x.2 < stamp y.2) :
    joined stamp seen x = none := by
  rw [joined_eq]
  rw [if_neg]
  intro hall
  exact absurd (hall y hy) (not_le.2 h)

/-- The message found when it is the only one of its port and stamp. -/
theorem joined_of_unique {y : Bool × M} (hy : y ∈ seen) (hp : y.1 ≠ x.1) (hs : stamp y.2 = stamp x.2)
    (hu : ∀ z ∈ seen, z.1 ≠ x.1 → stamp z.2 = stamp x.2 → z = y) (hle : ∀ z ∈ seen, stamp z.2 ≤ stamp x.2) :
    joined stamp seen x = some (y.2, x.2) := by
  have hfind : (seen.find? fun z => z.1 ≠ x.1 ∧ stamp z.2 = stamp x.2) = some y := by
    have hsome : (seen.find? fun z => z.1 ≠ x.1 ∧ stamp z.2 = stamp x.2).isSome :=
      List.find?_isSome.2 ⟨y, hy, decide_eq_true ⟨hp, hs⟩⟩
    obtain ⟨z, hz⟩ := Option.isSome_iff_exists.1 hsome
    have hzp : z.1 ≠ x.1 ∧ stamp z.2 = stamp x.2 := by simpa using List.find?_some hz
    rw [hz, hu z (List.mem_of_find?_eq_some hz) hzp.1 hzp.2]
  rw [joined_eq]
  rw [if_pos hle, hfind, Option.map_some]

/-- **What is emitted**: `x` with an earlier message of the other port and the same
stamp, no message seen being later. -/
theorem joined_eq_some {a b : M} (h : joined stamp seen x = some (a, b)) :
    b = x.2 ∧ (∃ y ∈ seen, y.1 ≠ x.1 ∧ y.2 = a ∧ stamp a = stamp b) ∧ ∀ z ∈ seen, stamp z.2 ≤ stamp b := by
  rw [joined_eq] at h
  split_ifs at h with hle
  obtain ⟨y, hfind, hy⟩ := Option.map_eq_some_iff.1 h
  simp only [Prod.mk.injEq] at hy
  obtain ⟨rfl, rfl⟩ := hy
  have hp : y.1 ≠ x.1 ∧ stamp y.2 = stamp x.2 := by simpa using List.find?_some hfind
  exact ⟨rfl, ⟨y, List.mem_of_find?_eq_some hfind, hp.1, rfl, hp.2⟩, hle⟩

end Joined

/-! ### One step, then every run -/

section Step

variable {seen : List (Bool × M)}

theorem slotInv_some_of_lt {x : Bool × M} (h : ∀ y ∈ seen, stamp y.2 < stamp x.2) :
    SlotInv stamp (seen ++ [x]) (some x) := by
  refine ⟨List.mem_append_right _ (List.mem_singleton_self x), fun y hy => ?_⟩
  rcases List.mem_append.1 hy with hy | hy
  · exact ⟨le_of_lt (h y hy), fun _ => h y hy⟩
  · rw [List.mem_singleton.1 hy]
    exact ⟨le_rfl, fun hne => absurd rfl hne⟩

/-- Each of the two ports is one of two different ones. -/
theorem eq_or_eq_of_ne {s s' : Bool} (h : s ≠ s') (p : Bool) : p = s ∨ p = s' := by
  cases s <;> cases s' <;> cases p <;> simp_all

/-- **One step.** From a slot that holds what `SlotInv` says, the step emits what
`joined` says and leaves a slot that holds what it says after one more message. -/
theorem joinStep_spec {slot : Option (Bool × M)} {x : Bool × M} (hmono : PortMono stamp (seen ++ [x]))
    (hinv : SlotInv stamp seen slot) :
    (joinStep stamp slot x).2 = joined stamp seen x ∧ SlotInv stamp (seen ++ [x]) (joinStep stamp slot x).1 := by
  obtain ⟨s', m'⟩ := x
  cases slot with
  | none =>
    -- every message seen has a later one on the port of `x`, so `x` is later still
    have hlt : ∀ y ∈ seen, stamp y.2 < stamp m' := by
      intro y hy
      obtain ⟨z, hz, hzp, hyz⟩ := hinv y hy s'
      exact lt_of_le_of_lt hyz (hmono.lt_last hz hzp)
    exact ⟨(joined_of_lt hlt).symm, slotInv_some_of_lt hlt⟩
  | some sm =>
    obtain ⟨s, m⟩ := sm
    obtain ⟨hmem, hmax⟩ := hinv
    simp only [joinStep]
    by_cases hss : s = s'
    · subst hss
      have hlt : ∀ y ∈ seen, stamp y.2 < stamp m' :=
        fun y hy => lt_of_le_of_lt (hmax y hy).1 (hmono.lt_last hmem rfl)
      rw [if_pos rfl]
      exact ⟨(joined_of_lt hlt).symm, slotInv_some_of_lt hlt⟩
    rw [if_neg hss]
    by_cases hold : stamp m' < stamp m
    · rw [if_pos hold]
      refine ⟨(joined_of_later hmem hold).symm, List.mem_append_left _ hmem, fun y hy => ?_⟩
      rcases List.mem_append.1 hy with hy | hy
      · exact hmax y hy
      · rw [List.mem_singleton.1 hy]
        exact ⟨le_of_lt hold, fun _ => hold⟩
    rw [if_neg hold]
    by_cases hnew : stamp m < stamp m'
    · rw [if_pos hnew]
      have hlt : ∀ y ∈ seen, stamp y.2 < stamp m' := fun y hy => lt_of_le_of_lt (hmax y hy).1 hnew
      exact ⟨(joined_of_lt hlt).symm, slotInv_some_of_lt hlt⟩
    rw [if_neg hnew]
    -- equal stamps: the kept message is the one of its port with the stamp of `x`
    have heq : stamp m = stamp m' := le_antisymm (not_lt.1 hold) (not_lt.1 hnew)
    have hu : ∀ z ∈ seen, z.1 ≠ s' → stamp z.2 = stamp m' → z = (s, m) := by
      intro z hz hzp hzs
      have hzs' : z.1 = s := ((eq_or_eq_of_ne hss z.1).resolve_right hzp)
      exact hmono.append_left.eq_of_stamp_eq hz hmem hzs' (hzs.trans heq.symm)
    have hle : ∀ z ∈ seen, stamp z.2 ≤ stamp m' := fun z hz => heq ▸ (hmax z hz).1
    have hjoin : joined stamp seen (s', m') = some (m, m') := joined_of_unique hmem hss heq hu hle
    refine ⟨hjoin.symm, fun y hy p => ?_⟩
    have hyle : stamp y.2 ≤ stamp m' := by
      rcases List.mem_append.1 hy with hy | hy
      · exact hle y hy
      · rw [List.mem_singleton.1 hy]
    rcases eq_or_eq_of_ne hss p with rfl | rfl
    · exact ⟨(p, m), List.mem_append_left _ hmem, rfl, heq ▸ hyle⟩
    · exact ⟨(p, m'), List.mem_append_right _ (List.mem_singleton_self _), rfl, hyle⟩

/-- **Every run.** From a slot that holds what `SlotInv` says after `seen`, a run
over `xs` emits `joinedAll seen xs`. -/
theorem runSteps_joinStep {xs : List (Bool × M)} {slot : Option (Bool × M)}
    (hmono : PortMono stamp (seen ++ xs)) (hinv : SlotInv stamp seen slot) :
    ∃ slot', runSteps (fun s x => some (joinStep stamp s x)) slot xs = some (slot', joinedAll stamp seen xs) ∧
      SlotInv stamp (seen ++ xs) slot' := by
  induction xs generalizing seen slot with
  | nil => exact ⟨slot, rfl, by rw [List.append_nil]; exact hinv⟩
  | cons x xs ih =>
    have hmono' : PortMono stamp ((seen ++ [x]) ++ xs) := by rwa [List.append_assoc]
    obtain ⟨hout, hinv'⟩ := joinStep_spec hmono'.append_left hinv
    obtain ⟨slot', hrun, hinv''⟩ := ih hmono' hinv'
    refine ⟨slot', ?_, by rwa [List.append_assoc] at hinv''⟩
    rw [joinedAll, ← hout]
    exact runSteps_cons_of_eq rfl hrun

end Step

/-! ### The law of the join -/

theorem getElem?_joinedAll (seen xs : List (Bool × M)) (k : ℕ) :
    (joinedAll stamp seen xs)[k]? = xs[k]?.map (joined stamp (seen ++ xs.take k)) := by
  induction xs generalizing seen k with
  | nil => rfl
  | cons x xs ih =>
    cases k with
    | zero => simp [joinedAll]
    | succ k => simp [joinedAll, ih, List.append_assoc]

/-- The messages emitted for the first `n` messages are the first `n` emitted. -/
theorem joinedAll_take (seen xs : List (Bool × M)) (n : ℕ) :
    joinedAll stamp seen (xs.take n) = (joinedAll stamp seen xs).take n := by
  apply List.ext_getElem?
  intro k
  rw [getElem?_joinedAll, List.getElem?_take, List.getElem?_take, getElem?_joinedAll, List.take_take]
  split_ifs with hk
  · rw [min_eq_left hk.le]
  · rfl

/-- **The slot after an emission is empty**: neither message joined is older than the
one kept, and one of them is of the other port. -/
theorem slotInv_none_of_joined {seen : List (Bool × M)} {x : Bool × M} {slot : Option (Bool × M)} {a b : M}
    (hinv : SlotInv stamp (seen ++ [x]) slot) (he : joined stamp seen x = some (a, b)) : slot = none := by
  obtain ⟨rfl, ⟨y, hy, hyp, rfl, hys⟩, hle⟩ := joined_eq_some he
  cases slot with
  | none => rfl
  | some sm =>
    obtain ⟨s, m⟩ := sm
    obtain ⟨hmem, hmax⟩ := hinv
    have hm : stamp m ≤ stamp x.2 := by
      rcases List.mem_append.1 hmem with h | h
      · exact hle (s, m) h
      · rw [← List.mem_singleton.1 h]
    by_cases hxs : x.1 = s
    · have hlt := (hmax y (List.mem_append_left _ hy)).2 (hxs ▸ hyp)
      exact absurd (hys ▸ hlt) (not_lt.2 hm)
    · have hlt := (hmax x (List.mem_append_right _ (List.mem_singleton_self x))).2 hxs
      exact absurd hlt (not_lt.2 hm)

section Law

variable {xs : List (Bool × M)} (hmono : PortMono stamp xs) {i j : ℕ} {s : Bool} {a b : M}
include hmono

/-- **A stamp on both ports**, at `i` and then at `j`, is emitted at `j` exactly when
no message before `j` is later. -/
theorem joined_of_pair (hij : i < j) (hi : xs[i]? = some (!s, a)) (hj : xs[j]? = some (s, b))
    (hab : stamp a = stamp b) :
    joined stamp (xs.take j) (s, b) = if ∀ y ∈ xs.take j, stamp y.2 ≤ stamp b then some (a, b) else none := by
  split_ifs with hle
  · have hmem : (!s, a) ∈ xs.take j := by
      apply List.mem_iff_getElem?.2
      exact ⟨i, by rw [List.getElem?_take, if_pos hij, hi]⟩
    have hu : ∀ z ∈ xs.take j, z.1 ≠ s → stamp z.2 = stamp b → z = (!s, a) := by
      intro z hz hzp hzs
      have hzp' : z.1 = !s := by cases s <;> cases h : z.1 <;> simp_all
      exact hmono.eq_of_stamp_eq (List.mem_of_mem_take hz) (List.mem_of_getElem? hi) hzp' (hzs.trans hab.symm)
    exact joined_of_unique hmem (by cases s <;> simp) hab hu hle
  · rw [joined_eq]
    rw [if_neg hle]

end Law

end Synapse.Theory
