import Synapse.Click.Ewma
import Synapse.Theory.TruncDiv

/-!
# `Trix`

The last element of the TRIX pipeline (`elements/standard/trix.cc`): one port,
whose values are the triple-smoothed closes, and on its output a hundred times the
relative change of the newest value over the one before. `process_naive` pops the
two newest values off a copy of the window and computes `100*(last -
penultimate)/penultimate`; `process_opt_ext` takes the round's value and the one
saved at the last `ADD`, and computes `100*((last - penultimate)/penultimate)`.

## The model

`*` and `/` are `fixedpt_mul` and `fixedpt_div`, each truncating, and `100*x` is
`operator* (int, const FixedPt&)`. Neither function checks its divisor: a zero
penultimate value divides by zero, which C leaves undefined, and the function
has no value there (`FixedPt.div?`).

## What is proved

* `trix_modes_round`: for every window whose two newest values are `l` and a
  non-zero `p`, while the results are in range, `process_naive` rounds
  `100 * (l - p) / p` once, `process_opt_ext` rounds `(l - p) / p` and multiplies
  the rounded quotient by `100`, and the two values are less than `100` units of
  `2 ^ -40` apart (`Theory.tdiv_mul_bounds`).
* `trix_modes_differ`: with the closes `3`, `3` and `4` the two configurations send
  different values for the `UPDATE`.
-/

namespace Synapse.Click

open FixedPt IndicatorBase

/-- `Trix::process_naive`: the two newest values of a copy of the window. -/
def trixNaive (b : Buffers FixedPt) : Option FixedPt :=
  let copy := (b.buffers 0).copy
  let lastValue := copy.popFront.1
  let penultimateValue := copy.popFront.2.popFront.1
  ((100 : ℤ) * (lastValue - penultimateValue)).div? penultimateValue

/-- `Trix::process_opt_ext`: the round's value against the one saved at the last
`ADD`, both kept in `_local_cache`. -/
def trixOptExt (lc : VectorCache) (increments : List FixedPt) (cache : VectorCache) : Option VectorCache :=
  let penultimateValue := cache.value 1
  let lastValue := increments.getD 0 default
  ((lastValue - penultimateValue).div? penultimateValue).map fun q =>
    (lc.setValue 0 ((100 : ℤ) * q)).setValue 1 lastValue

/-- `Trix`: its initial value is `0`; `process_ext` keeps the result and the newest
value. -/
def trix : Indicator where
  initializeElement _ := some (fromInt 0)
  processNaive := trixNaive
  processExt lc b := (trixNaive b).map fun result => (lc.setValue 0 result).setValue 1 ((b.buffers 0).get 0)
  processOptExt := trixOptExt
  localCache := freshCache 2

theorem trixNaive_eq {b : Buffers FixedPt} {l p : FixedPt} {rest : List FixedPt} (hwf : (b.buffers 0).Wf)
    (hl : (b.buffers 0).toList = l :: p :: rest) :
    trixNaive b = ((100 : ℤ) * (l - p)).div? p := by
  have hcopy : (b.buffers 0).copy.toList = l :: p :: rest := by rw [CircArray.toList_copy hwf, hl]
  have hrest : (b.buffers 0).copy.popFront.2.toList = p :: rest := by
    rw [CircArray.toList_popFront, hcopy, List.tail_cons]
  rw [trixNaive, CircArray.popFront_fst_of_toList hwf.copy hcopy,
    CircArray.popFront_fst_of_toList hwf.copy.popFront hrest]

theorem trixOptExt_value {lc : VectorCache} (hlc : lc.length = 2) (l : FixedPt) (rest : List FixedPt)
    (cache : VectorCache) :
    (trixOptExt lc (l :: rest) cache).map (·.value 0) =
      ((l - cache.value 1).div? (cache.value 1)).map fun q : FixedPt => ((100 : ℤ) * q : FixedPt) := by
  unfold trixOptExt
  rw [List.getD_cons_zero, Option.map_map]
  congr 1
  funext q
  simp [hlc]

/-- **The two modes round apart.** For a window whose two newest values are `l` and a
non-zero `p`, and a cache that saved `p`, as long as `100 * (l - p)` and the naive
quotient are in range: `process_naive` returns `100 * (l - p)` over `p` rounded once,
`process_opt_ext` a hundred times `(l - p) / p` rounded, and the two differ by
less than `100` units of `2 ^ -40`. -/
theorem trix_modes_round {b : Buffers FixedPt} {l p : FixedPt} {t : List FixedPt}
    (hwf : (b.buffers 0).Wf) (hl : (b.buffers 0).toList = l :: p :: t) {lc cache : VectorCache}
    (hlc : lc.length = 2) (hc : cache.value 1 = p) (increments : List FixedPt) (hp : p.value ≠ 0)
    (h100 : InRange (100 * (l - p).value.toInt))
    (hN : InRange ((100 * (l - p).value.toInt * 2 ^ 40).tdiv p.value.toInt)) :
    ∃ n o, trixNaive b = some n ∧ (trixOptExt lc (l :: increments) cache).map (·.value 0) = some o ∧
      n.value.toInt = (100 * (l - p).value.toInt * 2 ^ 40).tdiv p.value.toInt ∧
      o.value.toInt = 100 * ((l - p).value.toInt * 2 ^ 40).tdiv p.value.toInt ∧
      (n.value.toInt - o.value.toInt).natAbs < 100 := by
  have hP : p.value.toInt ≠ 0 := fun h => hp (Int64.toInt_inj.mp (h.trans Int64.toInt_zero.symm))
  have hM := toInt_intMul (by decide) (by decide) h100
  -- the naive quotient bounds the optimised one, which is therefore in range too
  obtain ⟨hdiff, hle⟩ := Theory.tdiv_mul_bounds (m := 100) (by decide) ((l - p).value.toInt * 2 ^ 40) hP
  rw [show ((100 : ℕ) : ℤ) = 100 from rfl, ← Int.mul_assoc] at hdiff hle
  have hq : InRange (((l - p).value.toInt * 2 ^ 40).tdiv p.value.toInt) := by
    unfold InRange at hN ⊢
    omega
  have hq100 : InRange (100 * ((l - p).value.toInt * 2 ^ 40).tdiv p.value.toInt) := by
    unfold InRange at hN ⊢
    omega
  have hn : (((100 : ℤ) * (l - p)) / p).value.toInt = (100 * (l - p).value.toInt * 2 ^ 40).tdiv p.value.toInt := by
    rw [value_div, toInt_fixedptDiv (by rw [hM]; exact hN), hM]
  have hqv : ((l - p) / p).value.toInt = ((l - p).value.toInt * 2 ^ 40).tdiv p.value.toInt := by
    rw [value_div, toInt_fixedptDiv hq]
  have ho : ((100 : ℤ) * ((l - p) / p)).value.toInt = 100 * ((l - p).value.toInt * 2 ^ 40).tdiv p.value.toInt := by
    rw [toInt_intMul (by decide) (by decide) (by rw [hqv]; exact hq100), hqv]
  refine ⟨_, _, by rw [trixNaive_eq hwf hl, div?_of_ne hp],
    by rw [trixOptExt_value hlc, hc, div?_of_ne hp, Option.map_some], hn, ho, ?_⟩
  rw [hn, ho]
  exact hdiff

theorem trix_modes_round_four_three :
    ∃ n o, trixNaive ⟨fun _ => ⟨fun i => if i = 0 then fromInt 4 else fromInt 3, 0, 2, 2⟩,
        fun _ => true, fun _ => default, 0, 1, .ACCUMULATED⟩ = some n ∧
      (trixOptExt (freshCache 2) [fromInt 4] ((freshCache 2).setValue 1 (fromInt 3))).map (·.value 0) = some o ∧
      n.value.toInt = (100 * (fromInt 4 - fromInt 3).value.toInt * 2 ^ 40).tdiv (fromInt 3).value.toInt ∧
      o.value.toInt = 100 * ((fromInt 4 - fromInt 3).value.toInt * 2 ^ 40).tdiv (fromInt 3).value.toInt ∧
      (n.value.toInt - o.value.toInt).natAbs < 100 :=
  trix_modes_round (t := []) ⟨by decide, by decide⟩ rfl rfl (by decide) [] (by decide) (by decide) (by decide)

/-! ### A run -/

/-- An `INIT` of `3`, an `ADD` of `3` and an `UPDATE` of `4`, on one port. -/
def trixStream : List PacketRound :=
  [⟨.MSG_INIT, 1, [0], fun _ => fromInt 3, fun _ => 24⟩, ⟨.MSG_ADD, 2, [0], fun _ => fromInt 3, fun _ => 24⟩,
    ⟨.MSG_UPDATE, 3, [0], fun _ => fromInt 4, fun _ => 24⟩]

/-- **The modes differ.** With `BUF_SIZE 13`, both configurations send `0` for the
`INIT` round and the `ADD`; for the `UPDATE` of `4` over the saved `3`, `OP_MODE 1`
sends `100 / 3` rounded once and `OP_MODE 2` a hundred times `1 / 3` rounded,
`33` units of `2 ^ -40` less. -/
theorem trix_modes_differ :
    ((configure trix 1 13 1).bind fun s => run trix s (trixStream.flatMap PacketRound.inputs)).map
        (sentValues ·.2) = some [fromInt 0, fromInt 0, fromC 36650387592533] ∧
    ((configure trix 1 13 2).bind fun s => run trix s (trixStream.flatMap PacketRound.inputs)).map
        (sentValues ·.2) = some [fromInt 0, fromInt 0, fromC 36650387592500] := by
  decide

end Synapse.Click
