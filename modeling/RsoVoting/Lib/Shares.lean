import Mathlib.Algebra.Order.BigOperators.Group.List
import Mathlib.Algebra.Order.Field.Basic
import Mathlib.Algebra.Order.Floor.Ring
import Mathlib.Data.Rat.Floor
import Mathlib.Tactic.Linarith
import Mathlib.Tactic.Ring

namespace RsoVoting.Shares

/-!
# Rounded shares

A pool is divided in proportion to weights, and every share is rounded on its own, so the
rounded shares need not add up to the pool.  How far they miss it follows from a bound on the
error of one rounding: the exact shares do add up (`sum_exactShare`), and the errors are summed.

* `exactShare` — the share of a weight, before rounding;
* `roundHalfAway` — to the nearest integer, ties away from zero;
* `sum_floor_le` / `lt_sum_floor_add_length` — rounding down;
* `abs_sum_sub_le` — any rounding that is off by at most `e`.
-/

variable {K : Type*} [Field K] [LinearOrder K] [IsStrictOrderedRing K]

/-- The part of a pool that is due to a weight. -/
def exactShare (pool total w : K) : K := w * pool / total

/-! ### Exact shares -/

/-- **The exact shares add up to the pool.** -/
theorem sum_exactShare (pool : K) {ws : List K} (h : ws.sum ≠ 0) :
    (ws.map (exactShare pool ws.sum)).sum = pool := by
  have hsum : ∀ us : List K,
      (us.map (exactShare pool ws.sum)).sum = us.sum * pool / ws.sum := by
    intro us
    induction us with
    | nil => simp
    | cons u us ih =>
      rw [List.map_cons, List.sum_cons, ih, List.sum_cons, exactShare]
      ring
  rw [hsum, mul_div_assoc, mul_comm, div_mul_cancel₀ pool h]

/-- A larger weight has a larger share. -/
theorem exactShare_le_exactShare {pool total : K} (hpool : 0 ≤ pool) (htotal : 0 ≤ total) {w w' : K}
    (h : w ≤ w') : exactShare pool total w ≤ exactShare pool total w' := by
  apply div_le_div_of_nonneg_right _ htotal
  exact mul_le_mul_of_nonneg_right h hpool

theorem exactShare_nonneg {pool total w : K} (hpool : 0 ≤ pool) (htotal : 0 ≤ total) (hw : 0 ≤ w) :
    0 ≤ exactShare pool total w := by
  apply div_nonneg _ htotal
  exact mul_nonneg hw hpool

/-- No share is more than the pool. -/
theorem exactShare_le_pool {pool total w : K} (hpool : 0 ≤ pool) (htotal : 0 < total)
    (hw : w ≤ total) : exactShare pool total w ≤ pool := by
  show w * pool / total ≤ pool
  rw [div_le_iff₀ htotal, mul_comm pool]
  exact mul_le_mul_of_nonneg_right hw hpool

/-! ### Rounding down -/

section Floor

variable [FloorRing K]

theorem sum_floor_le (xs : List K) : ((xs.map Int.floor).sum : K) ≤ xs.sum := by
  induction xs with
  | nil => simp
  | cons x xs ih =>
    rw [List.map_cons, List.sum_cons, List.sum_cons, Int.cast_add]
    exact add_le_add (Int.floor_le x) ih

/-- Every summand loses less than 1. -/
theorem lt_sum_floor_add_length {xs : List K} (h : xs ≠ []) :
    xs.sum < ((xs.map Int.floor).sum : K) + xs.length := by
  induction xs with
  | nil => exact absurd rfl h
  | cons x xs ih =>
    have hx := Int.lt_floor_add_one x
    rw [List.map_cons, List.sum_cons, List.sum_cons, Int.cast_add, List.length_cons,
      Nat.cast_succ]
    cases xs with
    | nil => simp
    | cons y ys =>
      have hys := ih (List.cons_ne_nil y ys)
      linarith

end Floor

/-! ### Rounding to the nearest integer -/

/-- The nearest integer, the one further from zero if there are two. -/
def roundHalfAway [FloorRing K] (x : K) : ℤ :=
  if 0 ≤ x then ⌊x + 1 / 2⌋ else ⌈x - 1 / 2⌉

/-- It is off by at most a half. -/
theorem abs_roundHalfAway_sub_le [FloorRing K] (x : K) :
    |(roundHalfAway x : K) - x| ≤ 1 / 2 := by
  unfold roundHalfAway
  split
  · have hle := Int.floor_le (x + 1 / 2)
    have hlt := Int.lt_floor_add_one (x + 1 / 2)
    rw [abs_le]
    constructor <;> linarith
  · have hle := Int.le_ceil (x - 1 / 2)
    have hlt := Int.ceil_lt_add_one (x - 1 / 2)
    rw [abs_le]
    constructor <;> linarith

/-- It respects the order. -/
theorem roundHalfAway_le [FloorRing K] {x y : K} (h : x ≤ y) :
    roundHalfAway x ≤ roundHalfAway y := by
  unfold roundHalfAway
  by_cases hx : 0 ≤ x
  · have hy : 0 ≤ y := hx.trans h
    rw [if_pos hx, if_pos hy]
    exact Int.floor_le_floor (by linarith)
  · rw [if_neg hx]
    by_cases hy : 0 ≤ y
    · -- a negative number is rounded to at most 0, the other one to at least 0
      have hle : ⌈x - 1 / 2⌉ ≤ 0 := Int.ceil_le.mpr (by push_cast; linarith)
      have hge : 0 ≤ ⌊y + 1 / 2⌋ := Int.le_floor.mpr (by push_cast; linarith)
      rw [if_pos hy]
      exact hle.trans hge
    · rw [if_neg hy]
      exact Int.ceil_le_ceil (by linarith)

/-- **The errors add up**: a rounding that is off by at most `e`, of a list of numbers. -/
theorem abs_sum_sub_le {r : K → ℤ} {e : K} (h : ∀ x, |(r x : K) - x| ≤ e) (xs : List K) :
    |((xs.map r).sum : K) - xs.sum| ≤ xs.length * e := by
  induction xs with
  | nil => simp
  | cons x xs ih =>
    have hx := h x
    rw [List.map_cons, List.sum_cons, List.sum_cons, List.length_cons, Int.cast_add]
    calc |((r x : K) + ((xs.map r).sum : K)) - (x + xs.sum)|
        = |((r x : K) - x) + (((xs.map r).sum : K) - xs.sum)| := by congr 1; ring
      _ ≤ |(r x : K) - x| + |((xs.map r).sum : K) - xs.sum| := abs_add_le _ _
      _ ≤ e + xs.length * e := add_le_add hx ih
      _ = ((xs.length + 1 : ℕ) : K) * e := by push_cast; ring

end RsoVoting.Shares
