import Mathlib.LinearAlgebra.Lagrange
import Mathlib.LinearAlgebra.Matrix.ToLinearEquiv

/-! Cauchy matrices over a field, and the systematic codes that they give. -/
namespace SeamlessStack.Lib
open Polynomial Finset Function

variable {K : Type*} [Field K]

def cauchy {ι κ : Type*} (x : ι → K) (y : κ → K) : Matrix ι κ K :=
  Matrix.of fun i j => (x i - y j)⁻¹

section Kernel
variable {ι κ : Type*} [DecidableEq κ] {s : Finset ι} {t : Finset κ} {x : ι → K} {y : κ → K}
  {c : κ → K}

noncomputable def numerator (t : Finset κ) (y : κ → K) (c : κ → K) : K[X] :=
  ∑ j ∈ t, C (c j) * Lagrange.nodal (t.erase j) y

theorem degree_numerator_lt (t : Finset κ) (y c : κ → K) :
    (numerator t y c).degree < t.card := by
  rw [← mem_degreeLT]
  refine Submodule.sum_mem _ fun j hj => ?_
  rw [mem_degreeLT]
  calc (C (c j) * Lagrange.nodal (t.erase j) y).degree
      ≤ (C (c j)).degree + (Lagrange.nodal (t.erase j) y).degree := degree_mul_le _ _
    _ ≤ 0 + ((t.erase j).card : WithBot ℕ) := add_le_add degree_C_le Lagrange.degree_nodal.le
    _ < t.card := by
      rw [zero_add]
      exact_mod_cast card_erase_lt_of_mem hj

theorem eval_numerator {z : K} (hz : ∀ j ∈ t, z ≠ y j) :
    (numerator t y c).eval z =
      (Lagrange.nodal t y).eval z * ∑ j ∈ t, (z - y j)⁻¹ * c j := by
  rw [numerator, eval_finsetSum, mul_sum]
  refine sum_congr rfl fun j hj => ?_
  have hne : z - y j ≠ 0 := sub_ne_zero.mpr (hz j hj)
  rw [Lagrange.nodal_eq_mul_nodal_erase hj]
  simp only [eval_mul, eval_sub, eval_X, eval_C]
  field_simp

theorem eval_numerator_node {j : κ} (hj : j ∈ t) :
    (numerator t y c).eval (y j) = c j * (Lagrange.nodal (t.erase j) y).eval (y j) := by
  rw [numerator, eval_finsetSum, sum_eq_single_of_mem j hj]
  · rw [eval_mul, eval_C]
  · intro l _ hl
    rw [eval_mul, Lagrange.eval_nodal_at_node (mem_erase.mpr ⟨hl.symm, hj⟩), mul_zero]

/-- With at least as many rows as columns, no combination of the columns vanishes. -/
theorem cauchy_kernel (hx : Set.InjOn x s) (hy : Set.InjOn y t)
    (hxy : ∀ i ∈ s, ∀ j ∈ t, x i ≠ y j) (hcard : t.card ≤ s.card)
    (h : ∀ i ∈ s, ∑ j ∈ t, cauchy x y i j * c j = 0) : ∀ j ∈ t, c j = 0 := by
  have hzero : numerator t y c = 0 := by
    refine eq_zero_of_degree_lt_of_eval_index_eq_zero s hx ?_ ?_
    · exact (degree_numerator_lt t y c).trans_le (by exact_mod_cast hcard)
    · intro i hi
      rw [eval_numerator (hxy i hi)]
      have hi' : ∑ j ∈ t, (x i - y j)⁻¹ * c j = 0 := h i hi
      rw [hi', mul_zero]
  intro j hj
  have hnode := eval_numerator_node (c := c) (y := y) hj
  rw [hzero, eval_zero] at hnode
  refine (mul_eq_zero.mp hnode.symm).resolve_right ?_
  refine Lagrange.eval_nodal_not_at_node fun l hl heq => ?_
  exact (mem_erase.mp hl).1 (hy (mem_erase.mp hl).2 hj heq.symm)

end Kernel

theorem cauchy_submatrix_isUnit {ι κ ν : Type*} [Fintype ν] [DecidableEq ν] {x : ι → K}
    {y : κ → K} (hx : Injective x) (hy : Injective y)
    (hxy : ∀ i j, x i ≠ y j) {rows : ν → ι} {cols : ν → κ} (hrows : Injective rows)
    (hcols : Injective cols) : IsUnit ((cauchy x y).submatrix rows cols) := by
  rw [Matrix.isUnit_iff_isUnit_det, isUnit_iff_ne_zero]
  intro hdet
  obtain ⟨c, hc, hzero⟩ := Matrix.exists_mulVec_eq_zero_iff.mpr hdet
  refine hc (funext fun j => ?_)
  refine cauchy_kernel (x := x ∘ rows) (y := y ∘ cols) (s := univ) (t := univ)
    (hx.comp hrows).injOn (hy.comp hcols).injOn (fun i _ j _ => hxy _ _) le_rfl ?_ j (mem_univ j)
  intro i _
  exact congrFun hzero i

section Code
variable {k m : Type*} [Fintype k] {ω : Type*}

def stripes (M : Matrix m k K) (data : k → ω → K) : k ⊕ m → ω → K
  | .inl j => data j
  | .inr i => fun w => ∑ j, M i j * data j w

/-- As many stripes as there are data stripes determine the data. -/
theorem stripes_determine [Fintype m] [DecidableEq k] [DecidableEq m] {x : m → K} {y : k → K}
    (hx : Injective x) (hy : Injective y) (hxy : ∀ i j, x i ≠ y j)
    {kept : Finset (k ⊕ m)} (hkept : Fintype.card k ≤ kept.card) {data data' : k → ω → K}
    (h : ∀ n ∈ kept, stripes (cauchy x y) data n = stripes (cauchy x y) data' n) :
    data = data' := by
  -- the rows that are kept, and the columns of the data that are not
  set s : Finset m := univ.filter fun i => Sum.inr i ∈ kept
  set t : Finset k := univ.filter fun j => Sum.inl j ∉ kept
  have hhave : ∀ j ∉ t, data j = data' j := by
    intro j hj
    have hmem : Sum.inl j ∈ kept := by simpa [t] using hj
    exact h _ hmem
  have hcard : t.card ≤ s.card := by
    have hsplit : kept.card = (univ.filter fun j : k => Sum.inl j ∈ kept).card + s.card := by
      rw [← card_toLeft_add_card_toRight]
      congr 2
      · ext j; simp
      · ext i; simp [s]
    have hcols := card_filter_add_card_filter_not (s := (univ : Finset k))
      (fun j => Sum.inl j ∈ kept)
    rw [card_univ] at hcols
    change _ + t.card = _ at hcols
    omega
  funext j w
  by_cases hj : j ∈ t
  swap
  · rw [hhave j hj]
  refine sub_eq_zero.mp ?_
  refine cauchy_kernel (c := fun j => data j w - data' j w) hx.injOn hy.injOn
    (fun i _ j _ => hxy i j) hcard ?_ j hj
  intro i hi
  have hrow := congrFun (h (.inr i) (by simpa [s] using hi)) w
  simp only [stripes] at hrow
  have hfull : ∑ j, cauchy x y i j * (data j w - data' j w) = 0 := by
    simp only [mul_sub, sum_sub_distrib]
    exact sub_eq_zero.mpr hrow
  rw [← hfull]
  refine sum_subset (subset_univ t) fun j _ hj => ?_
  rw [hhave j hj, sub_self, mul_zero]

end Code

end SeamlessStack.Lib
