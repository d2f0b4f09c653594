import SeamlessStack.Lib.Cauchy
import SeamlessStack.Lib.Count
import SeamlessStack.Sfsd.Erasure
import SeamlessStack.Sfsd.Galois

/-! The matrix of the erasure code. `sfs_derive_bitmatrix` divides by `i ^ (num_cstrps + j)` in the
field of the bytes, where exclusive or is the difference: a Cauchy matrix. -/
namespace SeamlessStack.Sfsd
open Lib Function

/-- The bytes as the elements of a field, in which they are added by the exclusive or. -/
structure GaloisBytes (K : Type) [Field K] where
  elem : BitVec 8 ≃ K
  elem_xor : ∀ a b, elem (a ^^^ b) = elem a + elem b
  elem_one : elem 1 = 1

/-- The matrix that `sfs_derive_bitmatrix` gives to jerasure, row by row. -/
def derivedMatrix (J : Jerasure) (numDstrps numCstrps : ℕ) : List ℕ :=
  (List.range numCstrps).flatMap fun i => (List.range numDstrps).map fun j =>
    J.singleDivide 1 (i ^^^ (numCstrps + j)) numPktStrips

theorem sfsDeriveBitmatrix_eq {J : Jerasure} {k m : ℕ} {b : Bitmatrix}
    (h : J.matrixToBitmatrix k m numPktStrips (derivedMatrix J k m) = some b) :
    sfsDeriveBitmatrix J true k m = (esureSuccess, some (some b)) := by
  unfold sfsDeriveBitmatrix
  unfold derivedMatrix at h
  simp only [Bool.true_eq_false, if_false, h]

theorem derivedMatrix_getElem? (J : Jerasure) {k m i j : ℕ} (hi : i < m) (hj : j < k) :
    (derivedMatrix J k m)[i * k + j]? =
      some (J.singleDivide 1 (i ^^^ (m + j)) numPktStrips) := by
  unfold derivedMatrix
  rw [getElem?_flatMap (by simp) hj]
  simp [hi, hj]

namespace GaloisBytes
variable {K : Type} [Field K] (G : GaloisBytes K) {J : Jerasure} {k m i j a b : ℕ}

def value (n : ℕ) : K := G.elem (BitVec.ofNat 8 n)

/-- `galois_single_divide` with words of `NUM_PKT_STRIPS` bits divides in the field. -/
def Divides (J : Jerasure) : Prop :=
  ∀ a < 256, ∀ b < 256, b ≠ 0 → J.singleDivide a b numPktStrips < 256 ∧
    G.value (J.singleDivide a b numPktStrips) = G.value a / G.value b

def codeMatrix (J : Jerasure) (k m : ℕ) : Matrix (Fin m) (Fin k) K :=
  Matrix.of fun i j => G.value ((derivedMatrix J k m).getD (i * k + j) 0)

theorem elem_zero : G.elem 0 = 0 := by
  have h := G.elem_xor 0 0
  rw [BitVec.xor_self] at h
  exact left_eq_add.mp h

theorem value_one : G.value 1 = 1 := G.elem_one

theorem value_xor (a b : ℕ) : G.value (a ^^^ b) = G.value a - G.value b := by
  have hneg : G.value b + G.value b = 0 := by
    rw [value, ← G.elem_xor, BitVec.xor_self]
    exact G.elem_zero
  rw [sub_eq_add_neg, ← eq_neg_of_add_eq_zero_left hneg, value, BitVec.ofNat_xor, G.elem_xor]
  rfl

theorem value_injOn (ha : a < 256) (hb : b < 256) (h : G.value a = G.value b) : a = b := by
  have hbv := congrArg BitVec.toNat (G.elem.injective h)
  simp only [BitVec.toNat_ofNat] at hbv
  omega

theorem divisor_bounds (h : k + m ≤ 256) (hi : i < m) (hj : j < k) :
    i ^^^ (m + j) ≠ 0 ∧ i ^^^ (m + j) < 256 := by
  constructor
  · intro hzero
    have := Nat.eq_of_xor_eq_zero hzero
    omega
  · exact Nat.xor_lt_two_pow (n := 8) (by omega) (by omega)

theorem codeMatrix_apply (hJ : G.Divides J) (h : k + m ≤ 256) (i : Fin m) (j : Fin k) :
    G.codeMatrix J k m i j = 1 / G.value (i ^^^ (m + j)) := by
  obtain ⟨hne, hlt⟩ := divisor_bounds h i.isLt j.isLt
  have hentry := derivedMatrix_getElem? J i.isLt j.isLt
  rw [codeMatrix, Matrix.of_apply, List.getD_eq_getElem?_getD, hentry, Option.getD_some,
    (hJ 1 (by norm_num) _ hlt hne).2, G.value_one]

theorem codeMatrix_eq_cauchy (hJ : G.Divides J) (h : k + m ≤ 256) :
    G.codeMatrix J k m =
      cauchy (fun i : Fin m => G.value i) (fun j : Fin k => G.value (m + j)) := by
  ext i j
  rw [G.codeMatrix_apply hJ h, G.value_xor, one_div]
  rfl

end GaloisBytes

/-- For up to 256 stripes no entry divides by zero, every square part of the matrix is invertible,
and as many stripes as hold data determine them. -/
theorem derivedMatrix_determines {K : Type} [Field K] (G : GaloisBytes K) {J : Jerasure}
    (hJ : G.Divides J) {k m : ℕ} (h : k + m ≤ 256) :
    (∀ b, J.matrixToBitmatrix k m numPktStrips (derivedMatrix J k m) = some b →
      sfsDeriveBitmatrix J true k m = (esureSuccess, some (some b))) ∧
    (∀ i < m, ∀ j < k, i ^^^ (m + j) ≠ 0 ∧ i ^^^ (m + j) < 256) ∧
    (∀ i j, G.codeMatrix J k m i j = 1 / G.value (i ^^^ (m + j))) ∧
    (∀ (n : ℕ) (rows : Fin n → Fin m) (cols : Fin n → Fin k), rows.Injective → cols.Injective →
      IsUnit ((G.codeMatrix J k m).submatrix rows cols)) ∧
    ∀ (ω : Type) (kept : Finset (Fin k ⊕ Fin m)) (data data' : Fin k → ω → K), kept.card = k →
      (∀ n ∈ kept, stripes (G.codeMatrix J k m) data n = stripes (G.codeMatrix J k m) data' n) →
      data = data' := by
  have hx : Injective fun i : Fin m => G.value i := by
    intro i i' he
    exact Fin.ext (G.value_injOn (by omega) (by omega) he)
  have hy : Injective fun j : Fin k => G.value (m + j) := by
    intro j j' he
    have := G.value_injOn (by omega) (by omega) he
    exact Fin.ext (by omega)
  have hxy : ∀ (i : Fin m) (j : Fin k), G.value i ≠ G.value (m + j) := by
    intro i j he
    have := G.value_injOn (by omega) (by omega) he
    omega
  refine ⟨fun b hb => sfsDeriveBitmatrix_eq hb,
    fun i hi j hj => GaloisBytes.divisor_bounds h hi hj, G.codeMatrix_apply hJ h, ?_, ?_⟩
  · intro n rows cols hrows hcols
    rw [G.codeMatrix_eq_cauchy hJ h]
    exact cauchy_submatrix_isUnit hx hy hxy hrows hcols
  · intro ω kept data data' hcard hsame
    rw [G.codeMatrix_eq_cauchy hJ h] at hsame
    refine stripes_determine hx hy hxy ?_ hsame
    rw [hcard, Fintype.card_fin]

section Witness

theorem galoisByte_bijective : Bijective fun b : BitVec 8 => galoisElem b.toNat := by
  constructor
  · intro a b h
    exact BitVec.eq_of_toNat_eq (galoisElem_inj a.isLt b.isLt h)
  · intro x
    obtain ⟨n, hn, rfl⟩ := galoisElem_surjective x
    exact ⟨BitVec.ofNat 8 n, congrArg galoisElem (Nat.mod_eq_of_lt hn)⟩

/-- The bytes as the elements of the field of gf-complete. -/
noncomputable def galoisBytes : GaloisBytes GaloisByte where
  elem := Equiv.ofBijective _ galoisByte_bijective
  elem_xor a b := by
    change galoisElem (a ^^^ b).toNat = galoisElem a.toNat + galoisElem b.toNat
    rw [BitVec.toNat_xor, galoisElem_xor]
  elem_one := galoisElem_one

/-- A library that divides as gf-complete does, and does not code. -/
def galoisDivision : Jerasure where
  singleDivide x y _ := galoisSingleDivide x y
  matrixToBitmatrix _ _ _ matrix := some matrix
  encode _ m _ _ size _ := List.replicate m (List.replicate size 0)
  decode _ _ _ _ data code _ _ := (data, code)
  encode_length := zeroCode_length
  encode_size := zeroCode_size

theorem galoisDivision_divides : galoisBytes.Divides galoisDivision := by
  intro a ha b hb hne
  obtain ⟨hlt, hquot⟩ := galoisSingleDivide_eq ha hb hne
  refine ⟨hlt, ?_⟩
  have hvalue : ∀ n < 256, galoisBytes.value n = galoisElem n := by
    intro n hn
    exact congrArg galoisElem (Nat.mod_eq_of_lt hn)
  rw [hvalue a ha, hvalue b hb]
  exact (hvalue _ hlt).trans hquot

/-- Two data stripes and two code stripes. -/
theorem derivedMatrix_determines_two :
    galoisBytes.Divides galoisDivision ∧ IsUnit (galoisBytes.codeMatrix galoisDivision 2 2) ∧
      sfsDeriveBitmatrix galoisDivision true 2 2 =
        (esureSuccess, some (some [142, 244, 244, 142])) := by
  obtain ⟨hderive, -, -, hunit, -⟩ :=
    derivedMatrix_determines galoisBytes galoisDivision_divides (k := 2) (m := 2) (by norm_num)
  refine ⟨galoisDivision_divides, ?_, hderive _ (by decide +kernel)⟩
  exact hunit 2 id id injective_id injective_id

end Witness

end SeamlessStack.Sfsd
