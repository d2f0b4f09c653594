import Mathlib.Algebra.Polynomial.OfFn
import Mathlib.Data.Nat.Bitwise
import Mathlib.FieldTheory.Finite.Extension
import Mathlib.Tactic

/-! Division of bytes (`galois_single_divide` of jerasure, and `gf_w8.c` of gf-complete with its
default polynomial). The table of quotients is filled with products, those of the field of the
polynomial. -/
namespace SeamlessStack.Sfsd

open Polynomial

def gfW8PrimPoly : BitVec 16 := 0x11d

def gfW8Reduce (product : BitVec 16) (i : ℕ) : BitVec 16 :=
  if product.getLsbD i then product ^^^ (gfW8PrimPoly <<< (i - 8)) else product

def gfW8ShiftMultiply (a8 b8 : ℕ) : ℕ :=
  let a := BitVec.ofNat 16 a8
  let b := BitVec.ofNat 16 b8
  let product := (List.range 8).foldl
    (fun product i => if a.getLsbD i then product ^^^ (b <<< i) else product) 0
  ([14, 13, 12, 11, 10, 9, 8].foldl gfW8Reduce product).toNat

/-- `divtable[prod][b]` after `gf_w8_table_init`: the last number whose product with `b` is `prod`,
or still zero. -/
def gfW8Divtable (prod b : ℕ) : ℕ :=
  ((List.range' 1 255).reverse.find? fun a => gfW8ShiftMultiply a b = prod).getD 0

def galoisSingleDivide (x y : ℕ) : ℕ :=
  if x = 0 then 0
  else if y = 0 then 2 ^ 32 - 1
  else gfW8Divtable x y

noncomputable def primPoly : (ZMod 2)[X] := X ^ 8 + X ^ 4 + X ^ 3 + X ^ 2 + 1

theorem primPoly_natDegree : primPoly.natDegree = 8 := by
  unfold primPoly
  compute_degree!

theorem primPoly_monic : primPoly.Monic := by
  unfold primPoly
  monicity!

section Root
variable {A : Type} [CommRing A] {r : A}

theorem root_pow_sixteen (h2 : (2 : A) = 0) (h : r ^ 8 = r ^ 4 + r ^ 3 + r ^ 2 + 1) :
    r ^ 16 = r ^ 6 + r ^ 3 + r ^ 2 := by
  have hsq : r ^ 16 = (r ^ 8) ^ 2 := by ring
  rw [hsq, h]
  linear_combination h + (r ^ 7 + r ^ 6 + r ^ 5 + 2 * r ^ 4 + r ^ 3 + r ^ 2 + 1) * h2

theorem root_pow_card (h2 : (2 : A) = 0) (h : r ^ 8 = r ^ 4 + r ^ 3 + r ^ 2 + 1) :
    r ^ 256 = r := by
  have h32 : r ^ 32 = r ^ 7 + r ^ 4 + r ^ 3 + r ^ 2 + 1 := by
    have hsq : r ^ 32 = (r ^ 16) ^ 2 := by ring
    rw [hsq, root_pow_sixteen h2 h]
    linear_combination (r ^ 4 + 1) * h + (r ^ 9 + r ^ 8 + r ^ 6 + r ^ 5 + r ^ 4) * h2
  have h64 : r ^ 64 = r ^ 6 + r ^ 4 + r ^ 3 + r ^ 2 + r + 1 := by
    have hsq : r ^ 64 = (r ^ 32) ^ 2 := by ring
    rw [hsq, h32]
    linear_combination (r ^ 6 + r ^ 2 + r) * h + (r ^ 11 + r ^ 10 + r ^ 9 + r ^ 8 + 2 * r ^ 7 +
      2 * r ^ 6 + 2 * r ^ 5 + 2 * r ^ 4 + r ^ 3 + r ^ 2) * h2
  have h128 : r ^ 128 = r ^ 7 + r ^ 2 + 1 := by
    have hsq : r ^ 128 = (r ^ 64) ^ 2 := by ring
    rw [hsq, h64]
    linear_combination r ^ 4 * h + (r ^ 10 + r ^ 9 + 2 * r ^ 8 + 2 * r ^ 7 + 3 * r ^ 6 +
      2 * r ^ 5 + 3 * r ^ 4 + 2 * r ^ 3 + r ^ 2 + r) * h2
  have hsq : r ^ 256 = (r ^ 128) ^ 2 := by ring
  rw [hsq, h128]
  linear_combination (r ^ 6 + r ^ 2 + r + 1) * h +
    (r ^ 9 + r ^ 7 + r ^ 6 + r ^ 5 + 2 * r ^ 4 + r ^ 3 + 2 * r ^ 2 + 1) * h2

theorem root_pow_sixteen_ne [Nontrivial A] (h2 : (2 : A) = 0)
    (h : r ^ 8 = r ^ 4 + r ^ 3 + r ^ 2 + 1) : r ^ 16 ≠ r := by
  intro h16
  rw [root_pow_sixteen h2 h] at h16
  have hone : (1 : A) = 0 := by
    linear_combination (r ^ 4 + r + 1) * h + (r ^ 6 + r ^ 2 + 1) * h16 -
      (r ^ 12 + r ^ 9 + r ^ 8 - r ^ 7 - r ^ 4 - r ^ 3 - r - 1) * h2
  exact one_ne_zero hone

end Root

/-! The ring of a divisor of the polynomial. -/

theorem two_eq_zero (f : (ZMod 2)[X]) : (2 : AdjoinRoot f) = 0 := by
  rw [← map_ofNat (AdjoinRoot.of f) 2, show (2 : ZMod 2) = 0 from rfl, map_zero]

theorem root_pow_eight {f : (ZMod 2)[X]} (h : f ∣ primPoly) :
    AdjoinRoot.root f ^ 8 = AdjoinRoot.root f ^ 4 + AdjoinRoot.root f ^ 3 +
      AdjoinRoot.root f ^ 2 + 1 := by
  have hzero := AdjoinRoot.mk_eq_zero.mpr h
  simp only [primPoly, map_add, map_pow, map_one, AdjoinRoot.mk_X] at hzero
  linear_combination hzero - (AdjoinRoot.root f ^ 4 + AdjoinRoot.root f ^ 3 +
    AdjoinRoot.root f ^ 2 + 1) * two_eq_zero f

theorem primPoly_irreducible : Irreducible primPoly := by
  have hne : primPoly ≠ 1 := by
    intro h
    have hdeg := primPoly_natDegree
    rw [h, natDegree_one] at hdeg
    cases hdeg
  rw [primPoly_monic.irreducible_iff_lt_natDegree_lt hne]
  intro q hq hdeg hdvd
  rw [primPoly_natDegree, Finset.mem_Ioc] at hdeg
  have hunit : ¬ IsUnit q := by
    intro hunit
    rw [natDegree_eq_zero_of_isUnit hunit] at hdeg
    omega
  obtain ⟨f, hf, hfq⟩ := WfDvdMonoid.exists_irreducible_factor hunit hq.ne_zero
  have hle := natDegree_le_of_dvd hfq hq.ne_zero
  have hpos := hf.natDegree_pos
  -- The degree of the factor divides 12, so its root is in the field with `2 ^ 12` elements.
  have hroot12 : f.natDegree ∣ 12 := by
    have : f.natDegree ≤ 4 := by omega
    interval_cases f.natDegree <;> decide
  rw [hf.natDegree_dvd_iff_dvd_X_pow_card_pow_sub_X, Nat.card_zmod, ← AdjoinRoot.mk_eq_zero,
    map_sub, map_pow, AdjoinRoot.mk_X, sub_eq_zero] at hroot12
  have : Fact (Irreducible f) := ⟨hf⟩
  have hroot := root_pow_eight (hfq.trans hdvd)
  have h2 := two_eq_zero f
  have hpow : AdjoinRoot.root f ^ 2 ^ 12 = (AdjoinRoot.root f ^ 256) ^ 16 := by ring
  rw [hpow, root_pow_card h2 hroot] at hroot12
  exact root_pow_sixteen_ne h2 hroot hroot12

instance : Fact (Irreducible primPoly) := ⟨primPoly_irreducible⟩

abbrev GaloisByte := AdjoinRoot primPoly

theorem galoisByte_card : Nat.card GaloisByte = 256 := by
  have hfin : Module.finrank (ZMod 2) GaloisByte = 8 := by
    rw [(AdjoinRoot.powerBasis' primPoly_monic).finrank, AdjoinRoot.powerBasis'_dim,
      primPoly_natDegree]
  have : Module.Finite (ZMod 2) GaloisByte := (AdjoinRoot.powerBasis' primPoly_monic).finite
  rw [Module.natCard_eq_pow_finrank (K := ZMod 2), Nat.card_zmod, hfin]
  rfl

noncomputable def galoisWord (w : BitVec 16) : GaloisByte :=
  ∑ i ∈ Finset.range 16, if w.getLsbD i then AdjoinRoot.root primPoly ^ i else 0

theorem galoisWord_xor (v w : BitVec 16) : galoisWord (v ^^^ w) = galoisWord v + galoisWord w := by
  unfold galoisWord
  rw [← Finset.sum_add_distrib]
  refine Finset.sum_congr rfl fun i _ => ?_
  rw [BitVec.getLsbD_xor]
  cases v.getLsbD i <;> cases w.getLsbD i
  · simp
  · simp
  · simp
  · simp only [bne_self_eq_false, Bool.false_eq_true, if_false, if_true]
    linear_combination -(AdjoinRoot.root primPoly ^ i) * two_eq_zero primPoly

variable {w : BitVec 16}

theorem galoisWord_shiftLeft_one (h : w.getLsbD 15 = false) :
    galoisWord (w <<< 1) = AdjoinRoot.root primPoly * galoisWord w := by
  unfold galoisWord
  rw [Finset.sum_range_succ' _ 15, Finset.sum_range_succ _ 15, mul_add, Finset.mul_sum, h]
  have hbit : ∀ i < 15, (w <<< 1).getLsbD (i + 1) = w.getLsbD i := by
    intro i hi
    rw [BitVec.getLsbD_shiftLeft, decide_eq_true (by omega), decide_eq_false (by omega)]
    rfl
  have hzero : (w <<< 1).getLsbD 0 = false := by simp
  rw [hzero, if_neg (by decide), if_neg (by decide), mul_zero, add_zero, add_zero]
  refine Finset.sum_congr rfl fun i hi => ?_
  rw [hbit i (Finset.mem_range.mp hi), mul_ite, mul_zero, pow_succ']

variable {i : ℕ}

theorem galoisWord_shiftLeft (h : ∀ j, 16 ≤ j + i → w.getLsbD j = false) :
    galoisWord (w <<< i) = AdjoinRoot.root primPoly ^ i * galoisWord w := by
  induction i with
  | zero => rw [BitVec.shiftLeft_zero, pow_zero, one_mul]
  | succ i ih =>
    have htop : (w <<< i).getLsbD 15 = false := by
      rw [BitVec.getLsbD_shiftLeft, h (15 - i) (by omega), Bool.and_false]
    rw [BitVec.shiftLeft_add, galoisWord_shiftLeft_one htop, ih fun j hj => h j (by omega)]
    ring

theorem getLsbD_of_lt {n : ℕ} (h : w.toNat < 2 ^ n) (hi : n ≤ i) :
    w.getLsbD i = false :=
  Nat.testBit_lt_two_pow (h.trans_le (Nat.pow_le_pow_right (by decide) hi))

variable {product : BitVec 16}

/-- What is taken away in the second loop is zero in the field. -/
theorem galoisWord_reduce (hi : i < 15) :
    galoisWord (gfW8Reduce product i) = galoisWord product := by
  have hpoly : galoisWord gfW8PrimPoly = 0 := by
    have hroot := root_pow_eight (dvd_refl primPoly)
    have hbits : {i ∈ Finset.range 16 | gfW8PrimPoly.getLsbD i} = {0, 2, 3, 4, 8} := by decide
    rw [galoisWord, ← Finset.sum_filter, hbits]
    rw [Finset.sum_insert (by decide), Finset.sum_insert (by decide), Finset.sum_insert (by decide),
      Finset.sum_insert (by decide), Finset.sum_singleton, hroot]
    linear_combination (AdjoinRoot.root primPoly ^ 4 + AdjoinRoot.root primPoly ^ 3 +
      AdjoinRoot.root primPoly ^ 2 + 1) * two_eq_zero primPoly
  have hhigh : gfW8PrimPoly.toNat < 2 ^ 9 := by decide
  unfold gfW8Reduce
  split
  · rw [galoisWord_xor, galoisWord_shiftLeft fun j hj => getLsbD_of_lt hhigh (by omega), hpoly,
      mul_zero, add_zero]
  · rfl

theorem galoisWord_foldl (a b : BitVec 16) (is : List ℕ) (product : BitVec 16) :
    galoisWord (is.foldl (fun product i => if a.getLsbD i then product ^^^ (b <<< i) else product)
      product) = galoisWord product +
        (is.map fun i => if a.getLsbD i then galoisWord (b <<< i) else 0).sum := by
  induction is generalizing product with
  | nil => simp
  | cons i is ih =>
    rw [List.foldl_cons, ih, List.map_cons, List.sum_cons, ← add_assoc]
    congr 1
    split
    · rw [galoisWord_xor]
    · rw [add_zero]

theorem galoisWord_low (h : w.toNat < 2 ^ 8) :
    galoisWord w =
      ∑ i ∈ Finset.range 8, if w.getLsbD i then AdjoinRoot.root primPoly ^ i else 0 := by
  symm
  apply Finset.sum_subset (Finset.range_subset_range.mpr (by decide))
  intro i _ hi
  rw [Finset.mem_range, not_lt] at hi
  rw [getLsbD_of_lt h hi, if_neg (by decide)]

theorem toNat_product_lt (a : BitVec 16) {b : BitVec 16} (hb : b.toNat < 256) (is : List ℕ)
    (his : ∀ i ∈ is, i < 8) (product : BitVec 16) (h : product.toNat < 2 ^ 15) :
    (is.foldl (fun product i => if a.getLsbD i then product ^^^ (b <<< i) else product)
      product).toNat < 2 ^ 15 := by
  induction is generalizing product with
  | nil => exact h
  | cons i is ih =>
    rw [List.foldl_cons]
    apply ih (fun j hj => his j (List.mem_cons_of_mem _ hj))
    split
    · rw [BitVec.toNat_xor]
      apply Nat.xor_lt_two_pow h
      rw [BitVec.toNat_shiftLeft, Nat.shiftLeft_eq]
      have hpow : 2 ^ i ≤ 2 ^ 7 :=
        Nat.pow_le_pow_right (by decide) (Nat.le_of_lt_succ (his i List.mem_cons_self))
      have hmul : b.toNat * 2 ^ i ≤ 255 * 2 ^ 7 := Nat.mul_le_mul (by omega) hpow
      exact (Nat.mod_le _ _).trans_lt (by omega)
    · exact h

/-- One turn of the second loop clears the highest bit. -/
theorem toNat_reduce_lt (hi : 8 ≤ i) (hi' : i < 15)
    (h : product.toNat < 2 ^ (i + 1)) : (gfW8Reduce product i).toNat < 2 ^ i := by
  apply Nat.lt_pow_two_of_testBit
  intro j hj
  change (gfW8Reduce product i).getLsbD j = false
  have hhigh : gfW8PrimPoly.toNat < 2 ^ 9 := by decide
  unfold gfW8Reduce
  rcases Nat.eq_or_lt_of_le hj with rfl | hlt
  · split
    · rename_i hbit
      have htop : gfW8PrimPoly.getLsbD (i - (i - 8)) = true := by
        rw [Nat.sub_sub_self hi]
        decide
      rw [BitVec.getLsbD_xor, hbit, BitVec.getLsbD_shiftLeft, htop, decide_eq_true (by omega),
        decide_eq_false (by omega)]
      rfl
    · rename_i hbit
      exact Bool.eq_false_iff.mpr hbit
  · have hproduct := getLsbD_of_lt h hlt
    split
    · rw [BitVec.getLsbD_xor, hproduct, BitVec.getLsbD_shiftLeft,
        getLsbD_of_lt hhigh (i := j - (i - 8)) (by omega), Bool.and_false]
      rfl
    · exact hproduct

theorem reduce_foldl (h : product.toNat < 2 ^ 15) :
    ([14, 13, 12, 11, 10, 9, 8].foldl gfW8Reduce product).toNat < 2 ^ 8 ∧
      galoisWord ([14, 13, 12, 11, 10, 9, 8].foldl gfW8Reduce product) = galoisWord product := by
  simp only [List.foldl_cons, List.foldl_nil]
  constructor
  · repeat refine toNat_reduce_lt (by decide) (by decide) ?_
    exact h
  · repeat rw [galoisWord_reduce (by decide)]

noncomputable def galoisElem (n : ℕ) : GaloisByte := galoisWord (BitVec.ofNat 16 n)

theorem galoisElem_xor (a b : ℕ) : galoisElem (a ^^^ b) = galoisElem a + galoisElem b := by
  rw [galoisElem, BitVec.ofNat_xor, galoisWord_xor]
  rfl

theorem gfW8ShiftMultiply_eq {a b : ℕ} (ha : a < 256) (hb : b < 256) :
    gfW8ShiftMultiply a b < 256 ∧
      galoisElem (gfW8ShiftMultiply a b) = galoisElem a * galoisElem b := by
  have ha' : (BitVec.ofNat 16 a).toNat < 2 ^ 8 := by
    rw [BitVec.toNat_ofNat]
    omega
  have hb' : (BitVec.ofNat 16 b).toNat < 2 ^ 8 := by
    rw [BitVec.toNat_ofNat]
    omega
  obtain ⟨hlt, hword⟩ := reduce_foldl (toNat_product_lt (BitVec.ofNat 16 a) hb'
    (List.range 8) (fun i hi => List.mem_range.mp hi) 0 (by decide))
  refine ⟨hlt, ?_⟩
  rw [galoisElem, gfW8ShiftMultiply, BitVec.ofNat_toNat, BitVec.setWidth_eq, hword,
    galoisWord_foldl, galoisElem, galoisElem, galoisWord_low ha', Finset.sum_mul]
  have hzero : galoisWord 0 = 0 := by simp [galoisWord]
  rw [hzero, zero_add]
  change ∑ i ∈ Finset.range 8, _ = _
  refine Finset.sum_congr rfl fun i hi => ?_
  rw [Finset.mem_range] at hi
  rw [galoisWord_shiftLeft fun j hj => getLsbD_of_lt hb' (by omega), ite_mul, zero_mul]

theorem galoisWord_eq_zero (h : w.toNat < 2 ^ 8) (hzero : galoisWord w = 0) :
    w = 0 := by
  have hpoly : galoisWord w =
      AdjoinRoot.mk primPoly (ofFn 8 fun i : Fin 8 => if w.getLsbD i then 1 else 0) := by
    rw [galoisWord_low h, ofFn_eq_sum_monomial, map_sum, Finset.sum_range]
    refine Finset.sum_congr rfl fun i _ => ?_
    split
    · rw [monomial_one_right_eq_X_pow, map_pow, AdjoinRoot.mk_X]
    · rw [map_zero, map_zero]
  rw [hpoly, AdjoinRoot.mk_eq_zero] at hzero
  have hdeg : (ofFn 8 fun i : Fin 8 => if w.getLsbD i then (1 : ZMod 2) else 0).degree <
      primPoly.degree := by
    rw [degree_eq_natDegree primPoly_monic.ne_zero, primPoly_natDegree]
    exact ofFn_degree_lt _
  have hcoeff := eq_zero_of_dvd_of_degree_lt hzero hdeg
  apply BitVec.eq_of_getLsbD_eq
  intro i _
  change _ = (0#16).getLsbD i
  rw [BitVec.getLsbD_zero]
  by_cases hi : i < 8
  · have hbit := congrArg (fun p : (ZMod 2)[X] => p.coeff i) hcoeff
    simp only [ofFn_coeff_eq_val_of_lt _ hi, coeff_zero] at hbit
    by_contra htrue
    rw [if_pos (Bool.eq_true_of_not_eq_false htrue)] at hbit
    exact one_ne_zero hbit
  · exact getLsbD_of_lt h (by omega)

theorem galoisElem_inj {a b : ℕ} (ha : a < 256) (hb : b < 256) (h : galoisElem a = galoisElem b) :
    a = b := by
  have hxor : galoisWord (BitVec.ofNat 16 a ^^^ BitVec.ofNat 16 b) = 0 := by
    rw [galoisWord_xor]
    unfold galoisElem at h
    rw [h]
    linear_combination galoisWord (BitVec.ofNat 16 b) * two_eq_zero primPoly
  have hlt : (BitVec.ofNat 16 a ^^^ BitVec.ofNat 16 b).toNat < 2 ^ 8 := by
    rw [BitVec.toNat_xor, BitVec.toNat_ofNat, BitVec.toNat_ofNat]
    exact Nat.xor_lt_two_pow (by omega) (by omega)
  have hsame := congrArg BitVec.toNat (BitVec.xor_eq_zero_iff.mp (galoisWord_eq_zero hlt hxor))
  rw [BitVec.toNat_ofNat, BitVec.toNat_ofNat] at hsame
  omega

theorem galoisElem_surjective (x : GaloisByte) : ∃ n < 256, galoisElem n = x := by
  have hinj : Function.Injective fun n : Fin 256 => galoisElem n := by
    intro a b h
    exact Fin.ext (galoisElem_inj a.isLt b.isLt h)
  have : Finite GaloisByte := Nat.finite_of_card_ne_zero (by rw [galoisByte_card]; decide)
  obtain ⟨n, hn⟩ := (hinj.bijective_of_nat_card_le (by
    rw [galoisByte_card, Nat.card_eq_fintype_card, Fintype.card_fin])).2 x
  exact ⟨n, n.isLt, hn⟩

theorem galoisElem_zero : galoisElem 0 = 0 := by simp [galoisElem, galoisWord]

theorem galoisElem_one : galoisElem 1 = 1 := by
  have hbits : {i ∈ Finset.range 16 | (BitVec.ofNat 16 1).getLsbD i} = {0} := by decide
  rw [galoisElem, galoisWord, ← Finset.sum_filter, hbits, Finset.sum_singleton, pow_zero]

/-- The table has the quotients of the field. -/
theorem galoisSingleDivide_eq {x y : ℕ} (hx : x < 256) (hy : y < 256) (hne : y ≠ 0) :
    galoisSingleDivide x y < 256 ∧
      galoisElem (galoisSingleDivide x y) = galoisElem x / galoisElem y := by
  have hyne : galoisElem y ≠ 0 := by
    rw [← galoisElem_zero]
    intro h
    exact hne (galoisElem_inj hy (by decide) h)
  unfold galoisSingleDivide
  by_cases hxne : x = 0
  · rw [if_pos hxne, hxne, galoisElem_zero, zero_div]
    exact ⟨by decide, rfl⟩
  rw [if_neg hxne, if_neg hne]
  obtain ⟨n, hn, hquot⟩ := galoisElem_surjective (galoisElem x / galoisElem y)
  have hprod : gfW8ShiftMultiply n y = x := by
    obtain ⟨hlt, hmul⟩ := gfW8ShiftMultiply_eq hn hy
    rw [hquot, div_mul_cancel₀ _ hyne] at hmul
    exact galoisElem_inj hlt hx hmul
  have hnne : n ≠ 0 := by
    rintro rfl
    rw [galoisElem_zero] at hquot
    rcases div_eq_zero_iff.mp hquot.symm with hzero | hzero
    · rw [← galoisElem_zero] at hzero
      exact hxne (galoisElem_inj hx (by decide) hzero)
    · exact hyne hzero
  unfold gfW8Divtable
  cases hfind : (List.range' 1 255).reverse.find? fun a => gfW8ShiftMultiply a y = x with
  | none =>
    have hnone := List.find?_eq_none.mp hfind n (by
      rw [List.mem_reverse, List.mem_range'_1]
      omega)
    simp [hprod] at hnone
  | some a =>
    have hmem := List.mem_of_find?_eq_some hfind
    rw [List.mem_reverse, List.mem_range'_1] at hmem
    have ha : gfW8ShiftMultiply a y = x := by simpa using List.find?_some hfind
    have hmul := (gfW8ShiftMultiply_eq (by omega : a < 256) hy).2
    rw [ha] at hmul
    refine ⟨show a < 256 by omega, ?_⟩
    exact eq_div_of_mul_eq hyne hmul.symm

end SeamlessStack.Sfsd
