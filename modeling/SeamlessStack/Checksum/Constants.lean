import SeamlessStack.Checksum.CrcPcl

/-! The constants of `K_table`: a product with one of them moves a remainder over as many bits as
the pieces behind it have. -/
namespace SeamlessStack.Checksum

open Lib.Crc

/-- The product with `K` stands for a move by `N` bits. -/
structure Moves (K : BitVec 64) (N : ℕ) : Prop where
  short : K.toNat < 2 ^ 33
  one : feed castagnoli 0#32 (bits (K <<< 31)) = (shift castagnoli)^[N] (1#32 <<< 31)

theorem Moves.feed_product {K : BitVec 64} {N : ℕ} (hK : Moves K N) (c : BitVec 32) :
    feed castagnoli 0#32 (bits (clmul 64 c K)) = (shift castagnoli)^[N] c := by
  refine feed_clmul castagnoli (by omega) (fun i hi => ?_) (by simpa using hK.one) c
  rw [BitVec.setWidth_eq, ← BitVec.testBit_toNat]
  exact Nat.testBit_lt_two_pow (hK.short.trans_le (Nat.pow_le_pow_right (by omega) (by omega)))

/-! ### On numbers -/

def shiftNat (s : ℕ) : ℕ := s / 2 ^^^ s % 2 * castagnoli.toNat

theorem toNat_shift (s : BitVec 32) : (shift castagnoli s).toNat = shiftNat s.toNat := by
  rw [shift, shiftNat, BitVec.toNat_xor, BitVec.toNat_ushiftRight, Nat.shiftRight_one,
    ← BitVec.testBit_toNat, Nat.testBit_zero]
  rcases Nat.mod_two_eq_zero_or_one s.toNat with h | h <;> simp [h]

theorem toNat_iterate_shift (j : ℕ) (s : BitVec 32) :
    ((shift castagnoli)^[j] s).toNat = shiftNat^[j] s.toNat := by
  induction j generalizing s with
  | zero => rfl
  | succ j ih => rw [Function.iterate_succ_apply, ih, toNat_shift]; rfl

def constantNat (k : ℕ) : ℕ := shiftNat (shiftNat^[32] (k % 2 ^ 32) ^^^ k / 2 ^ 32)

theorem bits_constant (K : BitVec 64) :
    bits (K <<< 31) = List.replicate 31 false ++ (bits (K.setWidth 32) ++ [K.getLsbD 32]) := by
  apply List.ext_getElem
  · simp
  · intro i hi _
    simp only [length_bits] at hi
    simp only [getElem_bits, BitVec.getLsbD_shiftLeft, List.getElem_append, List.length_replicate,
      List.getElem_replicate, length_bits, BitVec.getLsbD_setWidth, List.getElem_singleton]
    split_ifs with h₁ h₂
    · simp [h₁]
    · simp [hi, h₁, h₂]
    · simp [hi, h₁, show i - 31 = 32 by omega]

theorem ofBits_bits (v : BitVec 32) : ofBits 32 (bits v) = v := by
  refine BitVec.eq_of_getLsbD_eq fun i hi => ?_
  rw [getLsbD_ofBits]
  simp [hi, bits]

theorem toNat_feed_constant {K : BitVec 64} (hK : K.toNat < 2 ^ 33) :
    (feed castagnoli 0#32 (bits (K <<< 31))).toNat = constantNat K.toNat := by
  have hbit : ((BitVec.ofBool (K.getLsbD 32)).setWidth 32).toNat = K.toNat / 2 ^ 32 := by
    rw [← BitVec.testBit_toNat, Nat.testBit_eq_decide_div_mod_eq]
    rcases (by omega : K.toNat / 2 ^ 32 = 0 ∨ K.toNat / 2 ^ 32 = 1) with h | h <;> rw [h] <;> rfl
  rw [bits_constant, feed_append, feed_replicate_false, feed_append,
    Function.iterate_fixed (shift_zero castagnoli), feed_cons, feed_nil,
    feed_eq_iterate _ (length_bits _).le, ofBits_bits, BitVec.zero_xor, length_bits, feedBit,
    toNat_shift, BitVec.toNat_xor, toNat_iterate_shift, hbit, BitVec.toNat_setWidth]
  rfl

/-- The rows of the table, from the remainders that the row before leads to. -/
def checkRows : List (BitVec 64 × BitVec 64) → ℕ → ℕ → Bool
  | [], _, _ => true
  | (k1, k2) :: rows, x, y =>
    let x := shiftNat^[128] x
    let y := shiftNat^[64] y
    decide (k1.toNat < 2 ^ 33) && constantNat k1.toNat == x &&
      (decide (k2.toNat < 2 ^ 33) && constantNat k2.toNat == y) && checkRows rows x y

theorem Moves.of_constantNat {K : BitVec 64} {N : ℕ} (hK : K.toNat < 2 ^ 33)
    (h : constantNat K.toNat = shiftNat^[N] (2 ^ 31)) : Moves K N where
  short := hK
  one := by
    apply BitVec.eq_of_toNat_eq
    rw [toNat_feed_constant hK, h, toNat_iterate_shift]
    rfl

theorem checkRows_moves {rows : List (BitVec 64 × BitVec 64)} {a : ℕ}
    (h : checkRows rows (shiftNat^[a * 128] (2 ^ 31)) (shiftNat^[a * 64] (2 ^ 31)) = true)
    {m : ℕ} {k : BitVec 64 × BitVec 64} (hk : rows[m]? = some k) :
    Moves k.1 ((a + m + 1) * 128) ∧ Moves k.2 ((a + m + 1) * 64) := by
  induction rows generalizing a m with
  | nil => simp at hk
  | cons row rows ih =>
    obtain ⟨k1, k2⟩ := row
    have hnext : ∀ j, shiftNat^[j] (shiftNat^[a * j] (2 ^ 31)) =
        shiftNat^[(a + 1) * j] (2 ^ 31) := by
      intro j
      rw [← Function.iterate_add_apply, Nat.add_mul, Nat.one_mul, Nat.add_comm]
    simp only [checkRows, hnext, Bool.and_eq_true, decide_eq_true_eq, beq_iff_eq] at h
    obtain ⟨⟨⟨hshort1, hone1⟩, hshort2, hone2⟩, hrows⟩ := h
    cases m with
    | zero =>
      obtain rfl : (k1, k2) = k := by simpa using hk
      exact ⟨.of_constantNat hshort1 hone1, .of_constantNat hshort2 hone2⟩
    | succ m =>
      have := ih hrows (by simpa using hk)
      rwa [show a + (m + 1) = a + 1 + m by omega]

theorem checkRows_kTable : checkRows kTable (2 ^ 31) (2 ^ 31) = true := by decide +kernel

theorem kTable_moves {m : ℕ} (hm : 0 < m) (hle : m ≤ 128) :
    ∃ k, kTable[m - 1]? = some k ∧ Moves k.1 (m * 128) ∧ Moves k.2 (m * 64) := by
  have hrow : m - 1 < kTable.length := by
    have : kTable.length = 128 := rfl
    omega
  refine ⟨_, List.getElem?_eq_getElem hrow, ?_⟩
  have := checkRows_moves (a := 0) checkRows_kTable (List.getElem?_eq_getElem hrow)
  rwa [show 0 + (m - 1) + 1 = m by omega] at this

end SeamlessStack.Checksum
