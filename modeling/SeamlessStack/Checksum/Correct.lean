import SeamlessStack.Checksum.Constants

/-! What `crc_pcl` computes: each piece of the code carries the remainder over its bytes and loads
nothing beside the buffer. -/
namespace SeamlessStack.Checksum

open Lib.Crc

/-! ### The buffer as a message -/

theorem getLsbD_quadword (l : List (BitVec 8)) {j : ℕ} (hj : j < 64) :
    (quadword l).getLsbD j = (l.flatMap bits).getD j false := by
  induction l generalizing j with
  | nil => simp [quadword]
  | cons b l ih =>
    rw [quadword, BitVec.getLsbD_or, BitVec.getLsbD_shiftLeft, BitVec.getLsbD_setWidth,
      List.flatMap_cons, List.getD_eq_getElem?_getD, List.getElem?_append, length_bits]
    by_cases hlow : j < 8
    · simp [hj, hlow, bits]
    · rw [if_neg hlow, ← List.getD_eq_getElem?_getD, ← ih (by omega)]
      simp [hj, hlow, show 8 ≤ j by omega]

theorem length_flatMap_bits (l : List (BitVec 8)) : (l.flatMap bits).length = 8 * l.length := by
  induction l with
  | nil => rfl
  | cons b l ih => simp [ih]; omega

theorem bits_quadword {l : List (BitVec 8)} (hl : l.length ≤ 8) :
    (bits (quadword l)).take (8 * l.length) = l.flatMap bits := by
  apply List.ext_getElem
  · simp only [List.length_take, length_bits, length_flatMap_bits]
    omega
  · intro j hj hj'
    rw [length_flatMap_bits] at hj'
    rw [List.getElem_take, getElem_bits, getLsbD_quadword l (by omega),
      List.getD_eq_getElem?_getD, List.getElem?_eq_getElem, Option.getD_some]

namespace Buffer

variable (b : Buffer)

def bitsFrom (i n : ℕ) : List Bool := ((b.bytes.drop i).take n).flatMap bits

def sum (s : BitVec 32) (i n : ℕ) : BitVec 32 := feed castagnoli s (b.bitsFrom i n)

theorem bitsFrom_add (i n m : ℕ) :
    b.bitsFrom i (n + m) = b.bitsFrom i n ++ b.bitsFrom (i + n) m := by
  rw [bitsFrom, List.take_add, List.flatMap_append, List.drop_drop]
  rfl

theorem sum_add (s : BitVec 32) (i n m : ℕ) :
    b.sum s i (n + m) = b.sum (b.sum s i n) (i + n) m := by
  rw [sum, bitsFrom_add, feed_append]
  rfl

@[simp]
theorem sum_zero (s : BitVec 32) (i : ℕ) : b.sum s i 0 = s := by simp [sum, bitsFrom]

variable {b} {i n : ℕ}

theorem length_take_drop (h : i + n ≤ b.bytes.length) : ((b.bytes.drop i).take n).length = n := by
  rw [List.length_take, List.length_drop]
  omega

theorem length_bitsFrom (h : i + n ≤ b.bytes.length) : (b.bitsFrom i n).length = 8 * n := by
  rw [bitsFrom, length_flatMap_bits, length_take_drop h]

theorem take_bitsFrom {k : ℕ} (hk : k ≤ n) (h : i + n ≤ b.bytes.length) :
    (b.bitsFrom i n).take (8 * k) = b.bitsFrom i k := by
  obtain ⟨m, rfl⟩ := Nat.exists_eq_add_of_le hk
  rw [bitsFrom_add, List.take_left' (length_bitsFrom (by omega))]

theorem load_eq (h : i + n ≤ b.bytes.length) (hn : n ≤ 8) :
    ∃ word, b.load n (b.address + i) = some word ∧ (bits word).take (8 * n) = b.bitsFrom i n := by
  refine ⟨quadword ((b.bytes.drop i).take n), ?_, ?_⟩
  · rw [load, if_pos ⟨by omega, by omega⟩, Nat.add_sub_cancel_left]
  · have hlen := length_take_drop h
    have hbits := bits_quadword (l := (b.bytes.drop i).take n) (by omega)
    rwa [hlen] at hbits

end Buffer

theorem setWidth_crc32 (size : ℕ) (dest src : BitVec 64) :
    (crc32 size dest src).setWidth 32 =
      feed castagnoli (dest.setWidth 32) ((bits src).take (8 * size)) := by
  rw [crc32]
  simp

/-! ### Straight pieces -/

section Pieces

variable {b : Buffer} {c : BitVec 64} {i n m : ℕ} {r : Option (BitVec 64)}

def Sums (b : Buffer) (c : BitVec 64) (i n : ℕ) (r : Option (BitVec 64)) : Prop :=
  ∃ d, r = some d ∧ d.setWidth 32 = b.sum (c.setWidth 32) i n

theorem Sums.nil : Sums b c i 0 (some c) := ⟨c, rfl, by simp⟩

theorem Sums.bind {f : BitVec 64 → Option (BitVec 64)} (hr : Sums b c i n r)
    (hf : ∀ d, Sums b d (i + n) m (f d)) : Sums b c i (n + m) (r.bind f) := by
  obtain ⟨d, rfl, hd⟩ := hr
  obtain ⟨d', hd', hsum⟩ := hf d
  exact ⟨d', hd', by rw [hsum, hd, Buffer.sum_add]⟩

theorem crc32_load_sums (h : i + n ≤ b.bytes.length) (hn : n ≤ 8) :
    Sums b c i n ((b.load n (b.address + i)).map (crc32 n c)) := by
  obtain ⟨word, hload, hbits⟩ := Buffer.load_eq h hn
  exact ⟨_, by rw [hload]; rfl, by rw [setWidth_crc32, hbits]; rfl⟩

theorem crcWords_sums {k : ℕ} (h : i + k * 8 ≤ b.bytes.length) :
    Sums b c i (k * 8) (crcWords b k c (b.address + i)) := by
  induction k generalizing c i with
  | zero => simpa [crcWords] using Sums.nil
  | succ k ih =>
    have hword := crc32_load_sums (b := b) (c := c) (i := i) (n := 8) (by omega) le_rfl
    have hrest := hword.bind (m := k * 8) (f := fun d => crcWords b k d (b.address + (i + 8)))
      fun d => ih (by omega)
    rw [show (k + 1) * 8 = 8 + k * 8 by omega, crcWords]
    simpa [Option.bind_map, Function.comp_def, Nat.add_assoc] using hrest

theorem crcTake_sums {e : ℕ} (h : i + 2 ^ e ≤ b.bytes.length) :
    Sums b c i (2 ^ e) (crcTake b (2 ^ e) c (b.address + i)) := by
  rw [crcTake]
  split
  next hlt => exact crc32_load_sums h hlt.le
  next hge =>
    have he : 3 ≤ e := by
      by_contra hlt
      exact hge (show 2 ^ e < 2 ^ 3 from Nat.pow_lt_pow_right (by omega) (by omega))
    have hdvd : 2 ^ e / 8 * 8 = 2 ^ e := Nat.div_mul_cancel (pow_dvd_pow 2 he)
    simpa [hdvd] using crcWords_sums (b := b) (c := c) (i := i) (k := 2 ^ e / 8) (by omega)

/-! ### The rest of less than 256 bytes -/

/-- A shift that brings the length to the upper `e` bits; bit `e` of it goes to the carry flag. -/
theorem shl_eq {a k e : ℕ} (hk : 0 < k) (hsum : a + k + e = 32) (hn : n < 2 ^ (e + 1)) :
    shl (n * 2 ^ a) k = (n % 2 ^ e * 2 ^ (32 - e), decide (2 ^ e ≤ n)) := by
  have hbit : n.testBit e = decide (2 ^ e ≤ n) := by
    rw [Nat.testBit_eq_decide_div_mod_eq, decide_eq_decide]
    have hlt : n / 2 ^ e < 2 := Nat.div_lt_of_lt_mul (by rwa [← pow_succ])
    constructor
    · intro h
      by_contra hge
      rw [Nat.div_eq_of_lt (by omega)] at h
      omega
    · intro h
      have := Nat.div_pos h (Nat.two_pow_pos e)
      omega
  rw [shl, Prod.mk.injEq]
  constructor
  · rw [Nat.mul_assoc, ← pow_add, show a + k = 32 - e by omega,
      show (2 : ℕ) ^ 32 = 2 ^ e * 2 ^ (32 - e) by rw [← pow_add]; congr 1; omega,
        Nat.mul_mod_mul_right]
  · rw [Nat.testBit_mul_two_pow, ← hbit, show 32 - k - a = e by omega]
    simp [show a ≤ 32 - k by omega]

theorem postShl_sums {e : ℕ} {next : BitVec 64 → ℕ → ℕ → Option (BitVec 64)}
    (hnext : ∀ {c i r}, r < 2 ^ e → i + r ≤ b.bytes.length →
      Sums b c i r (next c (b.address + i) (r * 2 ^ (32 - e))))
    (hn : n < 2 ^ (e + 1)) (h : i + n ≤ b.bytes.length) :
    Sums b c i n (postShl b (2 ^ e) next c (b.address + i) (n % 2 ^ e * 2 ^ (32 - e))
      (decide (2 ^ e ≤ n))) := by
  rw [pow_succ] at hn
  rw [postShl]
  by_cases hle : 2 ^ e ≤ n
  · have hmod : n % 2 ^ e = n - 2 ^ e := by
      rw [Nat.mod_eq_sub_mod hle, Nat.mod_eq_of_lt (by omega)]
    rw [if_pos (by simpa using hle), hmod, show n = 2 ^ e + (n - 2 ^ e) by omega]
    refine (crcTake_sums (by omega)).bind fun d => ?_
    split
    next hzero =>
      have hdone : n - 2 ^ e = 0 := by simpa using hzero
      simpa [hdone] using Sums.nil
    next => simpa [Nat.add_assoc] using hnext (c := d) (i := i + 2 ^ e) (r := n - 2 ^ e)
              (by omega) (by omega)
  · rw [if_neg (by simpa using hle), Nat.mod_eq_of_lt (by omega)]
    exact hnext (by omega) h

theorem lessThan_sums {e : ℕ} (he : e ≤ 32) (hn : n < 2 ^ e) (h : i + n ≤ b.bytes.length) :
    Sums b c i n (lessThan b e c (b.address + i) (n * 2 ^ (32 - e))) := by
  induction e generalizing c i n with
  | zero =>
    obtain rfl : n = 0 := by simpa using hn
    exact Sums.nil
  | succ e ih =>
    rw [lessThan, shl_eq (e := e) (by omega) (by omega) hn]
    exact postShl_sums (ih (by omega)) hn h

theorem lessThan8PostShl1_sums {a k : ℕ} (hk : 0 < k) (hsum : a + k = 30) (hn : n < 8)
    (h : i + n ≤ b.bytes.length) :
    Sums b c i n (lessThan8PostShl1 b c (b.address + i) (shl (n * 2 ^ a) k).1
      (shl (n * 2 ^ a) k).2) := by
  rw [shl_eq (e := 2) hk (by omega) hn]
  exact postShl_sums (e := 2) (lessThan_sums (by omega)) hn h

theorem small_sums (hn : n < 256) (h : i + n ≤ b.bytes.length) :
    Sums b c i n (small b c (b.address + i) n) := by
  have hshl := shl_eq (n := n) (a := 0) (k := 24) (e := 8) (by omega) (by omega) (by omega)
  rw [pow_zero, Nat.mul_one, show n % 2 ^ 8 = n from Nat.mod_eq_of_lt hn] at hshl
  rw [small, hshl]
  exact lessThan_sums (by omega) hn h

theorem lessThan24_sums (hn : n < 24) (h : i + n ≤ b.bytes.length) :
    Sums b c i n (lessThan24 b c (b.address + i) n) := by
  have hshl := shl_eq (n := n) (a := 0) (k := 28) (e := 4) (by omega) (by omega) (by omega)
  rw [pow_zero, Nat.mul_one] at hshl
  rw [lessThan24, hshl]
  by_cases hle : 16 ≤ n
  · have hmod : n % 2 ^ 4 = n - 16 := by omega
    simp only [hmod, show 2 ^ 4 ≤ n from hle, decide_true, if_true]
    rw [show n = 2 * 8 + (n - 16) by omega]
    refine (crcWords_sums (k := 2) (by omega)).bind fun d => ?_
    split
    next hzero =>
      have hdone : n - 16 = 0 := by omega
      simpa [hdone] using Sums.nil
    next =>
      have hrest := lessThan8PostShl1_sums (b := b) (c := d) (i := i + 16) (n := n - 16) (a := 28)
        (k := 2) (by omega) (by omega) (by omega) (by omega)
      simpa [Nat.add_assoc] using hrest
  · simp only [show ¬ 2 ^ 4 ≤ n from hle, decide_false, Bool.false_eq_true, if_false]
    rw [Nat.mod_eq_of_lt (by omega)]
    exact lessThan_sums (by omega) (by omega) h

/-! ### Blocks -/

theorem load_word (h : i + 8 ≤ b.bytes.length) :
    ∃ word, b.load 8 (b.address + i) = some word ∧ bits word = b.bitsFrom i 8 ∧
      ∀ c, crc32 8 c word = (b.sum (c.setWidth 32) i 8).setWidth 64 := by
  obtain ⟨word, hload, hbits⟩ := Buffer.load_eq h le_rfl
  refine ⟨word, hload, ?_, fun c => ?_⟩
  · rw [← hbits, List.take_of_length_le (length_bits word).le]
  · rw [crc32, hbits]
    rfl

/-- Each of the three remainders is carried over its piece, the third but for the last word. -/
theorem crcArray_eq {block0 block1 block2 : ℕ} (s : Crcs) (k₀ k₁ k₂ : ℕ)
    (h0 : block0 = b.address + k₀ + (n + 1) * 8) (h0' : k₀ + (n + 1) * 8 ≤ b.bytes.length)
    (h1 : block1 = b.address + k₁ + (n + 1) * 8) (h1' : k₁ + (n + 1) * 8 ≤ b.bytes.length)
    (h2 : block2 = b.address + k₂ + (n + 1) * 8) (h2' : k₂ + (n + 1) * 8 ≤ b.bytes.length) :
    ∃ t, crcArray b block0 block1 block2 (n + 1) s = some t ∧
      t.crcInit = (b.sum (s.crcInit.setWidth 32) k₀ ((n + 1) * 8)).setWidth 64 ∧
      t.crc1 = (b.sum (s.crc1.setWidth 32) k₁ ((n + 1) * 8)).setWidth 64 ∧
      t.crc2.setWidth 32 = b.sum (s.crc2.setWidth 32) k₂ (n * 8) := by
  induction n generalizing s k₀ k₁ k₂ with
  | zero =>
    obtain ⟨word0, hload0, -, hcrc0⟩ := load_word (b := b) (i := k₀) (by omega)
    obtain ⟨word1, hload1, -, hcrc1⟩ := load_word (b := b) (i := k₁) (by omega)
    refine ⟨{ s with crcInit := crc32 8 s.crcInit word0, crc1 := crc32 8 s.crc1 word1 }, ?_,
      hcrc0 _, hcrc1 _, by simp⟩
    rw [crcArray, show block0 - (0 + 1) * 8 = b.address + k₀ by omega, hload0, Option.bind_some,
      show block1 - (0 + 1) * 8 = b.address + k₁ by omega, hload1, Option.bind_some, if_pos rfl]
  | succ n ih =>
    obtain ⟨word0, hload0, -, hcrc0⟩ := load_word (b := b) (i := k₀) (by omega)
    obtain ⟨word1, hload1, -, hcrc1⟩ := load_word (b := b) (i := k₁) (by omega)
    obtain ⟨word2, hload2, -, hcrc2⟩ := load_word (b := b) (i := k₂) (by omega)
    obtain ⟨t, hrun, ht0, ht1, ht2⟩ :=
      ih ⟨crc32 8 s.crcInit word0, crc32 8 s.crc1 word1, crc32 8 s.crc2 word2⟩
        (k₀ + 8) (k₁ + 8) (k₂ + 8) (by omega) (by omega) (by omega) (by omega) (by omega) (by omega)
    have hnext : ∀ (c : BitVec 64) (k j : ℕ),
        b.sum (((b.sum (c.setWidth 32) k 8).setWidth 64).setWidth 32) (k + 8) j =
          b.sum (c.setWidth 32) k (8 + j) := by
      intro c k j
      rw [Buffer.sum_add]
      simp
    refine ⟨t, ?_, ?_, ?_, ?_⟩
    · rw [crcArray, show block0 - (n + 1 + 1) * 8 = b.address + k₀ by omega, hload0,
        Option.bind_some, show block1 - (n + 1 + 1) * 8 = b.address + k₁ by omega, hload1,
        Option.bind_some, if_neg (by omega),
        show block2 - (n + 1 + 1) * 8 = b.address + k₂ by omega, hload2, Option.bind_some, hrun]
    · rw [ht0, hcrc0, hnext, show 8 + (n + 1) * 8 = (n + 1 + 1) * 8 by omega]
    · rw [ht1, hcrc1, hnext, show 8 + (n + 1) * 8 = (n + 1 + 1) * 8 by omega]
    · rw [ht2, hcrc2, hnext, show 8 + n * 8 = (n + 1) * 8 by omega]

theorem setWidth_pclmulqdq (a : BitVec 32) (k : BitVec 64) :
    (pclmulqdq (a.setWidth 64) k).setWidth 64 = clmul 64 a k := by
  rw [pclmulqdq, setWidth_clmul (by omega), clmul, combine_setWidth _ (by omega), clmul]

/-- The remainders of three pieces of `n + 1` words are put together. -/
theorem threePieces_sums (hn : n < 128) (h : i + (n + 1) * 24 ≤ b.bytes.length) :
    Sums b c i ((n + 1) * 24) (threePieces b (n + 1) c (b.address + i)) := by
  obtain ⟨k₁, hk₁⟩ : ∃ k₁, k₁ = i + (n + 1) * 8 := ⟨_, rfl⟩
  obtain ⟨k₂, hk₂⟩ : ∃ k₂, k₂ = k₁ + (n + 1) * 8 := ⟨_, rfl⟩
  obtain ⟨block2, hblock2⟩ : ∃ a, a = b.address + k₂ + (n + 1) * 8 := ⟨_, rfl⟩
  obtain ⟨t, hrun, ht0, ht1, ht2⟩ := crcArray_eq (b := b) (n := n) ⟨c, 0#64, 0#64⟩ i k₁ k₂ rfl
    (by omega) rfl (by omega) hblock2 (by omega)
  obtain ⟨k, hrow, hmoves1, hmoves2⟩ := kTable_moves (m := n + 1) (by omega) hn
  obtain ⟨word, hload, hword, -⟩ := load_word (b := b) (i := k₂ + n * 8) (by omega)
  refine ⟨crc32 8 t.crc2 ((pclmulqdq t.crcInit k.1 ^^^ pclmulqdq t.crc1 k.2).setWidth 64 ^^^ word),
    ?_, ?_⟩
  · have hblocks : threePieces b (n + 1) c (b.address + i) =
        (crcArray b (b.address + i + (n + 1) * 8) (b.address + k₁ + (n + 1) * 8) block2 (n + 1)
          ⟨c, 0#64, 0#64⟩).bind (combineResults b (n + 1) block2) := by
      rw [hblock2, hk₂, hk₁]
      simp only [threePieces, Nat.add_assoc]
    rw [hblocks, hrun, Option.bind_some, combineResults, hrow, Option.bind_some,
      show block2 - 8 = b.address + (k₂ + n * 8) by omega, hload]
    rfl
  · -- the message, cut into the two first pieces, the third but for a word, and the word
    have hmessage : b.bitsFrom i ((n + 1) * 24) = b.bitsFrom i ((n + 1) * 8) ++
        (b.bitsFrom k₁ ((n + 1) * 8) ++ (b.bitsFrom k₂ (n * 8) ++ bits word)) := by
      rw [hword, ← Buffer.bitsFrom_add, hk₂, ← Buffer.bitsFrom_add, hk₁, ← Buffer.bitsFrom_add]
      congr 1
      omega
    have hlen1 := Buffer.length_bitsFrom (b := b) (i := k₁) (n := (n + 1) * 8) (by omega)
    have hlen2 := Buffer.length_bitsFrom (b := b) (i := k₂) (n := n * 8) (by omega)
    rw [setWidth_crc32, List.take_of_length_le (length_bits _).le, ht2, ht0, ht1,
      BitVec.setWidth_xor, setWidth_pclmulqdq, setWidth_pclmulqdq]
    rw [show b.sum (c.setWidth 32) i ((n + 1) * 24) = feed castagnoli (c.setWidth 32) _ from rfl,
      hmessage]
    refine feed_three castagnoli _ _ _ _ ?_ ?_
    · rw [hmoves1.feed_product, hlen1, hlen2]
      congr 2
      omega
    · rw [hmoves2.feed_product, hlen2]
      congr 2
      omega

theorem procBlock_sums (h : i + n = b.bytes.length) :
    Sums b c i n (procBlock b c (b.address + i) n) := by
  induction n using Nat.strong_induction_on generalizing c i with
  | h n ih =>
    rw [procBlock]
    split
    next hlt => exact small_sums (by omega) h.le
    next hge =>
      obtain ⟨hpos, hmax, hle⟩ := pieceWords_bounds (Nat.not_lt.mp hge)
      obtain ⟨m, hm⟩ : ∃ m, pieceWords n = m + 1 := ⟨pieceWords n - 1, by omega⟩
      rw [hm] at hmax hle
      simp only [hm]
      nth_rewrite 1 [show n = (m + 1) * 24 + (n - (m + 1) * 24) by omega]
      refine (threePieces_sums hmax (by omega)).bind fun d => ?_
      rw [Nat.add_assoc]
      split
      next => exact ih _ (by omega) (by omega)
      next => exact lessThan24_sums (by omega) (by omega)

theorem alignLoop_eq {k : ℕ} (hk : k ≤ 8) (c tmp : BitVec 64) :
    (alignLoop k c tmp).setWidth 32 =
      feed castagnoli (c.setWidth 32) ((bits tmp).take (8 * k)) := by
  induction k generalizing c tmp with
  | zero => simp [alignLoop]
  | succ k ih =>
    have hrest : (bits tmp).take (8 * (k + 1)) =
        (bits tmp).take (8 * 1) ++ (bits (tmp >>> 8)).take (8 * k) := by
      rw [show 8 * (k + 1) = 8 * 1 + 8 * k by omega, List.take_add]
      congr 1
      apply List.ext_getElem
      · simp only [List.length_take, List.length_drop, length_bits]
        omega
      · intro j hj _
        simp
    rw [alignLoop, ih (by omega), setWidth_crc32, hrest, feed_append]

end Pieces

theorem crcPcl_eq_sum (b : Buffer) (crcInit : BitVec 64) :
    crcPcl b crcInit = some (b.sum (crcInit.setWidth 32) 0 b.bytes.length) := by
  have hall : ∀ {r}, Sums b crcInit 0 b.bytes.length r → r.map (BitVec.setWidth 32) =
      some (b.sum (crcInit.setWidth 32) 0 b.bytes.length) := by
    rintro r ⟨d, rfl, hd⟩
    rw [Option.map_some, hd]
  have hbufp : (2 ^ 64 - b.address) % 2 ^ 64 &&& 7 ≤ 7 := Nat.and_le_right
  rw [crcPcl]
  generalize (2 ^ 64 - b.address) % 2 ^ 64 &&& 7 = bufp at hbufp
  refine hall ?_
  split
  next => exact procBlock_sums (i := 0) (by omega)
  next =>
    split
    next hlt =>
      simpa using lessThan8PostShl1_sums (b := b) (c := crcInit) (i := 0) (a := 0) (k := 30)
        (by omega) (by omega) hlt (by omega)
    next hge =>
      obtain ⟨tmp, hload, hbits, -⟩ := load_word (b := b) (i := 0) (by omega)
      have hfirst : Sums b crcInit 0 bufp (some (alignLoop bufp crcInit tmp)) := by
        refine ⟨_, rfl, ?_⟩
        rw [alignLoop_eq (by omega), hbits, Buffer.take_bitsFrom (by omega) (by omega), Buffer.sum]
      have hrest := hfirst.bind (m := b.bytes.length - bufp) (f := fun d =>
          procBlock b d (b.address + (0 + bufp)) (b.bytes.length - bufp))
        fun d => procBlock_sums (by omega)
      rw [Nat.add_zero] at hload
      rw [hload]
      simpa [show bufp + (b.bytes.length - bufp) = b.bytes.length by omega] using hrest

theorem Buffer.sum_all (b : Buffer) (s : BitVec 32) :
    b.sum s 0 b.bytes.length = feed castagnoli s (b.bytes.flatMap bits) := by
  rw [sum, bitsFrom, List.drop_zero, List.take_length]

/-- For every buffer, `crc_pcl` loads nothing beside it and returns the remainder of all its bytes,
bit by bit. -/
theorem crcPcl_remainder (b : Buffer) (crcInit : BitVec 64) :
    crcPcl b crcInit = some (feed castagnoli (crcInit.setWidth 32) (b.bytes.flatMap bits)) := by
  rw [crcPcl_eq_sum, Buffer.sum_all]

-- the check value of CRC-32C, which is inverted before and after
example : ~~~ feed castagnoli (BitVec.allOnes 32)
    (([0x31, 0x32, 0x33, 0x34, 0x35, 0x36, 0x37, 0x38, 0x39] : List (BitVec 8)).flatMap bits) =
      0xe3069283#32 := by decide +kernel

end SeamlessStack.Checksum
