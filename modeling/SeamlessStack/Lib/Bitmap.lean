import Mathlib.Tactic

/-! Sets of numbers packed into an array of bytes: what setting, clearing and testing one bit
does to all of them. -/
namespace SeamlessStack.Lib

abbrev Bitmap := List (BitVec 8)

namespace Bitmap

def mask (b : ℕ) : BitVec 8 := 1#8 <<< (b % 8)

def slot (b : ℕ) : ℕ := b / 8

def set (a : Bitmap) (b : ℕ) : Bitmap := a.modify (slot b) (· ||| mask b)

def clear (a : Bitmap) (b : ℕ) : Bitmap := a.modify (slot b) (· &&& ~~~ mask b)

def test (a : Bitmap) (b : ℕ) : Bool := (a[slot b]?.getD 0 &&& mask b) != 0

variable {a : Bitmap} {b c : ℕ}

theorem getLsbD_mask (b k : ℕ) : (mask b).getLsbD k = decide (k = b % 8) := by
  have hb : b % 8 < 8 := Nat.mod_lt b (by decide)
  unfold mask
  rw [← BitVec.twoPow_eq, BitVec.getLsbD_twoPow]
  simp [hb, eq_comm]

theorem test_eq (a : Bitmap) (b : ℕ) : a.test b = (a[slot b]?.getD 0).getLsbD (b % 8) := by
  have hb : b % 8 < 8 := Nat.mod_lt b (by decide)
  unfold test mask
  rw [← BitVec.twoPow_eq, BitVec.and_twoPow]
  have hne : BitVec.twoPow 8 (b % 8) ≠ 0#8 := by
    intro hzero
    have hbit := congrArg (fun x => x.getLsbD (b % 8)) hzero
    simp [hb] at hbit
  split
  · rename_i hset
    rw [hset]
    simpa using hne
  · rename_i hset
    simp only [Bool.not_eq_true] at hset
    rw [hset]
    rfl

@[simp] theorem set_length (a : Bitmap) (b : ℕ) : (a.set b).length = a.length := by
  simp [set]

@[simp] theorem clear_length (a : Bitmap) (b : ℕ) : (a.clear b).length = a.length := by
  simp [clear]

theorem mod_eq_iff (h : slot b = slot c) : c % 8 = b % 8 ↔ c = b := by
  unfold slot at h
  omega

theorem test_set (hb : slot b < a.length) : (a.set b).test c = (decide (c = b) || a.test c) := by
  rw [test_eq, test_eq, set, List.getElem?_modify]
  by_cases h : slot b = slot c
  · have hc : a[slot c]? = some a[slot b] := by
      rw [← h]
      exact List.getElem?_eq_getElem hb
    simp only [hc, h, if_true, Option.map_eq_map, Option.map_some, Option.getD_some,
      BitVec.getLsbD_or,
      getLsbD_mask, mod_eq_iff h]
    rw [Bool.or_comm]
  · have hne : c ≠ b := by
      rintro rfl
      exact h rfl
    simp [h, hne]

theorem test_clear : (a.clear b).test c = (!decide (c = b) && a.test c) := by
  rw [test_eq, test_eq, clear, List.getElem?_modify]
  by_cases h : slot b = slot c
  · cases hc : a[slot c]? with
    | none => simp
    | some x =>
      have hlt : c % 8 < 8 := Nat.mod_lt c (by decide)
      simp only [h, if_true, Option.map_eq_map, Option.map_some, Option.getD_some,
        BitVec.getLsbD_and,
        BitVec.getLsbD_not, getLsbD_mask, mod_eq_iff h, hlt, decide_true, Bool.true_and]
      rw [Bool.and_comm]
  · have hne : c ≠ b := by
      rintro rfl
      exact h rfl
    simp [h, hne]

theorem test_replicate (n b : ℕ) : test (List.replicate n 0) b = false := by
  rw [test_eq, List.getElem?_replicate]
  split <;> simp

def firstUnset (a : Bitmap) : ℕ → ℕ → ℕ
  | i, 0 => i
  | i, n + 1 => if a.test i then firstUnset a (i + 1) n else i

theorem firstUnset_le (a : Bitmap) (i n : ℕ) : a.firstUnset i n ≤ i + n := by
  induction n generalizing i with
  | zero => exact le_refl i
  | succ n ih =>
    unfold firstUnset
    split
    · have := ih (i + 1)
      omega
    · omega

theorem le_firstUnset (a : Bitmap) (i n : ℕ) : i ≤ a.firstUnset i n := by
  induction n generalizing i with
  | zero => exact le_refl i
  | succ n ih =>
    unfold firstUnset
    split
    · have := ih (i + 1)
      omega
    · omega

theorem test_firstUnset {i n : ℕ} (h : a.firstUnset i n < i + n) :
    a.test (a.firstUnset i n) = false := by
  induction n generalizing i with
  | zero =>
    unfold firstUnset at h
    omega
  | succ n ih =>
    unfold firstUnset at h ⊢
    split at h
    · rename_i hset
      rw [if_pos hset]
      exact ih (by omega)
    · rename_i hset
      rw [if_neg hset]
      simpa using hset

theorem test_of_lt_firstUnset {i n j : ℕ} (hi : i ≤ j) (hj : j < a.firstUnset i n) :
    a.test j = true := by
  induction n generalizing i with
  | zero =>
    unfold firstUnset at hj
    omega
  | succ n ih =>
    unfold firstUnset at hj
    split at hj
    · rename_i hset
      obtain rfl | hlt := Nat.eq_or_lt_of_le hi
      · exact hset
      · exact ih hlt hj
    · omega

theorem firstUnset_eq {i n k : ℕ} (hi : i ≤ k) (hk : k < i + n) (hset : a.test k = false)
    (hbefore : ∀ j, i ≤ j → j < k → a.test j = true) : a.firstUnset i n = k := by
  have hge : ¬ k < a.firstUnset i n := by
    intro hlt
    rw [test_of_lt_firstUnset hi hlt] at hset
    cases hset
  have hle : ¬ a.firstUnset i n < k := by
    intro hlt
    have := hbefore _ (le_firstUnset a i n) hlt
    rw [test_firstUnset (by omega)] at this
    cases this
  omega

end Bitmap
end SeamlessStack.Lib
