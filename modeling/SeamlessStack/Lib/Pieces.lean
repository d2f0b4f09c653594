import Mathlib.Data.List.Range

/-! Pieces of an interval, each given by its start and its length. -/
namespace SeamlessStack.Lib

def spelled (pieces : List (ℕ × ℕ)) : List ℕ := pieces.flatMap fun p => List.range' p.1 p.2

def Covers (pieces : List (ℕ × ℕ)) (a b : ℕ) : Prop := spelled pieces = List.range' a (b - a)

variable {pieces : List (ℕ × ℕ)} {p : ℕ × ℕ} {a b : ℕ}

theorem spelled_cons : spelled (p :: pieces) = List.range' p.1 p.2 ++ spelled pieces := rfl

theorem covers_singleton (a n : ℕ) : Covers [(a, n)] a (a + n) := by
  simp [Covers, spelled]

theorem Covers.ne_nil (h : Covers pieces a b) (hab : a < b) : pieces ≠ [] := by
  rintro rfl
  have hlength := congrArg List.length h
  rw [List.length_range'] at hlength
  have hzero : (spelled []).length = 0 := rfl
  omega

theorem length_spelled_replicate (n a k : ℕ) :
    (spelled (List.replicate n (a, k))).length = n * k := by
  induction n with
  | zero => exact (Nat.zero_mul k).symm
  | succ n ih =>
    rw [List.replicate_succ, spelled_cons, List.length_append, List.length_range', ih, Nat.succ_mul,
      Nat.add_comm]

theorem mem_spelled_of_start (hs : ∀ p ∈ pieces, p.1 = a) (hne : spelled pieces ≠ []) :
    a ∈ spelled pieces := by
  obtain ⟨x, hx⟩ := List.exists_mem_of_ne_nil _ hne
  obtain ⟨p, hp, hxp⟩ := List.mem_flatMap.mp hx
  refine List.mem_flatMap.mpr ⟨p, hp, ?_⟩
  rw [List.mem_range'_1] at hxp ⊢
  have hstart := hs p hp
  omega

/-- If all pieces start at the same place, one of them is the whole interval. -/
theorem Covers.mem_of_start (h : Covers pieces a b) (hab : a < b) (hs : ∀ p ∈ pieces, p.1 = a) :
    (a, b - a) ∈ pieces := by
  induction pieces with
  | nil => exact absurd rfl (h.ne_nil hab)
  | cons p pieces ih =>
    have hstart : p.1 = a := hs p (List.mem_cons_self ..)
    have hrest : ∀ q ∈ pieces, q.1 = a := fun q hq => hs q (List.mem_cons_of_mem _ hq)
    have hcons : List.range' p.1 p.2 ++ spelled pieces = List.range' a (b - a) := h
    rw [hstart] at hcons
    by_cases hzero : p.2 = 0
    · rw [hzero, List.range'_zero, List.nil_append] at hcons
      exact List.mem_cons_of_mem _ (ih hcons hrest)
    · -- The place is in this piece, so it is in no later one.
      have hempty : spelled pieces = [] := by
        by_contra hne
        have hnodup : (List.range' a p.2 ++ spelled pieces).Nodup := by
          rw [hcons]
          exact List.nodup_range'
        have hmem : a ∈ List.range' a p.2 := by
          rw [List.mem_range'_1]
          omega
        exact (List.nodup_append.mp hnodup).2.2 a hmem a (mem_spelled_of_start hrest hne) rfl
      have hlength := congrArg List.length hcons
      rw [hempty, List.append_nil, List.length_range', List.length_range'] at hlength
      have hp : p = (a, b - a) := Prod.ext hstart hlength
      rw [hp]
      exact List.mem_cons_self ..

theorem Covers.replicate {n k : ℕ} (h : Covers (List.replicate n (a, k)) a b) (hab : a < b) :
    n = 1 ∧ k = b - a := by
  have hmem := h.mem_of_start hab fun p hp => by rw [List.eq_of_mem_replicate hp]
  obtain rfl : b - a = k := congrArg Prod.snd (List.eq_of_mem_replicate hmem)
  have htotal := congrArg List.length h
  rw [length_spelled_replicate, List.length_range'] at htotal
  refine ⟨?_, rfl⟩
  exact Nat.eq_of_mul_eq_mul_right (by omega) (htotal.trans (Nat.one_mul _).symm)

end SeamlessStack.Lib
