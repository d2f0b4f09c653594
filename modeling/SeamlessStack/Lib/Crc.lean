import Mathlib.Logic.Function.Iterate
import Mathlib.Tactic

/-! Cyclic redundancy checks in the reflected form: the remainder moves right, and the bits of a
message come in at its low end. It is carried over bits by one carry-less product, and a short burst
of errors changes it. -/

namespace SeamlessStack.Lib.Crc

open Function

def bits {n : ℕ} (v : BitVec n) : List Bool := (List.range n).map v.getLsbD

section Words

variable {n : ℕ}

@[simp]
theorem length_bits (v : BitVec n) : (bits v).length = n := by simp [bits]

@[simp]
theorem getElem_bits (v : BitVec n) {i : ℕ} (hi : i < (bits v).length) :
    (bits v)[i] = v.getLsbD i := by simp [bits]

theorem bits_xor (a b : BitVec n) : bits (a ^^^ b) = List.zipWith xor (bits a) (bits b) := by
  apply List.ext_getElem
  · simp
  · intro i _ _
    simp

theorem bits_shiftLeft_one {v : BitVec (n + 1)} (hv : v.getLsbD n = false) :
    ∃ l, bits (v <<< 1) = false :: l ∧ bits v = l ++ [false] := by
  refine ⟨(List.range n).map v.getLsbD, ?_, ?_⟩
  · rw [bits, List.range_succ_eq_map, List.map_cons, List.map_map]
    simp only [BitVec.getLsbD_shiftLeft, List.cons.injEq, List.map_inj_left, List.mem_range,
      comp_apply]
    refine ⟨by simp, fun i hi => ?_⟩
    simp [hi]
  · rw [bits, List.range_succ, List.map_append, List.map_singleton, hv]

def ofBits (n : ℕ) : List Bool → BitVec n
  | [] => 0#n
  | b :: l => ofBits n l <<< 1 ^^^ (BitVec.ofBool b).setWidth n

theorem getLsbD_ofBits (l : List Bool) (i : ℕ) :
    (ofBits n l).getLsbD i = (decide (i < n) && l.getD i false) := by
  induction l generalizing i with
  | nil => simp [ofBits]
  | cons b l ih =>
    cases i with
    | zero => cases b <;> simp [ofBits]
    | succ i =>
      simp only [ofBits, BitVec.getLsbD_xor, BitVec.getLsbD_shiftLeft, ih, BitVec.getLsbD_setWidth]
      by_cases hi : i + 1 < n
      · simp [hi, show i < n by omega]
      · simp [hi]

theorem ofBits_injective {l l' : List Bool} (hl : l.length ≤ n) (hlen : l.length = l'.length)
    (h : ofBits n l = ofBits n l') : l = l' := by
  apply List.ext_getElem hlen
  intro i hi hi'
  have hbit := congrArg (fun v => BitVec.getLsbD v i) h
  simp only [getLsbD_ofBits, show i < n by omega, decide_true, Bool.true_and] at hbit
  simpa [hi, hi'] using hbit

end Words

section Combine

variable {m n k : ℕ}

def combine (c : BitVec m) (e : ℕ → BitVec n) : BitVec n :=
  (List.range m).foldl (fun acc i => acc ^^^ bif c.getLsbD i then e i else 0#n) 0#n

theorem map_combine {f : BitVec n → BitVec k} (hf : ∀ a b, f (a ^^^ b) = f a ^^^ f b)
    (c : BitVec m) (e : ℕ → BitVec n) : f (combine c e) = combine c (fun i => f (e i)) := by
  have h0 : f 0#n = 0#k := by simpa using hf 0#n 0#n
  have hfold : ∀ (l : List ℕ) (acc : BitVec n),
      f (l.foldl (fun acc i => acc ^^^ bif c.getLsbD i then e i else 0#n) acc) =
        l.foldl (fun acc i => acc ^^^ bif c.getLsbD i then f (e i) else 0#k) (f acc) := by
    intro l
    induction l with
    | nil => intro acc; rfl
    | cons i l ih =>
      intro acc
      rw [List.foldl_cons, List.foldl_cons, ih, hf]
      cases c.getLsbD i <;> simp [h0]
  rw [combine, hfold, h0, combine]

theorem combine_congr {c : BitVec m} {e e' : ℕ → BitVec n} (h : ∀ i < m, e i = e' i) :
    combine c e = combine c e' := by
  unfold combine
  refine List.foldl_ext _ _ _ fun acc i hi => ?_
  rw [h i (List.mem_range.mp hi)]

theorem combine_succ (c : BitVec m) (e : ℕ → BitVec n) (j : ℕ) :
    (List.range (j + 1)).foldl (fun acc i => acc ^^^ bif c.getLsbD i then e i else 0#n) 0#n =
      (List.range j).foldl (fun acc i => acc ^^^ bif c.getLsbD i then e i else 0#n) 0#n ^^^
        bif c.getLsbD j then e j else 0#n := by
  rw [List.range_succ, List.foldl_append, List.foldl_cons, List.foldl_nil]

/-- A word is the sum of its bits. -/
theorem combine_basis (c : BitVec m) : combine c (fun i => 1#m <<< i) = c := by
  have hlow : ∀ j, j ≤ m → ∀ i, ((List.range j).foldl
      (fun acc i => acc ^^^ bif c.getLsbD i then 1#m <<< i else 0#m) 0#m).getLsbD i =
        (decide (i < j) && c.getLsbD i) := by
    intro j hj
    induction j with
    | zero => simp
    | succ j ih =>
      intro i
      rw [combine_succ, BitVec.getLsbD_xor, ih (by omega)]
      rcases Nat.lt_trichotomy i j with hi | rfl | hi
      · cases c.getLsbD j <;> simp [hi, show i < j + 1 by omega]
      · cases hc : c.getLsbD i <;> simp [show i < m by omega]
      · cases c.getLsbD j <;>
          simp [show ¬ i < j by omega, show ¬ i < j + 1 by omega, show i - j ≠ 0 by omega]
  refine BitVec.eq_of_getLsbD_eq fun i hi => ?_
  rw [combine, hlow m le_rfl]
  simp [hi]

/-- Zeros above the word add nothing. -/
theorem combine_setWidth (c : BitVec m) (h : m ≤ k) (e : ℕ → BitVec n) :
    combine (c.setWidth k) e = combine c e := by
  have hzeros : ∀ j, combine (c.setWidth (m + j)) e = combine c e := by
    intro j
    induction j with
    | zero => simp
    | succ j ih =>
      rw [← ih, combine, show m + (j + 1) = (m + j) + 1 from rfl, combine_succ, combine]
      have hbit : ∀ i, i ≤ m + j →
          (c.setWidth (m + j + 1)).getLsbD i = (c.setWidth (m + j)).getLsbD i := by
        intro i hi
        simp only [BitVec.getLsbD_setWidth, show i < m + j + 1 by omega, decide_true, Bool.true_and]
        by_cases hlt : i < m + j
        · simp [hlt]
        · simp [hlt, show m ≤ i by omega]
      rw [hbit _ le_rfl, BitVec.getLsbD_of_ge _ _ le_rfl, cond_false, BitVec.xor_zero]
      refine List.foldl_ext _ _ _ fun acc i hi => ?_
      rw [hbit i (by have := List.mem_range.mp hi; omega)]
  obtain ⟨j, rfl⟩ := Nat.exists_eq_add_of_le h
  exact hzeros j

def clmul (n : ℕ) (a : BitVec m) (b : BitVec k) : BitVec n :=
  combine a fun i => b.setWidth n <<< i

theorem setWidth_clmul {n' : ℕ} (h : n' ≤ n) (a : BitVec m) (b : BitVec k) :
    (clmul n a b).setWidth n' = clmul n' a b := by
  rw [clmul, map_combine (fun _ _ => BitVec.setWidth_xor), clmul]
  refine combine_congr fun i _ => BitVec.eq_of_getLsbD_eq fun j hj => ?_
  simp only [BitVec.getLsbD_setWidth, BitVec.getLsbD_shiftLeft, hj, show j < n by omega,
    decide_true, Bool.true_and, show j - i < n by omega, show j - i < n' by omega]

end Combine

section Remainder

variable {w : ℕ} (p : BitVec w)

def shift (s : BitVec w) : BitVec w := s >>> 1 ^^^ bif s.getLsbD 0 then p else 0#w

def feedBit (s : BitVec w) (b : Bool) : BitVec w := shift p (s ^^^ (BitVec.ofBool b).setWidth w)

def feed (s : BitVec w) (l : List Bool) : BitVec w := l.foldl (feedBit p) s

@[simp]
theorem feed_nil (s : BitVec w) : feed p s [] = s := rfl

@[simp]
theorem feed_cons (s : BitVec w) (b : Bool) (l : List Bool) :
    feed p s (b :: l) = feed p (feedBit p s b) l := rfl

theorem feed_append (s : BitVec w) (l l' : List Bool) :
    feed p s (l ++ l') = feed p (feed p s l) l' := List.foldl_append

/-! ### Linearity -/

theorem shift_xor (a b : BitVec w) : shift p (a ^^^ b) = shift p a ^^^ shift p b := by
  simp only [shift, BitVec.getLsbD_xor, BitVec.ushiftRight_xor_distrib]
  refine BitVec.eq_of_getLsbD_eq fun i _ => ?_
  cases a.getLsbD 0 <;> cases b.getLsbD 0 <;>
    simp [Bool.xor_comm, Bool.xor_left_comm]

theorem iterate_shift_xor (j : ℕ) (a b : BitVec w) :
    (shift p)^[j] (a ^^^ b) = (shift p)^[j] a ^^^ (shift p)^[j] b := by
  induction j generalizing a b with
  | zero => rfl
  | succ j ih => rw [iterate_succ_apply, shift_xor, ih]; rfl

theorem feedBit_xor (s t : BitVec w) (a b : Bool) :
    feedBit p (s ^^^ t) (xor a b) = feedBit p s a ^^^ feedBit p t b := by
  have hbit : (BitVec.ofBool (xor a b)).setWidth w =
      (BitVec.ofBool a).setWidth w ^^^ (BitVec.ofBool b).setWidth w := by
    cases a <;> cases b <;> simp
  rw [feedBit, feedBit, feedBit, hbit, ← shift_xor]
  congr 1
  ac_rfl

theorem feed_xor (s t : BitVec w) {l l' : List Bool} (h : l.length = l'.length) :
    feed p (s ^^^ t) (List.zipWith xor l l') = feed p s l ^^^ feed p t l' := by
  induction l generalizing s t l' with
  | nil =>
    obtain rfl : l' = [] := List.length_eq_zero_iff.mp h.symm
    rfl
  | cons a l ih =>
    cases l' with
    | nil => simp at h
    | cons b l' =>
      rw [List.zipWith_cons_cons, feed_cons, feedBit_xor, ih _ _ (by simpa using h)]
      rfl

theorem feed_bits_xor (s t : BitVec w) {n : ℕ} (a b : BitVec n) :
    feed p (s ^^^ t) (bits (a ^^^ b)) = feed p s (bits a) ^^^ feed p t (bits b) := by
  rw [bits_xor, feed_xor p s t (by simp)]

theorem feedBit_false (s : BitVec w) : feedBit p s false = shift p s := by simp [feedBit]

theorem feed_replicate_false (s : BitVec w) (j : ℕ) :
    feed p s (List.replicate j false) = (shift p)^[j] s := by
  induction j generalizing s with
  | zero => rfl
  | succ j ih => rw [List.replicate_succ, feed_cons, ih, feedBit_false]; rfl

theorem feed_eq_xor (s : BitVec w) (l : List Bool) :
    feed p s l = (shift p)^[l.length] s ^^^ feed p 0#w l := by
  have hzip : List.zipWith xor (List.replicate l.length false) l = l := by
    apply List.ext_getElem <;> simp
  calc feed p s l
      = feed p (s ^^^ 0#w) (List.zipWith xor (List.replicate l.length false) l) := by
        rw [hzip, BitVec.xor_zero]
    _ = _ := by rw [feed_xor p s 0#w (by simp), feed_replicate_false]

@[simp]
theorem shift_zero : shift p 0#w = 0#w := by simp [shift]

theorem shift_shiftLeft_one {v : BitVec w} (hv : v.getLsbD (w - 1) = false) :
    shift p (v <<< 1) = v := by
  refine BitVec.eq_of_getLsbD_eq fun i hi => ?_
  have hlow : (v <<< 1).getLsbD 0 = false := by simp
  rw [shift, hlow]
  simp only [cond_false, BitVec.xor_zero, BitVec.getLsbD_ushiftRight, BitVec.getLsbD_shiftLeft]
  by_cases hlast : 1 + i < w
  · simp [hlast]
  · obtain rfl : i = w - 1 := by omega
    simp [hv, hlast]

/-! ### Carrying a remainder over bits by a product -/

/-- `K` stands for a move by `N` bits if it does for the remainder one, on the left. -/
theorem feed_shiftLeft {n N : ℕ} {K : BitVec n} (hw : w ≤ n)
    (hK : ∀ i, n - w < i → K.getLsbD i = false)
    (hone : feed p 0#w (bits (K <<< (w - 1))) = (shift p)^[N] (1#w <<< (w - 1)))
    {j : ℕ} (hj : j < w) : feed p 0#w (bits (K <<< j)) = (shift p)^[N] (1#w <<< j) := by
  -- downwards from the last place
  induction hd : w - 1 - j generalizing j with
  | zero =>
    obtain rfl : j = w - 1 := by omega
    exact hone
  | succ d ih =>
    obtain ⟨n, rfl⟩ : ∃ n', n = n' + 1 := ⟨n - 1, by omega⟩
    have hnext := ih (j := j + 1) (by omega) (by omega)
    have htop : (K <<< j).getLsbD n = false := by
      rw [BitVec.getLsbD_shiftLeft, hK (n - j) (by omega), Bool.and_false]
    obtain ⟨l, hshift, hl⟩ := bits_shiftLeft_one htop
    have hmove : shift p (1#w <<< (j + 1)) = 1#w <<< j := by
      rw [BitVec.shiftLeft_add]
      apply shift_shiftLeft_one
      simp [show w - 1 - j ≠ 0 by omega]
    rw [BitVec.shiftLeft_add, hshift, feed_cons, feedBit_false, shift_zero] at hnext
    rw [hl, feed_append, hnext, feed_cons, feed_nil, feedBit_false,
      ← iterate_succ_apply' (shift p), iterate_succ_apply, hmove]

/-- If `K` stands for a move by `N` bits, its product is the remainder moved by `N` bits. -/
theorem feed_clmul {m n N : ℕ} {K : BitVec m} (hw : w ≤ n)
    (hK : ∀ i, n - w < i → (K.setWidth n).getLsbD i = false)
    (hone : feed p 0#w (bits (K.setWidth n <<< (w - 1))) = (shift p)^[N] (1#w <<< (w - 1)))
    (c : BitVec w) : feed p 0#w (bits (clmul n c K)) = (shift p)^[N] c := by
  have hlin : ∀ a b : BitVec n,
      feed p 0#w (bits (a ^^^ b)) = feed p 0#w (bits a) ^^^ feed p 0#w (bits b) := by
    intro a b
    rw [← feed_bits_xor, BitVec.xor_zero]
  calc feed p 0#w (bits (clmul n c K))
      = combine c (fun i => feed p 0#w (bits (K.setWidth n <<< i))) :=
        map_combine (f := fun v => feed p 0#w (bits v)) hlin c _
    _ = combine c (fun i => (shift p)^[N] (1#w <<< i)) :=
        combine_congr fun i hi => feed_shiftLeft p hw hK hone hi
    _ = (shift p)^[N] c := by
        rw [← map_combine (f := (shift p)^[N]) (iterate_shift_xor p N), combine_basis]

/-- Three remainders of consecutive pieces put together in the last word of the third piece. -/
theorem feed_three {n : ℕ} (s : BitVec w) (l₀ l₁ l₂ : List Bool) {u v d : BitVec n}
    (hu : feed p 0#w (bits u) = (shift p)^[l₁.length + (l₂.length + n)] (feed p s l₀))
    (hv : feed p 0#w (bits v) = (shift p)^[l₂.length + n] (feed p 0#w l₁)) :
    feed p (feed p 0#w l₂) (bits (u ^^^ v ^^^ d)) = feed p s (l₀ ++ (l₁ ++ (l₂ ++ bits d))) := by
  have hsum : feed p (feed p 0#w l₂) (bits (u ^^^ v ^^^ d)) =
      feed p 0#w (bits u) ^^^ feed p 0#w (bits v) ^^^ feed p 0#w (l₂ ++ bits d) := by
    rw [feed_append, ← feed_bits_xor, ← feed_bits_xor]
    simp
  rw [hsum, hu, hv, feed_append p s, feed_append p (feed p s l₀),
    feed_eq_xor p (feed p (feed p s l₀) l₁), feed_eq_xor p (feed p s l₀) l₁, iterate_shift_xor,
    ← iterate_add_apply]
  simp [Nat.add_comm, Nat.add_left_comm]

/-! ### Errors -/

variable {p}

/-- With a constant term, a move loses nothing. -/
theorem shift_injective (hp : p.getLsbD (w - 1) = true) : Injective (shift p) := by
  have hzero : ∀ x : BitVec w, shift p x = 0#w → x = 0#w := by
    intro x hx
    have hw : 0 < w := by
      by_contra hw
      obtain rfl : w = 0 := by omega
      simp at hp
    have hlow : x.getLsbD 0 = false := by
      have htop := congrArg (fun v => BitVec.getLsbD v (w - 1)) hx
      cases hx0 : x.getLsbD 0
      · rfl
      · simp [shift, hx0, hp, show 1 + (w - 1) = w by omega] at htop
    rw [shift, hlow, cond_false, BitVec.xor_zero] at hx
    refine BitVec.eq_of_getLsbD_eq fun i hi => ?_
    cases i with
    | zero => simpa using hlow
    | succ i =>
      have hbit := congrArg (fun v => BitVec.getLsbD v i) hx
      simpa [Nat.add_comm] using hbit
  intro x y hxy
  have hdiff := hzero (x ^^^ y) (by rw [shift_xor, hxy, BitVec.xor_self])
  exact BitVec.xor_eq_zero_iff.mp hdiff

theorem feed_injective (hp : p.getLsbD (w - 1) = true) (l : List Bool) :
    Injective fun s => feed p s l := by
  intro s t h
  simp only [feed_eq_xor p s, feed_eq_xor p t] at h
  exact (shift_injective hp).iterate l.length (BitVec.xor_left_inj _ |>.mp h)

theorem feed_eq_iterate (s : BitVec w) {l : List Bool} (hl : l.length ≤ w) :
    feed p s l = (shift p)^[l.length] (s ^^^ ofBits w l) := by
  induction l generalizing s with
  | nil => simp [ofBits]
  | cons b l ih =>
    rw [List.length_cons] at hl
    have htop : (ofBits w l).getLsbD (w - 1) = false := by
      rw [getLsbD_ofBits, List.getD_eq_getElem?_getD, List.getElem?_eq_none (by omega)]
      simp
    have hin : s ^^^ ofBits w (b :: l) =
        (s ^^^ (BitVec.ofBool b).setWidth w) ^^^ ofBits w l <<< 1 := by
      rw [ofBits]
      ac_rfl
    rw [feed_cons, ih _ (by omega), List.length_cons, iterate_succ_apply, hin, shift_xor,
      shift_shiftLeft_one p htop, feedBit]

theorem feed_burst (hp : p.getLsbD (w - 1) = true) {s : BitVec w} {a d d' b : List Bool}
    (hd : d.length ≤ w) (hlen : d.length = d'.length)
    (h : feed p s (a ++ (d ++ b)) = feed p s (a ++ (d' ++ b))) : d = d' := by
  simp only [feed_append] at h
  have hburst := feed_injective hp b h
  rw [feed_eq_iterate (feed p s a) hd, feed_eq_iterate (feed p s a) (hlen ▸ hd), ← hlen] at hburst
  have hwords := (shift_injective hp).iterate d.length hburst
  exact ofBits_injective hd hlen (BitVec.xor_right_inj _ |>.mp hwords)

end Remainder

end SeamlessStack.Lib.Crc
