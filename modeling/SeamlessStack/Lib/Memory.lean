import Mathlib.Tactic

/-! Blocks of memory as a C program sees them: bytes that may be indeterminate, copies that must
stay inside, and `realloc`. An offset may also be before its block. -/
namespace SeamlessStack.Lib

/-- A byte of memory; `undef` is one that was never written. -/
inductive Cell
  | undef
  | byte (b : UInt8)
  deriving DecidableEq, Repr

abbrev Block := List Cell

namespace Block

def ofBytes (bytes : List UInt8) : Block := bytes.map .byte

def read (b : Block) (off : ℤ) (n : ℕ) : Option Block :=
  if 0 ≤ off ∧ off + n ≤ b.length then some ((b.drop off.toNat).take n) else none

def write (b : Block) (off : ℤ) (src : Block) : Option Block :=
  if 0 ≤ off ∧ off + src.length ≤ b.length then
    some (b.take off.toNat ++ src ++ b.drop (off.toNat + src.length))
  else none

def realloc (b : Block) (n : ℕ) : Block := b.take n ++ List.replicate (n - b.length) .undef

def bytes : Block → Option (List UInt8)
  | [] => some []
  | .undef :: _ => none
  | .byte x :: b => (bytes b).map (x :: ·)

end Block

def littleEndian : List UInt8 → ℕ
  | [] => 0
  | x :: xs => x.toNat + 256 * littleEndian xs

namespace Block
variable {b b' src r : Block} {off : ℤ} {n : ℕ}

def u32 (b : Block) (off : ℤ) : Option ℕ := ((b.read off 4).bind bytes).map littleEndian

def u64 (b : Block) (off : ℤ) : Option ℕ := ((b.read off 8).bind bytes).map littleEndian

def ofU64 (n : ℕ) : Block := ofBytes (List.ofFn fun i : Fin 8 => UInt8.ofNat (n / 256 ^ i.val))

@[simp] theorem ofBytes_length (bytes : List UInt8) : (ofBytes bytes).length = bytes.length := by
  simp [ofBytes]

@[simp] theorem bytes_ofBytes (xs : List UInt8) : bytes (ofBytes xs) = some xs := by
  induction xs with
  | nil => rfl
  | cons x xs ih =>
    unfold ofBytes at ih ⊢
    rw [List.map_cons, bytes, ih]
    rfl

@[simp] theorem realloc_length (b : Block) (n : ℕ) : (b.realloc n).length = n := by
  simp only [realloc, List.length_append, List.length_take, List.length_replicate]
  omega

theorem read_eq_some : b.read off n = some r ↔
    0 ≤ off ∧ off + n ≤ b.length ∧ r = (b.drop off.toNat).take n := by
  unfold read
  split
  · rename_i h
    simp [h, eq_comm]
  · rename_i h
    simp only [reduceCtorEq, false_iff]
    intro hr
    exact h ⟨hr.1, hr.2.1⟩

theorem write_eq_some : b.write off src = some b' ↔ 0 ≤ off ∧ off + src.length ≤ b.length ∧
    b' = b.take off.toNat ++ src ++ b.drop (off.toNat + src.length) := by
  unfold write
  split
  · rename_i h
    simp [h, eq_comm]
  · rename_i h
    simp only [reduceCtorEq, false_iff]
    intro hr
    exact h ⟨hr.1, hr.2.1⟩

theorem read_length (h : b.read off n = some r) : r.length = n := by
  obtain ⟨hoff, hle, rfl⟩ := read_eq_some.mp h
  simp only [List.length_take, List.length_drop]
  omega

theorem write_length (h : b.write off src = some b') : b'.length = b.length := by
  obtain ⟨hoff, hle, rfl⟩ := write_eq_some.mp h
  simp only [List.length_append, List.length_take, List.length_drop]
  omega

theorem read_getElem? (h : b.read off n = some r) {i : ℕ} (hi : i < n) :
    r[i]? = b[off.toNat + i]? := by
  obtain ⟨-, -, rfl⟩ := read_eq_some.mp h
  rw [List.getElem?_take_of_lt hi, List.getElem?_drop]

theorem write_getElem?_before (h : b.write off src = some b') {i : ℕ} (hi : i < off.toNat) :
    b'[i]? = b[i]? := by
  obtain ⟨hoff, hle, rfl⟩ := write_eq_some.mp h
  have hlen : i < (b.take off.toNat).length := by
    rw [List.length_take]
    omega
  rw [List.append_assoc, List.getElem?_append_left hlen, List.getElem?_take_of_lt hi]

theorem write_getElem?_inside (h : b.write off src = some b') {i : ℕ} (hi : i < src.length) :
    b'[off.toNat + i]? = src[i]? := by
  obtain ⟨hoff, hle, rfl⟩ := write_eq_some.mp h
  have hlen : (b.take off.toNat).length = off.toNat := by
    rw [List.length_take]
    omega
  rw [List.append_assoc, List.getElem?_append_right (by omega), hlen, Nat.add_sub_cancel_left,
    List.getElem?_append_left hi]

theorem realloc_getElem?_old {i : ℕ} (hi : i < b.length) (hn : i < n) :
    (b.realloc n)[i]? = b[i]? := by
  unfold realloc
  have hlen : i < (b.take n).length := by
    rw [List.length_take]
    omega
  rw [List.getElem?_append_left hlen, List.getElem?_take_of_lt hn]

theorem realloc_getElem?_new {i : ℕ} (hi : b.length ≤ i) (hn : i < n) :
    (b.realloc n)[i]? = some .undef := by
  unfold realloc
  have hlen : (b.take n).length = b.length := by
    rw [List.length_take]
    omega
  rw [List.getElem?_append_right (by omega), hlen, List.getElem?_replicate]
  exact if_pos (by omega)

theorem realloc_write_end (b src : Block) :
    (b.realloc (b.length + src.length)).write b.length src = some (b ++ src) := by
  rw [write_eq_some]
  refine ⟨by omega, ?_, ?_⟩
  · rw [realloc_length]
    omega
  · have htake : b.take (b.length + src.length) = b := List.take_of_length_le (by omega)
    simp [realloc, htake]

theorem read_append (before b after : Block) :
    (before ++ b ++ after).read before.length b.length = some b := by
  rw [read_eq_some]
  refine ⟨by omega, ?_, ?_⟩
  · simp only [List.length_append]
    omega
  · simp

theorem u32_ofBytes (before after : List UInt8) {digits : List UInt8} (h : digits.length = 4) :
    (ofBytes (before ++ digits ++ after)).u32 before.length = some (littleEndian digits) := by
  have hread := read_append (ofBytes before) (ofBytes digits) (ofBytes after)
  rw [ofBytes_length, ofBytes_length, h] at hread
  unfold u32
  rw [show ofBytes (before ++ digits ++ after) =
    ofBytes before ++ ofBytes digits ++ ofBytes after by simp [ofBytes], hread]
  simp

theorem read_congr {k : ℕ} (hb : k + n ≤ b.length) (hb' : k + n ≤ b'.length)
    (h : ∀ i < n, b[k + i]? = b'[k + i]?) : b.read k n = b'.read k n := by
  unfold read
  rw [if_pos ⟨by omega, by omega⟩, if_pos ⟨by omega, by omega⟩]
  congr 1
  apply List.ext_getElem?
  intro i
  rw [Int.toNat_natCast]
  by_cases hi : i < n
  · rw [List.getElem?_take_of_lt hi, List.getElem?_take_of_lt hi, List.getElem?_drop,
      List.getElem?_drop, h i hi]
  · rw [List.getElem?_take_eq_none (by omega), List.getElem?_take_eq_none (by omega)]

theorem read_of_read {d : Block} {k m : ℕ} (h : b.read off n = some d) (hk : k + m ≤ n) :
    d.read k m = b.read (off + k) m := by
  have hd := read_length h
  obtain ⟨hoff, hle, rfl⟩ := read_eq_some.mp h
  unfold read
  rw [if_pos ⟨by omega, by omega⟩, if_pos ⟨by omega, by omega⟩, Int.toNat_add hoff (by omega)]
  simp only [Int.toNat_natCast]
  rw [List.drop_take, List.take_take, List.drop_drop, min_eq_left (by omega)]

theorem u32_of_read {d : Block} {k : ℕ} (h : b.read off n = some d) (hk : k + 4 ≤ n) :
    d.u32 k = b.u32 (off + k) := by
  unfold u32
  rw [read_of_read h hk]

theorem read_write_before {off' : ℤ} (h : b.write off src = some b') (hle : off' + n ≤ off) :
    b'.read off' n = b.read off' n := by
  have hlen := write_length h
  unfold read
  rw [hlen]
  split
  · rename_i hin
    congr 1
    apply List.ext_getElem?
    intro i
    by_cases hi : i < n
    · rw [List.getElem?_take_of_lt hi, List.getElem?_take_of_lt hi, List.getElem?_drop,
        List.getElem?_drop, write_getElem?_before h (by omega)]
    · rw [List.getElem?_take_eq_none (by omega), List.getElem?_take_eq_none (by omega)]
  · rfl

theorem read_write_after {off' : ℤ} (h : b.write off src = some b')
    (hle : off + src.length ≤ off') : b'.read off' n = b.read off' n := by
  have hlen := write_length h
  obtain ⟨hoff, hin, rfl⟩ := write_eq_some.mp h
  unfold read
  rw [hlen]
  have hfront : (b.take off.toNat ++ src).length ≤ off'.toNat := by
    rw [List.length_append, List.length_take]
    omega
  have hrest : off.toNat + src.length + (off'.toNat - (b.take off.toNat ++ src).length) =
      off'.toNat := by
    rw [List.length_append, List.length_take] at hfront ⊢
    omega
  rw [List.drop_append, List.drop_eq_nil_of_le hfront, List.nil_append, List.drop_drop, hrest]

theorem read_write_self (h : b.write off src = some b') : b'.read off src.length = some src := by
  have hlen := write_length h
  obtain ⟨hoff, hle, rfl⟩ := write_eq_some.mp h
  rw [read_eq_some]
  refine ⟨hoff, by rw [hlen]; exact hle, ?_⟩
  have htake : (b.take off.toNat).length = off.toNat := by
    rw [List.length_take]
    omega
  rw [List.append_assoc, List.drop_left' htake, List.take_left' rfl]

theorem u32_write_before {off' : ℤ} (h : b.write off src = some b') (hle : off' + 4 ≤ off) :
    b'.u32 off' = b.u32 off' := by
  unfold u32
  rw [read_write_before h hle]

end Block
end SeamlessStack.Lib
