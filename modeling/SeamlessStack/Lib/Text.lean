import Mathlib.Data.List.TakeWhile
import Mathlib.Tactic
import SeamlessStack.Lib.Except

/-! Texts that end before a zero byte, and the functions that copy them. A source is the block it
lies in with what memory holds behind it, and the null pointer the source without a block. -/
namespace SeamlessStack.Lib

/-- What stops a program that works on pointers. -/
inductive Fault
  | null
  | wild
  | outside
  deriving DecidableEq, Repr

def deref {α : Type} : Option α → Except Fault α
  | none => .error .null
  | some a => .ok a

/-- What an array of `n` characters holds: the bytes before the first zero, or all of them. -/
@[ext] structure Text (n : ℕ) where
  bytes : List UInt8
  nul : 0 ∉ bytes
  length_le : bytes.length ≤ n
  deriving DecidableEq, Repr

namespace Text
variable {n m : ℕ}

theorem zero_notMem_takeWhile (l : List UInt8) : 0 ∉ l.takeWhile (· ≠ 0) := by
  intro h
  have := List.mem_takeWhile_imp h
  simp at this

def ofBytes (l : List UInt8) (h : l.length ≤ n) : Text n where
  bytes := l.takeWhile (· ≠ 0)
  nul := zero_notMem_takeWhile l
  length_le := (l.takeWhile_prefix _).length_le.trans h

def empty (n : ℕ) : Text n := ⟨[], List.not_mem_nil, Nat.zero_le n⟩

def widen (h : n ≤ m) (t : Text n) : Text m := ⟨t.bytes, t.nul, t.length_le.trans h⟩

theorem takeWhile_append_zero (t : Text n) (l : List UInt8) :
    (t.bytes ++ 0 :: l).takeWhile (· ≠ 0) = t.bytes := by
  rw [List.takeWhile_append_of_pos]
  · simp
  · intro a ha
    have : a ≠ 0 := fun h => t.nul (h ▸ ha)
    simpa using this

theorem takeWhile_bytes (t : Text n) : t.bytes.takeWhile (· ≠ 0) = t.bytes := by
  rw [List.takeWhile_eq_self_iff]
  intro a ha
  have : a ≠ 0 := fun h => t.nul (h ▸ ha)
  simpa using this

end Text

def ahead (behind : ℕ → UInt8) (src : List UInt8) (n : ℕ) : List UInt8 :=
  (src ++ (List.range n).map behind).take n

section
variable {behind : ℕ → UInt8} {src : List UInt8} {n cap : ℕ}

@[simp] theorem ahead_length : (ahead behind src n).length = n := by
  simp [ahead]

theorem ahead_of_le (h : n ≤ src.length) : ahead behind src n = src.take n := by
  unfold ahead
  rw [List.take_append_of_le_length h]

@[simp] theorem ahead_self : ahead behind src src.length = src := by
  rw [ahead_of_le le_rfl, List.take_length]

theorem ahead_take {j : ℕ} : (ahead behind src n).take j = ahead behind src (min j n) := by
  unfold ahead
  rw [List.take_take, List.take_append, List.take_append, ← List.map_take, ← List.map_take,
    List.take_range, List.take_range]
  congr 3
  omega

theorem mem_ahead_of_mem_take (h : 0 ∈ src.take n) : 0 ∈ ahead behind src n := by
  unfold ahead
  rw [List.take_append]
  exact List.mem_append_left _ h

@[simp] theorem forall_mem_ahead : (∀ behind, 0 ∈ ahead behind src n) ↔ 0 ∈ src.take n := by
  constructor
  · intro h
    have hone := h fun _ => 1
    unfold ahead at hone
    rw [List.take_append, List.mem_append] at hone
    rcases hone with hone | hone
    · exact hone
    · simpa using List.mem_of_mem_take hone
  · exact fun h behind => mem_ahead_of_mem_take h

end

def strcpy (cap : ℕ) (behind : ℕ → UInt8) (src : List UInt8) : Except Fault (Text cap) :=
  if src = [] then .error .null
  else if 0 ∈ ahead behind src cap then .ok (.ofBytes (ahead behind src cap) ahead_length.le)
  else .error .outside

/-- To an array of `cap` zeros; what is not copied is filled up, so `n` bytes are written. -/
def strncpy (cap n : ℕ) (behind : ℕ → UInt8) (src : List UInt8) : Except Fault (Text cap) :=
  if n = 0 then .ok (.empty cap)
  else if src = [] then .error .null
  else if h : n ≤ cap then .ok (.ofBytes (ahead behind src n) (ahead_length.le.trans h))
  else .error .outside

def memcpy (cap n : ℕ) (behind : ℕ → UInt8) (src : List UInt8) : Except Fault (List UInt8) :=
  if n = 0 then .ok []
  else if src = [] then .error .null
  else if n ≤ cap then .ok (ahead behind src n)
  else .error .outside

section
variable {behind : ℕ → UInt8} {src : List UInt8} {n cap : ℕ}

end
end SeamlessStack.Lib
