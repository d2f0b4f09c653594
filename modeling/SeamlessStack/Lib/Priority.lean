import Mathlib.Tactic

/-! Searches with a priority: the newest element of a history, and the highest number below a bound
with a result. -/
namespace SeamlessStack.Lib

variable {α β : Type*}

/-- The newest element with `p` in a history, newest first, as the number of elements before it. -/
def latest (p : α → Prop) [DecidablePred p] : List α → Option ℕ
  | [] => none
  | x :: l => if p x then some l.length else latest p l

def IsLatest (p : α → Prop) (l : List α) (n : ℕ) : Prop :=
  ∃ newer x older, l = newer ++ x :: older ∧ older.length = n ∧ p x ∧ ∀ y ∈ newer, ¬ p y

section
variable {p : α → Prop} {l : List α} {n : ℕ}

theorem latest_eq_none [DecidablePred p] : latest p l = none ↔ ∀ x ∈ l, ¬ p x := by
  induction l with
  | nil => simp [latest]
  | cons x l ih =>
    unfold latest
    split
    · rename_i hx
      simp [hx]
    · rename_i hx
      rw [ih, List.forall_mem_cons]
      exact ⟨fun h => ⟨hx, h⟩, fun h => h.2⟩

theorem isLatest_cons {x : α} :
    IsLatest p (x :: l) n ↔ p x ∧ l.length = n ∨ ¬ p x ∧ IsLatest p l n := by
  constructor
  · rintro ⟨newer, y, older, heq, hn, hy, hnewer⟩
    cases newer with
    | nil =>
      obtain ⟨rfl, rfl⟩ := List.cons.inj heq
      exact Or.inl ⟨hy, hn⟩
    | cons z newer =>
      obtain ⟨rfl, rfl⟩ := List.cons.inj heq
      rw [List.forall_mem_cons] at hnewer
      exact Or.inr ⟨hnewer.1, newer, y, older, rfl, hn, hy, hnewer.2⟩
  · rintro (⟨hx, hn⟩ | ⟨hx, newer, y, older, rfl, hn, hy, hnewer⟩)
    · exact ⟨[], x, l, rfl, hn, hx, by simp⟩
    · exact ⟨x :: newer, y, older, rfl, hn, hy, List.forall_mem_cons.mpr ⟨hx, hnewer⟩⟩

theorem latest_eq_some [DecidablePred p] : latest p l = some n ↔ IsLatest p l n := by
  induction l with
  | nil => simp [latest, IsLatest]
  | cons x l ih =>
    rw [isLatest_cons, ← ih]
    by_cases hx : p x
    · simp [latest, hx]
    · simp [latest, hx]

theorem IsLatest.elem_eq {q : α → Prop} (hp : IsLatest p l n) (hq : IsLatest q l n) :
    ∃ x ∈ l, p x ∧ q x := by
  obtain ⟨newer, x, older, rfl, hn, hx, -⟩ := hp
  obtain ⟨newer', y, older', heq, hn', hy, -⟩ := hq
  have hlen : (x :: older).length = (y :: older').length := by
    rw [List.length_cons, List.length_cons, hn, hn']
  obtain ⟨-, hsame⟩ := List.append_inj' heq hlen
  rw [(List.cons.inj hsame).1] at hx ⊢
  exact ⟨y, by simp, hx, hy⟩

end

def searchDown (f : ℕ → Option β) : ℕ → Option β
  | 0 => none
  | i + 1 => match f i with
    | some x => some x
    | none => searchDown f i

section
variable {f : ℕ → Option β} {n : ℕ} {x : β}

theorem searchDown_eq_none : searchDown f n = none ↔ ∀ i < n, f i = none := by
  induction n with
  | zero => simp [searchDown]
  | succ n ih =>
    unfold searchDown
    cases hf : f n with
    | some y =>
      refine iff_of_false (by simp) ?_
      intro h
      rw [h n (by omega)] at hf
      cases hf
    | none =>
      rw [ih]
      constructor
      · intro h i hi
        obtain rfl | hlt := Nat.eq_or_lt_of_le (Nat.le_of_lt_succ hi)
        · exact hf
        · exact h i hlt
      · intro h i hi
        exact h i (by omega)

theorem searchDown_eq_some :
    searchDown f n = some x ↔ ∃ i < n, f i = some x ∧ ∀ j, i < j → j < n → f j = none := by
  induction n with
  | zero => simp [searchDown]
  | succ n ih =>
    unfold searchDown
    cases hf : f n with
    | some y =>
      constructor
      · intro h
        refine ⟨n, by omega, hf.trans h, ?_⟩
        intro j hj hlt
        omega
      · rintro ⟨i, hi, hx, hnone⟩
        obtain rfl | hlt := Nat.eq_or_lt_of_le (Nat.le_of_lt_succ hi)
        · exact hf.symm.trans hx
        · rw [hnone n hlt (by omega)] at hf
          cases hf
    | none =>
      rw [ih]
      constructor
      · rintro ⟨i, hi, hx, hnone⟩
        refine ⟨i, by omega, hx, ?_⟩
        intro j hij hj
        obtain rfl | hlt := Nat.eq_or_lt_of_le (Nat.le_of_lt_succ hj)
        · exact hf
        · exact hnone j hij hlt
      · rintro ⟨i, hi, hx, hnone⟩
        have hne : i ≠ n := by
          rintro rfl
          rw [hf] at hx
          cases hx
        refine ⟨i, by omega, hx, ?_⟩
        intro j hij hj
        exact hnone j hij (by omega)

end

end SeamlessStack.Lib
