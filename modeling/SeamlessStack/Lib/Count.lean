import Mathlib.Data.List.Basic

/-! Tables under updates: what an update or a new entry changes, and how many entries satisfy a
test. -/
namespace SeamlessStack.Lib

variable {α : Type*} {p q r : α → Bool} {l : List α} {i : ℕ} {x y : α}

theorem countP_set_toNat (h : l[i]? = some x) :
    (l.set i y).countP p + (p x).toNat = l.countP p + (p y).toNat := by
  induction l generalizing i with
  | nil => simp at h
  | cons a l ih =>
    cases i with
    | zero =>
      have : a = x := by simpa using h
      subst this
      simp only [List.set_cons_zero, List.countP_cons]
      cases p a <;> cases p y <;> simp
    | succ i =>
      have := ih (by simpa using h)
      simp only [List.set_cons_succ, List.countP_cons]
      omega

theorem map_set_eq {β : Type*} {f : α → β} (h : l[i]? = some x) (hf : f y = f x) :
    (l.set i y).map f = l.map f := by
  obtain ⟨hlt, rfl⟩ := List.getElem?_eq_some_iff.mp h
  rw [List.map_set, hf, ← List.getElem_map f, List.set_getElem_self]
  simpa using hlt

theorem forall_mem_set {P : α → Prop} (h : ∀ a ∈ l, P a) (hy : P y) : ∀ a ∈ l.set i y, P a := by
  intro a ha
  obtain hin | rfl := List.mem_or_eq_of_mem_set ha
  · exact h a hin
  · exact hy

theorem forall_mem_of_set {P : α → Prop} (h : l[i]? = some x) (hx : P x)
    (hset : ∀ a ∈ l.set i y, P a) : ∀ a ∈ l, P a := by
  intro a ha
  obtain ⟨j, hj⟩ := List.mem_iff_getElem?.mp ha
  by_cases hij : i = j
  · rw [← hij, h] at hj
    rw [← Option.some.inj hj]
    exact hx
  · apply hset
    rw [← List.getElem?_set_ne hij] at hj
    exact List.mem_of_getElem? hj

theorem getElem?_snoc (h : (l ++ [y])[i]? = some x) : l[i]? = some x ∨ i = l.length ∧ x = y := by
  rw [List.getElem?_append] at h
  split at h
  · exact Or.inl h
  · rename_i hge
    obtain ⟨hlt, hx⟩ := List.getElem?_eq_some_iff.mp h
    rw [List.length_singleton] at hlt
    refine Or.inr ⟨by omega, ?_⟩
    rw [← hx]
    exact List.getElem_singleton _

theorem countP_add_countP_le (hp : ∀ a, p a → r a) (hq : ∀ a, q a → r a)
    (hpq : ∀ a, p a → q a = false) : l.countP p + l.countP q ≤ l.countP r := by
  induction l with
  | nil => simp
  | cons a l ih =>
    have hp := hp a
    have hq := hq a
    have hpq := hpq a
    simp only [List.countP_cons]
    cases hpa : p a <;> cases hqa : q a <;> cases hra : r a <;> simp_all <;> omega

theorem getElem?_flatMap {β : Type*} {f : α → List β} {k j : ℕ} (hf : ∀ a, (f a).length = k)
    (hj : j < k) : (l.flatMap f)[i * k + j]? = l[i]?.bind fun a => (f a)[j]? := by
  induction l generalizing i with
  | nil => simp
  | cons a l ih =>
    rw [List.flatMap_cons]
    cases i with
    | zero =>
      rw [List.getElem?_append_left (by rw [hf]; omega)]
      simp
    | succ i =>
      have hle : (f a).length ≤ (i + 1) * k + j := by
        rw [hf, Nat.succ_mul]
        omega
      have hsub : (i + 1) * k + j - (f a).length = i * k + j := by
        rw [hf, Nat.succ_mul]
        omega
      rw [List.getElem?_append_right hle, hsub, ih]
      rfl

end SeamlessStack.Lib
