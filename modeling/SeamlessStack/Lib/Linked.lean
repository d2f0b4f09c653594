import Mathlib.Data.List.Nodup

/-! Chains of cells linked by a partial `next` function, as an index array or a heap of
nodes gives them. -/
namespace SeamlessStack.Lib

variable {α : Type*} {next next' : α → Option α} {p q r a b : α} {l m : List α}

/-- Following `next` from `p` visits the cells of the list in order and then stands at `q`. -/
def Linked (next : α → Option α) : α → List α → α → Prop
  | p, [], q => p = q
  | p, a :: l, q => p = a ∧ ∃ r, next a = some r ∧ Linked next r l q

@[simp] theorem linked_nil : Linked next p [] q ↔ p = q := Iff.rfl

@[simp] theorem linked_cons :
    Linked next p (a :: l) q ↔ p = a ∧ ∃ r, next a = some r ∧ Linked next r l q := Iff.rfl

theorem Linked.congr (h : Linked next p l q) (hn : ∀ a ∈ l, next' a = next a) :
    Linked next' p l q := by
  induction l generalizing p with
  | nil => exact h
  | cons a l ih =>
    obtain ⟨rfl, r, hr, hl⟩ := h
    exact ⟨rfl, r, (hn p (by simp)).trans hr, ih hl fun b hb => hn b (by simp [hb])⟩

theorem linked_append : Linked next p (l ++ m) q ↔ ∃ r, Linked next p l r ∧ Linked next r m q := by
  induction l generalizing p with
  | nil => simp
  | cons a l ih =>
    simp only [List.cons_append, linked_cons, ih]
    constructor
    · rintro ⟨rfl, r, hr, u, hu, hm⟩
      exact ⟨u, ⟨rfl, r, hr, hu⟩, hm⟩
    · rintro ⟨u, ⟨rfl, r, hr, hu⟩, hm⟩
      exact ⟨rfl, r, hr, u, hu, hm⟩

theorem Linked.push (h : Linked next p l q) (ha : next' a = some p)
    (hn : ∀ b ∈ l, next' b = next b) : Linked next' a (a :: l) q :=
  ⟨rfl, p, ha, h.congr hn⟩

theorem Linked.redirect (h : Linked next p (l ++ [b]) q) (hl : ∀ c ∈ l, next' c = next c)
    (hb : next' b = some r) : Linked next' p (l ++ [b]) r := by
  obtain ⟨u, hu, hb', -⟩ := linked_append.mp h
  exact linked_append.mpr ⟨u, hu.congr hl, hb', r, hb, rfl⟩

theorem Linked.extend (h : Linked next p (l ++ [b]) q) (hl : ∀ c ∈ l, next' c = next c)
    (hb : next' b = some a) (ha : next' a = some r) : Linked next' p (l ++ [b] ++ [a]) r :=
  linked_append.mpr ⟨a, h.redirect hl hb, rfl, r, ha, rfl⟩

theorem Linked.start (h : Linked next p l q) : p ∈ l ∨ l = [] ∧ p = q := by
  cases l with
  | nil => exact Or.inr ⟨rfl, h⟩
  | cons a l => exact Or.inl (by simp [h.1])

end SeamlessStack.Lib
