import Mathlib.Tactic

/-! Lists whose elements carry a key: the first element with a key, and its replacement. -/
namespace SeamlessStack.Lib

variable {α κ : Type} [DecidableEq κ] {key : α → κ} {l : List α} {a b : α} {k : κ}

def findKey (key : α → κ) (l : List α) (k : κ) : Option α := l.find? fun x => key x = k

def replaceFirst (key : α → κ) (a : α) : List α → List α
  | [] => []
  | b :: rest => if key b = key a then a :: rest else b :: replaceFirst key a rest

theorem findKey_cons (key : α → κ) (b : α) (rest : List α) (k : κ) :
    findKey key (b :: rest) k = if key b = k then some b else findKey key rest k := by
  unfold findKey
  rw [List.find?_cons]
  by_cases h : key b = k <;> simp [h]

theorem findKey_of_nodup (hkeys : (l.map key).Nodup) (ha : a ∈ l) :
    findKey key l (key a) = some a := by
  induction l with
  | nil => cases ha
  | cons b rest ih =>
    rw [List.map_cons, List.nodup_cons] at hkeys
    rw [findKey_cons]
    obtain rfl | hrest := List.mem_cons.mp ha
    · rw [if_pos rfl]
    · have hne : key b ≠ key a := by
        intro heq
        exact hkeys.1 (heq ▸ List.mem_map_of_mem hrest)
      rw [if_neg hne]
      exact ih hkeys.2 hrest

theorem findKey_replaceFirst_self (h : findKey key l (key a) = some b) :
    findKey key (replaceFirst key a l) (key a) = some a := by
  induction l with
  | nil => cases h
  | cons c rest ih =>
    rw [findKey_cons] at h
    rw [replaceFirst]
    by_cases hc : key c = key a
    · rw [if_pos hc, findKey_cons, if_pos rfl]
    · rw [if_neg hc] at h ⊢
      rw [findKey_cons, if_neg hc]
      exact ih h

theorem findKey_replaceFirst_of_ne (hne : key a ≠ k) :
    findKey key (replaceFirst key a l) k = findKey key l k := by
  induction l with
  | nil => rfl
  | cons c rest ih =>
    rw [replaceFirst]
    by_cases hc : key c = key a
    · have hck : key c ≠ k := fun h => hne (hc.symm.trans h)
      rw [if_pos hc, findKey_cons, findKey_cons, if_neg hne, if_neg hck]
    · rw [if_neg hc, findKey_cons, findKey_cons, ih]

theorem replaceFirst_of_none (h : findKey key l (key a) = none) : replaceFirst key a l = l := by
  induction l with
  | nil => rfl
  | cons c rest ih =>
    rw [findKey_cons] at h
    by_cases hc : key c = key a
    · rw [if_pos hc] at h
      cases h
    · rw [if_neg hc] at h
      rw [replaceFirst, if_neg hc, ih h]

theorem map_replaceFirst (key : α → κ) (a : α) (l : List α) :
    (replaceFirst key a l).map key = l.map key := by
  induction l with
  | nil => rfl
  | cons c rest ih =>
    rw [replaceFirst]
    split
    · rename_i hc
      rw [List.map_cons, List.map_cons, hc]
    · rw [List.map_cons, List.map_cons, ih]

theorem exists_findKey_replaceFirst :
    (∃ b, findKey key (replaceFirst key a l) k = some b) ↔ ∃ b, findKey key l k = some b := by
  by_cases hk : key a = k
  · subst hk
    cases hb : findKey key l (key a) with
    | none => rw [replaceFirst_of_none hb, hb]
    | some b =>
      rw [findKey_replaceFirst_self hb]
      exact iff_of_true ⟨a, rfl⟩ ⟨b, rfl⟩
  · rw [findKey_replaceFirst_of_ne hk]

theorem replaceFirst_eq_self_iff :
    replaceFirst key a l = l ↔ ∀ b, findKey key l (key a) = some b → b = a := by
  constructor
  · intro h b hb
    have hself := findKey_replaceFirst_self hb
    rw [h, hb] at hself
    exact Option.some.inj hself
  · intro h
    induction l with
    | nil => rfl
    | cons c rest ih =>
      have hcons := findKey_cons key c rest (key a)
      rw [replaceFirst]
      by_cases hc : key c = key a
      · rw [if_pos hc] at hcons ⊢
        rw [h c hcons]
      · rw [if_neg hc] at hcons ⊢
        rw [ih fun b hb => h b (hcons.trans hb)]

theorem mem_of_mem_replaceFirst (h : b ∈ replaceFirst key a l) : b = a ∨ b ∈ l := by
  induction l with
  | nil => cases h
  | cons c rest ih =>
    rw [replaceFirst] at h
    split at h
    · rw [List.mem_cons] at h ⊢
      exact h.imp id .inr
    · rw [List.mem_cons] at h ⊢
      obtain rfl | hrest := h
      · exact .inr (.inl rfl)
      · exact (ih hrest).imp id .inr

theorem mem_replaceFirst_iff : a ∈ replaceFirst key a l ↔ ∃ b, findKey key l (key a) = some b := by
  constructor
  · intro hmem
    cases hb : findKey key l (key a) with
    | some b => exact ⟨b, rfl⟩
    | none =>
      rw [replaceFirst_of_none hb] at hmem
      have hnone := List.find?_eq_none.mp hb a hmem
      simp at hnone
  · intro h
    obtain ⟨b, hb⟩ := h
    exact List.mem_of_find?_eq_some (findKey_replaceFirst_self hb)

end SeamlessStack.Lib
