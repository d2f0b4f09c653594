import Mathlib.Logic.Basic

/-! Programs that may stop: what it means for a sequence of steps to go through. -/
namespace SeamlessStack.Lib

variable {ε α β : Type}

@[simp] theorem ok_bind (a : α) (f : α → Except ε β) : ((.ok a : Except ε α) >>= f) = f a := rfl

@[simp] theorem error_bind (e : ε) (f : α → Except ε β) :
    ((.error e : Except ε α) >>= f) = .error e := rfl

variable {x : Except ε α} {b : β}

theorem bind_eq_ok {f : α → Except ε β} :
    (x >>= f) = .ok b ↔ ∃ a, x = .ok a ∧ f a = .ok b := by
  cases x with
  | error e | ok a => simp [bind, Except.bind]

theorem unit_bind_eq_ok {x : Except ε Unit} {f : Unit → Except ε β} :
    (x >>= f) = .ok b ↔ x = .ok () ∧ f () = .ok b := by
  rw [bind_eq_ok]
  exact ⟨fun ⟨_, h⟩ => h, fun h => ⟨(), h⟩⟩

theorem toOption_eq_some {a : α} : x.toOption = some a ↔ x = .ok a := by
  cases x with
  | error e | ok b => simp [Except.toOption]

/-- The program goes through to its end. -/
def Returns (x : Except ε α) : Prop := ∃ a, x = .ok a

@[simp] theorem returns_ok (a : α) : Returns (.ok a : Except ε α) := ⟨a, rfl⟩

@[simp] theorem returns_pure (a : α) : Returns (pure a : Except ε α) := ⟨a, rfl⟩

@[simp] theorem not_returns_error (e : ε) : ¬ Returns (.error e : Except ε α) := by
  rintro ⟨a, h⟩
  cases h

@[simp] theorem returns_bind {f : α → Except ε β} :
    Returns (x >>= f) ↔ ∃ a, x = .ok a ∧ Returns (f a) := by
  constructor
  · rintro ⟨b, h⟩
    obtain ⟨a, ha, hb⟩ := bind_eq_ok.mp h
    exact ⟨a, ha, b, hb⟩
  · rintro ⟨a, ha, b, hb⟩
    exact ⟨b, bind_eq_ok.mpr ⟨a, ha, hb⟩⟩

def Ensures (x : Except ε α) (P : α → Prop) : Prop := ∀ a, x = .ok a → P a

section
variable {P : α → Prop} {Q : β → Prop}

theorem ensures_pure {a : α} (ha : P a) : Ensures (pure a : Except ε α) P := by
  rintro b hb
  cases hb
  exact ha

theorem ensures_error (e : ε) : Ensures (.error e : Except ε α) P := by
  rintro b hb
  cases hb

theorem ensures_bind {f : α → Except ε β} (h : ∀ a, Ensures (f a) Q) :
    Ensures (x >>= f) Q := by
  intro b hb
  obtain ⟨a, -, hfa⟩ := bind_eq_ok.mp hb
  exact h a b hfa

end

def require (p : Prop) [Decidable p] (e : ε) : Except ε Unit := if p then .ok () else .error e

section
variable {p : Prop} [Decidable p] {e : ε} {u : Unit}

theorem require_eq_ok : require p e = .ok u ↔ p := by
  unfold require
  split
  · rename_i hp
    exact ⟨fun _ => hp, fun _ => rfl⟩
  · rename_i hp
    refine iff_of_false ?_ hp
    intro h
    cases h

theorem require_bind_of (hp : p) (f : Unit → Except ε β) : (require p e >>= f) = f () := by
  unfold require
  rw [if_pos hp]
  rfl

theorem require_bind_eq_ok {f : Unit → Except ε β} :
    (require p e >>= f) = .ok b ↔ p ∧ f () = .ok b := by
  rw [unit_bind_eq_ok, require_eq_ok]

theorem require_bind_of_not (hp : ¬ p) (f : Unit → Except ε β) :
    (require p e >>= f) = .error e := by
  unfold require
  rw [if_neg hp]
  rfl

end

end SeamlessStack.Lib
