import Mathlib.Tactic

/-! Functions that leave at many places and keep a log. A rule for each way to go on or to leave
says what holds of the log at every exit. -/
namespace SeamlessStack.Lib

/-- How a function ends: with a value, with an access that the machine stops, or not yet. -/
inductive Exit
  | returned (ret : ℤ)
  | crashed
  | running
  deriving DecidableEq, Repr

def Body (ω α : Type) : Type := List ω → Except Exit α × List ω

namespace Body
variable {ω α β σ : Type}

def andThen (b : Body ω α) (f : α → Body ω β) : Body ω β := fun l =>
  match b l with
  | (.ok a, l') => f a l'
  | (.error e, l') => (.error e, l')

instance : Monad (Body ω) where
  pure a := fun l => (.ok a, l)
  bind := andThen

def stop (e : Exit) : Body ω α := fun l => (.error e, l)

def log (ops : List ω) : Body ω Unit := fun l => (.ok (), l ++ ops)

def leave (ops : List ω) (ret : ℤ) : Body ω α := do
  log ops
  stop (.returned ret)

def exitIf (p : Prop) [Decidable p] (ops : List ω) (ret : ℤ) : Body ω Unit :=
  if p then leave ops ret else pure ()

def crashIf (p : Prop) [Decidable p] : Body ω Unit := if p then stop .crashed else pure ()

/-- Take turns while the state says so, for as many turns as there is fuel. -/
def turns (more : σ → Bool) (turn : ℕ → σ → Body ω σ) : ℕ → ℕ → σ → Body ω σ
  | 0, _, s => if more s then stop .running else pure s
  | fuel + 1, i, s =>
    if more s then do
      let s ← turn i s
      turns more turn fuel (i + 1) s
    else pure s

/-! ### What a piece does to the log -/

@[simp] theorem pure_apply (a : α) (l : List ω) : (pure a : Body ω α) l = (.ok a, l) := rfl

@[simp] theorem stop_apply (e : Exit) (l : List ω) : (stop e : Body ω α) l = (.error e, l) := rfl

@[simp] theorem log_apply (ops l : List ω) : log ops l = (.ok (), l ++ ops) := rfl

@[simp] theorem leave_apply (ops l : List ω) (ret : ℤ) :
    (leave ops ret : Body ω α) l = (.error (.returned ret), l ++ ops) := rfl

@[simp] theorem pure_bind (a : α) (f : α → Body ω β) : (pure a >>= f) = f a := rfl

theorem log_bind (ops l : List ω) (f : Unit → Body ω β) : (log ops >>= f) l = f () (l ++ ops) := rfl

section
variable {p : Prop} [Decidable p]

theorem exitIf_bind (ops : List ω) (ret : ℤ) (f : Unit → Body ω β) :
    (exitIf p ops ret >>= f) = if p then leave ops ret else f () := by
  unfold exitIf
  split_ifs <;> rfl

theorem crashIf_bind (f : Unit → Body ω β) :
    (crashIf p >>= f) = if p then stop .crashed else f () := by
  unfold crashIf
  split_ifs <;> rfl

end

/-- A loop whose turns do not leave ends with fuel whenever another description of it does. -/
theorem turns_of_pure {more : σ → Bool} {turn : ℕ → σ → Body ω σ} {f : σ → σ}
    (ends : ℕ → σ → Prop) (hturn : ∀ i s, turn i s = pure (f s))
    (hzero : ∀ s, ends 0 s ↔ more s = false)
    (hsucc : ∀ fuel s, ends (fuel + 1) s ↔ more s = false ∨ ends fuel (f s))
    (fuel i : ℕ) (s : σ) (l : List ω) :
    (∃ s', turns more turn fuel i s l = (.ok s', l)) ↔ ends fuel s := by
  induction fuel generalizing i s with
  | zero =>
    rw [hzero]
    unfold turns
    cases more s <;> simp
  | succ fuel ih =>
    rw [hsucc]
    unfold turns
    cases hs : more s with
    | true => rw [if_pos rfl, hturn, pure_bind, ih, or_iff_right (by decide)]
    | false => exact iff_of_true ⟨s, rfl⟩ (Or.inl rfl)

/-! ### Pre- and postconditions -/

/-- From a log with `P` the piece goes on with one with `Q`, or leaves with one with `E`. -/
def Meets (P : List ω → Prop) (b : Body ω α) (Q : α → List ω → Prop)
    (E : Exit → List ω → Prop) : Prop :=
  ∀ l, P l → (∀ a l', b l = (.ok a, l') → Q a l') ∧ ∀ e l', b l = (.error e, l') → E e l'

section Rules
variable {P : List ω → Prop} {Q : α → List ω → Prop} {R : β → List ω → Prop}
  {E : Exit → List ω → Prop} {b : Body ω α} {f : α → Body ω β} {e : Exit}

theorem Meets.pure {a : α} (h : ∀ l, P l → Q a l) : Meets P (pure a) Q E := by
  intro l hl
  refine ⟨?_, ?_⟩
  · rintro _ _ ⟨⟩
    exact h l hl
  · rintro _ _ ⟨⟩

theorem Meets.stop (h : ∀ l, P l → E e l) : Meets P (stop e) Q E := by
  intro l hl
  refine ⟨?_, ?_⟩
  · rintro _ _ ⟨⟩
  · rintro _ _ ⟨⟩
    exact h l hl

variable {ops : List ω} {ret : ℤ}

theorem Meets.leave (h : ∀ l, P l → E (.returned ret) (l ++ ops)) :
    Meets P (leave ops ret) Q E := by
  intro l hl
  refine ⟨?_, ?_⟩
  · rintro _ _ ⟨⟩
  · rintro _ _ ⟨⟩
    exact h l hl

theorem Meets.bind (hb : Meets P b Q E) (hf : ∀ a, Meets (Q a) (f a) R E) :
    Meets P (b >>= f) R E := by
  intro l hl
  obtain ⟨hok, hexit⟩ := hb l hl
  have hbind : (b >>= f) l = andThen b f l := rfl
  rw [hbind, andThen]
  rcases hrun : b l with ⟨a | a, l'⟩
  · refine ⟨?_, ?_⟩
    · rintro _ _ ⟨⟩
    · rintro _ _ ⟨⟩
      exact hexit a l' hrun
  · exact hf a l' (hok a l' hrun)

variable {g : Unit → Body ω β}

theorem Meets.log_bind (P' : List ω → Prop) (h : ∀ l, P l → P' (l ++ ops))
    (hg : Meets P' (g ()) R E) : Meets P (log ops >>= g) R E :=
  fun l hl => hg (l ++ ops) (h l hl)

theorem Meets.exitIf_bind {p : Prop} [Decidable p]
    (h : p → ∀ l, P l → E (.returned ret) (l ++ ops)) (hg : ¬ p → Meets P (g ()) R E) :
    Meets P (exitIf p ops ret >>= g) R E := by
  rw [Body.exitIf_bind]
  split_ifs with hp
  · exact .leave (h hp)
  · exact hg hp

theorem Meets.exitIf {p : Prop} [Decidable p] (h : p → ∀ l, P l → E (.returned ret) (l ++ ops)) :
    Meets P (exitIf p ops ret) (fun _ => P) E := by
  unfold Body.exitIf
  split_ifs with hp
  · exact .leave (h hp)
  · exact .pure fun _ hl => hl

theorem Meets.crashIf_bind {p : Prop} [Decidable p] (h : p → ∀ l, P l → E .crashed l)
    (hg : ¬ p → Meets P (g ()) R E) :
    Meets P (crashIf p >>= g) R E := by
  rw [Body.crashIf_bind]
  split_ifs with hp
  · exact .stop (h hp)
  · exact hg hp

theorem Meets.turns {more : σ → Bool} {turn : ℕ → σ → Body ω σ}
    (hrunning : ∀ l, P l → E .running l) (hturn : ∀ i s, Meets P (turn i s) (fun _ => P) E)
    (fuel i : ℕ) (s : σ) : Meets P (turns more turn fuel i s) (fun _ => P) E := by
  induction fuel generalizing i s with
  | zero =>
    unfold Body.turns
    split_ifs
    · exact .stop hrunning
    · exact .pure fun _ hl => hl
  | succ fuel ih =>
    unfold Body.turns
    split_ifs
    · exact .bind (hturn i s) fun s => ih (i + 1) s
    · exact .pure fun _ hl => hl

end Rules

end Body
end SeamlessStack.Lib
