import Mathlib.Tactic

/-! Workers that read a list, put an element behind it in private, and write it back. Nothing is
lost exactly if nobody writes between a read and the write that follows. -/
namespace SeamlessStack.Lib.SharedLog

open Function

variable {ω α : Type}

/-- What is stored, and what each worker has read, with how many elements were written when it did.
`added` are all elements ever written; `overtaken`: a worker wrote after others wrote behind its
read. -/
structure State (ω α : Type) where
  stored : List α
  held : ω → Option (List α × ℕ)
  added : List α
  overtaken : Bool

section Steps
variable [DecidableEq ω]

def State.read (s : State ω α) (w : ω) : State ω α :=
  { s with held := update s.held w (some (s.stored, s.added.length)) }

def State.leave (s : State ω α) (w : ω) : State ω α :=
  { s with held := update s.held w none }

/-- The write of a worker that read `seen` when `version` elements had been written. -/
def State.append (s : State ω α) (w : ω) (a : α) (seen : List α) (version : ℕ) : State ω α where
  stored := seen ++ [a]
  held := update s.held w none
  added := s.added ++ [a]
  overtaken := s.overtaken || version != s.added.length

end Steps

/-- What holds along every run from a list `base`. -/
structure Traced (base : List α) (s : State ω α) : Prop where
  held : ∀ w seen version, s.held w = some (seen, version) →
    version ≤ s.added.length ∧ seen.length ≤ base.length + version
  kept : s.overtaken = false → s.stored = base ++ s.added ∧
    ∀ w seen version, s.held w = some (seen, version) → seen = base ++ s.added.take version
  lost : s.overtaken = true → s.stored.length < base.length + s.added.length ∧
    ∀ w seen, s.held w = some (seen, s.added.length) → seen.length < base.length + s.added.length

section
variable {base : List α} {s : State ω α} {w : ω} {a : α} {seen : List α} {version : ℕ}

theorem Traced.start (hheld : ∀ w, s.held w = none) (hadded : s.added = [])
    (hovertaken : s.overtaken = false) : Traced s.stored s where
  held w seen version h := by
    rw [hheld] at h
    cases h
  kept _ := by
    refine ⟨by rw [hadded, List.append_nil], ?_⟩
    intro w seen version h
    rw [hheld] at h
    cases h
  lost h := by
    rw [hovertaken] at h
    cases h

theorem Traced.stored_length (h : Traced base s) :
    s.stored.length ≤ base.length + s.added.length := by
  cases hovertaken : s.overtaken with
  | false => rw [(h.kept hovertaken).1, List.length_append]
  | true => exact (h.lost hovertaken).1.le

theorem Traced.stored_eq_iff (h : Traced base s) :
    s.stored = base ++ s.added ↔ s.overtaken = false := by
  constructor
  · intro hall
    by_contra hovertaken
    have hlost := (h.lost (Bool.eq_true_of_not_eq_false hovertaken)).1
    rw [hall, List.length_append] at hlost
    omega
  · intro hovertaken
    exact (h.kept hovertaken).1

variable [DecidableEq ω]

theorem held_of_update {f : ω → Option (List α × ℕ)} {v : ω}
    (h : update f w none v = some (seen, version)) : f v = some (seen, version) := by
  by_cases hv : v = w
  · rw [hv, update_self] at h
    cases h
  · rwa [update_of_ne hv] at h

theorem Traced.leave (h : Traced base s) (w : ω) : Traced base (s.leave w) where
  held _ _ _ hv := h.held _ _ _ (held_of_update hv)
  kept hkept := ⟨(h.kept hkept).1, fun _ _ _ hv => (h.kept hkept).2 _ _ _ (held_of_update hv)⟩
  lost hlost := ⟨(h.lost hlost).1, fun _ _ hv => (h.lost hlost).2 _ _ (held_of_update hv)⟩

theorem Traced.read (h : Traced base s) (w : ω) : Traced base (s.read w) := by
  -- what the worker holds is what is stored, and the others hold what they held
  have hcases : ∀ v seen version, (s.read w).held v = some (seen, version) →
      (seen = s.stored ∧ version = s.added.length) ∨ s.held v = some (seen, version) := by
    intro v seen version hv
    by_cases hvw : v = w
    · rw [hvw] at hv
      have hself : (s.read w).held w = some (s.stored, s.added.length) := update_self _ _ _
      rw [hself] at hv
      cases hv
      exact .inl ⟨rfl, rfl⟩
    · exact .inr ((update_of_ne hvw _ _).symm.trans hv)
  refine ⟨?_, ?_, ?_⟩
  · intro v seen version hv
    obtain ⟨rfl, rfl⟩ | hold := hcases v seen version hv
    · exact ⟨le_rfl, h.stored_length⟩
    · exact h.held v seen version hold
  · intro hkept
    refine ⟨(h.kept hkept).1, ?_⟩
    intro v seen version hv
    obtain ⟨rfl, rfl⟩ | hold := hcases v seen version hv
    · exact (h.kept hkept).1.trans (congrArg (base ++ ·) List.take_length.symm)
    · exact (h.kept hkept).2 v seen version hold
  · intro hlost
    refine ⟨(h.lost hlost).1, ?_⟩
    intro v seen hv
    obtain ⟨rfl, -⟩ | hold := hcases v seen _ hv
    · exact (h.lost hlost).1
    · exact (h.lost hlost).2 v seen hold

theorem Traced.append (h : Traced base s) (hw : s.held w = some (seen, version)) (a : α) :
    Traced base (s.append w a seen version) := by
  obtain ⟨hversion, hseen⟩ := h.held w seen version hw
  have hlength : (s.append w a seen version).added.length = s.added.length + 1 :=
    List.length_append
  refine ⟨?_, ?_, ?_⟩
  · intro v seen' version' hv
    obtain ⟨hle, hlen⟩ := h.held v seen' version' (held_of_update hv)
    exact ⟨by omega, hlen⟩
  · intro hkept
    obtain ⟨hbefore, hcurrent⟩ := Bool.or_eq_false_iff.mp hkept
    have hlatest : version = s.added.length := by simpa using hcurrent
    refine ⟨?_, ?_⟩
    · have hall : seen = base ++ s.added := by
        rw [(h.kept hbefore).2 w seen version hw, hlatest, List.take_length]
      change seen ++ [a] = base ++ (s.added ++ [a])
      rw [hall, List.append_assoc]
    · intro v seen' version' hv
      have hv' := held_of_update hv
      have htake : (s.added ++ [a]).take version' = s.added.take version' :=
        List.take_append_of_le_length (h.held v seen' version' hv').1
      exact ((h.kept hbefore).2 v seen' version' hv').trans (by rw [← htake]; rfl)
  · intro hlost
    have hshort : seen.length < base.length + s.added.length := by
      by_cases hlatest : version = s.added.length
      · have hbefore : s.overtaken = true := by
          rw [hlatest] at hlost
          simpa [State.append] using hlost
        exact (h.lost hbefore).2 w seen (hlatest ▸ hw)
      · omega
    refine ⟨?_, ?_⟩
    · have hstored : (s.append w a seen version).stored.length = seen.length + 1 :=
        List.length_append
      omega
    · intro v seen' hv
      -- nobody has read since
      have hle := (h.held v seen' _ (held_of_update hv)).1
      omega

end

end SeamlessStack.Lib.SharedLog
