import Mathlib.Tactic
import Mathlib.Data.List.TakeWhile
import Mathlib.Data.Nat.Digits.Defs

/-! Printed numerals: which characters they are made of, and when a decimal numeral is a hexadecimal
one. Fields that a character separates. -/
namespace SeamlessStack.Lib

theorem append_separator_inj {α : Type*} {c : α} {a a' b b' : List α} (ha : c ∉ a) (ha' : c ∉ a') :
    a ++ c :: b = a' ++ c :: b' ↔ a = a' ∧ b = b' := by
  constructor
  · intro h
    induction a generalizing a' with
    | nil => cases a' with
      | nil => exact ⟨rfl, (List.cons.inj h).2⟩
      | cons x a' =>
        rw [(List.cons.inj h).1] at ha'
        exact absurd List.mem_cons_self ha'
    | cons x a ih => cases a' with
      | nil =>
        rw [(List.cons.inj h).1] at ha
        exact absurd List.mem_cons_self ha
      | cons y a' =>
        obtain ⟨hx, htail⟩ := List.cons.inj h
        rw [List.mem_cons, not_or] at ha ha'
        obtain ⟨hinit, hrest⟩ := ih ha.2 ha'.2 htail
        rw [hx, hinit]
        exact ⟨rfl, hrest⟩
  · rintro ⟨rfl, rfl⟩
    rfl

/-- With one separator: the first field that is not empty, and what is left behind it. -/
def strtok {α : Type} [DecidableEq α] (sep : α) (s : List α) : Option (List α × List α) :=
  match s.dropWhile (· = sep) with
  | [] => none
  | c :: rest =>
    some ((c :: rest).takeWhile (· ≠ sep), ((c :: rest).dropWhile (· ≠ sep)).drop 1)

section Fields
variable {α : Type} [DecidableEq α] {sep : α} {s field rest : List α}

theorem strtok_eq_some (h : strtok sep s = some (field, rest)) : field ≠ [] ∧ sep ∉ field := by
  unfold strtok at h
  split at h
  · cases h
  · rename_i c tail hdrop
    obtain ⟨rfl, rfl⟩ := Prod.mk.inj (Option.some.inj h)
    have hc : c ≠ sep := by
      have hhead := List.head?_dropWhile_not (· = sep) s
      rw [hdrop] at hhead
      simpa using hhead
    refine ⟨by simp [hc], fun hmem => ?_⟩
    simpa using List.mem_takeWhile_imp hmem

theorem strtok_of_start (hne : field ≠ []) (hsep : sep ∉ field) (rest : List α) :
    strtok sep (field ++ rest) = some (field ++ rest.takeWhile (· ≠ sep),
      (rest.dropWhile (· ≠ sep)).drop 1) := by
  have hplain : ∀ c ∈ field, decide (c ≠ sep) = true := by
    intro c hc
    have : c ≠ sep := fun heq => hsep (heq ▸ hc)
    simpa using this
  obtain ⟨c, tail, rfl⟩ := List.exists_cons_of_ne_nil hne
  have hstart : (c :: tail ++ rest).dropWhile (· = sep) = c :: (tail ++ rest) :=
    List.dropWhile_cons_of_neg (by simpa using hplain c List.mem_cons_self)
  unfold strtok
  rw [hstart]
  dsimp only
  rw [← List.cons_append, List.takeWhile_append_of_pos hplain, List.dropWhile_append_of_pos hplain]

theorem strtok_field (hne : field ≠ []) (hsep : sep ∉ field) (rest : List α) :
    strtok sep (field ++ sep :: rest) = some (field, rest) := by
  rw [strtok_of_start hne hsep]
  simp

theorem strtok_last (hne : field ≠ []) (hsep : sep ∉ field) :
    strtok sep field = some (field, []) := by
  simpa using strtok_of_start hne hsep []

end Fields

theorem exists_digit_of_mem_toDigits {b n : ℕ} {c : Char} (hb : 1 < b) (hc : c ∈ b.toDigits n) :
    ∃ d < b, c = d.digitChar := by
  induction n using Nat.strongRecOn with
  | ind n ih =>
    rw [Nat.toDigits_eq_if hb] at hc
    split at hc
    · rename_i hn
      exact ⟨n, hn, List.mem_singleton.mp hc⟩
    · rename_i hn
      rw [List.mem_append, List.mem_singleton] at hc
      obtain hc | rfl := hc
      · exact ih (n / b) (Nat.div_lt_self (by omega) hb) hc
      · exact ⟨n % b, Nat.mod_lt n (by omega), rfl⟩

theorem notMem_toDigits {b n : ℕ} {c : Char} (hb : 1 < b) (hle : b ≤ 16)
    (hc : ∀ d < 16, c ≠ Nat.digitChar d) : c ∉ b.toDigits n := by
  intro hmem
  obtain ⟨d, hd, rfl⟩ := exists_digit_of_mem_toDigits hb hmem
  exact hc d (by omega) rfl

theorem digitChar_inj {c d : ℕ} (hc : c < 16) (hd : d < 16) (h : c.digitChar = d.digitChar) :
    c = d := by
  have hall : ∀ c < 16, ∀ d < 16, Nat.digitChar c = Nat.digitChar d → c = d := by decide
  exact hall c hc d hd h

theorem toDigits_ten_injective : Function.Injective (Nat.toDigits 10) := by
  intro m n h
  have hparsed := congrArg (fun digits => Nat.ofDigitChars 10 digits 0) h
  simpa using hparsed

def signedDecimal (x : ℤ) : List Char :=
  if x < 0 then '-' :: Nat.toDigits 10 x.natAbs else Nat.toDigits 10 x.natAbs

theorem signedDecimal_injective : Function.Injective signedDecimal := by
  have hminus : ∀ n, '-' ∉ Nat.toDigits 10 n := fun n =>
    notMem_toDigits (by decide) (by decide) (by decide)
  intro x y h
  unfold signedDecimal at h
  split at h <;> split at h
  · have := toDigits_ten_injective (List.cons.inj h).2
    omega
  · exact absurd (h ▸ List.mem_cons_self) (hminus _)
  · exact absurd (h ▸ List.mem_cons_self) (hminus _)
  · have := toDigits_ten_injective h
    omega

def isSpace (c : Char) : Bool := c = ' ' ∨ 9 ≤ c.toNat ∧ c.toNat ≤ 13

def skipSign : List Char → List Char
  | '-' :: s => s
  | '+' :: s => s
  | s => s

/-- With the base 10: the number at the start of a text, the nearest one that fits, and the text
behind it; a text without digits is not read. -/
def strtol (s : List Char) : ℤ × List Char :=
  let signed := s.dropWhile isSpace
  let digits := (skipSign signed).takeWhile Char.isDigit
  if digits = [] then (0, s)
  else
    let n : ℤ := Nat.ofDigitChars 10 digits 0
    (max (-2 ^ 63) (min (2 ^ 63 - 1) (if signed.head? = some '-' then -n else n)),
      (skipSign signed).dropWhile Char.isDigit)

theorem digit_of_mem_toDigits {n : ℕ} {c : Char} (h : c ∈ Nat.toDigits 10 n) :
    c.isDigit = true ∧ isSpace c = false ∧ c ≠ '-' ∧ c ≠ '+' := by
  have hall : ∀ d < 10, (Nat.digitChar d).isDigit = true ∧ isSpace (Nat.digitChar d) = false ∧
      Nat.digitChar d ≠ '-' ∧ Nat.digitChar d ≠ '+' := by decide
  obtain ⟨d, hd, rfl⟩ := exists_digit_of_mem_toDigits (by decide) h
  exact hall d hd

theorem takeWhile_toDigits (n : ℕ) :
    (Nat.toDigits 10 n).takeWhile Char.isDigit = Nat.toDigits 10 n ∧
      (Nat.toDigits 10 n).dropWhile Char.isDigit = [] :=
  ⟨List.takeWhile_eq_self_iff.mpr fun _ hc => (digit_of_mem_toDigits hc).1,
    List.dropWhile_eq_nil_iff.mpr fun _ hc => (digit_of_mem_toDigits hc).1⟩

theorem skipSign_toDigits (n : ℕ) : (Nat.toDigits 10 n).dropWhile isSpace = Nat.toDigits 10 n ∧
    skipSign (Nat.toDigits 10 n) = Nat.toDigits 10 n ∧
      (Nat.toDigits 10 n).head? ≠ some '-' := by
  obtain ⟨c, s, hcs⟩ := List.exists_cons_of_ne_nil (Nat.toDigits_ne_nil : Nat.toDigits 10 n ≠ [])
  have hmem : c ∈ Nat.toDigits 10 n := by
    rw [hcs]
    exact List.mem_cons_self
  obtain ⟨-, hspace, hminus, hplus⟩ := digit_of_mem_toDigits hmem
  rw [hcs]
  refine ⟨List.dropWhile_cons_of_neg (by simp [hspace]), ?_, by simpa using hminus⟩
  unfold skipSign
  split
  · exact absurd (List.cons.inj ‹_›).1 hminus
  · exact absurd (List.cons.inj ‹_›).1 hplus
  · rfl

/-- What `%d` prints is read back. -/
theorem strtol_signedDecimal {x : ℤ} (hmin : -2 ^ 63 ≤ x) (hmax : x ≤ 2 ^ 63 - 1) :
    strtol (signedDecimal x) = (x, []) := by
  obtain ⟨htake, hdrop⟩ := takeWhile_toDigits x.natAbs
  have hread : Nat.ofDigitChars 10 (Nat.toDigits 10 x.natAbs) 0 = x.natAbs :=
    Nat.ofDigitChars_ten_toDigits
  unfold signedDecimal strtol
  by_cases hneg : x < 0
  · have hspace : isSpace '-' = false := by decide
    simp only [if_pos hneg, List.dropWhile_cons, hspace, Bool.false_eq_true, if_false, skipSign,
      htake, hdrop, hread, if_neg Nat.toDigits_ne_nil, List.head?_cons, if_true]
    congr 1
    omega
  · obtain ⟨hblank, hsign, hminus⟩ := skipSign_toDigits x.natAbs
    simp only [if_neg hneg, hblank, hsign, htake, hdrop, hread, if_neg Nat.toDigits_ne_nil,
      if_neg hminus]
    congr 1
    omega

/-- Read as a hexadecimal numeral, a decimal numeral stands for more, unless it is one digit. -/
theorem le_of_toDigits_eq {m n : ℕ} (h : Nat.toDigits 10 m = Nat.toDigits 16 n) :
    m ≤ n ∧ (m = n → m < 10) := by
  induction m using Nat.strongRecOn generalizing n with
  | ind m ih =>
    rw [Nat.toDigits_eq_if (n := m) (by decide), Nat.toDigits_eq_if (n := n) (by decide)] at h
    split at h <;> split at h
    · rename_i hm hn
      have := digitChar_inj (by omega) hn (List.cons.inj h).1
      omega
    · have := congrArg List.length h
      simp at this
    · have := congrArg List.length h
      simp at this
    · rename_i hm hn
      obtain ⟨hinit, hlast⟩ := List.append_inj' h rfl
      have hlt : n % 16 < 16 := Nat.mod_lt n (by decide)
      have hdigit := digitChar_inj (by omega) hlt (List.cons.inj hlast).1
      have := ih (m / 10) (by omega) hinit
      omega

end SeamlessStack.Lib
