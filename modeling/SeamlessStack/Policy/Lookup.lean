import SeamlessStack.Lib.Numerals
import SeamlessStack.Policy.Table

/-! When `get_policy` finds what was submitted. The key of a submission lists the values in another
order and another base than the key of a lookup. -/
namespace SeamlessStack.Policy

open Lib

def Found (q : Query) (i : ℕ) (pi : PolicyInput) : Prop := pi.index = i ∧ pi.key = q.key i

instance (q : Query) (i : ℕ) : DecidablePred (Found q i) := fun pi =>
  inferInstanceAs (Decidable (pi.index = i ∧ pi.key = q.key i))

def Wanted (q : Query) (i : ℕ) (pi : PolicyInput) : Prop := pi = q.combination i

instance (q : Query) (i : ℕ) : DecidablePred (Wanted q i) := fun pi =>
  inferInstanceAs (Decidable (pi = q.combination i))

def Wins (p : ℕ → PolicyInput → Prop) (submitted : List PolicyInput) (n : ℕ) : Prop :=
  ∃ i < numBuckets, IsLatest (p i) submitted n ∧
    ∀ j, i < j → j < numBuckets → ∀ pi ∈ submitted, ¬ p j pi

/-- No submission is wanted or found, or the one that is wanted most is the one found first. -/
def Answered (submitted : List PolicyInput) (q : Query) : Prop :=
  (∀ pi ∈ submitted, ∀ i < numBuckets, ¬ Wanted q i pi ∧ ¬ Found q i pi) ∨
    ∃ n, Wins (Wanted q) submitted n ∧ Wins (Found q) submitted n

section
variable {submitted : List PolicyInput} {q : Query} {pi : PolicyInput}

theorem search_eq_some_iff_wins {p : ℕ → PolicyInput → Prop} [∀ i, DecidablePred (p i)] {n : ℕ} :
    searchDown (fun i => latest (p i) submitted) numBuckets = some n ↔ Wins p submitted n := by
  simp only [searchDown_eq_some, latest_eq_some, latest_eq_none, Wins]

theorem search_eq_none_iff {p : ℕ → PolicyInput → Prop} [∀ i, DecidablePred (p i)] :
    searchDown (fun i => latest (p i) submitted) numBuckets = none ↔
      ∀ i < numBuckets, ∀ pi ∈ submitted, ¬ p i pi := by
  simp only [searchDown_eq_none, latest_eq_none]

theorem getPolicy_eq_search {s : PolicyUse} (h : s.Kept) (q : Query) :
    (getPolicy s.table q).1 =
      searchDown (fun i => latest (Found q i) s.submitted) numBuckets := by
  rw [getPolicy_fst]
  simp only [h.pst]
  rfl

theorem policyFor_eq_search (submitted : List PolicyInput) (q : Query) :
    policyFor submitted q = searchDown (fun i => latest (Wanted q i) submitted) numBuckets := rfl

theorem search_agree_iff : searchDown (fun i => latest (Found q i) submitted) numBuckets =
    policyFor submitted q ↔ Answered submitted q := by
  rw [policyFor_eq_search]
  unfold Answered
  cases hw : searchDown (fun i => latest (Wanted q i) submitted) numBuckets with
  | none =>
    rw [search_eq_none_iff] at hw
    rw [search_eq_none_iff]
    constructor
    · intro hf
      exact Or.inl fun pi hpi i hi => ⟨hw i hi pi hpi, hf i hi pi hpi⟩
    · rintro (hnone | ⟨n, hwins, -⟩) i hi pi hpi
      · exact (hnone pi hpi i hi).2
      · obtain ⟨j, hj, hlatest, -⟩ := hwins
        obtain ⟨x, hx, hwant, -⟩ := hlatest.elem_eq hlatest
        exact absurd hwant (hw j hj x hx)
  | some n =>
    rw [search_eq_some_iff_wins] at hw
    rw [search_eq_some_iff_wins]
    constructor
    · intro hf
      exact Or.inr ⟨n, hw, hf⟩
    · rintro (hnone | ⟨m, hwins, hf⟩)
      · obtain ⟨j, hj, hlatest, -⟩ := hw
        obtain ⟨x, hx, hwant, -⟩ := hlatest.elem_eq hlatest
        exact absurd hwant (hnone x hx j hj).1
      · rw [← search_eq_some_iff_wins] at hw hwins
        rw [Option.some.inj (hw.symm.trans hwins)]
        exact hf

end

/-! For a path and a type without separators the keys can be taken apart again. -/

theorem notMem_decimal {c : Char} (hminus : c ≠ '-') (hc : ∀ d < 10, c ≠ Nat.digitChar d)
    (v : BitVec 32) : c ∉ decimal v := by
  have hdigits : ∀ n, c ∉ Nat.toDigits 10 n := by
    intro n hmem
    obtain ⟨d, hd, rfl⟩ := exists_digit_of_mem_toDigits (by decide) hmem
    exact hc d hd rfl
  unfold decimal
  split
  · rw [List.mem_cons, not_or]
    exact ⟨hminus, hdigits _⟩
  · exact hdigits _

theorem notMem_hex {c : Char} (hc : ∀ d < 16, c ≠ Nat.digitChar d) (v : BitVec 32) : c ∉ hex v :=
  notMem_toDigits (by decide) (by decide) hc

theorem hex_head (v : BitVec 32) : (hex v).head? ≠ some '*' := by
  intro h
  exact notMem_hex (by decide) v (List.mem_of_head? h)

theorem decimal_of_neg {v : BitVec 32} (h : v.toInt < 0) : '-' ∈ decimal v := by
  unfold decimal
  rw [if_pos h]
  exact List.mem_cons_self

theorem decimal_of_nonneg {v : BitVec 32} (h : ¬ v.toInt < 0) :
    decimal v = Nat.toDigits 10 v.toNat := by
  unfold decimal
  rw [if_neg h]
  congr 1
  have := BitVec.toInt_eq_toNat_cond v
  split at this <;> omega

theorem decimal_injective : Function.Injective decimal := by
  intro v w h
  have hint : v.toInt = w.toInt := signedDecimal_injective h
  exact BitVec.eq_of_toInt_eq hint

theorem decimal_eq_hex {v w : BitVec 32} (h : decimal v = hex w) :
    v.toNat ≤ w.toNat ∧ (v.toNat = w.toNat → v.toNat < 10) := by
  have hneg : ¬ v.toInt < 0 := by
    intro hlt
    exact notMem_hex (by decide) w (h ▸ decimal_of_neg hlt)
  rw [decimal_of_nonneg hneg] at h
  exact le_of_toDigits_eq h

theorem decimal_digit {v : BitVec 32} (h : v.toNat < 10) : decimal v = [v.toNat.digitChar] := by
  have hneg : ¬ v.toInt < 0 := by
    have := BitVec.toInt_eq_toNat_cond v
    split at this <;> omega
  rw [decimal_of_nonneg hneg, Nat.toDigits_of_lt_base h]

theorem hex_digit {v : BitVec 32} (h : v.toNat < 10) : hex v = [v.toNat.digitChar] :=
  Nat.toDigits_of_lt_base (by omega)

/-- No separator stands in the path or the type, and the path is no pattern. -/
structure Query.Plain (q : Query) : Prop where
  path : '^' ∉ q.path
  ftype : '^' ∉ q.ftype
  star : q.path.head? ≠ some '*'

/-- The submission holds the values of the query in the places where the lookup has them. -/
structure Crossed (q : Query) (pi : PolicyInput) : Prop where
  fname : pi.fname = q.path ∨ pi.fname = ['*']
  ftype : pi.ftype = hex q.uid
  uid : decimal pi.uid = hex q.gid
  gid : decimal pi.gid = q.ftype
  group : pi.gid ≠ anyId

section
variable {submitted : List PolicyInput} {q : Query} {pi : PolicyInput} {i : ℕ}

theorem key_eq_iff (hq : q.Plain) : pi.key = q.key i ↔
    pi.fname = (q.combination i).fname ∧ pi.ftype = hex (q.combination i).uid ∧
      decimal pi.uid = hex (q.combination i).gid ∧ decimal pi.gid = (q.combination i).ftype := by
  have hfname : '^' ∉ (q.combination i).fname := by
    unfold Query.combination Query.pick
    dsimp only
    split
    · decide
    · exact hq.path
  have hftype : '^' ∉ (q.combination i).ftype := by
    unfold Query.combination Query.pick
    dsimp only
    split
    · decide
    · exact hq.ftype
  have hhex : ∀ v, '^' ∉ hex v := notMem_hex (by decide)
  have hdec : ∀ v, '^' ∉ decimal v := notMem_decimal (by decide) (by decide)
  unfold PolicyInput.key Query.key
  constructor
  · intro h
    have hcount := congrArg (List.count '^') h
    simp only [List.count_append, List.count_cons_self, List.count_eq_zero_of_not_mem (hhex _),
      List.count_eq_zero_of_not_mem (hdec _), List.count_eq_zero_of_not_mem hfname,
      List.count_eq_zero_of_not_mem hftype] at hcount
    have hpf : '^' ∉ pi.fname := List.count_eq_zero.mp (by omega)
    have hpt : '^' ∉ pi.ftype := List.count_eq_zero.mp (by omega)
    rwa [append_separator_inj hpf hfname, append_separator_inj hpt (hhex _),
      append_separator_inj (hdec _) (hhex _)] at h
  · rintro ⟨h₁, h₂, h₃, h₄⟩
    rw [h₁, h₂, h₃, h₄]

theorem combination_index (q : Query) (pi : PolicyInput) : q.combination pi.index =
    { fname := if pi.fname.head? = some '*' then ['*'] else q.path
      ftype := if pi.ftype.head? = some '*' then ['*'] else q.ftype
      uid := if pi.uid = anyId then anyId else q.uid
      gid := if pi.gid = anyId then anyId else q.gid } := by
  unfold PolicyInput.index
  by_cases h₁ : pi.fname.head? = some '*' <;> by_cases h₂ : pi.ftype.head? = some '*' <;>
    by_cases h₃ : pi.uid = anyId <;> by_cases h₄ : pi.gid = anyId <;>
    simp [h₁, h₂, h₃, h₄, Query.combination, Query.pick]

theorem index_of_concrete (htype : pi.ftype.head? ≠ some '*') (hgid : pi.gid ≠ anyId)
    (huid : pi.uid ≠ anyId) : pi.index = if pi.fname.head? = some '*' then 7 else 15 := by
  unfold PolicyInput.index
  rw [if_pos htype, if_pos hgid, if_pos huid]
  by_cases h : pi.fname.head? = some '*' <;> simp [h]

theorem decimal_anyId_ne (w : BitVec 32) : decimal anyId ≠ hex w := by
  intro h
  exact notMem_hex (by decide) w (h ▸ decimal_of_neg (by decide))

theorem decimal_ne_hex_anyId (v : BitVec 32) : decimal v ≠ hex anyId := by
  intro h
  have hf : 'f' ∈ hex anyId := by decide
  exact notMem_decimal (by decide) (by decide) v (h ▸ hf)

theorem Crossed.user (h : Crossed q pi) : pi.uid ≠ anyId := by
  intro hany
  exact decimal_anyId_ne q.gid (hany ▸ h.uid)

theorem Crossed.index_eq (hq : q.Plain) (h : Crossed q pi) :
    pi.index = if pi.fname = ['*'] then 7 else 15 := by
  rw [index_of_concrete (h.ftype ▸ hex_head q.uid) h.group h.user]
  obtain hpath | hstar := h.fname
  · have hne : pi.fname ≠ ['*'] := by
      intro hstar
      exact hq.star (by rw [← hpath, hstar]; rfl)
    rw [if_neg hne, if_neg (hpath ▸ hq.star)]
  · rw [hstar]
    rfl

theorem found_iff_crossed (hq : q.Plain) : Found q i pi ↔ Crossed q pi ∧ pi.index = i := by
  constructor
  · rintro ⟨rfl, hkey⟩
    rw [key_eq_iff hq, combination_index] at hkey
    obtain ⟨hfname, hftype, huid, hgid⟩ := hkey
    dsimp only at hfname hftype huid hgid
    have htype : ¬ pi.ftype.head? = some '*' := by
      rw [hftype]
      exact hex_head _
    have hgroup : pi.gid ≠ anyId := by
      intro hany
      rw [if_pos hany] at huid
      exact decimal_ne_hex_anyId _ huid
    rw [if_neg hgroup] at huid
    have huser : pi.uid ≠ anyId := by
      intro hany
      exact decimal_anyId_ne q.gid (hany ▸ huid)
    rw [if_neg huser] at hftype
    rw [if_neg htype] at hgid
    refine ⟨⟨?_, hftype, huid, hgid, hgroup⟩, rfl⟩
    split at hfname
    · exact Or.inr hfname
    · exact Or.inl hfname
  · rintro ⟨h, rfl⟩
    refine ⟨rfl, ?_⟩
    have htype : ¬ pi.ftype.head? = some '*' := by
      rw [h.ftype]
      exact hex_head _
    rw [key_eq_iff hq, combination_index]
    dsimp only
    rw [if_neg h.user, if_neg h.group, if_neg htype]
    refine ⟨?_, h.ftype, h.uid, h.gid⟩
    obtain hpath | hstar := h.fname
    · rw [hpath, if_neg hq.star]
    · rw [hstar]
      rfl

/-- The one kind of query that builds the key of a submission with its own values. -/
structure Query.Digit (q : Query) : Prop where
  gid : q.gid = q.uid
  lt : q.uid.toNat < 10
  ftype : q.ftype = [q.uid.toNat.digitChar]

instance (q : Query) : Decidable q.Digit :=
  decidable_of_iff (q.gid = q.uid ∧ q.uid.toNat < 10 ∧ q.ftype = [q.uid.toNat.digitChar])
    ⟨fun h => ⟨h.1, h.2.1, h.2.2⟩, fun h => ⟨h.gid, h.lt, h.ftype⟩⟩

theorem pick_cases {α : Type} (bit : ℕ) (wild concrete : α) :
    Query.pick bit wild concrete = wild ∨ Query.pick bit wild concrete = concrete := by
  unfold Query.pick
  split
  · exact Or.inl rfl
  · exact Or.inr rfl

theorem digit_of_wanted (hw : Wanted q i pi) (h : Crossed q pi) : q.Digit := by
  have huid : pi.uid = q.uid := by
    refine (pick_cases (i >>> 2 &&& 1) anyId q.uid).elim ?_ ?_
    · intro hany
      exact absurd (hw ▸ hany) h.user
    · intro hsame
      exact hw ▸ hsame
  have hgid : pi.gid = q.gid := by
    refine (pick_cases (i >>> 1 &&& 1) anyId q.gid).elim ?_ ?_
    · intro hany
      exact absurd (hw ▸ hany) h.group
    · intro hsame
      exact hw ▸ hsame
  have hftype : pi.ftype = q.ftype := by
    refine (pick_cases (i &&& 1) ['*'] q.ftype).elim ?_ ?_
    · intro hstar
      have hstar : pi.ftype = ['*'] := hw ▸ hstar
      exact absurd (congrArg List.head? (h.ftype.symm.trans hstar)) (hex_head _)
    · intro hsame
      exact hw ▸ hsame
  have hug : decimal q.uid = hex q.gid := huid ▸ h.uid
  have hgu : decimal q.gid = hex q.uid := by
    rw [← hgid, h.gid, ← hftype, h.ftype]
  have h₁ := decimal_eq_hex hug
  have h₂ := decimal_eq_hex hgu
  have hlt : q.uid.toNat < 10 := h₁.2 (by omega)
  refine ⟨BitVec.eq_of_toNat_eq (by omega), hlt, ?_⟩
  rw [← hftype, h.ftype, hex_digit hlt]

theorem crossed_iff_of_digit (hd : q.Digit) :
    Crossed q pi ↔ pi = q.combination 15 ∨ pi = q.combination 7 := by
  have hgid : decimal q.uid = hex q.gid := by
    rw [hd.gid, decimal_digit hd.lt, hex_digit hd.lt]
  have hftype : decimal q.gid = q.ftype := by
    rw [hd.gid, decimal_digit hd.lt, hd.ftype]
  have hhex : hex q.uid = q.ftype := by
    rw [hex_digit hd.lt, hd.ftype]
  have hany : q.gid ≠ anyId := by
    intro hany
    exact decimal_anyId_ne q.uid (by rw [← hany, hftype, hhex])
  have h15 : q.combination 15 = ⟨q.path, q.ftype, q.uid, q.gid⟩ := rfl
  have h7 : q.combination 7 = ⟨['*'], q.ftype, q.uid, q.gid⟩ := rfl
  rw [h15, h7]
  constructor
  · intro h
    have huid : pi.uid = q.uid := decimal_injective (h.uid.trans hgid.symm)
    have hpgid : pi.gid = q.gid := decimal_injective (h.gid.trans hftype.symm)
    have hptype : pi.ftype = q.ftype := h.ftype.trans hhex
    obtain ⟨fname, ftype, uid, gid⟩ := pi
    dsimp only at huid hpgid hptype
    subst huid hpgid hptype
    obtain rfl | rfl := h.fname
    · exact Or.inl rfl
    · exact Or.inr rfl
  · rintro (rfl | rfl)
    · exact ⟨Or.inl rfl, hhex.symm, hgid, hftype, hany⟩
    · exact ⟨Or.inr rfl, hhex.symm, hgid, hftype, hany⟩

end

/-- What `Answered` comes to for a plain query. -/
def PlainAnswered (submitted : List PolicyInput) (q : Query) : Prop :=
  if q.Digit then
    q.combination 15 ∈ submitted ∨
      ((∀ i, 8 ≤ i → i < 15 → q.combination i ∉ submitted) ∧
        (q.combination 7 ∈ submitted ∨ ∀ i < 7, q.combination i ∉ submitted))
  else (∀ i < numBuckets, q.combination i ∉ submitted) ∧ ∀ pi ∈ submitted, ¬ Crossed q pi

section
variable {submitted : List PolicyInput} {q : Query} {pi : PolicyInput} {i : ℕ}

theorem found_iff_of_digit (hq : q.Plain) (hd : q.Digit) : Found q i pi ↔
    pi = q.combination 15 ∧ i = 15 ∨ pi = q.combination 7 ∧ i = 7 := by
  rw [found_iff_crossed hq]
  constructor
  · rintro ⟨h, rfl⟩
    have hindex := h.index_eq hq
    obtain rfl | rfl := (crossed_iff_of_digit hd).mp h
    · refine Or.inl ⟨rfl, ?_⟩
      rw [hindex, if_neg]
      intro hstar
      exact hq.star (congrArg List.head? hstar)
    · exact Or.inr ⟨rfl, hindex⟩
  · rintro (⟨rfl, rfl⟩ | ⟨rfl, rfl⟩)
    · have h := (crossed_iff_of_digit hd).mpr (Or.inl rfl)
      refine ⟨h, (h.index_eq hq).trans (if_neg ?_)⟩
      intro hstar
      exact hq.star (congrArg List.head? hstar)
    · have h := (crossed_iff_of_digit hd).mpr (Or.inr rfl)
      exact ⟨h, h.index_eq hq⟩

theorem combination_ne (hq : q.Plain) (hi : 8 ≤ i) (hlt : i < numBuckets) :
    q.combination 7 ≠ q.combination i := by
  intro h
  have hpath : (q.combination i).fname = q.path := by
    unfold numBuckets at hlt
    interval_cases i <;> rfl
  have hstar : ['*'] = (q.combination i).fname := congrArg PolicyInput.fname h
  rw [hpath] at hstar
  exact hq.star (congrArg List.head? hstar.symm)

theorem exists_isLatest {p : PolicyInput → Prop} [DecidablePred p] (hpi : pi ∈ submitted)
    (h : p pi) : ∃ n, IsLatest p submitted n := by
  cases hn : latest p submitted with
  | none => exact absurd h (latest_eq_none.mp hn pi hpi)
  | some n => exact ⟨n, latest_eq_some.mp hn⟩

theorem answered_of_bucket (hi : i < numBuckets) (hmem : q.combination i ∈ submitted)
    (hsame : ∀ pi, Found q i pi ↔ Wanted q i pi)
    (habove : ∀ j, i < j → j < numBuckets → ∀ pi ∈ submitted, ¬ Wanted q j pi ∧ ¬ Found q j pi) :
    Answered submitted q := by
  obtain ⟨n, hn⟩ := exists_isLatest (p := Wanted q i) hmem rfl
  have hfound : Found q i = Wanted q i := funext fun pi => propext (hsame pi)
  refine Or.inr ⟨n, ⟨i, hi, hn, ?_⟩, ⟨i, hi, hfound ▸ hn, ?_⟩⟩
  · intro j hij hj pi hpi
    exact (habove j hij hj pi hpi).1
  · intro j hij hj pi hpi
    exact (habove j hij hj pi hpi).2

theorem answered_iff_of_digit (hq : q.Plain) (hd : q.Digit) : Answered submitted q ↔
    q.combination 15 ∈ submitted ∨
      ((∀ i, 8 ≤ i → i < 15 → q.combination i ∉ submitted) ∧
        (q.combination 7 ∈ submitted ∨ ∀ i < 7, q.combination i ∉ submitted)) := by
  have hfound : ∀ i pi, Found q i pi ↔
      pi = q.combination 15 ∧ i = 15 ∨ pi = q.combination 7 ∧ i = 7 := fun i pi =>
    found_iff_of_digit hq hd
  constructor
  · rintro (hnone | ⟨n, ⟨i, hi, hwanted, habove⟩, ⟨j, -, hmet, -⟩⟩)
    · refine Or.inr ⟨?_, Or.inr ?_⟩
      · intro i _ hi hmem
        exact (hnone _ hmem i (by unfold numBuckets; omega)).1 rfl
      · intro i hi hmem
        exact (hnone _ hmem i (by unfold numBuckets; omega)).1 rfl
    · obtain ⟨x, hx, hwant, hf⟩ := hwanted.elem_eq hmet
      rw [hfound] at hf
      obtain ⟨rfl, -⟩ | ⟨rfl, -⟩ := hf
      · exact Or.inl hx
      · have hle : i ≤ 7 := by
          by_contra hgt
          exact combination_ne hq (by omega) hi hwant
        refine Or.inr ⟨?_, Or.inl hx⟩
        intro k hk hlt hmem
        exact habove k (by omega) (by unfold numBuckets; omega) _ hmem rfl
  · intro h
    by_cases h15 : q.combination 15 ∈ submitted
    · apply answered_of_bucket (i := 15) (by decide) h15
      · intro pi
        rw [hfound]
        simp [Wanted]
      · intro j hj hlt
        unfold numBuckets at hlt
        omega
    · obtain ⟨hhigh, hlow⟩ := h.resolve_left h15
      have hnot : ∀ j, 7 < j → j < numBuckets → ∀ pi ∈ submitted,
          ¬ Wanted q j pi ∧ ¬ Found q j pi := by
        intro j hj hlt pi hpi
        unfold numBuckets at hlt
        refine ⟨?_, ?_⟩
        · intro hw
          rw [show pi = q.combination j from hw] at hpi
          obtain rfl | hne := eq_or_ne j 15
          · exact h15 hpi
          · exact hhigh j (by omega) (by omega) hpi
        · intro hf
          rw [hfound] at hf
          obtain ⟨rfl, -⟩ | ⟨-, rfl⟩ := hf
          · exact h15 hpi
          · omega
      by_cases h7 : q.combination 7 ∈ submitted
      · apply answered_of_bucket (i := 7) (by decide) h7
        · intro pi
          rw [hfound]
          simp [Wanted]
        · exact hnot
      · refine Or.inl ?_
        intro pi hpi j hj
        obtain hgt | hle := Nat.lt_or_ge 7 j
        · exact hnot j hgt hj pi hpi
        · refine ⟨?_, ?_⟩
          · intro hw
            rw [show pi = q.combination j from hw] at hpi
            obtain rfl | hne := eq_or_ne j 7
            · exact h7 hpi
            · exact (hlow.resolve_left h7) j (by omega) hpi
          · intro hf
            rw [hfound] at hf
            obtain ⟨rfl, -⟩ | ⟨rfl, -⟩ := hf
            · exact h15 hpi
            · exact h7 hpi

theorem plainAnswered_iff (hq : q.Plain) :
    Answered submitted q ↔ PlainAnswered submitted q := by
  unfold PlainAnswered
  split
  · rename_i hd
    exact answered_iff_of_digit hq hd
  · rename_i hd
    constructor
    · rintro (hnone | ⟨n, ⟨i, -, hwanted, -⟩, ⟨j, -, hmet, -⟩⟩)
      · refine ⟨?_, ?_⟩
        · intro i hi hmem
          exact (hnone _ hmem i hi).1 rfl
        · intro pi hpi hcrossed
          exact (hnone pi hpi pi.index pi.index_lt).2 ((found_iff_crossed hq).mpr ⟨hcrossed, rfl⟩)
      · obtain ⟨x, -, hwant, hf⟩ := hwanted.elem_eq hmet
        exact absurd (digit_of_wanted hwant ((found_iff_crossed hq).mp hf).1) hd
    · rintro ⟨hwanted, hcrossed⟩
      refine Or.inl ?_
      intro pi hpi i hi
      refine ⟨?_, ?_⟩
      · intro hw
        exact hwanted i hi ((show pi = q.combination i from hw) ▸ hpi)
      · intro hf
        exact hcrossed pi hpi ((found_iff_crossed hq).mp hf).1

end

/-- A lookup is right exactly if the keys lead it to the submission that is wanted most: without
separators, only for queries whose ids are one digit and whose type is this digit, and those about
which nothing was submitted. -/
theorem getPolicy_iff {s : PolicyUse} (hr : policySystem.Reach System.AnyStep s) (q : Query) :
    ((getPolicy s.table q).1 = policyFor s.submitted q ↔ Answered s.submitted q) ∧
      (q.Plain → (Answered s.submitted q ↔ PlainAnswered s.submitted q)) := by
  rw [getPolicy_eq_search (reach_kept hr)]
  exact ⟨search_agree_iff, plainAnswered_iff⟩

/-- User 5 in group 5 and a file of type `5`, with one submission for them. -/
theorem getPolicy_iff_digit : ∃ s, policySystem.Reach System.AnyStep s ∧
    (getPolicy s.table ⟨['/'], ['5'], 5, 5⟩).1 = some 0 := by
  have hrun : ∃ s, policySystem.run System.AnyStep ⟨⟨true, fun _ _ => none, fun _ => 0, 0⟩, []⟩
      [⟨⟨['/'], ['5'], 5, 5⟩, true, true, true⟩] = some s ∧
      s.submitted = [⟨['/'], ['5'], 5, 5⟩] := ⟨_, rfl, rfl⟩
  obtain ⟨s, hs, hsubmitted⟩ := hrun
  have hr : policySystem.Reach System.AnyStep s := .run (.init ⟨_, rfl⟩) hs
  obtain ⟨hanswer, hplain⟩ := getPolicy_iff hr ⟨['/'], ['5'], 5, 5⟩
  refine ⟨s, hr, ?_⟩
  have hp : Query.Plain ⟨['/'], ['5'], 5, 5⟩ := ⟨by decide, by decide, by decide⟩
  have hd : Query.Digit ⟨['/'], ['5'], 5, 5⟩ := ⟨rfl, by decide, rfl⟩
  have hok : PlainAnswered s.submitted ⟨['/'], ['5'], 5, 5⟩ := by
    unfold PlainAnswered
    rw [if_pos hd, hsubmitted]
    exact Or.inl (by decide)
  rw [hanswer.mpr ((hplain hp).mpr hok), hsubmitted]
  decide

/-- One policy for every file and user, and a file of type `text`: nothing is found. -/
theorem getPolicy_misses : ∃ s, policySystem.Reach System.AnyStep s ∧
    policyFor s.submitted ⟨['/', 'a'], ['t', 'e', 'x', 't'], 1000, 1000⟩ = some 0 ∧
    (getPolicy s.table ⟨['/', 'a'], ['t', 'e', 'x', 't'], 1000, 1000⟩).1 = none := by
  refine System.exists_reach (s := ⟨⟨true, fun _ _ => none, fun _ => 0, 0⟩, []⟩)
    [⟨⟨['*'], ['*'], anyId, anyId⟩, true, true, true⟩] ⟨_, rfl⟩ ⟨_, rfl, ?_, ?_⟩
  · decide
  · decide +kernel

end SeamlessStack.Policy
