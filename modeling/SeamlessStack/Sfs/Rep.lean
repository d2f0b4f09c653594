import Mathlib.Data.List.Destutter
import Mathlib.Data.List.SplitBy
import Mathlib.Tactic
import SeamlessStack.Lib.Except

/-! `rep`, which makes one slash out of each run of slashes, in place: the pointer `p` reads ahead
of the index `i`. -/
namespace SeamlessStack.Sfs.Rep
open Lib

/-- An access outside of the block that the path lies in, and a loop that is not over. -/
inductive Fault
  | outside
  | walks
  deriving DecidableEq, Repr

def load (mem : List UInt8) (p : ℕ) : Except Fault UInt8 :=
  match mem[p]? with
  | some c => .ok c
  | none => .error .outside

def store (mem : List UInt8) (i : ℤ) (c : UInt8) : Except Fault (List UInt8) := do
  require (0 ≤ i ∧ i < mem.length) .outside
  .ok (mem.set i.toNat c)

def increment (i : ℤ) : ℤ := (i + 1).bmod (2 ^ 32)

/-- The loop of `rep`, for at most `turns` turns. -/
def repLoop (slash : UInt8) : ℕ → List UInt8 → ℕ → ℤ → UInt8 → Except Fault (List UInt8)
  | 0, _, _, _, _ => .error .walks
  | turns + 1, mem, p, i, prevChar => do
    let c ← load mem p
    if c = 0 then .ok mem
    else do
      let c ← load mem (p + 1)
      if prevChar = slash ∧ c = slash then repLoop slash turns mem (p + 1) i prevChar
      else do
        let mem ← store mem (increment i) c
        let prevChar ← load mem (p + 1)
        repLoop slash turns mem (p + 1) (increment i) prevChar

def rep (mem : List UInt8) (slash : UInt8) : Except Fault (List UInt8) := do
  let prevChar ← load mem 0
  repLoop slash mem.length mem 0 0 prevChar

def runs (slash : UInt8) (s : List UInt8) : List (List UInt8) :=
  s.splitBy fun a b => a == slash && b == slash

def squeeze (slash : UInt8) (s : List UInt8) : List UInt8 := (runs slash s).flatMap (List.take 1)

/-- The path is squeezed, with nothing behind its terminator touched. Again changes nothing. -/
structure RepRight (s : List UInt8) (slash : UInt8) : Prop where
  once : ∃ rest, rep (s ++ [0]) slash = .ok (squeeze slash s ++ 0 :: rest)
  twice : ∀ mem, rep (s ++ [0]) slash = .ok mem →
    ∃ rest, rep mem slash = .ok (squeeze slash s ++ 0 :: rest)

section Squeeze
variable {slash : UInt8} {s : List UInt8}

def Apart (slash a b : UInt8) : Prop := ¬ (a = slash ∧ b = slash)

instance (slash a b : UInt8) : Decidable (Apart slash a b) :=
  inferInstanceAs (Decidable (¬ (a = slash ∧ b = slash)))

/-- The run being collected has its last character `a` before `g`; `gs` are earlier runs. -/
theorem flatMap_splitBy_loop (l : List UInt8) {a : UInt8} {g : List UInt8} (gs : List (List UInt8))
    (hg : ∀ b ∈ g, b = slash ∧ a = slash) :
    (List.splitBy.loop (fun a b => a == slash && b == slash) l a g gs).flatMap (List.take 1) =
      gs.reverse.flatMap (List.take 1) ++ l.destutter' (Apart slash) a := by
  have hfirst : ∀ {a : UInt8} {g : List UInt8}, (∀ b ∈ g, b = slash ∧ a = slash) →
      (g.reverse ++ [a]).take 1 = [a] := by
    intro a g hg
    rcases List.eq_nil_or_concat' g with rfl | ⟨g', b, rfl⟩
    · rfl
    · obtain ⟨hb, ha⟩ := hg b (by simp)
      simp [hb, ha]
  induction l generalizing a g gs with
  | nil => simp [List.splitBy.loop, hfirst hg]
  | cons b l ih =>
    by_cases hboth : a = slash ∧ b = slash
    · obtain ⟨rfl, rfl⟩ := hboth
      have hmore : ∀ c ∈ b :: g, c = b ∧ b = b := by
        intro c hc
        rcases List.mem_cons.mp hc with rfl | hc
        · exact ⟨rfl, rfl⟩
        · exact hg c hc
      rw [List.destutter'_cons_neg _ (by simp [Apart])]
      simpa [List.splitBy.loop] using ih gs hmore
    · have hnew := ih ((a :: g).reverse :: gs) (a := b) (g := []) (by simp)
      rw [List.destutter'_cons_pos _ hboth]
      have hsplit : (a == slash && b == slash) = false := by simpa using hboth
      rw [List.splitBy.loop, hsplit, hnew]
      simp [hfirst hg]

theorem squeeze_eq_destutter (slash : UInt8) (s : List UInt8) :
    squeeze slash s = s.destutter (Apart slash) := by
  cases s with
  | nil => rfl
  | cons a l => exact flatMap_splitBy_loop l [] (by simp)

theorem squeeze_squeeze : squeeze slash (squeeze slash s) = squeeze slash s := by
  simp only [squeeze_eq_destutter, List.destutter_idem]

theorem squeeze_subset : squeeze slash s ⊆ s := by
  rw [squeeze_eq_destutter]
  exact (List.destutter_sublist _ s).subset

theorem squeeze_of_notMem (h : slash ∉ s) : squeeze slash s = s := by
  have hpair : s.Pairwise (Apart slash) :=
    List.pairwise_of_forall_mem_list fun a ha _ _ hboth => h (hboth.1 ▸ ha)
  rw [squeeze_eq_destutter, List.destutter_of_isChain _ _ hpair.isChain]

end Squeeze

section Loop
variable {slash prevChar b c : UInt8} {out gap rest todo tail : List UInt8} {turns p : ℕ}

theorem load_append (front : List UInt8) (h : p = front.length) :
    load (front ++ c :: rest) p = .ok c := by
  simp [load, h]

theorem exists_concat_tail (gap : List UInt8) (b : UInt8) :
    ∃ w, b :: (gap ++ [b]).tail = w ++ [b] ∧ w.length = gap.length := by
  cases gap with
  | nil => exact ⟨[], rfl, rfl⟩
  | cons g gap => exact ⟨b :: gap, rfl, rfl⟩

theorem increment_length (hout : out.length + 1 < 2 ^ 31) :
    increment out.length = ((out.length + 1 : ℕ) : ℤ) := by
  unfold increment
  rw [Int.bmod_eq_of_le] <;> omega

theorem store_append (hout : out.length + 1 < 2 ^ 31) :
    store (out ++ prevChar :: (gap ++ b :: rest)) (increment out.length) b =
      .ok (out ++ prevChar :: (b :: (gap ++ [b]).tail ++ rest)) := by
  rw [store, increment_length hout, require_bind_of (by simp; omega), Int.toNat_natCast]
  have hset : (out ++ prevChar :: (gap ++ b :: rest)).set (out.length + 1) b =
      out ++ prevChar :: (gap ++ b :: rest).set 0 b := by
    rw [List.set_append_right _ _ (by omega), Nat.add_sub_cancel_left]
    rfl
  rw [hset]
  cases gap with
  | nil => rfl
  | cons g gap => simp

theorem store_overflow {mem : List UInt8} (hout : out.length + 1 = 2 ^ 31) :
    store mem (increment out.length) b = .error .outside := by
  have hinc : increment out.length = -2 ^ 31 := by
    have hlen : ((out.length : ℤ) + 1) = 2 ^ 31 := by exact_mod_cast hout
    rw [increment, hlen]
    decide
  exact require_bind_of_not (by rw [hinc]; norm_num) _

/-- One turn: `out` and `prevChar` are the result so far, `gap` was read, and `b` is next. -/
theorem repLoop_step (hcur : ∃ w, prevChar :: gap = w ++ [c]) (hc : c ≠ 0)
    (hout : out.length < 2 ^ 31) :
    repLoop slash (turns + 1) (out ++ prevChar :: (gap ++ b :: rest)) (out.length + gap.length)
        out.length prevChar =
      if prevChar = slash ∧ b = slash then
        repLoop slash turns (out ++ prevChar :: (gap ++ b :: rest)) (out.length + gap.length + 1)
          out.length prevChar
      else if out.length + 1 < 2 ^ 31 then
        repLoop slash turns (out ++ prevChar :: (b :: (gap ++ [b]).tail ++ rest))
          (out.length + gap.length + 1) (out.length + 1 : ℕ) b
      else .error .outside := by
  obtain ⟨w, hw⟩ := hcur
  have hlen : gap.length = w.length := by simpa using congrArg List.length hw
  have hcurrent : load (out ++ prevChar :: (gap ++ b :: rest)) (out.length + gap.length) =
      .ok c := by
    rw [show out ++ prevChar :: (gap ++ b :: rest) = (out ++ w) ++ c :: b :: rest by
      rw [← List.cons_append, hw]; simp]
    exact load_append _ (by simp [hlen])
  have hnext : load (out ++ prevChar :: (gap ++ b :: rest)) (out.length + gap.length + 1) =
      .ok b := by
    rw [show out ++ prevChar :: (gap ++ b :: rest) = (out ++ prevChar :: gap) ++ b :: rest by simp]
    exact load_append _ (by simp; omega)
  rw [repLoop, hcurrent, ok_bind, if_neg hc, hnext, ok_bind]
  split_ifs with hboth hfits
  · rfl
  · rw [store_append hfits, ok_bind]
    obtain ⟨v, hv, hvlen⟩ := exists_concat_tail gap b
    have hprev : load (out ++ prevChar :: (b :: (gap ++ [b]).tail ++ rest))
        (out.length + gap.length + 1) = .ok b := by
      rw [hv, show out ++ prevChar :: (v ++ [b] ++ rest) =
        (out ++ prevChar :: v) ++ b :: rest by simp]
      exact load_append _ (by simp; omega)
    rw [hprev, ok_bind, increment_length hfits]
  · rw [store_overflow (by omega), error_bind]

/-- The loop, from any place in the path on. -/
theorem repLoop_eq (hslash : slash ≠ 0) (hcur : ∃ w, prevChar :: gap = w ++ [c]) (hc : c ≠ 0)
    (htodo : 0 ∉ todo) (hout : out.length < 2 ^ 31) (hturns : todo.length + 2 ≤ turns) :
    ∃ junk, repLoop slash turns (out ++ prevChar :: (gap ++ (todo ++ 0 :: tail)))
        (out.length + gap.length) out.length prevChar =
      if (out ++ todo.destutter' (Apart slash) prevChar).length < 2 ^ 31 then
        .ok (out ++ todo.destutter' (Apart slash) prevChar ++ 0 :: (junk ++ tail))
      else .error .outside := by
  induction todo generalizing out gap prevChar c turns with
  | nil =>
    obtain ⟨turns, rfl⟩ : ∃ n, turns = n + 2 := ⟨turns - 2, by simp at hturns; omega⟩
    refine ⟨(gap ++ [0]).tail, ?_⟩
    have hnot : ¬ (prevChar = slash ∧ 0 = slash) := fun h => hslash h.2.symm
    rw [List.nil_append, repLoop_step hcur hc hout, if_neg hnot, List.destutter'_nil]
    by_cases hfits : out.length + 1 < 2 ^ 31
    · -- the terminator was copied, and the loop finds it
      obtain ⟨v, hv, hvlen⟩ := exists_concat_tail gap 0
      have hend : load (out ++ prevChar :: (0 :: (gap ++ [0]).tail ++ tail))
          (out.length + gap.length + 1) = .ok 0 := by
        rw [hv, show out ++ prevChar :: (v ++ [0] ++ tail) =
          (out ++ prevChar :: v) ++ 0 :: tail by simp]
        exact load_append _ (by simp; omega)
      rw [if_pos hfits, repLoop, hend, ok_bind, if_pos rfl, if_pos (by simpa using hfits)]
      simp
    · rw [if_neg hfits, if_neg (by simpa using hfits)]
  | cons b todo ih =>
    obtain ⟨turns, rfl⟩ : ∃ n, turns = n + 1 := ⟨turns - 1, by simp at hturns; omega⟩
    rw [List.mem_cons, not_or] at htodo
    obtain ⟨hb, htodo⟩ := htodo
    have hturns : todo.length + 2 ≤ turns := by simpa using hturns
    rw [List.cons_append, repLoop_step hcur hc hout]
    by_cases hboth : prevChar = slash ∧ b = slash
    · -- the slash is passed over and stays in the gap
      have hgap : ∃ w, prevChar :: (gap ++ [b]) = w ++ [b] := ⟨prevChar :: gap, rfl⟩
      obtain ⟨junk, hrun⟩ := ih hgap (Ne.symm hb) htodo hout hturns
      refine ⟨junk, ?_⟩
      rw [if_pos hboth, List.destutter'_cons_neg _ (not_not.mpr hboth), ← hrun]
      simp [Nat.add_assoc]
    · rw [if_neg hboth, List.destutter'_cons_pos _ hboth]
      by_cases hfits : out.length + 1 < 2 ^ 31
      · obtain ⟨v, hv, hvlen⟩ := exists_concat_tail gap b
        have hlonger : (out ++ [prevChar]).length < 2 ^ 31 := by simpa using hfits
        obtain ⟨junk, hrun⟩ := ih ⟨v, hv⟩ (Ne.symm hb) htodo hlonger hturns
        refine ⟨junk, ?_⟩
        have htail : ((gap ++ [b]).tail).length = gap.length := by simp
        rw [htail] at hrun
        rw [if_pos hfits, show out ++ prevChar :: todo.destutter' (Apart slash) b =
          out ++ [prevChar] ++ todo.destutter' (Apart slash) b by simp, ← hrun]
        simp [Nat.add_right_comm]
      · have hlong : ¬ (out ++ prevChar :: todo.destutter' (Apart slash) b).length < 2 ^ 31 := by
          rw [List.length_append, List.length_cons]
          omega
        exact ⟨[], by rw [if_neg hfits, if_neg hlong]⟩

theorem rep_eq {s : List UInt8} (hs : 0 ∉ s) (hslash : slash ≠ 0) (tail : List UInt8) : ∃ junk,
    rep (s ++ 0 :: tail) slash = if (squeeze slash s).length < 2 ^ 31 then
      .ok (squeeze slash s ++ 0 :: (junk ++ tail)) else .error .outside := by
  rw [squeeze_eq_destutter]
  cases s with
  | nil => exact ⟨[], rfl⟩
  | cons a todo =>
    rw [List.mem_cons, not_or] at hs
    have hturns : todo.length + 2 ≤ (a :: todo ++ 0 :: tail).length := by
      simp
    have hcur : ∃ w, a :: [] = w ++ [a] := ⟨[], rfl⟩
    have hempty : ([] : List UInt8).length < 2 ^ 31 := by norm_num
    exact repLoop_eq hslash hcur (Ne.symm hs.1) hs.2 hempty hturns

end Loop

/-- `rep` is right for every path and slash, as long as its `int` can count what stays. -/
theorem rep_iff {s : List UInt8} {slash : UInt8} (hs : 0 ∉ s) (hslash : slash ≠ 0) :
    RepRight s slash ↔ (squeeze slash s).length < 2 ^ 31 := by
  obtain ⟨junk, hrun⟩ := rep_eq hs hslash []
  constructor
  · rintro ⟨⟨rest, honce⟩, -⟩
    by_contra hlong
    rw [hrun, if_neg hlong] at honce
    cases honce
  · intro hshort
    rw [if_pos hshort] at hrun
    refine ⟨⟨_, hrun⟩, fun mem hmem => ?_⟩
    obtain rfl := Except.ok.inj (hrun.symm.trans hmem)
    have hnul : 0 ∉ squeeze slash s := fun h => hs (squeeze_subset h)
    obtain ⟨junk', hagain⟩ := rep_eq hnul hslash (junk ++ [])
    rw [squeeze_squeeze, if_pos hshort] at hagain
    exact ⟨_, hagain⟩

/-- The path a//b becomes a/b. -/
theorem rep_iff_slashes : 0 ∉ ([97, 47, 47, 98] : List UInt8) ∧ (47 : UInt8) ≠ 0 ∧
    squeeze 47 [97, 47, 47, 98] = [97, 47, 98] ∧ RepRight [97, 47, 47, 98] 47 := by
  have hs : 0 ∉ ([97, 47, 47, 98] : List UInt8) := by decide
  have hslash : (47 : UInt8) ≠ 0 := by decide
  exact ⟨hs, hslash, by decide, (rep_iff hs hslash).mpr (by decide)⟩

/-- For 2^31 letters the index of the terminator does not fit an `int`: the store goes before the
path. -/
theorem rep_long : 0 ∉ List.replicate (2 ^ 31) (97 : UInt8) ∧
    rep (List.replicate (2 ^ 31) 97 ++ [0]) 47 = .error .outside ∧
      ¬ RepRight (List.replicate (2 ^ 31) 97) 47 := by
  have hnul : 0 ∉ List.replicate (2 ^ 31) (97 : UInt8) := fun h =>
    absurd (List.eq_of_mem_replicate h) (by decide)
  have hplain : 47 ∉ List.replicate (2 ^ 31) (97 : UInt8) := fun h =>
    absurd (List.eq_of_mem_replicate h) (by decide)
  have hlen : ¬ (squeeze 47 (List.replicate (2 ^ 31) 97)).length < 2 ^ 31 := by
    rw [squeeze_of_notMem hplain, List.length_replicate]
    exact lt_irrefl _
  obtain ⟨junk, hrun⟩ := rep_eq hnul (by decide : (47 : UInt8) ≠ 0) []
  rw [if_neg hlen] at hrun
  refine ⟨hnul, hrun, fun hright => ?_⟩
  obtain ⟨rest, honce⟩ := hright.once
  rw [hrun] at honce
  cases honce

end SeamlessStack.Sfs.Rep
