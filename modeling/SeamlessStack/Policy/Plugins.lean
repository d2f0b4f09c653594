import SeamlessStack.Lib.Except
import SeamlessStack.Policy.Table

/-! The plugins that are registered. A word of 64 bits says which slots of `pt_table` are empty, but
it is searched by `ffs` and changed by masks, which are an `int`. -/
namespace SeamlessStack.Policy

open Lib

/-- `struct policy_table`. Plugins are numbered as they are allocated. -/
structure PluginTable where
  initialized : Bool
  ptTable : Fin numMaxPolicy → Option ℕ
  policySlots : BitVec 64
  next : ℕ

/-- A write outside `pt_table`, or a shift by more than the width of an `int`. -/
inductive PluginFault
  | outside
  | shift
  deriving DecidableEq, Repr

def ffs (x : BitVec 32) : ℕ :=
  match (List.range 32).find? x.getLsbD with
  | some i => i + 1
  | none => 0

def oneShl (n : ℕ) : Except PluginFault (BitVec 64) :=
  if n < 32 then .ok ((1#32 <<< n).signExtend 64) else .error .shift

def initPlugins : PluginTable where
  initialized := true
  ptTable := fun _ => none
  policySlots := -1
  next := 0

/-- What is returned, with the table and the id, if any; `mem`: memory for the plugin. -/
def registerPlugin (t : PluginTable) (hasPath mem : Bool) :
    Except PluginFault (ℤ × PluginTable × Option ℕ) :=
  if t.initialized = false ∨ hasPath = false then .ok (-einval, t, none)
  else if mem = false then .ok (-enomem, t, none)
  else
    let slot := ffs (t.policySlots.setWidth 32)
    -- the subtraction is one of `uint64_t`
    let i := (slot + 2 ^ 64 - 1) % 2 ^ 64
    if h : i < numMaxPolicy then do
      let temp ← oneShl i
      .ok (0, { t with
        ptTable := Function.update t.ptTable ⟨i, h⟩ (some t.next)
        policySlots := t.policySlots ^^^ temp
        next := t.next + 1 }, some i)
    else .error .outside

def unregisterPlugin (t : PluginTable) (pluginId : Fin numMaxPolicy) :
    Except PluginFault (ℤ × PluginTable) :=
  match t.ptTable pluginId with
  | some _ => do
    let temp ← oneShl pluginId
    .ok (0, { t with
      ptTable := Function.update t.ptTable pluginId none
      policySlots := t.policySlots ^^^ temp })
  | none => .ok (0, t)

inductive PluginCall
  | register (hasPath : Bool)
  | unregister (pluginId : Fin numMaxPolicy)
  deriving DecidableEq, Repr

def PluginTable.call (t : PluginTable) : PluginCall → Except PluginFault PluginTable
  | .register hasPath => do
    let (_, t, _) ← registerPlugin t hasPath true
    return t
  | .unregister pluginId => do
    let (_, t) ← unregisterPlugin t pluginId
    return t

def pluginSystem : System PluginTable PluginCall where
  init t := t = initPlugins
  step t c := (t.call c).toOption

def SlotsTrue (t : PluginTable) : Prop :=
  ∀ i : Fin numMaxPolicy, t.policySlots.getLsbD i = true ↔ t.ptTable i = none

/-- A registered plugin gets the id of an empty slot, an error means that none is empty, and no
other slot changes. -/
def CallRight (t : PluginTable) : PluginCall → Prop
  | .register hasPath => ∃ ret t' id, registerPlugin t hasPath true = .ok (ret, t', id) ∧
      SlotsTrue t' ∧ (ret ≠ 0 ↔ ∀ i, t.ptTable i ≠ none) ∧
      (ret = 0 → ∃ i : Fin numMaxPolicy, id = some i.val ∧ t.ptTable i = none ∧
        t'.ptTable i ≠ none ∧ ∀ j ≠ i, t'.ptTable j = t.ptTable j)
  | .unregister pluginId => ∃ ret t', unregisterPlugin t pluginId = .ok (ret, t') ∧
      SlotsTrue t' ∧ t'.ptTable pluginId = none ∧
      ∀ j ≠ pluginId, t'.ptTable j = t.ptTable j

def signSlot : Fin numMaxPolicy := ⟨31, Nat.le_of_ble_eq_true rfl⟩

/-- The calls that go right: the sign slot is empty and stays so, or is emptied. -/
def Tracked (t : PluginTable) : PluginCall → Prop
  | .register hasPath => hasPath = true ∧ t.ptTable signSlot = none ∧
      ∃ i < signSlot, t.ptTable i = none
  | .unregister pluginId => t.ptTable signSlot = none ∨ pluginId = signSlot

/-- The low half of the word is right; the high half, never used, goes with the sign. -/
structure SlotsOk (t : PluginTable) : Prop where
  initialized : t.initialized = true
  low : ∀ i ≤ signSlot, t.policySlots.getLsbD i = true ↔ t.ptTable i = none
  high : ∀ i, signSlot < i → t.ptTable i = none ∧
    t.policySlots.getLsbD i = t.policySlots.getLsbD signSlot

theorem getLsbD_oneShl {n i : ℕ} (hn : n < 32) (hi : i < 64) :
    ((1#32 <<< n).signExtend 64).getLsbD i = decide (i = n ∨ n = 31 ∧ 31 ≤ i) := by
  have hbit : ∀ j, (1#32 <<< n).getLsbD j = decide (j = n) := by
    intro j
    rw [← BitVec.twoPow_eq, BitVec.getLsbD_twoPow]
    by_cases hj : j = n
    · simp [hj, hn]
    · simp [hj, Ne.symm hj]
  rw [BitVec.getLsbD_signExtend, BitVec.msb_eq_getLsbD_last, hbit, hbit]
  simp only [hi, decide_true, Bool.true_and]
  split_ifs with hlow
  · rw [decide_eq_decide]
    omega
  · rw [decide_eq_decide]
    omega

/-- `ffs` finds the lowest bit. -/
theorem ffs_eq_succ_iff {x : BitVec 32} {i : ℕ} :
    ffs x = i + 1 ↔ i < 32 ∧ x.getLsbD i = true ∧ ∀ j < i, x.getLsbD j = false := by
  unfold ffs
  split
  · rename_i k hk
    rw [List.find?_range_eq_some] at hk
    obtain ⟨hset, hmem, hbelow⟩ := hk
    rw [List.mem_range] at hmem
    constructor
    · intro he
      obtain rfl : k = i := by omega
      exact ⟨hmem, hset, by simpa using hbelow⟩
    · rintro ⟨hi, hseti, hbelowi⟩
      rcases lt_trichotomy k i with hlt | rfl | hgt
      · simp [hbelowi k hlt] at hset
      · rfl
      · have := hbelow i hgt
        simp [hseti] at this
  · rename_i hk
    rw [List.find?_range_eq_none] at hk
    refine iff_of_false (by omega) ?_
    rintro ⟨hi, hset, -⟩
    have := hk i hi
    simp [hset] at this

theorem ffs_eq_zero {x : BitVec 32} (h : ffs x = 0) {i : ℕ} (hi : i < 32) :
    x.getLsbD i = false := by
  unfold ffs at h
  split at h
  · cases h
  · rename_i hk
    rw [List.find?_range_eq_none] at hk
    simpa using hk i hi

section Steps
variable {t : PluginTable} {i : Fin numMaxPolicy}

/-- One slot is taken or given back, and the mask of it flips its bit. -/
def PluginTable.flip (t : PluginTable) (i : Fin numMaxPolicy) (v : Option ℕ) (next : ℕ) :
    PluginTable :=
  { t with
    ptTable := Function.update t.ptTable i v
    policySlots := t.policySlots ^^^ (1#32 <<< i.val).signExtend 64
    next }

@[simp] theorem PluginTable.flip_ptTable_self (t : PluginTable) (i : Fin numMaxPolicy)
    (v : Option ℕ) (next : ℕ) : (t.flip i v next).ptTable i = v := by
  simp [flip]

theorem PluginTable.flip_ptTable_of_ne (t : PluginTable) {i j : Fin numMaxPolicy} (h : j ≠ i)
    (v : Option ℕ) (next : ℕ) : (t.flip i v next).ptTable j = t.ptTable j := by
  simp [flip, h]

theorem SlotsOk.flip (h : SlotsOk t) (hi : i ≤ signSlot) {v : Option ℕ}
    (hv : v = none ↔ t.ptTable i ≠ none) (next : ℕ) : SlotsOk (t.flip i v next) := by
  have hi32 : i.val < 32 := Nat.lt_succ_of_le hi
  have hbit : ∀ j : Fin numMaxPolicy, (t.flip i v next).policySlots.getLsbD j =
      (t.policySlots.getLsbD j ^^ decide (j.val = i.val ∨ i.val = 31 ∧ 31 ≤ j.val)) := by
    intro j
    rw [← getLsbD_oneShl hi32 j.isLt]
    exact BitVec.getLsbD_xor
  refine ⟨h.initialized, ?_, ?_⟩
  · intro j hj
    have hj31 : j.val ≤ 31 := hj
    rw [hbit]
    by_cases he : j = i
    · subst he
      have hlow := h.low j hj
      rw [t.flip_ptTable_self, hv, ne_eq, ← hlow]
      simp
    · have hne : ¬ (j.val = i.val ∨ i.val = 31 ∧ 31 ≤ j.val) := by
        have := Fin.val_ne_of_ne he
        omega
      rw [t.flip_ptTable_of_ne he, decide_eq_false hne, Bool.xor_false]
      exact h.low j hj
  · intro j hj
    have hj31 : 31 < j.val := hj
    obtain ⟨hnone, hsign⟩ := h.high j hj
    have hne : j ≠ i := by
      rintro rfl
      exact absurd hi (not_le.mpr hj)
    have hmask : (j.val = i.val ∨ i.val = 31 ∧ 31 ≤ j.val) ↔
        (signSlot.val = i.val ∨ i.val = 31 ∧ 31 ≤ signSlot.val) := by
      have hs : signSlot.val = 31 := rfl
      omega
    refine ⟨(t.flip_ptTable_of_ne hne v next).trans hnone, ?_⟩
    rw [hbit, hbit, hsign, decide_eq_decide.mpr hmask]

theorem SlotsOk.slotsTrue_iff (h : SlotsOk t) : SlotsTrue t ↔ t.ptTable signSlot = none := by
  have hsign := h.low signSlot le_rfl
  constructor
  · intro htrue
    have hlt : signSlot < (⟨32, Nat.le_of_ble_eq_true rfl⟩ : Fin numMaxPolicy) :=
      Nat.lt_succ_self 31
    obtain ⟨hnone, hbit⟩ := h.high _ hlt
    have hset := (htrue _).mpr hnone
    rw [hbit] at hset
    exact hsign.mp hset
  · intro hnone j
    rcases le_or_gt j signSlot with hj | hj
    · exact h.low j hj
    · obtain ⟨hempty, hbit⟩ := h.high j hj
      rw [hbit, hsign]
      exact iff_of_true hnone hempty

/-- A plugin goes to the first empty slot up to the sign slot, else beyond the table. -/
theorem registerPlugin_cases (h : SlotsOk t) :
    (∃ i ≤ signSlot, t.ptTable i = none ∧ (∀ j < i, t.ptTable j ≠ none) ∧
      registerPlugin t true true = .ok (0, t.flip i (some t.next) (t.next + 1), some i.val)) ∨
    ((∀ i ≤ signSlot, t.ptTable i ≠ none) ∧ registerPlugin t true true = .error .outside) := by
  have hbit : ∀ i < 32, (t.policySlots.setWidth 32).getLsbD i = t.policySlots.getLsbD i := by
    intro i hi
    simp [hi]
  have hrun : ∀ slot, ffs (t.policySlots.setWidth 32) = slot → registerPlugin t true true =
      if h : (slot + 2 ^ 64 - 1) % 2 ^ 64 < numMaxPolicy then
        (oneShl ((slot + 2 ^ 64 - 1) % 2 ^ 64)).bind fun temp => .ok (0, { t with
          ptTable := Function.update t.ptTable ⟨_, h⟩ (some t.next)
          policySlots := t.policySlots ^^^ temp
          next := t.next + 1 }, some ((slot + 2 ^ 64 - 1) % 2 ^ 64))
      else .error .outside := by
    rintro slot rfl
    simp only [registerPlugin, h.initialized, Bool.true_eq_false, or_self, if_false]
    rfl
  cases hffs : ffs (t.policySlots.setWidth 32) with
  | zero =>
    refine Or.inr ⟨?_, ?_⟩
    · intro i hi hnone
      have hi32 : i.val < 32 := Nat.lt_succ_of_le hi
      have hset := (h.low i hi).mpr hnone
      rw [← hbit i hi32, ffs_eq_zero hffs hi32] at hset
      cases hset
    · rw [hrun 0 hffs]
      rfl
  | succ i =>
    obtain ⟨hi, hset, hbelow⟩ := ffs_eq_succ_iff.mp hffs
    have hlt : i < numMaxPolicy := hi.trans (Nat.le_of_ble_eq_true rfl)
    have hmod : (i + 1 + 2 ^ 64 - 1) % 2 ^ 64 = i := by omega
    refine Or.inl ⟨⟨i, hlt⟩, Nat.le_of_lt_succ hi, ?_, ?_, ?_⟩
    · rw [hbit i hi] at hset
      exact (h.low ⟨i, hlt⟩ (Nat.le_of_lt_succ hi)).mp hset
    · intro j hj hnone
      have hji : j.val < i := hj
      have hset := (h.low j (Nat.le_of_lt_succ (hji.trans hi))).mpr hnone
      rw [← hbit j (hji.trans hi), hbelow j hji] at hset
      cases hset
    · rw [hrun _ hffs]
      simp only [hmod, dif_pos hlt, oneShl, if_pos hi]
      rfl

theorem unregisterPlugin_cases (h : SlotsOk t) (i : Fin numMaxPolicy) :
    (t.ptTable i = none ∧ unregisterPlugin t i = .ok (0, t)) ∨
    (i ≤ signSlot ∧ t.ptTable i ≠ none ∧
      unregisterPlugin t i = .ok (0, t.flip i none t.next)) := by
  unfold unregisterPlugin
  cases hv : t.ptTable i with
  | none => exact Or.inl ⟨rfl, rfl⟩
  | some v =>
    have hi : i ≤ signSlot := by
      by_contra hgt
      rw [(h.high i (not_le.mp hgt)).1] at hv
      cases hv
    have hi32 : i.val < 32 := Nat.lt_succ_of_le hi
    refine Or.inr ⟨hi, Option.some_ne_none v, ?_⟩
    simp only [oneShl, if_pos hi32]
    rfl

theorem SlotsOk.call {t' : PluginTable} (h : SlotsOk t) {c : PluginCall}
    (hc : t.call c = .ok t') : SlotsOk t' := by
  cases c with
  | register hasPath =>
    obtain ⟨⟨ret, t₁, id⟩, hreg, hret⟩ := bind_eq_ok.mp hc
    cases hret
    cases hasPath with
    | false =>
      unfold registerPlugin at hreg
      rw [if_pos (Or.inr rfl)] at hreg
      cases hreg
      exact h
    | true =>
      rcases registerPlugin_cases h with ⟨i, hi, hnone, -, hok⟩ | ⟨-, herror⟩
      · cases hok.symm.trans hreg
        exact h.flip hi (by simp [hnone]) _
      · cases herror.symm.trans hreg
  | unregister pluginId =>
    obtain ⟨⟨ret, t₁⟩, hun, hret⟩ := bind_eq_ok.mp hc
    cases hret
    rcases unregisterPlugin_cases h pluginId with ⟨-, hok⟩ | ⟨hi, hused, hok⟩
    · cases hok.symm.trans hun
      exact h
    · cases hok.symm.trans hun
      exact h.flip hi (by simp [hused]) _

theorem SlotsOk.register_iff (h : SlotsOk t) (hasPath : Bool) :
    CallRight t (.register hasPath) ↔ Tracked t (.register hasPath) := by
  -- no slot above the sign slot is ever used, so an error is never right
  have hempty : ¬ ∀ i, t.ptTable i ≠ none := by
    intro hall
    exact hall ⟨32, Nat.le_of_ble_eq_true rfl⟩ (h.high _ (Nat.lt_succ_self 31)).1
  cases hasPath with
  | false =>
    refine iff_of_false ?_ (by simp [Tracked])
    rintro ⟨ret, t', id, hreg, -, hret, -⟩
    unfold registerPlugin at hreg
    rw [if_pos (Or.inr rfl)] at hreg
    cases hreg
    exact hempty (hret.mp (by decide))
  | true =>
    rcases registerPlugin_cases h with ⟨i, hi, hnone, hfirst, hok⟩ | ⟨hfull, herror⟩
    · have hflip := h.flip hi (v := some t.next) (by simp [hnone]) (t.next + 1)
      constructor
      · rintro ⟨ret, t', id, hreg, htrue, -, -⟩
        cases hok.symm.trans hreg
        rw [hflip.slotsTrue_iff] at htrue
        have hne : signSlot ≠ i := by
          rintro rfl
          rw [t.flip_ptTable_self] at htrue
          cases htrue
        have hsign : t.ptTable signSlot = none := by rwa [t.flip_ptTable_of_ne hne] at htrue
        exact ⟨rfl, hsign, i, lt_of_le_of_ne hi hne.symm, hnone⟩
      · rintro ⟨-, hsign, k, hk, hknone⟩
        have hik : i ≤ k := by
          by_contra hlt
          exact hfirst k (not_le.mp hlt) hknone
        have hne : signSlot ≠ i := (hik.trans_lt hk).ne'
        refine ⟨_, _, _, hok, ?_, iff_of_false (by simp) hempty, ?_⟩
        · rw [hflip.slotsTrue_iff, t.flip_ptTable_of_ne hne]
          exact hsign
        · intro _
          refine ⟨i, rfl, hnone, ?_, ?_⟩
          · rw [t.flip_ptTable_self]
            exact Option.some_ne_none _
          · intro j hj
            exact t.flip_ptTable_of_ne hj _ _
    · refine iff_of_false ?_ ?_
      · rintro ⟨ret, t', id, hreg, -⟩
        cases herror.symm.trans hreg
      · rintro ⟨-, hsign, -⟩
        exact hfull signSlot le_rfl hsign

theorem SlotsOk.unregister_iff (h : SlotsOk t) (i : Fin numMaxPolicy) :
    CallRight t (.unregister i) ↔ Tracked t (.unregister i) := by
  rcases unregisterPlugin_cases h i with ⟨hnone, hok⟩ | ⟨hi, hused, hok⟩
  · constructor
    · rintro ⟨ret, t', hun, htrue, -⟩
      cases hok.symm.trans hun
      exact Or.inl (h.slotsTrue_iff.mp htrue)
    · intro htracked
      have hsign : t.ptTable signSlot = none := by
        rcases htracked with hsign | rfl
        · exact hsign
        · exact hnone
      exact ⟨_, _, hok, h.slotsTrue_iff.mpr hsign, hnone, fun _ _ => rfl⟩
  · have hflip := h.flip hi (v := none) (by simp [hused]) t.next
    have hsign : (t.flip i none t.next).ptTable signSlot = none ↔
        t.ptTable signSlot = none ∨ i = signSlot := by
      by_cases he : i = signSlot
      · simp [he]
      · rw [t.flip_ptTable_of_ne (Ne.symm he)]
        simp [he]
    constructor
    · rintro ⟨ret, t', hun, htrue, -⟩
      cases hok.symm.trans hun
      exact hsign.mp (hflip.slotsTrue_iff.mp htrue)
    · intro htracked
      refine ⟨_, _, hok, hflip.slotsTrue_iff.mpr (hsign.mpr htracked), ?_, ?_⟩
      · exact t.flip_ptTable_self i none t.next
      · intro j hj
        exact t.flip_ptTable_of_ne hj _ _

end Steps

theorem initPlugins_slotsOk : SlotsOk initPlugins := by
  have hbit : ∀ i : Fin numMaxPolicy, initPlugins.policySlots.getLsbD i = true := by
    intro i
    rw [show initPlugins.policySlots = BitVec.allOnes 64 from rfl, BitVec.getLsbD_allOnes]
    exact decide_eq_true i.isLt
  refine ⟨rfl, ?_, ?_⟩
  · intro i _
    exact iff_of_true (hbit i) rfl
  · intro i _
    exact ⟨rfl, (hbit i).trans (hbit signSlot).symm⟩

theorem reach_slotsOk {t : PluginTable} (hr : pluginSystem.Reach System.AnyStep t) :
    SlotsOk t := by
  refine hr.invariant ?_ ?_
  · rintro _ rfl
    exact initPlugins_slotsOk
  · intro t c t' _ h _ hstep
    exact h.call (toOption_eq_some.mp hstep)

/-- After any calls, the next one goes right just when the sign slot is empty after it. -/
theorem pluginCall_right_iff {t : PluginTable} (hr : pluginSystem.Reach System.AnyStep t)
    (c : PluginCall) : CallRight t c ↔ Tracked t c := by
  have h := reach_slotsOk hr
  cases c with
  | register hasPath => exact h.register_iff hasPath
  | unregister pluginId => exact h.unregister_iff pluginId

/-- Two plugins are registered and the first is removed, so that the next gets its slot. -/
theorem pluginCall_right_iff_two :
    ∃ t, pluginSystem.run System.AnyStep initPlugins
        [.register true, .register true, .unregister ⟨0, Nat.le_of_ble_eq_true rfl⟩] = some t ∧
      t.ptTable ⟨1, Nat.le_of_ble_eq_true rfl⟩ = some 1 ∧
      (CallRight t (.register true) ↔ Tracked t (.register true)) ∧ Tracked t (.register true) := by
  have hrun : (pluginSystem.run System.AnyStep initPlugins
      [.register true, .register true, .unregister ⟨0, Nat.le_of_ble_eq_true rfl⟩]).map
        (fun t => (t.ptTable ⟨0, Nat.le_of_ble_eq_true rfl⟩,
          t.ptTable ⟨1, Nat.le_of_ble_eq_true rfl⟩, t.ptTable signSlot)) =
      some (none, some 1, none) := by decide +kernel
  obtain ⟨t, hrun, hview⟩ := Option.map_eq_some_iff.mp hrun
  simp only [Prod.mk.injEq] at hview
  obtain ⟨hzero, hone, hsign⟩ := hview
  refine ⟨t, hrun, hone, pluginCall_right_iff (.run (.init rfl) hrun) _, rfl, hsign, _, ?_, hzero⟩
  exact Nat.le_of_ble_eq_true rfl

/-- With 31 plugins the next one clears the bits of all slots above its own, and the one after it is
written in front of the table. -/
theorem registerPlugin_loses_slots :
    ∃ t t', pluginSystem.run System.AnyStep initPlugins (List.replicate 31 (.register true)) =
        some t ∧
      registerPlugin t true true = .ok (0, t', some 31) ∧ t'.policySlots = 0 ∧
      t'.ptTable ⟨32, Nat.le_of_ble_eq_true rfl⟩ = none ∧ ¬ CallRight t (.register true) ∧
      registerPlugin t' true true = .error .outside ∧ ¬ CallRight t' (.register true) := by
  have hrun : (pluginSystem.run System.AnyStep initPlugins
      (List.replicate 31 (.register true))).map (fun t => (t.policySlots,
        decide (∀ i, t.ptTable i = none ↔ signSlot ≤ i))) =
      some (0xFFFFFFFF80000000, true) := by decide +kernel
  obtain ⟨t, hrun, hview⟩ := Option.map_eq_some_iff.mp hrun
  simp only [Prod.mk.injEq, decide_eq_true_eq] at hview
  obtain ⟨hslots, hempty⟩ := hview
  have h := reach_slotsOk (.run (.init rfl) hrun)
  rcases registerPlugin_cases h with ⟨i, hi, hnone, -, hok⟩ | ⟨hfull, -⟩
  swap
  · exact absurd ((hempty signSlot).mpr le_rfl) (hfull signSlot le_rfl)
  obtain rfl : i = signSlot := le_antisymm hi ((hempty i).mp hnone)
  set t' := t.flip signSlot (some t.next) (t.next + 1)
  have h' : SlotsOk t' := h.flip hi (by simp [hnone]) _
  have hused : ∀ i ≤ signSlot, t'.ptTable i ≠ none := by
    intro i hi hnone'
    by_cases he : i = signSlot
    · rw [he, t.flip_ptTable_self] at hnone'
      cases hnone'
    · rw [t.flip_ptTable_of_ne he, hempty] at hnone'
      exact he (le_antisymm hi hnone')
  refine ⟨t, t', hrun, hok, ?_, (h'.high _ (Nat.lt_succ_self 31)).1, ?_, ?_, ?_⟩
  · change t.policySlots ^^^ _ = _
    rw [hslots]
    decide
  · rw [h.register_iff]
    rintro ⟨-, -, k, hk, hknone⟩
    exact absurd ((hempty k).mp hknone) (not_le.mpr hk)
  · rcases registerPlugin_cases h' with ⟨k, hk, hknone, -⟩ | ⟨-, herror⟩
    · exact absurd hknone (hused k hk)
    · exact herror
  · rw [h'.register_iff]
    rintro ⟨-, hsign, -⟩
    exact hused signSlot le_rfl hsign

end SeamlessStack.Policy
