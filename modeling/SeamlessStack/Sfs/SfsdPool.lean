import Mathlib.Tactic
import SeamlessStack.Lib.Except
import SeamlessStack.Lib.Ring

/-! The pools of sfsds, one for each range of storage weights. The sfsds of a pool are on a circular
list through their field `list`, and each pool has a spin lock. -/
namespace SeamlessStack.Sfs.SfsdPool
open Lib

def maxSfsdPools : ℕ := 8

def maximumWeight : ℕ := 0
def minimumWeight : ℕ := 100

def weights : List (ℕ × ℕ) :=
  [(0, 10), (11, 20), (21, 30), (31, 40), (41, 50), (51, 60), (61, 70), (71, 100)]

/-- A node of the lists: the field `list` of a pool or of an sfsd. -/
inductive Node (α : Type)
  | head (i : ℕ)
  | sfsd (x : α)
  deriving DecidableEq, Repr

/-- The links of all nodes and the locks that are held. -/
structure Pools (α : Type) where
  links : Links (Node α)
  held : ℕ → Bool

/-- A spin lock that is held, a pool behind the last one, and a walk that does not end. -/
inductive Fault
  | spins
  | outside
  | walks
  deriving DecidableEq, Repr

section Model
variable {α : Type} [DecidableEq α]

def Pools.lock (p : Pools α) (i : ℕ) : Except Fault (Pools α) := do
  require (p.held i = false) .spins
  .ok { p with held := Function.update p.held i true }

def Pools.unlock (p : Pools α) (i : ℕ) : Pools α :=
  { p with held := Function.update p.held i false }

def sstackSfsdPoolInit (memory : Bool) (links : Links (Node α)) : Option (Pools α) :=
  if memory then
    some ⟨(List.range maxSfsdPools).foldl (fun s i => s.reset (.head i)) links, fun _ => false⟩
  else none

def poolIndex (weight : ℕ) : ℕ := weights.findIdx fun range => range.1 ≤ weight ∧ weight ≤ range.2

def poolFor (weight : ℕ) : Except Fault ℕ := do
  require (poolIndex weight < maxSfsdPools) .outside
  .ok (poolIndex weight)

def sstackSfsdAdd (weight : ℕ) (pools : Option (Pools α)) (sfsd : Option α) :
    Except Fault (ℤ × Option (Pools α)) :=
  if weight < maximumWeight ∨ weight > minimumWeight then .ok (-1, pools)
  else
    match pools, sfsd with
    | some p, some x => do
      let temp ← poolFor weight
      let p ← p.lock temp
      let p := { p with links := p.links.addTail (.sfsd x) (.head temp) }
      .ok (0, some (p.unlock temp))
    | _, _ => .ok (-1, pools)

/-- Whether the sfsd is found before the head is reached again, within `turns` turns. -/
def forEachEntry (links : Links (Node α)) (head : Node α) (x : α) : ℕ → Node α → Except Fault Bool
  | 0, _ => .error .walks
  | turns + 1, pos =>
    if pos = head then .ok false
    else if pos = .sfsd x then .ok true
    else forEachEntry links head x turns (links.next pos)

/-- The lock is given back and taken again between the test for an empty list and the walk. -/
def sstackSfsdRemove (turns weight : ℕ) (pools : Option (Pools α)) (sfsd : Option α) :
    Except Fault (ℤ × Option (Pools α)) :=
  if weight < maximumWeight ∨ weight > minimumWeight then .ok (-1, pools)
  else
    match pools, sfsd with
    | some p, some x => do
      let temp ← poolFor weight
      let p ← p.lock temp
      if p.links.next (.head temp) = .head temp then .ok (-1, some (p.unlock temp))
      else do
        let p ← (p.unlock temp).lock temp
        let found ← forEachEntry p.links (.head temp) x turns (p.links.next (.head temp))
        if found then
          let p := { p with links := p.links.del (.sfsd x) }
          .ok (0, some (p.unlock temp))
        else .ok (-1, some (p.unlock temp))
    | _, _ => .ok (-1, pools)

/-- A call with its arguments. -/
inductive Call (α : Type)
  | add (weight : ℕ) (sfsd : Option α)
  | remove (weight : ℕ) (sfsd : Option α)
  deriving DecidableEq, Repr

def Call.exec (turns : ℕ) (pools : Option (Pools α)) :
    Call α → Except Fault (ℤ × Option (Pools α))
  | .add weight sfsd => sstackSfsdAdd weight pools sfsd
  | .remove weight sfsd => sstackSfsdRemove turns weight pools sfsd

def runCalls (turns : ℕ) : Option (Pools α) → List (Call α) → Except Fault (Option (Pools α))
  | pools, [] => .ok pools
  | pools, c :: calls => do
    let (_, pools) ← c.exec turns pools
    runCalls turns pools calls

end Model

def inRange (i weight : ℕ) : Bool :=
  weights[i]?.any fun range => range.1 ≤ weight ∧ weight ≤ range.2

section Record
variable {α : Type} [DecidableEq α]

/-- The sfsds on a pool, out of all that were added. -/
def poolList (entries : List (α × ℕ)) (i : ℕ) : List α :=
  (entries.filter fun e => inRange i e.2).map Prod.fst

def OnPool (entries : List (α × ℕ)) (weight : ℕ) (x : α) : Prop :=
  ∃ i < maxSfsdPools, inRange i weight = true ∧ x ∈ poolList entries i

instance (entries : List (α × ℕ)) (weight : ℕ) (x : α) : Decidable (OnPool entries weight x) :=
  inferInstanceAs (Decidable (∃ i < maxSfsdPools, inRange i weight = true ∧ x ∈ poolList entries i))

/-- The sfsds that were added and not removed, with their weights, in order. -/
def Call.record (entries : List (α × ℕ)) : Call α → List (α × ℕ)
  | .add weight (some x) => if weight ≤ minimumWeight then entries ++ [(x, weight)] else entries
  | .remove weight (some x) =>
    if OnPool entries weight x then entries.filter fun e => e.1 ≠ x else entries
  | _ => entries

/-- Only an sfsd that is in no pool is added. -/
def Call.Allowed (entries : List (α × ℕ)) : Call α → Prop
  | .add _ (some x) => x ∉ entries.map Prod.fst
  | _ => True

def AllAllowed : List (α × ℕ) → List (Call α) → Prop
  | _, [] => True
  | entries, c :: calls => c.Allowed entries ∧ AllAllowed (c.record entries) calls

/-- The lists of the pools are those of the entries, and all locks are free. -/
structure Placed (p : Pools α) (entries : List (α × ℕ)) : Prop where
  ring : ∀ i < maxSfsdPools, p.links.Ring (.head i) ((poolList entries i).map .sfsd)
  free : ∀ i, p.held i = false
  once : (entries.map Prod.fst).Nodup
  accepted : ∀ e ∈ entries, e.2 ≤ minimumWeight

/-- What a call returns and does to the pools, by what is on their lists before. -/
def Answered (p p' : Pools α) (entries : List (α × ℕ)) (ret : ℤ) : Call α → Prop
  | .add weight sfsd =>
    if weight ≤ minimumWeight ∧ sfsd ≠ none then ret = 0 else ret = -1 ∧ p' = p
  | .remove weight sfsd =>
    (ret = 0 ↔ ∃ x ∈ sfsd, OnPool entries weight x) ∧ (ret ≠ 0 → ret = -1 ∧ p' = p) ∧
      (ret = 0 → ∀ x ∈ sfsd, ∀ i < maxSfsdPools,
        p'.links.Ring (.head i) (((poolList entries i).erase x).map .sfsd))

end Record

section Ranges
variable {i j w : ℕ}

theorem poolIndex_lt (hw : w ≤ minimumWeight) : poolIndex w < maxSfsdPools := by
  have hall : ∀ w < minimumWeight + 1, poolIndex w < maxSfsdPools := by decide +kernel
  exact hall w (Nat.lt_succ_of_le hw)

theorem inRange_iff (hw : w ≤ minimumWeight) (hi : i < maxSfsdPools) :
    inRange i w = true ↔ i = poolIndex w := by
  have hall : ∀ w < minimumWeight + 1, ∀ i < maxSfsdPools,
      (inRange i w = true ↔ i = poolIndex w) := by decide +kernel
  exact hall w (Nat.lt_succ_of_le hw) i hi

theorem le_of_inRange (h : inRange i w = true) : w ≤ minimumWeight := by
  have hall : ∀ range ∈ weights, range.2 ≤ minimumWeight := by decide
  obtain ⟨range, hr, hle⟩ := (Option.any_eq_true _ _).mp h
  have hle : range.1 ≤ w ∧ w ≤ range.2 := by simpa using hle
  exact hle.2.trans (hall range (List.mem_of_getElem? hr))

theorem poolFor_eq (hw : w ≤ minimumWeight) : poolFor w = .ok (poolIndex w) :=
  require_bind_of (poolIndex_lt hw) _

theorem refused_iff : (w < maximumWeight ∨ w > minimumWeight) ↔ ¬ w ≤ minimumWeight := by
  unfold maximumWeight
  omega

end Ranges

section Lists
variable {α : Type} {p : Pools α} {entries : List (α × ℕ)} {i j w : ℕ} {x : α}

theorem mem_poolList : x ∈ poolList entries i ↔ ∃ w, (x, w) ∈ entries ∧ inRange i w = true := by
  simp [poolList]

theorem poolList_length_le : (poolList entries i).length ≤ entries.length := by
  rw [poolList, List.length_map]
  exact List.length_filter_le _ _

theorem poolList_append : poolList (entries ++ [(x, w)]) i =
    poolList entries i ++ if inRange i w = true then [x] else [] := by
  by_cases h : inRange i w = true
  · simp [poolList, h]
  · simp [poolList, h]

theorem onPool_iff (hw : w ≤ minimumWeight) :
    OnPool entries w x ↔ x ∈ poolList entries (poolIndex w) := by
  constructor
  · rintro ⟨i, hi, hr, hx⟩
    rwa [← (inRange_iff hw hi).mp hr]
  · exact fun hx => ⟨_, poolIndex_lt hw, (inRange_iff hw (poolIndex_lt hw)).mpr rfl, hx⟩

theorem Placed.only (h : Placed p entries) (he : (x, w) ∈ entries) (hj : j < maxSfsdPools) :
    x ∈ poolList entries j ↔ j = poolIndex w := by
  have hw : w ≤ minimumWeight := h.accepted _ he
  rw [mem_poolList, ← inRange_iff hw hj]
  constructor
  · rintro ⟨w', he', hr⟩
    have hsame := List.inj_on_of_nodup_map h.once he he' rfl
    rw [Prod.mk.injEq] at hsame
    rwa [hsame.2]
  · exact fun hr => ⟨w, he, hr⟩

theorem Placed.disjoint (h : Placed p entries) (hi : i < maxSfsdPools) (hj : j < maxSfsdPools)
    (hne : j ≠ i) : ∀ y ∈ Node.head j :: (poolList entries j).map .sfsd,
      y ∉ Node.head i :: (poolList entries i).map .sfsd := by
  intro y hy hy'
  cases y with
  | head k =>
    have hkj : k = j := by simpa using hy
    have hki : k = i := by simpa using hy'
    exact hne (hkj.symm.trans hki)
  | sfsd x =>
    have hxj : x ∈ poolList entries j := by simpa using hy
    have hxi : x ∈ poolList entries i := by simpa using hy'
    obtain ⟨w, he, -⟩ := mem_poolList.mp hxj
    exact hne (((h.only he hj).mp hxj).trans ((h.only he hi).mp hxi).symm)

theorem Pools.lock_eq (h : p.held i = false) :
    p.lock i = .ok { p with held := Function.update p.held i true } := require_bind_of h _

theorem Pools.unlock_locked (h : p.held i = false) (links : Links (Node α)) :
    Pools.unlock ⟨links, Function.update p.held i true⟩ i = { p with links := links } := by
  simp [Pools.unlock, ← h]

end Lists

section Calls
variable {α : Type} [DecidableEq α] {p p₀ : Pools α} {entries : List (α × ℕ)} {i w turns : ℕ}
  {x : α} {sfsd : Option α} {links : Links (Node α)} {c : Call α} {calls : List (Call α)}

theorem poolList_filter (hnodup : (entries.map Prod.fst).Nodup) :
    poolList (entries.filter fun e => e.1 ≠ x) i = (poolList entries i).erase x := by
  have hsub : (poolList entries i).Nodup := hnodup.sublist (List.filter_sublist.map Prod.fst)
  rw [hsub.erase_eq_filter, poolList, poolList, List.filter_map, List.filter_filter,
    List.filter_filter]
  refine congrArg _ (List.filter_congr fun e _ => ?_)
  simp [bne, Bool.and_comm, Bool.beq_eq_decide_eq]

/-- The walk finds the sfsds of the list. -/
theorem forEachEntry_eq {head pos : Node α} {l : List (Node α)}
    (hl : Linked (fun y => some (links.next y)) pos l head) (hhead : head ∉ l)
    (hturns : l.length < turns) :
    forEachEntry links head x turns pos = .ok (decide (.sfsd x ∈ l)) := by
  induction l generalizing pos turns with
  | nil =>
    obtain ⟨turns, rfl⟩ : ∃ n, turns = n + 1 := ⟨turns - 1, by simp at hturns; omega⟩
    have hpos : pos = head := hl
    rw [forEachEntry, if_pos hpos]
    simp
  | cons y l ih =>
    obtain ⟨rfl, r, hr, hrest⟩ := hl
    obtain rfl := Option.some.inj hr
    obtain ⟨turns, rfl⟩ : ∃ n, turns = n + 1 := ⟨turns - 1, by simp at hturns; omega⟩
    have hne : pos ≠ head := fun e => hhead (e ▸ List.mem_cons_self)
    rw [forEachEntry, if_neg hne]
    by_cases hx : pos = .sfsd x
    · simp [hx]
    · rw [if_neg hx, ih hrest (fun hm => hhead (List.mem_cons_of_mem _ hm)) (by simpa using hturns)]
      simp [Ne.symm hx]

theorem sstackSfsdAdd_eq (h : Placed p entries) (hw : w ≤ minimumWeight) :
    sstackSfsdAdd w (some p) (some x) =
      .ok (0, some { p with links := p.links.addTail (.sfsd x) (.head (poolIndex w)) }) := by
  rw [sstackSfsdAdd, if_neg (by rwa [refused_iff, not_not])]
  simp only [poolFor_eq hw, ok_bind, Pools.lock_eq (h.free _), Pools.unlock_locked (h.free _)]

theorem exec_refused (hc : c = .add w sfsd ∨ c = .remove w sfsd)
    (h : ¬ (w ≤ minimumWeight ∧ sfsd ≠ none)) : c.exec turns (some p) = .ok (-1, some p) := by
  by_cases hw : w ≤ minimumWeight
  · have hnull : sfsd = none := by simpa [hw] using h
    subst hnull
    rcases hc with rfl | rfl
    · exact ite_self _
    · exact ite_self _
  · have hw := refused_iff.mpr hw
    rcases hc with rfl | rfl
    · exact if_pos hw
    · exact if_pos hw

theorem sstackSfsdRemove_eq (h : Placed p entries) (hw : w ≤ minimumWeight)
    (hturns : entries.length < turns) : sstackSfsdRemove turns w (some p) (some x) =
      if OnPool entries w x then .ok (0, some { p with links := p.links.del (.sfsd x) })
      else .ok (-1, some p) := by
  have hring := h.ring _ (poolIndex_lt hw)
  have hlen : ((poolList entries (poolIndex w)).map Node.sfsd).length < turns := by
    rw [List.length_map]
    exact poolList_length_le.trans_lt hturns
  have hwalk := forEachEntry_eq (x := x) hring.path (List.nodup_cons.mp hring.nodup).1 hlen
  have hmem : Node.sfsd x ∈ (poolList entries (poolIndex w)).map Node.sfsd ↔
      OnPool entries w x := by
    rw [onPool_iff hw]
    simp
  rw [sstackSfsdRemove, if_neg (by rwa [refused_iff, not_not])]
  simp only [poolFor_eq hw, ok_bind, Pools.lock_eq (h.free _), Pools.unlock_locked (h.free _),
    hwalk,
    hmem, decide_eq_true_eq]
  split_ifs with hempty hx
  · -- an empty list has no sfsd
    have hself : p.links.Ring (.head (poolIndex w)) [] :=
      ⟨hempty, List.nodup_singleton _, by simpa [hempty] using hring.back _ List.mem_cons_self⟩
    rw [← hmem, hring.unique hself] at hx
    cases hx
  · rfl
  · rfl
  · rfl

/-- An sfsd that is in no pool comes to the end of its list. -/
theorem Placed.add (h : Placed p entries) (hw : w ≤ minimumWeight)
    (hx : x ∉ entries.map Prod.fst) :
    Placed { p with links := p.links.addTail (.sfsd x) (.head (poolIndex w)) }
      (entries ++ [(x, w)]) := by
  have hnew : ∀ i, Node.sfsd x ∉ Node.head i :: (poolList entries i).map .sfsd := by
    intro i hm
    have hm : x ∈ poolList entries i := by simpa using hm
    exact hx ((List.filter_sublist.map Prod.fst).subset hm)
  have hlt := poolIndex_lt hw
  refine ⟨fun i hi => ?_, h.free, ?_, ?_⟩
  · rw [poolList_append]
    by_cases hr : inRange i w = true
    · obtain rfl := (inRange_iff hw hi).mp hr
      rw [if_pos hr, List.map_append]
      exact (h.ring _ hi).addTail (hnew _)
    · have hne : i ≠ poolIndex w := fun e => hr ((inRange_iff hw hi).mpr e)
      rw [if_neg hr, List.append_nil]
      exact (h.ring _ hlt).addTail_other (h.ring _ hi) (h.disjoint hlt hi hne) (hnew _)
  · rw [List.map_append]
    exact h.once.append (List.nodup_singleton _) (by simpa using hx)
  · intro e he
    rcases List.mem_append.mp he with he | he
    · exact h.accepted e he
    · obtain rfl := List.mem_singleton.mp he
      exact hw

/-- An sfsd that is taken off its list leaves the others as they are. -/
theorem Placed.remove (h : Placed p entries) (hx : OnPool entries w x) :
    Placed { p with links := p.links.del (.sfsd x) } (entries.filter fun e => e.1 ≠ x) := by
  obtain ⟨i, hi, -, hx⟩ := hx
  refine ⟨fun j hj => ?_, h.free, ?_, fun e he => h.accepted e (List.mem_of_mem_filter he)⟩
  · have hmem : Node.sfsd x ∈ (poolList entries i).map .sfsd := List.mem_map_of_mem hx
    rw [poolList_filter h.once, List.map_erase (fun _ _ e => Node.sfsd.inj e)]
    by_cases hne : j = i
    · subst hne
      exact (h.ring _ hj).del_erase hmem
    · have hnot : Node.sfsd x ∉ (poolList entries j).map .sfsd := fun hm =>
        h.disjoint hi hj hne _ (List.mem_cons_of_mem _ hm) (List.mem_cons_of_mem _ hmem)
      rw [List.erase_of_not_mem hnot]
      exact (h.ring _ hi).del_other (List.mem_cons_of_mem _ hmem) (h.ring _ hj)
        (h.disjoint hi hj hne)
  · exact h.once.sublist (List.filter_sublist.map Prod.fst)

theorem placed_init (h : sstackSfsdPoolInit true links = some p₀) : Placed p₀ [] := by
  have hreset : ∀ n, ∀ i < n, ((List.range n).foldl (fun s i => s.reset (Node.head i)) links).Ring
      (.head i) [] := by
    intro n
    induction n with
    | zero => intro i hi; omega
    | succ n ih =>
      intro i hi
      rw [List.range_succ, List.foldl_append, List.foldl_cons, List.foldl_nil]
      by_cases hin : i = n
      · rw [hin]
        exact Links.ring_reset
      · exact (ih i (by omega)).reset_other (by simpa using Ne.symm hin)
  obtain rfl := Option.some.inj h
  exact ⟨fun i hi => hreset _ i hi, fun _ => rfl, List.nodup_nil, by simp⟩

theorem Placed.exec (h : Placed p entries) (hc : c.Allowed entries)
    (hturns : entries.length < turns) :
    ∃ ret p', c.exec turns (some p) = .ok (ret, some p') ∧ Placed p' (c.record entries) ∧
      Answered p p' entries ret c := by
  cases c with
  | add w sfsd =>
    by_cases hok : w ≤ minimumWeight ∧ sfsd ≠ none
    · obtain ⟨hw, hsome⟩ := hok
      obtain ⟨x, rfl⟩ := Option.ne_none_iff_exists'.mp hsome
      refine ⟨0, _, sstackSfsdAdd_eq h hw, ?_, by simp [Answered, hw]⟩
      rw [Call.record, if_pos hw]
      exact h.add hw hc
    · refine ⟨-1, p, exec_refused (Or.inl rfl) hok, ?_,
      by simp only [Answered, if_neg hok, and_self]⟩
      cases sfsd with
      | none => exact h
      | some x =>
        rw [Call.record, if_neg (by simpa using hok)]
        exact h
  | remove w sfsd =>
    by_cases hok : w ≤ minimumWeight ∧ sfsd ≠ none
    · obtain ⟨hw, hsome⟩ := hok
      obtain ⟨x, rfl⟩ := Option.ne_none_iff_exists'.mp hsome
      have hexec := sstackSfsdRemove_eq (x := x) h hw hturns
      by_cases hx : OnPool entries w x
      · have hplaced := h.remove hx
        rw [if_pos hx] at hexec
        refine ⟨0, _, hexec, ?_, by simp [hx], by simp, fun _ y hy i hi => ?_⟩
        · rw [Call.record, if_pos hx]
          exact hplaced
        · obtain rfl := Option.some.inj hy
          rw [← poolList_filter h.once]
          exact hplaced.ring i hi
      · rw [if_neg hx] at hexec
        refine ⟨-1, p, hexec, ?_, by simp [hx], by simp, by simp⟩
        rw [Call.record, if_neg hx]
        exact h
    · have hnot : ∀ x ∈ sfsd, ¬ OnPool entries w x := by
        rintro x rfl ⟨i, -, hr, -⟩
        exact hok ⟨le_of_inRange hr, Option.some_ne_none x⟩
      refine ⟨-1, p, exec_refused (Or.inr rfl) hok, ?_, by simpa using hnot, by simp, by simp⟩
      cases sfsd with
      | none => exact h
      | some x =>
        rw [Call.record, if_neg (hnot x rfl)]
        exact h

theorem record_length_le : (c.record entries).length ≤ entries.length + 1 := by
  cases c with
  | add w sfsd =>
    cases sfsd with
    | none => exact Nat.le_succ _
    | some x =>
      rw [Call.record]
      split_ifs
      · simp
      · exact Nat.le_succ _
  | remove w sfsd =>
    cases sfsd with
    | none => exact Nat.le_succ _
    | some x =>
      rw [Call.record]
      split_ifs
      · exact (List.length_filter_le _ _).trans (Nat.le_succ _)
      · exact Nat.le_succ _

/-- A run of calls, each of which finds the pools as the entries before it say. -/
theorem Placed.runCalls (h : Placed p entries) (hcalls : AllAllowed entries calls)
    (hturns : entries.length + calls.length ≤ turns) : ∃ p', runCalls turns (some p) calls =
      .ok (some p') ∧ Placed p' (calls.foldl Call.record entries) ∧
        (calls.foldl Call.record entries).length ≤ entries.length + calls.length := by
  induction calls generalizing p entries with
  | nil => exact ⟨p, rfl, h, le_rfl⟩
  | cons c calls ih =>
    rw [List.length_cons] at hturns ⊢
    have hlt : entries.length < turns := by omega
    obtain ⟨ret, p₁, hexec, hplaced, -⟩ := h.exec hcalls.1 hlt
    have hlen : (c.record entries).length ≤ entries.length + 1 := record_length_le
    obtain ⟨p', hrun, hp', hle⟩ := ih hplaced hcalls.2 (by omega)
    refine ⟨p', ?_, hp', hle.trans (by omega)⟩
    rw [SfsdPool.runCalls, hexec, ok_bind]
    exact hrun

/-- After any calls that add only sfsds that are in no pool, the pools are circular lists of the
sfsds added and not removed, in order; each is on the list of its weight only, and the next call is
answered by what is on the lists. -/
theorem sfsdPools_right (hinit : sstackSfsdPoolInit true links = some p₀)
    (hcalls : AllAllowed [] calls) (hturns : calls.length < turns) :
    ∃ p, runCalls turns (some p₀) calls = .ok (some p) ∧
      (∀ i < maxSfsdPools, p.links.Ring (.head i)
        ((poolList (calls.foldl Call.record []) i).map .sfsd)) ∧
      (∀ x w, (x, w) ∈ calls.foldl Call.record [] → ∃ i < maxSfsdPools, inRange i w = true ∧
        ∀ j < maxSfsdPools, x ∈ poolList (calls.foldl Call.record []) j ↔ j = i) ∧
      ∀ c : Call α, c.Allowed (calls.foldl Call.record []) → ∃ ret p',
        c.exec turns (some p) = .ok (ret, some p') ∧
          Answered p p' (calls.foldl Call.record []) ret c := by
  obtain ⟨p, hrun, hplaced, hlen⟩ :=
    (placed_init hinit).runCalls hcalls (by simpa using hturns.le)
  refine ⟨p, hrun, hplaced.ring, fun x w he => ?_, fun c hc => ?_⟩
  · have hw := hplaced.accepted _ he
    exact ⟨poolIndex w, poolIndex_lt hw, (inRange_iff hw (poolIndex_lt hw)).mpr rfl,
      fun j hj => hplaced.only he hj⟩
  · obtain ⟨ret, p', hexec, -, hans⟩ :=
      hplaced.exec hc (lt_of_le_of_lt hlen (by simpa using hturns))
    exact ⟨ret, p', hexec, hans⟩

end Calls

def addedTwo : List (Call ℕ) := [.add 5 (some 1), .add 50 (some 2), .remove 10 (some 1)]

theorem sfsdPools_right_two : AllAllowed [] addedTwo ∧ ∃ p₀ p,
    sstackSfsdPoolInit true ⟨id, id⟩ = some p₀ ∧ runCalls 4 (some p₀) addedTwo = .ok (some p) ∧
      p.links.Ring (.head 0) [] ∧ p.links.Ring (.head 4) [.sfsd 2] := by
  have hcalls : AllAllowed [] addedTwo := by
    refine ⟨?_, ?_, ?_, trivial⟩
    · show 1 ∉ _
      decide
    · show 2 ∉ _
      decide
    · trivial
  obtain ⟨p₀, hinit⟩ : ∃ p₀ : Pools ℕ, sstackSfsdPoolInit true ⟨id, id⟩ = some p₀ := ⟨_, rfl⟩
  have hturns : addedTwo.length < 4 := by decide
  obtain ⟨p, hrun, hring, -⟩ := sfsdPools_right hinit hcalls hturns
  exact ⟨hcalls, p₀, p, hinit, hrun, hring 0 (by decide), hring 4 (by decide)⟩

end SeamlessStack.Sfs.SfsdPool
