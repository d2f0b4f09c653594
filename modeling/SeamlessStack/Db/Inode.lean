import SeamlessStack.Db.Mongo
import SeamlessStack.Lib.Numerals

/-! `get_inode` and `put_inode` over the MongoDB backend. `fill` gives what `fill_inode` returns and
the inode it leaves, and `flattened` what `flatten_inode` returned, with its length. -/
namespace SeamlessStack.Db

open Lib

variable {ρ ι : Type}

def einval : ℤ := 22

def inodeNumStart : BitVec 64 := 2

def inodeStr (num : BitVec 64) : Name := signedDecimal num.toInt

theorem inodeStr_injective : Function.Injective inodeStr := by
  intro m n h
  have hint : m.toInt = n.toInt := signedDecimal_injective h
  exact BitVec.eq_of_toInt_eq hint

/-- `fill_inode` tests its pointer for null only. -/
def fillInode (fill : ρ → ℤ × ι) : Pointer ρ → Except Fault (ℤ × Option ι)
  | .null => .ok (-einval, none)
  | .unmapped => .error .unmapped
  | .memory record => .ok ((fill record).1, some (fill record).2)

/-- What is returned, and the inode if filled in. `stale` is `data` before `db_get`, whose result
counts as success unless 0. -/
def getInode (c : Collection ρ) (o : GetOutcome) (stale : Pointer ρ) (fill : ρ → ℤ × ι)
    (num : BitVec 64) : Except Fault (ℤ × Option ι) := do
  if num < inodeNumStart then
    return (-einval, none)
  let (ret, data) ← mongoDbGet c o (inodeStr num) true
  if ret ≠ 0 then
    fillInode fill (data.getD stale)
  else
    return (-1, none)

/-- `update` is 1 for an update and 0 for an insertion. -/
def putInode (c : Collection ρ) (oi : InsertOutcome) (ou : UpdateOutcome) (num : BitVec 64)
    (flattened : Option (ρ × ℕ)) (update : ℤ) : ℤ × Collection ρ :=
  if update < 0 ∨ 1 < update then (-einval, c)
  else if num < inodeNumStart then (-einval, c)
  else
    match flattened with
    | none => (-1, c)
    | some (data, len) =>
      if update = 0 then
        let r := mongoDbInsert c oi .inode (inodeStr num) data len
        (if r.1 = 1 then 0 else -2, r.2)
      else
        let r := mongoDbUpdate c ou .inode (inodeStr num) data len
        (if 0 < r.1 then 0 else -2, r.2)

section Get
variable {c : Collection ρ} {o : GetOutcome} {stale : Pointer ρ} {fill : ρ → ℤ × ι}
  {num : BitVec 64}

theorem getInode_missing (hnum : ¬ num < inodeNumStart) (h : o.found c (inodeStr num) = none) :
    getInode c o stale fill num = fillInode fill stale := by
  unfold getInode mongoDbGet
  rw [if_neg hnum, h]
  rfl

/-- `get_inode` returns 0 only if the query gave a document for the inode. -/
def GetTrue (c : Collection ρ) (o : GetOutcome) (stale : Pointer ρ) (fill : ρ → ℤ × ι)
    (num : BitVec 64) : Prop :=
  ∀ inode, getInode c o stale fill num = .ok (0, inode) →
    ∃ d, o.found c (inodeStr num) = some d

theorem getTrue_iff : GetTrue c o stale fill num ↔
    num < inodeNumStart ∨ (∃ d, o.found c (inodeStr num) = some d) ∨
      ∀ record, stale = .memory record → (fill record).1 ≠ 0 := by
  by_cases hnum : num < inodeNumStart
  · refine iff_of_true ?_ (.inl hnum)
    intro inode h
    unfold getInode at h
    rw [if_pos hnum] at h
    cases h
  cases hfound : o.found c (inodeStr num) with
  | some d => exact iff_of_true (fun _ _ => ⟨d, hfound⟩) (.inr (.inl ⟨d, rfl⟩))
  | none =>
    unfold GetTrue
    rw [getInode_missing hnum hfound, hfound]
    constructor
    · intro h
      refine .inr (.inr ?_)
      intro record hstale hzero
      rw [hstale] at h
      obtain ⟨d, hd⟩ := h (some (fill record).2) (by rw [fillInode, hzero])
      cases hd
    · rintro (h | ⟨d, hd⟩ | h) inode hfill
      · exact absurd h hnum
      · cases hd
      · cases stale with
        | null => cases hfill
        | unmapped => cases hfill
        | memory record =>
          injection hfill with hpair
          injection hpair with hzero
          exact absurd hzero (h record rfl)

end Get

section Put
variable {c : Collection ρ} {oi : InsertOutcome} {ou : UpdateOutcome} {num : BitVec 64}
  {flattened : Option (ρ × ℕ)} {update : ℤ} {data : ρ} {len : ℕ}

def inodeDoc (num : BitVec 64) (data : ρ) (len : ℕ) : Document ρ :=
  ⟨inodeStr num, BitVec.ofNat 32 len, data⟩

theorem findOne_modify_self {d : Document ρ} (h : c.findOne (inodeStr num) = some d) :
    (c.findAndModify (inodeDoc num data len)).findOne (inodeStr num) =
      some (inodeDoc num data len) :=
  findKey_replaceFirst_self h

theorem modify_of_none (h : c.findOne (inodeStr num) = none) :
    c.findAndModify (inodeDoc num data len) = c :=
  replaceFirst_of_none h

theorem findOne_modify_of_ne {m : BitVec 64} (h : num ≠ m) :
    (c.findAndModify (inodeDoc num data len)).findOne (inodeStr m) = c.findOne (inodeStr m) :=
  findKey_replaceFirst_of_ne (inodeStr_injective.ne h)

def returnedLen (len : ℕ) : ℤ := (BitVec.ofNat 32 len).toInt

/-- `put_inode` returns 0 exactly if it stored the record, and otherwise changes nothing. -/
def PutTrue (c : Collection ρ) (oi : InsertOutcome) (ou : UpdateOutcome) (num : BitVec 64)
    (flattened : Option (ρ × ℕ)) (update : ℤ) : Prop :=
  ((putInode c oi ou num flattened update).1 = 0 → ∃ data len, flattened = some (data, len) ∧
      inodeDoc num data len ∈ (putInode c oi ou num flattened update).2) ∧
    ((putInode c oi ou num flattened update).1 ≠ 0 →
      (putInode c oi ou num flattened update).2 = c)

/-- The update is made, and what it returns says whether the record was there. -/
def UpdateSays (c : Collection ρ) (num : BitVec 64) (data : ρ) (len : ℕ) : Prop :=
  if 0 < returnedLen len then ∃ d, c.findOne (inodeStr num) = some d
  else ∀ d, c.findOne (inodeStr num) = some d → d = inodeDoc num data len

theorem putInode_insert (c : Collection ρ) (oi : InsertOutcome) (ou : UpdateOutcome) (data : ρ)
    (len : ℕ) (hnum : ¬ num < inodeNumStart) :
    putInode c oi ou num (some (data, len)) 0 = (0, c ++ [inodeDoc num data len]) ∨
      putInode c oi ou num (some (data, len)) 0 = (-2, c) := by
  unfold putInode
  rw [if_neg (by decide), if_neg hnum]
  obtain h | ⟨ret, hret, h⟩ := mongoDbInsert_cases c oi .inode (inodeStr num) data len
  · left
    simp only [h]
    rfl
  · right
    simp only [h, if_neg hret]
    rfl

theorem putInode_update (hnum : ¬ num < inodeNumStart) :
    putInode c oi ou num (some (data, len)) 1 =
      if ou.Modifies .inode then
        (if 0 < returnedLen len then 0 else -2, c.findAndModify (inodeDoc num data len))
      else (-2, c) := by
  unfold putInode
  rw [if_neg (by decide), if_neg hnum]
  simp only [mongoDbUpdate_eq]
  by_cases h : ou.Modifies .inode
  · simp only [if_pos h]
    rfl
  · simp only [if_neg h]
    rfl

theorem putTrue_of_unchanged (ret : ℤ) (hret : ret ≠ 0)
    (h : putInode c oi ou num flattened update = (ret, c)) :
    PutTrue c oi ou num flattened update := by
  unfold PutTrue
  rw [h]
  exact ⟨fun hzero => absurd hzero hret, fun _ => rfl⟩

theorem putTrue_update_iff (hnum : ¬ num < inodeNumStart) (hmod : ou.Modifies .inode) :
    PutTrue c oi ou num (some (data, len)) 1 ↔ UpdateSays c num data len := by
  unfold PutTrue UpdateSays
  rw [putInode_update hnum, if_pos hmod]
  by_cases hlen : 0 < returnedLen len
  · simp only [if_pos hlen, ne_eq, not_true_eq_false, false_implies, and_true, true_implies]
    constructor
    · rintro ⟨data', len', hsome, hmem⟩
      obtain ⟨rfl, rfl⟩ := Prod.mk.inj (Option.some.inj hsome)
      exact mem_replaceFirst_iff.mp hmem
    · intro h
      exact ⟨data, len, rfl, mem_replaceFirst_iff.mpr h⟩
  · simp only [if_neg hlen]
    constructor
    · intro h
      exact replaceFirst_eq_self_iff.mp (h.2 (by decide))
    · intro h
      exact ⟨fun hzero => absurd hzero (by decide), fun _ => replaceFirst_eq_self_iff.mpr h⟩

/-- Only an update can be wrong. -/
theorem putTrue_iff : PutTrue c oi ou num flattened update ↔
    (update = 1 → ¬ num < inodeNumStart → ou.Modifies .inode →
      ∀ data len, flattened = some (data, len) → UpdateSays c num data len) := by
  by_cases hrange : update < 0 ∨ 1 < update
  · refine iff_of_true (putTrue_of_unchanged (-einval) (by decide) ?_) (by omega)
    unfold putInode
    rw [if_pos hrange]
  by_cases hnum : num < inodeNumStart
  · refine iff_of_true (putTrue_of_unchanged (-einval) (by decide) ?_) ?_
    · unfold putInode
      rw [if_neg hrange, if_pos hnum]
    · exact fun _ h => absurd hnum h
  obtain _ | ⟨data, len⟩ := flattened
  · refine iff_of_true (putTrue_of_unchanged (-1) (by decide) ?_) ?_
    · unfold putInode
      rw [if_neg hrange, if_neg hnum]
    · rintro _ _ _ data len h
      cases h
  obtain rfl | rfl : update = 0 ∨ update = 1 := by omega
  · refine iff_of_true ?_ (by omega)
    obtain h | h := putInode_insert c oi ou data len hnum
    · unfold PutTrue
      rw [h]
      refine ⟨fun _ => ⟨data, len, rfl, ?_⟩, fun hne => absurd rfl hne⟩
      exact List.mem_append_right c List.mem_cons_self
    · exact putTrue_of_unchanged (-2) (by decide) h
  · by_cases hmod : ou.Modifies .inode
    · rw [putTrue_update_iff hnum hmod]
      constructor
      · intro h _ _ _ data' len' hsome
        obtain ⟨rfl, rfl⟩ := Prod.mk.inj (Option.some.inj hsome)
        exact h
      · intro h
        exact h rfl hnum hmod data len rfl
    · refine iff_of_true (putTrue_of_unchanged (-2) (by decide) ?_) ?_
      · rw [putInode_update hnum, if_neg hmod]
      · exact fun _ _ h => absurd h hmod

end Put

end SeamlessStack.Db
