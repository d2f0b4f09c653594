import SeamlessStack.Db.Inode
import SeamlessStack.Policy.Record

/-! `submit_policy_entry` over the MongoDB backend. Whether an entry is there is asked with a null
pointer for the record, and a store counts as done when it returns 0. -/
namespace SeamlessStack.Policy

open Lib Db

/-- A call of `submit_policy_entry`: what the record is made of, the other arguments, whether there
is memory, and what the calls of the backend do. -/
structure Submission where
  write : PolicyWrite
  hasDb : Bool
  dbType : DbType
  allocated : Bool
  get : GetOutcome
  update : UpdateOutcome
  insert : InsertOutcome

/-- The copies that make the record fail, or the backend does. -/
inductive SubmitFault
  | copy (fault : CopyFault)
  | backend (fault : Db.Fault)
  deriving DecidableEq, Repr

namespace Submission
variable {t : PolicyTable} {c : Collection Block} {s : Submission}

def doc (s : Submission) (pdbEntry : Block) : Document Block :=
  ⟨s.write.pi.key, BitVec.ofNat 32 pdbEntrySize, pdbEntry⟩

/-- The call of `db_get`, and the update or the insertion after it. -/
def store (s : Submission) (c : Collection Block) (pdbEntry : Block) :
    Except Db.Fault (ℤ × Collection Block) := do
  let (ret, _) ← mongoDbGet c s.get s.write.pi.key false
  if ret ≠ 0 then
    return mongoDbUpdate c s.update s.dbType s.write.pi.key pdbEntry pdbEntrySize
  else
    return mongoDbInsert c s.insert s.dbType s.write.pi.key pdbEntry pdbEntrySize

def call (s : Submission) (stored : Bool) : SubmitCall :=
  ⟨s.write.pi.toPolicyInput, s.hasDb, s.allocated, stored⟩

/-- The call comes to making the record. -/
def Begins (t : PolicyTable) (s : Submission) : Prop :=
  t.initialized = true ∧ s.hasDb = true ∧ s.allocated = true

instance (t : PolicyTable) (s : Submission) : Decidable (Begins t s) :=
  inferInstanceAs (Decidable (_ ∧ _))

/-- What `submit_policy_entry` returns, and the table and the collection after it. -/
def submit (t : PolicyTable) (c : Collection Block) (s : Submission) :
    Except SubmitFault (ℤ × PolicyTable × Collection Block) :=
  if Begins t s then do
    let (_, pdbEntry) ← (submitRecord s.write).mapError .copy
    let (ret, c') ← (s.store c pdbEntry).mapError .backend
    return ((submitPolicyEntry t (s.call (ret = 0))).1, (submitPolicyEntry t (s.call (ret = 0))).2,
      c')
  else
    .ok ((submitPolicyEntry t (s.call false)).1, (submitPolicyEntry t (s.call false)).2, c)

/-- 0 with the policy in the table and the database, or another number with both as they were. -/
def SubmitTrue (t : PolicyTable) (c : Collection Block) (s : Submission) : Prop :=
  ∃ ret t' c', submit t c s = .ok (ret, t', c') ∧
    (ret = 0 → t'.pst s.write.pi.index s.write.pi.key = some t.next ∧
      ∃ pdbEntry, submitRecord s.write = .ok (s.write.pi.key, pdbEntry) ∧ s.doc pdbEntry ∈ c') ∧
    (ret ≠ 0 → t'.pst = t.pst ∧ c' = c)

/-- The calls of the backend do not come to 0: an entry that is found is written to a null pointer,
and one that is not is updated, which returns its length. -/
theorem store_ne_zero {pdbEntry : Block} {ret : ℤ} {c' : Collection Block}
    (h : s.store c pdbEntry = .ok (ret, c')) : ret ≠ 0 := by
  unfold store mongoDbGet at h
  cases hfound : s.get.found c s.write.pi.key with
  | some d =>
    rw [hfound] at h
    cases h
  | none =>
    rw [hfound] at h
    have hupdate : (ret, c') =
        mongoDbUpdate c s.update s.dbType s.write.pi.key pdbEntry pdbEntrySize :=
      (Except.ok.inj h).symm
    rw [mongoDbUpdate_eq] at hupdate
    split_ifs at hupdate
    · obtain ⟨rfl, -⟩ := Prod.mk.inj hupdate
      decide
    · obtain ⟨rfl, -⟩ := Prod.mk.inj hupdate
      decide

/-- A call that does not come to the record changes nothing. -/
theorem submitTrue_of_not_begins (h : ¬ Begins t s) : SubmitTrue t c s := by
  have hret : submitPolicyEntry t (s.call false) = (-einval, t) ∨
      submitPolicyEntry t (s.call false) = (-enomem, t) := by
    unfold submitPolicyEntry
    by_cases hearly : t.initialized = false ∨ (s.call false).hasDb = false
    · rw [if_pos hearly]
      exact .inl rfl
    · rw [not_or, Bool.not_eq_false, Bool.not_eq_false] at hearly
      have halloc : (s.call false).allocated = false := by
        rw [← Bool.not_eq_true]
        exact fun halloc => h ⟨hearly.1, hearly.2, halloc⟩
      rw [if_neg (by simp [hearly]), if_pos halloc]
      exact .inr rfl
  unfold SubmitTrue submit
  rw [if_neg h]
  obtain hret | hret := hret
  · exact ⟨_, _, _, rfl, by simp [hret, Policy.einval], by simp [hret]⟩
  · exact ⟨_, _, _, rfl, by simp [hret, Policy.enomem], by simp [hret]⟩

theorem submitTrue_iff : SubmitTrue t c s ↔ ¬ Begins t s := by
  refine ⟨?_, submitTrue_of_not_begins⟩
  rintro ⟨ret, t', c', hsubmit, -⟩ hbegins
  unfold submit at hsubmit
  rw [if_pos hbegins] at hsubmit
  obtain ⟨record, hrecord, -⟩ := bind_eq_ok.mp hsubmit
  cases hmade : submitRecord s.write with
  | error fault =>
    rw [hmade] at hrecord
    cases hrecord
  | ok made => exact not_returns_submitRecord s.write ⟨made, hmade⟩

end Submission

/-- `get_inode` can be wrong only about a record that is not there, `put_inode` only about an
update, and `submit_policy_entry` is right only when it returns before it makes the record. -/
theorem mongoCallers_iff {ρ ι : Type} :
    (∀ (c : Collection ρ) (o : GetOutcome) (stale : Pointer ρ) (fill : ρ → ℤ × ι) (num : BitVec 64),
      GetTrue c o stale fill num ↔
        num < inodeNumStart ∨ (∃ d, o.found c (inodeStr num) = some d) ∨
          ∀ record, stale = .memory record → (fill record).1 ≠ 0) ∧
    (∀ (c : Collection ρ) (oi : InsertOutcome) (ou : UpdateOutcome) (num : BitVec 64)
      (flattened : Option (ρ × ℕ)) (update : ℤ),
      PutTrue c oi ou num flattened update ↔
        (update = 1 → ¬ num < inodeNumStart → ou.Modifies .inode →
          ∀ data len, flattened = some (data, len) → UpdateSays c num data len)) ∧
    ∀ (t : PolicyTable) (c : Collection Block) (s : Submission),
      Submission.SubmitTrue t c s ↔ ¬ Submission.Begins t s :=
  ⟨fun _ _ _ _ _ => getTrue_iff, fun _ _ _ _ _ _ => putTrue_iff,
    fun _ _ _ => Submission.submitTrue_iff⟩

/-- A submission with a database and memory, for which all calls of the backend succeed. -/
def smoothSubmission (w : PolicyWrite) : Submission where
  write := w
  hasDb := true
  dbType := .policy
  allocated := true
  get := ⟨true, true, true⟩
  update := ⟨true, true, true, true, true, true⟩
  insert := ⟨true, true, true, true, true⟩

/-- With all calls successful: a missing inode is read from where the pointer leads, an update
stores nothing and returns 0, and a policy is written beyond the end of its record. -/
theorem mongoCallers_wrong :
    getInode [] ⟨true, true, true⟩ (.memory ()) (fun _ => (0, ())) 2 =
      .ok (0, some ()) ∧
    ¬ GetTrue [] ⟨true, true, true⟩ (.memory ()) (fun _ => (0, ())) 2 ∧
    putInode [] ⟨true, true, true, true, true⟩ ⟨true, true, true, true, true, true⟩ 2
      (some ((), 4272)) 1 = (0, []) ∧
    ¬ PutTrue [] ⟨true, true, true, true, true⟩ ⟨true, true, true, true, true, true⟩ 2
      (some ((), 4272)) 1 ∧
    ∀ w, ¬ Submission.SubmitTrue ⟨true, fun _ _ => none, fun _ => 0, 0⟩ []
      (smoothSubmission w) := by
  refine ⟨rfl, ?_, by decide, ?_, fun w h => ?_⟩
  · intro h
    obtain ⟨d, hd⟩ := h (some ()) rfl
    cases hd
  · intro h
    obtain ⟨data, len, -, hmem⟩ := h.1 (by decide)
    cases hmem
  · exact Submission.submitTrue_iff.mp h ⟨rfl, rfl, rfl⟩

end SeamlessStack.Policy
