import SeamlessStack.Lib.Priority
import SeamlessStack.Lib.Runs

/-! The policy search table: `submit_policy_entry` puts an entry under a key into one of sixteen
buckets, and `get_policy` looks for the most specific one. -/
namespace SeamlessStack.Policy

open Lib Function

def einval : ℤ := 22
def enomem : ℤ := 12

def numBuckets : ℕ := 16

def numMaxPolicy : ℕ := 64

/-- The id -1 stands for every user or group. -/
def anyId : BitVec 32 := -1

/-- The part of `struct policy_input` that decides where the entry goes. -/
structure PolicyInput where
  fname : List Char
  ftype : List Char
  uid : BitVec 32
  gid : BitVec 32
  deriving DecidableEq, Repr

def decimal (v : BitVec 32) : List Char :=
  if v.toInt < 0 then '-' :: Nat.toDigits 10 v.toInt.natAbs else Nat.toDigits 10 v.toInt.natAbs

def hex (v : BitVec 32) : List Char := Nat.toDigits 16 v.toNat

namespace PolicyInput

def index (pi : PolicyInput) : ℕ :=
  (if pi.ftype.head? ≠ some '*' then 1 else 0) ||| (if pi.gid ≠ anyId then 2 else 0) |||
    (if pi.uid ≠ anyId then 4 else 0) ||| (if pi.fname.head? ≠ some '*' then 8 else 0)

def key (pi : PolicyInput) : List Char :=
  pi.fname ++ '^' :: (pi.ftype ++ '^' :: (decimal pi.uid ++ '^' :: decimal pi.gid))

theorem index_lt (pi : PolicyInput) : pi.index < numBuckets := by
  unfold index
  split_ifs <;> decide

end PolicyInput

/-- The Judy arrays, as maps from strings to entries. Entries are numbered as they are
allocated. -/
structure PolicyTable where
  initialized : Bool
  pst : ℕ → List Char → Option ℕ
  refcount : ℕ → BitVec 32
  next : ℕ

namespace PolicyTable

def addPolicyToPst (t : PolicyTable) (key : List Char) (index pe : ℕ) : PolicyTable :=
  { t with pst := update t.pst index (update (t.pst index) key (some pe)) }

def removeFromPst (t : PolicyTable) (key : List Char) (index : ℕ) : PolicyTable :=
  { t with pst := update t.pst index (update (t.pst index) key none) }

end PolicyTable

/-- Whether there is a database and memory for the entry, and whether the database takes it. -/
structure SubmitCall where
  pi : PolicyInput
  hasDb : Bool
  allocated : Bool
  stored : Bool
  deriving DecidableEq, Repr

def submitPolicyEntry (t : PolicyTable) (c : SubmitCall) : ℤ × PolicyTable :=
  if t.initialized = false ∨ c.hasDb = false then (-einval, t)
  else if c.allocated = false then (-enomem, t)
  else
    let u := { t.addPolicyToPst c.pi.key c.pi.index t.next with next := t.next + 1 }
    if c.stored then (0, u) else (-einval, u.removeFromPst c.pi.key c.pi.index)

/-- The path, what `get_file_type` says about it, and the ids of the process. -/
structure Query where
  path : List Char
  ftype : List Char
  uid : BitVec 32
  gid : BitVec 32
  deriving DecidableEq, Repr

namespace Query

def pick {α : Type} (bit : ℕ) (wild concrete : α) : α := if bit = 0 then wild else concrete

/-- The combination of concrete values and wildcards of a bucket. -/
def combination (q : Query) (i : ℕ) : PolicyInput where
  fname := pick (i >>> 3 &&& 1) ['*'] q.path
  uid := pick (i >>> 2 &&& 1) anyId q.uid
  gid := pick (i >>> 1 &&& 1) anyId q.gid
  ftype := pick (i &&& 1) ['*'] q.ftype

def key (q : Query) (i : ℕ) : List Char :=
  (q.combination i).fname ++ '^' :: (hex (q.combination i).uid ++ '^' ::
    (hex (q.combination i).gid ++ '^' :: (q.combination i).ftype))

end Query

/-- The entry that is found, and the table with its reference counted. -/
def getPolicy (t : PolicyTable) (q : Query) : Option ℕ × PolicyTable :=
  match searchDown (fun i => t.pst i (q.key i)) numBuckets with
  | some pe => (some pe, { t with refcount := update t.refcount pe (t.refcount pe + 1) })
  | none => (none, t)

/-- The entry that should be found among the submissions, newest first. -/
def policyFor (submitted : List PolicyInput) (q : Query) : Option ℕ :=
  searchDown (fun i => latest (· = q.combination i) submitted) numBuckets

/-- The table with what was submitted to it. -/
structure PolicyUse where
  table : PolicyTable
  submitted : List PolicyInput

/-- Only calls that return 0 are seen. -/
def submitStep (s : PolicyUse) (c : SubmitCall) : Option PolicyUse :=
  if (submitPolicyEntry s.table c).1 = 0 then
    some ⟨(submitPolicyEntry s.table c).2, c.pi :: s.submitted⟩
  else none

/-- From the table that `init_policy` leaves when the database is empty. -/
def policySystem : System PolicyUse SubmitCall where
  init s := ∃ refcount, s = ⟨⟨true, fun _ _ => none, refcount, 0⟩, []⟩
  step := submitStep

theorem getPolicy_fst (t : PolicyTable) (q : Query) :
    (getPolicy t q).1 = searchDown (fun i => t.pst i (q.key i)) numBuckets := by
  unfold getPolicy
  split <;> simp_all

theorem submitPolicyEntry_eq_zero {t : PolicyTable} {c : SubmitCall}
    (h : (submitPolicyEntry t c).1 = 0) : (submitPolicyEntry t c).2 =
      { t.addPolicyToPst c.pi.key c.pi.index t.next with next := t.next + 1 } := by
  unfold submitPolicyEntry at h ⊢
  split at h
  · cases h
  · split at h
    · cases h
    · rename_i hinit halloc
      rw [if_neg hinit, if_neg halloc]
      cases hstored : c.stored with
      | true => rfl
      | false =>
        rw [hstored] at h
        cases h

/-- What a bucket holds under a key is the newest submission with that bucket and key. -/
structure PolicyUse.Kept (s : PolicyUse) : Prop where
  next : s.table.next = s.submitted.length
  pst : ∀ i key, s.table.pst i key = latest (fun pi => pi.index = i ∧ pi.key = key) s.submitted

theorem PolicyUse.Kept.submitStep {s t : PolicyUse} {c : SubmitCall} (h : s.Kept)
    (ht : submitStep s c = some t) : t.Kept := by
  unfold Policy.submitStep at ht
  split at ht
  · rename_i hzero
    obtain rfl := Option.some.inj ht
    rw [submitPolicyEntry_eq_zero hzero]
    constructor
    · simp [h.next]
    · intro i key
      have hold := h.pst i key
      simp only [PolicyTable.addPolicyToPst, latest, update_apply, h.next]
      by_cases hi : i = c.pi.index
      · subst hi
        by_cases hkey : key = c.pi.key
        · simp [hkey]
        · simp [hkey, Ne.symm hkey, hold]
      · simp [hi, Ne.symm hi, hold]
  · cases ht

theorem reach_kept {s : PolicyUse} (hr : policySystem.Reach System.AnyStep s) : s.Kept := by
  apply hr.invariant
  · rintro s ⟨refcount, rfl⟩
    exact ⟨rfl, fun _ _ => rfl⟩
  · intro s c t _ h _ ht
    exact h.submitStep ht

end SeamlessStack.Policy
