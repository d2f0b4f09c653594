import SeamlessStack.Lib.Except
import SeamlessStack.Lib.Keyed

/-! The MongoDB backend with the numbers that it returns. Which calls of the client library succeed
is an input; a call that fails changes nothing, and a document is read as it was stored. -/
namespace SeamlessStack.Db

open Lib

abbrev Name := List Char

def enomem : ℤ := 12

inductive DbType
  | policy
  | inode
  | journal
  | config
  | max
  deriving DecidableEq, Repr

def constructRecordName : DbType → Option Name
  | .policy => some "policy_struct".toList
  | .inode => some "inode_struct".toList
  | .journal => some "journal_struct".toList
  | .config => some "config_struct".toList
  | .max => none

/-- A document: `record_num`, `record_length`, and what stands under the name of the record. -/
structure Document (ρ : Type) where
  recordNum : Name
  recordLength : BitVec 32
  record : ρ
  deriving DecidableEq, Repr

abbrev Collection (ρ : Type) := List (Document ρ)

namespace Collection
variable {ρ : Type}

def findOne (c : Collection ρ) (key : Name) : Option (Document ρ) :=
  findKey Document.recordNum c key

/-- Without `upsert`: the first document with the key of `doc` is replaced, if there is one. -/
def findAndModify (c : Collection ρ) (doc : Document ρ) : Collection ρ :=
  replaceFirst Document.recordNum doc c

end Collection

section Backend
variable {ρ : Type}

/-- Which of the calls that `mongo_db_insert` makes succeed. -/
structure InsertOutcome where
  keyAppended : Bool
  lengthAppended : Bool
  recordAppended : Bool
  collection : Bool
  inserted : Bool
  deriving DecidableEq, Repr

/-- The error of the `bson_append` calls is returned as `-ret`, where `ret` is `false`. -/
def mongoDbInsert (c : Collection ρ) (o : InsertOutcome) (type : DbType) (key : Name) (data : ρ)
    (len : ℕ) : ℤ × Collection ρ :=
  if o.keyAppended = false then (0, c)
  else if constructRecordName type = none then (-1, c)
  else if o.lengthAppended = false then (-1, c)
  else if o.recordAppended = false then (0, c)
  else if o.collection = false then (-1, c)
  else if o.inserted = false then (-1, c)
  else (1, c ++ [⟨key, BitVec.ofNat 32 len, data⟩])

theorem mongoDbInsert_cases (c : Collection ρ) (o : InsertOutcome) (type : DbType) (key : Name)
    (data : ρ) (len : ℕ) :
    mongoDbInsert c o type key data len = (1, c ++ [⟨key, BitVec.ofNat 32 len, data⟩]) ∨
      ∃ ret, ret ≠ 1 ∧ mongoDbInsert c o type key data len = (ret, c) := by
  generalize hresult : mongoDbInsert c o type key data len = result
  unfold mongoDbInsert at hresult
  split_ifs at hresult
  all_goals subst hresult
  -- the branches return 0 or -1 with the collection as it was, up to the last one
  case neg => exact .inl rfl
  all_goals exact .inr ⟨_, by decide, rfl⟩

/-- Which of the calls that `mongo_db_update` makes succeed. -/
structure UpdateOutcome where
  keyAppended : Bool
  recordAppended : Bool
  lengthAppended : Bool
  queryAppended : Bool
  collection : Bool
  modified : Bool
  deriving DecidableEq, Repr

def mongoDbUpdate (c : Collection ρ) (o : UpdateOutcome) (type : DbType) (key : Name) (data : ρ)
    (len : ℕ) : ℤ × Collection ρ :=
  if o.keyAppended = false then (-1, c)
  else if constructRecordName type = none then (-1, c)
  else if o.recordAppended = false then (-1, c)
  else if o.lengthAppended = false then (-1, c)
  else if o.queryAppended = false then (-1, c)
  else if o.collection = false then (-1, c)
  else if o.modified = false then (-1, c)
  else ((BitVec.ofNat 32 len).toInt, c.findAndModify ⟨key, BitVec.ofNat 32 len, data⟩)

/-- The update gets as far as to the collection, and succeeds there. -/
def UpdateOutcome.Modifies (o : UpdateOutcome) (type : DbType) : Prop :=
  o = ⟨true, true, true, true, true, true⟩ ∧ constructRecordName type ≠ none

instance (o : UpdateOutcome) (type : DbType) : Decidable (o.Modifies type) :=
  inferInstanceAs (Decidable (_ ∧ _))

theorem mongoDbUpdate_eq (c : Collection ρ) (o : UpdateOutcome) (type : DbType) (key : Name)
    (data : ρ) (len : ℕ) :
    mongoDbUpdate c o type key data len =
      if o.Modifies type then
        ((BitVec.ofNat 32 len).toInt, c.findAndModify ⟨key, BitVec.ofNat 32 len, data⟩)
      else (-1, c) := by
  -- the last branch is reached just when all outcomes are good
  have hfails : (o.keyAppended = false ∨ constructRecordName type = none ∨
      o.recordAppended = false ∨ o.lengthAppended = false ∨ o.queryAppended = false ∨
      o.collection = false ∨ o.modified = false) ↔ ¬ o.Modifies type := by
    cases o
    simp only [UpdateOutcome.Modifies, UpdateOutcome.mk.injEq, not_and_or, Bool.not_eq_true,
      ne_eq, not_not]
    tauto
  unfold mongoDbUpdate
  simp only [← ite_or]
  rw [if_congr hfails rfl rfl, ite_not]

/-- What a pointer holds. -/
inductive Pointer (ρ : Type)
  | null
  | unmapped
  | memory (record : ρ)
  deriving DecidableEq, Repr

/-- An access through a pointer that leads nowhere. -/
inductive Fault
  | null
  | unmapped
  deriving DecidableEq, Repr

/-- Which of the calls that `mongo_db_get` makes succeed. -/
structure GetOutcome where
  collection : Bool
  cursor : Bool
  malloc : Bool
  deriving DecidableEq, Repr

def GetOutcome.found (o : GetOutcome) (c : Collection ρ) (key : Name) : Option (Document ρ) :=
  if o.collection = false then none
  else if o.cursor = false then none
  else c.findOne key

/-- What is returned and written to `*data`; `hasData` is false for a null `data`, not tested. -/
def mongoDbGet (c : Collection ρ) (o : GetOutcome) (key : Name) (hasData : Bool) :
    Except Fault (ℤ × Option (Pointer ρ)) :=
  match o.found c key with
  | none => .ok (-1, none)
  | some d =>
    if hasData = false then .error .null
    else if o.malloc = false then .ok (-enomem, some .null)
    else .ok (d.recordLength.toInt, some (.memory d.record))

end Backend

end SeamlessStack.Db
