import SeamlessStack.Lib.Text

/-! The messages of `sfs_log`. `vsprintf` writes them to an array of `SFS_LOG_ENTRY_LEN` characters,
however long they are. A context takes the messages up to its level, and none if its file could not
be opened. Those are modelled whose length depends on the data of a function. -/
namespace SeamlessStack.Log

open Lib

def sfsLogEntryLen : ℕ := 128

def sfsErr : ℕ := 3
def sfsInfo : ℕ := 5
def sfsDebug : ℕ := 6

def decimals (n : ℕ) : ℕ := (Nat.toDigits 10 n).length

theorem decimals_le {n k : ℕ} (hk : 0 < k) (h : n < 10 ^ k) : decimals n ≤ k :=
  (Nat.length_toDigits_le_iff (by decide) hk).mpr h

def Fits (ctx level len : ℕ) : Prop := level ≤ ctx → len < sfsLogEntryLen

instance (ctx level len : ℕ) : Decidable (Fits ctx level len) :=
  inferInstanceAs (Decidable (_ → _))

def FitsText (ctx level len : ℕ) (behind : ℕ → UInt8) (src : List UInt8) : Prop :=
  level ≤ ctx → 0 ∈ ahead behind src (sfsLogEntryLen - len)

instance (ctx level len : ℕ) (behind : ℕ → UInt8) (src : List UInt8) :
    Decidable (FitsText ctx level len behind src) := inferInstanceAs (Decidable (_ → _))

def FitsBytes (ctx level len : ℕ) (behind : ℕ → UInt8) (src : List UInt8) : Prop :=
  if src = [] then Fits ctx level (len + "(null)".length) else FitsText ctx level len behind src

instance (ctx level len : ℕ) (behind : ℕ → UInt8) (src : List UInt8) :
    Decidable (FitsBytes ctx level len behind src) :=
  inferInstanceAs (Decidable (if src = [] then Fits ctx level _ else
    FitsText ctx level len behind src))

variable {ctx level len : ℕ} {src : List UInt8}

theorem forall_fitsText : (∀ behind, FitsText ctx level len behind src) ↔
    (level ≤ ctx → 0 ∈ src.take (sfsLogEntryLen - len)) := by
  unfold FitsText
  rw [forall_comm]
  exact imp_congr_right fun _ => forall_mem_ahead

theorem forall_fitsBytes (hnull : len + "(null)".length < sfsLogEntryLen) :
    (∀ behind, FitsBytes ctx level len behind src) ↔
      src = [] ∨ (level ≤ ctx → 0 ∈ src.take (sfsLogEntryLen - len)) := by
  unfold FitsBytes
  split_ifs with hnil
  · simp [hnil, Fits, hnull]
  · simp only [hnil, false_or]
    exact forall_fitsText

end SeamlessStack.Log
