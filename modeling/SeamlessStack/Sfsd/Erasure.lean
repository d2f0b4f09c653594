import Mathlib.Tactic
import SeamlessStack.Lib.Except

/-! Erasure coding of a group of stripes (`sfsd_erasure.c`), over jerasure and galois. A call may
return, or jerasure may end the process, or memory outside the stripes may be touched. -/
namespace SeamlessStack.Sfsd

open Lib

/-! `esure_err_t`. -/

def esureSuccess : ℤ := 0
def esureNoMem : ℤ := -128
def esureInvDataStrp : ℤ := -127
def esureInvCodeStrp : ℤ := -126
def esureNumErrStrpInvld : ℤ := -125
def esureInvBitmatrix : ℤ := -124
def esureSizeMismatch : ℤ := -123
def esureErr : ℤ := -121

def codeStripes : ℕ := 4

def maxDataStripes : ℕ := 8

def numPktStrips : ℕ := 8

def packetSize (size : ℕ) : ℕ := size / numPktStrips

abbrev Stripe := List (BitVec 8)

abbrev Bitmatrix := List ℕ

/-- jerasure and galois, for words of `NUM_PKT_STRIPS` bits. Coding gives `m` stripes of a size. -/
structure Jerasure where
  singleDivide : ℕ → ℕ → ℕ → ℕ
  matrixToBitmatrix : (k m w : ℕ) → List ℕ → Option Bitmatrix
  encode : (k m : ℕ) → Bitmatrix → List Stripe → (size packetsize : ℕ) → List Stripe
  decode : (k m : ℕ) → Bitmatrix → (erasures : List ℤ) → List Stripe → List Stripe →
    (size packetsize : ℕ) → List Stripe × List Stripe
  encode_length : ∀ k m b data size packetsize, (encode k m b data size packetsize).length = m
  encode_size : ∀ k m b data size packetsize, ∀ s ∈ encode k m b data size packetsize,
    s.length = size

theorem zeroCode_length (_ m : ℕ) (_ : Bitmatrix) (_ : List Stripe) (size _ : ℕ) :
    (List.replicate m (List.replicate size (0 : BitVec 8))).length = m :=
  List.length_replicate

theorem zeroCode_size (_ m : ℕ) (_ : Bitmatrix) (_ : List Stripe) (size _ : ℕ) :
    ∀ s ∈ List.replicate m (List.replicate size (0 : BitVec 8)), s.length = size := by
  intro s hs
  rw [List.eq_of_mem_replicate hs, List.length_replicate]

inductive Fault
  | exits
  | outside
  deriving DecidableEq, Repr

def stripeAt (stripes : List Stripe) (i : ℕ) : Except Fault Stripe :=
  match stripes[i]? with
  | some s => .ok s
  | none => .error .outside

def copyTo (size : ℕ) (src : Stripe) (stripes : List Stripe) (i : ℕ) :
    Except Fault (List Stripe) := do
  let dst ← stripeAt stripes i
  if size ≤ dst.length ∧ size ≤ src.length then
    return stripes.set i (src.take size ++ dst.drop size)
  else throw .outside

/-- A size that is not a multiple of the packets ends the process, whatever the bitmatrix. -/
def bitmatrixEncode (J : Jerasure) (k m : ℕ) (bitmatrix : Option Bitmatrix)
    (data code : List Stripe) (size packetsize : ℕ) : Except Fault (List Stripe) :=
  if packetsize % 8 ≠ 0 ∨ packetsize = 0 ∨ size % (packetsize * numPktStrips) ≠ 0 then
    .error .exits
  else match bitmatrix with
    | some b => .ok (J.encode k m b data size packetsize ++ code.drop m)
    | none => .error .outside

/-- The return value is not used. The ids are those of the `k + m` devices. -/
def bitmatrixDecode (J : Jerasure) (k m : ℕ) (bitmatrix : Option Bitmatrix) (erasures : List ℤ)
    (data code : List Stripe) (size packetsize : ℕ) : Except Fault (List Stripe × List Stripe) :=
  if erasures = [] then .ok (data, code)
  else if ∃ id ∈ erasures, ((k + m : ℕ) : ℤ) ≤ id then .error .outside
  else match bitmatrix with
    | some b =>
      if packetsize = 0 ∨ size % (packetsize * numPktStrips) ≠ 0 then .error .exits
      else .ok (J.decode k m b erasures data code size packetsize)
    | none => .error .outside

abbrev Bitmatrices := ℕ → Option Bitmatrix

/-- The result and what `*bmatrix` is set to; nothing if there is no memory for the matrix. -/
def sfsDeriveBitmatrix (J : Jerasure) (malloc : Bool) (numDstrps numCstrps : ℕ) :
    ℤ × Option (Option Bitmatrix) :=
  if malloc = false then (esureNoMem, none)
  else
    let matrix := (List.range numCstrps).flatMap fun i => (List.range numDstrps).map fun j =>
      J.singleDivide 1 (i ^^^ (numCstrps + j)) numPktStrips
    match J.matrixToBitmatrix numDstrps numCstrps numPktStrips matrix with
    | some b => (esureSuccess, some (some b))
    | none => (esureInvBitmatrix, some none)

/-- The calls of `sfs_derive_bitmatrix` in turn, each with the variable it sets. -/
def deriveAll (J : Jerasure) (malloc : ℕ → Bool) :
    List (ℕ × ℕ × ℕ) → Bitmatrices → ℤ × Bitmatrices
  | [], bm => (esureSuccess, bm)
  | (var, k, m) :: rest, bm =>
    let r := sfsDeriveBitmatrix J (malloc rest.length) k m
    let bm := r.2.elim bm (Function.update bm var)
    if r.1 < 0 then (r.1, bm) else deriveAll J malloc rest bm

/-- All but the first call set `bitmatrix_3`. -/
def sfsErasureInit (J : Jerasure) (malloc : ℕ → Bool) : ℤ × Bitmatrices :=
  deriveAll J malloc [(2, 2, 2), (3, 3, 3), (3, 4, 4), (3, 5, 4), (3, 6, 4), (3, 7, 4), (3, 8, 4)]
    fun _ => none

section
variable (J : Jerasure) (bm : Bitmatrices) (data code : List Stripe) (size : ℕ)

def dataStripesEncode1 : Except Fault (ℤ × List Stripe) := do
  let count := if size < 256 then codeStripes / 2 else codeStripes
  let src ← stripeAt data 0
  let code ← (List.range count).foldlM (copyTo size src) code
  return (count, code)

def dataStripesEncode2 : Except Fault (ℤ × List Stripe) := do
  let code ← bitmatrixEncode J 2 2 (bm 2) data code size (packetSize size)
  let code ← (List.range (codeStripes / 2)).foldlM (fun code i => do
    let src ← stripeAt code i
    copyTo size src code (codeStripes / 2 + i)) code
  return (codeStripes, code)

/-- The copy goes to `code[CODE_STRIPES - i]` with `i` still 0. -/
def dataStripesEncode3 : Except Fault (ℤ × List Stripe) := do
  let code ← bitmatrixEncode J 3 3 (bm 3) data code size (packetSize size)
  let src ← stripeAt data 0
  let code ← copyTo size src code codeStripes
  return (codeStripes, code)

def dataStripesEncodeGen (numStripes : ℕ) : Except Fault (ℤ × List Stripe) := do
  let code ← bitmatrixEncode J numStripes 4 (bm numStripes) data code size (packetSize size)
  return (codeStripes, code)

def dataStripesEncode : ℕ → Except Fault (ℤ × List Stripe)
  | 1 => dataStripesEncode1 data code size
  | 2 => dataStripesEncode2 J bm data code size
  | 3 => dataStripesEncode3 J bm data code size
  | n => dataStripesEncodeGen J bm data code size n

/-- No pointer is `NULL`; the comparisons of `sizeof` compare the sizes of pointers. -/
def sfsEsureEncode (numDstripes numCstripes : ℕ) : Except Fault (ℤ × List Stripe) :=
  if numDstripes > maxDataStripes ∨ numDstripes = 0 then .ok (esureInvDataStrp, code)
  else if numCstripes ≠ codeStripes then .ok (esureInvCodeStrp, code)
  else if packetSize size % 8 ≠ 0 then .ok (esureSizeMismatch, code)
  else dataStripesEncode J bm data code size numDstripes

/-- The loop over the lost stripes, which stops at one out of range. `memset`, which is given
`code[err_strips[i]]`, sets no byte. -/
def checkErrors (numDstripes numCstripes : ℕ) : List ℤ → Except Fault Bool
  | [] => .ok true
  | err :: rest =>
    if err < 0 ∨ err > numDstripes + numCstripes then .ok false
    else do
      let _ ← stripeAt (if err < numDstripes then data else code) err.toNat
      checkErrors numDstripes numCstripes rest

def lostBits (errs : List ℤ) : ℕ := errs.foldl (fun strps err => strps ||| 1 <<< err.toNat) 0

/-- The case of one data stripe: the first stripe that is not lost is copied over all. -/
def decode1 (numCstripes : ℕ) (errs : List ℤ) : Except Fault (ℤ × List Stripe × List Stripe) := do
  let i := ((List.range (1 + numCstripes)).find? fun i => lostBits errs &&& 1 <<< i = 0).getD
    (1 + numCstripes)
  let ptr ← (if i = 0 then stripeAt data 0 else stripeAt code (i - 1))
  let data ← copyTo size ptr data 0
  let code ← (List.range numCstripes).foldlM (copyTo size ptr) code
  return (esureSuccess, data, code)

def erasuresOf (numDstripes numCstripes : ℕ) (errs : List ℤ) : List ℤ :=
  errs.filter (· ≠ numDstripes + numCstripes - 1)

/-- Two data stripes. The second half of the code is copied by the size of a pointer. -/
def decode2 (numCstripes : ℕ) (errs : List ℤ) : Except Fault (ℤ × List Stripe × List Stripe) :=
  if lostBits errs &&& 0x2B ≠ 0 ∨ lostBits errs &&& 0x17 ≠ 0 then .ok (esureErr, data, code)
  else do
    let r ← bitmatrixDecode J 2 (numCstripes - 2) (bm 2) (erasuresOf 2 numCstripes errs) data code
      size (packetSize size)
    let code ← (List.range (codeStripes / 2)).foldlM (fun code i => do
      let src ← stripeAt code i
      copyTo 8 src code (codeStripes / 2 + i)) r.2
    return (esureSuccess, r.1, code)

def decode3 (numCstripes : ℕ) (errs : List ℤ) :
    Except Fault (ℤ × List Stripe × List Stripe) := do
  let r ← bitmatrixDecode J 3 (numCstripes - 1) (bm 3) (erasuresOf 3 numCstripes errs) data code
    size (packetSize size)
  let src ← stripeAt r.1 0
  let code ← copyTo size src r.2 (codeStripes - 1)
  return (esureSuccess, r.1, code)

def decodeGen (numDstripes numCstripes : ℕ) (errs : List ℤ) :
    Except Fault (ℤ × List Stripe × List Stripe) := do
  let r ← bitmatrixDecode J numDstripes numCstripes (bm numDstripes)
    (erasuresOf numDstripes numCstripes errs) data code size (packetSize size)
  return (esureSuccess, r.1, r.2)

def dataStripesDecode (numCstripes : ℕ) (errs : List ℤ) :
    ℕ → Except Fault (ℤ × List Stripe × List Stripe)
  | 1 => decode1 data code size numCstripes errs
  | 2 => decode2 J bm data code size numCstripes errs
  | 3 => decode3 J bm data code size numCstripes errs
  | n => decodeGen J bm data code size n numCstripes errs

def sfsEsureDecode (numDstripes numCstripes : ℕ) (errs : List ℤ) :
    Except Fault (ℤ × List Stripe × List Stripe) :=
  if numDstripes > maxDataStripes ∨ numDstripes = 0 then .ok (esureInvDataStrp, data, code)
  else if numCstripes ≠ codeStripes then .ok (esureInvCodeStrp, data, code)
  else if size < 256 ∧ numCstripes ≠ codeStripes / 2 then .ok (esureInvCodeStrp, data, code)
  else if size < 256 ∧ errs.length > codeStripes / 2 then .ok (esureNumErrStrpInvld, data, code)
  else if errs.length > codeStripes then .ok (esureNumErrStrpInvld, data, code)
  else if errs.length = 0 then .ok (esureSuccess, data, code)
  else if packetSize size % 8 ≠ 0 then .ok (esureSizeMismatch, data, code)
  else do
    let valid ← checkErrors data code numDstripes numCstripes errs
    if valid then dataStripesDecode J bm data code size numCstripes errs numDstripes
    else return (esureErr, data, code)

end

end SeamlessStack.Sfsd
