import Mathlib.Tactic
import SeamlessStack.Lib.Except

/-! `compress` and `decompress` of `lib/storage/plugins/compression/sstack_compression_plugin.c`.
The output comes in blocks of `BUFSIZE` bytes; for each block the buffer is resized to the size of
that block alone, and the block is then copied behind the ones before. -/
namespace SeamlessStack.Plugins

open Lib

abbrev Bytes := List (BitVec 8)

def bufSize : ℕ := 4096

/-- `lzma_ret`; `progError` stands for all the values that are not named in the functions. -/
inductive LzmaRet
  | ok
  | streamEnd
  | memError
  | formatError
  | optionsError
  | dataError
  | bufError
  | progError
  deriving DecidableEq, Repr

/-- A call of `lzma_code`: how much input it takes, what it adds to the output, its result. -/
structure LzmaCall where
  consumed : ℕ
  output : Bytes
  ret : LzmaRet
  deriving DecidableEq, Repr

/-- `*out_buf`: no pointer to a block, null, or a block with its bytes. -/
inductive OutPointer
  | wild
  | null
  | block (bytes : Bytes)
  deriving DecidableEq, Repr

def OutPointer.released : OutPointer → OutPointer
  | .null => .null
  | _ => .wild

/-- The loop is still running, or touches memory that is not its own. -/
inductive CodeFault
  | running
  | wild
  | freed
  | overflow
  deriving DecidableEq, Repr

/-- `outbuf` has the bytes that are in the array, `nextIn` is the position in the input. -/
structure CodeState where
  finish : Bool
  covered : BitVec 32
  nextIn : ℕ
  availIn : ℕ
  outbuf : Bytes
  outBuf : OutPointer
  totalWritten : ℕ
  totalOut : ℕ
  deriving DecidableEq, Repr

/-- The value and `errno` as they are returned; -1 is converted to a `size_t`. -/
structure CodeResult where
  value : ℤ
  outBuf : OutPointer
  errno : Option ℕ
  deriving DecidableEq, Repr

def CodeState.coveredSize (s : CodeState) : ℕ := (s.covered.signExtend 64).toNat

/-- What is done before `lzma_code` is called. -/
def CodeState.feed (size : ℕ) (s : CodeState) : CodeState :=
  let finish := s.finish || decide (s.coveredSize = size)
  if s.availIn = 0 ∧ s.coveredSize < size then
    let avail := if size - s.coveredSize < bufSize then size - s.coveredSize else bufSize
    { s with finish := finish, nextIn := s.coveredSize, availIn := avail,
             covered := s.covered + BitVec.ofNat 32 avail }
  else { s with finish := finish }

/-- What `lzma_code` does to the stream. -/
def CodeState.code (s : CodeState) (call : LzmaCall) : CodeState :=
  { s with nextIn := s.nextIn + call.consumed, availIn := s.availIn - call.consumed,
           outbuf := s.outbuf ++ call.output, totalOut := s.totalOut + call.output.length }

/-- The block is copied to its place in a buffer that has room for this block. -/
def CodeState.copyOut (s : CodeState) (old : Bytes) : Except CodeFault CodeState :=
  if s.outbuf.length < s.totalWritten + s.outbuf.length then .error .overflow
  else .ok { s with outBuf := .block (old.take s.totalWritten ++ s.outbuf), outbuf := [],
                    totalWritten := s.totalWritten + s.outbuf.length }

/-- `realloc` and the copy. To resize a block to nothing frees it and gives null, and `free` is then
called for it again. -/
def CodeState.flush (memory : ℕ → Bool) (s : CodeState) : Except CodeFault (Option CodeState) :=
  match s.outBuf with
  | .wild => .error .wild
  | .null =>
    if memory s.totalWritten = false then .ok none else do
      let s ← s.copyOut []
      return some s
  | .block old =>
    if s.outbuf = [] then .error .freed
    else if memory s.totalWritten = false then .ok none
    else do
      let s ← s.copyOut old
      return some s

def codeReturn (errnoOf : LzmaRet → Option ℕ) (ret : LzmaRet) (s : CodeState) : Option CodeResult :=
  match ret with
  | .ok => none
  | .streamEnd => some ⟨s.totalOut, s.outBuf, none⟩
  | ret => some ⟨-1, s.outBuf, errnoOf ret⟩

/-- A turn of the loop: the result, if there is one, and the variables. -/
def codeTurn (errnoOf : LzmaRet → Option ℕ) (memory : ℕ → Bool) (size : ℕ) (call : LzmaCall)
    (s : CodeState) : Except CodeFault (Option CodeResult × CodeState) :=
  let s := (s.feed size).code call
  if s.outbuf.length = bufSize ∨ call.ret = .streamEnd then do
    match ← s.flush memory with
    | none => return (some ⟨-1, s.outBuf.released, none⟩, s)
    | some s => return (codeReturn errnoOf call.ret s, s)
  else return (codeReturn errnoOf call.ret s, s)

/-- The loop, for the calls of `lzma_code` that are made in it. -/
def codeLoop (errnoOf : LzmaRet → Option ℕ) (memory : ℕ → Bool) (size : ℕ) :
    List LzmaCall → CodeState → Except CodeFault CodeResult
  | [], _ => .error .running
  | call :: rest, s => do
    match ← codeTurn errnoOf memory size call s with
    | (some result, _) => return result
    | (none, s) => codeLoop errnoOf memory size rest s

def codeStart (outBuf : OutPointer) : CodeState := ⟨false, 0, 0, 0, [], outBuf, 0, 0⟩

/-- `compress` sets `*out_buf` to null, and `errno` not at all. -/
def compress (memory : ℕ → Bool) (buf : Bytes) (calls : List LzmaCall) :
    Except CodeFault CodeResult :=
  codeLoop (fun _ => none) memory buf.length calls (codeStart .null)

def decompressErrno : LzmaRet → Option ℕ
  | .memError => some 12
  | .formatError => some 22
  | .optionsError => some 22
  | .dataError => some 5
  | .bufError => some 5
  | _ => some 22

def decompress (memory : ℕ → Bool) (buf : Bytes) (given : OutPointer) (calls : List LzmaCall) :
    Except CodeFault CodeResult :=
  codeLoop decompressErrno memory buf.length calls (codeStart given)

/-- The output of `compress` is given to `decompress`, and the original comes out, with its
length. -/
def RoundTrips (memory memory' : ℕ → Bool) (given : OutPointer) (buf : Bytes)
    (encoding decoding : List LzmaCall) : Prop :=
  ∃ out errno errno', compress memory buf encoding = .ok ⟨out.length, .block out, errno⟩ ∧
    decompress memory' out given decoding = .ok ⟨buf.length, .block buf, errno'⟩

/-- liblzma computes `F`, in any number of calls: none takes or writes more than there is room for,
and the stream ends once all input was taken and `LZMA_FINISH` was given. `fed` and `made` are what
it has taken and written. -/
def Codes (F : Bytes → Bytes) (errnoOf : LzmaRet → Option ℕ) (memory : ℕ → Bool) (buf : Bytes) :
    Bytes → Bytes → CodeState → List LzmaCall → Prop
  | _, _, _, [] => True
  | fed, made, s, call :: rest =>
    call.consumed ≤ (s.feed buf.length).availIn ∧
    (s.feed buf.length).outbuf.length + call.output.length ≤ bufSize ∧
    match call.ret with
    | .ok => ∀ next, codeTurn errnoOf memory buf.length call s = .ok (none, next) →
        Codes F errnoOf memory buf
          (fed ++ (buf.drop (s.feed buf.length).nextIn).take call.consumed)
          (made ++ call.output) next rest
    | .streamEnd => (s.feed buf.length).finish = true ∧
        call.consumed = (s.feed buf.length).availIn ∧
        made ++ call.output = F (fed ++ (buf.drop (s.feed buf.length).nextIn).take call.consumed)
    | _ => False

/-- The stream ends, and only the call that ends it may fill the block, which has `held` bytes. -/
def FillsOnce : ℕ → List LzmaCall → Prop
  | _, [] => False
  | held, call :: rest => call.ret = .streamEnd ∨
      call.ret = .ok ∧ held + call.output.length < bufSize ∧
        FillsOnce (held + call.output.length) rest

section
variable {F : Bytes → Bytes} {errnoOf : LzmaRet → Option ℕ} {memory : ℕ → Bool}
  {buf fed made : Bytes} {given : OutPointer} {s : CodeState} {call : LzmaCall}
  {calls : List LzmaCall}

theorem feed_output (size : ℕ) : (s.feed size).outbuf = s.outbuf ∧
    (s.feed size).outBuf = s.outBuf ∧ (s.feed size).totalWritten = s.totalWritten ∧
    (s.feed size).totalOut = s.totalOut := by
  unfold CodeState.feed
  dsimp only
  split <;> exact ⟨rfl, rfl, rfl, rfl⟩

@[simp] theorem feed_outbuf (size : ℕ) : (s.feed size).outbuf = s.outbuf := (feed_output size).1

theorem codeLoop_cons {size : ℕ} {next : CodeState}
    (hturn : codeTurn errnoOf memory size call s = .ok (none, next)) :
    codeLoop errnoOf memory size (call :: calls) s = codeLoop errnoOf memory size calls next := by
  rw [codeLoop, hturn]
  rfl

theorem coveredSize_eq {c : ℕ} (hc : s.covered = BitVec.ofNat 32 c) (hle : c ≤ 2 ^ 31) :
    s.coveredSize = if c < 2 ^ 31 then c else 2 ^ 64 - 2 ^ 31 := by
  unfold CodeState.coveredSize
  rw [hc]
  split
  · rename_i hlt
    have hmsb : (BitVec.ofNat 32 c).msb = false := by
      rw [BitVec.msb_eq_false_iff_two_mul_lt, BitVec.toNat_ofNat]
      omega
    rw [BitVec.signExtend_eq_setWidth_of_msb_false hmsb, BitVec.toNat_setWidth, BitVec.toNat_ofNat]
    omega
  · obtain rfl : c = 2 ^ 31 := by omega
    decide

/-- `c` bytes were made available, in blocks, of which those before `nextIn` were taken. -/
structure Feeding (buf : Bytes) (s : CodeState) (c : ℕ) : Prop where
  covered : s.covered = BitVec.ofNat 32 c
  bound : c ≤ 2 ^ 31
  le : c ≤ buf.length
  aligned : c = buf.length ∨ bufSize ∣ c
  avail : s.nextIn + s.availIn = c
  finish : s.finish = true → c = buf.length

theorem feeding_start (buf : Bytes) (given : OutPointer) : Feeding buf (codeStart given) 0 :=
  ⟨rfl, Nat.zero_le _, Nat.zero_le _, Or.inr (dvd_zero _), rfl, fun h => by cases h⟩

theorem Feeding.feed {c : ℕ} (hs : Feeding buf s c) (hsize : buf.length < 2 ^ 63) :
    (s.feed buf.length).nextIn = s.nextIn ∧ ∃ c', Feeding buf (s.feed buf.length) c' := by
  have hcovered := coveredSize_eq hs.covered hs.bound
  have hbound := hs.bound
  have havail := hs.avail
  have hle := hs.le
  have haligned := hs.aligned
  have hfinish : (s.finish || decide (s.coveredSize = buf.length)) = true → c = buf.length := by
    intro h
    rw [Bool.or_eq_true, decide_eq_true_eq] at h
    obtain h | h := h
    · exact hs.finish h
    · split at hcovered <;> omega
  unfold CodeState.feed
  dsimp only
  split
  · rename_i hmore
    have hc : c < 2 ^ 31 ∧ s.coveredSize = c := by
      split at hcovered <;> omega
    obtain ⟨hc, hcovered⟩ := hc
    obtain ⟨k, hk⟩ : bufSize ∣ c := haligned.resolve_left (by omega)
    rw [hcovered] at hfinish hmore ⊢
    generalize hmin : (if buf.length - c < bufSize then buf.length - c else bufSize) = more
    have hmin' : more = buf.length - c ∧ buf.length - c < 4096 ∨
        more = 4096 ∧ 4096 ≤ buf.length - c := by
      unfold bufSize at hmin
      split at hmin <;> omega
    unfold bufSize at hk
    refine ⟨by dsimp only; omega, c + more, ?_, by omega, by omega, ?_, rfl, ?_⟩
    · dsimp only
      rw [hs.covered, ← BitVec.ofNat_add]
    · obtain ⟨hmore', -⟩ | ⟨hmore', -⟩ := hmin'
      · exact Or.inl (by omega)
      · exact Or.inr ⟨k + 1, by unfold bufSize; omega⟩
    · intro h
      have hend := hfinish h
      omega
  · exact ⟨rfl, c, hs.covered, hs.bound, hs.le, hs.aligned, hs.avail, hfinish⟩

theorem Feeding.code {c : ℕ} (hs : Feeding buf s c) (hcall : call.consumed ≤ s.availIn) :
    Feeding buf (s.code call) c := by
  refine ⟨hs.covered, hs.bound, hs.le, hs.aligned, ?_, hs.finish⟩
  have havail := hs.avail
  unfold CodeState.code
  dsimp only
  omega

theorem take_append_taken (n k : ℕ) :
    buf.take n ++ (buf.drop n).take k = buf.take (n + k) := (List.take_add).symm

/-- Nothing was copied out yet. -/
structure Unflushed (given : OutPointer) (s : CodeState) (made : Bytes) : Prop where
  outbuf : s.outbuf = made
  totalOut : s.totalOut = made.length
  outBuf : s.outBuf = given
  totalWritten : s.totalWritten = 0

theorem unflushed_start (given : OutPointer) : Unflushed given (codeStart given) [] :=
  ⟨rfl, rfl, rfl, rfl⟩

theorem Unflushed.code (hs : Unflushed given s made) (size : ℕ) (call : LzmaCall) :
    Unflushed given ((s.feed size).code call) (made ++ call.output) := by
  obtain ⟨houtbuf, hpointer, hwritten, htotal⟩ := feed_output (s := s) size
  refine ⟨?_, ?_, hpointer.trans hs.outBuf, hwritten.trans hs.totalWritten⟩
  · exact congrArg (· ++ call.output) (houtbuf.trans hs.outbuf)
  · rw [List.length_append, ← hs.totalOut]
    exact congrArg (· + call.output.length) htotal

def CodeState.copied (s : CodeState) (made : Bytes) : CodeState :=
  { s with outBuf := .block made, outbuf := [], totalWritten := made.length }

/-- The first block is copied as it should be. -/
theorem Unflushed.flush (hs : Unflushed given s made) (hgiven : given ≠ .wild)
    (hmemory : memory 0 = true) (hne : given = .null ∨ made ≠ []) :
    s.flush memory = .ok (some (s.copied made)) := by
  have hcopy (old : Bytes) : s.copyOut old = .ok (s.copied made) := by
    unfold CodeState.copyOut
    rw [hs.totalWritten, if_neg (by omega), hs.outbuf, List.take_zero, Nat.zero_add]
    rfl
  unfold CodeState.flush
  rw [hs.outBuf, hs.totalWritten, hs.outbuf]
  cases given with
  | wild => exact absurd rfl hgiven
  | null =>
    dsimp only
    rw [if_neg (by simp [hmemory]), hcopy]
    rfl
  | block old =>
    have hmade : made ≠ [] := hne.resolve_left (by simp)
    dsimp only
    rw [if_neg hmade, if_neg (by simp [hmemory]), hcopy]
    rfl

theorem Unflushed.of_flush (hs : Unflushed given s made) {s' : CodeState}
    (hflush : s.flush memory = .ok (some s')) : given ≠ .wild ∧ memory 0 = true := by
  unfold CodeState.flush at hflush
  rw [hs.outBuf, hs.totalWritten] at hflush
  cases given with
  | wild => cases hflush
  | null =>
    dsimp only at hflush
    split at hflush
    · cases hflush
    · rename_i hmemory
      exact ⟨by simp, by simpa using hmemory⟩
  | block old =>
    dsimp only at hflush
    split at hflush
    · cases hflush
    · split at hflush
      · cases hflush
      · rename_i hmemory
        exact ⟨by simp, by simpa using hmemory⟩

/-- A first block was copied out. -/
structure Flushed (s : CodeState) : Prop where
  written : 0 < s.totalWritten
  block : ∃ bytes, s.outBuf = .block bytes

theorem Flushed.code (hs : Flushed s) (size : ℕ) : Flushed ((s.feed size).code call) := by
  obtain ⟨-, hpointer, hwritten, -⟩ := feed_output (s := s) size
  obtain ⟨bytes, hblock⟩ := hs.block
  exact ⟨hwritten.symm ▸ hs.written, bytes, hpointer.trans hblock⟩

theorem Flushed.flush (hs : Flushed s) (s' : CodeState) :
    s.flush memory ≠ .ok (some s') := by
  obtain ⟨bytes, hblock⟩ := hs.block
  have hwritten := hs.written
  intro hflush
  unfold CodeState.flush at hflush
  rw [hblock] at hflush
  dsimp only at hflush
  split at hflush
  · cases hflush
  · split at hflush
    · cases hflush
    · unfold CodeState.copyOut at hflush
      rw [if_pos (by omega)] at hflush
      cases hflush

/-- With the memory at hand, it is copied beyond the end of its buffer. -/
theorem Flushed.overflow (hs : Flushed s) {size : ℕ}
    (hfull : ((s.feed size).code call).outbuf.length = bufSize ∨ call.ret = .streamEnd)
    (hne : ((s.feed size).code call).outbuf ≠ []) (hmemory : ∀ n, memory n = true) :
    codeTurn errnoOf memory size call s = .error .overflow := by
  have hcode : Flushed ((s.feed size).code call) := hs.code size
  obtain ⟨bytes, hblock⟩ := hcode.block
  have hwritten := hcode.written
  have hflush : ((s.feed size).code call).flush memory = .error .overflow := by
    unfold CodeState.flush
    rw [hblock]
    dsimp only
    rw [if_neg hne, if_neg (by simp [hmemory])]
    unfold CodeState.copyOut
    rw [if_pos (by omega)]
    rfl
  unfold codeTurn
  dsimp only
  rw [if_pos hfull, hflush]
  rfl

/-- From then on the functions fail, if they return at all. -/
theorem Flushed.fails (hs : Flushed s) {size : ℕ} {r : CodeResult}
    (hr : codeLoop errnoOf memory size calls s = .ok r) : r.value = -1 := by
  induction calls generalizing s with
  | nil => cases hr
  | cons call calls ih =>
    unfold codeLoop at hr
    obtain ⟨⟨result, next⟩, hturn, hr⟩ := bind_eq_ok.mp hr
    have hcode : Flushed ((s.feed size).code call) := hs.code size
    unfold codeTurn at hturn
    dsimp only at hturn
    split at hturn
    · obtain ⟨flushed, hflush, hturn⟩ := bind_eq_ok.mp hturn
      cases flushed with
      | none =>
        obtain ⟨rfl, rfl⟩ := Prod.mk.inj (Except.ok.inj hturn)
        obtain rfl := Except.ok.inj hr
        rfl
      | some s' => exact absurd hflush (hcode.flush s')
    · rename_i hnot
      obtain ⟨rfl, rfl⟩ := Prod.mk.inj (Except.ok.inj hturn)
      cases hret : call.ret with
      | ok =>
        rw [hret] at hr
        exact ih hcode hr
      | streamEnd => exact absurd (Or.inr hret) hnot
      | _ =>
        rw [hret] at hr
        obtain rfl := Except.ok.inj hr
        rfl

/-- The functions before the first block is full, with all that liblzma has taken and written. -/
structure Filling (buf : Bytes) (given : OutPointer) (s : CodeState) (fed made : Bytes) : Prop where
  feeding : ∃ c, Feeding buf s c
  fed : fed = buf.take s.nextIn
  unflushed : Unflushed given s made
  room : made.length < bufSize

theorem filling_start (buf : Bytes) (given : OutPointer) :
    Filling buf given (codeStart given) [] [] :=
  ⟨⟨0, feeding_start buf given⟩, rfl, unflushed_start given, by decide⟩

theorem Filling.code (hs : Filling buf given s fed made) (hsize : buf.length < 2 ^ 63)
    (hcall : call.consumed ≤ (s.feed buf.length).availIn)
    (hroom : made.length + call.output.length < bufSize) :
    Filling buf given ((s.feed buf.length).code call)
      (fed ++ (buf.drop (s.feed buf.length).nextIn).take call.consumed) (made ++ call.output) := by
  obtain ⟨c, hc⟩ := hs.feeding
  obtain ⟨hnext, c', hc'⟩ := hc.feed hsize
  refine ⟨⟨c', hc'.code hcall⟩, ?_, hs.unflushed.code buf.length call, by rwa [List.length_append]⟩
  rw [hs.fed, hnext, take_append_taken, ← hnext]
  rfl

theorem Filling.fed_end (hs : Filling buf given s fed made) (hsize : buf.length < 2 ^ 63)
    (hfinish : (s.feed buf.length).finish = true)
    (hcall : call.consumed = (s.feed buf.length).availIn) :
    fed ++ (buf.drop (s.feed buf.length).nextIn).take call.consumed = buf := by
  obtain ⟨c, hc⟩ := hs.feeding
  obtain ⟨hnext, c', hc'⟩ := hc.feed hsize
  rw [hs.fed, ← hnext, take_append_taken, hcall, hc'.avail, hc'.finish hfinish, List.take_length]

theorem Filling.turn_more (hs : Filling buf given s fed made) (errnoOf : LzmaRet → Option ℕ)
    (memory : ℕ → Bool) (hret : call.ret = .ok)
    (hroom : made.length + call.output.length < bufSize) :
    codeTurn errnoOf memory buf.length call s = .ok (none, (s.feed buf.length).code call) := by
  have hcode := hs.unflushed.code buf.length call
  unfold codeTurn
  dsimp only
  rw [if_neg, hret]
  · rfl
  · rw [hret, hcode.outbuf, List.length_append]
    rintro (hfull | hend)
    · omega
    · cases hend

theorem Filling.turn_flush (hs : Filling buf given s fed made) (errnoOf : LzmaRet → Option ℕ)
    (hfull : made.length + call.output.length = bufSize ∨ call.ret = .streamEnd)
    (hgiven : given ≠ .wild) (hmemory : memory 0 = true)
    (hne : given = .null ∨ made ++ call.output ≠ []) :
    codeTurn errnoOf memory buf.length call s =
      .ok (codeReturn errnoOf call.ret
          (((s.feed buf.length).code call).copied (made ++ call.output)),
        ((s.feed buf.length).code call).copied (made ++ call.output)) := by
  have hcode := hs.unflushed.code buf.length call
  unfold codeTurn
  dsimp only
  rw [hcode.outbuf, List.length_append, if_pos hfull, hcode.flush hgiven hmemory hne]
  rfl

/-- What comes out when only the last call may fill the block. -/
theorem Filling.runs (hsize : buf.length < 2 ^ 63) (hne : given = .null ∨ F buf ≠ [])
    (hgiven : given ≠ .wild) (hmemory : memory 0 = true) (hs : Filling buf given s fed made)
    (hc : Codes F errnoOf memory buf fed made s calls) (honce : FillsOnce made.length calls) :
    codeLoop errnoOf memory buf.length calls s =
      .ok ⟨(F buf).length, .block (F buf), none⟩ ∧ (F buf).length ≤ bufSize := by
  induction calls generalizing s fed made with
  | nil => exact absurd honce id
  | cons call calls ih =>
    unfold Codes at hc
    obtain ⟨hcall, hroom, hc⟩ := hc
    rw [feed_outbuf, hs.unflushed.outbuf] at hroom
    obtain hret | ⟨hret, hlt, honce⟩ := honce
    · rw [hret] at hc
      obtain ⟨hfinish, hall, hmade⟩ := hc
      rw [hs.fed_end hsize hfinish hall] at hmade
      have hturn := hs.turn_flush errnoOf (Or.inr hret) hgiven hmemory (by rwa [hmade])
      have htotal := (hs.unflushed.code buf.length call).totalOut
      rw [hmade] at hturn htotal
      have hreturn :
          codeReturn errnoOf .streamEnd (((s.feed buf.length).code call).copied (F buf)) =
            some ⟨(F buf).length, .block (F buf), none⟩ := by
        rw [← htotal]
        rfl
      rw [hret, hreturn] at hturn
      unfold codeLoop
      rw [hturn]
      refine ⟨rfl, ?_⟩
      rwa [← hmade, List.length_append]
    · rw [hret] at hc
      have hturn := hs.turn_more errnoOf memory hret hlt
      rw [codeLoop_cons hturn]
      rw [← List.length_append] at honce
      exact ih (hs.code hsize hcall hlt) (hc _ hturn) honce

/-- If the first block is not copied out, the function fails. -/
theorem Filling.of_turn (hs : Filling buf given s fed made)
    (hfull : made.length + call.output.length = bufSize ∨ call.ret = .streamEnd)
    {result : Option CodeResult} {next : CodeState}
    (hturn : codeTurn errnoOf memory buf.length call s = .ok (result, next)) :
    result = some ⟨-1, given.released, none⟩ ∨ given ≠ .wild ∧ memory 0 = true := by
  have hcode := hs.unflushed.code buf.length call
  unfold codeTurn at hturn
  dsimp only at hturn
  rw [hcode.outbuf, List.length_append, if_pos hfull, hcode.outBuf] at hturn
  obtain ⟨flushed, hflush, hturn⟩ := bind_eq_ok.mp hturn
  cases flushed with
  | none => exact Or.inl (Prod.mk.inj (Except.ok.inj hturn)).1.symm
  | some s' => exact Or.inr (hcode.of_flush hflush)

theorem codes_cons (next : CodeState) (hret : call.ret = .ok)
    (hcall : call.consumed ≤ (s.feed buf.length).availIn)
    (hroom : (s.feed buf.length).outbuf.length + call.output.length ≤ bufSize)
    (hturn : codeTurn errnoOf memory buf.length call s = .ok (none, next))
    (hrest : Codes F errnoOf memory buf
      (fed ++ (buf.drop (s.feed buf.length).nextIn).take call.consumed) (made ++ call.output) next
      calls) :
    Codes F errnoOf memory buf fed made s (call :: calls) := by
  unfold Codes
  refine ⟨hcall, hroom, ?_⟩
  rw [hret]
  intro next' hturn'
  obtain ⟨-, rfl⟩ := Prod.mk.inj (Except.ok.inj (hturn.symm.trans hturn'))
  exact hrest

/-- The functions succeed in no other way. -/
theorem Filling.fillsOnce (hsize : buf.length < 2 ^ 63) (hs : Filling buf given s fed made)
    (hc : Codes F errnoOf memory buf fed made s calls) {r : CodeResult}
    (hr : codeLoop errnoOf memory buf.length calls s = .ok r) (hvalue : r.value ≠ -1) :
    given ≠ .wild ∧ memory 0 = true ∧ FillsOnce made.length calls := by
  induction calls generalizing s fed made with
  | nil => cases hr
  | cons call calls ih =>
    unfold Codes at hc
    obtain ⟨hcall, hroom, hc⟩ := hc
    rw [feed_outbuf, hs.unflushed.outbuf] at hroom
    have hret : call.ret = .streamEnd ∨ call.ret = .ok := by
      cases hret : call.ret with
      | ok => exact Or.inr rfl
      | streamEnd => exact Or.inl rfl
      | _ =>
        rw [hret] at hc
        exact hc.elim
    by_cases hfull : made.length + call.output.length = bufSize ∨ call.ret = .streamEnd
    · unfold codeLoop at hr
      obtain ⟨⟨result, next⟩, hturn, hr⟩ := bind_eq_ok.mp hr
      obtain rfl | ⟨hgiven, hmemory⟩ := hs.of_turn hfull hturn
      · obtain rfl := Except.ok.inj hr
        exact absurd rfl hvalue
      · refine ⟨hgiven, hmemory, ?_⟩
        obtain hret | hret := hret
        · exact Or.inl hret
        · -- The block is full, and a second one would have to follow.
          have hlen : (made ++ call.output).length = bufSize := by
            rw [List.length_append]
            exact hfull.resolve_right (by simp [hret])
          have hpos : 0 < (made ++ call.output).length := by
            rw [hlen]
            decide
          rw [hs.turn_flush errnoOf hfull hgiven hmemory
            (Or.inr (List.length_pos_iff.mp hpos)), hret] at hturn
          obtain ⟨rfl, rfl⟩ := Prod.mk.inj (Except.ok.inj hturn)
          have hflushed : Flushed (((s.feed buf.length).code call).copied (made ++ call.output)) :=
            ⟨hpos, _, rfl⟩
          exact absurd (hflushed.fails hr) hvalue
    · have hret : call.ret = .ok := hret.resolve_left (fun hend => hfull (Or.inr hend))
      have hlt : made.length + call.output.length < bufSize := by omega
      have hturn := hs.turn_more errnoOf memory hret hlt
      rw [hret] at hc
      rw [codeLoop_cons hturn] at hr
      have hrest := ih (hs.code hsize hcall hlt) (hc _ hturn) hr
      rw [List.length_append] at hrest
      exact ⟨hrest.1, hrest.2.1, Or.inr ⟨hret, hlt, hrest.2.2⟩⟩

end

section
variable {enc dec : Bytes → Bytes} {memory memory' : ℕ → Bool} {buf : Bytes} {given : OutPointer}
  {encoding decoding : List LzmaCall}

theorem compress_eq (hsize : buf.length < 2 ^ 63)
    (henc : Codes enc (fun _ => none) memory buf [] [] (codeStart .null) encoding)
    (hmemory : memory 0 = true) (honce : FillsOnce 0 encoding) :
    compress memory buf encoding = .ok ⟨(enc buf).length, .block (enc buf), none⟩ ∧
      (enc buf).length ≤ bufSize :=
  (filling_start buf .null).runs hsize (Or.inl rfl) (by simp) hmemory henc honce

theorem decompress_eq {input : Bytes} (hsize : input.length < 2 ^ 63) (hne : dec input ≠ [])
    (hdec : Codes dec decompressErrno memory' input [] [] (codeStart given) decoding)
    (hgiven : given ≠ .wild) (hmemory : memory' 0 = true) (honce : FillsOnce 0 decoding) :
    decompress memory' input given decoding =
        .ok ⟨(dec input).length, .block (dec input), none⟩ ∧
      (dec input).length ≤ bufSize :=
  (filling_start input given).runs hsize (Or.inr hne) hgiven hmemory hdec honce

theorem RoundTrips.fillsOnce (htrip : RoundTrips memory memory' given buf encoding decoding)
    (hsize : buf.length < 2 ^ 63)
    (henc : Codes enc (fun _ => none) memory buf [] [] (codeStart .null) encoding)
    (hdec : Codes dec decompressErrno memory' (enc buf) [] [] (codeStart given) decoding) :
    (memory 0 = true ∧ FillsOnce 0 encoding) ∧
      given ≠ .wild ∧ memory' 0 = true ∧ FillsOnce 0 decoding := by
  obtain ⟨out, errno, errno', hcompress, hdecompress⟩ := htrip
  obtain ⟨-, hmemory, honce⟩ :=
    (filling_start buf .null).fillsOnce hsize henc hcompress (by simp)
  obtain ⟨hcompress', hle⟩ := compress_eq hsize henc hmemory honce
  obtain ⟨-, hout, -⟩ := CodeResult.mk.inj (Except.ok.inj (hcompress.symm.trans hcompress'))
  obtain rfl := OutPointer.block.inj hout
  unfold bufSize at hle
  exact ⟨⟨hmemory, honce⟩,
    (filling_start (enc buf) given).fillsOnce (by omega) hdec hdecompress (by simp)⟩

/-- Whatever liblzma does, nothing longer than a block comes back. -/
theorem RoundTrips.length_le (htrip : RoundTrips memory memory' given buf encoding decoding)
    (hbuf : buf ≠ []) (hsize : buf.length < 2 ^ 63) (hinverse : dec (enc buf) = buf)
    (henc : Codes enc (fun _ => none) memory buf [] [] (codeStart .null) encoding)
    (hdec : Codes dec decompressErrno memory' (enc buf) [] [] (codeStart given) decoding) :
    buf.length ≤ bufSize := by
  obtain ⟨⟨hmemory, honce⟩, hgiven, hmemory', honce'⟩ := htrip.fillsOnce hsize henc hdec
  have hle := (compress_eq hsize henc hmemory honce).2
  unfold bufSize at hle
  have hdecoded := decompress_eq (by omega) (by rwa [hinverse]) hdec hgiven hmemory' honce'
  rw [hinverse] at hdecoded
  exact hdecoded.2

/-- The original comes back exactly if there is memory for a block in both directions, the pointer
given to `decompress` is null or a block, and no call of liblzma but the last fills the block. -/
theorem roundTrips_iff_fillsOnce (hbuf : buf ≠ []) (hsize : buf.length < 2 ^ 63)
    (hinverse : dec (enc buf) = buf)
    (henc : Codes enc (fun _ => none) memory buf [] [] (codeStart .null) encoding)
    (hdec : Codes dec decompressErrno memory' (enc buf) [] [] (codeStart given) decoding) :
    RoundTrips memory memory' given buf encoding decoding ↔
      (memory 0 = true ∧ FillsOnce 0 encoding) ∧
        given ≠ .wild ∧ memory' 0 = true ∧ FillsOnce 0 decoding := by
  constructor
  · intro htrip
    exact htrip.fillsOnce hsize henc hdec
  · rintro ⟨⟨hmemory, honce⟩, hgiven, hmemory', honce'⟩
    obtain ⟨hcompress, hle⟩ := compress_eq hsize henc hmemory honce
    unfold bufSize at hle
    have hdecoded := decompress_eq (by omega) (by rwa [hinverse]) hdec hgiven hmemory' honce'
    rw [hinverse] at hdecoded
    exact ⟨enc buf, none, none, hcompress, hdecoded.1⟩

end

/-- The headers of a stream and of its block, with the filters of `init_encoder`. -/
def xzHead : Bytes :=
  [0xfd, 0x37, 0x7a, 0x58, 0x5a, 0x00, 0x00, 0x04, 0xe6, 0xd6, 0xb4, 0x46,
   0x02, 0x01, 0x04, 0x00, 0x21, 0x01, 0x16, 0x00, 0x0d, 0x86, 0x35, 0x1f]

/-- The stream of a buffer that would not get smaller: a chunk with the buffer as it is, and `tail`
with the check, the index and the footer. -/
def xzStored (tail buf : Bytes) : Bytes :=
  xzHead ++ (1 :: BitVec.ofNat 8 ((buf.length - 1) / 256) :: BitVec.ofNat 8 (buf.length - 1) ::
    (buf ++ tail))

def xzBuffer (stream : Bytes) : Bytes :=
  (stream.drop 27).take (256 * (stream.getD 25 0).toNat + (stream.getD 26 0).toNat + 1)

def oneByteTail : Bytes :=
  [0x00, 0x00, 0x00, 0x00, 0x05, 0x3e, 0x4f, 0x98, 0x49, 0x2e, 0x53, 0xd7, 0x00, 0x01, 0x19, 0x01,
   0xa5, 0x2c, 0x81, 0xcc, 0x1f, 0xb6, 0xf3, 0x7d, 0x01, 0x00, 0x00, 0x00, 0x00, 0x04, 0x59, 0x5a]

def oneByteEncoding : List LzmaCall :=
  [⟨1, xzHead, .ok⟩, ⟨0, [0x01, 0x00, 0x00, 0x05] ++ oneByteTail, .streamEnd⟩]

def oneByteDecoding : List LzmaCall := [⟨60, [0x05], .ok⟩, ⟨0, [], .streamEnd⟩]

theorem codes_oneByteEncoding :
    Codes (xzStored oneByteTail) (fun _ => none) (fun _ => true) [5] [] [] (codeStart .null)
      oneByteEncoding := by
  refine codes_cons ⟨false, 1, 1, 0, xzHead, .null, 0, 24⟩ rfl (by decide) (by decide) rfl ?_
  exact ⟨by decide, by decide, rfl, rfl, by decide⟩

theorem codes_oneByteDecoding :
    Codes xzBuffer decompressErrno (fun _ => true) (xzStored oneByteTail [5]) [] []
      (codeStart .null) oneByteDecoding := by
  refine codes_cons ⟨false, 60, 60, 0, [5], .null, 0, 1⟩ rfl (by decide) (by decide) rfl ?_
  exact ⟨by decide, by decide, rfl, rfl, by decide⟩

theorem roundTrips_iff_fillsOnce_oneByte :
    RoundTrips (fun _ => true) (fun _ => true) .null [5] oneByteEncoding oneByteDecoding := by
  have hencoding : FillsOnce 0 oneByteEncoding := Or.inr ⟨rfl, by decide, Or.inl rfl⟩
  have hdecoding : FillsOnce 0 oneByteDecoding := Or.inr ⟨rfl, by decide, Or.inl rfl⟩
  exact (roundTrips_iff_fillsOnce (by simp) (by decide) (by decide) codes_oneByteEncoding
    codes_oneByteDecoding).mpr ⟨⟨rfl, hencoding⟩, by simp, rfl, hdecoding⟩

section
variable {F : Bytes → Bytes} {buf mid last : Bytes}

def longCalls (mid last : Bytes) : List LzmaCall :=
  [⟨bufSize, xzHead, .ok⟩, ⟨1, [], .ok⟩, ⟨0, mid, .ok⟩, ⟨0, last, .streamEnd⟩]

def longHalf : CodeState := ⟨false, 4096, 4096, 0, xzHead, .null, 0, 24⟩

def longTaken : CodeState := ⟨false, 4097, 4097, 0, xzHead, .null, 0, 24⟩

def longFilled (mid : Bytes) : CodeState :=
  ⟨true, 4097, 4097, 0, [], .block (xzHead ++ mid), bufSize, bufSize⟩

theorem longHalf_start :
    codeTurn (fun _ => none) (fun _ => true) 4097 ⟨bufSize, xzHead, .ok⟩ (codeStart .null) =
      .ok (none, longHalf) := rfl

theorem longHalf_turn :
    codeTurn (fun _ => none) (fun _ => true) 4097 ⟨1, [], .ok⟩ longHalf =
      .ok (none, longTaken) := rfl

theorem longTaken_turn (hmid : mid.length = 4072) :
    codeTurn (fun _ => none) (fun _ => true) 4097 ⟨0, mid, .ok⟩ longTaken =
      .ok (none, longFilled mid) := by
  have hfeed : longTaken.feed 4097 = { longTaken with finish := true } := by decide
  have hfull : (xzHead ++ mid).length = bufSize := by
    rw [List.length_append, hmid]
    rfl
  unfold codeTurn
  dsimp only
  rw [hfeed]
  simp [CodeState.code, CodeState.flush, CodeState.copyOut, longTaken, codeReturn, longFilled,
    hfull, hmid, bufSize, pure, Except.pure]

theorem longFilled_turn (hlast : last ≠ []) :
    codeTurn (fun _ => none) (fun _ => true) 4097 ⟨0, last, .streamEnd⟩ (longFilled mid) =
      .error .overflow := by
  have hflushed : Flushed (longFilled mid) := ⟨show 0 < bufSize by decide, _, rfl⟩
  exact hflushed.overflow (Or.inr rfl) (by simpa [CodeState.code] using fun _ => hlast)
    (fun _ => rfl)

theorem codes_long (hbuf : buf.length = 4097) (hmid : mid.length = 4072)
    (hlast : last.length ≤ bufSize) (hF : F buf = xzHead ++ mid ++ last) :
    Codes F (fun _ => none) (fun _ => true) buf [] [] (codeStart .null) (longCalls mid last) := by
  unfold longCalls
  refine codes_cons longHalf rfl ?_ ?_ ?_ (codes_cons longTaken rfl ?_ ?_ ?_
    (codes_cons (longFilled mid) rfl ?_ ?_ ?_ ?_)) <;> rw [hbuf]
  · decide
  · decide
  · exact longHalf_start
  · decide
  · decide
  · exact longHalf_turn
  · exact Nat.zero_le _
  · rw [feed_outbuf, hmid]
    decide
  · exact longTaken_turn hmid
  · unfold Codes
    rw [hbuf]
    refine ⟨Nat.zero_le _, ?_, rfl, rfl, ?_⟩
    · rw [feed_outbuf]
      exact (Nat.zero_add _).trans_le hlast
    · change [] ++ xzHead ++ [] ++ mid ++ last =
        F (buf.take bufSize ++ (buf.drop bufSize).take 1 ++ [] ++ [])
      have hall : buf.length ≤ bufSize + 1 := hbuf.le
      simp only [List.append_nil, List.nil_append]
      rw [take_append_taken, List.take_of_length_le hall, hF]

theorem compress_long (hbuf : buf.length = 4097) (hmid : mid.length = 4072) (hlast : last ≠ []) :
    compress (fun _ => true) buf (longCalls mid last) = .error .overflow := by
  unfold compress longCalls
  rw [hbuf, codeLoop_cons longHalf_start, codeLoop_cons longHalf_turn,
    codeLoop_cons (longTaken_turn hmid)]
  unfold codeLoop
  rw [longFilled_turn hlast]
  rfl

end

/-- The bytes of a linear congruential generator, which liblzma does not make smaller. -/
def noiseFrom : ℕ → ℕ → Bytes
  | 0, _ => []
  | n + 1, seed =>
    let next := (seed * 1103515245 + 12345) % 2 ^ 31
    BitVec.ofNat 8 (next / 2 ^ 16) :: noiseFrom n next

theorem noiseFrom_length (n seed : ℕ) : (noiseFrom n seed).length = n := by
  induction n generalizing seed with
  | zero => rfl
  | succ n ih => rw [noiseFrom, List.length_cons, ih]

def noise : Bytes := noiseFrom 4097 1

def noiseTail : Bytes :=
  [0x00, 0x00, 0x00, 0x00, 0xe7, 0x37, 0x2c, 0x42, 0x19, 0xa2, 0x78, 0x05, 0x00, 0x01, 0x99, 0x20,
   0x81, 0x20, 0x00, 0x00, 0xec, 0x2b, 0x55, 0x55, 0xb1, 0xc4, 0x67, 0xfb, 0x02, 0x00, 0x00, 0x00,
   0x00, 0x04, 0x59, 0x5a]

theorem noise_stream : (xzStored noiseTail noise).length = 4160 := by
  simp [xzStored, noise, noiseFrom_length, xzHead, noiseTail]

/-- Of the 4160 bytes of the stream 4096 are in the first block. -/
def noiseCalls : List LzmaCall :=
  longCalls (((xzStored noiseTail noise).drop 24).take 4072) ((xzStored noiseTail noise).drop 4096)

/-- For a byte more than a block, which does not get smaller, the end of the stream is written
behind a buffer of 64 bytes. -/
theorem not_roundTrips_long :
    Codes (xzStored noiseTail) (fun _ => none) (fun _ => true) noise [] [] (codeStart .null)
        noiseCalls ∧
      compress (fun _ => true) noise noiseCalls = .error .overflow ∧
      ∀ memory' given decoding,
        ¬ RoundTrips (fun _ => true) memory' given noise noiseCalls decoding := by
  have hbuf : noise.length = 4097 := noiseFrom_length _ _
  have hmid : (((xzStored noiseTail noise).drop 24).take 4072).length = 4072 := by
    rw [List.length_take, List.length_drop, noise_stream]
    rfl
  have hlast : ((xzStored noiseTail noise).drop 4096).length = 64 := by
    rw [List.length_drop, noise_stream]
  have hstream : xzStored noiseTail noise = xzHead ++ ((xzStored noiseTail noise).drop 24).take 4072
      ++ (xzStored noiseTail noise).drop 4096 := by
    have hhead : (xzStored noiseTail noise).take 24 = xzHead := List.take_left' rfl
    rw [← hhead, take_append_taken, List.take_append_drop]
  have hcompress : compress (fun _ => true) noise noiseCalls = .error .overflow :=
    compress_long hbuf hmid (List.ne_nil_of_length_pos (by omega))
  refine ⟨codes_long hbuf hmid (hlast.le.trans (by decide)) hstream, hcompress, ?_⟩
  rintro memory' given decoding ⟨out, errno, errno', hok, -⟩
  rw [hcompress] at hok
  cases hok

end SeamlessStack.Plugins
