import Mathlib.Data.Nat.Bitwise
import SeamlessStack.Sfsd.Erasure

/-! Which stripes come back: encoding, loss of some stripes, and decoding, for every number of
data stripes. -/
namespace SeamlessStack.Sfsd

open Lib

/-- The stripes numbered in `errs` hold other bytes, and the rest is as it was. -/
structure Overwritten (n size : ℕ) (errs : List ℕ) (data code data' code' : List Stripe) :
    Prop where
  data_length : data'.length = data.length
  code_length : code'.length = code.length
  data_size : ∀ s ∈ data', s.length = size
  code_size : ∀ s ∈ code', s.length = size
  data_kept : ∀ i, i ∉ errs → data'[i]? = data[i]?
  code_kept : ∀ i, n + i ∉ errs → code'[i]? = code[i]?

/-- No memory outside is touched, and whatever the lost stripes are overwritten with, decoding
restores all of them. -/
def Recovers (J : Jerasure) (bm : Bitmatrices) (n size : ℕ) (data code : List Stripe)
    (errs : List ℕ) : Prop :=
  match sfsEsureEncode J bm data code size n codeStripes with
  | .error .outside => False
  | .error .exits => True
  | .ok (ret, coded) => 0 < ret → ∀ data' code', Overwritten n size errs data coded data' code' →
      sfsEsureDecode J bm data' code' size n codeStripes (errs.map Nat.cast) =
        .ok (esureSuccess, data, coded)

/-- One to eight data and four code stripes of a good size, and at most four lost ones. -/
structure Stripes (n size : ℕ) (data code : List Stripe) (errs : List ℕ) : Prop where
  pos : 0 < n
  le : n ≤ maxDataStripes
  accepted : packetSize size % 8 = 0
  data_length : data.length = n
  code_length : code.length = codeStripes
  data_size : ∀ s ∈ data, s.length = size
  code_size : ∀ s ∈ code, s.length = size
  nodup : errs.Nodup
  few : errs.length ≤ codeStripes
  range : ∀ e ∈ errs, e < n + codeStripes

/-- One data stripe, with the last code stripe not lost; or a size for which jerasure ends the
process; or two data stripes and no loss. -/
def Recoverable (n size : ℕ) (errs : List ℕ) : Prop :=
  n = 1 ∧ 256 ≤ size ∧ 4 ∉ errs ∨ 2 ≤ n ∧ (size % 64 ≠ 0 ∨ size = 0) ∨
    n = 2 ∧ 256 ≤ size ∧ errs = []

theorem stripeAt_eq {l : List Stripe} {i : ℕ} {s : Stripe} (h : l[i]? = some s) :
    stripeAt l i = .ok s := by
  unfold stripeAt
  rw [h]

theorem copyTo_eq {size i : ℕ} {src : Stripe} {l : List Stripe} (hsrc : src.length = size)
    (hl : ∀ s ∈ l, s.length = size) (hi : i < l.length) :
    copyTo size src l i = .ok (l.set i src) := by
  have hdst := hl l[i] (List.getElem_mem hi)
  unfold copyTo
  rw [stripeAt_eq (List.getElem?_eq_getElem hi)]
  change (if _ then _ else _) = _
  rw [if_pos ⟨by omega, by omega⟩, List.take_of_length_le (by omega),
    List.drop_of_length_le (by omega), List.append_nil]
  rfl

theorem copies_eq {size : ℕ} {src : Stripe} {l : List Stripe} (hsrc : src.length = size)
    (hl : ∀ s ∈ l, s.length = size) {n : ℕ} (hn : n ≤ l.length) :
    (List.range n).foldlM (copyTo size src) l = .ok (List.replicate n src ++ l.drop n) := by
  induction n with
  | zero => rfl
  | succ n ih =>
    have hlen : (List.replicate n src ++ l.drop n).length = l.length := by
      simp
      omega
    have hsize : ∀ s ∈ List.replicate n src ++ l.drop n, s.length = size := by
      intro s hs
      rw [List.mem_append] at hs
      obtain hs | hs := hs
      · rw [List.eq_of_mem_replicate hs]
        exact hsrc
      · exact hl s (List.mem_of_mem_drop hs)
    rw [List.range_succ, List.foldlM_append, ih (by omega)]
    change List.foldlM (copyTo size src) (List.replicate n src ++ l.drop n) [n] = _
    rw [List.foldlM_cons, copyTo_eq hsrc hsize (by omega)]
    change Except.ok _ = Except.ok _
    rw [List.set_append_right _ _ (by simp), List.length_replicate, Nat.sub_self,
      List.drop_eq_getElem_cons (by omega), List.set_cons_zero, List.replicate_succ',
        List.append_assoc]
    rfl

theorem exits_iff {size : ℕ} (h : packetSize size % 8 = 0) :
    (packetSize size % 8 ≠ 0 ∨ packetSize size = 0 ∨
      size % (packetSize size * numPktStrips) ≠ 0) ↔ size % 64 ≠ 0 ∨ size = 0 := by
  unfold packetSize numPktStrips at *
  by_cases hzero : size / 8 = 0
  · omega
  · have hmod : size % (size / 8 * 8) = size % 8 := by
      conv_lhs => lhs; rw [← Nat.div_add_mod size 8, Nat.mul_comm 8]
      rw [Nat.add_mod_left, Nat.mod_eq_of_lt]
      omega
    rw [hmod]
    omega

section
variable {J : Jerasure} {malloc : ℕ → Bool} {bm : Bitmatrices} {n size : ℕ}
  {data code data' code' : List Stripe} {errs : List ℕ}

theorem deriveAll_of_not_set {calls : List (ℕ × ℕ × ℕ)} {var : ℕ}
    (h : ∀ call ∈ calls, call.1 ≠ var) (bm : Bitmatrices) :
    (deriveAll J malloc calls bm).2 var = bm var := by
  induction calls generalizing bm with
  | nil => rfl
  | cons call calls ih =>
    obtain ⟨set, k, m⟩ := call
    rw [List.forall_mem_cons] at h
    have hkept : (((sfsDeriveBitmatrix J (malloc calls.length) k m).2.elim bm
        (Function.update bm set)) : Bitmatrices) var = bm var := by
      cases (sfsDeriveBitmatrix J (malloc calls.length) k m).2 with
      | none => rfl
      | some b => exact Function.update_of_ne (Ne.symm h.1) _ _
    unfold deriveAll
    dsimp only
    split
    · exact hkept
    · rw [ih h.2, hkept]

theorem sfsErasureInit_unset (hn : n ≠ 2 ∧ n ≠ 3) : (sfsErasureInit J malloc).2 n = none := by
  unfold sfsErasureInit
  rw [deriveAll_of_not_set]
  simp [hn.1.symm, hn.2.symm]

theorem sfsErasureInit_two (h : (sfsErasureInit J malloc).1 = esureSuccess) :
    ∃ b, (sfsErasureInit J malloc).2 2 = some b := by
  unfold sfsErasureInit at h ⊢
  unfold deriveAll at h ⊢
  dsimp only at h ⊢
  split at h
  · rename_i hneg
    rw [h] at hneg
    cases hneg
  · rename_i hnonneg
    rw [if_neg hnonneg, deriveAll_of_not_set (by decide)]
    unfold sfsDeriveBitmatrix at hnonneg ⊢
    split at hnonneg
    · exact absurd (by decide) hnonneg
    · rename_i hmalloc
      rw [if_neg hmalloc]
      dsimp only at hnonneg ⊢
      split at hnonneg
      · rename_i b hb
        exact ⟨b, by simp⟩
      · exact absurd (by decide) hnonneg

theorem Overwritten.refl (hdata : ∀ s ∈ data, s.length = size)
    (hcode : ∀ s ∈ code, s.length = size) :
    Overwritten n size errs data code data code :=
  ⟨rfl, rfl, hdata, hcode, fun _ _ => rfl, fun _ _ => rfl⟩

theorem Stripes.encode_eq (h : Stripes n size data code errs) :
    sfsEsureEncode J bm data code size n codeStripes =
      dataStripesEncode J bm data code size n := by
  have hpos := h.pos
  have hle := h.le
  unfold sfsEsureEncode
  rw [if_neg (by omega), if_neg (by simp), if_neg (by simp [h.accepted])]

/-! What the decoder does before it looks at the number of data stripes. -/

theorem Stripes.decode_small (h : Stripes n size data code errs) (hsize : size < 256) :
    sfsEsureDecode J bm data' code' size n codeStripes (errs.map Nat.cast) =
      .ok (esureInvCodeStrp, data', code') := by
  have hpos := h.pos
  have hle := h.le
  unfold sfsEsureDecode
  rw [if_neg (by omega), if_neg (by simp), if_pos ⟨hsize, by decide⟩]

theorem Stripes.decode_nil (h : Stripes n size data code []) (hsize : 256 ≤ size) :
    sfsEsureDecode J bm data' code' size n codeStripes (List.map Nat.cast []) =
      .ok (esureSuccess, data', code') := by
  have hpos := h.pos
  have hle := h.le
  unfold sfsEsureDecode
  rw [if_neg (by omega), if_neg (by simp), if_neg (by omega), if_neg (by omega),
    if_neg (by simp), if_pos (by simp)]

theorem Stripes.decode_cons (h : Stripes n size data code errs) (hsize : 256 ≤ size)
    (herrs : errs ≠ []) :
    sfsEsureDecode J bm data' code' size n codeStripes (errs.map Nat.cast) = (do
      let valid ← checkErrors data' code' n codeStripes (errs.map Nat.cast)
      if valid then dataStripesDecode J bm data' code' size codeStripes (errs.map Nat.cast) n
      else return (esureErr, data', code')) := by
  have hpos := h.pos
  have hle := h.le
  have hfew := h.few
  have hlen : errs.length ≠ 0 := by
    intro hzero
    exact herrs (List.eq_nil_of_length_eq_zero hzero)
  unfold sfsEsureDecode
  rw [if_neg (by omega), if_neg (by simp), if_neg (by omega), if_neg (by omega),
    if_neg (by rw [List.length_map]; omega), if_neg (by rw [List.length_map]; exact hlen),
    if_neg (by simp [h.accepted])]

/-- The number of a code stripe is used as its index without taking off the data stripes. -/
theorem checkErrors_eq (hdata : data.length = n) (hcode : code.length = codeStripes)
    (hrange : ∀ e ∈ errs, e < n + codeStripes) :
    checkErrors data code n codeStripes (errs.map Nat.cast) =
      if ∀ e ∈ errs, n ≤ e → e < codeStripes then .ok true else .error .outside := by
  induction errs with
  | nil =>
    rw [if_pos (by simp)]
    rfl
  | cons e errs ih =>
    rw [List.forall_mem_cons] at hrange
    have hin : ¬ ((e : ℤ) < 0 ∨ (e : ℤ) > n + codeStripes) := by omega
    rw [List.map_cons, checkErrors, if_neg hin, Int.toNat_natCast, ih hrange.2]
    by_cases hlt : e < n
    · rw [if_pos (by omega), stripeAt_eq (List.getElem?_eq_getElem (by omega))]
      have : (∀ x ∈ e :: errs, n ≤ x → x < codeStripes) ↔ ∀ x ∈ errs, n ≤ x → x < codeStripes := by
        rw [List.forall_mem_cons, and_iff_right]
        omega
      simp only [this]
      rfl
    · rw [if_neg (by omega)]
      by_cases hcodeLt : e < codeStripes
      · rw [stripeAt_eq (List.getElem?_eq_getElem (by omega))]
        have : (∀ x ∈ e :: errs, n ≤ x → x < codeStripes) ↔
            ∀ x ∈ errs, n ≤ x → x < codeStripes := by
          rw [List.forall_mem_cons, and_iff_right]
          intro _
          exact hcodeLt
        simp only [this]
        rfl
      · have hnone : code[e]? = none := List.getElem?_eq_none (by omega)
        have hbad : ¬ ∀ x ∈ e :: errs, n ≤ x → x < codeStripes := by
          intro hall
          exact hcodeLt (hall e List.mem_cons_self (by omega))
        rw [if_neg hbad, stripeAt, hnone]
        rfl

theorem testBit_lostBits (errs : List ℕ) (i : ℕ) :
    (lostBits (errs.map Nat.cast)).testBit i = decide (i ∈ errs) := by
  have hfold : ∀ (l : List ℕ) (acc : ℕ),
      ((l.map (Nat.cast : ℕ → ℤ)).foldl (fun strps err => strps ||| 1 <<< err.toNat) acc).testBit i
        = (acc.testBit i || decide (i ∈ l)) := by
    intro l
    induction l with
    | nil => simp
    | cons e l ih =>
      intro acc
      rw [List.map_cons, List.foldl_cons, ih, Int.toNat_natCast, Nat.testBit_or, Nat.one_shiftLeft,
        Nat.testBit_two_pow]
      by_cases hie : e = i
      · simp [hie]
      · simp [hie, Ne.symm hie]
  rw [lostBits, hfold]
  simp

theorem lostBits_and_eq_zero (errs : List ℕ) (i : ℕ) :
    lostBits (errs.map Nat.cast) &&& 1 <<< i = 0 ↔ i ∉ errs := by
  rw [Nat.one_shiftLeft, Nat.and_two_pow, testBit_lostBits]
  by_cases hi : i ∈ errs <;> simp [hi]

/-! One data stripe. -/

theorem encode_one {d : Stripe} (hsize : 256 ≤ size) (hd : d.length = size)
    (hlen : code.length = codeStripes) (hcode : ∀ s ∈ code, s.length = size) :
    dataStripesEncode1 [d] code size = .ok (4, List.replicate 4 d) := by
  have hcopies := copies_eq hd hcode (n := codeStripes) (by omega)
  rw [List.drop_of_length_le (by omega), List.append_nil] at hcopies
  unfold dataStripesEncode1
  rw [if_neg (by omega)]
  change ((List.range codeStripes).foldlM (copyTo size d) code >>= _) = _
  rw [hcopies]
  rfl

theorem encode_one_small {d : Stripe} (hsize : size < 256) (hd : d.length = size)
    (hlen : code.length = codeStripes) (hcode : ∀ s ∈ code, s.length = size) :
    dataStripesEncode1 [d] code size = .ok (2, List.replicate 2 d ++ code.drop 2) := by
  have hcopies := copies_eq hd hcode (n := codeStripes / 2) (by rw [hlen]; decide)
  unfold dataStripesEncode1
  rw [if_pos hsize]
  change ((List.range (codeStripes / 2)).foldlM (copyTo size d) code >>= _) = _
  rw [hcopies]
  rfl

/-- Some stripe is left to copy from, because the last one is. -/
theorem decode_one {d : Stripe} (hd : d.length = size) (hlast : 4 ∉ errs)
    (ho : Overwritten 1 size errs [d] (List.replicate 4 d) data' code') :
    decode1 data' code' size codeStripes (errs.map Nat.cast) =
      .ok (esureSuccess, [d], List.replicate 4 d) := by
  have hdlen : data'.length = 1 := ho.data_length
  have hclen : code'.length = 4 := ho.code_length
  obtain ⟨i, hi⟩ : ∃ i, (List.range (1 + codeStripes)).find?
      (fun i => lostBits (errs.map Nat.cast) &&& 1 <<< i = 0) = some i := by
    rw [← Option.isSome_iff_exists, List.find?_isSome]
    exact ⟨4, by decide, decide_eq_true ((lostBits_and_eq_zero errs 4).mpr hlast)⟩
  have hlt : i < 5 := List.mem_range.mp (List.mem_of_find?_eq_some hi)
  have hkept : i ∉ errs := by
    have := List.find?_some hi
    rwa [decide_eq_true_eq, lostBits_and_eq_zero] at this
  have hptr : (if i = 0 then stripeAt data' 0 else stripeAt code' (i - 1)) = .ok d := by
    split
    · rename_i hzero
      subst hzero
      exact stripeAt_eq (ho.data_kept 0 hkept)
    · rename_i hpos
      apply stripeAt_eq
      rw [ho.code_kept (i - 1) (by rwa [Nat.add_sub_cancel' (by omega)])]
      rw [List.getElem?_replicate, if_pos (by omega)]
  have hdata := copyTo_eq hd ho.data_size (i := 0) (by omega)
  have hcode := copies_eq hd ho.code_size (n := codeStripes) (by rw [hclen]; decide)
  rw [List.drop_of_length_le (by rw [hclen]; decide), List.append_nil] at hcode
  obtain ⟨x, rfl⟩ := List.length_eq_one_iff.mp hdlen
  unfold decode1
  rw [hi]
  change ((if i = 0 then stripeAt [x] 0 else stripeAt code' (i - 1)) >>= _) = _
  rw [hptr]
  change (copyTo size d [x] 0 >>= _) = _
  rw [hdata]
  change ((List.range codeStripes).foldlM (copyTo size d) code' >>= _) = _
  rw [hcode]
  rfl

theorem recovers_of_ok {ret : ℤ} {coded : List Stripe}
    (henc : sfsEsureEncode J bm data code size n codeStripes = .ok (ret, coded)) (hret : 0 < ret) :
    Recovers J bm n size data code errs ↔ ∀ data' code',
      Overwritten n size errs data coded data' code' →
        sfsEsureDecode J bm data' code' size n codeStripes (errs.map Nat.cast) =
          .ok (esureSuccess, data, coded) := by
  unfold Recovers
  rw [henc]
  exact ⟨fun h => h hret, fun h _ => h⟩

theorem recovers_one (h : Stripes 1 size data code errs) :
    Recovers J bm 1 size data code errs ↔ 256 ≤ size ∧ 4 ∉ errs := by
  obtain ⟨d, rfl⟩ := List.length_eq_one_iff.mp h.data_length
  have hd : d.length = size := h.data_size d (by simp)
  have hone : ∀ s ∈ [d], s.length = size := h.data_size
  by_cases hsize : 256 ≤ size
  · have hcoded : ∀ s ∈ List.replicate 4 d, s.length = size := by
      intro s hs
      rw [List.eq_of_mem_replicate hs]
      exact hd
    rw [and_iff_right hsize, recovers_of_ok
      (h.encode_eq.trans (encode_one hsize hd h.code_length h.code_size)) (by decide)]
    by_cases herrs : errs = []
    · subst herrs
      refine iff_of_true ?_ (by simp)
      intro data' code' ho
      have hdata : data' = [d] := List.ext_getElem? fun i => ho.data_kept i (by simp)
      have hcode : code' = List.replicate 4 d := List.ext_getElem? fun i => ho.code_kept i (by simp)
      rw [h.decode_nil hsize, hdata, hcode]
    · constructor
      · intro hall hmem
        have hdec := hall _ _ (Overwritten.refl hone hcoded)
        rw [h.decode_cons hsize herrs, checkErrors_eq (n := 1) rfl rfl h.range, if_neg] at hdec
        · cases hdec
        · intro hlt
          exact absurd (hlt 4 hmem (by decide)) (by decide)
      · intro hlast data' code' ho
        have hin : ∀ e ∈ errs, 1 ≤ e → e < codeStripes := by
          intro e he _
          have hlt := h.range e he
          have hne : e ≠ 4 := by
            rintro rfl
            exact hlast he
          unfold codeStripes at *
          omega
        rw [h.decode_cons hsize herrs, checkErrors_eq (n := 1) ho.data_length ho.code_length
          h.range, if_pos hin]
        exact decode_one hd hlast ho
  · refine iff_of_false ?_ (fun hright => hsize hright.1)
    have hcoded : ∀ s ∈ List.replicate 2 d ++ code.drop 2, s.length = size := by
      intro s hs
      rw [List.mem_append] at hs
      obtain hs | hs := hs
      · rw [List.eq_of_mem_replicate hs]
        exact hd
      · exact h.code_size s (List.mem_of_mem_drop hs)
    rw [recovers_of_ok (h.encode_eq.trans
      (encode_one_small (by omega) hd h.code_length h.code_size)) (by decide)]
    intro hall
    have hdec := hall _ _ (Overwritten.refl hone hcoded)
    rw [h.decode_small (by omega)] at hdec
    cases hdec

/-! Two data stripes and more. -/

theorem bitmatrixEncode_exits (h : packetSize size % 8 = 0) (hsize : size % 64 ≠ 0 ∨ size = 0)
    (k m : ℕ) (b : Option Bitmatrix) :
    bitmatrixEncode J k m b data code size (packetSize size) = .error .exits := by
  unfold bitmatrixEncode
  rw [if_pos ((exits_iff h).mpr hsize)]

theorem bitmatrixEncode_runs (h : packetSize size % 8 = 0) (hsize : ¬ (size % 64 ≠ 0 ∨ size = 0))
    (k m : ℕ) (b : Option Bitmatrix) :
    bitmatrixEncode J k m b data code size (packetSize size) = match b with
      | some b => .ok (J.encode k m b data size (packetSize size) ++ code.drop m)
      | none => .error .outside := by
  unfold bitmatrixEncode
  exact if_neg fun hbad => hsize ((exits_iff h).mp hbad)

theorem recovers_of_exits (h : Stripes n size data code errs) (hn : 2 ≤ n)
    (hsize : size % 64 ≠ 0 ∨ size = 0) : Recovers J bm n size data code errs := by
  have hexits : sfsEsureEncode J bm data code size n codeStripes = .error .exits := by
    rw [h.encode_eq]
    obtain ⟨n, rfl⟩ := Nat.exists_eq_add_of_le hn
    match n with
    | 0 =>
      change dataStripesEncode2 J bm data code size = _
      rw [dataStripesEncode2, bitmatrixEncode_exits h.accepted hsize]
      rfl
    | 1 =>
      change dataStripesEncode3 J bm data code size = _
      rw [dataStripesEncode3, bitmatrixEncode_exits h.accepted hsize]
      rfl
    | n + 2 =>
      have hgen : dataStripesEncode J bm data code size (2 + (n + 2)) =
          dataStripesEncodeGen J bm data code size (2 + (n + 2)) := by
        rw [show 2 + (n + 2) = n + 4 by omega]
        rfl
      rw [hgen, dataStripesEncodeGen, bitmatrixEncode_exits h.accepted hsize]
      rfl
  unfold Recovers
  rw [hexits]
  trivial

/-- With three data stripes the first is copied behind the code; for more there is no bitmatrix. -/
theorem not_recovers_of_three_le (h : Stripes n size data code errs) (hn : 3 ≤ n)
    (hsize : ¬ (size % 64 ≠ 0 ∨ size = 0)) :
    ¬ Recovers J (sfsErasureInit J malloc).2 n size data code errs := by
  have houtside : sfsEsureEncode J (sfsErasureInit J malloc).2 data code size n codeStripes =
      .error .outside := by
    rw [h.encode_eq]
    obtain ⟨n, rfl⟩ := Nat.exists_eq_add_of_le hn
    match n with
    | 0 =>
      change dataStripesEncode3 J _ data code size = _
      rw [dataStripesEncode3, bitmatrixEncode_runs h.accepted hsize]
      cases (sfsErasureInit J malloc).2 3 with
      | none => rfl
      | some b =>
        obtain ⟨x, rest, rfl⟩ := List.exists_cons_of_length_pos
          (show 0 < data.length by rw [h.data_length]; decide)
        have hlen : (J.encode 3 3 b (x :: rest) size (packetSize size) ++ code.drop 3).length =
          4 := by
          rw [List.length_append, J.encode_length, List.length_drop, h.code_length]
          rfl
        have hnone : (J.encode 3 3 b (x :: rest) size (packetSize size) ++
            code.drop 3)[codeStripes]? = none :=
          List.getElem?_eq_none (by rw [hlen]; decide)
        change (copyTo size x _ codeStripes >>= _) = _
        rw [copyTo, stripeAt, hnone]
        rfl
    | n + 1 =>
      have hgen : dataStripesEncode J (sfsErasureInit J malloc).2 data code size (3 + (n + 1)) =
          dataStripesEncodeGen J (sfsErasureInit J malloc).2 data code size (3 + (n + 1)) := by
        rw [show 3 + (n + 1) = n + 4 by omega]
        rfl
      rw [hgen, dataStripesEncodeGen, bitmatrixEncode_runs h.accepted hsize,
        sfsErasureInit_unset (by omega)]
      rfl
  unfold Recovers
  rw [houtside]
  exact not_false

theorem encode_two (h : Stripes 2 size data code errs) (hsize : ¬ (size % 64 ≠ 0 ∨ size = 0))
    {b : Bitmatrix} (hb : bm 2 = some b) : ∃ coded,
      dataStripesEncode2 J bm data code size = .ok (4, coded) ∧ coded.length = codeStripes ∧
        ∀ s ∈ coded, s.length = size := by
  obtain ⟨x, y, hxy⟩ := List.length_eq_two.mp (J.encode_length 2 2 b data size (packetSize size))
  have hencoded : ∀ s ∈ [x, y], s.length = size := hxy ▸ J.encode_size 2 2 b data size _
  have hrest : (code.drop 2).length = 2 := by
    rw [List.length_drop, h.code_length]
    rfl
  obtain ⟨z, w, hzw⟩ := List.length_eq_two.mp hrest
  have hkept : ∀ s ∈ [z, w], s.length = size := by
    intro s hs
    rw [← hzw] at hs
    exact h.code_size s (List.mem_of_mem_drop hs)
  have hx := hencoded x (by simp)
  have hy := hencoded y (by simp)
  have hw := hkept w (by simp)
  refine ⟨[x, y, x, y], ?_, rfl, by simp [hx, hy]⟩
  have hfirst : copyTo size x [x, y, z, w] 2 = .ok [x, y, x, w] :=
    copyTo_eq hx (by simp [hx, hy, hw, hkept z (by simp)]) (by simp)
  have hsecond : copyTo size y [x, y, x, w] 3 = .ok [x, y, x, y] :=
    copyTo_eq hy (by simp [hx, hy, hw]) (by simp)
  unfold dataStripesEncode2
  rw [bitmatrixEncode_runs h.accepted hsize, hb]
  dsimp only
  rw [hxy, hzw]
  change (((copyTo size x [x, y, z, w] 2 >>= _) >>= _) : Except Fault (ℤ × List Stripe)) = _
  rw [hfirst]
  change ((((copyTo size y [x, y, x, w] 3) >>= _) >>= _) : Except Fault (ℤ × List Stripe)) = _
  rw [hsecond]
  rfl

theorem decode_two (herrs : errs ≠ []) (hrange : ∀ e ∈ errs, e < 2 + codeStripes) :
    decode2 J bm data code size codeStripes (errs.map Nat.cast) = .ok (esureErr, data, code) := by
  obtain ⟨e, he⟩ := List.exists_mem_of_ne_nil errs herrs
  have hlt : e < 6 := hrange e he
  have hset : ∀ mask : ℕ, mask.testBit e = true →
      lostBits (errs.map Nat.cast) &&& mask ≠ 0 := by
    intro mask hmask hzero
    have hbit := congrArg (Nat.testBit · e) hzero
    simp only [Nat.testBit_and, testBit_lostBits, he, hmask] at hbit
    simp at hbit
  unfold decode2
  rw [if_pos]
  have hcover : ∀ e < 6, Nat.testBit 0x2B e = true ∨ Nat.testBit 0x17 e = true := by decide
  exact (hcover e hlt).imp (hset _) (hset _)

theorem recovers_two (h : Stripes 2 size data code errs) (hsize : ¬ (size % 64 ≠ 0 ∨ size = 0))
    {b : Bitmatrix} (hb : bm 2 = some b) :
    Recovers J bm 2 size data code errs ↔ 256 ≤ size ∧ errs = [] := by
  obtain ⟨coded, henc, hlen, hcoded⟩ := encode_two (J := J) h hsize hb
  rw [recovers_of_ok (h.encode_eq.trans henc) (by decide)]
  by_cases hsmall : size < 256
  · refine iff_of_false ?_ (by omega)
    intro hall
    have hdec := hall _ _ (Overwritten.refl h.data_size hcoded)
    rw [h.decode_small hsmall] at hdec
    cases hdec
  by_cases herrs : errs = []
  · subst herrs
    refine iff_of_true ?_ ⟨by omega, rfl⟩
    intro data' code' ho
    have hdata : data' = data := List.ext_getElem? fun i => ho.data_kept i (by simp)
    have hcode : code' = coded := List.ext_getElem? fun i => ho.code_kept i (by simp)
    rw [h.decode_nil (by omega), hdata, hcode]
  · refine iff_of_false ?_ (fun hright => herrs hright.2)
    intro hall
    have hdec := hall _ _ (Overwritten.refl h.data_size hcoded)
    rw [h.decode_cons (by omega) herrs, checkErrors_eq h.data_length hlen h.range] at hdec
    split at hdec
    · change decode2 J bm data coded size codeStripes (errs.map Nat.cast) = _ at hdec
      rw [decode_two herrs h.range] at hdec
      cases hdec
    · cases hdec

/-- With one data stripe, unless the last code stripe is lost; with two, if none is lost. Sizes
other than multiples of 64 are not encoded. -/
theorem erasure_recovers_iff (hinit : (sfsErasureInit J malloc).1 = esureSuccess)
    (h : Stripes n size data code errs) :
    Recovers J (sfsErasureInit J malloc).2 n size data code errs ↔ Recoverable n size errs := by
  have hpos := h.pos
  unfold Recoverable
  obtain rfl | hn : n = 1 ∨ 2 ≤ n := by omega
  · rw [recovers_one h]
    constructor
    · intro hright
      exact Or.inl ⟨rfl, hright⟩
    · rintro (⟨-, hright⟩ | ⟨hbad, -⟩ | ⟨hbad, -⟩)
      · exact hright
      · omega
      · omega
  by_cases hsize : size % 64 ≠ 0 ∨ size = 0
  · exact iff_of_true (recovers_of_exits h hn hsize) (Or.inr (Or.inl ⟨hn, hsize⟩))
  obtain rfl | hthree : n = 2 ∨ 3 ≤ n := by omega
  · obtain ⟨b, hb⟩ := sfsErasureInit_two hinit
    rw [recovers_two h hsize hb]
    constructor
    · intro hright
      exact Or.inr (Or.inr ⟨rfl, hright⟩)
    · rintro (⟨hone, -⟩ | ⟨-, hbad⟩ | ⟨-, hright⟩)
      · cases hone
      · exact absurd hbad hsize
      · exact hright
  · refine iff_of_false (not_recovers_of_three_le h hthree hsize) ?_
    rintro (⟨hbad, -⟩ | ⟨-, hbad⟩ | ⟨hbad, -⟩)
    · omega
    · exact hsize hbad
    · omega

end

/-- A coding that fills the code stripes with zeros, to run the functions with. -/
def zeroJerasure : Jerasure where
  singleDivide _ _ _ := 0
  matrixToBitmatrix _ _ _ _ := some []
  encode _ m _ _ size _ := List.replicate m (List.replicate size 0)
  decode _ _ _ _ data code _ _ := (data, code)
  encode_length := zeroCode_length
  encode_size := zeroCode_size

def zeroStripes (n : ℕ) : List Stripe := List.replicate n (List.replicate 256 0)

theorem zeroStripes_stripes {n : ℕ} {errs : List ℕ} (hpos : 0 < n) (hle : n ≤ maxDataStripes)
    (hnodup : errs.Nodup) (hfew : errs.length ≤ codeStripes)
    (hrange : ∀ e ∈ errs, e < n + codeStripes) :
    Stripes n 256 (zeroStripes n) (zeroStripes codeStripes) errs := by
  have hsize : ∀ n, ∀ s ∈ zeroStripes n, s.length = 256 := by
    intro n s hs
    rw [List.eq_of_mem_replicate hs, List.length_replicate]
  exact ⟨hpos, hle, rfl, List.length_replicate, List.length_replicate, hsize _, hsize _, hnodup,
    hfew, hrange⟩

/-- One data stripe, with itself and three of its copies lost. -/
theorem erasure_recovers_iff_one : Recovers zeroJerasure
    (sfsErasureInit zeroJerasure fun _ => true).2 1 256 (zeroStripes 1) (zeroStripes codeStripes)
    [0, 1, 2, 3] := by
  have hstripes : Stripes 1 256 (zeroStripes 1) (zeroStripes codeStripes) [0, 1, 2, 3] :=
    zeroStripes_stripes (by decide) (by decide) (by decide) (by decide) (by decide)
  have hinit : (sfsErasureInit zeroJerasure fun _ => true).1 = esureSuccess := rfl
  rw [erasure_recovers_iff hinit hstripes]
  exact Or.inl ⟨rfl, le_refl 256, by decide⟩

/-- Two data stripes do not survive the loss of the first, and four are never encoded. -/
theorem erasure_loses : Stripes 2 256 (zeroStripes 2) (zeroStripes codeStripes) [0] ∧
    Stripes 4 256 (zeroStripes 4) (zeroStripes codeStripes) [] ∧
    ∀ J malloc, (sfsErasureInit J malloc).1 = esureSuccess →
      ¬ Recovers J (sfsErasureInit J malloc).2 2 256 (zeroStripes 2) (zeroStripes codeStripes) [0] ∧
      ¬ Recovers J (sfsErasureInit J malloc).2 4 256 (zeroStripes 4) (zeroStripes codeStripes)
        [] := by
  have htwo : Stripes 2 256 (zeroStripes 2) (zeroStripes codeStripes) [0] :=
    zeroStripes_stripes (by decide) (by decide) (by decide) (by decide) (by decide)
  have hfour : Stripes 4 256 (zeroStripes 4) (zeroStripes codeStripes) [] :=
    zeroStripes_stripes (by decide) (by decide) (by decide) (by decide) (by decide)
  refine ⟨htwo, hfour, ?_⟩
  intro J malloc hinit
  obtain ⟨b, hb⟩ := sfsErasureInit_two hinit
  have hsize : ¬ (256 % 64 ≠ 0 ∨ 256 = 0) := by decide
  refine ⟨?_, not_recovers_of_three_le hfour (by decide) hsize⟩
  intro hrecovers
  cases ((recovers_two htwo hsize hb).mp hrecovers).2

end SeamlessStack.Sfsd
