import SeamlessStack.Exchange.Accounts

/-! Runs in which memory and transport never fail, the operations succeed, and every message fits
and is read by a `recv` of its own. -/
namespace SeamlessStack.Exchange

open Lib
open Serdes (Command maxOutstandingJobs sizeofPayload)
open Sfsd.Respond

/-- The commands that the sfsd reads and whose responses are processed. -/
def served : Command → Bool
  | .read | .write | .storage _ => true
  | _ => false

def Taken (len : ℕ) (ret : ℤ) : Prop := 0 < len ∧ len ≤ sizeofPayload ∧ ret = len

instance (len : ℕ) (ret : ℤ) : Decidable (Taken len ret) := inferInstanceAs (Decidable (_ ∧ _))

/-- The operation succeeds and its response, of `len` bytes, is sent. -/
structure Succeeds (o : OpOutcome) (d : Delivery) (len : ℕ) : Prop where
  alloc : o.alloc = true
  done : o.done = true
  ecode : o.ecode = false
  handle : d.handle ≠ -1 ∧ d.handle ≠ 0
  malloc : d.malloc = true
  tx : Taken len d.txRet

instance (o : OpOutcome) (d : Delivery) (len : ℕ) : Decidable (Succeeds o d len) :=
  decidable_of_iff (o.alloc = true ∧ o.done = true ∧ o.ecode = false ∧
      (d.handle ≠ -1 ∧ d.handle ≠ 0) ∧ d.malloc = true ∧ Taken len d.txRet)
    ⟨fun ⟨ha, hd, he, hh, hm, ht⟩ => ⟨ha, hd, he, hh, hm, ht⟩,
      fun ⟨ha, hd, he, hh, hm, ht⟩ => ⟨ha, hd, he, hh, hm, ht⟩⟩

def Undisturbed (_ : Link) : LinkEvent → Prop
  | .send request len ret =>
    served request.command = true ∧ request.jobId < maxOutstandingJobs ∧ Taken len ret
  | .receive r receipt params queued d len =>
    r = .next ∧ receipt = .payload ∧ params = true ∧ queued = true ∧ d.txRet = len
  | .serve _ o d len => Succeeds o d len
  | .read r receipt => r = .next ∧ receipt = .payload
  | .queue ok => ok = true
  | .start | .process => True

instance (s : Link) : ∀ e, Decidable (Undisturbed s e)
  | .send .. | .receive .. | .read .. => inferInstanceAs (Decidable (_ ∧ _))
  | .serve _ o d len => inferInstanceAs (Decidable (Succeeds o d len))
  | .queue _ => inferInstanceAs (Decidable (_ = _))
  | .start | .process => inferInstanceAs (Decidable True)

theorem framed_of_undisturbed (s : Link) (e : LinkEvent) (h : Undisturbed s e) : Framed s e := by
  cases e with
  | send => exact .inr h.2.2.2.2
  | receive => exact ⟨h.1, .inr h.2.2.2.2⟩
  | serve => exact .inr h.tx.2.2
  | read => exact h.1
  | start | queue | process => trivial

/-- What is still to be done for the requests. -/
def Link.work (s : Link) : ℕ :=
  6 * (messages s.toSfsd).length + 5 * s.sfsdPool.length + 4 * s.serving.length +
    3 * (messages s.toSfs).length + 2 * s.held.toList.length + s.sfsPool.length

variable {α : Type}

def Piece.Fits (p : Piece α) : Prop :=
  p.message ≠ none ∧ 0 < p.bytes ∧ p.bytes ≤ sizeofPayload

/-- Nobody has gone down, nothing is lost, and every answer is one that is processed. -/
structure Intact (s : Link) : Prop where
  sfsd : s.sfsdDown = false
  sfs : s.sfsDown = false
  ended : s.ended = false
  lost : s.lost = []
  sent : ∀ r ∈ s.sent, served r.command = true ∧ r.jobId < maxOutstandingJobs
  toSfsd : ∀ p ∈ s.toSfsd, p.Fits
  toSfs : ∀ p ∈ s.toSfs, p.Fits
  answers : ∀ m ∈ s.answers, sfsProcessPayload m.payload.command ≠ none

variable {r : PayloadHead} {d : Delivery} {len : ℕ}

section Served
variable {c : Command}

theorem readable_of_served (h : served c = true) : readable c = true := by
  cases c with
  | read | write | storage _ => rfl
  | _ => cases h

theorem processed_of_served (h : served c = true) {rsp : Command}
    (hrsp : responseCode c = some rsp) : sfsProcessPayload rsp ≠ none := by
  cases c with
  | read | write =>
    cases hrsp
    simp [sfsProcessPayload]
  | storage k =>
    cases k <;> cases hrsp <;> simp [sfsProcessPayload]
  | _ => cases h

theorem readable_of_processed (h : sfsProcessPayload c ≠ none) : readable c = true := by
  cases c with
  | bare _ | rmdir | esureCode => exact absurd rfl h
  | _ => rfl

/-- A request that is served gets one response. -/
theorem doProcessPayload_of_succeeds {o : OpOutcome} (hserved : served r.command = true)
    (hjob : r.jobId < maxOutstandingJobs)
    (h : Succeeds o d len) : ∃ bs p, doProcessPayload r o d = .ok ⟨bs, [p]⟩ ∧
      responseCode r.command = some p.command := by
  have hreuses : Reuses r.command o := by
    cases hc : r.command with
    | read => exact .inr (.inl ⟨rfl, h.ecode⟩)
    | write => exact .inr (.inr ⟨rfl, h.done⟩)
    | storage k => exact .inl rfl
    | _ =>
      rw [hc] at hserved
      cases hserved
  have hret : d.txRet ≠ -1 := by
    have := h.tx.2.2
    omega
  have hdelivers : Delivers r o d := by
    refine ⟨h.handle, hjob, fun hlookup => ?_, fun _ => .inr ⟨h.alloc, h.done⟩, h.malloc, hret⟩
    rw [hlookup] at hserved
    cases hserved
  obtain ⟨-, -, p, ⟨bs, sent⟩, -, -, hcode, -, hrun, rfl, -⟩ :=
    (doProcessPayload_of_reuses hreuses hdelivers).1
  exact ⟨bs, p, hrun, hcode⟩

end Served

section Advance
variable {s t : Link} {e : LinkEvent}

theorem Accounts.sent_of_onTheWay (h : Accounts s []) (hr : r ∈ s.onTheWay) :
    r ∈ s.sent :=
  h.perm.mem_iff.mpr (List.mem_append_left _ (List.mem_append_left _ hr))

theorem Intact.served_of_onTheWay (h : Intact s) (ha : Accounts s []) (hr : r ∈ s.onTheWay) :
    served r.command = true ∧ r.jobId < maxOutstandingJobs :=
  h.sent r (ha.sent_of_onTheWay hr)

theorem Intact.served_of_serving (h : Intact s) (ha : Accounts s []) {i : ℕ}
    (hi : s.serving[i]? = some r) : served r.command = true ∧ r.jobId < maxOutstandingJobs :=
  h.served_of_onTheWay ha (by simp [Link.onTheWay, List.mem_of_getElem? hi])

variable {ret : ℤ}

theorem Taken.txRet (h : Taken len ret) : TxRet len ret := by
  obtain ⟨hpos, -, rfl⟩ := h
  exact ⟨hpos, by omega, le_rfl⟩

theorem txRequest_of_taken (h : Taken len ret) :
    s.txRequest r len ret = { s with toSfsd := s.toSfsd ++ [.taken r len len] } := by
  obtain ⟨hpos, -, rfl⟩ := h
  have hret : ¬ (len : ℤ) ≤ 0 := by omega
  simp only [Link.txRequest, hret, if_true, if_false]

theorem answer_of_taken {p : PayloadHead} (h : Taken len ret) :
    s.answer r len ret [p] = { s with toSfs := s.toSfs ++ [.taken ⟨r, p⟩ len len] } := by
  obtain ⟨hpos, -, rfl⟩ := h
  have hret : ¬ (len : ℤ) ≤ 0 := by omega
  simp only [Link.answer, hret, if_true, if_false]

theorem fits_taken {m : α} (h : Taken len ret) :
    Piece.Fits (.taken m len len) := by
  obtain ⟨hpos, hle, rfl⟩ := h
  refine ⟨by simp [Piece.taken], ?_, ?_⟩ <;> simpa [Piece.taken]

theorem Piece.Fits.exists_eq {p : Piece α} (h : p.Fits) :
    ∃ n m, p = ⟨n, some m⟩ ∧ 0 < n ∧ n ≤ sizeofPayload := by
  obtain ⟨n, message⟩ := p
  obtain ⟨hsome, hpos, hle⟩ := h
  obtain ⟨m, rfl⟩ := Option.ne_none_iff_exists'.mp hsome
  exact ⟨n, m, rfl, hpos, hle⟩

theorem Intact.recvRequest_eq (h : Intact s) {p : Piece PayloadHead}
    {toSfsd : List (Piece PayloadHead)} (hq : s.toSfsd = p :: toSfsd) :
    ∃ r, s.recvRequest .next = some (r, { s with toSfsd }) ∧ r ∈ s.onTheWay := by
  obtain ⟨n, r, rfl, hpos, hle⟩ := (h.toSfsd p (by simp [hq])).exists_eq
  refine ⟨r, ?_, by simp [Link.onTheWay, hq, messages_cons]⟩
  simp [Link.recvRequest, hq, recv, hpos, hle]

theorem Intact.recvAnswer_eq (h : Intact s) {p : Piece Message} {toSfs : List (Piece Message)}
    (hq : s.toSfs = p :: toSfs) :
    ∃ m, s.recvAnswer .next = some (m, { s with toSfs }) ∧ m ∈ s.answers := by
  obtain ⟨n, m, rfl, hpos, hle⟩ := (h.toSfs p (by simp [hq])).exists_eq
  refine ⟨m, ?_, by simp [Link.answers, hq, messages_cons]⟩
  simp [Link.recvAnswer, hq, recv, hpos, hle]

theorem Intact.receive_eq (h : Intact s) (ha : Accounts s []) {p : Piece PayloadHead}
    {toSfsd : List (Piece PayloadHead)} (hq : s.toSfsd = p :: toSfsd) (hd : TxRet len d.txRet) :
    ∃ t, s.doReceiveThread .next .payload true true d len = some t := by
  obtain ⟨r, hr, hway⟩ := h.recvRequest_eq hq
  have hserved := (h.served_of_onTheWay ha hway).1
  simp [Link.doReceiveThread, h.sfsd, hd, hr, readable_of_served hserved]

theorem Intact.start_eq (h : Intact s) {sfsdPool : List PayloadHead}
    (hq : s.sfsdPool = r :: sfsdPool) :
    s.startPayload = some { s with sfsdPool, serving := s.serving ++ [r] } := by
  simp [Link.startPayload, h.sfsd, hq]

theorem Intact.serve_eq (h : Intact s) (ha : Accounts s []) {i : ℕ} {o : OpOutcome}
    (hi : s.serving[i]? = some r)
    (hod : Succeeds o d len) : ∃ t, s.servePayload i o d len = some t := by
  obtain ⟨hserved, hjob⟩ := h.served_of_serving ha hi
  obtain ⟨bs, p, hrun, -⟩ := doProcessPayload_of_succeeds hserved hjob hod
  simp [Link.servePayload, h.sfsd, hod.tx.txRet, hi, hrun]

theorem Intact.read_eq (h : Intact s) {p : Piece Message} {toSfs : List (Piece Message)}
    (hq : s.toSfs = p :: toSfs) (hheld : s.held = none) :
    ∃ t, s.readPayload .next .payload = some t := by
  obtain ⟨m, hr, hm⟩ := h.recvAnswer_eq hq
  have hread := readable_of_processed (h.answers m hm)
  simp [Link.readPayload, h.sfs, h.ended, hheld, hr, hread]

theorem Intact.queue_eq (h : Intact s) {m : Message} (hheld : s.held = some m) :
    s.queuePayload true = some { s with held := none, sfsPool := s.sfsPool ++ [m] } := by
  simp [Link.queuePayload, h.sfs, hheld]

theorem Intact.process_eq (h : Intact s) {m : Message} {sfsPool : List Message}
    (hq : s.sfsPool = m :: sfsPool) :
    s.processPayload = some { s with sfsPool, processed := s.processed ++ [m] } := by
  simp [Link.processPayload, h.sfs, hq]

theorem Intact.same (h : Intact s) (hsfsd : t.sfsdDown = s.sfsdDown) (hsfs : t.sfsDown = s.sfsDown)
    (hended : t.ended = s.ended) (hlost : t.lost = s.lost) (hsent : t.sent = s.sent)
    (htoSfsd : ∀ p ∈ t.toSfsd, p ∈ s.toSfsd ∨ p.Fits) (htoSfs : ∀ p ∈ t.toSfs, p ∈ s.toSfs ∨ p.Fits)
    (hanswers : ∀ m ∈ t.answers, m ∈ s.answers ∨ sfsProcessPayload m.payload.command ≠ none) :
    Intact t where
  sfsd := hsfsd.trans h.sfsd
  sfs := hsfs.trans h.sfs
  ended := hended.trans h.ended
  lost := hlost.trans h.lost
  sent := hsent ▸ h.sent
  toSfsd p hp := (htoSfsd p hp).elim (h.toSfsd p) id
  toSfs p hp := (htoSfs p hp).elim (h.toSfs p) id
  answers m hm := (hanswers m hm).elim (h.answers m) id

theorem Intact.sends (h : Intact s) (hr : served r.command = true ∧ r.jobId < maxOutstandingJobs)
    (htaken : Taken len ret) : Intact ({ s with sent := s.sent ++ [r] }.txRequest r len ret) := by
  rw [txRequest_of_taken htaken]
  refine ⟨h.sfsd, h.sfs, h.ended, h.lost, fun a ha => ?_, fun p hp => ?_, h.toSfs, h.answers⟩
  · obtain ha | ha := List.mem_append.mp ha
    · exact h.sent a ha
    · exact List.mem_singleton.mp ha ▸ hr
  · obtain hp | hp := List.mem_append.mp hp
    · exact h.toSfsd p hp
    · rw [List.mem_singleton.mp hp]
      exact fits_taken htaken

theorem Intact.answered (h : Intact s) {i : ℕ} (hi : s.serving[i]? = some r)
    (htaken : Taken len ret) {p : PayloadHead} (hp : sfsProcessPayload p.command ≠ none)
    (ht : t = { s with serving := s.serving.eraseIdx i }.answer r len ret [p]) :
    Intact t ∧ t.work < s.work := by
  rw [answer_of_taken htaken] at ht
  subst ht
  constructor
  · refine h.same rfl rfl rfl rfl rfl (fun _ => .inl) (fun q hq => ?_) fun m hm => ?_
    · refine (List.mem_append.mp hq).imp_right fun hq => ?_
      rw [List.mem_singleton.mp hq]
      exact fits_taken htaken
    · by_cases hnew : m = ⟨r, p⟩
      · exact .inr (hnew ▸ hp)
      · simp only [Link.answers, messages_taken, List.mem_append, List.mem_singleton] at hm ⊢
        tauto
  · obtain ⟨hlt, -⟩ := List.getElem?_eq_some_iff.mp hi
    simp only [Link.work, messages_taken, List.length_eraseIdx, hlt, if_true, List.length_append,
      List.length_cons, List.length_nil]
    omega

/-- A step of an undisturbed run, which brings the answers nearer if it is not a send. -/
theorem Intact.step (h : Intact s) (ha : Accounts s []) (he : Undisturbed s e)
    (hmoves : Moves s e t) :
    Intact t ∧ ((∀ r len ret, e ≠ .send r len ret) → t.work < s.work) := by
  cases hmoves with
  | @sent r len ret hreq hlen =>
    obtain ⟨hserved, hjob, htaken⟩ := he
    exact ⟨h.sends ⟨hserved, hjob⟩ htaken, fun hno => absurd rfl (hno r len ret)⟩
  | notReceived => cases he.2.1
  | pooled hr =>
    obtain ⟨rfl, -⟩ := he
    obtain ⟨n, toSfsd, hq, rfl⟩ := recvRequest_next hr
    refine ⟨h.same rfl rfl rfl rfl rfl (fun p hp => .inl ?_) (fun _ => .inl) fun m hm => .inl hm,
      fun _ => ?_⟩
    · rw [hq]
      exact List.mem_cons_of_mem _ hp
    · simp only [Link.work, hq, messages_cons, List.length_append, List.length_cons,
        List.length_nil]
      omega
  | dropped hr hfail hleft => exact absurd ⟨he.2.1, he.2.2.1, he.2.2.2.1⟩ hfail
  | started hq =>
    refine ⟨h.same rfl rfl rfl rfl rfl (fun _ => .inl) (fun _ => .inl) fun m hm => .inl hm,
      fun _ => ?_⟩
    simp only [Link.work, hq, List.length_append, List.length_cons, List.length_nil]
    omega
  | crashed hi hrun =>
    obtain ⟨hserved, hjob⟩ := h.served_of_serving ha hi
    obtain ⟨_, _, hok, -⟩ := doProcessPayload_of_succeeds hserved hjob he
    cases hrun.symm.trans hok
  | @served i r o d len out hi hrun hlen =>
    obtain ⟨hserved, hjob⟩ := h.served_of_serving ha hi
    obtain ⟨bs, p, hok, hcode⟩ := doProcessPayload_of_succeeds hserved hjob he
    cases hrun.symm.trans hok
    have hnext := h.answered hi he.tx (processed_of_served hserved hcode) rfl
    exact ⟨hnext.1, fun _ => hnext.2⟩
  | notRead => cases he.2
  | read hr hheld hended =>
    obtain ⟨rfl, -⟩ := he
    obtain ⟨n, toSfs, hq, rfl⟩ := recvAnswer_next hr
    refine ⟨h.same rfl rfl rfl rfl rfl (fun _ => .inl) (fun p hp => .inl ?_) fun m hm => .inl ?_,
      fun _ => ?_⟩
    · rw [hq]
      exact List.mem_cons_of_mem _ hp
    · simp only [Link.answers, hq, messages_cons, Option.toList_some, List.mem_append,
        List.mem_cons, List.not_mem_nil] at hm ⊢
      tauto
    · simp only [Link.work, hq, messages_cons, hheld, Option.toList_none, Option.toList_some,
        List.length_cons, List.length_nil]
      omega
  | spoilt hr hended hfail => exact absurd he.2 hfail
  | queued hheld =>
    refine ⟨h.same rfl rfl rfl rfl rfl (fun _ => .inl) (fun _ => .inl) fun m hm => .inl ?_,
      fun _ => ?_⟩
    · simp only [Link.answers, hheld, Option.toList_some, Option.toList_none, List.mem_append,
        List.mem_cons, List.not_mem_nil] at hm ⊢
      tauto
    · simp only [Link.work, hheld, Option.toList_none, Option.toList_some, List.length_append,
        List.length_cons, List.length_nil]
      omega
  | retried hheld hlt => cases he
  | ended hheld hge => cases he
  | processed hq =>
    refine ⟨h.same rfl rfl rfl rfl rfl (fun _ => .inl) (fun _ => .inl) fun m hm => .inl ?_,
      fun _ => ?_⟩
    · simp only [Link.answers, hq, List.mem_append, List.mem_cons, List.not_mem_nil] at hm ⊢
      tauto
    · simp only [Link.work, hq, List.length_cons]
      omega

theorem intact_of_reach (hs : linkSystem.Reach Undisturbed s) : Intact s := by
  refine hs.invariant ?_ ?_
  · rintro s rfl
    constructor <;> simp [Link.init, Link.answers, messages]
  · intro s e t hr h he ht
    exact (h.step (accounts_of_reach framed_of_undisturbed hr) he (moves_of_step ht)).1

/-- While a request is on its way, a thread can take it further. -/
theorem Intact.can_advance (h : Intact s) (ha : Accounts s []) (hne : s.onTheWay ≠ []) :
    ∃ e t, Undisturbed s e ∧ (∀ r len ret, e ≠ .send r len ret) ∧ linkStep s e = some t := by
  have htaken : Taken 100 goodDelivery.txRet := by decide
  have hgood : Succeeds ⟨true, true, false⟩ goodDelivery 100 :=
    ⟨rfl, rfl, rfl, by decide, rfl, htaken⟩
  cases hq : s.toSfsd with
  | cons p toSfsd =>
    obtain ⟨t, ht⟩ := h.receive_eq ha hq htaken.txRet
    exact ⟨.receive .next .payload true true goodDelivery 100, t, ⟨rfl, rfl, rfl, rfl, rfl⟩,
      by simp, ht⟩
  | nil =>
  cases hpool : s.sfsdPool with
  | cons r sfsdPool => exact ⟨.start, _, trivial, by simp, h.start_eq hpool⟩
  | nil =>
  cases hserving : s.serving with
  | cons r serving =>
    obtain ⟨t, ht⟩ := h.serve_eq ha (i := 0) (r := r) (by rw [hserving]; rfl) hgood
    exact ⟨.serve 0 ⟨true, true, false⟩ goodDelivery 100, t, hgood, by simp, ht⟩
  | nil =>
  cases hheld : s.held with
  | some m => exact ⟨.queue true, _, rfl, by simp, h.queue_eq hheld⟩
  | none =>
  cases hsfs : s.toSfs with
  | cons p toSfs =>
    obtain ⟨t, ht⟩ := h.read_eq hsfs hheld
    exact ⟨.read .next .payload, t, ⟨rfl, rfl⟩, by simp, ht⟩
  | nil =>
  cases hsfsPool : s.sfsPool with
  | cons m sfsPool => exact ⟨.process, _, trivial, by simp, h.process_eq hsfsPool⟩
  | nil =>
    simp [Link.onTheWay, messages, hq, hpool, hserving, hheld, hsfs, hsfsPool] at hne

end Advance

/-- In an undisturbed run every request is processed with its response exactly once: each step but a
send brings the answers nearer, and one can be taken while a request is on its way. -/
theorem exchange_exactly_once {s : Link} (hs : linkSystem.Reach Undisturbed s) :
    (∀ e t, Undisturbed s e → (∀ r len ret, e ≠ .send r len ret) → linkStep s e = some t →
      t.work < s.work) ∧
    (s.onTheWay ≠ [] → ∃ e t, Undisturbed s e ∧ (∀ r len ret, e ≠ .send r len ret) ∧
      linkStep s e = some t) ∧
    (s.onTheWay = [] → s.sent.Perm (s.processed.map Message.request)) ∧
    ∀ m ∈ s.processed, sfsProcessPayload m.payload.command ≠ none ∧
      responseCode m.request.command = some m.payload.command ∧
      m.payload.jobId = m.request.jobId := by
  have h := intact_of_reach hs
  have ha := accounts_of_reach framed_of_undisturbed hs
  refine ⟨fun e t he hsend ht => (h.step ha he (moves_of_step ht)).2 hsend, h.can_advance ha, ?_,
    ?_⟩
  · intro hnone
    simpa [hnone, h.lost] using ha.perm
  · intro m hm
    have hcall := h.answers m (List.mem_append_right _ hm)
    exact ⟨hcall, ha.handled hm hcall⟩

theorem exchange_exactly_once_write : ∃ s, linkSystem.Reach Undisturbed s ∧
    s.sent = [writeRequest 7] ∧ s.sent.Perm (s.processed.map Message.request) := by
  have hrun : ∃ s, linkSystem.run Undisturbed .init (answered 7 ++ [.queue true, .process]) =
      some s ∧ s.sent = [writeRequest 7] ∧ s.onTheWay = [] := ⟨_, rfl, rfl, rfl⟩
  obtain ⟨s, hs, hsent, hnone⟩ := hrun
  have hreach : linkSystem.Reach Undisturbed s := .run (.init rfl) hs
  exact ⟨s, hreach, hsent, (exchange_exactly_once hreach).2.2.1 hnone⟩

end SeamlessStack.Exchange
