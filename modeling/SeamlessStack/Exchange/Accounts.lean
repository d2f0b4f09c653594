import SeamlessStack.Exchange.Link

/-! Each request is on its way, is lost, or has had its answer processed, and none is answered
twice. -/
namespace SeamlessStack.Exchange

open Lib
open Serdes (Command maxOutstandingJobs sizeofPayload)
open Sfsd.Respond

/-- The payload is the response to the request, or the request itself. -/
def Message.Right (m : Message) : Prop :=
  m.payload = m.request ∨
    responseCode m.request.command = some m.payload.command ∧ m.payload.jobId = m.request.jobId

section Sent
variable {request p : PayloadHead} {o : OpOutcome} {d : Delivery} {out : Processed}

theorem sendPayload_sent {bs : Buffers} {r : ℕ} (hp : bs.payloads r = some p)
    (h : sendPayload bs r d = .ok out) : ∀ q ∈ out.sent, q = p ∧ d.txRet ≠ -1 := by
  unfold sendPayload at h
  rw [hp] at h
  dsimp only at h
  split_ifs at h with hjob hmem hfail
  · cases h
    simp
  · obtain ⟨_, -, h⟩ := bind_eq_ok.mp h
    cases h
    simp
  all_goals
    obtain ⟨_, -, h⟩ := bind_eq_ok.mp h
    obtain ⟨_, -, h⟩ := bind_eq_ok.mp h
    obtain ⟨_, -, h⟩ := bind_eq_ok.mp h
    cases h
  · simp
  · simpa using (not_or.mp hfail).2

/-- A request of the file system that does not end the sfsd is answered with its own payload. -/
theorem reuses_of_requested (hreq : requested request.command = true)
    (h : doProcessPayload request o d = .ok out) : Reuses request.command o := by
  by_contra hno
  unfold doProcessPayload handleCommand at h
  simp only [Buffers.received, Buffers.only_payloads_zero] at h
  cases hc : request.command with
  | read =>
    have hecode : o.ecode = true := by
      by_contra hfalse
      exact hno (.inr (.inl ⟨hc, by simpa using hfalse⟩))
    simp [hc, dispatch, sstackRead, hecode] at h
  | write =>
    have hdone : o.done = false := by
      by_contra htrue
      exact hno (.inr (.inr ⟨hc, by simpa using htrue⟩))
    simp [hc, dispatch, sstackWrite, hdone] at h
  | esureCode => simp [hc, dispatch, sstackEsureCode] at h
  | remove | rmdir | storage _ => exact hno (.inl (by rw [hc]; rfl))
  | _ =>
    rw [hc] at hreq
    cases hreq

theorem doProcessPayload_sent (hreq : requested request.command = true)
    (h : doProcessPayload request o d = .ok out) :
    ∀ q ∈ out.sent, Message.Right ⟨request, q⟩ ∧ d.txRet ≠ -1 := by
  obtain ⟨p, data, hrun, hans⟩ := handleCommand_of_reuses (reuses_of_requested hreq h)
  unfold doProcessPayload at h
  rw [hrun, ok_bind] at h
  intro q hq
  obtain ⟨rfl, hret⟩ := sendPayload_sent (Buffers.only_payloads_zero p data) h q hq
  exact ⟨.inr ⟨hans.code, hans.jobId⟩, hret⟩

end Sent

/-- What becomes of a request that `do_receive_thread` does not queue. -/
inductive Left (s : Link) (r : PayloadHead) (d : Delivery) (len : ℕ) : Link → Prop
  | lost : Left s r d len (s.lose r)
  | crashed : Left s r d len (s.crash r)
  | returned {sent : List PayloadHead} (h : ∀ q ∈ sent, q = r ∧ d.txRet ≠ -1) :
      Left s r d len (s.answer r len d.txRet sent)

/-- What a step can do. -/
inductive Moves (s : Link) : LinkEvent → Link → Prop
  | sent {r : PayloadHead} {len : ℕ} {ret : ℤ} (hreq : requested r.command = true)
      (hlen : 0 < len) :
      Moves s (.send r len ret) ({ s with sent := s.sent ++ [r] }.txRequest r len ret)
  | notReceived {r : Recv} {params queued : Bool} {d : Delivery} {len : ℕ} :
      Moves s (.receive r .unread params queued d len) s
  | pooled {r : Recv} {request : PayloadHead} {s' : Link} {d : Delivery} {len : ℕ}
      (hr : s.recvRequest r = some (request, s')) : Moves s (.receive r .payload true true d len)
        { s' with sfsdPool := s'.sfsdPool ++ [request] }
  | dropped {r : Recv} {request : PayloadHead} {receipt : Receipt} {params queued : Bool}
      {d : Delivery} {len : ℕ} {s' t : Link} (hr : s.recvRequest r = some (request, s'))
      (hfail : ¬ (receipt = .payload ∧ params = true ∧ queued = true))
      (h : Left s' request d len t) : Moves s (.receive r receipt params queued d len) t
  | started {r : PayloadHead} {sfsdPool : List PayloadHead} (hq : s.sfsdPool = r :: sfsdPool) :
      Moves s .start { s with sfsdPool, serving := s.serving ++ [r] }
  | crashed {i : ℕ} {r : PayloadHead} {o : OpOutcome} {d : Delivery} {len : ℕ}
      {fault : RespondFault} (hi : s.serving[i]? = some r)
      (hrun : doProcessPayload r o d = .error fault) :
      Moves s (.serve i o d len) ({ s with serving := s.serving.eraseIdx i }.crash r)
  | served {i : ℕ} {r : PayloadHead} {o : OpOutcome} {d : Delivery} {len : ℕ} {out : Processed}
      (hi : s.serving[i]? = some r) (hrun : doProcessPayload r o d = .ok out) (hlen : 0 < len) :
      Moves s (.serve i o d len)
        ({ s with serving := s.serving.eraseIdx i }.answer r len d.txRet out.sent)
  | notRead {r : Recv} : Moves s (.read r .unread) s
  | read {r : Recv} {m : Message} {s' : Link} (hr : s.recvAnswer r = some (m, s'))
      (hheld : s.held = none) (hended : s.ended = false) :
      Moves s (.read r .payload) { s' with held := some m }
  | spoilt {r : Recv} {m : Message} {s' : Link} {receipt : Receipt} {sfsDown : Bool}
      (hr : s.recvAnswer r = some (m, s')) (hended : s.ended = false)
      (hfail : receipt ≠ .payload) :
      Moves s (.read r receipt) { s'.lose m.request with sfsDown }
  | queued {m : Message} (hheld : s.held = some m) :
      Moves s (.queue true) { s with held := none, sfsPool := s.sfsPool ++ [m] }
  | retried {m : Message} (hheld : s.held = some m)
      (hlt : s.numRetries + 1 < maxJobSubmitRetries) :
      Moves s (.queue false) { s with numRetries := s.numRetries + 1 }
  | ended {m : Message} (hheld : s.held = some m)
      (hge : ¬ s.numRetries + 1 < maxJobSubmitRetries) : Moves s (.queue false)
        { { s with numRetries := s.numRetries + 1 }.lose m.request with
          held := none, ended := true }
  | processed {m : Message} {sfsPool : List Message} (hq : s.sfsPool = m :: sfsPool) :
      Moves s .process { s with sfsPool, processed := s.processed ++ [m] }

variable {len : ℕ} {ret : ℤ} {how : Recv} {m : Message}

section Step
variable {s s' t : Link} {r : PayloadHead} {e : LinkEvent}

theorem left_sendUnsucessfulResponse (s : Link) (r : PayloadHead) (d : Delivery) (len : ℕ) :
    Left s r d len (s.sendUnsucessfulResponse r d len) := by
  unfold Link.sendUnsucessfulResponse
  split
  next => exact .crashed
  next out hout =>
    exact .returned (sendPayload_sent (Buffers.only_payloads_zero r _) hout)

theorem send_moves (ht : s.send r len ret = some t) :
    Moves s (.send r len ret) t := by
  unfold Link.send at ht
  split at ht
  · cases ht
  next hcan =>
    obtain ⟨-, hreq, hret⟩ : ¬ s.sfsDown = true ∧ requested r.command = true ∧ TxRet len ret := by
      simpa [not_or] using hcan
    cases ht
    exact .sent hreq hret.1

theorem receive_moves {receipt : Receipt} {params queued : Bool} {d : Delivery}
    (ht : s.doReceiveThread how receipt params queued d len = some t) :
    Moves s (.receive how receipt params queued d len) t := by
  unfold Link.doReceiveThread at ht
  split at ht
  · cases ht
  split at ht
  · cases ht
    exact .notReceived
  · cases ht
  next hr =>
    cases ht
    exact .dropped hr (by simp) .lost
  next hr =>
    cases ht
    exact .dropped hr (by simp) .crashed
  next hr =>
    split_ifs at ht with hread hparams hqueued
    · cases ht
      exact .dropped hr (by simp [hparams]) (left_sendUnsucessfulResponse _ _ d len)
    · cases ht
      rw [hqueued, Bool.eq_true_of_not_eq_false hparams]
      exact .pooled hr
    · cases ht
      exact .dropped hr (by simp [hqueued]) .lost

theorem serve_moves {i : ℕ} {o : OpOutcome} {d : Delivery}
    (ht : s.servePayload i o d len = some t) : Moves s (.serve i o d len) t := by
  unfold Link.servePayload at ht
  split at ht
  · cases ht
  next hcan =>
  have hret : TxRet len d.txRet := not_not.mp (not_or.mp hcan).2
  split at ht
  · cases ht
  next request hi =>
    dsimp only at ht
    split at ht
    next hrun =>
      cases ht
      exact .crashed hi hrun
    next hrun =>
      cases ht
      exact .served hi hrun hret.1

theorem read_moves {receipt : Receipt} (ht : s.readPayload how receipt = some t) :
    Moves s (.read how receipt) t := by
  unfold Link.readPayload at ht
  split at ht
  · cases ht
  next hfree =>
  obtain ⟨-, hended, hheld⟩ : ¬ s.sfsDown = true ∧ s.ended = false ∧ s.held = none := by
    simpa [not_or] using hfree
  split at ht
  · cases ht
    exact .notRead
  · cases ht
  next hr =>
    cases ht
    exact .spoilt hr hended (by simp)
  next hr =>
    cases ht
    exact .spoilt hr hended (by simp)
  next hr =>
    split_ifs at ht
    cases ht
    exact .read hr hheld hended

theorem queue_moves {ok : Bool} (ht : s.queuePayload ok = some t) : Moves s (.queue ok) t := by
  unfold Link.queuePayload at ht
  split at ht
  · cases ht
  split at ht
  · cases ht
  next m hheld =>
    split_ifs at ht with hok hless
    · cases ht
      exact hok ▸ .queued hheld
    · cases ht
      exact Bool.eq_false_of_not_eq_true hok ▸ .retried hheld hless
    · cases ht
      exact Bool.eq_false_of_not_eq_true hok ▸ .ended hheld hless

theorem moves_of_step (ht : linkStep s e = some t) : Moves s e t := by
  cases e with
  | send request len ret => exact send_moves ht
  | receive r receipt params queued d len => exact receive_moves ht
  | serve i o d len => exact serve_moves ht
  | read r receipt => exact read_moves ht
  | queue ok => exact queue_moves ht
  | start =>
    simp only [linkStep, Link.startPayload] at ht
    split at ht
    · cases ht
    split at ht
    · cases ht
    next hq =>
      cases ht
      exact .started hq
  | process =>
    simp only [linkStep, Link.processPayload] at ht
    split at ht
    · cases ht
    split at ht
    · cases ht
    next hq =>
      cases ht
      exact .processed hq

theorem recvRequest_same (h : s.recvRequest how = some (r, s')) :
    s' = { s with toSfsd := s'.toSfsd, lost := s'.lost } := by
  obtain ⟨⟨request, spoilt, toSfsd⟩, -, heq⟩ := Option.map_eq_some_iff.mp h
  cases heq
  rfl

theorem recvAnswer_same (h : s.recvAnswer how = some (m, s')) :
    s' = { s with toSfs := s'.toSfs, lost := s'.lost } := by
  obtain ⟨⟨m, spoilt, toSfs⟩, -, heq⟩ := Option.map_eq_some_iff.mp h
  cases heq
  rfl

theorem recv_next {α : Type} {stream rest : List (Piece α)} {made : PayloadHead → α} {m : α}
    {spoilt : List α} (h : recv stream made .next = some (m, spoilt, rest)) :
    spoilt = [] ∧ ∃ n, stream = ⟨n, some m⟩ :: rest := by
  unfold recv at h
  dsimp only at h
  split at h
  · split_ifs at h
    cases h
    exact ⟨rfl, _, rfl⟩
  · cases h

theorem recvRequest_next (h : s.recvRequest .next = some (r, s')) :
    ∃ n toSfsd, s.toSfsd = ⟨n, some r⟩ :: toSfsd ∧ s' = { s with toSfsd } := by
  obtain ⟨⟨request, spoilt, toSfsd⟩, hrecv, heq⟩ := Option.map_eq_some_iff.mp h
  obtain ⟨rfl, n, hstream⟩ := recv_next hrecv
  cases heq
  exact ⟨n, toSfsd, hstream, by rw [List.append_nil]⟩

theorem recvAnswer_next (h : s.recvAnswer .next = some (m, s')) :
    ∃ n toSfs, s.toSfs = ⟨n, some m⟩ :: toSfs ∧ s' = { s with toSfs } := by
  obtain ⟨⟨m, spoilt, toSfs⟩, hrecv, heq⟩ := Option.map_eq_some_iff.mp h
  obtain ⟨rfl, n, hstream⟩ := recv_next hrecv
  cases heq
  exact ⟨n, toSfs, hstream, by rw [List.map_nil, List.append_nil]⟩

end Step

def Link.answers (s : Link) : List Message :=
  messages s.toSfs ++ s.held.toList ++ s.sfsPool ++ s.processed

/-- Every request that was sent is in one place, perhaps with the thread that takes a step. -/
structure Accounts (s : Link) (inHand : List PayloadHead) : Prop where
  perm : s.sent.Perm (inHand ++ s.onTheWay ++ s.lost ++ s.processed.map Message.request)
  requested : ∀ r ∈ s.sent, requested r.command = true
  right : ∀ m ∈ s.answers, m.Right

section Account
variable {s t : Link} {r : PayloadHead} {e : LinkEvent} {inHand inHand' : List PayloadHead}

theorem Accounts.move (h : Accounts s inHand) (hsent : t.sent = s.sent)
    (hcount : ∀ a, (inHand ++ s.onTheWay ++ s.lost ++ s.processed.map Message.request).count a =
      (inHand' ++ t.onTheWay ++ t.lost ++ t.processed.map Message.request).count a)
    (hright : ∀ m ∈ t.answers, m ∈ s.answers ∨ m.Right) : Accounts t inHand' where
  perm := hsent ▸ h.perm.trans (List.perm_iff_count.mpr hcount)
  requested := hsent ▸ h.requested
  right m hm := (hright m hm).elim (h.right m) id

theorem Accounts.lose (h : Accounts s [r]) : Accounts (s.lose r) [] := by
  refine h.move rfl (fun a => ?_) fun m hm => .inl hm
  simp only [Link.lose, Link.onTheWay, List.count_append, List.count_nil]
  omega

theorem Accounts.crash (h : Accounts s [r]) : Accounts (s.crash r) [] :=
  ⟨h.lose.perm, h.lose.requested, h.lose.right⟩

theorem Accounts.answer (h : Accounts s [r]) {sent : List PayloadHead}
    (hframed : ret = -1 ∨ ret = len)
    (hsent : ∀ q ∈ sent, Message.Right ⟨r, q⟩ ∧ ret ≠ -1) :
    Accounts (s.answer r len ret sent) [] := by
  cases sent with
  | nil => exact h.lose
  | cons p rest =>
    obtain ⟨hright, hret⟩ := hsent p List.mem_cons_self
    obtain rfl : ret = len := hframed.resolve_left hret
    unfold Link.answer
    dsimp only
    split
    · exact h.lose
    rw [if_pos rfl]
    refine h.move rfl (fun a => ?_) fun m hm => ?_
    · simp only [Link.onTheWay, messages_taken, List.map_append, List.map_cons, List.map_nil,
        List.count_append, List.count_nil]
      omega
    · by_cases hnew : m = ⟨r, p⟩
      · exact .inr (hnew ▸ hright)
      · simp only [Link.answers, messages_taken, List.mem_append, List.mem_singleton] at hm ⊢
        tauto

theorem Accounts.take {i : ℕ} (h : Accounts s []) (hi : s.serving[i]? = some r) :
    Accounts { s with serving := s.serving.eraseIdx i } [r] := by
  obtain ⟨hlt, rfl⟩ := List.getElem?_eq_some_iff.mp hi
  refine h.move rfl (fun a => ?_) fun m hm => .inl hm
  have hcount := (List.getElem_cons_eraseIdx_perm hlt).count_eq a
  simp only [List.count_cons] at hcount
  simp only [Link.onTheWay, List.count_append, List.count_nil, List.count_cons]
  omega

theorem Accounts.send (h : Accounts s []) (hreq : Exchange.requested r.command = true) :
    Accounts { s with sent := s.sent ++ [r] } [r] where
  perm := by
    refine (h.perm.append_right [r]).trans (List.perm_iff_count.mpr fun a => ?_)
    simp only [Link.onTheWay, List.count_append, List.count_nil]
    omega
  requested a ha := by
    obtain ha | ha := List.mem_append.mp ha
    · exact h.requested a ha
    · rwa [List.mem_singleton.mp ha]
  right := h.right

theorem Accounts.txRequest (h : Accounts s [r]) (hframed : ret = -1 ∨ ret = len) :
    Accounts (s.txRequest r len ret) [] := by
  unfold Link.txRequest
  split
  · exact h.lose
  next hret =>
    obtain rfl : ret = len := hframed.resolve_left (by omega)
    dsimp only
    rw [if_pos rfl]
    refine h.move rfl (fun a => ?_) fun m hm => .inl hm
    simp only [Link.onTheWay, messages_taken, List.count_append, List.count_nil]
    omega

theorem Accounts.recvRequest (h : Accounts s []) (hr : s.recvRequest .next = some (r, t)) :
    Accounts t [r] := by
  obtain ⟨n, toSfsd, hq, rfl⟩ := recvRequest_next hr
  refine h.move rfl (fun a => ?_) fun m hm => .inl hm
  simp only [Link.onTheWay, hq, messages_cons, List.count_append, List.count_nil, List.count_cons]
  omega

theorem Accounts.recvAnswer (h : Accounts s []) (hr : s.recvAnswer .next = some (m, t)) :
    Accounts t [m.request] ∧ m.Right := by
  obtain ⟨n, toSfs, hq, rfl⟩ := recvAnswer_next hr
  refine ⟨h.move rfl (fun a => ?_) fun m hm => .inl ?_, h.right m ?_⟩
  · simp only [Link.onTheWay, hq, messages_cons, List.map_append, List.map_cons, List.count_append,
      List.count_nil, List.count_cons]
    omega
  · simp only [Link.answers, hq, messages_cons, List.mem_append, List.mem_cons] at hm ⊢
    tauto
  · simp [Link.answers, hq, messages_cons]

theorem Accounts.step (h : Accounts s []) (hframed : Framed s e) (hmoves : Moves s e t) :
    Accounts t [] := by
  cases hmoves with
  | sent hreq hlen => exact (h.send hreq).txRequest hframed
  | notReceived | notRead => exact h
  | pooled hr =>
    obtain ⟨rfl, -⟩ := hframed
    refine (h.recvRequest hr).move rfl (fun a => ?_) fun m hm => .inl hm
    simp only [Link.onTheWay, List.count_append, List.count_nil]
    omega
  | dropped hr hfail hleft =>
    obtain ⟨rfl, hret⟩ := hframed
    have hhand := h.recvRequest hr
    cases hleft with
    | lost => exact hhand.lose
    | crashed => exact hhand.crash
    | returned hsent => exact hhand.answer hret fun q hq => (hsent q hq).imp_left .inl
  | started hq =>
    refine h.move rfl (fun a => ?_) fun m hm => .inl hm
    simp only [Link.onTheWay, hq, List.count_append, List.count_nil, List.count_cons]
    omega
  | crashed hi hrun => exact (h.take hi).crash
  | @served i r _ _ _ _ hi hrun hlen =>
    have hhand := h.take hi
    have hreq := hhand.requested r (hhand.perm.mem_iff.mpr (by simp))
    exact hhand.answer hframed (doProcessPayload_sent hreq hrun)
  | read hr hheld hended =>
    obtain rfl := hframed
    obtain ⟨hhand, hright⟩ := h.recvAnswer hr
    obtain ⟨n, toSfs, -, rfl⟩ := recvAnswer_next hr
    refine hhand.move rfl (fun a => ?_) fun m hm => ?_
    · simp only [Link.onTheWay, hheld, Option.toList_none, Option.toList_some, List.map_append,
        List.map_cons, List.map_nil, List.count_append, List.count_nil]
      omega
    · simp only [Link.answers, Option.toList_some, List.mem_append, List.mem_singleton] at hm ⊢
      obtain ((hm | rfl) | hm) | hm := hm
      · tauto
      · exact .inr hright
      · tauto
      · tauto
  | spoilt hr hended hfail =>
    obtain rfl := hframed
    have hlost := (h.recvAnswer hr).1.lose
    exact ⟨hlost.perm, hlost.requested, hlost.right⟩
  | queued hheld =>
    refine h.move rfl (fun a => ?_) fun m hm => .inl ?_
    · simp only [Link.onTheWay, hheld, Option.toList_none, Option.toList_some, List.map_append,
        List.map_cons, List.map_nil, List.count_append, List.count_nil]
      omega
    · simp only [Link.answers, hheld, Option.toList_none, Option.toList_some, List.mem_append,
        List.mem_cons, List.not_mem_nil] at hm ⊢
      tauto
  | retried hheld hlt => exact ⟨h.perm, h.requested, h.right⟩
  | ended hheld hge =>
    refine h.move rfl (fun a => ?_) fun m hm => .inl ?_
    · simp only [Link.lose, Link.onTheWay, hheld, Option.toList_none, Option.toList_some,
        List.map_append, List.map_cons, List.map_nil, List.count_append, List.count_nil]
      omega
    · simp only [Link.answers, Link.lose, Option.toList_none, List.mem_append,
        List.not_mem_nil] at hm ⊢
      tauto
  | processed hq =>
    refine h.move rfl (fun a => ?_) fun m hm => .inl ?_
    · simp only [Link.onTheWay, hq, List.map_append, List.map_cons, List.map_nil,
        List.count_append, List.count_nil, List.count_cons]
      omega
    · simp only [Link.answers, hq, List.mem_append, List.mem_cons, List.not_mem_nil] at hm ⊢
      tauto

theorem accounts_of_reach {G : Link → LinkEvent → Prop} (hG : ∀ s e, G s e → Framed s e)
    (hs : linkSystem.Reach G s) : Accounts s [] := by
  refine hs.invariant (I := fun s => Accounts s []) ?_ fun s e t _ h he ht =>
    h.step (hG s e he) (moves_of_step ht)
  rintro s rfl
  exact ⟨.refl _, by simp [Link.init], by simp [Link.init, Link.answers, messages]⟩

end Account

theorem sfsProcessPayload_of_requested {c : Command} (h : requested c = true) :
    sfsProcessPayload c = none := by
  cases c with
  | read | write | remove | rmdir | esureCode | storage _ => rfl
  | _ => cases h

theorem Accounts.handled {s : Link} (h : Accounts s []) (hm : m ∈ s.processed)
    (hcall : sfsProcessPayload m.payload.command ≠ none) :
    responseCode m.request.command = some m.payload.command ∧
      m.payload.jobId = m.request.jobId := by
  obtain hsame | hright := h.right m (List.mem_append_right _ hm)
  · have hsent : m.request ∈ s.sent :=
      h.perm.mem_iff.mpr (List.mem_append_right _ (List.mem_map_of_mem hm))
    rw [hsame, sfsProcessPayload_of_requested (h.requested _ hsent)] at hcall
    exact absurd rfl hcall
  · exact hright

/-- As long as each `recv` gives just the next message, each request is on its way, lost or
processed, and only one of these. What is processed is the response with its job id. -/
theorem exchange_accounts {s : Link} (hs : linkSystem.Reach Framed s) :
    s.sent.Perm (s.onTheWay ++ s.lost ++ s.processed.map Message.request) ∧
      ∀ m ∈ s.processed, sfsProcessPayload m.payload.command ≠ none →
        responseCode m.request.command = some m.payload.command ∧
          m.payload.jobId = m.request.jobId := by
  have h := accounts_of_reach (fun _ _ => id) hs
  exact ⟨h.perm, fun m hm => h.handled hm⟩

def writeRequest (id : UInt64) : PayloadHead := ⟨.write, id, 0, true⟩

def goodDelivery : Delivery := ⟨5, true, 100⟩

/-- Without memory for its parameters a request comes back as it is, and nothing is done for it. -/
theorem exchange_accounts_returned : ∃ s, linkSystem.Reach Framed s ∧
    s.sent = [writeRequest 7] ∧ s.processed = [⟨writeRequest 7, writeRequest 7⟩] ∧
    s.sent.Perm (s.onTheWay ++ s.lost ++ s.processed.map Message.request) := by
  have hrun : ∃ s, linkSystem.run Framed .init
      [.send (writeRequest 7) 100 100, .receive .next .payload false true goodDelivery 100,
        .read .next .payload, .queue true, .process] = some s ∧ s.sent = [writeRequest 7] ∧
      s.processed = [⟨writeRequest 7, writeRequest 7⟩] := ⟨_, rfl, rfl, rfl⟩
  obtain ⟨s, hs, hsent, hprocessed⟩ := hrun
  have hreach : linkSystem.Reach Framed s := .run (.init rfl) hs
  exact ⟨s, hreach, hsent, hprocessed, (exchange_accounts hreach).1⟩

section Retries
variable {s t : Link} {r : PayloadHead} {e : LinkEvent} {es : List LinkEvent}

/-- Nothing changed for `sfs_handle_connection` and the threads behind it. -/
structure SameThreads (s t : Link) : Prop where
  numRetries : t.numRetries = s.numRetries
  ended : t.ended = s.ended
  held : t.held = s.held
  processed : t.processed = s.processed
  sfsPool : t.sfsPool = s.sfsPool

theorem SameThreads.trans {u : Link} (h : SameThreads s t) (h' : SameThreads t u) :
    SameThreads s u :=
  ⟨h'.numRetries.trans h.numRetries, h'.ended.trans h.ended, h'.held.trans h.held,
    h'.processed.trans h.processed, h'.sfsPool.trans h.sfsPool⟩

theorem sameThreads_txRequest (s : Link) (r : PayloadHead) (len : ℕ) (ret : ℤ) :
    SameThreads s (s.txRequest r len ret) := by
  unfold Link.txRequest
  dsimp only
  split_ifs <;> exact ⟨rfl, rfl, rfl, rfl, rfl⟩

theorem sameThreads_answer (s : Link) (r : PayloadHead) (len : ℕ) (ret : ℤ)
    (sent : List PayloadHead) : SameThreads s (s.answer r len ret sent) := by
  cases sent with
  | nil => exact ⟨rfl, rfl, rfl, rfl, rfl⟩
  | cons p rest =>
    unfold Link.answer
    dsimp only
    split_ifs <;> exact ⟨rfl, rfl, rfl, rfl, rfl⟩

theorem sameThreads_recvRequest (h : s.recvRequest how = some (r, t)) :
    SameThreads s t := by
  rw [recvRequest_same h]
  exact ⟨rfl, rfl, rfl, rfl, rfl⟩

theorem sameThreads_recvAnswer (h : s.recvAnswer how = some (m, t)) :
    SameThreads s t := by
  rw [recvAnswer_same h]
  exact ⟨rfl, rfl, rfl, rfl, rfl⟩

def LinkEvent.before : LinkEvent → Bool
  | .send .. | .receive .. | .start | .serve .. => true
  | .read .. | .queue _ | .process => false

theorem Moves.sameThreads (h : Moves s e t) (he : e.before = true) : SameThreads s t := by
  cases h with
  | @sent r len ret hreq hlen =>
    have htx := sameThreads_txRequest { s with sent := s.sent ++ [r] } r len ret
    exact ⟨htx.numRetries, htx.ended, htx.held, htx.processed, htx.sfsPool⟩
  | notReceived | started | crashed => exact ⟨rfl, rfl, rfl, rfl, rfl⟩
  | pooled hr => exact (sameThreads_recvRequest hr).trans ⟨rfl, rfl, rfl, rfl, rfl⟩
  | dropped hr hfail hleft =>
    refine (sameThreads_recvRequest hr).trans ?_
    cases hleft with
    | lost | crashed => exact ⟨rfl, rfl, rfl, rfl, rfl⟩
    | returned _ => exact sameThreads_answer _ _ _ _ _
  | @served i r _ d len out hi hrun hlen =>
    have hanswer := sameThreads_answer { s with serving := s.serving.eraseIdx i } r len d.txRet
      out.sent
    exact ⟨hanswer.numRetries, hanswer.ended, hanswer.held, hanswer.processed, hanswer.sfsPool⟩
  | _ => cases he

/-- The failures to queue a payload, and where they end the thread. -/
structure Retries (s : Link) : Prop where
  ended : s.ended = true ↔ s.numRetries = maxJobSubmitRetries
  le : s.numRetries ≤ maxJobSubmitRetries
  held : s.ended = true → s.held = none

theorem Retries.same (h : Retries s) (hsame : SameThreads s t) : Retries t := by
  refine ⟨?_, hsame.numRetries ▸ h.le, ?_⟩
  · rw [hsame.ended, hsame.numRetries]
    exact h.ended
  · rw [hsame.ended, hsame.held]
    exact h.held

theorem Retries.not_ended (h : Retries s) (hheld : s.held = some m) :
    s.ended = false := by
  by_contra hne
  rw [h.held (by simpa using hne)] at hheld
  cases hheld

theorem Retries.lt (h : Retries s) (hended : s.ended = false) :
    s.numRetries < maxJobSubmitRetries := by
  refine lt_of_le_of_ne h.le fun hmax => ?_
  rw [h.ended.mpr hmax] at hended
  cases hended

theorem Retries.step (h : Retries s) (hmoves : Moves s e t) :
    Retries t ∧ t.numRetries = s.numRetries + if e = .queue false then 1 else 0 := by
  cases hbefore : e.before with
  | true =>
    have hsame := hmoves.sameThreads hbefore
    have hne : e ≠ .queue false := by
      rintro rfl
      cases hbefore
    exact ⟨h.same hsame, by rw [if_neg hne, hsame.numRetries, Nat.add_zero]⟩
  | false =>
  cases hmoves with
  | notRead => exact ⟨h, by simp⟩
  | read hr hheld hended =>
    have hsame := sameThreads_recvAnswer hr
    have hretries := h.same hsame
    refine ⟨⟨hretries.ended, hretries.le, fun htrue => ?_⟩, by simp [hsame.numRetries]⟩
    cases (hsame.ended.trans hended).symm.trans htrue
  | spoilt hr hended hfail =>
    have hsame := sameThreads_recvAnswer hr
    have hretries := h.same hsame
    exact ⟨⟨hretries.ended, hretries.le, hretries.held⟩, by simp [Link.lose, hsame.numRetries]⟩
  | queued hheld => exact ⟨⟨h.ended, h.le, fun _ => rfl⟩, by simp⟩
  | retried hheld hlt =>
    have hended := h.not_ended hheld
    refine ⟨⟨?_, hlt.le, fun htrue => ?_⟩, rfl⟩
    · simp [hended, hlt.ne]
    · cases hended.symm.trans htrue
  | ended hheld hge =>
    have hmax : s.numRetries + 1 = maxJobSubmitRetries := by
      have := h.lt (h.not_ended hheld)
      omega
    refine ⟨⟨?_, hmax.le, fun _ => rfl⟩, rfl⟩
    simp [Link.lose, hmax]
  | processed hq => exact ⟨⟨h.ended, h.le, h.held⟩, by simp⟩
  | _ => cases hbefore

theorem Retries.run (h : Retries s) (ht : linkSystem.run System.AnyStep s es = some t) :
    Retries t ∧ t.numRetries = s.numRetries + es.count (.queue false) := by
  induction es generalizing s with
  | nil =>
    obtain rfl := Option.some.inj ht
    exact ⟨h, rfl⟩
  | cons e es ih =>
    rw [System.run_cons_anyStep] at ht
    obtain ⟨u, hu, ht⟩ := Option.bind_eq_some_iff.mp ht
    obtain ⟨hru, hnu⟩ := h.step (moves_of_step hu)
    obtain ⟨hrt, hnt⟩ := ih hru ht
    refine ⟨hrt, ?_⟩
    rw [hnt, hnu, List.count_cons]
    simp only [beq_iff_eq]
    omega

theorem Retries.ended_step (h : Retries s) (hended : s.ended = true) (hmoves : Moves s e t) :
    t.ended = true ∧ t.processed ++ t.sfsPool = s.processed ++ s.sfsPool := by
  cases hbefore : e.before with
  | true =>
    have hsame := hmoves.sameThreads hbefore
    exact ⟨hsame.ended.trans hended, by rw [hsame.processed, hsame.sfsPool]⟩
  | false =>
  cases hmoves with
  | notRead => exact ⟨hended, rfl⟩
  | read hq hheld hfalse | spoilt hq hfalse hfail => cases hended.symm.trans hfalse
  | queued hheld | retried hheld hlt | ended hheld hge =>
    cases (h.held hended).symm.trans hheld
  | processed hq => exact ⟨hended, by simp [hq]⟩
  | _ => cases hbefore

theorem Retries.ended_run (h : Retries s) (hended : s.ended = true)
    (ht : linkSystem.run System.AnyStep s es = some t) :
    t.processed ++ t.sfsPool = s.processed ++ s.sfsPool := by
  induction es generalizing s with
  | nil =>
    obtain rfl := Option.some.inj ht
    rfl
  | cons e es ih =>
    rw [System.run_cons_anyStep] at ht
    obtain ⟨u, hu, ht⟩ := Option.bind_eq_some_iff.mp ht
    have hmoves := moves_of_step hu
    obtain ⟨hu', hpool⟩ := h.ended_step hended hmoves
    exact (ih (h.step hmoves).1 hu' ht).trans hpool

/-- The thread that reads the answers ends with the tenth payload that cannot be queued at once, and
from then on only answers that were queued before are processed. -/
theorem connection_ends (hs : linkSystem.run System.AnyStep .init es = some s) :
    (s.ended = true ↔ es.count (.queue false) = maxJobSubmitRetries) ∧
      (s.ended = true → ∀ es' t, linkSystem.run System.AnyStep s es' = some t →
        t.processed ++ t.sfsPool = s.processed ++ s.sfsPool) := by
  have hinit : Retries .init := ⟨by decide, Nat.zero_le _, by simp [Link.init]⟩
  obtain ⟨hr, hn⟩ := hinit.run hs
  have hzero : Link.init.numRetries = 0 := rfl
  rw [hzero, Nat.zero_add] at hn
  exact ⟨hn ▸ hr.ended, fun hended es' t ht => hr.ended_run hended ht⟩

/-- A write that is served, up to the call of `sfs_handle_connection` to queue the answer. -/
def answered (id : UInt64) : List LinkEvent :=
  [.send (writeRequest id) 100 100, .receive .next .payload true true goodDelivery 100, .start,
    .serve 0 ⟨true, true, false⟩ goodDelivery 100, .read .next .payload]

/-- Nine failures for one answer, which is queued then, leave one for the next. -/
theorem connection_ends_tenth : ∃ s, linkSystem.run System.AnyStep .init
    (answered 7 ++ List.replicate 9 (.queue false) ++ [.queue true] ++ answered 8 ++
      [.queue false]) = some s ∧ s.lost = [writeRequest 8] ∧ s.ended = true := by
  have hrun : ∃ s, linkSystem.run System.AnyStep .init
      (answered 7 ++ List.replicate 9 (.queue false) ++ [.queue true] ++ answered 8 ++
        [.queue false]) = some s ∧ s.lost = [writeRequest 8] := ⟨_, rfl, rfl⟩
  obtain ⟨s, hs, hlost⟩ := hrun
  exact ⟨s, hs, hlost, (connection_ends hs).1.mpr (by decide)⟩

end Retries

end SeamlessStack.Exchange
