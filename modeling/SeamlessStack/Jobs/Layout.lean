import SeamlessStack.Lib.Count
import SeamlessStack.Jobs.Completion

/-! What holds of the job map of a request at every moment: which clients it waits for, and
what `num_jobs_left` counts. -/
namespace SeamlessStack.Jobs

open Lib

namespace Progress

variable (s : Progress) (i : ℕ) (slot : Slot)

@[simp] theorem signal_slots : s.signal.slots = s.slots := by
  unfold signal
  split <;> rfl

@[simp] theorem signal_jobs : s.signal.jobs = s.jobs := by
  unfold signal
  split <;> rfl

@[simp] theorem signal_numJobsLeft : s.signal.numJobsLeft = s.numJobsLeft := by
  unfold signal
  split <;> rfl

@[simp] theorem signal_errNo : s.signal.errNo = s.errNo := by
  unfold signal
  split <;> rfl

@[simp] theorem signal_opStatus : s.signal.opStatus = s.opStatus := by
  unfold signal
  split <;> rfl

theorem signal_fuse : s.signal.fuse = s.fuse ∨ s.fuse = .asleep ∧ s.signal.fuse = .woken := by
  unfold signal
  split
  · rename_i h
    exact Or.inr ⟨h, rfl⟩
  · exact Or.inl rfl

theorem signal_woken (h : s.fuse = .asleep ∨ s.fuse = .woken) : s.signal.fuse = .woken := by
  unfold signal
  split
  · rfl
  · rename_i hne
    exact h.resolve_left hne

@[simp] theorem keepPayload_length : (s.keepPayload slot).jobs.length = s.jobs.length := by
  simp [keepPayload]

@[simp] theorem setStatus_length (job client : ℕ) (status : JobStatus) :
    (s.setStatus job client status).jobs.length = s.jobs.length := by
  simp [setStatus]

end Progress

/-- Which responses have been counted, by where their threads stand. -/
def Slot.Consistent (op : Op) (slot : Slot) : Prop :=
  match slot.handler with
  | .idle | .lookup | .found | .failed | .tallied .. => slot.counted = false
  | .counted => slot.counted = true ∧ op = .read
  | .stored => slot.counted = true ↔ op = .read
  | .decremented _ | .recorded _ | .last | .done => True

def Slot.Early (slot : Slot) : Prop :=
  (slot.handler = .idle ∨ slot.handler = .lookup ∨ slot.handler = .done) ∧ slot.counted = false

structure Layout (q : Request) (s : Progress) : Prop where
  keys : s.slots.map (fun slot => (slot.job, slot.client)) =
    (List.range s.jobs.length).flatMap fun job =>
      (List.range q.numClients).map fun client => (job, client)
  left : s.numJobsLeft = q.numJobsLeft₀ + s.jobs.length - s.slots.countP Slot.counted
  all : s.fuse ≠ .submitting → s.jobs.length = q.numJobs
  consistent : ∀ slot ∈ s.slots, slot.Consistent q.op
  early : s.fuse = .submitting → ∀ slot ∈ s.slots, slot.Early
  opStatus : s.opStatus = List.replicate q.numClients .started

/-- The step changes one slot, counts its response or not, and may wake the FUSE thread. -/
structure SlotStep (s t : Progress) (i : ℕ) (old new : Slot) : Prop where
  slot : s.slots[i]? = some old
  slots : t.slots = s.slots.set i new
  key : (new.job, new.client) = (old.job, old.client)
  left : t.numJobsLeft + new.counted.toNat = s.numJobsLeft + old.counted.toNat
  length : t.jobs.length = s.jobs.length
  opStatus : t.opStatus = s.opStatus
  fuse : t.fuse = s.fuse ∨ s.fuse = .asleep ∧ t.fuse = .woken

variable {t : Progress} {old new : Slot}

theorem SlotStep.mem {s : Progress} {i : ℕ} (h : SlotStep s t i old new) :
    old ∈ s.slots := List.mem_of_getElem? h.slot

theorem SlotStep.submitting {s : Progress} {i : ℕ} (h : SlotStep s t i old new) :
    t.fuse = .submitting ↔ s.fuse = .submitting := by
  obtain hf | ⟨ha, hw⟩ := h.fuse
  · rw [hf]
  · rw [ha, hw]
    decide

theorem signal_slotStep {s : Progress} {i : ℕ} {slot : Slot} (hslot : s.slots[i]? = some slot)
    (handler : Handler) :
    SlotStep s (s.signal.go i slot handler) i slot { slot with handler } := by
  constructor
  · exact hslot
  · simp [Progress.go, Progress.setSlot]
  · rfl
  · simp [Progress.go, Progress.setSlot]
  · simp [Progress.go, Progress.setSlot]
  · simp [Progress.go, Progress.setSlot]
  · exact s.signal_fuse

variable {q : Request}

theorem Layout.slotStep {s : Progress} {i : ℕ} (h : Layout q s) (hst : SlotStep s t i old new)
    (hnew : new.Consistent q.op)
    (hearly : s.fuse = .submitting → new.Early) : Layout q t := by
  constructor
  · rw [hst.slots, map_set_eq hst.slot hst.key, hst.length, h.keys]
  · have hcount := countP_set_toNat (p := Slot.counted) (y := new) hst.slot
    have hleft := hst.left
    have := h.left
    rw [hst.slots, hst.length]
    omega
  · intro hf
    rw [hst.length]
    exact h.all (mt hst.submitting.mpr hf)
  · rw [hst.slots]
    exact forall_mem_set h.consistent hnew
  · intro hf
    have hf := hst.submitting.mp hf
    rw [hst.slots]
    exact forall_mem_set (h.early hf) (hearly hf)
  · rw [hst.opStatus]
    exact h.opStatus

open Progress in
/-- What an event about the client in slot `i` does: the new state, and the new slot. -/
inductive Turn (q : Request) (s : Progress) (i : ℕ) (slot : Slot) :
    CompletionEvent → Progress → Slot → Prop
  | send : Turn q s i slot (.send i) (s.setSlot i { slot with stage := .sent })
      { slot with stage := .sent }
  | mark : Turn q s i slot (.mark i)
      ((s.setStatus slot.job slot.client .started).setSlot i { slot with stage := .marked })
      { slot with stage := .marked }
  | receive (h : slot.handler = .idle) (code : ℤ) :
      Turn q s i slot (.receive i code) (s.setSlot i { slot with code, handler := .lookup })
        { slot with code, handler := .lookup }
  | found (retry : Retry) (h : slot.handler = .lookup) (hm : s.mapped = true) :
      Turn q s i slot (.handle i retry) (s.go i slot .found) { slot with handler := .found }
  | lost (retry : Retry) (h : slot.handler = .lookup) (hm : s.mapped = false) :
      Turn q s i slot (.handle i retry) (s.go i slot .done) { slot with handler := .done }
  | count (retry : Retry) (h : slot.handler = .found) (hop : q.op = .read)
      (hcode : slot.code = sstackSuccess) :
      Turn q s i slot (.handle i retry)
        ({ s with numJobsLeft := s.numJobsLeft - 1 }.setSlot i
          { slot with handler := .counted, counted := true })
        { slot with handler := .counted, counted := true }
  | giveUp (retry : Retry) (h : slot.handler = .found) (hop : q.op = .read)
      (hcode : slot.code ≠ sstackSuccess) :
      Turn q s i slot (.handle i retry) (s.go i slot .done) { slot with handler := .done }
  | resubmit (retry : Retry) (h : slot.handler = .found) (hop : q.op = .read)
      (hcode : slot.code ≠ sstackSuccess) (keep : Bool) :
      Turn q s i slot (.handle i retry)
        ((if keep then s.keepPayload slot else s).setSlot i
          { slot with stage := .unsent, handler := .idle })
        { slot with stage := .unsent, handler := .idle }
  | fail (retry : Retry) (h : slot.handler = .found) (hop : q.op = .read)
      (hcode : slot.code ≠ sstackSuccess) :
      Turn q s i slot (.handle i retry) ({ s with errNo := some slot.code }.go i slot .failed)
        { slot with handler := .failed }
  | storeWrite (retry : Retry) (h : slot.handler = .found) (hop : q.op = .write)
      (hcode : slot.code = sstackSuccess) :
      Turn q s i slot (.handle i retry)
        (((s.keepPayload slot).setStatus slot.job 0 .complete).go i slot .stored)
        { slot with handler := .stored }
  | ignoreWrite (retry : Retry) (h : slot.handler = .found) (hop : q.op = .write)
      (hcode : slot.code ≠ sstackSuccess) :
      Turn q s i slot (.handle i retry) (s.go i slot .stored) { slot with handler := .stored }
  | storeRead (retry : Retry) (h : slot.handler = .counted) :
      Turn q s i slot (.handle i retry)
        (((s.keepPayload slot).setStatus slot.job 0 .complete).go i slot .stored)
        { slot with handler := .stored }
  | signalFailed (retry : Retry) (h : slot.handler = .failed) :
      Turn q s i slot (.handle i retry) (s.signal.go i slot .done) { slot with handler := .done }
  | test (retry : Retry) (h : slot.handler = .stored) (hop : q.op = .read) :
      Turn q s i slot (.handle i retry) (s.go i slot (.recorded (s.numJobsLeft = 0)))
        { slot with handler := .recorded (s.numJobsLeft = 0) }
  | tally (retry : Retry) (h : slot.handler = .stored) (hop : q.op = .write) :
      Turn q s i slot (.handle i retry)
        (s.go i slot (.tallied (s.incomplete slot) s.numClientsFail))
        { slot with handler := .tallied (s.incomplete slot) s.numClientsFail }
  | decrement (retry : Retry) {fail : ℕ} (h : slot.handler = .tallied 0 fail) :
      Turn q s i slot (.handle i retry)
        ({ s with numJobsLeft := s.numJobsLeft - 1 }.setSlot i
          { slot with handler := .decremented fail, counted := true })
        { slot with handler := .decremented fail, counted := true }
  | leave (retry : Retry) {incomplete fail : ℕ} (h : slot.handler = .tallied incomplete fail)
      (hpos : incomplete ≠ 0) :
      Turn q s i slot (.handle i retry) (s.go i slot (.decremented fail))
        { slot with handler := .decremented fail }
  | record (retry : Retry) {fail : ℕ} (h : slot.handler = .decremented fail)
      (hzero : s.numJobsLeft = 0) :
      Turn q s i slot (.handle i retry)
        ({ s with errNo := some (if fail > q.numClients / 2 then eio else slot.code) }.go i slot
          (.recorded true))
        { slot with handler := .recorded true }
  | pass (retry : Retry) {fail : ℕ} (h : slot.handler = .decremented fail)
      (hzero : s.numJobsLeft ≠ 0) :
      Turn q s i slot (.handle i retry) (s.go i slot (.recorded false))
        { slot with handler := .recorded false }
  | signalRead (retry : Retry) {zero : Bool} (h : slot.handler = .recorded zero)
      (hop : q.op = .read) :
      Turn q s i slot (.handle i retry) ((if zero then s.signal else s).go i slot .done)
        { slot with handler := .done }
  | signalWrite (retry : Retry) {zero : Bool} (h : slot.handler = .recorded zero)
      (hop : q.op = .write) :
      Turn q s i slot (.handle i retry) ((if zero then s.signal else s).go i slot .last)
        { slot with handler := .last }
  | signalLast (retry : Retry) (h : slot.handler = .last) :
      Turn q s i slot (.handle i retry) (s.signal.go i slot .done) { slot with handler := .done }

theorem handle_turn {s : Progress} {i : ℕ} {slot : Slot} {retry : Retry}
    (h : s.handle q i slot retry = some t) : ∃ new, Turn q s i slot (.handle i retry) t new := by
  unfold Progress.handle at h
  split at h
  · cases h
  · rename_i hh
    cases hm : s.mapped <;> simp only [hm] at h <;> cases h
    · exact ⟨_, .lost _ hh hm⟩
    · exact ⟨_, .found _ hh hm⟩
  · rename_i hh
    split at h
    · rename_i hop
      cases h
      unfold Progress.readResponse
      split_ifs with hcode hretry
      · exact ⟨_, .count _ hh hop hcode⟩
      · cases retry with
        | giveUp => exact ⟨_, .giveUp _ hh hop hcode⟩
        | resubmit keep => exact ⟨_, .resubmit _ hh hop hcode keep⟩
      · exact ⟨_, .fail _ hh hop hcode⟩
    · rename_i hop
      split_ifs at h with hcode <;> cases h
      · exact ⟨_, .storeWrite _ hh hop hcode⟩
      · exact ⟨_, .ignoreWrite _ hh hop hcode⟩
  · rename_i hh
    cases h
    exact ⟨_, .storeRead _ hh⟩
  · rename_i hh
    cases h
    exact ⟨_, .signalFailed _ hh⟩
  · rename_i hh
    split at h <;> rename_i hop <;> cases h
    · exact ⟨_, .test _ hh hop⟩
    · exact ⟨_, .tally _ hh hop⟩
  · rename_i incomplete fail hh
    split_ifs at h with hz <;> cases h
    · subst hz
      exact ⟨_, .decrement _ hh⟩
    · exact ⟨_, .leave _ hh hz⟩
  · rename_i fail hh
    split at h <;> rename_i hz <;> cases h
    · exact ⟨_, .record _ hh hz⟩
    · exact ⟨_, .pass _ hh hz⟩
  · rename_i zero hh
    cases hop : q.op <;> simp only [hop] at h <;> cases h
    · exact ⟨_, .signalRead _ hh hop⟩
    · exact ⟨_, .signalWrite _ hh hop⟩
  · rename_i hh
    cases h
    exact ⟨_, .signalLast _ hh⟩
  · cases h

variable {e : CompletionEvent}

/-- A step is one of the FUSE thread, or it is about one client. -/
theorem completionStep_cases {s : Progress} (h : completionStep q s e = some t) :
    (s.fuse = .submitting ∧ s.jobs.length < q.numJobs ∧ t = s.submit q) ∨
    (s.fuse = .submitting ∧ s.jobs.length = q.numJobs ∧ t = { s with fuse := .inserted }) ∨
    (s.fuse = .inserted ∧ t = { s with fuse := .asleep }) ∨
    (s.fuse = .woken ∧ t = { s with fuse := .returned }) ∨
    (e = .spurious ∧ s.fuse = .asleep ∧ t = { s with fuse := .woken }) ∨
    (∃ i slot new, s.fuse ≠ .returned ∧ s.slots[i]? = some slot ∧ Turn q s i slot e t new) := by
  unfold completionStep at h
  split at h
  · cases h
  rename_i hret
  cases e with
  | submit =>
    dsimp only at h
    split_ifs at h with hc
    cases h
    exact Or.inl ⟨hc.1, hc.2, rfl⟩
  | insert =>
    dsimp only at h
    split_ifs at h with hc
    cases h
    exact Or.inr (Or.inl ⟨hc.1, hc.2, rfl⟩)
  | sleep =>
    dsimp only at h
    split_ifs at h with hc
    cases h
    exact Or.inr (Or.inr (Or.inl ⟨hc, rfl⟩))
  | wakeup =>
    dsimp only at h
    split_ifs at h with hc
    cases h
    exact Or.inr (Or.inr (Or.inr (Or.inl ⟨hc, rfl⟩)))
  | spurious =>
    dsimp only at h
    split_ifs at h with hc
    cases h
    exact Or.inr (Or.inr (Or.inr (Or.inr (Or.inl ⟨rfl, hc, rfl⟩))))
  | send i =>
    dsimp only at h
    split at h
    · rename_i slot hslot
      split_ifs at h with hc
      cases h
      iterate 5 right
      exact ⟨i, slot, _, hret, hslot, .send⟩
    · cases h
  | mark i =>
    dsimp only at h
    split at h
    · rename_i slot hslot
      split_ifs at h with hc
      cases h
      iterate 5 right
      exact ⟨i, slot, _, hret, hslot, .mark⟩
    · cases h
  | receive i code =>
    dsimp only at h
    split at h
    · rename_i slot hslot
      split_ifs at h with hc
      cases h
      iterate 5 right
      exact ⟨i, slot, _, hret, hslot, .receive hc.2 code⟩
    · cases h
  | handle i retry =>
    dsimp only at h
    split at h
    · rename_i slot hslot
      obtain ⟨new, hturn⟩ := handle_turn h
      iterate 5 right
      exact ⟨i, slot, new, hret, hslot, hturn⟩
    · cases h

/-- Every turn changes its slot only, and counts a response at most once. -/
theorem Turn.slotStep {s : Progress} {i : ℕ} {slot : Slot}
    (h : Turn q s i slot e t new) (hslot : s.slots[i]? = some slot)
    (hcons : slot.Consistent q.op) : SlotStep s t i slot new := by
  unfold Slot.Consistent at hcons
  cases h with
  | send => exact ⟨hslot, rfl, rfl, rfl, rfl, rfl, Or.inl rfl⟩
  | mark => exact ⟨hslot, rfl, rfl, rfl, by simp [Progress.setSlot], rfl, Or.inl rfl⟩
  | receive _ code | found retry _ _ | lost retry _ _ =>
    exact ⟨hslot, rfl, rfl, rfl, rfl, rfl, Or.inl rfl⟩
  | count retry hh _ _ =>
    rw [hh] at hcons
    exact ⟨hslot, rfl, rfl, by simp [Progress.setSlot, hcons], rfl, rfl, Or.inl rfl⟩
  | giveUp retry _ _ _ => exact ⟨hslot, rfl, rfl, rfl, rfl, rfl, Or.inl rfl⟩
  | resubmit retry _ _ _ keep =>
    cases keep
    · exact ⟨hslot, rfl, rfl, rfl, rfl, rfl, Or.inl rfl⟩
    · exact ⟨hslot, rfl, rfl, rfl, by simp [Progress.setSlot], rfl, Or.inl rfl⟩
  | fail retry _ _ _ => exact ⟨hslot, rfl, rfl, rfl, rfl, rfl, Or.inl rfl⟩
  | storeWrite retry _ _ _ =>
    exact ⟨hslot, rfl, rfl, rfl, by simp [Progress.go, Progress.setSlot], rfl, Or.inl rfl⟩
  | ignoreWrite retry _ _ _ => exact ⟨hslot, rfl, rfl, rfl, rfl, rfl, Or.inl rfl⟩
  | storeRead retry _ =>
    exact ⟨hslot, rfl, rfl, rfl, by simp [Progress.go, Progress.setSlot], rfl, Or.inl rfl⟩
  | signalFailed retry _ => exact signal_slotStep hslot _
  | test retry _ _ | tally retry _ _ => exact ⟨hslot, rfl, rfl, rfl, rfl, rfl, Or.inl rfl⟩
  | decrement retry hh =>
    rw [hh] at hcons
    exact ⟨hslot, rfl, rfl, by simp [Progress.setSlot, hcons], rfl, rfl, Or.inl rfl⟩
  | leave retry _ _ | record retry _ _ | pass retry _ _ =>
    exact ⟨hslot, rfl, rfl, rfl, rfl, rfl, Or.inl rfl⟩
  | @signalRead retry zero _ _ =>
    cases zero
    · exact ⟨hslot, rfl, rfl, rfl, rfl, rfl, Or.inl rfl⟩
    · exact signal_slotStep hslot _
  | @signalWrite retry zero _ _ =>
    cases zero
    · exact ⟨hslot, rfl, rfl, rfl, rfl, rfl, Or.inl rfl⟩
    · exact signal_slotStep hslot _
  | signalLast retry _ => exact signal_slotStep hslot _

/-- Where the thread of a response may go keeps the slot consistent. -/
theorem Turn.consistent {s : Progress} {i : ℕ} {slot : Slot}
    (h : Turn q s i slot e t new) (hcons : slot.Consistent q.op) :
    new.Consistent q.op := by
  cases h with
  | send | mark => exact hcons
  | receive hh _ =>
    unfold Slot.Consistent at hcons
    rw [hh] at hcons
    exact hcons
  | found retry hh _ =>
    unfold Slot.Consistent at hcons
    rw [hh] at hcons
    exact hcons
  | count retry _ hop _ => exact ⟨rfl, hop⟩
  | resubmit retry hh _ _ _ =>
    unfold Slot.Consistent at hcons
    rw [hh] at hcons
    exact hcons
  | fail retry hh _ _ =>
    unfold Slot.Consistent at hcons
    rw [hh] at hcons
    exact hcons
  | storeWrite retry hh hop _ =>
    unfold Slot.Consistent at hcons ⊢
    rw [hh] at hcons
    simp [hcons, hop]
  | ignoreWrite retry hh hop _ =>
    unfold Slot.Consistent at hcons ⊢
    rw [hh] at hcons
    simp [hcons, hop]
  | storeRead retry hh =>
    unfold Slot.Consistent at hcons ⊢
    rw [hh] at hcons
    simp [hcons.1, hcons.2]
  | tally retry hh hop =>
    unfold Slot.Consistent at hcons ⊢
    rw [hh] at hcons
    simpa [hop] using hcons
  | lost | giveUp | signalFailed | test | decrement | leave | record | pass | signalRead
  | signalWrite | signalLast => trivial

/-- Before the job map is inserted, a response that comes is dropped. -/
theorem Turn.early {s : Progress} {i : ℕ} {slot : Slot}
    (h : Turn q s i slot e t new) (hf : s.fuse = .submitting)
    (hearly : slot.Early) : new.Early := by
  obtain ⟨hh, hcount⟩ := hearly
  cases h with
  | send | mark => exact ⟨hh, hcount⟩
  | receive _ _ => exact ⟨Or.inr (Or.inl rfl), hcount⟩
  | found retry _ hm => simp [Progress.mapped, hf] at hm
  | lost retry _ _ => exact ⟨Or.inr (Or.inr rfl), hcount⟩
  | count retry h _ _ | giveUp retry h _ _ | resubmit retry h _ _ _ | fail retry h _ _
  | storeWrite retry h _ _ | ignoreWrite retry h _ _ | storeRead retry h | signalFailed retry h
  | test retry h _ | tally retry h _ | decrement retry h | leave retry h _ | record retry h _
  | pass retry h _ | signalRead retry h _ | signalWrite retry h _ | signalLast retry h =>
    rw [h] at hh
    simp at hh

theorem Layout.submit {s : Progress} (h : Layout q s) (hf : s.fuse = .submitting) :
    Layout q (s.submit q) := by
  have hleft := h.left
  constructor
  · simp only [Progress.submit, List.map_append, h.keys, List.length_append, List.length_singleton,
      List.range_succ, List.flatMap_append, List.flatMap_singleton, List.map_map]
    rfl
  · have hnone : ((List.range q.numClients).map fun client =>
        (⟨s.jobs.length, client, .unsent, 0, .idle, false⟩ : Slot)).countP Slot.counted = 0 := by
      rw [List.countP_eq_zero]
      simp
    simp only [Progress.submit, List.countP_append, hnone, List.length_append,
      List.length_singleton]
    push_cast
    omega
  · intro hne
    exact absurd hf hne
  · intro slot hslot
    obtain hin | hnew := List.mem_append.mp hslot
    · exact h.consistent slot hin
    · obtain ⟨client, -, rfl⟩ := List.mem_map.mp hnew
      rfl
  · intro _ slot hslot
    obtain hin | hnew := List.mem_append.mp hslot
    · exact h.early hf slot hin
    · obtain ⟨client, -, rfl⟩ := List.mem_map.mp hnew
      exact ⟨Or.inl rfl, rfl⟩
  · exact h.opStatus

theorem Layout.setFuse {s : Progress} (h : Layout q s) {pc : FusePc}
    (hpc : pc ≠ .submitting) (hall : s.jobs.length = q.numJobs) : Layout q { s with fuse := pc } :=
  ⟨h.keys, h.left, fun _ => hall, h.consistent, fun hf => absurd hf hpc, h.opStatus⟩

theorem step_layout {s : Progress} (hs : Layout q s)
    (h : completionStep q s e = some t) : Layout q t := by
  obtain ⟨hf, -, rfl⟩ | ⟨-, hall, rfl⟩ | ⟨hf, rfl⟩ | ⟨hf, rfl⟩ | ⟨-, hf, rfl⟩ |
    ⟨i, slot, new, -, hslot, hturn⟩ := completionStep_cases h
  · exact hs.submit hf
  · exact hs.setFuse (by decide) hall
  · exact hs.setFuse (by decide) (hs.all (by rw [hf]; decide))
  · exact hs.setFuse (by decide) (hs.all (by rw [hf]; decide))
  · exact hs.setFuse (by decide) (hs.all (by rw [hf]; decide))
  · have hmem := List.mem_of_getElem? hslot
    have hcons := hs.consistent slot hmem
    apply hs.slotStep (hturn.slotStep hslot hcons) (hturn.consistent hcons)
    intro hf
    exact hturn.early hf (hs.early hf slot hmem)

theorem reach_layout {G : Progress → CompletionEvent → Prop} {s : Progress}
    (hr : (completionSystem q).Reach G s) : Layout q s := by
  apply hr.invariant
  · intro s hs
    rw [show s = startRequest q from hs]
    constructor <;> simp [startRequest]
  · intro s e t _ hs _ ht
    exact step_layout hs ht

theorem Layout.length_eq {s : Progress} (h : Layout q s) (hone : q.numClients = 1) :
    s.slots.length = s.jobs.length := by
  have hlen := congrArg List.length h.keys
  simpa [hone] using hlen

theorem Layout.exists_slot {s : Progress} (h : Layout q s) {job client : ℕ}
    (hjob : job < s.jobs.length) (hclient : client < q.numClients) :
    ∃ slot ∈ s.slots, slot.job = job ∧ slot.client = client := by
  have hmem : (job, client) ∈ s.slots.map fun slot => (slot.job, slot.client) := by
    rw [h.keys]
    simp [hjob, hclient]
  obtain ⟨slot, hslot, heq⟩ := List.mem_map.mp hmem
  exact ⟨slot, hslot, congrArg Prod.fst heq, congrArg Prod.snd heq⟩

end SeamlessStack.Jobs
