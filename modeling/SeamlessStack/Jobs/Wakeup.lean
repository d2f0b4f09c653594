import SeamlessStack.Jobs.Layout

/-! When the FUSE thread is woken. `sfs_wait_for_completion` sleeps without a look at the job map,
so an early signal is lost, and a response before the job map is in the tree sends none. -/
namespace SeamlessStack.Jobs

open Lib

/-- Clients answer with success only. -/
def SuccessOnly (_ : Progress) : CompletionEvent → Prop
  | .receive _ code => code = sstackSuccess
  | _ => True

instance (s : Progress) : ∀ e, Decidable (SuccessOnly s e)
  | .receive _ code => inferInstanceAs (Decidable (code = sstackSuccess))
  | .submit | .insert | .sleep | .wakeup | .spurious | .send _ | .mark _ | .handle .. =>
    inferInstanceAs (Decidable True)

def Handler.closing : Op → Handler → Bool
  | .read, .recorded zero => zero
  | .write, .last => true
  | _, _ => false

/-- Clients answer with success only, every response finds the job map, and the signal at its end
comes when the FUSE thread sleeps, or was woken. -/
def Awaited (q : Request) (s : Progress) : CompletionEvent → Prop
  | .receive _ code => code = sstackSuccess
  | .handle i _ => ∀ slot ∈ s.slots[i]?,
    (slot.handler = .lookup → s.mapped = true) ∧
    (slot.handler.closing q.op = true → s.fuse = .asleep ∨ s.fuse = .woken)
  | _ => True

instance (q : Request) (s : Progress) : ∀ e, Decidable (Awaited q s e)
  | .receive _ code => inferInstanceAs (Decidable (code = sstackSuccess))
  | .handle i _ => inferInstanceAs (Decidable (∀ slot ∈ s.slots[i]?,
    (slot.handler = .lookup → s.mapped = true) ∧
    (slot.handler.closing q.op = true → s.fuse = .asleep ∨ s.fuse = .woken)))
  | .submit | .insert | .sleep | .wakeup | .spurious | .send _ | .mark _ =>
    inferInstanceAs (Decidable True)

def Handler.Pending (h : Handler) : Prop := h = .counted ∨ h = .stored ∨ h = .recorded true

def Handler.writeOnly : Handler → Bool
  | .tallied .. | .decremented _ | .last => true
  | _ => false

/-- A slot of a request whose clients answer with success and whose responses all find the
job map. -/
structure Slot.Fine (op : Op) (slot : Slot) : Prop where
  code : slot.handler ≠ .idle → slot.code = sstackSuccess
  ok : slot.handler ≠ .failed
  read : op = .read → slot.handler.writeOnly = false
  counted : op = .read → (∃ zero, slot.handler = .recorded zero) ∨ slot.handler = .done →
    slot.counted = true

variable {q : Request} {s t : Progress} {i : ℕ} {slot new : Slot} {e : CompletionEvent}

theorem Turn.fine (h : Turn q s i slot e t new) (hslot : s.slots[i]? = some slot)
    (hcons : slot.Consistent q.op) (hfine : slot.Fine q.op) (hawaited : Awaited q s e) :
    new.Fine q.op := by
  have hcode : slot.handler = .found → slot.code = sstackSuccess := by
    intro hh
    exact hfine.code (by rw [hh]; decide)
  have hwrite : slot.handler.writeOnly = true → q.op ≠ .read := by
    intro hh hop
    rw [hfine.read hop] at hh
    cases hh
  cases h with
  | send | mark => exact ⟨hfine.code, hfine.ok, hfine.read, hfine.counted⟩
  | receive hh code => exact ⟨fun _ => hawaited, by simp, fun _ => rfl, by simp⟩
  | found retry hh hm =>
    exact ⟨fun _ => hfine.code (by rw [hh]; decide), by simp, fun _ => rfl, by simp⟩
  | lost retry hh hm =>
    have := (hawaited slot hslot).1 hh
    rw [hm] at this
    cases this
  | count retry hh hop hc => exact ⟨fun _ => hc, by simp, fun _ => rfl, by simp⟩
  | giveUp retry hh hop hc | resubmit retry hh hop hc keep | fail retry hh hop hc
  | ignoreWrite retry hh hop hc => exact absurd (hcode hh) hc
  | storeWrite retry hh hop hc => exact ⟨fun _ => hc, by simp, fun _ => rfl, by simp⟩
  | storeRead retry hh =>
    exact ⟨fun _ => hfine.code (by rw [hh]; decide), by simp, fun _ => rfl, by simp⟩
  | signalFailed retry hh => exact absurd hh hfine.ok
  | test retry hh hop =>
    have hcounted : slot.counted = true := by
      unfold Slot.Consistent at hcons
      rw [hh] at hcons
      exact hcons.mpr hop
    exact ⟨fun _ => hfine.code (by rw [hh]; decide), by simp, fun _ => rfl, fun _ _ => hcounted⟩
  | tally retry hh hop =>
    exact ⟨fun _ => hfine.code (by rw [hh]; decide), by simp, by simp [hop], by simp [hop]⟩
  | decrement retry hh | leave retry hh _ =>
    have hop := hwrite (by rw [hh]; rfl)
    exact ⟨fun _ => hfine.code (by rw [hh]; simp), by simp, fun h => absurd h hop,
      fun h => absurd h hop⟩
  | record retry hh _ | pass retry hh _ =>
    have hop := hwrite (by rw [hh]; rfl)
    exact ⟨fun _ => hfine.code (by rw [hh]; simp), by simp, fun h => absurd h hop,
      fun h => absurd h hop⟩
  | signalRead retry hh hop =>
    exact ⟨fun _ => hfine.code (by rw [hh]; simp), by simp, fun _ => rfl,
      fun _ _ => hfine.counted hop (Or.inl ⟨_, hh⟩)⟩
  | signalWrite retry hh hop =>
    exact ⟨fun _ => hfine.code (by rw [hh]; simp), by simp, by simp [hop], by simp [hop]⟩
  | signalLast retry hh =>
    have hop := hwrite (by rw [hh]; rfl)
    exact ⟨fun _ => hfine.code (by rw [hh]; simp), by simp, fun h => absurd h hop,
      fun h => absurd h hop⟩

def Progress.Awake (s : Progress) : Prop := s.fuse = .woken ∨ s.fuse = .returned

structure WakeOk (q : Request) (s : Progress) : Prop where
  fine : ∀ slot ∈ s.slots, slot.Fine q.op
  write : q.op = .write → (∃ slot ∈ s.slots, slot.handler = .done) → s.Awake
  read : q.op = .read → s.fuse ≠ .submitting → s.numJobsLeft = 0 →
    (∀ slot ∈ s.slots, ¬ slot.handler.Pending) → s.Awake

theorem SlotStep.awake {old : Slot} (h : SlotStep s t i old new)
    (hs : s.Awake) : t.Awake := by
  obtain hf | ⟨-, hw⟩ := h.fuse
  · unfold Progress.Awake
    rw [hf]
    exact hs
  · exact Or.inl hw

/-- The turn of a write response that ends it has woken the FUSE thread. -/
theorem Turn.awake_write (h : Turn q s i slot e t new) (hslot : s.slots[i]? = some slot)
    (hfine : slot.Fine q.op) (hawaited : Awaited q s e) (hop : q.op = .write)
    (hdone : new.handler = .done) : slot.handler = .done ∨ t.Awake := by
  cases h with
  | send | mark => exact Or.inl hdone
  | lost retry hh hm =>
    have := (hawaited slot hslot).1 hh
    rw [hm] at this
    cases this
  | giveUp retry hh hop' _ =>
    rw [hop] at hop'
    cases hop'
  | signalFailed retry hh => exact absurd hh hfine.ok
  | signalRead retry hh hop' =>
    rw [hop] at hop'
    cases hop'
  | signalLast retry hh =>
    have hready := (hawaited slot hslot).2 (by rw [hh, hop]; rfl)
    exact Or.inr (Or.inl (s.signal_woken hready))
  | _ => cases hdone

/-- The turn that ends a read response has woken the FUSE thread, or left it pending, if no job is
left. -/
theorem Turn.awake_read (h : Turn q s i slot e t new) (hslot : s.slots[i]? = some slot)
    (hfine : slot.Fine q.op) (hawaited : Awaited q s e) (hop : q.op = .read)
    (hzero : t.numJobsLeft = 0) :
    t.Awake ∨ new.handler.Pending ∨ s.numJobsLeft = 0 ∧ ¬ slot.handler.Pending := by
  have hwrite : slot.handler.writeOnly ≠ true := by
    rw [hfine.read hop]
    decide
  cases h with
  | send | mark =>
    by_cases hp : slot.handler.Pending
    · exact Or.inr (Or.inl hp)
    · exact Or.inr (Or.inr ⟨hzero, hp⟩)
  | receive hh code | found retry hh _ | lost retry hh _ =>
    exact Or.inr (Or.inr ⟨hzero, by simp [hh, Handler.Pending]⟩)
  | count retry hh _ _ => exact Or.inr (Or.inl (Or.inl rfl))
  | giveUp retry hh _ _ => exact Or.inr (Or.inr ⟨hzero, by simp [hh, Handler.Pending]⟩)
  | resubmit retry hh _ _ keep =>
    refine Or.inr (Or.inr ⟨?_, by simp [hh, Handler.Pending]⟩)
    cases keep <;> exact hzero
  | fail retry hh _ _ => exact Or.inr (Or.inr ⟨hzero, by simp [hh, Handler.Pending]⟩)
  | storeWrite retry hh hop' _ | ignoreWrite retry hh hop' _ | tally retry hh hop'
  | signalWrite retry hh hop' =>
    rw [hop] at hop'
    cases hop'
  | storeRead retry hh => exact Or.inr (Or.inl (Or.inr (Or.inl rfl)))
  | signalFailed retry hh => exact absurd hh hfine.ok
  | test retry hh _ =>
    have hzero : s.numJobsLeft = 0 := hzero
    exact Or.inr (Or.inl (Or.inr (Or.inr (by simp [hzero]))))
  | decrement retry hh | leave retry hh _ | record retry hh _ | pass retry hh _
  | signalLast retry hh =>
    rw [hh] at hwrite
    exact absurd rfl hwrite
  | @signalRead retry zero hh _ =>
    cases zero
    · exact Or.inr (Or.inr ⟨hzero, by simp [hh, Handler.Pending]⟩)
    · have hready := (hawaited slot hslot).2 (by rw [hh, hop]; rfl)
      exact Or.inl (Or.inl (s.signal_woken hready))

theorem WakeOk.turn (hs : WakeOk q s) (hl : Layout q s) (h : Turn q s i slot e t new)
    (hslot : s.slots[i]? = some slot) (hawaited : Awaited q s e) : WakeOk q t := by
  have hmem := List.mem_of_getElem? hslot
  have hfine := hs.fine slot hmem
  have hst := h.slotStep hslot (hl.consistent slot hmem)
  constructor
  · rw [hst.slots]
    exact forall_mem_set hs.fine (h.fine hslot (hl.consistent slot hmem) hfine hawaited)
  · intro hop hdone
    obtain ⟨slot', hin, hdone⟩ := hdone
    rw [hst.slots] at hin
    obtain hin | rfl := List.mem_or_eq_of_mem_set hin
    · exact hst.awake (hs.write hop ⟨slot', hin, hdone⟩)
    · obtain hold | hawake := h.awake_write hslot hfine hawaited hop hdone
      · exact hst.awake (hs.write hop ⟨slot, hmem, hold⟩)
      · exact hawake
  · intro hop hsub hzero hpending
    rw [hst.slots] at hpending
    have hnew : ¬ new.handler.Pending := by
      apply hpending
      exact List.mem_set (List.getElem?_eq_some_iff.mp hslot).1 new
    obtain hawake | hp | ⟨hzero', hold⟩ := h.awake_read hslot hfine hawaited hop hzero
    · exact hawake
    · exact absurd hp hnew
    · have hall := forall_mem_of_set hslot hold hpending
      exact hst.awake (hs.read hop (mt hst.submitting.mpr hsub) hzero' hall)

theorem step_wakeOk (hjobs : 0 < q.numJobs)
    (hleft : q.op = .read → q.numJobsLeft₀ = 0) (hl : Layout q s) (hs : WakeOk q s)
    (hawaited : Awaited q s e) (h : completionStep q s e = some t) : WakeOk q t := by
  obtain ⟨hf, -, rfl⟩ | ⟨hf, hall, rfl⟩ | ⟨hf, rfl⟩ | ⟨hf, rfl⟩ | ⟨-, hf, rfl⟩ |
    ⟨i, slot, new, -, hslot, hturn⟩ := completionStep_cases h
  · constructor
    · intro slot hslot
      obtain hin | hnew := List.mem_append.mp hslot
      · exact hs.fine slot hin
      · obtain ⟨client, -, rfl⟩ := List.mem_map.mp hnew
        exact ⟨by simp, by simp, by simp [Handler.writeOnly], by simp⟩
    · intro hop hdone
      obtain ⟨slot, hslot, hdone⟩ := hdone
      obtain hin | hnew := List.mem_append.mp hslot
      · exact hs.write hop ⟨slot, hin, hdone⟩
      · obtain ⟨client, -, rfl⟩ := List.mem_map.mp hnew
        cases hdone
    · intro _ hsub
      exact absurd hf hsub
  · have hasleep : ¬ s.Awake := by simp [Progress.Awake, hf]
    refine ⟨hs.fine, fun hop hdone => absurd (hs.write hop hdone) hasleep, ?_⟩
    intro hop _ hzero _
    have hnone : s.slots.countP Slot.counted = 0 := by
      rw [List.countP_eq_zero]
      intro slot hslot
      rw [(hl.early hf slot hslot).2]
      decide
    have hcount := hl.left
    rw [hnone, hleft hop, hall, hzero] at hcount
    omega
  · have hasleep : ¬ s.Awake := by simp [Progress.Awake, hf]
    have hsub : s.fuse ≠ .submitting := by rw [hf]; decide
    exact ⟨hs.fine, fun hop hdone => absurd (hs.write hop hdone) hasleep,
      fun hop _ hz hp => absurd (hs.read hop hsub hz hp) hasleep⟩
  · exact ⟨hs.fine, fun _ _ => Or.inr rfl, fun _ _ _ _ => Or.inr rfl⟩
  · exact ⟨hs.fine, fun _ _ => Or.inl rfl, fun _ _ _ _ => Or.inl rfl⟩
  · exact hs.turn hl hturn hslot hawaited

theorem reach_wakeOk (hjobs : 0 < q.numJobs)
    (hleft : q.op = .read → q.numJobsLeft₀ = 0)
    (hr : (completionSystem q).Reach (Awaited q) s) : WakeOk q s := by
  apply hr.invariant
  · intro s hs
    rw [show s = startRequest q from hs]
    constructor <;> simp [startRequest]
  · intro s e t hreach hs hawaited ht
    exact step_wakeOk hjobs hleft (reach_layout hreach) hs hawaited ht

/-- A request with jobs does not leave the FUSE thread asleep when its responses, which come as
`Awaited` says, have been processed. -/
theorem completion_woken (hjobs : 0 < q.numJobs)
    (hleft : q.op = .read → q.numJobsLeft₀ = 0)
    (hr : (completionSystem q).Reach (Awaited q) s) :
    ¬ (s.fuse = .asleep ∧ ∀ slot ∈ s.slots, slot.handler = .done) := by
  intro hstuck
  obtain ⟨hasleep, hdone⟩ := hstuck
  have hl := reach_layout hr
  have hok := reach_wakeOk hjobs hleft hr
  have hsub : s.fuse ≠ .submitting := by rw [hasleep]; decide
  have hawake : ¬ s.Awake := by simp [Progress.Awake, hasleep]
  have hall := hl.all hsub
  cases hop : q.op with
  | write =>
    obtain ⟨slot, hslot, -⟩ := hl.exists_slot (hall.symm ▸ hjobs) q.pos
    exact hawake (hok.write hop ⟨slot, hslot, hdone slot hslot⟩)
  | read =>
    have hcounted : s.slots.countP Slot.counted = s.slots.length := by
      rw [List.countP_eq_length]
      intro slot hslot
      exact (hok.fine slot hslot).counted hop (Or.inr (hdone slot hslot))
    have hzero : s.numJobsLeft = 0 := by
      rw [hl.left, hcounted, hl.length_eq (q.read_one hop), hleft hop]
      omega
    apply hawake
    apply hok.read hop hsub hzero
    intro slot hslot
    simp [hdone slot hslot, Handler.Pending]

def oneRead : Request := ⟨.read, 1, 1, 0, by decide, by decide⟩

def patientRead : List CompletionEvent :=
  [.submit, .insert, .sleep, .send 0, .mark 0, .receive 0 100] ++
    List.replicate 5 (.handle 0 .giveUp)

theorem completion_woken_read :
    ∃ s, (completionSystem oneRead).run (Awaited oneRead) (startRequest oneRead) patientRead =
        some s ∧ (∀ slot ∈ s.slots, slot.handler = .done) ∧
      ¬ (s.fuse = .asleep ∧ ∀ slot ∈ s.slots, slot.handler = .done) := by
  have hrun : ∃ s, (completionSystem oneRead).run (Awaited oneRead) (startRequest oneRead)
      patientRead = some s ∧ ∀ slot ∈ s.slots, slot.handler = .done := by
    refine ⟨_, rfl, ?_⟩
    decide
  obtain ⟨s, hs, hdone⟩ := hrun
  exact ⟨s, hs, hdone, completion_woken (by decide) (fun _ => rfl) (.run (.init rfl) hs)⟩

def hastyRead : List CompletionEvent :=
  [.submit, .send 0, .mark 0, .receive 0 100, .handle 0 .giveUp, .insert, .sleep]

theorem completion_lost_wakeup :
    ∃ s, (completionSystem oneRead).Reach SuccessOnly s ∧ s.fuse = .asleep ∧
      s.jobs.length = 1 ∧ ∀ slot ∈ s.slots, slot.handler = .done := by
  refine System.exists_reach hastyRead rfl ⟨_, rfl, rfl, rfl, ?_⟩
  decide

end SeamlessStack.Jobs
