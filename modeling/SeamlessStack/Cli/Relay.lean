import SeamlessStack.Cli.Command
import SeamlessStack.Lib.Runs

/-! How a command gets from `sfscli` by way of `sfsclid` to the file system, and its response back.
The daemon keeps one socket, which it connects when a first write fails. The file system accepts a
connection for each command, reads once from it and does not close it. A read takes some of the
bytes at the front. -/
namespace SeamlessStack.Cli.Relay

open Lib

/-- Where `clid_process_commands` is: in `accept`, or in one of its loops around `select`, with the
bytes of an application that are not read. -/
inductive Clid
  | accepting
  | reading (app : ℕ) (sent : List UInt8)
  | waiting (app : ℕ)
  deriving DecidableEq, Repr

/-- Where `handle_cli_requests` is: in `accept`, in `select` for the daemon, or busy otherwise. -/
inductive Server
  | accepting
  | reading
  | busy
  deriving DecidableEq, Repr

/-- `toSfs` and `toClid` are bytes on their way. The last four are records of what was written and
for whom, what was handled and answered, and what was read back. -/
structure State where
  clid : Clid
  server : Server
  connected : Bool
  accepted : Bool
  toSfs : List UInt8
  toClid : List UInt8
  forwarded : List (ℕ × List UInt8)
  handled : List (List UInt8)
  answered : List UInt8
  relayed : List (ℕ × List UInt8)
  deriving DecidableEq, Repr

def State.init : State :=
  ⟨.accepting, .accepting, false, false, [], [], [], [], [], []⟩

/-- How the attempt to write to the file system ends. -/
inductive Outcome
  /-- The first `write` fails, and so does `connect`. -/
  | refused
  /-- The first `write` fails, and the one after `connect` does. -/
  | failed
  /-- So many bytes are written, by the first `write` or by the one after `connect`. -/
  | wrote (n : ℕ)
  deriving DecidableEq, Repr

inductive Event
  | accept (app : ℕ) (sent : List UInt8)
  /-- The daemon reads so many bytes and passes them on. -/
  | forward (n : ℕ) (outcome : Outcome)
  /-- The daemon reads so many bytes of a response and passes them on. -/
  | respond (n : ℕ)
  | selectFailed
  | serverAccept
  | serverAcceptOther
  | serverOtherDone
  /-- So many bytes are read, and some are written in response. -/
  | serverRead (n : ℕ) (response : List UInt8)
  /-- A failed `read` counts as many bytes, and the empty buffer is taken for a command. -/
  | serverReadFailed (response : List UInt8)
  | serverSelectFailed
  deriving DecidableEq, Repr

def Takes (n : ℕ) (bytes : List UInt8) : Prop :=
  0 < n ∧ n ≤ bytes.length ∧ n ≤ sfscliMaxBufferSize

instance (n : ℕ) (bytes : List UInt8) : Decidable (Takes n bytes) :=
  inferInstanceAs (Decidable (_ ∧ _ ∧ _))

/-- A connected socket cannot be connected again; one that is not fails the first `write`. -/
def State.write (s : State) (app : ℕ) (buffer : List UInt8) : Outcome → Option State
  | .refused => some { s with clid := .accepting }
  | .failed => if s.connected then none else some { s with clid := .accepting, connected := true }
  | .wrote n =>
    if 0 < n ∧ n ≤ buffer.length then
      some { s with
        clid := .waiting app
        connected := true
        toSfs := s.toSfs ++ buffer.take n
        forwarded := s.forwarded ++ [(app, buffer.take n)] }
    else none

def step (s : State) : Event → Option State
  | .accept app sent =>
    match s.clid with
    | .accepting => some { s with clid := .reading app sent }
    | _ => none
  | .forward n outcome =>
    match s.clid with
    | .reading app sent => if Takes n sent then s.write app (sent.take n) outcome else none
    | _ => none
  | .respond n =>
    match s.clid with
    | .waiting app =>
      if Takes n s.toClid then
        some { s with
          clid := .accepting
          toClid := s.toClid.drop n
          relayed := s.relayed ++ [(app, s.toClid.take n)] }
      else none
    | _ => none
  -- neither a command nor a response is passed on
  | .selectFailed => if s.clid = .accepting then none else some { s with clid := .accepting }
  | .serverAccept =>
    if s.server = .accepting ∧ s.connected ∧ s.accepted = false then
      some { s with server := .reading, accepted := true }
    else none
  | .serverAcceptOther =>
    if s.server = .accepting then some { s with server := .busy } else none
  | .serverOtherDone =>
    if s.server = .busy then some { s with server := .accepting } else none
  | .serverRead n response =>
    if s.server = .reading ∧ Takes n s.toSfs then
      some { s with
        server := .accepting
        toSfs := s.toSfs.drop n
        toClid := s.toClid ++ response
        handled := s.handled ++ [s.toSfs.take n]
        answered := s.answered ++ response }
    else none
  | .serverReadFailed response =>
    if s.server = .reading then
      some { s with
        server := .accepting
        toClid := s.toClid ++ response
        answered := s.answered ++ response }
    else none
  | .serverSelectFailed =>
    if s.server = .reading then some { s with server := .accepting } else none

def system : System State Event where
  init s := s = .init
  step := step

def bytes (l : List (ℕ × List UInt8)) : List UInt8 := l.flatMap Prod.snd

/-- While the connection waits to be accepted, or to be read from, nothing was handled. -/
structure Once (s : State) : Prop where
  notAccepted : s.accepted = false → s.handled = [] ∧ s.answered = [] ∧ s.server ≠ .reading
  reading : s.server = .reading → s.handled = [] ∧ s.answered = []
  handled : s.handled.length ≤ 1
  sent : bytes s.forwarded = s.handled.flatten ++ s.toSfs
  received : bytes s.relayed ++ s.toClid = s.answered

variable {s t : State} {app : ℕ}

theorem bytes_append (l : List (ℕ × List UInt8)) (app : ℕ) (b : List UInt8) :
    bytes (l ++ [(app, b)]) = bytes l ++ b := by
  simp [bytes]

theorem once_init : Once .init where
  notAccepted _ := ⟨rfl, rfl, by decide⟩
  reading h := absurd h (by decide)
  handled := Nat.zero_le 1
  sent := rfl
  received := rfl

theorem Once.write (h : Once s) {buffer : List UInt8} {outcome : Outcome}
    (ht : s.write app buffer outcome = some t) : Once t := by
  cases outcome with
  | refused =>
    cases ht
    exact ⟨h.notAccepted, h.reading, h.handled, h.sent, h.received⟩
  | failed =>
    simp only [State.write] at ht
    split_ifs at ht
    cases ht
    exact ⟨h.notAccepted, h.reading, h.handled, h.sent, h.received⟩
  | wrote n =>
    simp only [State.write] at ht
    split_ifs at ht
    cases ht
    refine ⟨h.notAccepted, h.reading, h.handled, ?_, h.received⟩
    rw [bytes_append, h.sent, List.append_assoc]

/-- The only read of the connection comes after it was accepted, and it is accepted only once. -/
theorem Once.step (h : Once s) {e : Event} (ht : step s e = some t) : Once t := by
  cases e with
  | accept app sent =>
    simp only [Relay.step] at ht
    split at ht
    · cases ht
      exact ⟨h.notAccepted, h.reading, h.handled, h.sent, h.received⟩
    · cases ht
  | forward n outcome =>
    simp only [Relay.step] at ht
    split at ht
    · split_ifs at ht
      exact h.write ht
    · cases ht
  | respond n =>
    simp only [Relay.step] at ht
    split at ht
    · split_ifs at ht
      cases ht
      refine ⟨h.notAccepted, h.reading, h.handled, h.sent, ?_⟩
      rw [bytes_append, List.append_assoc, List.take_append_drop, h.received]
    · cases ht
  | selectFailed =>
    simp only [Relay.step] at ht
    split_ifs at ht
    cases ht
    exact ⟨h.notAccepted, h.reading, h.handled, h.sent, h.received⟩
  | serverAccept =>
    simp only [Relay.step] at ht
    split_ifs at ht with hnew
    cases ht
    obtain ⟨hhandled, hanswered, -⟩ := h.notAccepted hnew.2.2
    exact ⟨fun hno => absurd hno (by simp), fun _ => ⟨hhandled, hanswered⟩, h.handled, h.sent,
      h.received⟩
  | serverAcceptOther =>
    simp only [Relay.step] at ht
    split_ifs at ht
    cases ht
    exact ⟨fun hno => ⟨(h.notAccepted hno).1, (h.notAccepted hno).2.1, by simp⟩,
      fun hreading => absurd hreading (by simp), h.handled, h.sent, h.received⟩
  | serverOtherDone =>
    simp only [Relay.step] at ht
    split_ifs at ht
    cases ht
    exact ⟨fun hno => ⟨(h.notAccepted hno).1, (h.notAccepted hno).2.1, by simp⟩,
      fun hreading => absurd hreading (by simp), h.handled, h.sent, h.received⟩
  | serverRead n response =>
    simp only [Relay.step] at ht
    split_ifs at ht with hread
    cases ht
    obtain ⟨hhandled, hanswered⟩ := h.reading hread.1
    refine ⟨fun hno => absurd hread.1 (h.notAccepted hno).2.2,
      fun hreading => absurd hreading (by simp), by simp [hhandled], ?_, ?_⟩
    · simp [h.sent, hhandled]
    · rw [← List.append_assoc, h.received]
  | serverReadFailed response =>
    simp only [Relay.step] at ht
    split_ifs at ht with hread
    cases ht
    refine ⟨fun hno => absurd hread (h.notAccepted hno).2.2,
      fun hreading => absurd hreading (by simp), h.handled, h.sent, ?_⟩
    rw [← List.append_assoc, h.received]
  | serverSelectFailed =>
    simp only [Relay.step] at ht
    split_ifs at ht with hread
    cases ht
    exact ⟨fun hno => absurd hread (h.notAccepted hno).2.2,
      fun hreading => absurd hreading (by simp), h.handled, h.sent, h.received⟩

theorem once_of_reach {G : State → Event → Prop} (h : system.Reach G s) : Once s := by
  refine h.invariant ?_ fun s e t _ hs _ hstep => hs.step hstep
  rintro _ rfl
  exact once_init

/-- The file system takes at most one command from the daemon, the first, and applications only ever
get pieces of the response to it, in order. -/
theorem relay_once (h : system.Reach System.AnyStep s) :
    s.handled.length ≤ 1 ∧ s.handled.flatten <+: bytes s.forwarded ∧
      bytes s.relayed <+: s.answered := by
  have honce := once_of_reach h
  exact ⟨honce.handled, ⟨_, honce.sent.symm⟩, ⟨_, honce.received⟩⟩

def twoCommands : List Event :=
  [.accept 0 [1], .forward 1 (.wrote 1), .serverAccept, .serverRead 1 [2, 3], .respond 2,
    .accept 1 [4], .forward 1 (.wrote 1)]

def second : State :=
  ⟨.waiting 1, .accepting, true, true, [4], [], [(0, [1]), (1, [4])], [[1]], [2, 3], [(0, [2, 3])]⟩

theorem reach_second : system.Reach System.AnyStep second :=
  (System.Reach.init rfl : system.Reach System.AnyStep State.init).run
    (show system.run System.AnyStep .init twoCommands = some second from rfl)

theorem relay_once_second : second.forwarded.length = 2 ∧ second.handled.length ≤ 1 :=
  ⟨rfl, (relay_once reach_second).1⟩

/-- A state in which no response can come any more. -/
structure Stuck (app : ℕ) (s : State) : Prop where
  waiting : s.clid = .waiting app
  accepted : s.accepted = true
  server : s.server ≠ .reading
  toClid : s.toClid = []

/-- Only a failed `select` gets the daemon out of it. -/
theorem Stuck.step (h : Stuck app s) {e : Event} (he : e ≠ .selectFailed)
    (ht : step s e = some t) :
    Stuck app t ∧ t.relayed = s.relayed ∧ t.handled = s.handled := by
  obtain ⟨hwaiting, haccepted, hserver, htoClid⟩ := h
  cases e with
  | accept app' sent | forward n outcome => simp [Relay.step, hwaiting] at ht
  | respond n =>
    simp [Relay.step, hwaiting, htoClid, Takes] at ht
    omega
  | selectFailed => exact absurd rfl he
  | serverAccept => simp [Relay.step, haccepted] at ht
  | serverAcceptOther =>
    simp only [Relay.step] at ht
    split_ifs at ht
    cases ht
    exact ⟨⟨hwaiting, haccepted, by simp, htoClid⟩, rfl, rfl⟩
  | serverOtherDone =>
    simp only [Relay.step] at ht
    split_ifs at ht
    cases ht
    exact ⟨⟨hwaiting, haccepted, by simp, htoClid⟩, rfl, rfl⟩
  | serverRead n response | serverReadFailed response | serverSelectFailed =>
    simp [Relay.step, hserver] at ht

def NoFailure (_ : State) (e : Event) : Prop := e ≠ .selectFailed

instance (s : State) (e : Event) : Decidable (NoFailure s e) :=
  inferInstanceAs (Decidable (_ ≠ _))

theorem Stuck.run (h : Stuck app s) {es : List Event} (ht : system.run NoFailure s es = some t) :
    Stuck app t ∧ t.relayed = s.relayed ∧ t.handled = s.handled := by
  induction es generalizing s with
  | nil =>
    cases ht
    exact ⟨h, rfl, rfl⟩
  | cons e es ih =>
    unfold System.run at ht
    split_ifs at ht with he
    obtain ⟨u, hu, ht⟩ := Option.bind_eq_some_iff.mp ht
    obtain ⟨hstuck, hrelayed, hhandled⟩ := h.step he hu
    obtain ⟨hstuck', hrelayed', hhandled'⟩ := ih hstuck ht
    exact ⟨hstuck', hrelayed'.trans hrelayed, hhandled'.trans hhandled⟩

/-- After the first response was read, the daemon waits for one to the second command for good,
unless `select` fails. -/
theorem relay_second_waits (h : system.Reach System.AnyStep s) (hhandled : s.handled ≠ [])
    (hwaiting : s.clid = .waiting app) (htoClid : s.toClid = []) {es : List Event}
    (hrun : system.run NoFailure s es = some t) :
    t.clid = .waiting app ∧ t.relayed = s.relayed ∧ t.handled = s.handled := by
  have honce := once_of_reach h
  have haccepted : s.accepted = true := by
    by_contra hno
    exact hhandled (honce.notAccepted (Bool.eq_false_of_not_eq_true hno)).1
  have hserver : s.server ≠ .reading := fun hreading => hhandled (honce.reading hreading).1
  obtain ⟨hstuck, hrest⟩ := Stuck.run ⟨hwaiting, haccepted, hserver, htoClid⟩ hrun
  exact ⟨hstuck.waiting, hrest⟩

theorem relay_second_waits_other : second.handled = [[1]] ∧ ∃ t,
    system.run NoFailure second [.serverAcceptOther, .serverOtherDone] = some t ∧
      t.clid = .waiting 1 ∧ t.relayed = second.relayed ∧ t.handled = second.handled :=
  ⟨rfl, _, rfl, relay_second_waits reach_second (by decide) rfl rfl
    (show system.run NoFailure second [.serverAcceptOther, .serverOtherDone] = some _ from rfl)⟩

end SeamlessStack.Cli.Relay
