import SeamlessStack.Serdes.Receive

/-! For which messages `sstack_recv_payload` comes back, whatever memory holds behind the blocks
that `unpack` made: those with every part that the command needs, and with texts that end in time
for their arrays and for the log. -/
namespace SeamlessStack.Serdes
open Lib Log

namespace Proto
variable {msg : Payload} {ctx : ℕ} {isIpv4 : Bool} {α : Type}

def Payload.HasResponse (msg : Payload) (field : ResponseStruct → Option α) (P : α → Prop) :
    Prop :=
  ∃ response, msg.responseStruct = some response ∧ ∃ a, field response = some a ∧ P a

end Proto

variable {unpack : List UInt8 → Option Proto.Payload} {al : Alloc} {ctx : ℕ} {isIpv4 : Bool}
  {handle : UInt64} {rx : Rx}

theorem sstackRecvPayload_of_ret_eq {behind : ℕ → UInt8} (hhandle : handle ≠ -1)
    (hzero : handle ≠ 0) (htemp : al.temp = true) (hret : rx.ret = rx.buffer.length) :
    sstackRecvPayload unpack al ctx isIpv4 behind handle rx =
      decode al ctx isIpv4 behind (unpack rx.buffer) := by
  have hne : (rx.buffer.length : ℤ) ≠ -1 := by omega
  have hlen : recvLen handle rx = rx.buffer.length := by
    unfold recvLen
    rw [if_neg hzero, hret, if_neg hne]
  unfold sstackRecvPayload
  rw [if_neg hhandle, if_neg (by simp [htemp]), hlen, if_neg hne, if_neg (by omega),
    Int.toNat_natCast, List.take_length]

def closed : Rx := ⟨0, 0, [], fun _ => rfl, Nat.zero_le _⟩

end SeamlessStack.Serdes
