import SeamlessStack.Cli.Command

/-! Which buffers the deserializers of the CLI read within bounds. None looks at `buf_len`, and the
length of each field is taken from the buffer. -/
namespace SeamlessStack.Cli
open Lib

def length16 (b₀ b₁ : UInt8) : ℕ := b₀.toNat + 256 * b₁.toNat

def fieldBytes : List UInt8 → List UInt8
  | b₀ :: b₁ :: rest => rest.take (length16 b₀ b₁)
  | _ => []

def behindField : List UInt8 → List UInt8
  | b₀ :: b₁ :: rest => rest.drop (length16 b₀ b₁)
  | _ => []

def FieldFits (limit : ℕ) : List UInt8 → Prop
  | b₀ :: b₁ :: rest => length16 b₀ b₁ ≤ rest.length ∧ length16 b₀ b₁ ≤ limit
  | _ => False

/-- The fields lie inside the buffer, none of them longer than its limit. -/
def InBounds : List ℕ → List UInt8 → Prop
  | [], _ => True
  | limit :: limits, buffer => FieldFits limit buffer ∧ InBounds limits (behindField buffer)

def itemLimit (protocol : ℕ) : Item → ℕ
  | .str .address => if protocol = ipv4 then 16 else 40
  | .str f => f.cap
  | _ => 65535

/-- The protocol as it is read: the third field on top of what was in the memory. -/
def protocolRead (M : Shifts) (buffer : List UInt8) (old : CliCmd) : ℕ :=
  (deserUint M 0 (fieldBytes (behindField (behindField buffer))) (old.num .protocol)).toNat

/-- The memory after the bytes of a field were stored to it. -/
def stored (M : Shifts) (s : CliCmd) (bytes : List UInt8) : Item → CliCmd
  | .num f => s.setNum f (deserUint M 0 bytes (s.num f))
  | .zeroed f => s.setNum f (deserUint M 0 bytes 0)
  | .str f => s.setStr f ((s.str f).memcpy bytes)

section Items
variable {M : Shifts} {s : CliCmd} {b₀ b₁ : UInt8} {rest buffer : List UInt8} {items : List Item}

theorem limit_eq_itemLimit (s : CliCmd) (f : StrField) :
    s.limit f = itemLimit (s.num .protocol).toNat (.str f) := by
  cases f <;> rfl

theorem deserUint_length16 : (deserUint M 0 [b₀, b₁] (0 : BitVec 16)).toNat = length16 b₀ b₁ := by
  have h₀ : b₀.toNat < 2 ^ 8 := b₀.toNat_lt
  have h₁ : b₁.toNat < 2 ^ 8 := b₁.toNat_lt
  have hor : deserUint M 0 [b₀, b₁] (0 : BitVec 16) =
      b₁.toBitVec.setWidth 16 <<< 8 ||| b₀.toBitVec.setWidth 16 := by
    refine BitVec.eq_of_getLsbD_eq fun j hj => ?_
    simp only [deserUint, Shifts.shlByte, BitVec.getLsbD_or, BitVec.getLsbD_signExtend,
      show j < 32 by omega, hj, if_true, decide_true, Bool.true_and, Nat.zero_add, Nat.mul_zero,
      Nat.mul_one, show 0 < 32 by norm_num, show 8 < 32 by norm_num, BitVec.getLsbD_shiftLeft,
      BitVec.getLsbD_setWidth]
    have hlow : j - 8 < 16 := by omega
    have hhigh : j - 8 < 32 := by omega
    simp [hlow, hhigh, show j < 32 by omega, Bool.or_comm]
  rw [hor, BitVec.toNat_or, BitVec.toNat_shiftLeft]
  simp only [BitVec.toNat_setWidth, UInt8.toNat_toBitVec, Nat.shiftLeft_eq]
  rw [Nat.mod_eq_of_lt (show b₁.toNat < 2 ^ 16 by omega),
    Nat.mod_eq_of_lt (show b₀.toNat < 2 ^ 16 by omega), Nat.mod_eq_of_lt (by omega), Nat.mul_comm,
    ← Nat.two_pow_add_eq_or_of_lt h₀, length16]
  omega

theorem deserSize_cons : deserSize M (b₀ :: b₁ :: rest) = .ok (length16 b₀ b₁, rest) := by
  rw [deserSize, readBytes, require_bind_of (by simp), ok_bind]
  exact congrArg (fun n => Except.ok (n, rest)) deserUint_length16

theorem read_field {β : Type} (g : ℕ → List UInt8 × List UInt8 → Except Fault β) :
    (deserSize M (b₀ :: b₁ :: rest) >>= fun p => readBytes p.2 p.1 >>= g p.1) =
      (require (length16 b₀ b₁ ≤ rest.length) .read >>= fun _ =>
        g (length16 b₀ b₁) (rest.take (length16 b₀ b₁), rest.drop (length16 b₀ b₁))) := by
  rw [deserSize_cons, ok_bind]
  by_cases hread : length16 b₀ b₁ ≤ rest.length
  · rw [require_bind_of hread, readBytes, require_bind_of hread, ok_bind]
  · rw [require_bind_of_not hread, readBytes, require_bind_of_not hread, error_bind]

theorem length16_le : length16 b₀ b₁ ≤ 65535 := by
  have h₀ := b₀.toNat_lt
  have h₁ := b₁.toNat_lt
  unfold length16
  omega

theorem deserItem_cons (item : Item) : deserItem M (b₀ :: b₁ :: rest, s) item =
    (require (length16 b₀ b₁ ≤ rest.length) .read >>= fun _ =>
      require (length16 b₀ b₁ ≤ itemLimit (s.num .protocol).toNat item) .write >>= fun _ =>
        .ok (rest.drop (length16 b₀ b₁), stored M s (rest.take (length16 b₀ b₁)) item)) := by
  cases item with
  | num f =>
    have hany : length16 b₀ b₁ ≤ itemLimit (s.num .protocol).toNat (.num f) := length16_le
    simp only [require_bind_of hany]
    exact read_field fun _ p => .ok (p.2, s.setNum f (deserUint M 0 p.1 (s.num f)))
  | zeroed f =>
    have hany : length16 b₀ b₁ ≤ itemLimit (s.num .protocol).toNat (.zeroed f) := length16_le
    have hset : ∀ bytes, (s.setNum f 0).setNum f (deserUint M 0 bytes ((s.setNum f 0).num f)) =
        stored M s bytes (.zeroed f) := by
      intro bytes
      simp [stored, CliCmd.setNum]
    simp only [require_bind_of hany, ← hset]
    exact read_field fun _ p =>
      .ok (p.2, (s.setNum f 0).setNum f (deserUint M 0 p.1 ((s.setNum f 0).num f)))
  | str f =>
    rw [← limit_eq_itemLimit]
    exact read_field fun size p => require (size ≤ s.limit f) .write >>= fun _ =>
      .ok (p.2, s.setStr f ((s.str f).memcpy p.1))

theorem deserItem_short (item : Item) (h : buffer.length < 2) :
    deserItem M (buffer, s) item = .error .read := by
  have hsize : deserSize M buffer = .error .read := by
    rw [deserSize, readBytes, require_bind_of_not (by omega), error_bind]
  cases item with
  | num f => rw [deserItem, deserNfield, hsize, error_bind]
  | zeroed f => rw [deserItem, deserNfield, hsize, error_bind]
  | str f => rw [deserItem, deserSfield, hsize, error_bind]

theorem returns_deserItems_cons (item : Item) :
    Returns (deserItems M (item :: items) (buffer, s)) ↔
      FieldFits (itemLimit (s.num .protocol).toNat item) buffer ∧
        Returns (deserItems M items (behindField buffer, stored M s (fieldBytes buffer) item)) := by
  rw [deserItems]
  match buffer with
  | [] | [b] => simp [deserItem_short, FieldFits]
  | b₀ :: b₁ :: rest =>
    rw [deserItem_cons]
    by_cases hread : length16 b₀ b₁ ≤ rest.length
    · by_cases hwrite : length16 b₀ b₁ ≤ itemLimit (s.num .protocol).toNat item
      · rw [require_bind_of hread, require_bind_of hwrite, ok_bind]
        simp [FieldFits, hread, hwrite, behindField, fieldBytes]
      · rw [require_bind_of hread, require_bind_of_not hwrite, error_bind]
        simp [FieldFits, hwrite]
    · rw [require_bind_of_not hread, error_bind]
      simp [FieldFits, hread]

theorem returns_deserItems (items : List Item) (hproto : .num .protocol ∉ items)
    (hzero : .zeroed .protocol ∉ items) : Returns (deserItems M items (buffer, s)) ↔
      InBounds (items.map (itemLimit (s.num .protocol).toNat)) buffer := by
  induction items generalizing buffer s with
  | nil => simp [deserItems, InBounds]
  | cons item items ih =>
    rw [List.mem_cons, not_or] at hproto hzero
    obtain ⟨hne, hproto⟩ := hproto
    obtain ⟨hne₀, hzero⟩ := hzero
    have hsame : ∀ bytes, (stored M s bytes item).num .protocol = s.num .protocol := by
      intro bytes
      cases item with
      | num f =>
        have hf : .protocol ≠ f := fun h => hne (congrArg Item.num h)
        exact Function.update_of_ne hf _ _
      | zeroed f =>
        have hf : .protocol ≠ f := fun h => hne₀ (congrArg Item.zeroed h)
        exact Function.update_of_ne hf _ _
      | str f => rfl
    rw [returns_deserItems_cons, ih hproto hzero, hsame]
    exact Iff.rfl

end Items

def Kind.limits (k : Kind) (protocol : ℕ) : List ℕ := k.items.map (itemLimit protocol)

section Kinds
variable {M : Shifts} {buffer : List UInt8} {old : CliCmd}

theorem returns_after_protocol (tail : List Item) (hproto : .num .protocol ∉ tail)
    (hzero : .zeroed .protocol ∉ tail) :
    Returns (deserItems M (.num .cmd :: .num .subCmd :: .num .protocol :: tail) (buffer, old)) ↔
      InBounds ((.num .cmd :: .num .subCmd :: .num .protocol :: tail).map
        (itemLimit (protocolRead M buffer old))) buffer := by
  rw [returns_deserItems_cons, returns_deserItems_cons, returns_deserItems_cons,
    returns_deserItems tail hproto hzero]
  exact Iff.rfl

theorem returns_items (k : Kind) : Returns (deserItems M k.items (buffer, old)) ↔
    InBounds (k.limits (protocolRead M buffer old)) buffer := by
  cases k with
  | policy => exact returns_deserItems policyItems (by decide) (by decide)
  | storage =>
    exact returns_after_protocol [.str .address, .str .rpath, .num .accessProtocol,
      .num .storageType, .num .size] (by decide) (by decide)
  | sfsd => exact returns_after_protocol [.str .address, .num .port] (by decide) (by decide)
  | license => exact returns_deserItems licenseItems (by decide) (by decide)

/-- A deserializer stays in bounds just when the magic is another one, or no memory is left, or the
fields lie inside the buffer and fit in their arrays. -/
theorem deserializer_inBounds_iff (M : Shifts) (k : Kind) (buffer : List UInt8)
    (fresh : Option CliCmd) : Returns (k.deserializer M buffer fresh) ↔
      4 ≤ buffer.length ∧ (deserUint M 0 (buffer.take 4) (0 : BitVec 32) ≠ sfscliMagic ∨
        ∀ old ∈ fresh, InBounds (k.limits (protocolRead M (buffer.drop 4) old))
          (buffer.drop 4)) := by
  rw [Kind.deserializer_eq, deserialize]
  by_cases hlen : 4 ≤ buffer.length
  · rw [readBytes, require_bind_of hlen, ok_bind]
    dsimp only
    split_ifs with hmagic
    · exact iff_of_true (returns_ok _) ⟨hlen, Or.inl hmagic⟩
    · cases fresh with
      | none => exact iff_of_true (returns_ok _) ⟨hlen, Or.inr (by simp)⟩
      | some old =>
        have hrun : Returns (deserItems M k.items (buffer.drop 4, old) >>= fun s =>
            (.ok (0, some s.2) : Except Fault (ℤ × Option CliCmd))) ↔
              Returns (deserItems M k.items (buffer.drop 4, old)) := by
          rw [returns_bind]
          exact ⟨fun ⟨s, hs, _⟩ => ⟨s, hs⟩, fun ⟨s, hs⟩ => ⟨s, hs, returns_ok _⟩⟩
        rw [hrun, returns_items]
        constructor
        · intro h
          refine ⟨hlen, Or.inr ?_⟩
          intro old' hold
          obtain rfl := Option.some.inj hold
          exact h
        · rintro ⟨-, h⟩
          exact h.resolve_left hmagic old rfl
  · rw [readBytes, require_bind_of_not hlen, error_bind]
    simp [hlen]

end Kinds

/-- An empty buffer is read, and 41 bytes of an address are copied to an array of 40. -/
theorem deserializeSfsd_outOfBounds :
    (sfscliDeserializeSfsd default [] (some (filled false))).map Prod.fst = .error .read ∧
    (sfscliDeserializeSfsd default ([0xEF, 0xBE, 0xAD, 0xDE, 0, 0, 0, 0, 0, 0, 41, 0] ++
      List.replicate 41 65 ++ [0, 0]) (some (filled false))).map Prod.fst = .error .write := by
  decide +kernel

end SeamlessStack.Cli
