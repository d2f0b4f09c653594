import SeamlessStack.Cli.Bounds
import SeamlessStack.Cli.Parse

/-! Where the cursor `p` of a serializer and that of its deserializer stand before each field. The
deserializer takes one of two branches by the protocol that it has read on top of what was in
memory. -/
namespace SeamlessStack.Cli
open Lib

/-- What a serializer allocates, with the numbers of fields that the headers give. -/
def Kind.bufferSize : Kind → ℕ
  | .policy => policyBufferSize
  | .storage => cliCmdSize + 4 + 2 * (5 + 2 + 2 + 2)
  | .sfsd => cliCmdSize + 4 + 2 * (2 + 2 + 2 + 2)
  | .license => cliCmdSize + 4 + 2 * (1 + 2 + 2 + 2)

def Item.Ends (c : CliCmd) : Item → Prop
  | .str f => c.Terminated f
  | _ => True

instance (c : CliCmd) (item : Item) : Decidable (item.Ends c) :=
  match item with
  | .str f => inferInstanceAs (Decidable (0 ∈ (c.str f).1.take (c.limit f)))
  | .num _ => inferInstanceAs (Decidable True)
  | .zeroed _ => inferInstanceAs (Decidable True)

def serAt (M : Shifts) (c : CliCmd) (size p : ℕ) (item : Item) : Except Fault ℕ := do
  require (item.Ends c) .read
  require (p + (serItem M c item).length ≤ size) .write
  .ok (p + (serItem M c item).length)

def serCursors (M : Shifts) (c : CliCmd) (size : ℕ) : ℕ → List Item → Except Fault (List ℕ)
  | p, [] => .ok [p]
  | p, item :: items => do
    let q ← serAt M c size p item
    let ps ← serCursors M c size q items
    .ok (p :: ps)

def Kind.serCursors (k : Kind) (M : Shifts) (c : CliCmd) : Except Fault (List ℕ) := do
  require (4 ≤ k.bufferSize) .write
  Cli.serCursors M c k.bufferSize 4 k.items

/-- A string of this length fits into the memory of its array; a copy to `ipv4_address` may go on to
the end of `ipv6_address`. -/
def Item.Holds (size : ℕ) : Item → Prop
  | .str f => size ≤ f.cap
  | _ => True

instance (size : ℕ) (item : Item) : Decidable (item.Holds size) :=
  match item with
  | .str f => inferInstanceAs (Decidable (size ≤ f.cap))
  | .num _ => inferInstanceAs (Decidable True)
  | .zeroed _ => inferInstanceAs (Decidable True)

/-- One line of a deserializer at `p`, and the memory of the command after it. -/
def deserAt (M : Shifts) (buffer : List UInt8) (p : ℕ) (s : CliCmd) (item : Item) :
    Except Fault (ℕ × CliCmd) := do
  let (size, behind) ← deserSize M (buffer.drop p)
  let (bytes, _) ← readBytes behind size
  require (item.Holds size) .write
  .ok (p + 2 + size, stored M s bytes item)

def deserCursors (M : Shifts) (buffer : List UInt8) :
    ℕ → CliCmd → List Item → Except Fault (List ℕ × CliCmd)
  | p, s, [] => .ok ([p], s)
  | p, s, item :: items => do
    let (q, s) ← deserAt M buffer p s item
    let (ps, s) ← deserCursors M buffer q s items
    .ok (p :: ps, s)

/-- The return value of a deserializer, with its cursors and the memory at the end. -/
def Kind.deserCursors (k : Kind) (M : Shifts) (buffer : List UInt8) (old : CliCmd) :
    Except Fault (ℤ × List ℕ × CliCmd) := do
  let (bytes, _) ← readBytes buffer 4
  if deserUint M 0 bytes (0 : BitVec 32) ≠ sfscliMagic then .ok (-22, [], old)
  else do
    let r ← Cli.deserCursors M buffer 4 old k.items
    .ok (0, r)

def payload (M : Shifts) (c : CliCmd) : Item → List UInt8
  | .num f | .zeroed f => serUint M (c.num f) f.bytes
  | .str f => c.text f

def places (M : Shifts) (c : CliCmd) : ℕ → List Item → List ℕ
  | p, [] => [p]
  | p, item :: items => p :: places M c (p + (serItem M c item).length) items

section Fields
variable {M : Shifts} {c s : CliCmd} {p size : ℕ} {buffer front rest : List UInt8} {item : Item}
  {items : List Item}

/-- Where the deserializer of `Command` goes through a field, this one does the same. -/
theorem deserAt_of_deserItem {behind : List UInt8} {s' : CliCmd}
    (h : deserItem M (buffer.drop p, s) item = .ok (behind, s')) :
    ∃ q, deserAt M buffer p s item = .ok (q, s') ∧ behind = buffer.drop q := by
  have hlong : 2 ≤ (buffer.drop p).length := by
    by_contra hshort
    rw [deserItem_short item (not_le.mp hshort)] at h
    cases h
  obtain ⟨b₀, b₁, tail, hdrop⟩ : ∃ b₀ b₁ tail, buffer.drop p = b₀ :: b₁ :: tail := by
    match buffer.drop p, hlong with
    | b₀ :: b₁ :: tail, _ => exact ⟨b₀, b₁, tail, rfl⟩
  rw [hdrop, deserItem_cons] at h
  obtain ⟨_, hread, h⟩ := bind_eq_ok.mp h
  obtain ⟨_, hwrite, h⟩ := bind_eq_ok.mp h
  obtain ⟨rfl, rfl⟩ := Prod.mk.inj (Except.ok.inj h)
  have hholds : item.Holds (length16 b₀ b₁) := by
    cases item with
    | num f | zeroed f => trivial
    | str f =>
      have hle := require_eq_ok.mp hwrite
      rw [← limit_eq_itemLimit] at hle
      exact hle.trans (limit_le s f)
  refine ⟨p + 2 + length16 b₀ b₁, ?_, ?_⟩
  · rw [deserAt, hdrop, deserSize_cons, ok_bind]
    dsimp only
    rw [readBytes, require_bind_of (require_eq_ok.mp hread), ok_bind]
    exact require_bind_of hholds _
  · have htail : tail = (buffer.drop p).drop 2 := by rw [hdrop]; rfl
    rw [htail, List.drop_drop, List.drop_drop, Nat.add_assoc]

theorem deserCursors_of_deserItems {behind : List UInt8} {s' : CliCmd}
    (h : deserItems M items (buffer.drop p, s) = .ok (behind, s')) :
    ∃ ps, deserCursors M buffer p s items = .ok (ps, s') := by
  induction items generalizing p s with
  | nil =>
    obtain ⟨-, rfl⟩ := Prod.mk.inj (Except.ok.inj h)
    exact ⟨[p], rfl⟩
  | cons item items ih =>
    obtain ⟨⟨behind₁, s₁⟩, hitem, hrest⟩ := bind_eq_ok.mp h
    obtain ⟨q, hq, rfl⟩ := deserAt_of_deserItem hitem
    obtain ⟨ps, hps⟩ := ih hrest
    refine ⟨p :: ps, ?_⟩
    rw [deserCursors, hq, ok_bind]
    dsimp only
    rw [hps, ok_bind]

/-- Where a deserializer returns a command, it is the same with its cursors. -/
theorem deserCursors_of_deserializer {k : Kind} {old c' : CliCmd} {ret : ℤ}
    (h : k.deserializer M buffer (some old) = .ok (ret, some c')) :
    ∃ ps, k.deserCursors M buffer old = .ok (ret, ps, c') := by
  rw [Kind.deserializer_eq, deserialize] at h
  obtain ⟨⟨bytes, behind⟩, hread, h⟩ := bind_eq_ok.mp h
  have hdrop : behind = buffer.drop 4 := by
    obtain ⟨_, -, hpair⟩ := bind_eq_ok.mp hread
    exact (Prod.mk.inj (Except.ok.inj hpair)).2.symm
  rw [Kind.deserCursors, hread, ok_bind]
  dsimp only at h ⊢
  split_ifs at h ⊢ with hmagic
  · cases h
  · obtain ⟨⟨rest, s'⟩, hitems, h⟩ := bind_eq_ok.mp h
    obtain ⟨rfl, hsome⟩ := Prod.mk.inj (Except.ok.inj h)
    obtain rfl := Option.some.inj hsome
    rw [hdrop] at hitems
    obtain ⟨ps, hps⟩ := deserCursors_of_deserItems hitems
    exact ⟨ps, bind_eq_ok.mpr ⟨_, hps, rfl⟩⟩

theorem serItem_eq (item : Item) : serItem M c item =
    serUint M (BitVec.ofNat 16 (payload M c item).length) 2 ++ payload M c item := by
  cases item with
  | num f | zeroed f => simp [serItem, serNfield, payload, serUint_length]
  | str f => rfl

theorem payload_length (M : Shifts) (c : CliCmd) (item : Item) :
    (payload M c item).length < 2 ^ 16 ∧ item.Holds (payload M c item).length := by
  cases item with
  | num f =>
    rw [payload, serUint_length]
    exact ⟨bytes_lt f, trivial⟩
  | zeroed f =>
    rw [payload, serUint_length]
    exact ⟨bytes_lt f, trivial⟩
  | str f =>
    have hle : (c.text f).length ≤ f.cap := (text_length_le c f).trans (limit_le c f)
    exact ⟨hle.trans_lt (cap_lt f), hle⟩

theorem deserAt_serItem (front rest : List UInt8) (s : CliCmd) (item : Item) :
    deserAt M (front ++ serItem M c item ++ rest) front.length s item =
      .ok (front.length + (serItem M c item).length, stored M s (payload M c item) item) := by
  obtain ⟨hsize, hholds⟩ := payload_length M c item
  rw [deserAt, List.append_assoc, List.drop_left, serItem_eq, List.append_assoc,
    deserSize_serUint hsize, ok_bind]
  dsimp only
  rw [readBytes_append, ok_bind]
  dsimp only
  rw [require_bind_of hholds, List.length_append, serUint_length, Nat.add_assoc]

theorem deserCursors_serialized (front : List UInt8) (s : CliCmd) (items : List Item) : ∃ s',
    deserCursors M (front ++ items.flatMap (serItem M c)) front.length s items =
      .ok (places M c front.length items, s') := by
  induction items generalizing front s with
  | nil => exact ⟨s, rfl⟩
  | cons item items ih =>
    obtain ⟨s', hrest⟩ := ih (front ++ serItem M c item) (stored M s (payload M c item) item)
    refine ⟨s', ?_⟩
    rw [List.length_append] at hrest
    rw [List.flatMap_cons, ← List.append_assoc, deserCursors, deserAt_serItem, ok_bind]
    dsimp only
    rw [hrest, ok_bind, places]

theorem serCursors_eq (items : List Item) (hends : ∀ item ∈ items, item.Ends c)
    (hsize : p + (items.flatMap (serItem M c)).length ≤ size) :
    serCursors M c size p items = .ok (places M c p items) := by
  induction items generalizing p with
  | nil => rfl
  | cons item items ih =>
    rw [List.flatMap_cons, List.length_append] at hsize
    have hroom : p + (serItem M c item).length ≤ size := by omega
    rw [serCursors, serAt, require_bind_of (hends item List.mem_cons_self), require_bind_of hroom,
      ok_bind, ih (fun i hi => hends i (List.mem_cons_of_mem _ hi)) (by omega), ok_bind, places]

theorem places_getLast? (items : List Item) :
    (places M c p items).getLast? = some (p + (items.flatMap (serItem M c)).length) := by
  induction items generalizing p with
  | nil => rfl
  | cons item items ih =>
    have hne : places M c (p + (serItem M c item).length) items ≠ [] := by
      cases items <;> simp [places]
    rw [places, List.getLast?_cons_of_ne_nil hne, ih, List.flatMap_cons, List.length_append,
      Nat.add_assoc]

end Fields

/-- A serializer stays inside its buffer, and its deserializer reads just the bytes that were
written, with its cursor before each field where that of the serializer was. -/
theorem cursors_agree {k : Kind} (hk : k ≠ .license) (M : Shifts) (c old : CliCmd)
    (hterm : ∀ f, .str f ∈ k.items → c.Terminated f) : ∃ buffer ps,
      (k.serializer M c).buffer = some buffer ∧ (k.serializer M c).ret = buffer.length ∧
      buffer.length ≤ k.bufferSize ∧ k.serCursors M c = .ok ps ∧
      (∃ c', k.deserCursors M buffer old = .ok (0, ps, c')) ∧ ps.getLast? = some buffer.length := by
  have hlen : (serialize M k.items c).length = 4 + (k.items.flatMap (serItem M c)).length := by
    rw [serialize, List.length_append, serUint_length]
  have hsize : (serialize M k.items c).length ≤ k.bufferSize := by
    have hroom : 4 + (k.items.map Item.room).sum ≤ k.bufferSize := by cases k <;> decide
    exact (serialize_length_le M c k.items).trans hroom
  have hends : ∀ item ∈ k.items, item.Ends c := by
    intro item hitem
    cases item with
    | num f | zeroed f => trivial
    | str f => exact hterm f hitem
  refine ⟨serialize M k.items c, places M c 4 k.items, ?_, ?_, hsize, ?_, ?_, ?_⟩
  · rw [Kind.serializer_eq hk]
  · rw [Kind.serializer_eq hk]
  · rw [Kind.serCursors, require_bind_of (by omega)]
    exact serCursors_eq k.items hends (hlen ▸ hsize)
  · obtain ⟨c', hrun⟩ := deserCursors_serialized (c := c) (serUint M sfscliMagic 4) old k.items
    rw [serUint_length] at hrun
    refine ⟨c', ?_⟩
    rw [Kind.deserCursors, readBytes_serialize, ok_bind]
    dsimp only
    rw [deserUint_magic, if_neg (not_not.mpr rfl)]
    exact bind_eq_ok.mpr ⟨_, hrun, rfl⟩
  · rw [places_getLast?, hlen]

/-- The address 10.0.0.1 in memory full of ones: the protocol is lost, and the cursors agree. -/
theorem cursors_agree_dirty : Kind.sfsd ≠ .license ∧
    (∀ f, .str f ∈ Kind.sfsd.items → sfsdAdd.Terminated f) ∧
      ∃ ps c', Kind.sfsd.serCursors default sfsdAdd = .ok ps ∧
        Kind.sfsd.deserCursors default (serialize default sfsdItems sfsdAdd) (filled true) =
          .ok (0, ps, c') := by
  have hterm : ∀ f, .str f ∈ Kind.sfsd.items → sfsdAdd.Terminated f := by
    intro f hf
    obtain rfl : f = .address := by simpa [Kind.items, sfsdItems] using hf
    exact sfsdAdd_terminated .address (by decide)
  obtain ⟨buffer, ps, hbuffer, -, -, hser, ⟨c', hdeser⟩, -⟩ :=
    cursors_agree (by decide) default sfsdAdd (filled true) hterm
  obtain rfl := Option.some.inj hbuffer
  exact ⟨by decide, hterm, ps, c', hser, hdeser⟩

end SeamlessStack.Cli
