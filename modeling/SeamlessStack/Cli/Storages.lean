import Mathlib.Data.List.Sort
import SeamlessStack.Cli.Bounds
import SeamlessStack.Cli.Server

/-! Which storages there are after any commands. `storage_tree_cmp` is never 0, so no search ends at
a node, and what was added stays. -/
namespace SeamlessStack.Cli

open Lib
open Sfs.StorageTree (StorageKey memcmp storageTreeCmp storageTreeCmp_ne_zero
  stnodeMagic)

/-- The device that a command adds, if it does. -/
def Received.adds (M : Shifts) (r : Received) : Option Device :=
  match r.command M with
  | .ok (.command .storage cmd) =>
    if cmd.subCmd = storageAddCmd ∧ r.job = .done true then
      (rpathOf cmd).map fun rpath => ⟨⟨stnodeMagic, addressOf cmd, rpath⟩,
        cmd.num .accessProtocol, cmd.num .storageType, cmd.num .size⟩
    else none
  | _ => none

/-- The address of `a` is not above the one of `b`. -/
def AddressLe (a b : Device) : Prop := memcmp a.address.val b.address.val ≤ 0

instance : DecidableRel AddressLe := fun _ _ => inferInstanceAs (Decidable (_ ≤ _))

section Order

theorem memcmp_total (a b : List UInt8) : memcmp a b ≤ 0 ∨ memcmp b a ≤ 0 := by
  induction a generalizing b with
  | nil => exact .inl le_rfl
  | cons x a ih =>
    cases b with
    | nil => exact .inl le_rfl
    | cons y b =>
      by_cases hxy : x = y
      · subst hxy
        simpa only [memcmp, if_true] using ih b
      · simp only [memcmp, if_neg hxy, if_neg (Ne.symm hxy)]
        omega

theorem memcmp_trans {a b c : List UInt8} (hab : a.length = b.length) (hbc : b.length = c.length)
    (h₁ : memcmp a b ≤ 0) (h₂ : memcmp b c ≤ 0) : memcmp a c ≤ 0 := by
  induction a generalizing b c with
  | nil => exact le_rfl
  | cons x a ih =>
    obtain ⟨y, b, rfl⟩ := List.exists_cons_of_length_eq_add_one hab.symm
    obtain ⟨z, c, rfl⟩ := List.exists_cons_of_length_eq_add_one hbc.symm
    simp only [List.length_cons, Nat.add_right_cancel_iff] at hab hbc
    simp only [memcmp] at h₁ h₂ ⊢
    by_cases hxy : x = y
    · subst hxy
      by_cases hxz : x = z
      · rw [if_pos hxz] at h₂ ⊢
        exact ih hab hbc (by simpa using h₁) h₂
      · rw [if_neg hxz] at h₂ ⊢
        exact h₂
    · rw [if_neg hxy] at h₁
      by_cases hyz : y = z
      · subst hyz
        rwa [if_neg hxy]
      · rw [if_neg hyz] at h₂
        have hne : x.toNat ≠ y.toNat := fun h => hxy (UInt8.toNat_inj.mp h)
        have hxz : x ≠ z := by
          rintro rfl
          omega
        rw [if_neg hxz]
        omega

instance : Std.Total AddressLe := ⟨fun _ _ => memcmp_total _ _⟩

instance : IsTrans Device AddressLe := ⟨fun a b c =>
  memcmp_trans (a.address.2.trans b.address.2.symm) (b.address.2.trans c.address.2.symm)⟩

variable {a d : Device}

theorem storageTreeCmp_neg_iff (hd : d.magic = stnodeMagic) (ha : a.magic = stnodeMagic) :
    storageTreeCmp d.toStorageKey a.toStorageKey < 0 ↔ AddressLe d a := by
  unfold AddressLe storageTreeCmp
  rw [if_neg (by simp [hd, ha])]
  dsimp only
  by_cases hpos : memcmp d.address.val a.address.val > 0
  · rw [if_pos hpos, if_neg one_ne_zero]
    omega
  · rw [if_neg hpos, ite_self, if_neg (by decide)]
    omega

end Order

/-- The tree holds the devices of `l`, later ones in front of those with the same address. -/
structure Holds (tree : RbTree Device) (l : List Device) : Prop where
  magic : ∀ d ∈ l, d.magic = stnodeMagic
  toList_eq : tree.toList = l.reverse.insertionSort AddressLe

variable {M : Shifts} {s s' : Server} {r : Received} {n : ℕ} {w : List UInt8}
  {rs : List Received} {written : List (List UInt8)} {tree tree' : RbTree Device}
  {l : List Device} {d : Device}

theorem Holds.insert (h : Holds tree l) (hd : d.magic = stnodeMagic) :
    Holds (Server.sfsStorageNodeInsert tree d) (l ++ [d]) := by
  have hneg : ∀ a ∈ tree.toList,
      storageTreeCmp d.toStorageKey a.toStorageKey < 0 ↔ AddressLe d a := by
    intro a ha
    rw [h.toList_eq, List.mem_insertionSort, List.mem_reverse] at ha
    exact storageTreeCmp_neg_iff hd (h.magic a ha)
  have hsorted : tree.toList.Pairwise AddressLe := by
    rw [h.toList_eq]
    exact List.pairwise_insertionSort AddressLe _
  refine ⟨?_, ?_⟩
  · intro a ha
    obtain ha | ha := List.mem_append.mp ha
    · exact h.magic a ha
    · rwa [List.mem_singleton.mp ha]
  · rw [Server.sfsStorageNodeInsert, LeftLeaning.toList_insert hneg hsorted, List.reverse_append,
      List.reverse_singleton, List.singleton_append, List.insertionSort_cons, ← h.toList_eq]

theorem storageTreeSearch_eq_none (tree : RbTree Device) (key : StorageKey) :
    Server.storageTreeSearch tree key = none :=
  LeftLeaning.search_eq_none (fun _ => storageTreeCmp_ne_zero _ _) tree

theorem sfsStorageNodeRemove_eq (tree : RbTree Device) (key : StorageKey) :
    Server.sfsStorageNodeRemove tree key = .ok tree := by
  rw [Server.sfsStorageNodeRemove, storageTreeSearch_eq_none]

theorem sfsStorageNodeUpdate_eq (tree : RbTree Device) (key : StorageKey) (size : BitVec 64) :
    Server.sfsStorageNodeUpdate tree key size = .ok tree := by
  unfold Server.sfsStorageNodeUpdate
  rw [storageTreeSearch_eq_none]

section Step

theorem respond_tree {text : String} {allocated : Bool}
    (h : s.respond text allocated = .ok (n, s')) : s'.tree = s.tree := by
  unfold Server.respond at h
  split_ifs at h
  cases h
  rfl

theorem policy_tree {cmd : CliCmd} (h : s.getPolicyCommandResponse cmd r = .ok (n, s')) :
    s'.tree = s.tree := by
  unfold Server.getPolicyCommandResponse at h
  split_ifs at h
  any_goals exact respond_tree h
  · split at h
    · exact respond_tree h
    · cases h
      rfl
    · cases h
      rfl
  · cases h
    rfl

theorem foldlM_display_tree {room : ℕ → Bool} {nodes : List Device}
    (h : nodes.foldlM (Server.displayStorageDevices room) s = .ok s') : s'.tree = s.tree := by
  induction nodes generalizing s with
  | nil =>
    cases h
    rfl
  | cons node nodes ih =>
    rw [List.foldlM_cons] at h
    obtain ⟨s₁, hnode, h⟩ := bind_eq_ok.mp h
    rw [ih h]
    obtain ⟨_, -, hnode⟩ := bind_eq_ok.mp hnode
    dsimp only at hnode
    cases hbuf : s.buf <;> rw [hbuf] at hnode <;> cases hnode <;> split_ifs <;> rfl

theorem storageShow_tree (h : s.storageShow r = .ok (n, s')) : s'.tree = s.tree := by
  obtain ⟨s₁, hfold, h⟩ := bind_eq_ok.mp h
  rw [← foldlM_display_tree hfold]
  split at h
  · obtain ⟨_, -, h⟩ := bind_eq_ok.mp h
    cases h
    rfl
  · cases h
  · cases h

theorem storageDone_tree {cmd : CliCmd} {key : StorageKey} {allocated : Bool} {text : String}
    (h : Server.storageDone tree cmd key allocated = .ok (text, tree')) :
    tree' = if cmd.subCmd = storageAddCmd ∧ allocated = true then
      Server.sfsStorageNodeInsert tree
        ⟨key, cmd.num .accessProtocol, cmd.num .storageType, cmd.num .size⟩
    else tree := by
  unfold Server.storageDone at h
  by_cases hadd : cmd.subCmd = storageAddCmd
  · rw [if_pos hadd] at h
    cases h
    simp [hadd]
  · rw [if_neg fun hand => hadd hand.1]
    rw [if_neg hadd] at h
    split_ifs at h
    · rw [sfsStorageNodeRemove_eq] at h
      cases h
      rfl
    · obtain ⟨_, hupdate, h⟩ := bind_eq_ok.mp h
      cases (sfsStorageNodeUpdate_eq tree key _).symm.trans hupdate
      cases h
      rfl

theorem storage_tree {cmd : CliCmd} (hcmd : r.command M = .ok (.command .storage cmd))
    (h : s.getStorageCommandResponse cmd r = .ok (n, s')) :
    s'.tree = (r.adds M).elim s.tree (Server.sfsStorageNodeInsert s.tree) := by
  have hadds : ¬ (cmd.subCmd = storageAddCmd ∧ r.job = .done true) → r.adds M = none := by
    intro hnot
    simp only [Received.adds, hcmd, if_neg hnot]
  unfold Server.getStorageCommandResponse at h
  split_ifs at h with hshow hsub
  · have hnot : cmd.subCmd ≠ storageAddCmd := by
      rw [hshow]
      decide
    rw [storageShow_tree h, hadds fun hadd => hnot hadd.1]
    rfl
  · cases hjob : r.job with
    | refused =>
      rw [hjob] at h
      rw [respond_tree h, hadds (by simp [hjob])]
      rfl
    | noPayload =>
      rw [hjob] at h
      cases h
    | failed =>
      rw [hjob] at h
      rw [hadds (by simp [hjob])]
      dsimp only at h
      split at h
      · cases h
      · exact respond_tree h
    | done node =>
      rw [hjob] at h
      dsimp only at h
      split at h
      · cases h
      · rename_i rpath hrpath
        obtain ⟨⟨text, tree⟩, hdone, h⟩ := bind_eq_ok.mp h
        rw [respond_tree h, storageDone_tree hdone]
        cases node <;> by_cases hadd : cmd.subCmd = storageAddCmd <;>
          simp [Received.adds, hcmd, hjob, hadd, hrpath]
  · cases h
    rw [hadds fun hadd => hsub (.inl hadd.1)]
    rfl

theorem getCommandResponse_tree (h : s.getCommandResponse M r = .ok (n, s')) :
    s'.tree = (r.adds M).elim s.tree (Server.sfsStorageNodeInsert s.tree) := by
  unfold Server.getCommandResponse at h
  split at h
  case h_1 => cases h
  case h_5 cmd hcmd =>
    rw [policy_tree h, Received.adds, hcmd]
    rfl
  case h_6 cmd hcmd => exact storage_tree hcmd h
  all_goals
    rename_i hcmd
    cases h
    rw [Received.adds, hcmd]
    rfl

theorem handle_tree (h : s.handle M r = .ok (w, s')) :
    s'.tree = (r.adds M).elim s.tree (Server.sfsStorageNodeInsert s.tree) := by
  obtain ⟨⟨n, s₁⟩, hresp, h⟩ := bind_eq_ok.mp h
  rw [← getCommandResponse_tree hresp]
  dsimp only at h
  split at h
  · cases h
    rfl
  split at h
  · cases h
    rfl
  · obtain ⟨_, -, h⟩ := bind_eq_ok.mp h
    cases h
    rfl

theorem Received.adds_magic (h : r.adds M = some d) : d.magic = stnodeMagic := by
  unfold Received.adds at h
  split at h
  · split_ifs at h
    obtain ⟨rpath, -, rfl⟩ := Option.map_eq_some_iff.mp h
    rfl
  · cases h

theorem Holds.handle (hl : Holds s.tree l) (h : s.handle M r = .ok (w, s')) :
    Holds s'.tree (l ++ (r.adds M).toList) := by
  rw [handle_tree h]
  cases hadds : r.adds M with
  | none => simpa using hl
  | some d => exact hl.insert (Received.adds_magic hadds)

theorem Holds.run (hl : Holds s.tree l)
    (hrun : s.handleCliRequests M rs = .ok (written, s')) :
    Holds s'.tree (l ++ rs.filterMap (Received.adds M)) := by
  induction rs generalizing s l written with
  | nil =>
    cases hrun
    simpa using hl
  | cons r rs ih =>
    obtain ⟨⟨w, s₁⟩, hr, hrun⟩ := bind_eq_ok.mp hrun
    obtain ⟨⟨ws, s₂⟩, hrs, hrun⟩ := bind_eq_ok.mp hrun
    cases hrun
    have h := ih (hl.handle hr) hrs
    rw [List.append_assoc] at h
    cases hadds : r.adds M with
    | none | some d => simpa [hadds] using h

end Step

/-- After any commands the file system has every storage ever added, once for each time, in the
order of the addresses and the last first. Removals and updates leave no trace. -/
theorem storages_are_adds (hrun : Server.init.handleCliRequests M rs = .ok (written, s)) :
    s.tree.toList = (rs.filterMap (Received.adds M)).reverse.insertionSort AddressLe := by
  have hempty : Holds Server.init.tree [] := ⟨by simp, rfl⟩
  simpa using (hempty.run hrun).toList_eq

section Sent

theorem deserItems_zeros (items : List Item) (k : ℕ) (c : CliCmd) :
    deserItems M items (List.replicate (2 * items.length + k) 0, c) =
      .ok (List.replicate k 0, items.foldl (fun c item => stored M c [] item) c) := by
  induction items generalizing c with
  | nil => simp [deserItems]
  | cons item items ih =>
    have hzeros : List.replicate (2 * (item :: items).length + k) (0 : UInt8) =
        0 :: 0 :: List.replicate (2 * items.length + k) 0 := by
      rw [List.length_cons, show 2 * (items.length + 1) + k = 2 * items.length + k + 1 + 1 by omega]
      rfl
    have hnone : length16 0 0 = 0 := rfl
    rw [hzeros, deserItems, deserItem_cons, hnone, require_bind_of (Nat.zero_le _),
      require_bind_of (Nat.zero_le _)]
    exact ih _

/-- Memory that is zero but for the subcommand. -/
def zeroCmd (subCmd : BitVec 32) : CliCmd := (filled false).setNum .subCmd subCmd

/-- A command of 27 bytes, of which all behind the kind are zero. -/
def sent (kind : UInt8) (subCmd : BitVec 32) : Received where
  bytes := [0xef, 0xbe, 0xad, 0xde, 4, 0, kind, 0, 0, 0] ++ List.replicate 17 0
  garbage := 0
  fresh := some (zeroCmd subCmd)
  policyRet := 0
  policies := some (List.replicate 27 97)
  job := .done true
  allocated := true
  room _ := true

def sentCmd (kind : UInt8) (subCmd : BitVec 32) (items : List Item) : CliCmd :=
  items.foldl (fun c item => stored default c [] item)
    (stored default (zeroCmd subCmd) [kind, 0, 0, 0] (.num .cmd))

theorem sent_cmdBuffer (kind : UInt8) (subCmd : BitVec 32) : (sent kind subCmd).cmdBuffer =
    0xef :: 0xbe :: 0xad :: 0xde :: 4 :: 0 :: kind :: 0 :: 0 :: 0 :: List.replicate 16374 0 := by
  have hlen : (sent kind subCmd).bytes.length = 27 := rfl
  rw [Received.cmdBuffer, hlen]
  simp only [sent, List.replicate_append_replicate, List.cons_append, List.nil_append]
  rfl

theorem sent_command {k : Kind} {kind : UInt8} (subCmd : BitVec 32) {items : List Item}
    (hkind : Kind.ofCmd (deserUint default 0 [kind, 0, 0, 0] (0 : BitVec 32)) = some k)
    (hitems : k.items = .num .cmd :: items) (hlen : items.length ≤ 100) :
    (sent kind subCmd).command default = .ok (.command k (sentCmd kind subCmd items)) := by
  have hmagic : deserUint default 0 [0xef, 0xbe, 0xad, 0xde] (0 : BitVec 32) = sfscliMagic := by
    decide
  have hread (rest : List UInt8) : readBytes (0xef :: 0xbe :: 0xad :: 0xde :: rest) 4 =
      .ok ([0xef, 0xbe, 0xad, 0xde], rest) := by
    rw [readBytes, require_bind_of (by simp)]
    rfl
  have hsize : length16 4 0 = 4 := rfl
  have hfour (rest : List UInt8) : readBytes (kind :: 0 :: 0 :: 0 :: rest) 4 =
      .ok ([kind, 0, 0, 0], rest) := by
    rw [readBytes, require_bind_of (by simp)]
    rfl
  have hitem (rest : List UInt8) (c : CliCmd) :
      deserItem default (4 :: 0 :: kind :: 0 :: 0 :: 0 :: rest, c) (.num .cmd) =
        .ok (rest, stored default c [kind, 0, 0, 0] (.num .cmd)) := by
    rw [deserItem_cons, hsize, require_bind_of (by simp), require_bind_of (by simp [itemLimit])]
    rfl
  have hzeros : List.replicate 16374 (0 : UInt8) =
      List.replicate (2 * items.length + (16374 - 2 * items.length)) 0 := by
    congr 1
    omega
  have hdeser : k.deserializer default (sent kind subCmd).cmdBuffer (sent kind subCmd).fresh =
      .ok (0, some (sentCmd kind subCmd items)) := by
    rw [Kind.deserializer_eq, deserialize, sent_cmdBuffer, hread, ok_bind]
    dsimp only
    rw [if_neg (not_not.mpr hmagic)]
    simp only [sent]
    rw [hitems, deserItems, hitem, ok_bind, hzeros, deserItems_zeros, ok_bind]
    rfl
  rw [Received.command, sent_cmdBuffer, hread, ok_bind]
  dsimp only
  rw [if_neg (not_not.mpr hmagic), deserSize_cons, ok_bind, hsize]
  dsimp only
  rw [hfour, ok_bind, ← sent_cmdBuffer kind subCmd]
  dsimp only
  rw [show (sent kind subCmd).garbage = 0 from rfl, hkind]
  dsimp only
  rw [hdeser, ok_bind]
  rfl

def sentDevice : Device :=
  ⟨⟨stnodeMagic, addressOf (sentCmd 2 1 storageItems.tail), ⟨[], by decide⟩⟩, 0, 0, 0⟩

theorem handle_added : Server.init.handle default (sent 2 1) =
    .ok (ascii "Add storage successful",
      ⟨some (ascii "Add storage successful"), .null, 0, .node false .nil sentDevice .nil⟩) := by
  unfold Server.handle Server.getCommandResponse
  rw [sent_command (k := .storage) 1 (by decide) rfl (by decide)]
  rfl

theorem handle_removed : Server.handle default
    ⟨some (ascii "Add storage successful"), .null, 0, .node false .nil sentDevice .nil⟩
    (sent 2 2) = .ok (ascii "Del storage successful",
      ⟨some (ascii "Del storage successful"), .null, 0, .node false .nil sentDevice .nil⟩) := by
  unfold Server.handle Server.getCommandResponse
  rw [sent_command (k := .storage) 2 (by decide) rfl (by decide)]
  rfl

theorem storages_are_adds_removed : ∃ s,
    Server.init.handleCliRequests default [sent 2 1, sent 2 2] =
      .ok ([ascii "Add storage successful", ascii "Del storage successful"], s) ∧
    s.tree.toList = ([sent 2 1, sent 2 2].filterMap
      (Received.adds default)).reverse.insertionSort AddressLe := by
  obtain ⟨s, hrun⟩ : ∃ s, Server.init.handleCliRequests default [sent 2 1, sent 2 2] =
      .ok ([ascii "Add storage successful", ascii "Del storage successful"], s) := by
    rw [Server.handleCliRequests, handle_added, ok_bind]
    dsimp only
    rw [Server.handleCliRequests, handle_removed, ok_bind]
    exact ⟨_, rfl⟩
  exact ⟨s, hrun, storages_are_adds hrun⟩

end Sent

end SeamlessStack.Cli
