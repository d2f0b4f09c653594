import SeamlessStack.DataCache.Cache
import SeamlessStack.Lib.Runs

/-! When the cache is a map. In the map that calls should make, a store that succeeds binds its
key and a purge unbinds it; the law is that no call goes wrong and every get returns what the
map has. -/
namespace SeamlessStack.DataCache
open Lib RbTree Function

inductive Call
  | allocate (hashkey : Key) (mc : Bool)
  | store (data : Option Data) (entry : Option ℕ) (lru : Bool)
  | get (hashkey : Option Key) (size : ℕ)
  | purge (hashkey : Option Key)

inductive Answer
  | entry (n : ℕ)
  | ret (n : ℤ)
  | data (d : Option Data)
  deriving DecidableEq

def perform (M : Memcmp) (c : Cache) : Call → Except Fault (Answer × Cache)
  | .allocate k mc =>
    .ok (.entry (sstackAllocateCacheEntry c k mc).1, (sstackAllocateCacheEntry c k mc).2)
  | .store d e lru => (sstackCacheStore M c d e lru).map fun r => (.ret r.1, r.2)
  | .get k size => (sstackCacheGet M c k size).map fun d => (.data d, c)
  | .purge k => (sstackCachePurge M c k).map fun r => (.ret r.1, r.2)

/-- The cache and the map that the calls so far should have made. -/
structure Session where
  cache : Cache
  stored : Key → Option Data

namespace Session

/-- The map after a call, from how the call was answered. -/
def expected (s : Session) : Call → Answer → Key → Option Data
  | .store (some d) (some info) _, .ret n =>
    match s.cache.entries[info]?.join with
    | some e => if n = 0 then update s.stored e.hashkey (some d) else s.stored
    | none => s.stored
  | .purge (some k), .ret n => if n = 0 then update s.stored k none else s.stored
  | _, _ => s.stored

/-- The call comes back, and a get with what the map has. -/
def Right (M : Memcmp) (s : Session) (call : Call) : Prop :=
  ∃ answer c, perform M s.cache call = .ok (answer, c) ∧
    ∀ k size, call = .get (some k) size → answer = .data (s.stored k)

end Session

/-- Memcached and the SSD may hold anything at the start. -/
def sessions (M : Memcmp) : System Session Call where
  init s := s.cache.entries = [] ∧ s.cache.tree = .nil ∧ s.cache.nodes = 0 ∧
    s.stored = fun _ => none
  step s call := (perform M s.cache call).toOption.map fun r => ⟨r.2, s.expected call r.1⟩

theorem sessions_step {M : Memcmp} {s : Session} {call : Call} {answer : Answer} {c : Cache}
    (h : perform M s.cache call = .ok (answer, c)) :
    (sessions M).step s call = some ⟨c, s.expected call answer⟩ := by
  change (perform M s.cache call).toOption.map _ = _
  rw [h]
  rfl

/-- The keys that occur, whether an entry may be stored again, and whether memory may run out. -/
structure Usage where
  keys : Set Key
  again : Prop
  starved : Prop

/-- A caller passes keys of the usage, and entries that it allocated and that were not freed. -/
def Usage.Allowed (U : Usage) (s : Session) : Call → Prop
  | .allocate k _ => k ∈ U.keys
  | .store _ (some info) lru => s.cache.Live info ∧
      (U.again ∨ ∀ n ∈ s.cache.tree.toList, n.info ≠ info) ∧ (lru = true ∨ U.starved)
  | .store _ none _ => True
  | .get k _ => ∀ q ∈ k, q ∈ U.keys
  | .purge k => ∀ q ∈ k, q ∈ U.keys

/-- `memcmp` tells the keys apart by 1 and -1, they differ before their first zero byte and do not
start with one, no entry is stored again and memory does not run out. -/
structure Usage.Safe (M : Memcmp) (U : Usage) : Prop where
  apart : ∀ a ∈ U.keys, ∀ b ∈ U.keys, a ≠ b → M.value a b = 1 ∨ M.value a b = -1
  texts : ∀ a ∈ U.keys, ∀ b ∈ U.keys, a ≠ b → a.text ≠ b.text
  starts : ∀ a ∈ U.keys, a.text ≠ []
  once : U.keys.Nonempty → ¬ U.again
  fed : U.keys.Nonempty → ¬ U.starved

/-! ### The comparison -/

section Compare
variable {M : Memcmp} {U : Usage} {a b : Key}

theorem compareFunc_self (M : Memcmp) (a : Key) : compareFunc M a a = 0 := by
  have hneg : ¬ M.value a a < 0 := fun h => lt_irrefl _ ((M.neg_iff a a).mp h)
  have hpos : ¬ 0 < M.value a a := fun h => lt_irrefl _ ((M.pos_iff a a).mp h)
  unfold compareFunc
  rw [if_neg (by omega), if_neg (by omega)]

theorem compareFunc_le (M : Memcmp) (a b : Key) : compareFunc M a b ≤ 1 := by
  unfold compareFunc
  split_ifs <;> omega

theorem compareFunc_eq_zero_iff : compareFunc M a b = 0 ↔ M.value a b ≠ 1 ∧ M.value a b ≠ -1 := by
  unfold compareFunc
  split_ifs <;> simp_all

theorem compareFunc_of_safe (hU : U.Safe M) (ha : a ∈ U.keys) (hb : b ∈ U.keys) :
    compareFunc M a b = if a.order < b.order then -1 else if b.order < a.order then 1 else 0 := by
  by_cases hab : a = b
  · subst hab
    simp [compareFunc_self]
  · have hneg := M.neg_iff a b
    have hpos := M.pos_iff a b
    unfold compareFunc
    rcases hU.apart a ha b hb hab with h | h
    · rw [h] at hneg hpos ⊢
      have hlt : b.order < a.order := hpos.mp one_pos
      simp [hlt, hlt.le]
    · rw [h] at hneg hpos ⊢
      have hlt : a.order < b.order := hneg.mp (by decide)
      simp [hlt]

theorem compareFunc_eq_zero_of_safe (hU : U.Safe M) (ha : a ∈ U.keys) (hb : b ∈ U.keys)
    (h : compareFunc M a b = 0) : a = b := by
  by_contra hab
  obtain ⟨h₁, h₂⟩ := compareFunc_eq_zero_iff.mp h
  exact (hU.apart a ha b hb hab).elim h₁ h₂

theorem compareFunc_mono (hU : U.Safe M) {q : Key} (ha : a ∈ U.keys) (hb : b ∈ U.keys)
    (hq : q ∈ U.keys) (hab : a.order ≤ b.order) : compareFunc M a q ≤ compareFunc M b q := by
  rw [compareFunc_of_safe hU ha hq, compareFunc_of_safe hU hb hq]
  by_cases h₁ : a.order < q.order
  · rw [if_pos h₁]
    split_ifs <;> decide
  · have h₂ : ¬ b.order < q.order := fun h => h₁ (hab.trans_lt h)
    rw [if_neg h₁, if_neg h₂]
    by_cases h₃ : q.order < a.order
    · rw [if_pos h₃, if_pos (h₃.trans_le hab)]
    · rw [if_neg h₃]
      split_ifs <;> decide

end Compare

/-- An entry of memcached is stored if the keys on the way down the tree can be read. -/
theorem sstackCacheStore_live {M : Memcmp} {c : Cache} {info : ℕ} {k : Key} {d : Data}
    (hentry : c.entries[info]? = some (some ⟨k, .memcache true⟩)) (hd : d ≠ [])
    (hlive : ∀ n ∈ (c.tree.descent fun n => compareFunc M n.key k).map Crumb.item,
      c.Live n.info) :
    sstackCacheStore M c (some d) (some info) true = .ok (0, { c with
      memcached := update c.memcached k.text (some d)
      tree := c.tree.insert (fun n => compareFunc M n.key k) ⟨k, info, c.nodes⟩
      nodes := c.nodes + 1 }) := by
  have hget : c.entry info = .ok ⟨k, .memcache true⟩ := by simp [Cache.entry, hentry]
  have hread : Cache.readKeys
      { c with memcached := update c.memcached k.text (some d) }
      ((c.tree.descent fun n => compareFunc M n.key k).map Crumb.item) = .ok () :=
    require_eq_ok.mpr hlive
  simp [sstackCacheStore, hd, hget, Entry.mc, Cache.sstackMemcacheStore, Cache.rbTreeInsert,
    hread, pure, Except.pure]

/-! ### A safe usage -/

/-- The tree is sorted and points to different entries in use; a key with a node is bound to what
memcached has for it, and other keys are not bound. -/
structure Kept (U : Usage) (s : Session) : Prop where
  sorted : s.cache.tree.toList.Pairwise fun m n => m.key.order ≤ n.key.order
  held : ∀ n ∈ s.cache.tree.toList, s.cache.entries[n.info]? = some (some ⟨n.key, .memcache true⟩)
  distinct : (s.cache.tree.toList.map Node.info).Nodup
  bound : ∀ n ∈ s.cache.tree.toList, s.stored n.key = s.cache.memcached n.key.text
  unbound : ∀ k, (∀ n ∈ s.cache.tree.toList, n.key ≠ k) → s.stored k = none
  entries : ∀ (info : ℕ) (e : Entry), s.cache.entries[info]? = some (some e) →
    e.hashkey ∈ U.keys ∧ ∃ mc, e.place = .memcache mc

namespace Kept
variable {M : Memcmp} {U : Usage} {s t : Session} {k : Key}

theorem key_mem (h : Kept U s) {n : Node} (hn : n ∈ s.cache.tree.toList) : n.key ∈ U.keys :=
  (h.entries _ _ (h.held n hn)).1

theorem live (h : Kept U s) {n : Node} (hn : n ∈ s.cache.tree.toList) : s.cache.Live n.info := by
  simp [Cache.Live, h.held n hn]

theorem entry_eq (h : Kept U s) {n : Node} (hn : n ∈ s.cache.tree.toList) :
    s.cache.entry n.info = .ok ⟨n.key, .memcache true⟩ := by
  simp [Cache.entry, h.held n hn]

theorem monotone (h : Kept U s) (hU : U.Safe M) (hk : k ∈ U.keys) :
    s.cache.tree.toList.Pairwise fun m n => compareFunc M m.key k ≤ compareFunc M n.key k :=
  h.sorted.imp_of_mem fun hm hn => compareFunc_mono hU (h.key_mem hm) (h.key_mem hn) hk

/-- A search finds a node with the key, or there is none. -/
theorem rbExactQuery_cases (h : Kept U s) (hU : U.Safe M) (hk : k ∈ U.keys) :
    (∃ path, s.cache.rbExactQuery M k = .ok (.nil, path) ∧
      ∀ n ∈ s.cache.tree.toList, n.key ≠ k) ∨
    ∃ c l n r path, s.cache.rbExactQuery M k = .ok (.node c l n r, path) ∧ n.key = k ∧
      locate (fun n => compareFunc M n.key k) s.cache.tree [] = (.node c l n r, path) := by
  have hquery : s.cache.rbExactQuery M k =
      .ok (locate (fun n => compareFunc M n.key k) s.cache.tree []) := by
    refine require_bind_of ?_ _
    intro n hn
    exact h.live (compared_subset _ _ hn)
  rcases hloc : locate (fun n => compareFunc M n.key k) s.cache.tree [] with ⟨u, path⟩
  rw [hquery, hloc]
  cases u with
  | nil =>
    refine Or.inl ⟨path, rfl, fun n hn hkey => ?_⟩
    have hne := locate_nil (fun n => compareFunc_le M n.key k) (h.monotone hU hk)
      (congrArg Prod.fst hloc) n hn
    exact hne (hkey ▸ compareFunc_self M n.key)
  | node c l n r =>
    have hn := mem_of_place hloc
    have hzero := locate_node hloc
    have hkey := compareFunc_eq_zero_of_safe hU (h.key_mem hn) hk hzero
    exact Or.inr ⟨c, l, n, r, path, rfl, hkey, rfl⟩

theorem get_eq (h : Kept U s) (hU : U.Safe M) (hk : k ∈ U.keys) (size : ℕ) :
    sstackCacheGet M s.cache (some k) size = .ok (s.stored k) := by
  rw [sstackCacheGet]
  rcases h.rbExactQuery_cases hU hk with ⟨path, hquery, hnone⟩ | ⟨c, l, n, r, path, hquery, hkey,
    hloc⟩
  · rw [hquery, ok_bind, h.unbound k hnone]
  · have hn := mem_of_place hloc
    rw [hquery, ok_bind]
    dsimp only
    rw [h.entry_eq hn, ok_bind]
    have hstart := hU.starts k hk
    have hbound := h.bound n hn
    rw [hkey] at hbound
    simp [Cache.sstackMemcacheReadOne, hstart, hbound]

theorem bound_update (h : Kept U s) (hU : U.Safe M) (hk : k ∈ U.keys) (v : Option Data) {m : Node}
    (hm : m ∈ s.cache.tree.toList ∨ m.key = k) : update s.stored k v m.key =
      update s.cache.memcached k.text v m.key.text := by
  by_cases hkey : m.key = k
  · rw [hkey, update_self, update_self]
  · have hmem := hm.resolve_right hkey
    have htext := hU.texts _ (h.key_mem hmem) _ hk hkey
    rw [update_of_ne hkey, update_of_ne htext, h.bound m hmem]

/-- The entry of a node goes, with the node and with what memcached has for its key. -/
theorem purged (h : Kept U s) (hU : U.Safe M) {cmp : Node → ℤ} {color : Bool} {l r : RbTree Node}
    {n : Node} {path : List (Crumb Node)}
    (hloc : locate cmp s.cache.tree [] = (.node color l n r, path)) :
    Kept U ⟨Cache.rbDelete
      { s.cache with memcached := update s.cache.memcached n.key.text none }
      (.node color l n r, path), update s.stored n.key none⟩ := by
  have hn := mem_of_place hloc
  have hperm := deleteAt_perm hloc
  have hsub := deleteAt_sublist hloc
  have hinfo : ∀ m ∈ (deleteAt (.node color l n r) path).toList, m.info ≠ n.info := by
    have hnodup := (hperm.map Node.info).nodup_iff.mp h.distinct
    rw [List.map_cons, List.nodup_cons] at hnodup
    intro m hm heq
    exact hnodup.1 (heq ▸ List.mem_map_of_mem hm)
  refine ⟨h.sorted.sublist hsub, ?_, h.distinct.sublist (hsub.map _), ?_, ?_, ?_⟩
  · intro m hm
    change (s.cache.entries.set n.info none)[m.info]? = _
    rw [List.getElem?_set_ne (hinfo m hm).symm]
    exact h.held m (hsub.subset hm)
  · intro m hm
    exact h.bound_update hU (h.key_mem hn) none (Or.inl (hsub.subset hm))
  · intro q hq
    change update s.stored n.key none q = none
    by_cases hkey : q = n.key
    · rw [hkey, update_self]
    · rw [update_of_ne hkey]
      refine h.unbound q fun m hm => ?_
      rcases List.mem_cons.mp (hperm.subset hm) with rfl | hm
      · exact fun h => hkey h.symm
      · exact hq m hm
  · intro info e he
    change (s.cache.entries.set n.info none)[info]? = _ at he
    rw [List.getElem?_set] at he
    split_ifs at he with heq hlt
    · exact absurd he (by simp)
    · exact h.entries info e he

/-- A purge takes the key out of memcached and one node with it out of the tree. -/
theorem purge_cases (h : Kept U s) (hU : U.Safe M) (hk : k ∈ U.keys) :
    sstackCachePurge M s.cache (some k) = .ok (-1, s.cache) ∨
    ∃ c, sstackCachePurge M s.cache (some k) = .ok (0, c) ∧
      Kept U ⟨c, update s.stored k none⟩ := by
  rw [sstackCachePurge]
  rcases h.rbExactQuery_cases hU hk with ⟨path, hquery, -⟩ | ⟨color, l, n, r, path, hquery, rfl,
    hloc⟩
  · rw [hquery, ok_bind]
    exact Or.inl rfl
  · have hn := mem_of_place hloc
    obtain ⟨ret, hret, hremoved⟩ : ∃ ret, ret ≠ -1 ∧
        s.cache.sstackMemcacheRemove true n.key.text = (ret,
          { s.cache with memcached := update s.cache.memcached n.key.text none }) := by
      unfold Cache.sstackMemcacheRemove
      by_cases hnone : s.cache.memcached n.key.text = none
      · have hsame := update_eq_self n.key.text s.cache.memcached
        rw [hnone] at hsame
        exact ⟨-16, by decide, by simp [hnone, hsame]⟩
      · exact ⟨0, by decide, by simp [hnone]⟩
    refine Or.inr ⟨_, ?_, h.purged hU hloc⟩
    rw [hquery, ok_bind]
    dsimp only
    rw [h.entry_eq hn, ok_bind]
    dsimp only
    rw [hremoved, if_neg hret]

/-- An entry that the tree does not have yet gets a node, and memcached the data. -/
theorem inserted (h : Kept U s) (hU : U.Safe M) {info : ℕ}
    (he : s.cache.entries[info]? = some (some ⟨k, .memcache true⟩))
    (hfresh : ∀ n ∈ s.cache.tree.toList, n.info ≠ info) (d : Data) :
    Kept U ⟨{ s.cache with
        memcached := update s.cache.memcached k.text (some d)
        tree := s.cache.tree.insert (fun n => compareFunc M n.key k) ⟨k, info, s.cache.nodes⟩
        nodes := s.cache.nodes + 1 }, update s.stored k (some d)⟩ := by
  have hk : k ∈ U.keys := (h.entries info _ he).1
  have hperm := insert_perm (fun n : Node => compareFunc M n.key k) ⟨k, info, s.cache.nodes⟩
    s.cache.tree
  refine ⟨?_, ?_, ?_, ?_, ?_, h.entries⟩
  · -- the comparison is the order of the keys, so the new leaf stands where it belongs
    obtain ⟨hbefore, hafter⟩ := descent_sides (fun n : Node => compareFunc_le M n.key k)
      (h.monotone hU hk)
    have hlist := toList_descent (fun n : Node => compareFunc M n.key k) s.cache.tree
    have hsorted := h.sorted
    rw [hlist, List.pairwise_append] at hsorted
    obtain ⟨hleft, hright, hacross⟩ := hsorted
    change ((s.cache.tree.insert _ _).toList).Pairwise _
    rw [toList_insert, List.pairwise_append, List.pairwise_cons]
    refine ⟨hleft, ⟨?_, hright⟩, ?_⟩
    · intro n hn
      have hone := hafter n hn
      rw [compareFunc_of_safe hU (h.key_mem (by rw [hlist]; simp [hn])) hk] at hone
      by_contra hlt
      rw [if_pos (not_le.mp hlt)] at hone
      exact absurd hone (by decide)
    · intro m hm n hn
      rcases List.mem_cons.mp hn with rfl | hn
      · have hone := hbefore m hm
        rw [compareFunc_of_safe hU (h.key_mem (by rw [hlist]; simp [hm])) hk] at hone
        by_contra hlt
        have hlt := not_le.mp hlt
        exact hone (by rw [if_neg hlt.not_gt, if_pos hlt])
      · exact hacross m hm n hn
  · intro n hn
    rcases List.mem_cons.mp (hperm.subset hn) with rfl | hn
    · exact he
    · exact h.held n hn
  · refine (hperm.map Node.info).nodup_iff.mpr (List.nodup_cons.mpr ⟨?_, h.distinct⟩)
    intro hmem
    obtain ⟨n, hn, heq⟩ := List.mem_map.mp hmem
    exact hfresh n hn heq
  · intro n hn
    refine h.bound_update hU hk (some d) ?_
    rcases List.mem_cons.mp (hperm.subset hn) with rfl | hn
    · exact Or.inr rfl
    · exact Or.inl hn
  · intro q hq
    have hkey : q ≠ k := fun heq =>
      hq ⟨k, info, s.cache.nodes⟩ (hperm.mem_iff.mpr List.mem_cons_self) heq.symm
    change update s.stored k (some d) q = none
    rw [update_of_ne hkey]
    exact h.unbound q fun n hn => hq n (hperm.mem_iff.mpr (List.mem_cons_of_mem _ hn))

/-- A store that does not fail binds the key of its entry; one that fails leaves all as it is. -/
theorem store_cases (h : Kept U s) (hU : U.Safe M) {info : ℕ} {e : Entry}
    (he : s.cache.entries[info]? = some (some e))
    (hfresh : ∀ n ∈ s.cache.tree.toList, n.info ≠ info) (data : Option Data) :
    sstackCacheStore M s.cache data (some info) true = .ok (-1, s.cache) ∨
    ∃ d c, data = some d ∧ sstackCacheStore M s.cache data (some info) true = .ok (0, c) ∧
      Kept U ⟨c, update s.stored e.hashkey (some d)⟩ := by
  cases data with
  | none => exact Or.inl rfl
  | some d =>
    obtain ⟨k, place⟩ := e
    obtain ⟨hk, mc, rfl⟩ := h.entries info _ he
    by_cases hd : d = []
    · exact Or.inl (by simp [sstackCacheStore, hd])
    cases mc with
    | false =>
      left
      simp [sstackCacheStore, hd, Cache.entry, he, Entry.mc, Cache.sstackMemcacheStore]
    | true =>
      refine Or.inr ⟨d, _, rfl, sstackCacheStore_live he hd ?_, h.inserted hU he hfresh d⟩
      intro n hn
      refine h.live ?_
      rw [toList_descent (fun n : Node => compareFunc M n.key k), List.mem_append]
      obtain ⟨p, hp, rfl⟩ := List.mem_map.mp hn
      exact mem_sides_of_mem hp

/-- Every call that is allowed comes back, is right, and keeps the invariant. -/
theorem call (h : Kept U s) (hU : U.Safe M) {call : Call} (hcall : U.Allowed s call) :
    ∃ answer c, perform M s.cache call = .ok (answer, c) ∧
      (∀ k size, call = .get (some k) size → answer = .data (s.stored k)) ∧
      Kept U ⟨c, s.expected call answer⟩ := by
  cases call with
  | allocate k mc =>
    refine ⟨_, _, rfl, by simp, h.sorted, ?_, h.distinct, h.bound, h.unbound, ?_⟩
    · intro n hn
      have hheld := h.held n hn
      have hlt := (List.getElem?_eq_some_iff.mp hheld).1
      exact (List.getElem?_append_left hlt).trans hheld
    · intro info e he
      change (s.cache.entries ++ [some ⟨k, .memcache mc⟩])[info]? = _ at he
      rw [List.getElem?_append] at he
      split_ifs at he with hlt
      · exact h.entries info e he
      · have hmem := List.mem_of_getElem? he
        rw [List.mem_singleton, Option.some.injEq] at hmem
        subst hmem
        exact ⟨hcall, mc, rfl⟩
  | store data entry lru =>
    cases entry with
    | none => exact ⟨.ret (-1), s.cache, rfl, by simp, by cases data <;> exact h⟩
    | some info =>
      obtain ⟨hlive, hagain, hlru⟩ := hcall
      obtain ⟨e, he⟩ : ∃ e, s.cache.entries[info]? = some (some e) := by
        obtain ⟨e, he⟩ := Option.isSome_iff_exists.mp hlive
        exact ⟨e, Option.join_eq_some_iff.mp he⟩
      have hkeys : U.keys.Nonempty := ⟨_, (h.entries info e he).1⟩
      have hfresh := hagain.resolve_left (hU.once hkeys)
      obtain rfl := hlru.resolve_right (hU.fed hkeys)
      rcases h.store_cases hU he hfresh data with hstore | ⟨d, c, rfl, hstore, hkept⟩
      · refine ⟨.ret (-1), s.cache, by rw [perform, hstore]; rfl, by simp, ?_⟩
        have hsame : s.expected (.store data (some info) true) (.ret (-1)) = s.stored := by
          cases data <;> simp [Session.expected, he]
        rw [hsame]
        exact h
      · refine ⟨.ret 0, c, by rw [perform, hstore]; rfl, by simp, ?_⟩
        have hnew : s.expected (.store (some d) (some info) true) (.ret 0) =
            update s.stored e.hashkey (some d) := by
          simp [Session.expected, he]
        rw [hnew]
        exact hkept
  | get k size =>
    cases k with
    | none => exact ⟨.data none, s.cache, rfl, by simp, h⟩
    | some k =>
      refine ⟨.data (s.stored k), s.cache, ?_, ?_, h⟩
      · rw [perform, h.get_eq hU (hcall k rfl) size]
        rfl
      · intro q n hq
        cases hq
        rfl
  | purge k =>
    cases k with
    | none => exact ⟨.ret (-1), s.cache, rfl, by simp, h⟩
    | some k =>
      rcases h.purge_cases hU (hcall k rfl) with hpurge | ⟨c, hpurge, hkept⟩
      · refine ⟨.ret (-1), s.cache, by rw [perform, hpurge]; rfl, by simp, ?_⟩
        rw [Session.expected, if_neg (by decide)]
        exact h
      · exact ⟨.ret 0, c, by rw [perform, hpurge]; rfl, by simp, hkept⟩

theorem of_init (hs : (sessions M).init s) : Kept U s := by
  obtain ⟨hentries, htree, -, hstored⟩ := hs
  constructor <;> simp [hentries, htree, hstored, toList]

theorem of_reach (hU : U.Safe M) (hs : (sessions M).Reach U.Allowed s) : Kept U s := by
  refine System.Reach.invariant (fun _ => of_init) ?_ hs
  intro s call t _ h hcall hstep
  obtain ⟨answer, c, hperform, -, hkept⟩ := h.call hU hcall
  rw [sessions_step hperform] at hstep
  obtain rfl := Option.some.inj hstep
  exact hkept

end Kept

/-! ### The other usages -/

section Unsafe
variable {M : Memcmp} {U : Usage} {s : Session} {a b k : Key} {d : Data}

-- The runs below are a few calls long, and these definitions execute them.
attribute [local simp] perform sstackAllocateCacheEntry sstackCacheStore sstackCacheGet
  sstackCachePurge Cache.entry Entry.mc Cache.Live Cache.readKeys Cache.rbExactQuery
  Cache.rbTreeInsert Cache.rbDelete Cache.sstackMemcacheStore Cache.sstackMemcacheRemove
  Cache.sstackMemcacheReadOne require locate compared descent RbTree.insert insertFix zip
  Crumb.fill Crumb.item paint toList deleteAt splice deleteFix placeOf red compareFunc_self
  Session.expected pure Except.pure Except.map

theorem reach_perform (hs : (sessions M).Reach U.Allowed s) (call : Call) (answer : Answer)
    (c : Cache) (hcall : U.Allowed s call) (h : perform M s.cache call = .ok (answer, c)) :
    (sessions M).Reach U.Allowed ⟨c, s.expected call answer⟩ :=
  hs.step hcall (sessions_step h)

theorem not_right_of_get (x : Option Data) (h : sstackCacheGet M s.cache (some k) 0 = .ok x)
    (hne : x ≠ s.stored k) : ¬ s.Right M (.get (some k) 0) := by
  rintro ⟨answer, c, hperform, hanswer⟩
  rw [perform, h] at hperform
  have hdata : Answer.data x = answer := (Prod.mk.inj (Except.ok.inj hperform)).1
  rw [hanswer k 0 rfl] at hdata
  exact hne (Answer.data.inj hdata)

def oneStored (a : Key) (d : Data) : Session where
  cache :=
    { entries := [some ⟨a, .memcache true⟩]
      tree := .node false .nil ⟨a, 0, 0⟩ .nil
      nodes := 1
      memcached := update (fun _ => none) a.text (some d)
      ssd := fun _ _ => none }
  stored := update (fun _ => none) a (some d)

theorem reach_oneStored (M : Memcmp) (ha : a ∈ U.keys) (hd : d ≠ []) :
    (sessions M).Reach U.Allowed (oneStored a d) := by
  have hinit : (sessions M).Reach U.Allowed
      ⟨⟨[], .nil, 0, fun _ => none, fun _ _ => none⟩, fun _ => none⟩ :=
    .init ⟨rfl, rfl, rfl, rfl⟩
  have halloc := reach_perform hinit (.allocate a true) (.entry 0) _ ha rfl
  have hstore := reach_perform halloc (.store (some d) (some 0) true) (.ret 0)
    (oneStored a d).cache ⟨rfl, Or.inr (by simp), Or.inl rfl⟩
    (by
      rw [perform, sstackCacheStore_live rfl hd (by simp)]
      rfl)
  simpa [oneStored] using hstore

theorem get_fails_of_start (ha : a ∈ U.keys) (htext : a.text = []) :
    ∃ s, (sessions M).Reach U.Allowed s ∧ ¬ s.Right M (.get (some a) 0) := by
  refine ⟨_, reach_oneStored M ha (List.cons_ne_nil 1 []), not_right_of_get none ?_ ?_⟩
  · simp [oneStored, htext]
  · simp [oneStored]

theorem get_fails_of_purge (ha : a ∈ U.keys) (hb : b ∈ U.keys) (hab : a ≠ b)
    (hcmp : compareFunc M a b = 0) :
    ∃ s, (sessions M).Reach U.Allowed s ∧ ¬ s.Right M (.get (some a) 0) := by
  have hpurge := reach_perform (reach_oneStored M ha (List.cons_ne_nil 1 []))
    (.purge (some b)) (.ret 0)
    { entries := [none]
      tree := .nil
      nodes := 1
      memcached := update (update (fun _ => none) a.text (some [1])) a.text none
      ssd := fun _ _ => none }
    (by simpa [Usage.Allowed] using hb) (by simp [oneStored, hcmp])
  refine ⟨_, hpurge, not_right_of_get none ?_ ?_⟩
  · simp
  · simp [oneStored, hab]

/-- A key with the text of the one stored takes its place in memcached. -/
theorem get_fails_of_text (ha : a ∈ U.keys) (hb : b ∈ U.keys) (hab : a ≠ b)
    (htext : a.text = b.text) (hstart : b.text ≠ []) :
    ∃ s, (sessions M).Reach U.Allowed s ∧ ¬ s.Right M (.get (some a) 0) := by
  have halloc := reach_perform (reach_oneStored M ha (List.cons_ne_nil 1 []))
    (.allocate b true) (.entry 1) _ hb rfl
  have hstore := reach_perform halloc (.store (some [2]) (some 1) true) (.ret 0)
    { entries := [some ⟨a, .memcache true⟩, some ⟨b, .memcache true⟩]
      tree := RbTree.insert (fun n => compareFunc M n.key b) ⟨b, 1, 1⟩
        (.node false .nil ⟨a, 0, 0⟩ .nil)
      nodes := 2
      memcached :=
        update (update (fun _ => none) a.text (some [1])) b.text (some [2])
      ssd := fun _ _ => none }
    ⟨rfl, Or.inr (by simp [oneStored]), Or.inl rfl⟩
    (by
      rw [perform, sstackCacheStore_live rfl (List.cons_ne_nil 2 [])]
      · rfl
      · by_cases hone : compareFunc M a b = 1 <;> simp [oneStored, hone])
  -- the first key stays at the root, on whichever side the second one is put
  refine ⟨_, hstore, not_right_of_get (some [2]) ?_ ?_⟩
  · by_cases hone : compareFunc M a b = 1 <;> simp [hone, htext, hstart]
  · simp [oneStored, hab]

/-- An entry that is stored twice has two nodes, and a purge leaves one that points to freed
memory. -/
theorem get_faults_of_again (ha : a ∈ U.keys) (hagain : U.again) :
    ∃ s, (sessions M).Reach U.Allowed s ∧ ¬ s.Right M (.get (some a) 0) := by
  have hstore := reach_perform (reach_oneStored M ha (List.cons_ne_nil 1 []))
    (.store (some [1]) (some 0) true) (.ret 0)
    { entries := [some ⟨a, .memcache true⟩]
      tree := .node false .nil ⟨a, 0, 0⟩ (.node true .nil ⟨a, 0, 1⟩ .nil)
      nodes := 2
      memcached := update (fun _ => none) a.text (some [1])
      ssd := fun _ _ => none }
    ⟨rfl, Or.inl hagain, Or.inl rfl⟩
    (by
      rw [perform, sstackCacheStore_live rfl (List.cons_ne_nil 1 []) (by simp [oneStored])]
      simp [oneStored])
  have hpurge := reach_perform hstore (.purge (some a)) (.ret 0)
    { entries := [none]
      tree := .node false .nil ⟨a, 0, 1⟩ .nil
      nodes := 2
      memcached := update (update (fun _ => none) a.text (some [1])) a.text none
      ssd := fun _ _ => none }
    (by simpa [Usage.Allowed] using ha) (by simp)
  refine ⟨_, hpurge, ?_⟩
  rintro ⟨answer, c, hperform, -⟩
  simp at hperform

/-- A store that fails for want of memory takes what was stored before with it. -/
theorem get_fails_of_starved (ha : a ∈ U.keys) (hstarved : U.starved) :
    ∃ s, (sessions M).Reach U.Allowed s ∧ ¬ s.Right M (.get (some a) 0) := by
  have halloc := reach_perform (reach_oneStored M ha (List.cons_ne_nil 1 []))
    (.allocate a true) (.entry 1) _ ha rfl
  have hstore := reach_perform halloc (.store (some [2]) (some 1) false) (.ret (-1))
    { entries := [some ⟨a, .memcache true⟩, none]
      tree := .node false .nil ⟨a, 0, 0⟩ .nil
      nodes := 2
      memcached := update (update (update (fun _ => none)
        a.text (some [1])) a.text (some [2])) a.text none
      ssd := fun _ _ => none }
    ⟨rfl, Or.inr (by simp [oneStored]), Or.inr hstarved⟩ (by simp [oneStored])
  refine ⟨_, hstore, not_right_of_get none ?_ ?_⟩
  · simp
  · simp [oneStored]

end Unsafe

/-- The cache is a map in every run of a usage just when the usage is safe. -/
theorem cache_map_iff_safe (M : Memcmp) (U : Usage) :
    (∀ s, (sessions M).Reach U.Allowed s → ∀ call, U.Allowed s call → s.Right M call) ↔
      U.Safe M := by
  constructor
  · intro h
    have hget : ∀ a ∈ U.keys, ¬ ∃ s, (sessions M).Reach U.Allowed s ∧
        ¬ s.Right M (.get (some a) 0) := by
      rintro a ha ⟨s, hs, hwrong⟩
      exact hwrong (h s hs _ (by simpa [Usage.Allowed] using ha))
    have hstarts : ∀ a ∈ U.keys, a.text ≠ [] := fun a ha htext =>
      hget a ha (get_fails_of_start ha htext)
    refine ⟨?_, ?_, hstarts, ?_, ?_⟩
    · intro a ha b hb hab
      by_contra hnot
      rw [not_or] at hnot
      exact hget a ha (get_fails_of_purge ha hb hab (compareFunc_eq_zero_iff.mpr hnot))
    · intro a ha b hb hab htext
      exact hget a ha (get_fails_of_text ha hb hab htext (hstarts b hb))
    · rintro ⟨a, ha⟩ hagain
      exact hget a ha (get_faults_of_again ha hagain)
    · rintro ⟨a, ha⟩ hstarved
      exact hget a ha (get_fails_of_starved ha hstarved)
  · intro hU s hs call hcall
    obtain ⟨answer, c, hperform, hright, -⟩ := (Kept.of_reach hU hs).call hU hcall
    exact ⟨answer, c, hperform, hright⟩

/-! ### Keys that fail -/

def firstDifference : List ℕ → List ℕ → ℤ
  | x :: xs, y :: ys => if x = y then firstDifference xs ys else x - y
  | _, _ => 0

theorem firstDifference_sign : ∀ l m : List ℕ, l.length = m.length →
    (firstDifference l m < 0 ↔ l < m) ∧ (0 < firstDifference l m ↔ m < l)
  | [], [], _ => by simp [firstDifference]
  | x :: xs, y :: ys, h => by
    obtain ⟨hneg, hpos⟩ := firstDifference_sign xs ys (Nat.succ.inj h)
    rw [firstDifference, List.cons_lt_cons_iff, List.cons_lt_cons_iff]
    split_ifs with hxy
    · simp [hxy, hneg, hpos]
    · have hyx : y ≠ x := Ne.symm hxy
      constructor
      · simp [hxy]
      · simp [hyx]

theorem Key.order_length (a : Key) : a.order.length = digestLength :=
  (List.length_map _).trans a.2

/-- A `memcmp` that returns the difference of the bytes. -/
def byteDifference : Memcmp where
  value a b := firstDifference a.order b.order
  neg_iff a b := (firstDifference_sign _ _ (a.order_length.trans b.order_length.symm)).1
  pos_iff a b := (firstDifference_sign _ _ (a.order_length.trans b.order_length.symm)).2

def keyOf (first middle last : UInt8) : Key :=
  ⟨first :: List.replicate 30 middle ++ [last], rfl⟩

/-- Each entry is stored once and memory never runs out. -/
def plainUsage (keys : Set Key) : Usage := ⟨keys, False, False⟩

/-- Two keys that agree up to a zero byte get each other's data; and where `memcmp` returns
differences of bytes, purging one of two keys purges the other. -/
theorem cache_map_fails :
    (∀ M, ∃ s, (sessions M).Reach (plainUsage {keyOf 1 0 0, keyOf 1 0 1}).Allowed s ∧
      ¬ s.Right M (.get (some (keyOf 1 0 0)) 0)) ∧
    ∃ s, (sessions byteDifference).Reach (plainUsage {keyOf 1 1 1, keyOf 3 1 1}).Allowed s ∧
      ¬ s.Right byteDifference (.get (some (keyOf 1 1 1)) 0) := by
  constructor
  · intro M
    exact get_fails_of_text (U := plainUsage {keyOf 1 0 0, keyOf 1 0 1}) (Or.inl rfl) (Or.inr rfl)
      (by decide) (by decide) (by decide)
  · exact get_fails_of_purge (U := plainUsage {keyOf 1 1 1, keyOf 3 1 1}) (Or.inl rfl) (Or.inr rfl)
      (by decide) (by decide)

end SeamlessStack.DataCache
