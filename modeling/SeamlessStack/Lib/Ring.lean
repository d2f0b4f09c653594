import Mathlib.Logic.Function.Basic
import Mathlib.Data.Set.Insert
import SeamlessStack.Lib.Linked

/-! Circular doubly linked lists: nodes with a `next` and a `prev` link, one of them the head
of the list. -/
namespace SeamlessStack.Lib

open Function

/-- The links of all nodes, those that are on no list included. -/
structure Links (α : Type*) where
  next : α → α
  prev : α → α

namespace Links
variable {α : Type*} {s : Links α} {h x p q : α} {l : List α}

/-- Following `next` from the head `h` visits the nodes of the list once and comes back; each link
back is the reverse of the link that leads there. -/
structure Ring (s : Links α) (h : α) (l : List α) : Prop where
  path : Linked (fun x => some (s.next x)) (s.next h) l h
  nodup : (h :: l).Nodup
  back : ∀ x ∈ h :: l, s.prev (s.next x) = x

/-- Following `next` from `h` goes into a set of nodes that it never leaves. -/
def Strays (s : Links α) (h : α) : Prop :=
  ∃ S : Set α, h ∉ S ∧ s.next h ∈ S ∧ ∀ x ∈ S, s.next x ∈ S

theorem next_mem_of_linked (hp : Linked (fun x => some (s.next x)) p l q) (hx : x ∈ l) :
    s.next x ∈ l ∨ s.next x = q := by
  induction l generalizing p with
  | nil => cases hx
  | cons a l ih =>
    obtain ⟨rfl, r, hr, hl⟩ := hp
    obtain rfl := Option.some.inj hr
    rcases List.mem_cons.mp hx with rfl | hx
    · rcases hl.start with hm | ⟨-, he⟩
      · exact Or.inl (List.mem_cons_of_mem _ hm)
      · exact Or.inr he
    · exact (ih hl hx).imp_left (List.mem_cons_of_mem _)

theorem exists_next_eq_of_linked (hp : Linked (fun x => some (s.next x)) p l q)
    (hx : x ∈ l ∨ x = q) : x = p ∨ ∃ y ∈ l, s.next y = x := by
  induction l generalizing p with
  | nil => exact Or.inl ((hx.resolve_left (by simp)).trans hp.symm)
  | cons a l ih =>
    obtain ⟨rfl, r, hr, hl⟩ := hp
    obtain rfl := Option.some.inj hr
    by_cases he : x = p
    · exact Or.inl he
    · right
      rcases ih hl (hx.imp_left fun hm => (List.mem_cons.mp hm).resolve_left he) with rfl | ⟨y, hy,
        rfl⟩
      · exact ⟨p, List.mem_cons_self, rfl⟩
      · exact ⟨y, List.mem_cons_of_mem _ hy, rfl⟩

theorem Ring.exists_next_eq (hr : s.Ring h l) (hx : x ∈ h :: l) : ∃ y ∈ h :: l, s.next y = x := by
  rcases exists_next_eq_of_linked hr.path (List.mem_cons.mp hx).symm with rfl | ⟨y, hy, rfl⟩
  · exact ⟨h, List.mem_cons_self, rfl⟩
  · exact ⟨y, List.mem_cons_of_mem _ hy, rfl⟩

theorem Ring.next_prev (hr : s.Ring h l) (hx : x ∈ h :: l) : s.next (s.prev x) = x := by
  obtain ⟨y, hy, rfl⟩ := hr.exists_next_eq hx
  rw [hr.back y hy]

theorem Ring.next_mem (hr : s.Ring h l) (hx : x ∈ h :: l) : s.next x ∈ h :: l := by
  rcases List.mem_cons.mp hx with rfl | hx
  · rcases hr.path.start with hm | ⟨-, he⟩
    · exact List.mem_cons_of_mem _ hm
    · rw [he]
      exact List.mem_cons_self
  · exact List.mem_cons.mpr (next_mem_of_linked hr.path hx).symm

theorem Ring.prev_mem (hr : s.Ring h l) (hx : x ∈ h :: l) : s.prev x ∈ h :: l := by
  obtain ⟨y, hy, rfl⟩ := hr.exists_next_eq hx
  rwa [hr.back y hy]

theorem Ring.closed (hr : s.Ring h l) : Linked (fun x => some (s.next x)) h (h :: l) h :=
  ⟨rfl, s.next h, rfl, hr.path⟩

theorem Ring.concat_prev {m : List α} (hr : s.Ring h l)
    (hp : Linked (fun x => some (s.next x)) p (q :: m) x) (hm : ∀ y ∈ q :: m, y ∈ h :: l) :
    ∃ m', q :: m = m' ++ [s.prev x] := by
  obtain ⟨m', z, he⟩ := (List.eq_nil_or_concat' (q :: m)).resolve_left (List.cons_ne_nil q m)
  rw [he] at hp hm ⊢
  obtain ⟨u, -, -, v, hv, hvx⟩ := linked_append.mp hp
  have hnext : s.next z = x := (Option.some.inj hv).trans hvx
  have hback := hr.back z (hm z (by simp))
  rw [hnext] at hback
  exact ⟨m', by rw [hback]⟩

theorem Ring.rotate {m t : List α} (hr : s.Ring h (m ++ x :: t)) : s.Ring x (t ++ h :: m) := by
  have hperm : (x :: (t ++ h :: m)).Perm (h :: (m ++ x :: t)) := by
    rw [← List.cons_append, ← List.cons_append]
    exact List.perm_append_comm
  obtain ⟨u, hfront, rfl, v, hv, hbehind⟩ := linked_append.mp hr.path
  obtain rfl := Option.some.inj hv
  refine ⟨?_, hperm.nodup_iff.mpr hr.nodup, fun y hy => hr.back y (hperm.mem_iff.mp hy)⟩
  exact linked_append.mpr ⟨h, hbehind, rfl, s.next h, rfl, hfront⟩

theorem Ring.congr {s' : Links α} (hr : s.Ring h l) (hn : ∀ y ∈ h :: l, s'.next y = s.next y)
    (hp : ∀ y ∈ h :: l, s'.prev y = s.prev y) : s'.Ring h l := by
  refine ⟨?_, hr.nodup, ?_⟩
  · rw [hn h List.mem_cons_self]
    exact hr.path.congr fun y hy => congrArg some (hn y (List.mem_cons_of_mem _ hy))
  · intro y hy
    rw [hn y hy, hp _ (hr.next_mem hy), hr.back y hy]

theorem linked_unique {m : List α} (hl : Linked (fun x => some (s.next x)) p l h)
    (hm : Linked (fun x => some (s.next x)) p m h) (hhl : h ∉ l) (hhm : h ∉ m) : l = m := by
  induction l generalizing p m with
  | nil =>
    cases m with
    | nil => rfl
    | cons b m =>
      obtain rfl : p = h := hl
      exact absurd (hm.1 ▸ List.mem_cons_self) hhm
  | cons a l ih =>
    obtain ⟨rfl, r, hr, hl⟩ := hl
    cases m with
    | nil =>
      obtain rfl : p = h := hm
      exact absurd List.mem_cons_self hhl
    | cons b m =>
      obtain ⟨rfl, r', hr', hm⟩ := hm
      obtain rfl := Option.some.inj (hr.symm.trans hr')
      rw [ih hl hm (fun hx => hhl (List.mem_cons_of_mem _ hx))
        fun hx => hhm (List.mem_cons_of_mem _ hx)]

theorem Ring.unique {m : List α} (hl : s.Ring h l) (hm : s.Ring h m) : l = m :=
  linked_unique hl.path hm.path (List.nodup_cons.mp hl.nodup).1 (List.nodup_cons.mp hm.nodup).1

theorem linked_mem {S : Set α} (hp : Linked (fun x => some (s.next x)) p l q) (hpS : p ∈ S)
    (hS : ∀ x ∈ S, s.next x ∈ S) : q ∈ S := by
  induction l generalizing p with
  | nil => exact (show p = q from hp) ▸ hpS
  | cons a l ih =>
    obtain ⟨rfl, r, hr, hl⟩ := hp
    obtain rfl := Option.some.inj hr
    exact ih hl (hS p hpS)

theorem Strays.not_ring (hs : s.Strays h) : ¬ s.Ring h l := by
  intro hr
  obtain ⟨S, hh, hn, hS⟩ := hs
  exact hh (linked_mem hr.path hn hS)

section Edit
variable [DecidableEq α] {new h' : α} {l' m t : List α}

def insert (s : Links α) (new p n : α) : Links α where
  next := update (update s.next p new) new n
  prev := update (update s.prev new p) n new

def addTail (s : Links α) (new h : α) : Links α := s.insert new (s.prev h) h

theorem addTail_next (hne : x ≠ new) (hp : x ≠ s.prev h) :
    (s.addTail new h).next x = s.next x := by
  simp [addTail, insert, hne, hp]

@[simp] theorem addTail_next_new : (s.addTail new h).next new = h := by simp [addTail, insert]

theorem addTail_next_last (hne : s.prev h ≠ new) : (s.addTail new h).next (s.prev h) = new := by
  simp [addTail, insert, hne]

theorem addTail_prev (hne : x ≠ new) (hh : x ≠ h) : (s.addTail new h).prev x = s.prev x := by
  simp [addTail, insert, hne, hh]

theorem addTail_prev_new (hne : new ≠ h) : (s.addTail new h).prev new = s.prev h := by
  simp [addTail, insert, hne]

@[simp] theorem addTail_prev_head : (s.addTail new h).prev h = new := by simp [addTail, insert]

/-- A node that is not yet on the ring can be added at its end. -/
theorem Ring.addTail (hr : s.Ring h l) (hnew : new ∉ h :: l) :
    (s.addTail new h).Ring h (l ++ [new]) := by
  have hold : ∀ y ∈ h :: l, y ≠ new := fun y hy e => hnew (e ▸ hy)
  have hlast : s.prev h ∈ h :: l := hr.prev_mem List.mem_cons_self
  have hnodup := hr.nodup
  obtain ⟨m, he⟩ := hr.concat_prev hr.closed fun y hy => hy
  have hpath : Linked (fun x => some ((s.addTail new h).next x)) h (h :: l ++ [new]) h := by
    rw [he] at hold hnodup ⊢
    refine (he ▸ hr.closed).extend (fun y hy => ?_) ?_ ?_
    · have hne : y ≠ s.prev h := by
        rintro rfl
        exact List.disjoint_of_nodup_append hnodup hy List.mem_cons_self
      rw [addTail_next (hold y (List.mem_append_left _ hy)) hne]
    · rw [addTail_next_last (hold _ (by simp))]
    · rw [addTail_next_new]
  refine ⟨?_, ?_, ?_⟩
  · obtain ⟨-, r, hnext, hl⟩ := hpath
    obtain rfl := Option.some.inj hnext
    exact hl
  · rw [← List.cons_append]
    exact hnodup.append (List.nodup_singleton new) (by simpa using hnew)
  · intro y hy
    rcases List.mem_append.mp (List.cons_append ▸ hy : y ∈ h :: l ++ [new]) with hy | hy
    · by_cases hyl : y = s.prev h
      · rw [hyl, addTail_next_last (hold _ hlast),
        addTail_prev_new (hold h List.mem_cons_self).symm]
      · -- a second node in front of the head would be its link back too
        have hne : s.next y ≠ h := fun e => hyl (by rw [← hr.back y hy, e])
        rw [addTail_next (hold y hy) hyl, addTail_prev (hold _ (hr.next_mem hy)) hne, hr.back y hy]
    · rw [List.mem_singleton.mp hy, addTail_next_new, addTail_prev_head]

theorem Ring.addTail_other (hr : s.Ring h l) (ho : s.Ring h' l') (hd : ∀ y ∈ h' :: l', y ∉ h :: l)
    (hnew : new ∉ h' :: l') : (s.addTail new h).Ring h' l' := by
  have hold : ∀ y ∈ h' :: l', y ≠ new := fun y hy e => hnew (e ▸ hy)
  refine ho.congr (fun y hy => addTail_next (hold y hy) fun e => ?_)
    fun y hy => addTail_prev (hold y hy) fun e => ?_
  · exact hd y hy (e ▸ hr.prev_mem List.mem_cons_self)
  · exact hd y hy (e ▸ List.mem_cons_self)

def del (s : Links α) (x : α) : Links α where
  next := update s.next (s.prev x) (s.next x)
  prev := update s.prev (s.next x) (s.prev x)

@[simp] theorem del_next_prev : (s.del x).next (s.prev x) = s.next x := by simp [del]

theorem del_next {y : α} (hne : y ≠ s.prev x) : (s.del x).next y = s.next y := by simp [del, hne]

@[simp] theorem del_prev_next : (s.del x).prev (s.next x) = s.prev x := by simp [del]

theorem del_prev {y : α} (hne : y ≠ s.next x) : (s.del x).prev y = s.prev y := by simp [del, hne]

/-- Removing a node leaves the ring of the others. -/
theorem Ring.del (hr : s.Ring h (m ++ x :: t)) : (s.del x).Ring h (m ++ t) := by
  have hnodup : ((h :: m) ++ x :: t).Nodup := hr.nodup
  have hsub : (h :: (m ++ t)).Sublist (h :: (m ++ x :: t)) :=
    ((List.sublist_cons_self x t).append_left m).cons_cons h
  obtain ⟨u, hfront, rfl, v, hv, hbehind⟩ := linked_append.mp
    (show Linked _ h ((h :: m) ++ x :: t) h from hr.closed)
  obtain rfl := Option.some.inj hv
  obtain ⟨m', he⟩ := hr.concat_prev hfront fun y hy => List.mem_append_left (u :: t) hy
  have hpath : Linked (fun y => some ((s.del u).next y)) h (h :: m ++ t) h := by
    refine linked_append.mpr ⟨s.next u, ?_, hbehind.congr fun y hy => ?_⟩
    · rw [he] at hfront hnodup ⊢
      refine hfront.redirect (fun y hy => ?_) (congrArg some del_next_prev)
      have hne : y ≠ s.prev u := by
        rintro rfl
        exact List.disjoint_of_nodup_append (List.nodup_append.mp hnodup).1 hy List.mem_cons_self
      rw [del_next hne]
    · have hne : y ≠ s.prev u := by
        rintro rfl
        have hmem : s.prev u ∈ h :: m := he ▸ List.mem_append_right m' List.mem_cons_self
        exact List.disjoint_of_nodup_append hnodup hmem (List.mem_cons_of_mem _ hy)
      rw [del_next hne]
  refine ⟨?_, hr.nodup.sublist hsub, ?_⟩
  · obtain ⟨-, r, hnext, hl⟩ := hpath
    obtain rfl := Option.some.inj hnext
    exact hl
  · intro y hy
    have hyr : y ∈ h :: (m ++ u :: t) := hsub.subset hy
    by_cases hyp : y = s.prev u
    · rw [hyp, del_next_prev, del_prev_next]
    · have hyu : y ≠ u := by
        rintro rfl
        exact (List.nodup_middle.mp hnodup).notMem hy
      have hne : s.next y ≠ s.next u := by
        intro e
        apply hyu
        rw [← hr.back y hyr, e, hr.back u (by simp)]
      rw [del_next hyp, del_prev hne, hr.back y hyr]

theorem Ring.del_erase (hr : s.Ring h l) (hx : x ∈ l) : (s.del x).Ring h (l.erase x) := by
  have hnodup := (List.nodup_cons.mp hr.nodup).2
  obtain ⟨m, t, rfl⟩ := List.append_of_mem hx
  have hm : x ∉ m := fun hm => List.disjoint_of_nodup_append hnodup hm List.mem_cons_self
  rw [List.erase_append_right _ hm, List.erase_cons_head]
  exact hr.del

theorem Ring.del_other (hr : s.Ring h l) (hx : x ∈ h :: l) (ho : s.Ring h' l')
    (hd : ∀ y ∈ h' :: l', y ∉ h :: l) : (s.del x).Ring h' l' := by
  refine ho.congr (fun y hy => del_next fun e => ?_) fun y hy => del_prev fun e => ?_
  · exact hd y hy (e ▸ hr.prev_mem hx)
  · exact hd y hy (e ▸ hr.next_mem hx)

def reset (s : Links α) (h : α) : Links α where
  next := update s.next h h
  prev := update s.prev h h

theorem ring_reset : (s.reset h).Ring h [] := by
  refine ⟨by simp [reset], List.nodup_singleton h, ?_⟩
  intro y hy
  obtain rfl := List.mem_singleton.mp hy
  simp [reset]

theorem Ring.reset_other (ho : s.Ring h' l') (hh : h ∉ h' :: l') : (s.reset h).Ring h' l' := by
  have hne : ∀ y ∈ h' :: l', y ≠ h := fun y hy e => hh (e ▸ hy)
  exact ho.congr (fun y hy => update_of_ne (hne y hy) _ _)
    fun y hy => update_of_ne (hne y hy) _ _

end Edit

section Front
variable [DecidableEq α] {new : α}

def add (s : Links α) (new h : α) : Links α := s.insert new h (s.next h)

@[simp] theorem add_next_new : (s.add new h).next new = s.next h := by simp [add, insert]

theorem add_next_head (hne : new ≠ h) : (s.add new h).next h = new := by
  simp [add, insert, hne.symm]

theorem add_next (hne : x ≠ new) (hh : x ≠ h) : (s.add new h).next x = s.next x := by
  simp [add, insert, hne, hh]

/-- A node that is not on the ring is added behind the last node. -/
theorem Ring.add (hr : s.Ring h l) (hnew : new ∉ h :: l) : (s.add new h).Ring h (new :: l) := by
  have hback : s.prev (s.next h) = h := hr.back h List.mem_cons_self
  have hadd : s.add new h = s.addTail new (s.next h) := by rw [Links.add, Links.addTail, hback]
  rw [hadd]
  cases l with
  | nil =>
    have hself : s.next h = h := hr.path
    rw [hself]
    exact hr.addTail hnew
  | cons x t =>
    have hfirst : s.next h = x := hr.path.1
    have hturned : s.Ring x (t ++ [h]) := (show s.Ring h ([] ++ x :: t) from hr).rotate
    have hnotin : new ∉ x :: (t ++ [h]) := by
      simp only [List.mem_cons, List.mem_append, List.not_mem_nil, or_false] at hnew ⊢
      tauto
    have hadded := hturned.addTail hnotin
    rw [List.append_assoc] at hadded
    rw [hfirst]
    exact hadded.rotate

/-- Adding a node that is on the ring already closes a cycle that leaves the head out. -/
theorem Ring.strays_add (hr : s.Ring h l) (hnew : new ∈ l) : (s.add new h).Strays h := by
  obtain ⟨hhl, hl⟩ := List.nodup_cons.mp hr.nodup
  have hnh : new ≠ h := fun e => hhl (e ▸ hnew)
  obtain ⟨m, t, rfl⟩ := List.append_of_mem hnew
  obtain ⟨r, hm, hrnew, -⟩ := linked_append.mp hr.path
  subst hrnew
  have hnm : r ∉ m := fun hx => (List.nodup_append.mp hl).2.2 r hx r List.mem_cons_self rfl
  refine ⟨{x | x ∈ m ∨ x = r}, ?_, ?_, ?_⟩
  · rintro (hx | rfl)
    · exact hhl (List.mem_append_left _ hx)
    · exact hnh rfl
  · rw [add_next_head hnh]
    exact Or.inr rfl
  · rintro x (hx | rfl)
    · have hxr : x ≠ r := fun e => hnm (e ▸ hx)
      have hxh : x ≠ h := fun e => hhl (e ▸ List.mem_append_left _ hx)
      rw [add_next hxr hxh]
      exact next_mem_of_linked hm hx
    · rw [add_next_new]
      exact hm.start.imp_right And.right

theorem Strays.add (hs : s.Strays h) (hne : new ≠ h) : (s.add new h).Strays h := by
  obtain ⟨S, hh, hn, hS⟩ := hs
  refine ⟨Insert.insert new S, ?_, ?_, ?_⟩
  · rw [Set.mem_insert_iff]
    rintro (e | hm)
    · exact hne e.symm
    · exact hh hm
  · rw [add_next_head hne]
    exact Set.mem_insert _ _
  · intro x hx
    by_cases he : x = new
    · subst he
      rw [add_next_new]
      exact Set.mem_insert_of_mem _ hn
    · have hxS : x ∈ S := (Set.mem_insert_iff.mp hx).resolve_left he
      have hxh : x ≠ h := fun e => hh (e ▸ hxS)
      rw [add_next he hxh]
      exact Set.mem_insert_of_mem _ (hS x hxS)

end Front

end Links
end SeamlessStack.Lib
